import Mathlib.Data.List.Induction
import Mathlib.Data.Nat.Bitwise
import Mathlib.Tactic.Ring

/-!
# Packing small numbers into words

A word holds numbers of a fixed width, the first in its low bits. Words are filled by or-ing shifted
numbers into them and read by shifting and masking. No number spans two words, so the unused bits of
a word and the unused numbers of the last word are zero.
-/

namespace Steel.WordPacking

open List

/-- The numbers as digits, the first least significant. -/
def packWord (bits : ℕ) : List ℕ → ℕ
  | [] => 0
  | entry :: rest => entry + 2 ^ bits * packWord bits rest

def wordEntry (bits word slot : ℕ) : ℕ := (word >>> (slot * bits)) &&& (2 ^ bits - 1)

def orFrom (bits word slot : ℕ) : List ℕ → ℕ
  | [] => word
  | entry :: rest => orFrom bits (word ||| (entry <<< (slot * bits)) % 2 ^ 64) (slot + 1) rest

theorem wordEntry_eq (bits word slot : ℕ) :
    wordEntry bits word slot = word / 2 ^ (slot * bits) % 2 ^ bits := by
  rw [wordEntry, Nat.and_two_pow_sub_one_eq_mod, Nat.shiftRight_eq_div_pow]

variable {bits : ℕ} {entries : List ℕ}

theorem packWord_lt (h : ∀ entry ∈ entries, entry < 2 ^ bits) :
    packWord bits entries < 2 ^ (entries.length * bits) := by
  induction entries with
  | nil => simp [packWord]
  | cons entry rest ih =>
    have hentry := h entry mem_cons_self
    have hrest := ih fun e he => h e (mem_cons_of_mem _ he)
    calc packWord bits (entry :: rest) < 2 ^ bits + 2 ^ bits * packWord bits rest := by
          rw [packWord]
          omega
      _ = 2 ^ bits * (packWord bits rest + 1) := by ring
      _ ≤ 2 ^ bits * 2 ^ (rest.length * bits) := Nat.mul_le_mul_left _ hrest
      _ = 2 ^ ((entry :: rest).length * bits) := by
          rw [← pow_add, length_cons]
          congr 1
          ring

variable {slot entry : ℕ}

theorem wordEntry_packWord (h : ∀ entry ∈ entries, entry < 2 ^ bits)
    (hslot : entries[slot]? = some entry) :
    wordEntry bits (packWord bits entries) slot = entry := by
  rw [wordEntry_eq]
  induction entries generalizing slot with
  | nil => simp at hslot
  | cons first rest ih =>
    have hfirst := h first mem_cons_self
    cases slot with
    | zero =>
      cases hslot
      rw [packWord, Nat.zero_mul, pow_zero, Nat.div_one, Nat.add_mul_mod_self_left,
        Nat.mod_eq_of_lt hfirst]
    | succ slot =>
      have hdiv : packWord bits (first :: rest) / 2 ^ bits = packWord bits rest := by
        rw [packWord, Nat.add_mul_div_left _ _ (Nat.two_pow_pos _), Nat.div_eq_of_lt hfirst,
          Nat.zero_add]
      rw [Nat.succ_mul, Nat.add_comm, pow_add, ← Nat.div_div_eq_div_mul, hdiv]
      exact ih (fun e he => h e (mem_cons_of_mem _ he)) (by simpa using hslot)

theorem packWord_append (bits : ℕ) (first second : List ℕ) : packWord bits (first ++ second) =
    packWord bits first + 2 ^ (first.length * bits) * packWord bits second := by
  induction first with
  | nil => simp [packWord]
  | cons entry rest ih =>
    rw [cons_append, packWord, packWord, ih, length_cons, Nat.succ_mul, pow_add]
    ring

variable {word : ℕ}

theorem or_shiftLeft (hword : word < 2 ^ (slot * bits))
    (hentry : entry < 2 ^ bits) (hfits : (slot + 1) * bits ≤ 64) :
    word ||| (entry <<< (slot * bits)) % 2 ^ 64 = word + 2 ^ (slot * bits) * entry := by
  have hlt : entry <<< (slot * bits) < 2 ^ 64 := by
    rw [Nat.shiftLeft_eq]
    calc entry * 2 ^ (slot * bits) < 2 ^ bits * 2 ^ (slot * bits) :=
          Nat.mul_lt_mul_of_pos_right hentry (Nat.two_pow_pos _)
      _ = 2 ^ ((slot + 1) * bits) := by rw [← pow_add]; congr 1; ring
      _ ≤ 2 ^ 64 := Nat.pow_le_pow_right (by decide) hfits
  rw [Nat.mod_eq_of_lt hlt, Nat.shiftLeft_eq, Nat.mul_comm entry, Nat.or_comm,
    ← Nat.two_pow_add_eq_or_of_lt hword, Nat.add_comm]

theorem orFrom_eq (h : ∀ entry ∈ entries, entry < 2 ^ bits)
    (hword : word < 2 ^ (slot * bits)) (hfits : (slot + entries.length) * bits ≤ 64) :
    orFrom bits word slot entries = word + 2 ^ (slot * bits) * packWord bits entries := by
  induction entries generalizing word slot with
  | nil => simp [orFrom, packWord]
  | cons entry rest ih =>
    have hentry := h entry mem_cons_self
    rw [length_cons, ← Nat.add_assoc, Nat.add_right_comm] at hfits
    have hslot : (slot + 1) * bits ≤ 64 :=
      (Nat.mul_le_mul_right bits (Nat.le_add_right _ _)).trans hfits
    have hnext : word + 2 ^ (slot * bits) * entry < 2 ^ ((slot + 1) * bits) := by
      calc word + 2 ^ (slot * bits) * entry < 2 ^ (slot * bits) * (entry + 1) := by
            rw [Nat.mul_add]
            omega
        _ ≤ 2 ^ (slot * bits) * 2 ^ bits := Nat.mul_le_mul_left _ hentry
        _ = 2 ^ ((slot + 1) * bits) := by rw [← pow_add]; congr 1; ring
    rw [orFrom, or_shiftLeft hword hentry hslot,
      ih (fun e he => h e (mem_cons_of_mem _ he)) hnext hfits, packWord, Nat.succ_mul,
      pow_add]
    ring

/-! ### Lists of words -/

def wordPart (perWord : ℕ) (entries : List ℕ) (word : ℕ) : List ℕ :=
  (entries.drop (word * perWord)).take perWord

variable {perWord index : ℕ}

theorem getElem?_wordPart (hpos : 0 < perWord) :
    (wordPart perWord entries (index / perWord))[index % perWord]? = entries[index]? := by
  rw [wordPart, List.getElem?_take_of_lt (Nat.mod_lt _ hpos), List.getElem?_drop,
    Nat.mul_comm, Nat.div_add_mod]

theorem mem_of_mem_wordPart (h : entry ∈ wordPart perWord entries word) :
    entry ∈ entries := mem_of_mem_drop (mem_of_mem_take h)

theorem wordEntry_wordPart (h : ∀ entry ∈ entries, entry < 2 ^ bits)
    (hpos : 0 < perWord) (hentry : entries[index]? = some entry) :
    wordEntry bits (packWord bits (wordPart perWord entries (index / perWord)))
      (index % perWord) = entry :=
  wordEntry_packWord (fun e he => h e (mem_of_mem_wordPart he))
    ((getElem?_wordPart hpos).trans hentry)

end Steel.WordPacking
