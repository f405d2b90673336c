import Mathlib.Data.Nat.Size
import Steel.Lib.LinearCongruential
import Steel.Utils.Position

/-!
# The legacy generator

A linear congruential generator of 48 bits: draws below a bound, and many steps at once.
-/

namespace Steel

open Function

structure LegacyRandom where
  seed : UInt64
deriving DecidableEq, Repr

namespace LegacyRandom

def lcgA : UInt64 := 0x5DEECE66D

def lcgC : UInt64 := 0xB

def lcgMask : UInt64 := 0xFFFFFFFFFFFF

def setSeed (seed : Int64) : LegacyRandom := ⟨(seed.toUInt64 ^^^ lcgA) &&& lcgMask⟩

def setLargeFeatureWithSalt (seed : Int64) (x z salt : Int) : LegacyRandom :=
  setSeed (Int64.ofInt x * 341873128712 + Int64.ofInt z * 132897987541 + seed + Int64.ofInt salt)

def nextRandom (random : LegacyRandom) : LegacyRandom :=
  ⟨(random.seed * lcgA + lcgC) &&& lcgMask⟩

/-- The highest bits of the next state, which is returned with them. -/
def next (random : LegacyRandom) (bits : ℕ) : Int × LegacyRandom :=
  (wrapI32 (random.nextRandom.seed.toNat / 2 ^ (48 - bits) : ℕ), random.nextRandom)

def nextI32Rejecting (bound : Int) : ℕ → LegacyRandom → Option (Int × LegacyRandom)
  | 0, _ => none
  | rounds + 1, random =>
    let (i, random) := random.next 31
    let j := i.tmod bound
    if 0 ≤ wrapI32 (wrapI32 (i - j) + wrapI32 (bound - 1)) then some (j, random)
    else nextI32Rejecting bound rounds random

/-- A bound that is a power of two takes the highest bits. -/
def nextI32Bounded (rounds : ℕ) (random : LegacyRandom) (bound : Int) :
    Option (Int × LegacyRandom) :=
  if Int32.ofInt bound &&& (Int32.ofInt bound - 1) = 0 then
    let (i, random) := random.next 31
    some (wrapI32 (wrapI64 (bound * i) / 2147483648), random)
  else nextI32Rejecting bound rounds random

/-- The locals of `skip`: two affine maps, the steps so far and a power of one step. -/
structure Skip where
  accA : UInt64
  accC : UInt64
  baseA : UInt64
  baseC : UInt64
  k : UInt64
deriving DecidableEq, Repr

def Skip.turn (skip : Skip) : Skip :=
  let base := skip.baseA * skip.baseC + skip.baseC &&& lcgMask
  if skip.k &&& 1 = 1 then
    ⟨skip.baseA * skip.accA &&& lcgMask, skip.baseA * skip.accC + skip.baseC &&& lcgMask,
      skip.baseA * skip.baseA &&& lcgMask, base, skip.k >>> 1⟩
  else ⟨skip.accA, skip.accC, skip.baseA * skip.baseA &&& lcgMask, base, skip.k >>> 1⟩

def Skip.run : ℕ → Skip → Option Skip
  | turns, skip =>
    if skip.k = 0 then some skip
    else
      match turns with
      | 0 => none
      | turns + 1 => Skip.run turns skip.turn

def skip (turns : ℕ) (random : LegacyRandom) (count : UInt64) : Option LegacyRandom := do
  let skip ← Skip.run turns ⟨1, 0, lcgA, lcgC, count⟩
  return ⟨skip.accA * random.seed + skip.accC &&& lcgMask⟩

def consumeCount (turns : ℕ) (random : LegacyRandom) (count : Int32) : Option LegacyRandom :=
  if 0 < count then random.skip turns (UInt64.ofInt count.toInt) else some random

end LegacyRandom

/-! ### Draws -/

namespace LegacyRandom

variable {random : LegacyRandom}

theorem nextRandom_toNat (random : LegacyRandom) : random.nextRandom.seed.toNat =
    LinearCongruential.step 0x5DEECE66D 0xB 48 random.seed.toNat := by
  rw [nextRandom, UInt64.toNat_and, UInt64.toNat_add, UInt64.toNat_mul,
    show lcgMask.toNat = 2 ^ 48 - 1 from rfl, show lcgA.toNat = 0x5DEECE66D from rfl,
    show lcgC.toNat = 0xB from rfl, Nat.and_two_pow_sub_one_eq_mod, Nat.mod_add_mod,
    Nat.mod_mod_of_dvd _ (by decide), LinearCongruential.step, LinearCongruential.affine,
    Nat.mul_comm]

theorem nextRandom_lt (random : LegacyRandom) : random.nextRandom.seed.toNat < 2 ^ 48 := by
  rw [nextRandom_toNat, LinearCongruential.step]
  exact Nat.mod_lt _ (by decide)

theorem next_eq (random : LegacyRandom) :
    random.next 31 =
      (((random.nextRandom.seed.toNat / 131072 : ℕ) : Int), random.nextRandom) := by
  have hlt := random.nextRandom_lt
  rw [next, show 2 ^ (48 - 31) = 131072 from rfl, wrapI32_eq_self (by omega)]

/-- The states that follow, as those of the generator without its type. -/
theorem iterate_nextRandom_toNat (random : LegacyRandom) (n : ℕ) :
    (nextRandom^[n] random).seed.toNat =
      (LinearCongruential.step 0x5DEECE66D 0xB 48)^[n] random.seed.toNat := by
  induction n with
  | zero => rfl
  | succ n ih => rw [iterate_succ_apply', iterate_succ_apply', nextRandom_toNat, ih]

def draw (random : LegacyRandom) (n : ℕ) : Int := ((nextRandom^[n] random).next 31).1

theorem draw_eq (random : LegacyRandom) (n : ℕ) :
    random.draw n = ((nextRandom^[n + 1] random).seed.toNat / 131072 : ℕ) := by
  rw [draw, next_eq, iterate_succ_apply']

theorem next_eq_draw (random : LegacyRandom) :
    random.next 31 = (random.draw 0, random.nextRandom) := by
  rw [next_eq, draw_eq, iterate_one]

theorem draw_succ (random : LegacyRandom) (n : ℕ) :
    random.draw (n + 1) = random.nextRandom.draw n := by
  rw [draw, draw, iterate_succ_apply]

theorem draw_bounds (random : LegacyRandom) (n : ℕ) :
    0 ≤ random.draw n ∧ random.draw n < 2147483648 := by
  have hlt := (nextRandom^[n] random).nextRandom_lt
  rw [draw_eq, iterate_succ_apply']
  omega

/-- The block of a draw, which has as many values as the bound, is a full one. -/
def Accepted (bound draw : Int) : Prop := draw - draw % bound + (bound - 1) < 2147483648

variable {bound draw : Int} {rounds k : ℕ}

/-- The wrapped sum is negative exactly when the block is not full. -/
theorem accepted_iff (hbound : 0 < bound) (hsmall : bound < 2147483648) (hdraw : 0 ≤ draw)
    (hlt : draw < 2147483648) :
    0 ≤ wrapI32 (wrapI32 (draw - draw.tmod bound) + wrapI32 (bound - 1)) ↔
      Accepted bound draw := by
  have hmod := Int.emod_nonneg draw hbound.ne'
  have hquotient := Int.mul_nonneg hbound.le (Int.ediv_nonneg hdraw hbound.le)
  have hle : draw % bound ≤ draw := by
    rw [Int.emod_def]
    omega
  have hwrap : ∀ value : Int, 0 ≤ value → value < 2147483648 → wrapI32 value = value :=
    fun value hlow hhigh => wrapI32_eq_self (by omega)
  rw [Int.tmod_eq_emod_of_nonneg hdraw, hwrap (draw - draw % bound) (by omega) (by omega),
    hwrap (bound - 1) (by omega) (by omega), Accepted]
  generalize hsum : draw - draw % bound + (bound - 1) = sum
  have hnonneg : 0 ≤ sum := by omega
  have hbelow : sum < 4294967296 := by omega
  rw [wrapI32, Int.bmod_def]
  split_ifs <;> omega

/-- The block of a draw from the lower half is a full one. -/
theorem accepted_of_lt (hbound : 0 < bound) (hsmall : bound < 2147483648) (hdraw : 0 ≤ draw)
    (hlt : draw < 1073741824) : Accepted bound draw := by
  have hmod := Int.emod_nonneg draw hbound.ne'
  rw [Accepted]
  by_cases hle : bound ≤ draw
  · omega
  · rw [Int.emod_eq_of_lt hdraw (by omega)]
    omega

/-- Enough rounds to come to a state in the lower half. -/
def enoughRounds : ℕ := 2 ^ 47 + 1

theorem exists_accepted (hbound : 0 < bound) (hsmall : bound < 2147483648) (random : LegacyRandom) :
    ∃ n < enoughRounds, Accepted bound (random.draw n) := by
  obtain ⟨n, hn, hlow⟩ := LinearCongruential.exists_iterate_step_lt (a := 0x5DEECE66D)
    (c := 0xB) (by decide) (by decide) 47 random.nextRandom_lt
  rw [← iterate_nextRandom_toNat, ← iterate_succ_apply, Nat.succ_eq_add_one] at hlow
  refine ⟨n, Nat.lt_succ_of_le hn, accepted_of_lt hbound hsmall (random.draw_bounds n).1 ?_⟩
  rw [draw_eq]
  omega

/-- The rounds go up to the first draw that is accepted. -/
theorem nextI32Rejecting_first (hbound : 0 < bound) (hsmall : bound < 2147483648) {n : ℕ}
    {random : LegacyRandom} (hn : n < rounds) (haccepted : Accepted bound (random.draw n))
    (hfirst : ∀ m < n, ¬ Accepted bound (random.draw m)) : nextI32Rejecting bound rounds random =
      some (random.draw n % bound, nextRandom^[n + 1] random) := by
  induction rounds generalizing n random with
  | zero => omega
  | succ rounds ih =>
    have hdraw := random.draw_bounds 0
    rw [nextI32Rejecting, next_eq_draw]
    dsimp only
    have htest := accepted_iff hbound hsmall hdraw.1 hdraw.2
    cases n with
    | zero =>
      rw [if_pos (htest.mpr haccepted), Int.tmod_eq_emod_of_nonneg hdraw.1, zero_add, iterate_one]
    | succ n =>
      rw [draw_succ] at haccepted
      rw [if_neg (mt htest.mp (hfirst 0 n.succ_pos)), iterate_succ_apply, draw_succ]
      refine ih (Nat.lt_of_succ_lt_succ hn) haccepted fun m hm => ?_
      rw [← draw_succ]
      exact hfirst (m + 1) (Nat.succ_lt_succ hm)

theorem exists_nextI32Rejecting (hbound : 0 < bound) (hsmall : bound < 2147483648)
    (random : LegacyRandom) :
    ∃ n, Accepted bound (random.draw n) ∧ (∀ m < n, ¬ Accepted bound (random.draw m)) ∧
      ∀ rounds, enoughRounds ≤ rounds → nextI32Rejecting bound rounds random =
        some (random.draw n % bound, nextRandom^[n + 1] random) := by
  classical
  obtain ⟨far, hfar, haccepted⟩ := exists_accepted hbound hsmall random
  have hexists : ∃ n, Accepted bound (random.draw n) := ⟨far, haccepted⟩
  have hle : Nat.find hexists ≤ far := Nat.find_min' hexists haccepted
  refine ⟨Nat.find hexists, Nat.find_spec hexists, fun m hm => Nat.find_min hexists hm,
    fun rounds hrounds => ?_⟩
  exact nextI32Rejecting_first hbound hsmall (hle.trans_lt (hfar.trans_le hrounds))
    (Nat.find_spec hexists) fun m hm => Nat.find_min hexists hm

theorem and_sub_one_eq_zero_iff (hbound : 0 < bound) (hsmall : bound < 2147483648) :
    Int32.ofInt bound &&& (Int32.ofInt bound - 1) = 0 ↔ ∃ k : ℕ, bound = 2 ^ k := by
  obtain ⟨bound, rfl⟩ := Int.eq_ofNat_of_zero_le hbound.le
  have hwide : bound % 4294967296 = bound := by omega
  have hless : (4294967295 + bound) % 4294967296 = bound - 1 := by omega
  have hpower : (∃ k : ℕ, (bound : Int) = 2 ^ k) ↔ bound.isPowerOfTwo :=
    ⟨fun ⟨k, hk⟩ => ⟨k, by exact_mod_cast hk⟩, fun ⟨k, hk⟩ => ⟨k, by exact_mod_cast hk⟩⟩
  rw [hpower, ← Nat.and_sub_one_eq_zero_iff_isPowerOfTwo (by omega), ← Int32.toBitVec_inj,
    ← BitVec.toNat_inj]
  simp [hwide, hless]

/-- The highest bits of a draw. -/
theorem nextI32Bounded_two_pow (hbound : bound = 2 ^ k) (hsmall : bound < 2147483648) (rounds : ℕ)
    (random : LegacyRandom) : random.nextI32Bounded rounds bound =
      some (bound * random.draw 0 / 2147483648, random.nextRandom) := by
  have hpos : 0 < bound := hbound ▸ Int.pow_pos (by decide)
  rw [nextI32Bounded, if_pos ((and_sub_one_eq_zero_iff hpos hsmall).mpr ⟨k, hbound⟩),
    next_eq_draw]
  dsimp only
  obtain ⟨hlow, hhigh⟩ := random.draw_bounds 0
  have hproduct := Int.mul_nonneg hpos.le hlow
  have hless : bound * random.draw 0 < bound * 2147483648 :=
    Int.mul_lt_mul_of_pos_left hhigh hpos
  have hwrap : wrapI64 (bound * random.draw 0) = bound * random.draw 0 := by
    rw [wrapI64, Int.bmod_def]
    split_ifs <;> omega
  rw [hwrap, wrapI32_eq_self (by omega)]

theorem nextI32Bounded_rejecting (hbound : 0 < bound) (hsmall : bound < 2147483648)
    (hpower : ∀ k : ℕ, bound ≠ 2 ^ k) (rounds : ℕ) (random : LegacyRandom) :
    random.nextI32Bounded rounds bound = nextI32Rejecting bound rounds random := by
  rw [nextI32Bounded, if_neg]
  rw [and_sub_one_eq_zero_iff hbound hsmall]
  exact not_exists.mpr hpower

theorem scaled_bounds (hbound : 0 < bound) (random : LegacyRandom) :
    0 ≤ bound * random.draw 0 / 2147483648 ∧ bound * random.draw 0 / 2147483648 < bound := by
  obtain ⟨hlow, hhigh⟩ := random.draw_bounds 0
  have hproduct := Int.mul_nonneg hbound.le hlow
  have hless : bound * random.draw 0 < bound * 2147483648 :=
    Int.mul_lt_mul_of_pos_left hhigh hbound
  omega

theorem nextI32Bounded_some (hbound : 0 < bound) (hsmall : bound < 2147483648)
    (hrounds : enoughRounds ≤ rounds) (random : LegacyRandom) :
    ∃ value after, random.nextI32Bounded rounds bound = some (value, after) ∧ 0 ≤ value ∧
      value < bound := by
  by_cases hpower : ∃ k : ℕ, bound = 2 ^ k
  · obtain ⟨k, hk⟩ := hpower
    exact ⟨_, _, nextI32Bounded_two_pow hk hsmall rounds random, scaled_bounds hbound random⟩
  · rw [nextI32Bounded_rejecting hbound hsmall (not_exists.mp hpower)]
    obtain ⟨n, -, -, hdrawn⟩ := exists_nextI32Rejecting hbound hsmall random
    exact ⟨_, _, hdrawn rounds hrounds, Int.emod_nonneg _ hbound.ne', Int.emod_lt_of_pos _ hbound⟩

/-- The product with a power of two has only the highest bits of a draw above the 31 bits. -/
theorem two_pow_mul_div (hk : k ≤ 31) (draw : Int) :
    2 ^ k * draw / 2147483648 = draw / 2 ^ (31 - k) := by
  have hsplit : (2147483648 : Int) = 2 ^ k * 2 ^ (31 - k) := by
    rw [← pow_add, Nat.add_sub_cancel' hk]
    rfl
  rw [hsplit, Int.mul_ediv_mul_of_pos _ _ (Int.pow_pos (by decide))]

/--
A bounded draw ends from every state. It is below the bound, and is the highest bits of the next
output for a power of two, and otherwise the remainder of the first output that is accepted.
-/
theorem nextI32Bounded_spec {bound : Int} (hbound : 0 < bound) (hsmall : bound < 2147483648)
    (random : LegacyRandom) :
    ∃ value after,
      (∀ rounds, enoughRounds ≤ rounds →
        random.nextI32Bounded rounds bound = some (value, after)) ∧
      0 ≤ value ∧ value < bound ∧
      (∀ k : ℕ, bound = 2 ^ k → value = bound * random.draw 0 / 2147483648 ∧
        value = random.draw 0 / 2 ^ (31 - k) ∧ after = random.nextRandom) ∧
      ((∀ k : ℕ, bound ≠ 2 ^ k) → ∃ n, value = random.draw n % bound ∧
        after = nextRandom^[n + 1] random ∧ Accepted bound (random.draw n) ∧
        ∀ m < n, ¬ Accepted bound (random.draw m)) := by
  by_cases hpower : ∃ k : ℕ, bound = 2 ^ k
  · obtain ⟨k, hk⟩ := hpower
    have hscaled := scaled_bounds hbound random
    refine ⟨_, _, fun rounds _ => nextI32Bounded_two_pow hk hsmall rounds random, hscaled.1,
      hscaled.2, fun l hl => ⟨rfl, ?_, rfl⟩, fun hnone => absurd hk (hnone k)⟩
    have hlt : 2 ^ l < 2 ^ 31 := by
      rw [hl] at hsmall
      exact_mod_cast hsmall
    rw [hl, two_pow_mul_div ((Nat.pow_lt_pow_iff_right (by decide)).mp hlt).le]
  · obtain ⟨n, haccepted, hfirst, hdrawn⟩ := exists_nextI32Rejecting hbound hsmall random
    refine ⟨random.draw n % bound, nextRandom^[n + 1] random, fun rounds hrounds => ?_,
      Int.emod_nonneg _ hbound.ne', Int.emod_lt_of_pos _ hbound,
      fun k hk => absurd ⟨k, hk⟩ hpower, fun _ => ⟨n, rfl, rfl, haccepted, hfirst⟩⟩
    rw [nextI32Bounded_rejecting hbound hsmall (not_exists.mp hpower)]
    exact hdrawn rounds hrounds

theorem nextI32Bounded_spec_six :
    ∃ value after, (∀ rounds, enoughRounds ≤ rounds →
      nextI32Bounded rounds ⟨0⟩ 6 = some (value, after)) ∧ 0 ≤ value ∧ value < 6 := by
  have hsix : (0 : Int) < 6 := by decide
  obtain ⟨value, after, hdrawn, hlow, hhigh, -, -⟩ := nextI32Bounded_spec hsix (by decide) ⟨0⟩
  exact ⟨value, after, hdrawn, hlow, hhigh⟩

/-! ### Many steps at once -/

theorem toNat_and_lcgMask (value : UInt64) : (value &&& lcgMask).toNat = value.toNat % 2 ^ 48 := by
  rw [UInt64.toNat_and, show lcgMask.toNat = 2 ^ 48 - 1 from rfl, Nat.and_two_pow_sub_one_eq_mod]

theorem toNat_affine (a x c : UInt64) :
    (a * x + c &&& lcgMask).toNat = (a.toNat * x.toNat + c.toNat) % 2 ^ 48 := by
  rw [toNat_and_lcgMask, UInt64.toNat_add, UInt64.toNat_mul, Nat.mod_add_mod,
    Nat.mod_mod_of_dvd _ (by decide)]

theorem toNat_mul (a b : UInt64) : (a * b &&& lcgMask).toNat = a.toNat * b.toNat % 2 ^ 48 := by
  rw [toNat_and_lcgMask, UInt64.toNat_mul, Nat.mod_mod_of_dvd _ (by decide)]

namespace Skip

def accumulated (skip : Skip) : ℕ → ℕ :=
  LinearCongruential.step skip.accA.toNat skip.accC.toNat 48

def base (skip : Skip) : ℕ → ℕ := LinearCongruential.step skip.baseA.toNat skip.baseC.toNat 48

theorem base_turn (skip : Skip) : skip.turn.base = skip.base^[2] := by
  funext x
  have hbaseA : skip.turn.baseA = skip.baseA * skip.baseA &&& lcgMask := by
    unfold turn
    split_ifs <;> rfl
  have hbaseC : skip.turn.baseC = skip.baseA * skip.baseC + skip.baseC &&& lcgMask := by
    unfold turn
    split_ifs <;> rfl
  rw [base, hbaseA, hbaseC, toNat_mul, toNat_affine, LinearCongruential.step_mod]
  exact (LinearCongruential.step_step _ _ _ _ 48 x).symm

theorem k_turn (skip : Skip) : skip.turn.k.toNat = skip.k.toNat / 2 := by
  have hk : skip.turn.k = skip.k >>> 1 := by
    unfold turn
    split_ifs <;> rfl
  rw [hk, UInt64.toNat_shiftRight]
  exact Nat.shiftRight_one _

theorem accumulated_turn (skip : Skip) (x : ℕ) :
    skip.turn.accumulated x = skip.base^[skip.k.toNat % 2] (skip.accumulated x) := by
  have hodd : skip.k &&& 1 = 1 ↔ skip.k.toNat % 2 = 1 := by
    rw [← UInt64.toNat_inj, UInt64.toNat_and]
    exact Nat.and_one_is_mod _ ▸ Iff.rfl
  unfold accumulated turn
  dsimp only
  split_ifs with hbit
  · rw [hodd.mp hbit, iterate_one, toNat_mul, toNat_affine, LinearCongruential.step_mod]
    exact (LinearCongruential.step_step _ _ _ _ 48 x).symm
  · have heven : skip.k.toNat % 2 = 0 := by
      have := mt hodd.mpr hbit
      omega
    rw [heven, iterate_zero_apply]

/-- A turn does not change what the rest of the steps come to. -/
theorem iterate_base_turn (skip : Skip) (x : ℕ) :
    skip.turn.base^[skip.turn.k.toNat] (skip.turn.accumulated x) =
      skip.base^[skip.k.toNat] (skip.accumulated x) := by
  rw [base_turn, k_turn, accumulated_turn, ← iterate_mul, ← iterate_add_apply,
    Nat.div_add_mod]

variable {skip : Skip} {turns : ℕ}

theorem toNat_k_eq_zero : skip.k = 0 ↔ skip.k.toNat = 0 := by
  rw [← UInt64.toNat_inj]
  rfl

/-- The loop ends within as many turns as the count has bits. -/
theorem run_some (h : skip.k.toNat < 2 ^ turns) : ∃ last, run turns skip = some last ∧
      ∀ x, last.accumulated x = skip.base^[skip.k.toNat] (skip.accumulated x) := by
  induction turns generalizing skip with
  | zero =>
    have hzero : skip.k.toNat = 0 := by omega
    refine ⟨skip, ?_, fun x => ?_⟩
    · rw [run, if_pos (toNat_k_eq_zero.mpr hzero)]
    · rw [hzero, iterate_zero_apply]
  | succ turns ih =>
    rw [run]
    split_ifs with hk
    · refine ⟨skip, rfl, fun x => ?_⟩
      rw [toNat_k_eq_zero.mp hk, iterate_zero_apply]
    · have hhalf : skip.turn.k.toNat < 2 ^ turns := by
        rw [k_turn]
        omega
      obtain ⟨last, hrun, hlast⟩ := ih hhalf
      exact ⟨last, hrun, fun x => (hlast x).trans (skip.iterate_base_turn x)⟩

/-- The loop needs as many turns as the count has bits. -/
theorem run_none (h : 2 ^ turns ≤ skip.k.toNat) : run turns skip = none := by
  induction turns generalizing skip with
  | zero =>
    rw [run, if_neg]
    rw [toNat_k_eq_zero]
    omega
  | succ turns ih =>
    have hpositive : 0 < 2 ^ (turns + 1) := Nat.pow_pos Nat.two_pos
    have hhalf : 2 ^ turns ≤ skip.turn.k.toNat := by
      rw [k_turn]
      omega
    rw [run, if_neg, ih hhalf]
    rw [toNat_k_eq_zero]
    omega

end Skip

/-- A step forgets what is above the mask. -/
theorem iterate_step_mod (n x : ℕ) (hn : 0 < n) :
    (LinearCongruential.step 0x5DEECE66D 0xB 48)^[n] (x % 2 ^ 48) =
      (LinearCongruential.step 0x5DEECE66D 0xB 48)^[n] x := by
  obtain ⟨n, rfl⟩ := Nat.exists_eq_succ_of_ne_zero hn.ne'
  have hmod : x % 2 ^ 48 ≡ x [MOD 2 ^ 48] := Nat.mod_modEq _ _
  have hfirst : LinearCongruential.step 0x5DEECE66D 0xB 48 (x % 2 ^ 48) =
      LinearCongruential.step 0x5DEECE66D 0xB 48 x := (hmod.mul_left _).add_right _
  rw [iterate_succ_apply, iterate_succ_apply, hfirst]

theorem skip_eq (random : LegacyRandom) {turns : ℕ} {count : UInt64} (hpos : 0 < count.toNat)
    (h : count.toNat < 2 ^ turns) :
    random.skip turns count = some (nextRandom^[count.toNat] random) := by
  have hloop : ∃ last, Skip.run turns ⟨1, 0, lcgA, lcgC, count⟩ = some last ∧ _ := Skip.run_some h
  obtain ⟨last, hrun, hlast⟩ := hloop
  have hstart : Skip.accumulated ⟨1, 0, lcgA, lcgC, count⟩ random.seed.toNat =
      random.seed.toNat % 2 ^ 48 := by
    unfold Skip.accumulated LinearCongruential.step LinearCongruential.affine
    exact congrArg (· % 2 ^ 48) (Nat.one_mul _)
  have hseed : last.accA * random.seed + last.accC &&& lcgMask =
      (nextRandom^[count.toNat] random).seed := by
    rw [← UInt64.toNat_inj, toNat_affine, iterate_nextRandom_toNat, ← iterate_step_mod _ _ hpos,
      ← hstart]
    exact hlast random.seed.toNat
  rw [skip, hrun, Option.bind_eq_bind, Option.bind_some, hseed]
  rfl

/--
The state after as many steps as the count, or none for a negative count. It takes as many turns of
the loop as the count has bits.
-/
theorem consumeCount_eq (random : LegacyRandom) (count : Int32) (turns : ℕ) :
    random.consumeCount turns count =
      if count.toInt.toNat.size ≤ turns then some (nextRandom^[count.toInt.toNat] random)
      else none := by
  have hrange := count.toInt_lt
  have hsign : 0 < count ↔ 0 < count.toInt := Int32.lt_iff_toInt_lt
  rw [consumeCount]
  by_cases hpos : 0 < count.toInt
  · have hcount : (UInt64.ofInt count.toInt).toNat = count.toInt.toNat := by
      rw [UInt64.ofInt, UInt64.toNat_ofNat']
      omega
    rw [if_pos (hsign.mpr hpos)]
    split_ifs with hturns
    · rw [Nat.size_le, ← hcount] at hturns
      rw [skip_eq random (by omega) hturns, hcount]
    · rw [Nat.size_le, not_lt, ← hcount] at hturns
      have hrun : Skip.run turns ⟨1, 0, lcgA, lcgC, UInt64.ofInt count.toInt⟩ = none :=
        Skip.run_none hturns
      rw [skip, hrun]
      rfl
  · have hzero : count.toInt.toNat = 0 := by omega
    rw [if_neg (mt hsign.mp hpos), hzero, Nat.size_zero, if_pos (Nat.zero_le turns),
      iterate_zero_apply]

end LegacyRandom

end Steel
