import Mathlib.Order.Bounds.Basic
import Steel.Chunk.Section

/-!
# Sections with random ticks

The sections of a chunk share a set of bits that mirrors which of them are randomly ticking. The
guard of a section remembers what the mirror says when it is taken, and corrects it when it is
dropped. Guards of different sections can be live at the same time.
-/

namespace Steel.Sections

open List

/-! ### The bits -/

structure RandomTickSectionBits where
  words : List (BitVec 64)
  sectionCount : ℕ
deriving DecidableEq, Repr

namespace RandomTickSectionBits

def new (sectionCount : ℕ) : RandomTickSectionBits :=
  ⟨replicate ((sectionCount + 63) / 64) 0, sectionCount⟩

/-- `fetch_or` with the mask of a bit, or `fetch_and` without it. -/
def setBit (word : BitVec 64) (bit : ℕ) (randomlyTicking : Bool) : BitVec 64 :=
  if randomlyTicking then word ||| BitVec.twoPow 64 bit else word &&& ~~~ BitVec.twoPow 64 bit

def set (bits : RandomTickSectionBits) (sectionIndex : ℕ) (randomlyTicking : Bool) :
    Option RandomTickSectionBits := do
  let word ← bits.words[sectionIndex / 64]?
  let word := setBit word (sectionIndex % 64) randomlyTicking
  return { bits with words := bits.words.set (sectionIndex / 64) word }

def contains (bits : RandomTickSectionBits) (sectionIndex : ℕ) : Option Bool := do
  let word ← bits.words[sectionIndex / 64]?
  return word &&& BitVec.twoPow 64 (sectionIndex % 64) ≠ 0

/-- The loop of `next`, with the words after the current one. -/
def scan (sectionCount : ℕ) : List (BitVec 64) → ℕ → BitVec 64 → Option ℕ
  | words, wordIndex, bits =>
    if bits ≠ 0 then
      let sectionIndex := wordIndex * 64 + bits.ctz.toNat
      if sectionIndex < sectionCount then some sectionIndex else none
    else
      match words with
      | [] => none
      | word :: words => scan sectionCount words (wordIndex + 1) word

def next (bits : RandomTickSectionBits) (start : ℕ) : Option (Option ℕ) :=
  if bits.sectionCount ≤ start then some none
  else do
    let word ← bits.words[start / 64]?
    return scan bits.sectionCount (bits.words.drop (start / 64 + 1)) (start / 64)
      (word &&& BitVec.allOnes 64 <<< (start % 64))

end RandomTickSectionBits

/-! ### Guards -/

def ChunkSection.isRandomlyTicking (chunkSection : ChunkSection) : Bool :=
  0 < chunkSection.counters.tickingBlockCount || 0 < chunkSection.counters.tickingFluidCount

/-- A section, and what it was when the guard was taken that is live. -/
structure SectionHolder where
  chunkSection : ChunkSection
  wasRandomlyTicking : Option Bool

/-- What a guard does to its section. Mutable access to all of it may do anything. -/
inductive Change where
  | setBlockState (pos : CubePos 16) (newState : BlockStateId)
  | setBlockStateForGeneration (pos : CubePos 16) (newState : BlockStateId)
  | finalizeGenerationCountsIfNeeded
  | recalculateCounts
  | derefMut (change : ChunkSection → ChunkSection)

def Change.apply (overflowChecks : Bool) (table : SectionStates) (chunkSection : ChunkSection) :
    Change → Option ChunkSection
  | .setBlockState pos newState => do
    return (← chunkSection.setBlockState overflowChecks table pos newState).2
  | .setBlockStateForGeneration pos newState =>
    some (chunkSection.setBlockStateForGeneration pos newState).2
  | .finalizeGenerationCountsIfNeeded =>
    chunkSection.finalizeGenerationCountsIfNeeded overflowChecks table
  | .recalculateCounts => chunkSection.recalculateCounts overflowChecks table
  | .derefMut change => some (change chunkSection.invalidateStableAirOccupancy)

structure TickedSections where
  holders : List SectionHolder
  randomlyTickingSections : RandomTickSectionBits

inductive Action where
  | write (sectionIndex : ℕ)
  | change (sectionIndex : ℕ) (change : Change)
  | drop (sectionIndex : ℕ)

namespace TickedSections

/-- `SectionHolder::with_random_tick_index` -/
def withRandomTickIndex (bits : RandomTickSectionBits) (sectionIndex : ℕ)
    (chunkSection : ChunkSection) : Option RandomTickSectionBits :=
  if chunkSection.isRandomlyTicking then bits.set sectionIndex true else some bits

/-- The sections are entered in turn. -/
def indexFrom : ℕ → List ChunkSection → RandomTickSectionBits → Option RandomTickSectionBits
  | _, [], bits => some bits
  | sectionIndex, chunkSection :: rest, bits => do
    indexFrom (sectionIndex + 1) rest (← withRandomTickIndex bits sectionIndex chunkSection)

def fromOwned (chunkSections : List ChunkSection) : Option TickedSections := do
  let bits ← indexFrom 0 chunkSections (.new chunkSections.length)
  return ⟨chunkSections.map (⟨·, none⟩), bits⟩

def setHolder (sections : TickedSections) (sectionIndex : ℕ) (holder : SectionHolder) :
    TickedSections :=
  { sections with holders := sections.holders.set sectionIndex holder }

variable (overflowChecks : Bool) (table : SectionStates)

/-- A section is locked by its guard, so that no second one can be taken. -/
def step (sections : TickedSections) : Action → Option TickedSections
  | .write sectionIndex => do
    let holder ← sections.holders[sectionIndex]?
    match holder.wasRandomlyTicking with
    | some _ => none
    | none =>
      return sections.setHolder sectionIndex
        ⟨holder.chunkSection, some holder.chunkSection.isRandomlyTicking⟩
  | .change sectionIndex change => do
    let holder ← sections.holders[sectionIndex]?
    match holder.wasRandomlyTicking with
    | none => none
    | some was =>
      let chunkSection ← change.apply overflowChecks table holder.chunkSection
      return sections.setHolder sectionIndex ⟨chunkSection, some was⟩
  | .drop sectionIndex => do
    let holder ← sections.holders[sectionIndex]?
    match holder.wasRandomlyTicking with
    | none => none
    | some was =>
      let is := holder.chunkSection.isRandomlyTicking
      let bits := sections.randomlyTickingSections
      let bits ← if is ≠ was then bits.set sectionIndex is else some bits
      return { sections.setHolder sectionIndex ⟨holder.chunkSection, none⟩ with
        randomlyTickingSections := bits }

def run (sections : TickedSections) : List Action → Option TickedSections
  | [] => some sections
  | action :: actions => do (← sections.step overflowChecks table action).run actions

end TickedSections

/-! ### One bit -/

namespace RandomTickSectionBits

variable {bits : RandomTickSectionBits} {index : ℕ}

theorem and_twoPow_ne_zero_iff (word : BitVec 64) {bit : ℕ} (hbit : bit < 64) :
    word &&& BitVec.twoPow 64 bit ≠ 0 ↔ word.getLsbD bit = true := by
  have hmask : BitVec.twoPow 64 bit ≠ 0#64 := by
    intro hzero
    have hlow := congrArg (BitVec.getLsbD · bit) hzero
    simp [hbit] at hlow
  rw [BitVec.and_twoPow]
  split_ifs with hset
  · exact iff_of_true hmask hset
  · exact iff_of_false (fun hne => hne rfl) hset

theorem contains_eq (bits : RandomTickSectionBits) (index : ℕ) :
    bits.contains index = (bits.words[index / 64]?).map (BitVec.getLsbD · (index % 64)) := by
  rw [contains]
  cases bits.words[index / 64]? with
  | none => rfl
  | some word =>
    have hbit := and_twoPow_ne_zero_iff word (Nat.mod_lt index (show 0 < 64 by decide))
    change some (decide _) = some _
    rw [Option.some.injEq, Bool.eq_iff_iff, decide_eq_true_iff, hbit]

theorem getLsbD_setBit (word : BitVec 64) {bit other : ℕ} (hother : other < 64) (value : Bool) :
    (setBit word bit value).getLsbD other = if other = bit then value else word.getLsbD other := by
  by_cases heq : other = bit
  · subst heq
    cases value <;> simp [setBit, hother]
  · cases value <;> simp [setBit, heq, hother]

def WellFormed (bits : RandomTickSectionBits) : Prop :=
  bits.words.length = (bits.sectionCount + 63) / 64

theorem wellFormed_new (sectionCount : ℕ) : (new sectionCount).WellFormed := length_replicate

theorem WellFormed.lt_length (hbits : bits.WellFormed) (hindex : index < bits.sectionCount) :
    index / 64 < bits.words.length := by
  rw [hbits]
  omega

theorem exists_set (hbits : bits.WellFormed) (hindex : index < bits.sectionCount) (value : Bool) :
    ∃ changed, bits.set index value = some changed ∧ changed.WellFormed ∧
      changed.sectionCount = bits.sectionCount ∧
      ∀ other, changed.contains other =
        if other = index then some value else bits.contains other := by
  have hword := hbits.lt_length hindex
  have hset : bits.set index value = some
      ⟨bits.words.set (index / 64) (setBit bits.words[index / 64] (index % 64) value),
        bits.sectionCount⟩ := by
    rw [set, getElem?_eq_getElem hword]
    rfl
  refine ⟨_, hset, ?_, rfl, fun other => ?_⟩
  · unfold WellFormed
    rw [length_set]
    exact hbits
  · have hbit : other % 64 < 64 := Nat.mod_lt other (by decide)
    rw [contains_eq, contains_eq]
    by_cases hsame : other / 64 = index / 64
    · have hiff : other % 64 = index % 64 ↔ other = index := by omega
      rw [hsame, getElem?_set_self hword, Option.map_some, getLsbD_setBit _ hbit,
        getElem?_eq_getElem hword, Option.map_some]
      split_ifs with hmod heq heq
      · rfl
      · exact absurd (hiff.mp hmod) heq
      · exact absurd (hiff.mpr heq) hmod
      · rfl
    · have hne : other ≠ index := fun heq => hsame (congrArg (· / 64) heq)
      rw [if_neg hne, getElem?_set_ne (Ne.symm hsame)]

theorem contains_new {sectionCount : ℕ} (hindex : index < sectionCount) :
    (new sectionCount).contains index = some false := by
  have hword : (new sectionCount).words[index / 64]? = some 0 :=
    getElem?_replicate_of_lt ((wellFormed_new sectionCount).lt_length hindex |>.trans_eq
      (wellFormed_new sectionCount))
  rw [contains_eq, hword]
  exact congrArg some BitVec.getLsbD_zero

/-! ### The search -/

section Scan

variable {sectionCount wordIndex : ℕ} {member : ℕ → Prop} {words : List (BitVec 64)}
  {current : BitVec 64}

/-- What the search says about the members below the number of sections. -/
def Finds (sectionCount : ℕ) (member : ℕ → Prop) (found : Option ℕ) : Prop :=
  (∀ index, found = some index ↔ IsLeast { index | index < sectionCount ∧ member index } index) ∧
    (found = none ↔ ∀ index < sectionCount, ¬ member index)

theorem finds_none (h : ∀ index < sectionCount, ¬ member index) :
    Finds sectionCount member none :=
  ⟨fun _ => iff_of_false (fun hsome => by cases hsome) fun hleast => h _ hleast.1.1 hleast.1.2,
    iff_of_true rfl h⟩

theorem finds_some {index : ℕ} (h : IsLeast { index | index < sectionCount ∧ member index } index) :
    Finds sectionCount member (some index) := by
  refine ⟨fun other => ?_, iff_of_false (fun hnone => by cases hnone) fun hnone => ?_⟩
  · rw [Option.some.injEq]
    refine ⟨fun heq => heq ▸ h, fun hother => h.unique hother⟩
  · exact hnone index h.1.1 h.1.2

/-- The lowest set bit of a word is the first member of all, if none was before. -/
theorem finds_of_ne_zero (hne : current ≠ 0)
    (hcurrent : ∀ bit < 64, current.getLsbD bit = true ↔ member (wordIndex * 64 + bit))
    (hbelow : ∀ index < wordIndex * 64, ¬ member index) :
    Finds sectionCount member (scan sectionCount words wordIndex current) := by
  have hlt : current.ctz.toNat < 64 := BitVec.ctz_lt_iff_ne_zero.mpr hne
  have hmember := (hcurrent _ hlt).mp (BitVec.getLsbD_true_ctz_of_ne_zero hne)
  have hfirst : ∀ index, member index → wordIndex * 64 + current.ctz.toNat ≤ index := by
    intro index hindex
    by_contra hless
    by_cases hword : index < wordIndex * 64
    · exact hbelow index hword hindex
    · have hbit : index = wordIndex * 64 + (index - wordIndex * 64) := by omega
      rw [hbit, ← hcurrent _ (by omega), BitVec.getLsbD_false_of_lt_ctz (by omega)] at hindex
      exact Bool.false_ne_true hindex
  have hscan : scan sectionCount words wordIndex current =
      if wordIndex * 64 + current.ctz.toNat < sectionCount then
        some (wordIndex * 64 + current.ctz.toNat) else none := by
    cases words <;> rw [scan, if_pos hne]
  rw [hscan]
  split_ifs with hcount
  · exact finds_some ⟨⟨hcount, hmember⟩, fun other hother => hfirst other hother.2⟩
  · refine finds_none fun index hindex hmem => ?_
    have hle := hfirst index hmem
    omega

/-- A word without bits adds to what is known to have no member. -/
theorem not_member_of_zero (hzero : current = 0)
    (hcurrent : ∀ bit < 64, current.getLsbD bit = true ↔ member (wordIndex * 64 + bit))
    (hbelow : ∀ index < wordIndex * 64, ¬ member index) :
    ∀ index < (wordIndex + 1) * 64, ¬ member index := by
  intro index hindex hmember
  by_cases hword : index < wordIndex * 64
  · exact hbelow index hword hmember
  · have hbit : index = wordIndex * 64 + (index - wordIndex * 64) := by omega
    rw [hbit, ← hcurrent _ (by omega), hzero] at hmember
    exact Bool.false_ne_true (BitVec.getLsbD_zero.symm.trans hmember)

/-- The search ends at the least member of those that the words say. -/
theorem finds_scan
    (hcurrent : ∀ bit < 64, current.getLsbD bit = true ↔ member (wordIndex * 64 + bit))
    (hwords : ∀ n word, words[n]? = some word → ∀ bit < 64,
      word.getLsbD bit = true ↔ member ((wordIndex + 1 + n) * 64 + bit))
    (hbelow : ∀ index < wordIndex * 64, ¬ member index)
    (habove : ∀ index, (wordIndex + 1 + words.length) * 64 ≤ index → ¬ member index) :
    Finds sectionCount member (scan sectionCount words wordIndex current) := by
  induction words generalizing wordIndex current with
  | nil =>
    by_cases hzero : current = 0
    · have hnone := not_member_of_zero hzero hcurrent hbelow
      rw [scan, if_neg (not_not.mpr hzero)]
      refine finds_none fun index _ hmember => ?_
      by_cases hindex : index < (wordIndex + 1) * 64
      · exact hnone index hindex hmember
      · exact habove index (not_lt.mp hindex) hmember
    · exact finds_of_ne_zero hzero hcurrent hbelow
  | cons word words ih =>
    by_cases hzero : current = 0
    · rw [scan, if_neg (not_not.mpr hzero)]
      refine ih (hwords 0 word rfl) (fun n other hother => ?_)
        (not_member_of_zero hzero hcurrent hbelow) fun index hindex => habove index ?_
      · have hbits := hwords (n + 1) other hother
        rwa [← Nat.add_assoc, Nat.add_right_comm (wordIndex + 1) n 1] at hbits
      · rw [length_cons]
        omega
    · exact finds_of_ne_zero hzero hcurrent hbelow

end Scan

theorem contains_of_word {wordIndex bit : ℕ} {word : BitVec 64}
    (hword : bits.words[wordIndex]? = some word) (hbit : bit < 64) :
    bits.contains (wordIndex * 64 + bit) = some (word.getLsbD bit) := by
  have hdiv : (wordIndex * 64 + bit) / 64 = wordIndex := by omega
  have hmod : (wordIndex * 64 + bit) % 64 = bit := by omega
  rw [contains_eq, hdiv, hmod, hword, Option.map_some]

/-- The search is for the least set bit from `start` on. -/
theorem exists_next (hbits : bits.WellFormed) (start : ℕ) :
    ∃ found, bits.next start = some found ∧
      Finds bits.sectionCount (fun index => start ≤ index ∧ bits.contains index = some true)
        found := by
  rw [next]
  split_ifs with hstart
  · refine ⟨none, rfl, finds_none fun index hindex hmember => ?_⟩
    have hle := hmember.1
    omega
  · have hlt := hbits.lt_length (not_le.mp hstart)
    have hword := getElem?_eq_getElem hlt
    rw [hword]
    refine ⟨_, rfl, finds_scan (fun bit hbit => ?_) (fun n word hn bit hbit => ?_)
      (fun index hindex hmember => ?_) fun index hindex hmember => ?_⟩
    · have hmask : (BitVec.allOnes 64 <<< (start % 64)).getLsbD bit =
          decide (start % 64 ≤ bit) := by
        rw [BitVec.getLsbD_shiftLeft, BitVec.getLsbD_allOnes]
        by_cases hlow : bit < start % 64
        · simp [hlow]
        · simp [hbit, hlow, not_lt.mp hlow, (Nat.sub_le bit (start % 64)).trans_lt hbit]
      have hfrom : start ≤ start / 64 * 64 + bit ↔ start % 64 ≤ bit := by omega
      rw [BitVec.getLsbD_and, hmask, contains_of_word hword hbit, Bool.and_eq_true,
        decide_eq_true_iff, Option.some.injEq, hfrom, and_comm]
    · rw [getElem?_drop] at hn
      have hfrom : start ≤ (start / 64 + 1 + n) * 64 + bit := by omega
      rw [contains_of_word hn hbit, Option.some.injEq]
      exact ⟨fun hset => ⟨hfrom, hset⟩, And.right⟩
    · have hle := hmember.1
      omega
    · rw [length_drop] at hindex
      have hnone : bits.words[index / 64]? = none := getElem?_eq_none (by omega)
      have hset := hmember.2
      rw [contains_eq, hnone] at hset
      cases hset

end RandomTickSectionBits

/-! ### The mirror -/

namespace TickedSections

/-- Every bit is what its section is, or was when it got its guard. -/
structure Mirrors (sections : TickedSections) : Prop where
  wellFormed : sections.randomlyTickingSections.WellFormed
  sectionCount_eq : sections.randomlyTickingSections.sectionCount = sections.holders.length
  contains_eq : ∀ index holder, sections.holders[index]? = some holder →
    sections.randomlyTickingSections.contains index =
      some (holder.wasRandomlyTicking.getD holder.chunkSection.isRandomlyTicking)

variable {overflowChecks : Bool} {table : SectionStates} {sections after : TickedSections}
  {index : ℕ} {holder : SectionHolder}

theorem lt_length (hholder : sections.holders[index]? = some holder) :
    index < sections.holders.length := (List.getElem?_eq_some_iff.mp hholder).1

/-- A change that the mirror does not see. -/
theorem Mirrors.setHolder (h : sections.Mirrors) (hholder : sections.holders[index]? = some holder)
    {changed : SectionHolder}
    (hsame : changed.wasRandomlyTicking.getD changed.chunkSection.isRandomlyTicking =
      holder.wasRandomlyTicking.getD holder.chunkSection.isRandomlyTicking) :
    (sections.setHolder index changed).Mirrors where
  wellFormed := h.wellFormed
  sectionCount_eq := by
    unfold TickedSections.setHolder
    rw [length_set]
    exact h.sectionCount_eq
  contains_eq other otherHolder hother := by
    unfold TickedSections.setHolder at hother ⊢
    by_cases heq : index = other
    · subst heq
      rw [getElem?_set_self (lt_length hholder)] at hother
      cases hother
      rw [hsame]
      exact h.contains_eq index holder hholder
    · rw [getElem?_set_ne heq] at hother
      exact h.contains_eq other otherHolder hother

/-- The guard corrects the mirror. -/
theorem Mirrors.exists_drop (h : sections.Mirrors)
    (hholder : sections.holders[index]? = some holder) {was : Bool}
    (hwas : holder.wasRandomlyTicking = some was) :
    ∃ dropped, sections.step overflowChecks table (.drop index) = some dropped ∧
      dropped.Mirrors := by
  have hlt := lt_length hholder
  have hbit := h.contains_eq index holder hholder
  rw [hwas, Option.getD_some] at hbit
  rw [TickedSections.step, hholder, Option.bind_eq_bind, Option.bind_some, hwas]
  dsimp only
  split_ifs with hchanged
  · obtain ⟨bits, hset, hwellFormed, hcount, hcontains⟩ := RandomTickSectionBits.exists_set
      h.wellFormed (h.sectionCount_eq ▸ hlt) holder.chunkSection.isRandomlyTicking
    rw [hset]
    refine ⟨_, rfl, hwellFormed, ?_, fun other otherHolder hother => ?_⟩
    · rw [hcount, h.sectionCount_eq]
      exact length_set.symm
    · rw [hcontains]
      by_cases heq : index = other
      · subst heq
        have hother' : (sections.holders.set index ⟨holder.chunkSection, none⟩)[index]? =
            some otherHolder := hother
        rw [getElem?_set_self hlt] at hother'
        cases hother'
        rw [if_pos rfl]
        rfl
      · have hother' : (sections.holders.set index ⟨holder.chunkSection, none⟩)[other]? =
            some otherHolder := hother
        rw [getElem?_set_ne heq] at hother'
        rw [if_neg (Ne.symm heq)]
        exact h.contains_eq other otherHolder hother'
  · refine ⟨_, rfl, h.setHolder hholder ?_⟩
    rw [hwas]
    exact not_not.mp hchanged

theorem Mirrors.step (h : sections.Mirrors) {action : Action}
    (hstep : sections.step overflowChecks table action = some after) : after.Mirrors := by
  cases action with
  | write index =>
    obtain ⟨holder, hholder, hstep⟩ := Option.bind_eq_some_iff.mp hstep
    cases hwas : holder.wasRandomlyTicking with
    | some was =>
      rw [hwas] at hstep
      cases hstep
    | none =>
      rw [hwas] at hstep
      cases hstep
      refine h.setHolder hholder ?_
      rw [hwas]
      rfl
  | change index change =>
    obtain ⟨holder, hholder, hstep⟩ := Option.bind_eq_some_iff.mp hstep
    cases hwas : holder.wasRandomlyTicking with
    | none =>
      rw [hwas] at hstep
      cases hstep
    | some was =>
      rw [hwas] at hstep
      obtain ⟨chunkSection, -, hstep⟩ := Option.bind_eq_some_iff.mp hstep
      cases hstep
      refine h.setHolder hholder ?_
      rw [hwas]
      rfl
  | drop index =>
    obtain ⟨holder, hholder, hrest⟩ := Option.bind_eq_some_iff.mp hstep
    cases hwas : holder.wasRandomlyTicking with
    | none =>
      rw [hwas] at hrest
      cases hrest
    | some was =>
      obtain ⟨dropped, hdrop, hdropped⟩ := h.exists_drop hholder hwas
      rw [hdrop] at hstep
      cases hstep
      exact hdropped

theorem Mirrors.run (h : sections.Mirrors) {actions : List Action}
    (hrun : sections.run overflowChecks table actions = some after) : after.Mirrors := by
  induction actions generalizing sections with
  | nil =>
    cases hrun
    exact h
  | cons action actions ih =>
    obtain ⟨next, hstep, hrest⟩ := Option.bind_eq_some_iff.mp hrun
    exact ih (h.step hstep) hrest

theorem exists_withRandomTickIndex {bits : RandomTickSectionBits} (hbits : bits.WellFormed)
    (hindex : index < bits.sectionCount) (hclear : bits.contains index = some false)
    (chunkSection : ChunkSection) :
    ∃ entered, withRandomTickIndex bits index chunkSection = some entered ∧
      entered.WellFormed ∧ entered.sectionCount = bits.sectionCount ∧
      ∀ other, entered.contains other =
        if other = index then some chunkSection.isRandomlyTicking else bits.contains other := by
  unfold withRandomTickIndex
  cases chunkSection.isRandomlyTicking with
  | true => exact RandomTickSectionBits.exists_set hbits hindex true
  | false =>
    refine ⟨bits, rfl, hbits, rfl, fun other => ?_⟩
    split_ifs with hother
    · rw [hother]
      exact hclear
    · rfl

/-- The sections from one on are entered, and the bits of those before stay. -/
theorem exists_indexFrom {first : ℕ} {chunkSections : List ChunkSection}
    {bits : RandomTickSectionBits} (hbits : bits.WellFormed)
    (hcount : first + chunkSections.length = bits.sectionCount)
    (hclear : ∀ index, first ≤ index → index < bits.sectionCount →
      bits.contains index = some false) :
    ∃ indexed, indexFrom first chunkSections bits = some indexed ∧ indexed.WellFormed ∧
      indexed.sectionCount = bits.sectionCount ∧
      (∀ index < first, indexed.contains index = bits.contains index) ∧
      ∀ n chunkSection, chunkSections[n]? = some chunkSection →
        indexed.contains (first + n) = some chunkSection.isRandomlyTicking := by
  induction chunkSections generalizing first bits with
  | nil =>
    refine ⟨bits, rfl, hbits, rfl, fun _ _ => rfl, fun n chunkSection hn => ?_⟩
    cases hn
  | cons chunkSection rest ih =>
    rw [length_cons] at hcount
    obtain ⟨entered, hset, hwellFormed, hsame, hcontains⟩ :=
      exists_withRandomTickIndex hbits (by omega) (hclear first le_rfl (by omega)) chunkSection
    have hrest : first + 1 + rest.length = entered.sectionCount := by omega
    have hclear' : ∀ index, first + 1 ≤ index → index < entered.sectionCount →
        entered.contains index = some false := by
      intro index hle hlt
      rw [hcontains, if_neg (by omega)]
      exact hclear index (by omega) (by omega)
    obtain ⟨indexed, hindexed, hindexedFormed, hindexedCount, hbefore, hafter⟩ :=
      ih hwellFormed hrest hclear'
    refine ⟨indexed, ?_, hindexedFormed, hindexedCount.trans hsame, fun index hindex => ?_,
      fun n other hn => ?_⟩
    · rw [indexFrom, hset]
      exact hindexed
    · rw [hbefore index (by omega), hcontains, if_neg (by omega)]
    · cases n with
      | zero =>
        cases hn
        rw [Nat.add_zero, hbefore first (by omega), hcontains, if_pos rfl]
      | succ n =>
        rw [← Nat.add_assoc, Nat.add_right_comm]
        exact hafter n other hn

theorem exists_fromOwned (chunkSections : List ChunkSection) :
    ∃ sections, fromOwned chunkSections = some sections ∧ sections.Mirrors := by
  obtain ⟨indexed, hindexed, hwellFormed, hcount, -, hcontains⟩ :=
    exists_indexFrom (RandomTickSectionBits.wellFormed_new chunkSections.length)
      (Nat.zero_add _) fun index _ hindex => RandomTickSectionBits.contains_new hindex
  refine ⟨⟨chunkSections.map (⟨·, none⟩), indexed⟩, ?_, hwellFormed, ?_, fun index holder h => ?_⟩
  · rw [fromOwned, hindexed]
    rfl
  · rw [length_map]
    exact hcount
  · rw [getElem?_map] at h
    obtain ⟨chunkSection, hsection, rfl⟩ := Option.map_eq_some_iff.mp h
    rw [← Nat.zero_add index]
    exact hcontains index chunkSection hsection

/--
From any sections on, whatever the guards do and however they overlap, the bit of a section without
a guard says whether it is randomly ticking, a guard can be dropped, and the search from any start
finds the least set bit.
-/
theorem randomTickSections_mirror (overflowChecks : Bool) (table : SectionStates)
    (chunkSections : List ChunkSection) :
    ∃ initial, fromOwned chunkSections = some initial ∧
      ∀ actions sections, initial.run overflowChecks table actions = some sections →
        (∀ index holder, sections.holders[index]? = some holder →
          (holder.wasRandomlyTicking = none →
            (sections.randomlyTickingSections.contains index = some true ↔
              holder.chunkSection.isRandomlyTicking = true)) ∧
          (holder.wasRandomlyTicking ≠ none →
            ∃ dropped, sections.step overflowChecks table (.drop index) = some dropped)) ∧
        ∀ start, ∃ found, sections.randomlyTickingSections.next start = some found ∧
          RandomTickSectionBits.Finds sections.holders.length (fun index => start ≤ index ∧
            sections.randomlyTickingSections.contains index = some true) found := by
  obtain ⟨initial, hinitial, hmirrors⟩ := exists_fromOwned chunkSections
  refine ⟨initial, hinitial, fun actions sections hrun => ?_⟩
  have hsections := hmirrors.run hrun
  refine ⟨fun index holder hholder => ⟨fun hnone => ?_, fun hsome => ?_⟩, fun start => ?_⟩
  · rw [hsections.contains_eq index holder hholder, hnone, Option.getD_none, Option.some.injEq]
  · obtain ⟨was, hwas⟩ := Option.ne_none_iff_exists'.mp hsome
    obtain ⟨dropped, hdropped, -⟩ := hsections.exists_drop hholder hwas
    exact ⟨dropped, hdropped⟩
  · rw [← hsections.sectionCount_eq]
    exact RandomTickSectionBits.exists_next hsections.wellFormed start

end TickedSections

end Steel.Sections
