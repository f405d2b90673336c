import Mathlib.Algebra.BigOperators.Fin
import Steel.Inventory.PlayerInventory
import Steel.Lib.Loop

/-!
# Adding a stack loses nothing and leaves no room

Each turn of the loops moves a part of the stack into one slot. A slot that has had its turn has no
room left unless the stack has become empty.
-/

namespace Steel

open List Function

variable {I P C T : Type} [DecidableEq I] [DecidableEq C] {items : Items I P C T}

namespace ItemStack

def identity (items : Items I P C T) (stack : ItemStack I P) : I × C :=
  (stack.item, items.effective stack.item stack.patch)

def countOf (items : Items I P C T) (id : I × C) (stack : ItemStack I P) : ℤ :=
  if stack.identity items = id then stack.countOrZero items else 0

variable {stack other : ItemStack I P}

omit [DecidableEq C] in
theorem countOrZero_of_nonempty (h : stack.isEmpty items = false) :
    stack.countOrZero items = stack.count := by
  rw [countOrZero, h]
  rfl

omit [DecidableEq C] in
theorem countOrZero_nonneg : 0 ≤ stack.countOrZero items := by
  rw [countOrZero]
  split_ifs with hempty
  · exact le_rfl
  · exact ((isEmpty_eq_false items).mp (Bool.eq_false_of_not_eq_true hempty)).2.le

omit [DecidableEq C] in
theorem isEmpty_of_count_le (h : stack.count ≤ 0) : stack.isEmpty items = true := by
  simp [isEmpty, h]

omit [DecidableEq C] in
theorem countOrZero_of_nonneg (hitem : stack.item ≠ items.air) (hcount : 0 ≤ stack.count) :
    stack.countOrZero items = stack.count := by
  cases hempty : stack.isEmpty items with
  | false => exact countOrZero_of_nonempty hempty
  | true =>
    rw [countOrZero, if_pos hempty]
    simp only [isEmpty, hitem, decide_false, Bool.false_or, decide_eq_true_eq] at hempty
    exact le_antisymm hcount hempty

theorem identity_of_isSame (hleft : stack.isEmpty items = false)
    (hright : other.isEmpty items = false) :
    stack.isSameItemSameComponents items other = true ↔
      stack.identity items = other.identity items := by
  simp [isSameItemSameComponents, itemOrAir, hleft, hright, componentsEqual,
    identity, Prod.mk.injEq]

theorem nonempty_of_isSame (hright : other.isEmpty items = false)
    (h : stack.isSameItemSameComponents items other = true) : stack.isEmpty items = false := by
  cases hleft : stack.isEmpty items with
  | false => rfl
  | true =>
    simp only [isSameItemSameComponents, itemOrAir, hleft, hright, if_true, Bool.false_eq_true,
      if_false, Bool.and_eq_true, decide_eq_true_eq] at h
    exact absurd h.1.symm ((isEmpty_eq_false items).mp hright).1

end ItemStack

namespace PlayerInventory

variable {maxSize : ℤ} {adding next : Adding I P} {slot : Fin 43}

/-- A part of the stack goes into a slot that is empty or has more of the same, and fills it unless
it is all there was. -/
structure Move (items : Items I P C T) (maxSize : ℤ) (adding : Adding I P) (slot : Fin 43)
    (amount : ℤ) (new : ItemStack I P) : Prop where
  stack : adding.stack.isEmpty items = false
  pos : 0 < amount
  le : amount ≤ adding.stack.count
  old : (adding.items slot).isEmpty items = false →
    (adding.items slot).identity items = adding.stack.identity items
  same : new.identity items = adding.stack.identity items
  count : new.count = (adding.items slot).countOrZero items + amount
  fits : new.count ≤ maxSize
  full : amount < adding.stack.count → new.count = maxSize

/-- A turn moves a part, or does nothing for a reason. -/
def Turn (items : Items I P C T) (maxSize : ℤ) (reason : Prop) (adding : Adding I P)
    (slot : Fin 43) (next : Adding I P) : Prop :=
  reason ∧ next = adding ∨ ∃ amount new, Move items maxSize adding slot amount new ∧
    next = { items := update adding.items slot new
             stack := adding.stack.shrink amount
             changed := true }

def NoRoom (items : Items I P C T) (maxSize : ℤ) (adding : Adding I P) (slot : Fin 43) : Prop :=
  adding.stack.isEmpty items = true ∨ ((adding.items slot).isEmpty items = false →
    (adding.items slot).identity items = adding.stack.identity items →
    maxSize ≤ (adding.items slot).count)

def Filled (items : Items I P C T) (adding : Adding I P) (slot : Fin 43) : Prop :=
  adding.stack.isEmpty items = true ∨ (adding.items slot).isEmpty items = false

theorem turn_mergeSlot (maxSize : ℤ) (adding : Adding I P) (slot : Fin 43) :
    Turn items maxSize (NoRoom items maxSize adding slot) adding slot
      (mergeSlot items maxSize adding slot) := by
  simp only [mergeSlot]
  cases hstack : adding.stack.isEmpty items with
  | true => exact .inl ⟨.inl hstack, rfl⟩
  | false =>
    cases hexisting : (adding.items slot).isEmpty items with
    | true =>
      refine .inl ⟨.inr fun hnonempty => ?_, rfl⟩
      rw [hexisting] at hnonempty
      cases hnonempty
    | false =>
      have hsame := ItemStack.identity_of_isSame hexisting hstack
      have hcount := ((ItemStack.isEmpty_eq_false items).mp hstack).2
      rw [ItemStack.countOrZero_of_nonempty hstack, ItemStack.countOrZero_of_nonempty hexisting]
      simp only [Bool.false_eq_true, if_false, Bool.not_false, Bool.true_and, hsame]
      split_ifs with hidentity hspace
      · refine .inr ⟨_, _, ?_, rfl⟩
        refine ⟨hstack, lt_min hcount hspace, min_le_left _ _, fun _ => hidentity,
          hidentity, ?_, ?_, fun hless => ?_⟩
        · rw [ItemStack.countOrZero_of_nonempty hexisting]
          rfl
        · dsimp only [ItemStack.grow]
          omega
        · dsimp only [ItemStack.grow]
          omega
      · exact .inl ⟨.inr fun _ _ => by omega, rfl⟩
      · exact .inl ⟨.inr fun _ hother => absurd hother hidentity, rfl⟩

omit [DecidableEq C] in
theorem turn_placeSlot (hmax : 0 < maxSize) (adding : Adding I P) (slot : Fin 43) :
    Turn items maxSize (Filled items adding slot) adding slot
      (placeSlot items maxSize adding slot) := by
  simp only [placeSlot]
  cases hstack : adding.stack.isEmpty items with
  | true => exact .inl ⟨.inl hstack, rfl⟩
  | false =>
    cases hslot : (adding.items slot).isEmpty items with
    | false => exact .inl ⟨.inr hslot, rfl⟩
    | true =>
      have hcount := ((ItemStack.isEmpty_eq_false items).mp hstack).2
      have hzero : (adding.items slot).countOrZero items = 0 := by
        rw [ItemStack.countOrZero, if_pos hslot]
      have hsplit : min (min adding.stack.count maxSize) adding.stack.count =
          min adding.stack.count maxSize := by omega
      rw [ItemStack.countOrZero_of_nonempty hstack]
      simp only [Bool.false_eq_true, if_false, if_true, ItemStack.split, hsplit]
      refine .inr ⟨_, _, ?_, rfl⟩
      refine ⟨hstack, lt_min hcount hmax, min_le_left _ _, fun hold => ?_, rfl, ?_,
        min_le_right _ _, fun hless => ?_⟩
      · rw [hslot] at hold
        cases hold
      · rw [hzero, Int.zero_add]
      · dsimp only
        omega

/-! ### What one turn keeps -/

theorem sum_countOf_update (slots : Fin 43 → ItemStack I P) (slot : Fin 43) (new : ItemStack I P)
    (id : I × C) :
    ∑ other, (update slots slot new other).countOf items id =
      ∑ other, (slots other).countOf items id - (slots slot).countOf items id +
        new.countOf items id := by
  have hupdate : (fun other => (update slots slot new other).countOf items id) =
      update (fun other => (slots other).countOf items id) slot
        (new.countOf items id) := by
    funext other
    by_cases heq : other = slot
    · subst heq
      simp
    · simp [heq]
  have hsum := Finset.sum_erase_add Finset.univ (fun other => (slots other).countOf items id)
    (Finset.mem_univ slot)
  rw [hupdate, Finset.sum_update_of_mem (Finset.mem_univ slot), ← hsum,
    Finset.sdiff_singleton_eq_erase]
  omega

variable {reason : Prop} {other : Fin 43}

variable {new : ItemStack I P} {amount : ℤ}

omit [DecidableEq C] in
theorem Move.nonempty (h : Move items maxSize adding slot amount new) :
    new.isEmpty items = false := by
  have hstack := (ItemStack.isEmpty_eq_false items).mp h.stack
  have hitem : new.item = adding.stack.item := congrArg Prod.fst h.same
  have hold : 0 ≤ (adding.items slot).countOrZero items := ItemStack.countOrZero_nonneg
  have hpos := h.pos
  have hcount := h.count
  rw [ItemStack.isEmpty_eq_false, hitem]
  exact ⟨hstack.1, by omega⟩

omit [DecidableEq C] in
theorem Move.noRoom {slots : Fin 43 → ItemStack I P} (h : Move items maxSize adding slot amount new)
    (hslot : slots slot = new) :
    NoRoom items maxSize { items := slots, stack := adding.stack.shrink amount, changed := true }
      slot := by
  by_cases hless : amount < adding.stack.count
  · refine .inr fun _ _ => ?_
    dsimp only
    rw [hslot, h.full hless]
  · refine .inl (ItemStack.isEmpty_of_count_le ?_)
    dsimp only [ItemStack.shrink]
    omega

omit [DecidableEq C] in
/-- No slot gets room again. -/
theorem Turn.keeps_noRoom (hturn : Turn items maxSize reason adding slot next)
    (h : NoRoom items maxSize adding other) : NoRoom items maxSize next other := by
  obtain ⟨-, rfl⟩ | ⟨amount, new, hmove, rfl⟩ := hturn
  · exact h
  · by_cases heq : other = slot
    · subst heq
      exact hmove.noRoom (update_self ..)
    · obtain hempty | hroom := h
      · rw [hmove.stack] at hempty
        cases hempty
      · refine .inr ?_
        dsimp only
        rw [update_of_ne heq]
        exact hroom

omit [DecidableEq C] in
theorem Turn.noRoom
    (hturn : Turn items maxSize (NoRoom items maxSize adding slot) adding slot next) :
    NoRoom items maxSize next slot := by
  obtain ⟨hreason, rfl⟩ | ⟨amount, new, hmove, rfl⟩ := hturn
  · exact hreason
  · exact hmove.noRoom (update_self ..)

omit [DecidableEq C] in
theorem Turn.keeps_filled (hturn : Turn items maxSize reason adding slot next)
    (h : Filled items adding other) : Filled items next other := by
  obtain ⟨-, rfl⟩ | ⟨amount, new, hmove, rfl⟩ := hturn
  · exact h
  · refine .inr ?_
    dsimp only
    by_cases heq : other = slot
    · subst heq
      rw [update_self]
      exact hmove.nonempty
    · rw [update_of_ne heq]
      refine h.resolve_left fun hempty => ?_
      rw [hmove.stack] at hempty
      cases hempty

omit [DecidableEq C] in
theorem Turn.filled (hturn : Turn items maxSize (Filled items adding slot) adding slot next) :
    Filled items next slot := by
  obtain ⟨hreason, rfl⟩ | ⟨amount, new, hmove, rfl⟩ := hturn
  · exact hreason
  · refine .inr ?_
    dsimp only
    rw [update_self]
    exact hmove.nonempty

/-- What has been moved is in the slots, of which those that have changed fit. -/
structure Progress (items : Items I P C T) (maxSize : ℤ) (start adding : Adding I P) : Prop where
  identity : adding.stack.identity items = start.stack.identity items
  conserved : ∀ id, ∑ slot, (adding.items slot).countOf items id + adding.stack.countOf items id =
    ∑ slot, (start.items slot).countOf items id + start.stack.countOf items id
  fits : ∀ slot, adding.items slot = start.items slot ∨
    (adding.items slot).identity items = start.stack.identity items ∧
      (adding.items slot).isEmpty items = false ∧ (adding.items slot).count ≤ maxSize

theorem Move.countOf (h : Move items maxSize adding slot amount new) (id : I × C) :
    new.countOf items id + (adding.stack.shrink amount).countOf items id =
      (adding.items slot).countOf items id + adding.stack.countOf items id := by
  have hair := ((ItemStack.isEmpty_eq_false items).mp h.stack).1
  have hleft : (adding.stack.shrink amount).countOrZero items = adding.stack.count - amount :=
    ItemStack.countOrZero_of_nonneg hair (Int.sub_nonneg.mpr h.le)
  have hidentity : (adding.stack.shrink amount).identity items = adding.stack.identity items := rfl
  simp only [ItemStack.countOf, h.same, hidentity, hleft, ItemStack.countOrZero_of_nonempty h.stack,
    ItemStack.countOrZero_of_nonempty h.nonempty, h.count]
  by_cases hid : adding.stack.identity items = id
  · cases hslot : (adding.items slot).isEmpty items with
    | true =>
      have hzero : (adding.items slot).countOrZero items = 0 := by
        rw [ItemStack.countOrZero, if_pos hslot]
      simp only [if_pos hid, hzero, ite_self]
      omega
    | false =>
      simp only [h.old hslot, if_pos hid]
      omega
  · cases hslot : (adding.items slot).isEmpty items with
    | true =>
      have hzero : (adding.items slot).countOrZero items = 0 := by
        rw [ItemStack.countOrZero, if_pos hslot]
      simp only [if_neg hid, hzero, ite_self]
    | false => simp only [h.old hslot, if_neg hid]

theorem Progress.turn {start : Adding I P} (h : Progress items maxSize start adding)
    (hturn : Turn items maxSize reason adding slot next) : Progress items maxSize start next := by
  obtain ⟨-, rfl⟩ | ⟨amount, new, hmove, rfl⟩ := hturn
  · exact h
  · refine ⟨h.identity, fun id => ?_, fun other => ?_⟩
    · rw [← h.conserved id, sum_countOf_update]
      have hcount := hmove.countOf id
      dsimp only
      omega
    · dsimp only
      by_cases heq : other = slot
      · subst heq
        rw [update_self]
        exact .inr ⟨hmove.same.trans h.identity, hmove.nonempty, hmove.fits⟩
      · rw [update_of_ne heq]
        exact h.fits other

/-! ### Both loops -/

omit [DecidableEq C] in
theorem Turn.items_of_ne (hturn : Turn items maxSize reason adding slot next) (hne : other ≠ slot) :
    next.items other = adding.items other := by
  obtain ⟨-, rfl⟩ | ⟨amount, new, -, rfl⟩ := hturn
  · rfl
  · exact update_of_ne hne ..

theorem mergeSlot_of_isEmpty (h : (adding.items slot).isEmpty items = true) :
    mergeSlot items maxSize adding slot = adding := by
  simp [mergeSlot, h]

/-- A slot that is not in the main part, unless it is the offhand with something in it. -/
def Outside (items : Items I P C T) (inventory : PlayerInventory I P) (slot : Fin 43) : Prop :=
  slot ∉ mainSlots ∧ (slot = slotOffhand → (inventory.items slot).isEmpty items = true)

variable {inventory : PlayerInventory I P} {stack : ItemStack I P}

omit [DecidableEq I] [DecidableEq C] in
theorem selectedSlot_mem_mainSlots (inventory : PlayerInventory I P) :
    inventory.selectedSlot ∈ mainSlots := by
  refine mem_map.mpr ⟨inventory.selected.castLE (by decide), mem_finRange _, ?_⟩
  rfl

omit [DecidableEq I] [DecidableEq C] in
theorem mem_mergeSlots : slot ∈ inventory.mergeSlots ↔ slot = slotOffhand ∨ slot ∈ mainSlots := by
  have hselected := selectedSlot_mem_mainSlots inventory
  simp only [mergeSlots, mem_append, mem_cons, not_mem_nil, or_false, mem_filter,
    decide_eq_true_eq]
  constructor
  · rintro ((rfl | rfl) | ⟨hmain, -⟩)
    · exact .inr hselected
    · exact .inl rfl
    · exact .inr hmain
  · rintro (rfl | hmain)
    · exact .inl (.inr rfl)
    · by_cases heq : slot = inventory.selectedSlot
      · exact .inl (.inl heq)
      · exact .inr ⟨hmain, heq⟩

def start (inventory : PlayerInventory I P) (stack : ItemStack I P) : Adding I P :=
  { items := inventory.items, stack, changed := false }

def merged (items : Items I P C T) (maxSize : ℤ) (inventory : PlayerInventory I P)
    (stack : ItemStack I P) : Adding I P :=
  if stack.isStackable items then
    inventory.mergeSlots.foldl (mergeSlot items maxSize) (start inventory stack)
  else start inventory stack

def added (items : Items I P C T) (maxSize : ℤ) (inventory : PlayerInventory I P)
    (stack : ItemStack I P) : Adding I P :=
  mainSlots.foldl (placeSlot items maxSize) (merged items maxSize inventory stack)

theorem progress_added (inventory : PlayerInventory I P) (stack : ItemStack I P)
    (hmax : 0 < maxSize) :
    Progress items maxSize (start inventory stack) (added items maxSize inventory stack) := by
  refine List.foldlRecOn mainSlots _ ?_ fun adding h slot _ =>
    h.turn (turn_placeSlot hmax adding slot)
  have hstart : Progress items maxSize (start inventory stack) (start inventory stack) :=
    ⟨rfl, fun _ => rfl, fun _ => .inl rfl⟩
  rw [merged]
  split_ifs
  · exact List.foldlRecOn inventory.mergeSlots _ hstart
      fun adding h slot _ => h.turn (turn_mergeSlot maxSize adding slot)
  · exact hstart

theorem added_outside (hmax : 0 < maxSize) (h : Outside items inventory slot) :
    (added items maxSize inventory stack).items slot = inventory.items slot := by
  refine List.foldlRecOn
    (motive := fun adding : Adding I P => adding.items slot = inventory.items slot)
    mainSlots _ ?_ fun adding hadding visited hvisited => ?_
  · rw [merged]
    split_ifs
    · refine List.foldlRecOn
        (motive := fun adding : Adding I P => adding.items slot = inventory.items slot)
        inventory.mergeSlots _ rfl fun adding hadding visited hvisited => ?_
      by_cases heq : slot = visited
      · subst heq
        have hoffhand := (mem_mergeSlots.mp hvisited).resolve_right h.1
        rw [mergeSlot_of_isEmpty (by rw [hadding]; exact h.2 hoffhand)]
        exact hadding
      · rw [(turn_mergeSlot maxSize adding visited).items_of_ne heq]
        exact hadding
    · rfl
  · have hne : slot ≠ visited := by
      rintro rfl
      exact h.1 hvisited
    rw [(turn_placeSlot hmax adding visited).items_of_ne hne]
    exact hadding

theorem added_filled (hmax : 0 < maxSize) (hslot : slot ∈ mainSlots) :
    Filled items (added items maxSize inventory stack) slot :=
  foldl_visits (Filled items) (fun adding slot => (turn_placeSlot hmax adding slot).filled)
    (fun adding slot _ => (turn_placeSlot hmax adding slot).keeps_filled) mainSlots _ slot hslot

theorem added_noRoom (hmax : 0 < maxSize) (hstackable : stack.isStackable items = true)
    (hslot : slot ∈ inventory.mergeSlots) :
    NoRoom items maxSize (added items maxSize inventory stack) slot := by
  refine List.foldlRecOn mainSlots _ ?_
    fun adding h visited _ => (turn_placeSlot hmax adding visited).keeps_noRoom h
  rw [merged, if_pos hstackable]
  exact foldl_visits (NoRoom items maxSize)
    (fun adding slot => (turn_mergeSlot maxSize adding slot).noRoom)
    (fun adding slot _ => (turn_mergeSlot maxSize adding slot).keeps_noRoom) _ _ slot hslot

omit [DecidableEq C] in
theorem getMaxStackSizeForItem_pos (stack : ItemStack I P) :
    0 < getMaxStackSizeForItem items stack := by
  rw [getMaxStackSizeForItem, getMaxStackSize, ItemStack.maxStackSize]
  split_ifs
  · decide
  · have hrange := items.maxStackSize_range (items.effective stack.item stack.patch)
    omega

omit [DecidableEq C] in
theorem getMaxStackSizeForItem_congr {left right : ItemStack I P}
    (hleft : left.isEmpty items = false)
    (hright : right.isEmpty items = false) (h : left.identity items = right.identity items) :
    getMaxStackSizeForItem items left = getMaxStackSizeForItem items right := by
  have heffective : items.effective left.item left.patch = items.effective right.item right.patch :=
    congrArg Prod.snd h
  rw [getMaxStackSizeForItem, getMaxStackSizeForItem, ItemStack.maxStackSize,
    ItemStack.maxStackSize, hleft, hright, heffective]

theorem add_of_isEmpty (h : stack.isEmpty items = true) :
    inventory.add items stack = (true, inventory, stack) := by
  simp [add, h]

theorem add_of_nonempty (inventory : PlayerInventory I P) (h : stack.isEmpty items = false) :
    let done := added items (getMaxStackSizeForItem items stack) inventory stack
    ∃ timesChanged, inventory.add items stack =
      (done.stack.isEmpty items, { inventory with items := done.items, timesChanged },
        done.stack) := by
  intro done
  rw [add, if_neg (by simp [h])]
  exact ⟨_, rfl⟩

theorem add_emptied (items : Items I P C T) (inventory : PlayerInventory I P)
    (stack : ItemStack I P) :
    (inventory.add items stack).1 = (inventory.add items stack).2.2.isEmpty items := by
  cases hempty : stack.isEmpty items with
  | true => rw [add_of_isEmpty hempty, hempty]
  | false =>
    obtain ⟨timesChanged, hadd⟩ := add_of_nonempty inventory hempty
    rw [hadd]

theorem add_conserved (items : Items I P C T) (inventory : PlayerInventory I P)
    (stack : ItemStack I P) (id : I × C) :
    ∑ slot, ((inventory.add items stack).2.1.items slot).countOf items id +
        (inventory.add items stack).2.2.countOf items id =
      ∑ slot, (inventory.items slot).countOf items id + stack.countOf items id := by
  cases hempty : stack.isEmpty items with
  | true => rw [add_of_isEmpty hempty]
  | false =>
    obtain ⟨timesChanged, hadd⟩ := add_of_nonempty inventory hempty
    rw [hadd]
    exact (progress_added inventory stack (getMaxStackSizeForItem_pos stack)).conserved id

/-- `add` keeps how many there are of everything and touches no slot but the main ones and an
offhand that has something in it. What it fills is within the bound, it says whether the stack is
empty, and when it is not there is no room left. -/
theorem add_conserves_fills (items : Items I P C T) (inventory : PlayerInventory I P)
    (stack : ItemStack I P) :
    ∃ emptied new left, inventory.add items stack = (emptied, new, left) ∧
      (∀ id, ∑ slot, (new.items slot).countOf items id + left.countOf items id =
        ∑ slot, (inventory.items slot).countOf items id + stack.countOf items id) ∧
      (∀ slot, Outside items inventory slot → new.items slot = inventory.items slot) ∧
      (∀ slot, new.items slot ≠ inventory.items slot →
        (new.items slot).count ≤ getMaxStackSizeForItem items (new.items slot)) ∧
      (emptied = true ↔ left.isEmpty items = true) ∧
      (emptied = false → (∀ slot ∈ mainSlots, (new.items slot).isEmpty items = false) ∧
        (stack.isStackable items = true → ∀ slot, slot = slotOffhand ∨ slot ∈ mainSlots →
          (new.items slot).isSameItemSameComponents items left = true →
          getMaxStackSizeForItem items (new.items slot) ≤ (new.items slot).count)) := by
  cases hempty : stack.isEmpty items with
  | true =>
    exact ⟨true, inventory, stack, add_of_isEmpty hempty, fun _ => rfl, fun _ _ => rfl,
      fun _ hne => absurd rfl hne, iff_of_true rfl hempty, nofun⟩
  | false =>
    obtain ⟨timesChanged, hadd⟩ := add_of_nonempty inventory hempty
    have hmax : 0 < getMaxStackSizeForItem items stack := getMaxStackSizeForItem_pos stack
    have hprogress : Progress items _ _ _ := progress_added inventory stack hmax
    refine ⟨_, _, _, hadd, hprogress.conserved, fun slot => added_outside hmax, fun slot hne => ?_,
      Iff.rfl, fun hleft => ⟨fun slot hslot => ?_, fun hstackable slot hslot hsame => ?_⟩⟩
    · obtain ⟨hidentity, hnonempty, hfits⟩ := (hprogress.fits slot).resolve_left hne
      rw [getMaxStackSizeForItem_congr hnonempty hempty hidentity]
      exact hfits
    · refine (added_filled hmax hslot).resolve_left fun hleft' => ?_
      rw [hleft] at hleft'
      cases hleft'
    · have hnonempty := ItemStack.nonempty_of_isSame hleft hsame
      have hidentity := (ItemStack.identity_of_isSame hnonempty hleft).mp hsame
      have hmerge : slot ∈ inventory.mergeSlots := mem_mergeSlots.mpr hslot
      have hnoRoom := added_noRoom hmax hstackable hmerge
      rw [getMaxStackSizeForItem_congr hnonempty hempty (hidentity.trans hprogress.identity)]
      refine hnoRoom.resolve_left (fun hleft' => ?_) hnonempty hidentity
      rw [hleft] at hleft'
      cases hleft'

end PlayerInventory

end Steel
