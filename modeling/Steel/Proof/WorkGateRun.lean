import Mathlib.Data.Set.Lattice
import Mathlib.Order.CompletePartialOrder
import Steel.Lib.Threads
import Steel.Light.WorkGate

/-!
# Light work excludes its neighbours, and nobody waits for nothing

A call that waits has a reservation in its way or a release that has yet to wake it. So once its
window stays free it is woken, tries again, and gets its reservation.
-/

namespace Steel.LightWorkWindowGate

open List Threads Function

/-! ### Windows -/

variable {left right center : ChunkPos} {gate : LightWorkWindowGate}

theorem windowsOverlap_eq_true : windowsOverlap left right = true ↔
      (left.x - right.x).natAbs ≤ 4 ∧ (left.y - right.y).natAbs ≤ 4 := by
  rw [windowsOverlap, Bool.and_eq_true, decide_eq_true_eq, decide_eq_true_eq]
  rfl

theorem windowsOverlap_iff : windowsOverlap left right = true ↔
      ∃ pos : ChunkPos, pos.chebyshev left ≤ lightCacheRadius ∧
        pos.chebyshev right ≤ lightCacheRadius := by
  rw [windowsOverlap_eq_true]
  simp only [ChunkPos.chebyshev, lightCacheRadius]
  constructor
  · intro hnear
    refine ⟨⟨(left.x + right.x) / 2, (left.y + right.y) / 2⟩, ?_, ?_⟩
    · dsimp only
      omega
    · dsimp only
      omega
  · rintro ⟨pos, hleft, hright⟩
    omega

def lightWindow (center : ChunkPos) : Set ChunkPos :=
  { pos | pos.chebyshev center ≤ lightCacheRadius }

theorem windowsOverlap_self (center : ChunkPos) : windowsOverlap center center = true := by
  rw [windowsOverlap_eq_true]
  omega

theorem windowsOverlap_comm (h : windowsOverlap left right = true) :
    windowsOverlap right left = true := by
  rw [windowsOverlap_eq_true] at h ⊢
  omega

theorem tryReserveCentered_eq_some {after : LightWorkWindowGate} :
    gate.tryReserveCentered center = some after ↔
      (∀ active ∈ gate.activeCenters, ¬ windowsOverlap center active = true) ∧
        after = { activeCenters := gate.activeCenters ++ [center] } := by
  rw [tryReserveCentered, Option.ite_none_left_eq_some, any_eq_true, not_exists, Option.some_inj,
    eq_comm]
  simp only [not_and]

theorem tryReserveCentered_eq_none : gate.tryReserveCentered center = none ↔
      ∃ active ∈ gate.activeCenters, windowsOverlap center active = true := by
  rw [tryReserveCentered, ite_eq_left_iff, ← any_eq_true]
  simp only [reduceCtorEq, imp_false, not_not]

theorem release_of_mem (hmem : center ∈ gate.activeCenters) :
    ∃ after, gate.release center = (true, after) ∧
      (center :: after.activeCenters).Perm gate.activeCenters := by
  obtain ⟨index, hindex⟩ : ∃ index, gate.activeCenters.findIdx? (· == center) = some index := by
    rw [← Option.isSome_iff_exists, findIdx?_isSome, any_eq_true]
    exact ⟨center, hmem, beq_self_eq_true center⟩
  have hcenter : gate.activeCenters[index]? = some center := by
    obtain ⟨hlt, heq, -⟩ := findIdx?_eq_some_iff_getElem.mp hindex
    rw [List.getElem?_eq_getElem hlt, eq_of_beq heq]
  refine ⟨{ activeCenters := Vec.swapRemove gate.activeCenters index }, ?_,
    Vec.swapRemove_perm hcenter⟩
  rw [release, hindex]

namespace Calls

variable {I : Type} [DecidableEq I] {calls after : Calls I} {call : I} {gate : LightWorkWindowGate}
  {stages : I → CallStage}

/-! ### One step -/

/-- The active centers are those of the reservations, and whoever waits will be woken. -/
structure Exclusive (gate : LightWorkWindowGate) (stages : I → CallStage) : Prop where
  active : ∀ center, center ∈ gate.activeCenters ↔ ∃ call, stages call = .holding center
  nodup : gate.activeCenters.Nodup
  apart : ∀ call other center center', stages call = .holding center →
    stages other = .holding center' → windowsOverlap center center' = true → call = other
  awake : ∀ call center, stages call = .waiting center false →
    (∃ other, stages other = .releasing) ∨
      ∃ other held, stages other = .holding held ∧ windowsOverlap center held = true

variable {stage : CallStage} {center : ChunkPos} {woken : Bool}

/-- A move that neither takes nor gives back a reservation. -/
theorem Exclusive.move (h : Exclusive gate stages)
    (hbefore : ∀ center, stages call ≠ .holding center) (hreleasing : stages call ≠ .releasing)
    (hafter : ∀ center, stage ≠ .holding center)
    (hwaiting : ∀ center, stage = .waiting center false →
      ∃ other held, stages other = .holding held ∧ windowsOverlap center held = true) :
    Exclusive gate (update stages call stage) := by
  have hholding : ∀ other center, update stages call stage other = .holding center ↔
      stages other = .holding center := by
    intro other center
    by_cases heq : other = call
    · subst heq
      simp [hbefore, hafter]
    · rw [update_of_ne heq]
  refine ⟨fun center => ?_, h.nodup, ?_, fun waiter center hwaiter => ?_⟩
  · simp only [hholding]
    exact h.active center
  · simp only [hholding]
    exact h.apart
  · simp only [hholding]
    obtain ⟨rfl, hstage⟩ | ⟨hne, hstage⟩ := update_cases hwaiter
    · exact .inr (hwaiting center hstage)
    · refine (h.awake waiter center hstage).imp_left fun ⟨other, hother⟩ => ⟨other, ?_⟩
      have hne : other ≠ call := fun heq => hreleasing (heq ▸ hother)
      rw [update_of_ne hne, hother]

/-- A reservation is only given where no other window overlaps. -/
theorem Exclusive.reserve (h : Exclusive gate stages) {taken : LightWorkWindowGate}
    (hbefore : ∀ center, stages call ≠ .holding center) (hreleasing : stages call ≠ .releasing)
    (htry : gate.tryReserveCentered center = some taken) :
    Exclusive taken (update stages call (.holding center)) := by
  obtain ⟨hfree, rfl⟩ := tryReserveCentered_eq_some.mp htry
  have hothers : ∀ other held, stages other = .holding held →
      ¬ windowsOverlap center held = true := fun other held hother =>
    hfree held ((h.active held).mpr ⟨other, hother⟩)
  have hkept : ∀ other held, stages other = .holding held →
      update stages call (.holding center) other = .holding held := by
    intro other held hother
    have hne : other ≠ call := fun heq => hbefore held (heq ▸ hother)
    rw [update_of_ne hne, hother]
  refine ⟨fun held => ?_, ?_, fun first second held held' hfirst hsecond hoverlap => ?_,
    fun waiter waited hwaiter => ?_⟩
  · rw [mem_append, mem_singleton, h.active]
    constructor
    · rintro (⟨other, hother⟩ | rfl)
      · exact ⟨other, hkept other held hother⟩
      · exact ⟨call, update_self ..⟩
    · rintro ⟨other, hother⟩
      obtain ⟨-, hstage⟩ | ⟨-, hstage⟩ := update_cases hother
      · exact .inr (CallStage.holding.inj hstage).symm
      · exact .inl ⟨other, hstage⟩
  · rw [← concat_eq_append]
    exact h.nodup.concat fun hmem => hfree center hmem (windowsOverlap_self center)
  · obtain ⟨hmover, hnew⟩ | ⟨-, hold⟩ := update_cases hfirst <;>
      obtain ⟨hmover', hnew'⟩ | ⟨-, hold'⟩ := update_cases hsecond
    · exact hmover.trans hmover'.symm
    · cases hnew
      exact absurd hoverlap (hothers second held' hold')
    · cases hnew'
      exact absurd (windowsOverlap_comm hoverlap) (hothers first held hold)
    · exact h.apart first second held held' hold hold' hoverlap
  · obtain ⟨-, hstage⟩ | ⟨-, hstage⟩ := update_cases hwaiter
    · cases hstage
    · obtain ⟨other, hother⟩ | ⟨other, held, hother, hoverlap⟩ := h.awake waiter waited hstage
      · have hne : other ≠ call := fun heq => hreleasing (heq ▸ hother)
        exact .inl ⟨other, by rw [update_of_ne hne, hother]⟩
      · exact .inr ⟨other, held, hkept other held hother, hoverlap⟩

theorem Exclusive.drop (h : Exclusive gate stages) {removed : Bool}
    {released : LightWorkWindowGate} (hstage : stages call = .holding center)
    (hrelease : gate.release center = (removed, released)) :
    removed = true ∧ Exclusive released (update stages call .releasing) := by
  obtain ⟨after, heq, hperm⟩ := release_of_mem ((h.active center).mpr ⟨call, hstage⟩)
  obtain ⟨rfl, rfl⟩ := Prod.mk.inj (heq.symm.trans hrelease)
  have hnodup := nodup_cons.mp (hperm.nodup_iff.mpr h.nodup)
  refine ⟨rfl, fun held => ?_, hnodup.2, fun first second held held' hfirst hsecond => ?_,
    fun _ _ _ => .inl ⟨call, update_self ..⟩⟩
  · constructor
    · intro hmem
      obtain ⟨other, hother⟩ :=
        (h.active held).mp (hperm.mem_iff.mp (mem_cons_of_mem center hmem))
      have hne : other ≠ call := fun heq => by
        rw [heq, hstage] at hother
        cases hother
        exact hnodup.1 hmem
      exact ⟨other, by rw [update_of_ne hne, hother]⟩
    · rintro ⟨other, hother⟩
      obtain ⟨-, hcases⟩ | ⟨hne, hcases⟩ := update_cases hother
      · cases hcases
      · have hmem := hperm.mem_iff.mpr ((h.active held).mpr ⟨other, hcases⟩)
        refine (mem_cons.mp hmem).resolve_left fun heq => ?_
        subst heq
        exact hne (h.apart other call held held hcases hstage (windowsOverlap_self held))
  · obtain ⟨-, hfirst⟩ | ⟨-, hfirst⟩ := update_cases hfirst
    · cases hfirst
    obtain ⟨-, hsecond⟩ | ⟨-, hsecond⟩ := update_cases hsecond
    · cases hsecond
    exact h.apart first second held held' hfirst hsecond

theorem wake_eq_holding : stage.wake = .holding center ↔ stage = .holding center := by
  cases stage <;> simp [CallStage.wake]

theorem wake_ne_waiting : stage.wake ≠ .waiting center false := by
  cases stage <;> simp [CallStage.wake]

theorem Exclusive.notify (h : Exclusive gate stages) (hstage : stages call = .releasing) :
    Exclusive gate (update (fun other => (stages other).wake) call .idle) := by
  have hholding : ∀ other center, update (fun other => (stages other).wake) call .idle
      other = .holding center ↔ stages other = .holding center := by
    intro other center
    by_cases heq : other = call
    · subst heq
      simp [hstage]
    · rw [update_of_ne heq]
      exact wake_eq_holding
  refine ⟨fun center => ?_, h.nodup, ?_, fun waiter center hwaiter => ?_⟩
  · simp only [hholding]
    exact h.active center
  · simp only [hholding]
    exact h.apart
  · obtain ⟨-, hidle⟩ | ⟨-, hwoken⟩ := update_cases hwaiter
    · cases hidle
    · exact absurd hwoken wake_ne_waiting

theorem Step.exclusive (hstep : Step call calls after) (h : Exclusive calls.gate calls.stages) :
    Exclusive after.gate after.stages := by
  cases hstep with
  | reserveCentered center hstage =>
    exact h.move (by simp [hstage]) (by simp [hstage]) (by simp) (by simp)
  | reserved hstage htry => exact h.reserve (by simp [hstage]) (by simp [hstage]) htry
  | @blocked center woken hstage htry =>
    refine h.move (by simp [hstage]) (by simp [hstage]) (by simp) fun waited hwaited => ?_
    cases hwaited
    obtain ⟨held, hheld, hoverlap⟩ := tryReserveCentered_eq_none.mp htry
    obtain ⟨other, hother⟩ := (h.active held).mp hheld
    exact ⟨other, held, hother, hoverlap⟩
  | resume hstage => exact h.move (by simp [hstage]) (by simp [hstage]) (by simp) (by simp)
  | tryReserved hstage htry => exact h.reserve (by simp [hstage]) (by simp [hstage]) htry
  | drop hstage hrelease =>
    obtain ⟨rfl, hafter⟩ := h.drop hstage hrelease
    exact hafter
  | notify hstage => exact h.notify hstage

theorem Reached.exclusive (h : Reached calls) : Exclusive calls.gate calls.stages := by
  induction h with
  | new =>
    exact
      { active := fun center => by simp [LightWorkWindowGate.new]
        nodup := nodup_nil
        apart := fun _ _ _ _ hcall => by cases hcall
        awake := fun _ _ hcall => by cases hcall }
  | step _ hstep ih => exact hstep.exclusive ih

/-! ### Whole runs -/

theorem Step.stages_of_ne (hstep : Step call calls after) {other : I} (hne : other ≠ call) :
    after.stages other = calls.stages other ∨
      after.stages other = (calls.stages other).wake := by
  cases hstep with
  | notify hstage => exact .inr (update_of_ne hne ..)
  | _ => exact .inl (update_of_ne hne ..)

theorem Step.of_listening (hstep : Step call calls after)
    (hlistening : calls.stages call = .listening center woken) :
    after.stages call = .holding center ∨ calls.gate.tryReserveCentered center = none := by
  cases hstep with
  | reserved hstage htry =>
    cases hlistening.symm.trans hstage
    exact .inl (update_self ..)
  | blocked hstage htry =>
    cases hlistening.symm.trans hstage
    exact .inr htry
  | _ => simp_all

theorem Step.of_waiting (hstep : Step call calls after)
    (hwaiting : calls.stages call = .waiting center woken) :
    woken = true ∧ after.stages call = .listening center false := by
  cases hstep with
  | resume hstage =>
    cases hwaiting.symm.trans hstage
    exact ⟨rfl, update_self ..⟩
  | _ => simp_all

theorem Step.of_releasing (hstep : Step call calls after)
    (hreleasing : calls.stages call = .releasing) :
    after.stages = update (fun other => (calls.stages other).wake) call .idle := by
  cases hstep with
  | notify => rfl
  | _ => simp_all

namespace Run

variable (run : Run I)

theorem reached (n : ℕ) : Reached (run.calls n) := by
  induction n with
  | zero => exact run.start
  | succ n ih =>
    obtain heq | ⟨call, hstep⟩ := run.next n
    · rw [heq]
      exact ih
    · exact ih.step hstep

/-- Between its own steps a call is at most woken. -/
theorem step_or_wake (call : I) (n : ℕ) :
    Step call (run.calls n) (run.calls (n + 1)) ∨
      (run.calls (n + 1)).stages call = (run.calls n).stages call ∨
      (run.calls (n + 1)).stages call = ((run.calls n).stages call).wake := by
  obtain heq | ⟨mover, hstep⟩ := run.next n
  · exact .inr (.inl (by rw [heq]))
  · by_cases hmover : call = mover
    · subst hmover
      exact .inl hstep
    · exact .inr (hstep.stages_of_ne hmover)

variable {run} {center : ChunkPos} {n : ℕ}

/-- A ready call takes its step from a stage like the one it has now. -/
theorem Fair.step_from (hfair : run.Fair) {P : CallStage → Prop}
    (hwake : ∀ stage, P stage → P stage.wake) (hready : ∀ stage, P stage → Ready stage)
    (hstage : P ((run.calls n).stages call)) :
    ∃ m ≥ n, P ((run.calls m).stages call) ∧ Step call (run.calls m) (run.calls (m + 1)) := by
  have hkept : ∀ k, P ((run.calls (n + k)).stages call) ∨
      ∃ m ≥ n, P ((run.calls m).stages call) ∧ Step call (run.calls m) (run.calls (m + 1)) := by
    intro k
    induction k with
    | zero => exact .inl hstage
    | succ k ih =>
      obtain hstage | hstepped := ih
      · obtain hstep | heq | heq := run.step_or_wake call (n + k)
        · exact .inr ⟨n + k, Nat.le_add_right n k, hstage, hstep⟩
        · exact .inl (by rw [← Nat.add_assoc, heq]; exact hstage)
        · exact .inl (by rw [← Nat.add_assoc, heq]; exact hwake _ hstage)
      · exact .inr hstepped
  obtain ⟨m, hm, hstep⟩ := hfair call n (hready _ hstage)
  obtain ⟨k, rfl⟩ := Nat.exists_eq_add_of_le hm
  exact (hkept k).elim (fun hstage => ⟨n + k, hm, hstage, hstep⟩) id

def FreeFrom (run : Run I) (call : I) (center : ChunkPos) (n : ℕ) : Prop :=
  ∀ m ≥ n, ∀ other ≠ call, ∀ held, (run.calls m).stages other = .holding held →
    ¬ windowsOverlap center held = true

theorem FreeFrom.mono {m : ℕ} (hfree : run.FreeFrom call center n) (hm : n ≤ m) :
    run.FreeFrom call center m :=
  fun later hlater => hfree later (hm.trans hlater)

theorem Fair.holds_of_listening (hfair : run.Fair) (hfree : run.FreeFrom call center n)
    (hstage : ∃ woken, (run.calls n).stages call = .listening center woken) :
    ∃ m ≥ n, (run.calls m).stages call = .holding center := by
  obtain ⟨m, hm, ⟨woken, hlistening⟩, hstep⟩ := hfair.step_from
    (P := fun stage => ∃ woken, stage = .listening center woken)
    (by rintro _ ⟨woken, rfl⟩; exact ⟨true, rfl⟩) (by rintro _ ⟨woken, rfl⟩; trivial) hstage
  refine ⟨m + 1, Nat.le_succ_of_le hm, ?_⟩
  refine (hstep.of_listening hlistening).resolve_right fun htry => ?_
  obtain ⟨held, hheld, hoverlap⟩ := tryReserveCentered_eq_none.mp htry
  obtain ⟨other, hother⟩ := ((run.reached m).exclusive.active held).mp hheld
  have hne : other ≠ call := fun heq => by
    rw [heq, hlistening] at hother
    cases hother
  exact hfree m hm other hne held hother hoverlap

theorem Fair.holds_of_woken (hfair : run.Fair) (hfree : run.FreeFrom call center n)
    (hstage : (run.calls n).stages call = .waiting center true) :
    ∃ m ≥ n, (run.calls m).stages call = .holding center := by
  obtain ⟨m, hm, hwaiting, hstep⟩ := hfair.step_from (P := (· = .waiting center true))
    (by rintro _ rfl; rfl) (by rintro _ rfl; rfl) hstage
  have hlater := Nat.le_succ_of_le hm
  obtain ⟨later, hle, hholding⟩ :=
    hfair.holds_of_listening (hfree.mono hlater) ⟨_, (hstep.of_waiting hwaiting).2⟩
  exact ⟨later, hlater.trans hle, hholding⟩

/-- A call that waits goes on waiting until it is woken. -/
theorem waits_until_woken (hstage : (run.calls n).stages call = .waiting center false) (k : ℕ) :
    (run.calls (n + k)).stages call = .waiting center false ∨
      ∃ m ≥ n, (run.calls m).stages call = .waiting center true := by
  induction k with
  | zero => exact .inl hstage
  | succ k ih =>
    obtain hwaiting | hwoken := ih
    · obtain hstep | heq | heq := run.step_or_wake call (n + k)
      · cases (hstep.of_waiting hwaiting).1
      · exact .inl (by rw [← Nat.add_assoc, heq, hwaiting])
      · refine .inr ⟨n + k + 1, by omega, ?_⟩
        rw [heq, hwaiting]
        rfl
    · exact .inr hwoken

theorem Fair.woken_of_waiting (hfair : run.Fair) (hfree : run.FreeFrom call center n)
    (hstage : (run.calls n).stages call = .waiting center false) :
    ∃ m ≥ n, (run.calls m).stages call = .waiting center true := by
  obtain ⟨other, hother⟩ | ⟨other, held, hother, hoverlap⟩ :=
    (run.reached n).exclusive.awake call center hstage
  · have hne : call ≠ other := fun heq => by
      rw [← heq, hstage] at hother
      cases hother
    obtain ⟨m, hm, hreleasing, hstep⟩ := hfair.step_from (P := (· = .releasing))
      (by rintro _ rfl; rfl) (by rintro _ rfl; trivial) hother
    obtain ⟨k, rfl⟩ := Nat.exists_eq_add_of_le hm
    -- the other call notifies, after which nobody waits who is not woken
    refine (waits_until_woken hstage (k + 1)).resolve_left fun hwaiting => ?_
    rw [← Nat.add_assoc, hstep.of_releasing hreleasing, update_of_ne hne] at hwaiting
    exact wake_ne_waiting hwaiting
  · have hne : other ≠ call := fun heq => by
      rw [heq, hstage] at hother
      cases hother
    exact absurd hoverlap (hfree n le_rfl other hne held hother)

theorem Fair.holds_of_waiting (hfair : run.Fair) (hfree : run.FreeFrom call center n)
    {woken : Bool} (hstage : (run.calls n).stages call = .waiting center woken) :
    ∃ m ≥ n, (run.calls m).stages call = .holding center := by
  cases woken with
  | true => exact hfair.holds_of_woken hfree hstage
  | false =>
    obtain ⟨m, hm, hwoken⟩ := hfair.woken_of_waiting hfree hstage
    obtain ⟨later, hlater, hholding⟩ := hfair.holds_of_woken (hfree.mono hm) hwoken
    exact ⟨later, hm.trans hlater, hholding⟩

end Run

theorem windowsOverlap_eq_false_iff {left right : ChunkPos} :
    ¬ windowsOverlap left right = true ↔ Disjoint (lightWindow left) (lightWindow right) := by
  rw [windowsOverlap_iff, Set.disjoint_left, not_exists]
  exact forall_congr' fun _ => not_and

omit [DecidableEq I] in
theorem Exclusive.tryReserveCentered_isSome (h : Exclusive gate stages) (center : ChunkPos) :
    (gate.tryReserveCentered center).isSome = true ↔
      ∀ call held, stages call = .holding held →
        Disjoint (lightWindow center) (lightWindow held) := by
  rw [Option.isSome_iff_ne_none, Ne, tryReserveCentered_eq_none]
  simp only [← windowsOverlap_eq_false_iff, not_exists, not_and]
  constructor
  · intro hfree call held hcall
    exact hfree held ((h.active held).mpr ⟨call, hcall⟩)
  · intro hfree held hheld
    obtain ⟨call, hcall⟩ := (h.active held).mp hheld
    exact hfree call held hcall

/-- The active centers are those of the live reservations, whose windows are disjoint. A reservation
is made exactly when its window is free, and a call whose window stays free returns. -/
theorem Run.windows_exclusive (run : Run I) :
    (∀ n, let gate := (run.calls n).gate
      let stages := (run.calls n).stages
      (∀ center, center ∈ gate.activeCenters ↔ ∃ call, stages call = .holding center) ∧
      gate.activeCenters.Nodup ∧
      (∀ call other center center', call ≠ other → stages call = .holding center →
        stages other = .holding center' →
        Disjoint (lightWindow center) (lightWindow center')) ∧
      (∀ center, (gate.tryReserveCentered center).isSome = true ↔
        ∀ call held, stages call = .holding held →
          Disjoint (lightWindow center) (lightWindow held)) ∧
      ∀ call center, stages call = .holding center → (gate.release center).1 = true) ∧
    (run.Fair → ∀ n call center, (∃ woken, (run.calls n).stages call = .listening center woken ∨
        (run.calls n).stages call = .waiting center woken) →
      (∀ m ≥ n, ∀ other ≠ call, ∀ held, (run.calls m).stages other = .holding held →
        Disjoint (lightWindow center) (lightWindow held)) →
      ∃ m ≥ n, (run.calls m).stages call = .holding center) := by
  refine ⟨fun n => ?_, fun hfair n call center => ?_⟩
  · have h := (run.reached n).exclusive
    refine ⟨h.active, h.nodup, fun call other center center' hne hcall hother => ?_,
      h.tryReserveCentered_isSome, fun call center hcall => ?_⟩
    · rw [← windowsOverlap_eq_false_iff]
      exact fun hoverlap => hne (h.apart call other center center' hcall hother hoverlap)
    · exact (h.drop hcall rfl).1
  · rintro ⟨woken, hstage⟩ hwindow
    have hfree : run.FreeFrom call center n := fun m hm other hne held hother =>
      windowsOverlap_eq_false_iff.mpr (hwindow m hm other hne held hother)
    obtain hlistening | hwaiting := hstage
    · exact hfair.holds_of_listening hfree ⟨woken, hlistening⟩
    · exact hfair.holds_of_waiting hfree hwaiting

/-- The first call has the window that the second one waits for. -/
def oneWaits : Calls Bool :=
  let idle : Calls Bool := { gate := new, stages := fun _ => .idle }
  let held := { idle with gate := ⟨[⟨0, 0⟩]⟩ }.move true (.holding ⟨0, 0⟩)
  (held.move false (.listening ⟨1, 0⟩ false)).move false (.waiting ⟨1, 0⟩ false)

/-- The first call drops its reservation, and the second one goes on. -/
def oneWaitsRun : ℕ → Calls Bool :=
  let dropped := { oneWaits with gate := ⟨[]⟩ }.move true .releasing
  let woken := { dropped with stages := fun call => (dropped.stages call).wake }.move true .idle
  let listens := woken.move false (.listening ⟨1, 0⟩ false)
  fun
  | 0 => oneWaits
  | 1 => dropped
  | 2 => woken
  | 3 => listens
  | _ + 4 => { listens with gate := ⟨[⟨1, 0⟩]⟩ }.move false (.holding ⟨1, 0⟩)

theorem reached_oneWaits : Reached oneWaits := by
  have hheld := Reached.new.step (@Step.tryReserved Bool _ true _ ⟨0, 0⟩ ⟨[⟨0, 0⟩]⟩ rfl rfl)
  have hlistens := hheld.step (@Step.reserveCentered Bool _ false _ ⟨1, 0⟩ rfl)
  exact hlistens.step (@Step.blocked Bool _ false _ ⟨1, 0⟩ false rfl rfl)

theorem step_oneWaitsRun :
    Step true (oneWaitsRun 0) (oneWaitsRun 1) ∧ Step true (oneWaitsRun 1) (oneWaitsRun 2) ∧
      Step false (oneWaitsRun 2) (oneWaitsRun 3) ∧ Step false (oneWaitsRun 3) (oneWaitsRun 4) :=
  ⟨@Step.drop Bool _ true _ ⟨0, 0⟩ true ⟨[]⟩ rfl rfl, .notify rfl, .resume rfl,
    @Step.reserved Bool _ false _ ⟨1, 0⟩ false ⟨[⟨1, 0⟩]⟩ rfl rfl⟩

def wakesRun : Run Bool where
  calls := oneWaitsRun
  start := reached_oneWaits
  next n := by
    obtain ⟨hdrop, hnotify, hresume, hreserved⟩ := step_oneWaitsRun
    match n with
    | 0 => exact .inr ⟨true, hdrop⟩
    | 1 => exact .inr ⟨true, hnotify⟩
    | 2 => exact .inr ⟨false, hresume⟩
    | 3 => exact .inr ⟨false, hreserved⟩
    | _ + 4 => exact .inl rfl

theorem fair_wakesRun : wakesRun.Fair := by
  obtain ⟨hdrop, hnotify, hresume, hreserved⟩ := step_oneWaitsRun
  intro call n hready
  -- only the steps of the run are ready
  match call, n with
  | true, 1 => exact ⟨1, le_rfl, hnotify⟩
  | false, 2 => exact ⟨2, le_rfl, hresume⟩
  | false, 3 => exact ⟨3, le_rfl, hreserved⟩
  | false, 1 => exact absurd hready Bool.false_ne_true
  | false, 0 => exact absurd hready Bool.false_ne_true
  | true, 0 | true, 2 | true, 3 | true, _ + 4 | false, _ + 4 => exact False.elim hready

theorem windows_exclusive_wakesRun :
    ∃ m ≥ 1, (wakesRun.calls m).stages false = .holding ⟨1, 0⟩ := by
  refine wakesRun.windows_exclusive.2 fair_wakesRun 1 false ⟨1, 0⟩ ⟨false, .inr rfl⟩
    fun m hm other hne held hother => ?_
  rw [Bool.eq_true_of_not_eq_false hne] at hother
  match m with
  | 1 | 2 | 3 | _ + 4 => cases hother

end Calls

end Steel.LightWorkWindowGate
