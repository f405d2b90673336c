import Mathlib.Tactic.IntervalCases
import Steel.Spec.NeighborUpdates

/-!
# The collecting updater runs updates recursively

The stack and the layer being collected are one list of waiting updates, and each turn of the loop
is one step from its front.
-/

namespace Steel

open NestedWork List

variable {W : Type} {calls : UpdateWorld W} {maxUpdates : Int}

/-! ### Single updates -/

namespace NeighborUpdate

def visits : NeighborUpdate → List BlockPos
  | full _ pos _ _ => [pos]
  | multi sourcePos _ skipDirection index =>
    ((updateOrder.drop index).filter fun direction => some direction ≠ skipDirection).map
      sourcePos.relative
  | shape update => [update.pos]
  | simple pos _ => [pos]

/-- A multi update stands at a direction that is not skipped. -/
def Valid : NeighborUpdate → Prop
  | multi _ _ skipDirection index =>
    index < updateOrder.length ∧ updateOrder[index]? ≠ skipDirection
  | _ => True

theorem length_visits_le (update : NeighborUpdate) : update.visits.length ≤ 6 := by
  cases update with
  | multi sourcePos sourceBlock skipDirection index =>
    rw [visits, length_map]
    refine (length_filter_le _ _).trans ?_
    rw [length_drop]
    exact Nat.sub_le 6 index
  | _ => exact Nat.le_of_ble_eq_true rfl

theorem runNext_of_valid (calls : UpdateWorld W) {update : NeighborUpdate} (h : update.Valid) :
    ∃ pos behavior remainder, update.runNext calls = some (pos, behavior, remainder) ∧
      update.visits = pos :: (remainder.map visits).getD [] ∧
        ∀ rest ∈ remainder, rest.Valid := by
  cases update with
  | full state pos sourceBlock movedByPiston => exact ⟨_, _, _, rfl, rfl, by simp⟩
  | shape update | simple pos sourceBlock => exact ⟨_, _, _, rfl, rfl, by simp⟩
  | multi sourcePos sourceBlock skipDirection index =>
    -- six places in the order, and seven directions to skip or none
    obtain ⟨hindex, hskip⟩ := h
    have hsix : index < 6 := hindex
    rcases skipDirection with _ | skipDirection
    · interval_cases index <;> exact ⟨_, _, _, rfl, rfl, by simp [Valid, updateOrder]⟩
    · interval_cases index <;> cases skipDirection <;>
        first
        | exact absurd rfl hskip
        | exact ⟨_, _, _, rfl, rfl, by simp [Valid, updateOrder]⟩

end NeighborUpdate

theorem UpdateRequest.update_valid (request : UpdateRequest) : request.update.Valid := by
  cases request with
  | updateNeighborsAtExceptFromFacing pos sourceBlock skipDirection =>
    rcases skipDirection with _ | skipDirection
    · simp [update, NeighborUpdate.Valid, updateOrder]
    · cases skipDirection <;> simp [update, NeighborUpdate.Valid, updateOrder]
  | _ => trivial

theorem UpdateRequest.update_visits (request : UpdateRequest) :
    request.update.visits = request.visits := by
  cases request with
  | updateNeighborsAtExceptFromFacing pos sourceBlock skipDirection =>
    rcases skipDirection with _ | skipDirection
    · rfl
    · cases skipDirection <;> rfl
  | _ => rfl

/-! ### What a behavior asks for -/

namespace Behavior

theorem collect_request (maxUpdates : Int) (asked : UpdateRequest) (next : Behavior W)
    (chain : UpdateChain W) :
    (request asked next).collect maxUpdates chain =
      (chain.accepted maxUpdates asked ++ (next.collect maxUpdates (chain.record asked)).1,
        (next.collect maxUpdates (chain.record asked)).2) := rfl

end Behavior

def visitsLeft (us : List NumberedUpdate) : ℕ := (us.map fun u => u.update.visits.length).sum

theorem visitsLeft_append (us vs : List NumberedUpdate) :
    visitsLeft (us ++ vs) = visitsLeft us + visitsLeft vs := by
  rw [visitsLeft, map_append, sum_append]
  rfl

theorem visitsLeft_accepted_le (maxUpdates : Int) (chain : UpdateChain W) (asked : UpdateRequest) :
    visitsLeft (chain.accepted maxUpdates asked) ≤ 6 := by
  unfold UpdateChain.accepted
  split_ifs
  · exact (Nat.add_zero _).le.trans (NeighborUpdate.length_visits_le _)
  · exact Nat.zero_le 6

theorem visitsLeft_collect_le (maxUpdates : Int) (behavior : Behavior W) (chain : UpdateChain W) :
    visitsLeft (behavior.collect maxUpdates chain).1 + 6 * chain.requests.length ≤
      6 * (behavior.collect maxUpdates chain).2.requests.length := by
  induction behavior generalizing chain with
  | done => exact (Nat.zero_add _).le
  | read next ih => exact ih chain.world chain
  | write change next ih => exact ih { chain with world := change chain.world }
  | request asked next ih =>
    have hnext := ih (chain.record asked)
    have hlength : (chain.record asked).requests.length = chain.requests.length + 1 :=
      length_append
    have haccepted := visitsLeft_accepted_le maxUpdates chain asked
    rw [Behavior.collect_request, visitsLeft_append]
    dsimp only
    omega

theorem Behavior.collect_requests_le (maxUpdates : Int) (behavior : Behavior W)
    (chain : UpdateChain W) :
    chain.requests.length ≤ (behavior.collect maxUpdates chain).2.requests.length := by
  have hvisits := visitsLeft_collect_le maxUpdates behavior chain
  omega

/-! ### Every accepted update is finished once -/

def outstanding (us : List NumberedUpdate) (number : ℕ) : List BlockPos :=
  (us.filter fun u => u.number = number).flatMap fun u => u.update.visits

theorem outstanding_append (us vs : List NumberedUpdate) (number : ℕ) :
    outstanding (us ++ vs) number = outstanding us number ++ outstanding vs number := by
  rw [outstanding, filter_append, flatMap_append]
  rfl

theorem outstanding_singleton (u : NumberedUpdate) (number : ℕ) :
    outstanding [u] number = if u.number = number then u.update.visits else [] := by
  unfold outstanding
  split_ifs with hnumber
  · simp [hnumber]
  · simp [hnumber]

variable {us : List NumberedUpdate}

variable {number : ℕ} {front rest : List NumberedUpdate} {next : NumberedUpdate}

theorem outstanding_eq_nil (h : ∀ u ∈ us, u.number ≠ number) : outstanding us number = [] := by
  have hfilter : us.filter (fun u => u.number = number) = [] :=
    filter_eq_nil_iff.mpr fun u hu => by simpa using h u hu
  rw [outstanding, hfilter, flatMap_nil]

/-- Visits made and visits outstanding are those of the accepted requests. -/
structure ChainConsistent (maxUpdates : Int) (us : List NumberedUpdate) (chain : UpdateChain W) :
    Prop where
  valid : ∀ u ∈ us, u.update.Valid
  number_lt : ∀ u ∈ us, u.number < chain.requests.length
  visited_lt : ∀ visit ∈ chain.visited, visit.1 < chain.requests.length
  visits : ∀ number asked, chain.requests[number]? = some asked →
    chain.visitsOf number ++ outstanding us number =
      if acceptsUpdate maxUpdates number then asked.visits else []

variable {chain : UpdateChain W}

theorem visitsOf_eq_nil (h : ∀ visit ∈ chain.visited, visit.1 < number) :
    chain.visitsOf number = [] := by
  have hfilter : chain.visited.filter (fun visit => visit.1 = number) = [] :=
    filter_eq_nil_iff.mpr fun visit hvisit => by simpa using (h visit hvisit).ne
  rw [UpdateChain.visitsOf, hfilter, map_nil]

theorem visitsOf_visit (chain : UpdateChain W) (number other : ℕ) (pos : BlockPos) :
    (chain.visit other pos).visitsOf number =
      chain.visitsOf number ++ if other = number then [pos] else [] := by
  rw [UpdateChain.visitsOf, UpdateChain.visit, filter_append, map_append]
  congr 1
  split_ifs with hnumber
  · simp [hnumber]
  · simp [hnumber]

theorem ChainConsistent.record (h : ChainConsistent maxUpdates (front ++ us) chain)
    (asked : UpdateRequest) :
    ChainConsistent maxUpdates (front ++ chain.accepted maxUpdates asked ++ us)
      (chain.record asked) := by
  have hlength : (chain.record asked).requests.length = chain.requests.length + 1 :=
    length_append
  have hmem : ∀ u ∈ front ++ chain.accepted maxUpdates asked ++ us,
      u = chain.numbered asked ∨ u ∈ front ++ us := by
    intro u hu
    rw [append_assoc] at hu
    rcases mem_append.mp hu with hfront | hrest
    · exact Or.inr (mem_append_left us hfront)
    · rcases mem_append.mp hrest with hnew | hus
      · unfold UpdateChain.accepted at hnew
        split_ifs at hnew
        · exact Or.inl (mem_singleton.mp hnew)
        · exact absurd hnew not_mem_nil
      · exact Or.inr (mem_append_right front hus)
  refine ⟨?_, ?_, ?_, ?_⟩
  · intro u hu
    rcases hmem u hu with rfl | hold
    · exact asked.update_valid
    · exact h.valid u hold
  · intro u hu
    rw [hlength]
    rcases hmem u hu with rfl | hold
    · exact Nat.lt_succ_self _
    · exact (h.number_lt u hold).trans (Nat.lt_succ_self _)
  · intro visit hvisit
    rw [hlength]
    exact (h.visited_lt visit hvisit).trans (Nat.lt_succ_self _)
  · intro number other hother
    rw [outstanding_append, outstanding_append]
    by_cases hnumber : number < chain.requests.length
    · -- an earlier request
      have hold : chain.requests[number]? = some other := by
        rw [← hother]
        exact (List.getElem?_append_left hnumber).symm
      have hnew : outstanding (chain.accepted maxUpdates asked) number = [] := by
        apply outstanding_eq_nil
        intro u hu
        unfold UpdateChain.accepted at hu
        split_ifs at hu
        · rw [mem_singleton.mp hu]
          exact hnumber.ne'
        · exact absurd hu not_mem_nil
      rw [hnew, append_nil, ← outstanding_append]
      exact h.visits number other hold
    · -- the request that is made now
      have hbound : number < (chain.record asked).requests.length :=
        (List.getElem?_eq_some_iff.mp hother).1
      have hnumber : number = chain.requests.length := by omega
      subst hnumber
      have hasked : other = asked := by
        have hlast : (chain.requests ++ [asked])[chain.requests.length]? = some asked :=
          List.getElem?_concat_length
        exact Option.some.inj (hother.symm.trans hlast)
      subst hasked
      have hfront : outstanding front chain.requests.length = [] :=
        outstanding_eq_nil fun u hu => (h.number_lt u (mem_append_left us hu)).ne
      have hus : outstanding us chain.requests.length = [] :=
        outstanding_eq_nil fun u hu => (h.number_lt u (mem_append_right front hu)).ne
      have hvisited : (chain.record other).visitsOf chain.requests.length = [] :=
        visitsOf_eq_nil h.visited_lt
      rw [hvisited, hfront, hus, nil_append, nil_append, append_nil,
        UpdateChain.accepted]
      split_ifs
      · have hnumbered : (chain.numbered other).number = chain.requests.length := rfl
        rw [outstanding_singleton, if_pos hnumbered]
        exact other.update_visits
      · rfl

theorem ChainConsistent.collect (behavior : Behavior W)
    (h : ChainConsistent maxUpdates (front ++ us) chain) :
    ChainConsistent maxUpdates (front ++ (behavior.collect maxUpdates chain).1 ++ us)
      (behavior.collect maxUpdates chain).2 := by
  induction behavior generalizing front chain with
  | done =>
    rw [Behavior.collect, append_nil]
    exact h
  | read next ih => exact ih chain.world h
  | write change next ih =>
    exact ih ⟨h.valid, h.number_lt, h.visited_lt, h.visits⟩
  | request asked next ih =>
    have hnext := ih (h.record asked)
    rw [Behavior.collect_request, ← append_assoc]
    exact hnext

theorem ChainConsistent.visit {pos : BlockPos} {remainder : Option NeighborUpdate}
    (h : ChainConsistent maxUpdates (next :: rest) chain)
    (hvisits : next.update.visits = pos :: (remainder.map NeighborUpdate.visits).getD [])
    (hvalid : ∀ update ∈ remainder, update.Valid) : ChainConsistent maxUpdates
      ((remainder.map fun update => { next with update }).toList ++ rest)
      (chain.visit next.number pos) := by
  have hnext := h.number_lt next mem_cons_self
  have hmem : ∀ u ∈ (remainder.map fun update => { next with update }).toList ++ rest,
      (∃ update ∈ remainder, u = { next with update }) ∨ u ∈ rest := by
    intro u hu
    rcases mem_append.mp hu with hleft | hrest
    · obtain ⟨update, hupdate, rfl⟩ := Option.mem_map.mp (Option.mem_toList.mp hleft)
      exact Or.inl ⟨update, hupdate, rfl⟩
    · exact Or.inr hrest
  refine ⟨?_, ?_, ?_, ?_⟩
  · intro u hu
    rcases hmem u hu with ⟨update, hupdate, rfl⟩ | hrest
    · exact hvalid update hupdate
    · exact h.valid u (mem_cons_of_mem next hrest)
  · intro u hu
    rcases hmem u hu with ⟨update, hupdate, rfl⟩ | hrest
    · exact hnext
    · exact h.number_lt u (mem_cons_of_mem next hrest)
  · intro visit hvisit
    rcases mem_append.mp hvisit with hold | hnew
    · exact h.visited_lt visit hold
    · rw [mem_singleton.mp hnew]
      exact hnext
  · intro number asked hasked
    have hold := h.visits number asked hasked
    have hleft : outstanding (remainder.map fun update => { next with update }).toList number =
        if next.number = number then (remainder.map NeighborUpdate.visits).getD [] else [] := by
      cases remainder with
      | none => simp [outstanding]
      | some update => exact outstanding_singleton _ number
    rw [← singleton_append, outstanding_append, outstanding_singleton, hvisits] at hold
    rw [← hold, outstanding_append, hleft, visitsOf_visit]
    split_ifs with hnumber
    · rw [append_assoc, singleton_append, cons_append]
    · rw [append_nil]

/-- A step makes one visit, and each request it causes adds at most six. -/
theorem ChainConsistent.step (calls : UpdateWorld W)
    (h : ChainConsistent maxUpdates (next :: rest) chain) : ∃ created remainder after,
      updateStep calls maxUpdates next chain = some (created, remainder, after) ∧
      ChainConsistent maxUpdates (created ++ remainder.toList ++ rest) after ∧
      visitsLeft (created ++ remainder.toList ++ rest) + 1 + 6 * chain.requests.length ≤
        visitsLeft (next :: rest) + 6 * after.requests.length := by
  obtain ⟨pos, behavior, remainder, hrun, hvisits, hvalid⟩ :=
    NeighborUpdate.runNext_of_valid calls (h.valid next mem_cons_self)
  have hstep : updateStep calls maxUpdates next chain =
      some ((behavior.collect maxUpdates (chain.visit next.number pos)).1,
        remainder.map fun update => { next with update },
        (behavior.collect maxUpdates (chain.visit next.number pos)).2) := by
    rw [updateStep, hrun]
    rfl
  refine ⟨_, _, _, hstep, ?_, ?_⟩
  · have hconsistent : ChainConsistent maxUpdates
        ([] ++ ((remainder.map fun update => { next with update }).toList ++ rest))
        (chain.visit next.number pos) := h.visit hvisits hvalid
    have hcollected := hconsistent.collect behavior
    rw [nil_append, ← append_assoc] at hcollected
    exact hcollected
  · have hcreated := visitsLeft_collect_le maxUpdates behavior
      (chain.visit next.number pos)
    have hrequests : (chain.visit next.number pos).requests = chain.requests := rfl
    have hnext : visitsLeft (next :: rest) =
        visitsLeft (remainder.map fun update => { next with update }).toList + 1 +
          visitsLeft rest := by
      have hone : visitsLeft (next :: rest) = next.update.visits.length + visitsLeft rest := rfl
      rw [hone, hvisits]
      cases remainder with
      | none | some update => simp [visitsLeft]
    rw [visitsLeft_append, visitsLeft_append, hnext]
    rw [hrequests] at hcreated
    omega

theorem ChainConsistent.of_leads {vs : List NumberedUpdate} {after : UpdateChain W}
    (h : ChainConsistent maxUpdates us chain)
    (hleads : Leads (updateStep calls maxUpdates) us chain vs after) :
    ChainConsistent maxUpdates vs after := by
  refine Leads.induct (ChainConsistent maxUpdates) ?_ hleads h
  intro next rest before created remainder after hconsistent hstepped
  obtain ⟨created', remainder', after', hstep, hafter, -⟩ := hconsistent.step calls
  obtain ⟨rfl, rfl, rfl⟩ : created' = created ∧ remainder' = remainder ∧ after' = after := by
    simpa using hstep.symm.trans hstepped
  exact hafter

/-- Every step makes one visit and every request brings at most six, so a chain with a bounded
number of requests finishes. -/
theorem ChainConsistent.finishes
    (h : ChainConsistent maxUpdates us chain) {bound : ℕ}
    (hbound : ∀ vs after, Leads (updateStep calls maxUpdates) us chain vs after →
      after.requests.length < bound) :
    ∃ after, Leads (updateStep calls maxUpdates) us chain [] after := by
  let bounded (us : List NumberedUpdate) (chain : UpdateChain W) : Prop :=
    ∀ vs after, Leads (updateStep calls maxUpdates) us chain vs after →
      after.requests.length < bound
  refine exists_leads_nil
    (fun us chain => ChainConsistent maxUpdates us chain ∧ bounded us chain)
    (fun us chain => visitsLeft us + 6 * (bound - chain.requests.length)) ?_ ⟨h, hbound⟩
  rintro next rest before ⟨hconsistent, hbounded⟩
  obtain ⟨created, remainder, after, hstep, hafter, hless⟩ := hconsistent.step calls
  have hlt := hbounded _ _ (Leads.step hstep (Leads.refl _ _))
  refine ⟨created, remainder, after, hstep,
    ⟨hafter, fun vs later hlater => hbounded vs later (Leads.step hstep hlater)⟩, ?_⟩
  omega

/-! ### The updater -/

namespace CollectingState

variable {U : Type}

theorem moved_eq (state : CollectingState U) :
    state.addedThisLayer.reverse.foldl (fun stack update => update :: stack) state.stack =
      state.addedThisLayer ++ state.stack := by
  rw [foldl_reverse, foldr_cons_eq_append, map_id']

theorem takeNext_nil {state : CollectingState U} (h : state.addedThisLayer ++ state.stack = []) :
    state.takeNext = (none, { state with stack := [], addedThisLayer := [] }) := by
  rw [takeNext, moved_eq, h]

theorem takeNext_cons {state : CollectingState U} {update : U} {rest : List U}
    (h : state.addedThisLayer ++ state.stack = update :: rest) :
    state.takeNext = (some update, { state with stack := rest, addedThisLayer := [] }) := by
  rw [takeNext, moved_eq, h]

end CollectingState

namespace CollectingNeighborUpdater

open CollectingState

theorem wrapI32_count {n : ℕ} (h : n + 1 < 2 ^ 31) : wrapI32 ((n : Int) + 1) = (n + 1 : ℕ) := by
  rw [wrapI32, Int.bmod_eq_of_le (by omega) (by omega)]
  rfl

theorem tooManyUpdates_eq {state : CollectingState NumberedUpdate} {count : ℕ}
    (hcount : state.count = count) :
    state.tooManyUpdates maxUpdates = !acceptsUpdate maxUpdates count := by
  rw [tooManyUpdates, acceptsUpdate, hcount, ← decide_not, decide_eq_decide]
  omega

theorem addAndRun_running
    (run : CollectingNeighborUpdater W → Option (CollectingNeighborUpdater W))
    {stack added : List NumberedUpdate} {chain : UpdateChain W} (asked : UpdateRequest)
    (hpos : 0 < chain.requests.length) (hshort : chain.requests.length + 1 < 2 ^ 31) :
    addAndRun maxUpdates run asked
        { state := { stack, addedThisLayer := added, count := chain.requests.length }, chain } =
      some
        { state :=
            { stack, addedThisLayer := added ++ chain.accepted maxUpdates asked
              count := (chain.record asked).requests.length }
          chain := chain.record asked } := by
  have hlength : (chain.record asked).requests.length = chain.requests.length + 1 :=
    length_append
  have hrunning : (0 : Int) < chain.requests.length := by omega
  have htooMany : tooManyUpdates
      { stack, addedThisLayer := added, count := (chain.requests.length : Int) } maxUpdates =
        !acceptsUpdate maxUpdates chain.requests.length := tooManyUpdates_eq rfl
  unfold addAndRun enqueue
  simp only [htooMany, wrapI32_count hshort, hrunning, decide_true, if_true,
    UpdateChain.accepted, hlength]
  cases acceptsUpdate maxUpdates chain.requests.length with
  | false | true => simp

theorem runBehavior_eq_collect
    (run : CollectingNeighborUpdater W → Option (CollectingNeighborUpdater W))
    (stack : List NumberedUpdate) (behavior : Behavior W) (added : List NumberedUpdate)
    (chain : UpdateChain W) (hpos : 0 < chain.requests.length)
    (hshort : (behavior.collect maxUpdates chain).2.requests.length < 2 ^ 31) :
    runBehavior (addAndRun maxUpdates run) behavior
        { state := { stack, addedThisLayer := added, count := chain.requests.length }, chain } =
      some
        { state :=
            { stack, addedThisLayer := added ++ (behavior.collect maxUpdates chain).1
              count := (behavior.collect maxUpdates chain).2.requests.length }
          chain := (behavior.collect maxUpdates chain).2 } := by
  induction behavior generalizing added chain with
  | done => rw [runBehavior, Behavior.collect, append_nil]
  | read next ih => exact ih chain.world added chain hpos hshort
  | write change next ih =>
    exact ih added { chain with world := change chain.world } hpos hshort
  | request asked next ih =>
    rw [Behavior.collect_request] at hshort
    have hlength : (chain.record asked).requests.length = chain.requests.length + 1 :=
      length_append
    have hle := next.collect_requests_le maxUpdates (chain.record asked)
    have hnext : chain.requests.length + 1 < 2 ^ 31 := by
      dsimp only at hshort
      omega
    rw [runBehavior, addAndRun_running run asked hpos hnext]
    simp only [Option.bind_eq_bind, Option.bind_some]
    rw [ih _ _ (by omega) hshort, Behavior.collect_request, append_assoc]

/-- The stack and the added layer together are the list of waiting updates. -/
theorem runUpdates_of_leads {us : List NumberedUpdate} {chain after : UpdateChain W}
    (h : Leads (updateStep calls maxUpdates) us chain [] after)
    (hshort : after.requests.length < 2 ^ 31) :
    chain.requests.length ≤ after.requests.length ∧
    ∀ stack added, added ++ stack = us → 0 < chain.requests.length →
      ∃ enough, ∀ fuel ≥ enough, runUpdates calls maxUpdates fuel
        { state := { stack, addedThisLayer := added, count := chain.requests.length }, chain } =
          some { state := empty, chain := after } := by
  generalize hdone : ([] : List NumberedUpdate) = done at h
  induction h with
  | refl us chain =>
    subst hdone
    refine ⟨le_rfl, fun stack added hwaiting hpos => ⟨1, fun fuel hfuel => ?_⟩⟩
    obtain ⟨fuel, rfl⟩ : ∃ n, fuel = n + 1 := ⟨fuel - 1, by omega⟩
    rw [runUpdates, takeNext_nil hwaiting]
    rfl
  | @step next rest created us' remainder chain middle after hstep hrest ih =>
    obtain ⟨hle, ih⟩ := ih hshort hdone
    obtain ⟨⟨pos, behavior, left⟩, hrun, hstep⟩ := Option.bind_eq_some_iff.mp hstep
    simp only [Option.pure_def, Option.some.injEq, Prod.mk.injEq] at hstep
    obtain ⟨rfl, rfl, rfl⟩ := hstep
    have hmiddle := behavior.collect_requests_le maxUpdates (chain.visit next.number pos)
    refine ⟨hmiddle.trans hle, fun stack added hwaiting hpos => ?_⟩
    -- What is left of the update goes on the stack, under what it asked for.
    obtain ⟨enough, hruns⟩ := ih
      ((left.map fun update => { next with update }).toList ++ rest)
      (behavior.collect maxUpdates (chain.visit next.number pos)).1
      (append_assoc _ _ _).symm (hpos.trans_le hmiddle)
    refine ⟨enough + 1, fun fuel hfuel => ?_⟩
    obtain ⟨fuel, rfl⟩ : ∃ n, fuel = n + 1 := ⟨fuel - 1, by omega⟩
    have hbehavior := runBehavior_eq_collect (runUpdates calls maxUpdates fuel) rest behavior []
      (chain.visit next.number pos) hpos (hle.trans_lt hshort)
    rw [runUpdates, takeNext_cons hwaiting]
    simp only [hrun, Option.bind_eq_bind, Option.bind_some]
    have hcount : ((chain.visit next.number pos).requests.length : Int) =
        chain.requests.length := rfl
    rw [hcount, nil_append] at hbehavior
    rw [hbehavior]
    cases left with
    | none | some update => exact hruns fuel (by omega)

theorem addAndRun_idle
    (run : CollectingNeighborUpdater W → Option (CollectingNeighborUpdater W))
    (asked : UpdateRequest) (world : W) :
    addAndRun maxUpdates run asked { state := empty, chain := UpdateChain.start world } =
      run
        { state :=
            { stack := (UpdateChain.start world).accepted maxUpdates asked, addedThisLayer := []
              count := ((UpdateChain.start world).record asked).requests.length }
          chain := (UpdateChain.start world).record asked } := by
  have htooMany : tooManyUpdates (empty : CollectingState NumberedUpdate) maxUpdates =
      !acceptsUpdate maxUpdates 0 := tooManyUpdates_eq rfl
  have hcount : wrapI32 ((empty : CollectingState NumberedUpdate).count + 1) = 1 := rfl
  have hlength : ((UpdateChain.start world).record asked).requests.length = 1 := rfl
  have hidle : ¬ 0 < (empty : CollectingState NumberedUpdate).count := lt_irrefl _
  have hstart : (UpdateChain.start world).requests.length = 0 := rfl
  unfold addAndRun enqueue
  simp only [htooMany, hcount, hidle, decide_false, UpdateChain.accepted, hlength, hstart]
  cases acceptsUpdate maxUpdates 0 with
  | false | true => rfl

/-- A chain of fewer than `2 ^ 31` requests runs as the recursion does, and ends with an updater
that is empty again. The first requests, up to the limit, are the ones that run: each of them visits
its positions once and in order. -/
theorem addAndRun_refines (calls : UpdateWorld W) (maxUpdates : Int) (asked : UpdateRequest)
    (world : W)
    (hshort : ∀ us chain, Leads (updateStep calls maxUpdates)
      ((UpdateChain.start world).accepted maxUpdates asked)
      ((UpdateChain.start world).record asked) us chain → chain.requests.length < 2 ^ 31) :
    ∃ chain,
      Executes (updateStep calls maxUpdates) ((UpdateChain.start world).accepted maxUpdates asked)
        ((UpdateChain.start world).record asked) chain ∧
      (∃ enough, ∀ fuel ≥ enough,
        addAndRun maxUpdates (runUpdates calls maxUpdates fuel) asked
            { state := empty, chain := UpdateChain.start world } =
          some { state := empty, chain }) ∧
      (∀ number request, chain.requests[number]? = some request →
        chain.visitsOf number = if acceptsUpdate maxUpdates number then request.visits else []) ∧
      ∀ visit ∈ chain.visited, visit.1 < chain.requests.length := by
  have hstart : ChainConsistent maxUpdates ([] ++ []) (UpdateChain.start world) :=
    ⟨by simp, by simp, by simp [UpdateChain.start], by simp [UpdateChain.start]⟩
  have hroot := hstart.record asked
  rw [nil_append, append_nil] at hroot
  obtain ⟨chain, hleads⟩ := hroot.finishes hshort
  have hfinal := hroot.of_leads hleads
  refine ⟨chain, executes_of_leads hleads, ?_, ?_, hfinal.visited_lt⟩
  · obtain ⟨-, hruns⟩ := runUpdates_of_leads hleads (hshort _ _ hleads)
    obtain ⟨enough, hruns⟩ := hruns _ [] (nil_append _) Nat.one_pos
    exact ⟨enough, fun fuel hfuel => (addAndRun_idle _ asked world).trans (hruns fuel hfuel)⟩
  · intro number request hrequest
    have hvisits := hfinal.visits number request hrequest
    rw [← hvisits]
    exact (append_nil _).symm

/-- The block at 0 asks for updates at 1 and at 2, and the block at 1 for one at 3. -/
def askingWorld : UpdateWorld Unit where
  getBlockState _ _ := ⟨0⟩
  executeNeighborUpdate _ pos source _ :=
    if pos.x = 0 then
      .request (.neighborChanged ⟨1, 0, 0⟩ source)
        (.request (.neighborChanged ⟨2, 0, 0⟩ source) .done)
    else if pos.x = 1 then .request (.neighborChanged ⟨3, 0, 0⟩ source) .done
    else .done
  executeNeighborShapeUpdate _ _ _ _ _ _ := .done

theorem addAndRun_refines_askingWorld :
    ∃ chain : UpdateChain Unit,
      (∃ enough, ∀ fuel ≥ enough,
        addAndRun 10 (runUpdates askingWorld 10 fuel) (.neighborChanged ⟨0, 0, 0⟩ ⟨1⟩)
            { state := empty, chain := UpdateChain.start () } =
          some { state := empty, chain }) ∧
      (∀ number request, chain.requests[number]? = some request →
        chain.visitsOf number = if acceptsUpdate 10 number then request.visits else []) ∧
      (addAndRun 10 (runUpdates askingWorld 10 5) (.neighborChanged ⟨0, 0, 0⟩ ⟨1⟩)
          { state := empty, chain := UpdateChain.start () }).map (·.chain.visited) =
        some [(0, ⟨0, 0, 0⟩), (1, ⟨1, 0, 0⟩), (3, ⟨3, 0, 0⟩), (2, ⟨2, 0, 0⟩)] := by
  obtain ⟨chain, -, hruns, hvisits, -⟩ :=
    addAndRun_refines askingWorld 10 (.neighborChanged ⟨0, 0, 0⟩ ⟨1⟩) () (by
      intro us chain hleads
      iterate 4
        rcases hleads with _ | ⟨hstep, hleads⟩
        · decide
        obtain ⟨rfl, rfl, rfl⟩ := Prod.mk.injEq .. ▸ Option.some.inj hstep
      cases hleads
      decide)
  exact ⟨chain, hruns, hvisits, by decide⟩

end CollectingNeighborUpdater

end Steel
