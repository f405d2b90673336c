import Steel.Command.ExecutionQueue

/-!
# Command actions run in depth-first order, and each ends once

An entry that was queued is executed, cancelled or pending. What is pending comes after all that was
executed, and the children of an entry come before what it left pending.
-/

namespace Steel

open List

namespace CommandExecutionContext

variable {S C P : Type} {world : CommandWorld S C P} {context next : CommandExecutionContext S C P}

/-! ### One end for each entry -/

def occurrences (context : CommandExecutionContext S C P) (id : ℕ) : ℕ :=
  context.executed.countP (·.1.id = id) + context.cancelled.countP (·.id = id) +
    (context.newTopCommands.countP (·.id = id) + context.commandQueue.countP (·.id = id))

/-- Every entry so far is executed, cancelled or pending, and only one of these. -/
def Accounted (context : CommandExecutionContext S C P) : Prop :=
  ∀ id, context.occurrences id = if id < context.nextId then 1 else 0

theorem Accounted.of_occurrences (h : context.Accounted) (hnext : next.nextId = context.nextId)
    (hoccurrences : ∀ id, next.occurrences id = context.occurrences id) : next.Accounted := by
  intro id
  rw [hoccurrences, hnext]
  exact h id

theorem accounted_new (commandLimit forkLimit : ℕ) :
    (new commandLimit forkLimit : CommandExecutionContext S C P).Accounted :=
  fun _ => rfl

theorem occurrences_cancelCommandQueue (id : ℕ) :
    context.cancelCommandQueue.occurrences id = context.occurrences id := by
  simp only [occurrences, cancelCommandQueue, countP_append, countP_nil]
  omega

theorem occurrences_cancelNewTopCommands (id : ℕ) :
    context.cancelNewTopCommands.occurrences id = context.occurrences id := by
  simp only [occurrences, cancelNewTopCommands, countP_append, countP_nil]
  omega

theorem occurrences_overflow (id : ℕ) :
    context.overflow.occurrences id = context.occurrences id := by
  rw [overflow, occurrences_cancelCommandQueue, occurrences_cancelNewTopCommands]
  rfl

/-- The new entry is put at the end of the new ones, or it is cancelled with all that is pending. -/
theorem queueEntry_cases (context : CommandExecutionContext S C P) (frame : Frame)
    (action : EntryAction S C P) :
    ∃ entry : CommandQueueEntry S C P, entry.id = context.nextId ∧
      entry.ancestors = context.running ∧
      ((∃ before, (before = context ∨ before = context.overflow) ∧
        context.queueEntry frame action =
          { before with
            nextId := context.nextId + 1, cancelled := before.cancelled ++ [entry] }) ∨
        context.queueOverflow = false ∧
          context.newTopCommands.length + context.commandQueue.length ≤ context.queueLimit ∧
          context.queueEntry frame action =
            { context with
              nextId := context.nextId + 1
              newTopCommands := context.newTopCommands ++ [entry] }) := by
  refine ⟨⟨context.nextId, context.running, frame, action⟩, rfl, rfl, ?_⟩
  by_cases hfull : context.newTopCommands.length + context.commandQueue.length > context.queueLimit
  · exact Or.inl ⟨context.overflow, Or.inr rfl, by simp only [queueEntry, if_pos hfull]; rfl⟩
  · cases hover : context.queueOverflow with
    | true => exact Or.inl ⟨context, Or.inl rfl, by simp [queueEntry, hfull, hover]⟩
    | false => exact Or.inr ⟨rfl, Nat.le_of_not_lt hfull, by simp [queueEntry, hfull, hover]⟩

theorem Accounted.queueEntry (h : context.Accounted) (frame : Frame)
    (action : EntryAction S C P) : (context.queueEntry frame action).Accounted := by
  obtain ⟨entry, hid, -, ⟨before, hbefore, hqueue⟩ | ⟨-, -, hqueue⟩⟩ :=
    queueEntry_cases context frame action
  · intro id
    have hcount : before.occurrences id = if id < context.nextId then 1 else 0 := by
      obtain rfl | rfl := hbefore
      · exact h id
      · rw [occurrences_overflow, h id]
    rw [hqueue]
    simp only [occurrences, countP_append, countP_singleton] at hcount ⊢
    grind
  · intro id
    have hcount := h id
    rw [hqueue]
    simp only [occurrences, countP_append, countP_singleton] at hcount ⊢
    grind

theorem occurrences_discard (frame : Frame) (id : ℕ) :
    (context.discard frame).occurrences id = context.occurrences id := by
  rw [discard]
  split
  · exact occurrences_cancelCommandQueue id
  · next depth _ =>
    have hsplit := congrArg (countP (·.id = id)) (takeWhile_append_dropWhile
      (p := fun entry : CommandQueueEntry S C P => decide (depth ≤ entry.frame.depth))
      (l := context.commandQueue))
    rw [countP_append] at hsplit
    simp only [occurrences, countP_append]
    omega

theorem Accounted.runOperation (h : context.Accounted) (operation : QueueOperation S C P) :
    (context.runOperation operation).Accounted := by
  cases operation with
  | queue frame action => exact h.queueEntry frame action
  | discard frame =>
    refine h.of_occurrences ?_ (occurrences_discard frame)
    rw [CommandExecutionContext.runOperation, CommandExecutionContext.discard]
    split <;> rfl
  | incrementCost | handleError source error forked => exact h

variable {action : EntryAction S C P} {frame : Frame} {path : List ℕ}
  {rest : List (CommandQueueEntry S C P)} {entry : CommandQueueEntry S C P} {rounds : ℕ}
  {stop : Option ExecutionStop} {motive : CommandExecutionContext S C P → Prop}

/-- An execution sets the suspension, or it is a number of operations. -/
theorem execute_cases (h : context.execute world frame path action = some next) :
    (action.activates = true ∧ context.suspension = none ∧
      ∃ suspension, next = { context with suspension := some ⟨frame, suspension, path⟩ }) ∨
    action.activates = false ∧ ∃ operations, next = foldl runOperation context operations := by
  induction action with
  | suspend suspension =>
    rw [execute] at h
    split_ifs at h with hsuspended
    exact Or.inl ⟨rfl, by simpa using hsuspended, suspension, (Option.some.inj h).symm⟩
  | suspensionResume action ih => exact ih h
  | _ => exact Or.inr ⟨rfl, _, (Option.some.inj h).symm⟩

theorem execute_isSome (world : CommandWorld S C P) (h : context.suspension = none) (frame : Frame)
    (path : List ℕ) (action : EntryAction S C P) :
    (context.execute world frame path action).isSome = true := by
  induction action with
  | suspend suspension => simp [execute, h]
  | suspensionResume action ih => exact ih
  | _ => rfl

theorem Accounted.execute (h : context.Accounted)
    (hexecute : context.execute world frame path action = some next) : next.Accounted := by
  obtain ⟨-, -, suspension, rfl⟩ | ⟨-, operations, rfl⟩ := execute_cases hexecute
  · exact h
  · exact foldlRecOn operations _ h fun _ hbefore operation _ => hbefore.runOperation operation

theorem Accounted.start (h : context.Accounted) (hqueue : context.commandQueue = entry :: rest) :
    (context.start entry rest).Accounted := by
  refine h.of_occurrences rfl fun id => ?_
  simp only [occurrences, CommandExecutionContext.start, hqueue, countP_append, countP_cons,
    countP_nil]
  omega

theorem Accounted.pushNewCommands (h : context.Accounted) :
    context.pushNewCommands.Accounted := by
  refine h.of_occurrences rfl fun id => ?_
  simp only [occurrences, CommandExecutionContext.pushNewCommands, foldr_cons_eq_append',
    countP_append, countP_nil]
  omega

/-- A round finishes, or it executes the entry in front and goes on unless that stopped it. -/
theorem runRounds_succ_cases (hrun : runRounds world (rounds + 1) context = some (next, stop)) :
    next = context.finish ∧ (stop = some .completed → context.commandQueue = []) ∨
    ∃ entry rest after, context.commandQueue = entry :: rest ∧
      (entry.action.runsAfterCommandLimit = true ∨ context.commandQuota ≠ 0) ∧
      (context.start entry rest).execute world entry.frame entry.path entry.action = some after ∧
      (next = after.finish ∧ stop ≠ some .completed ∨ after.suspension = none ∧
        runRounds world rounds after.pushNewCommands = some (next, stop)) := by
  rw [runRounds] at hrun
  split_ifs at hrun with hlimit
  · cases hrun
    exact .inl ⟨rfl, fun hstop => nomatch hstop⟩
  · cases hqueue : context.commandQueue with
    | nil =>
      rw [hqueue] at hrun
      cases hrun
      exact .inl ⟨rfl, fun _ => rfl⟩
    | cons entry rest =>
      simp only [hqueue, head?_cons, Option.any_some, Bool.not_eq_true', not_and,
        Bool.not_eq_false] at hlimit
      rw [hqueue] at hrun
      obtain ⟨after, hexecute, hrest⟩ := Option.bind_eq_some_iff.mp hrun
      have hallowed : entry.action.runsAfterCommandLimit = true ∨ context.commandQuota ≠ 0 :=
        or_iff_not_imp_right.mpr fun hzero => hlimit (not_not.mp hzero)
      refine .inr ⟨entry, rest, after, rfl, hallowed, hexecute, ?_⟩
      split_ifs at hrest with hover hsuspended
      · cases hrest
        exact .inl ⟨rfl, fun hstop => nomatch hstop⟩
      · cases hrest
        exact .inl ⟨rfl, fun hstop => nomatch hstop⟩
      · exact .inr ⟨by simpa using hsuspended, hrest⟩

theorem Accounted.runRounds (h : context.Accounted)
    (hrun : CommandExecutionContext.runRounds world rounds context = some (next, stop)) :
    next.Accounted := by
  induction rounds generalizing context with
  | zero =>
    obtain ⟨rfl, -⟩ := Prod.mk.inj (Option.some.inj hrun)
    exact h
  | succ rounds ih =>
    obtain ⟨rfl, -⟩ | ⟨entry, rest, after, hqueue, -, hexecute, hafter⟩ := runRounds_succ_cases hrun
    · exact h
    · have haccounted := (h.start hqueue).execute hexecute
      obtain ⟨rfl, -⟩ | ⟨-, hrest⟩ := hafter
      · exact haccounted
      · exact ih haccounted.pushNewCommands hrest

/-- What holds before a run and after its rounds holds after the run. -/
theorem run_rule (h : motive context)
    (hrounds : context.suspension = none →
      runRounds world rounds context.pushNewCommands = some (next, stop) → motive next)
    (hrun : context.run world rounds = some (next, stop)) : motive next := by
  rw [run] at hrun
  split_ifs at hrun with hsuspended
  · cases hrun
    exact h
  · cases hrun
    exact h
  · exact hrounds (by simpa using hsuspended) hrun

/-- What runs keep holds after a call if it holds after what the call does first. -/
theorem call_rule {call : ExecutionCall S C}
    (h : motive context)
    (hinitial : ∀ chain source, call = .queueInitialCommand chain source →
      motive (context.queueInitialCommand chain source))
    (hrun : ∀ before rounds next stop, motive before →
      before.run world rounds = some (next, stop) → motive next)
    (hresume : ∀ active, context.suspension = some active →
      motive (context.queueResume world active))
    (hcancel : motive context.cancel) (hcall : context.call world call = some next) :
    motive next := by
  cases call with
  | queueInitialCommand chain source =>
    obtain rfl := Option.some.inj hcall
    exact hinitial chain source rfl
  | run rounds =>
    obtain ⟨⟨after, stop⟩, hafter, rfl⟩ := Option.map_eq_some_iff.mp hcall
    exact hrun _ _ _ _ h hafter
  | pollSuspension ready rounds =>
    obtain ⟨⟨after, stop⟩, hpoll, rfl⟩ := Option.map_eq_some_iff.mp hcall
    rw [pollSuspension] at hpoll
    cases hactive : context.suspension with
    | none =>
      rw [hactive] at hpoll
      exact hrun _ _ _ _ h hpoll
    | some active =>
      rw [hactive] at hpoll
      dsimp only at hpoll
      split_ifs at hpoll
      · exact hrun _ _ _ _ (hresume active hactive) hpoll
      · cases hpoll
        exact h
  | cancel =>
    obtain rfl := Option.some.inj hcall
    exact hcancel

theorem Accounted.run (h : context.Accounted)
    (hrun : context.run world rounds = some (next, stop)) : next.Accounted :=
  run_rule h (fun _ => h.pushNewCommands.runRounds) hrun

theorem Accounted.cancel (h : context.Accounted) : context.cancel.Accounted := by
  refine h.of_occurrences rfl fun id => ?_
  change (CommandExecutionContext.cancelNewTopCommands (CommandExecutionContext.cancelCommandQueue
    (context.endSuspension .cancelled))).occurrences id = _
  rw [occurrences_cancelNewTopCommands, occurrences_cancelCommandQueue]
  rfl

theorem Accounted.queueResume (h : context.Accounted) (active : ActiveSuspension P) :
    (context.queueResume world active).Accounted := by
  have htaken : Accounted { context.endSuspension .resumed with running := active.path } := h
  have hqueued := htaken.queueEntry active.frame
    (.suspensionResume (world.resume context.executed.length active.suspension))
  rw [CommandExecutionContext.queueResume]
  generalize CommandExecutionContext.queueEntry _ _ _ = queued at hqueued ⊢
  exact hqueued

theorem Accounted.call (h : context.Accounted) {call : ExecutionCall S C}
    (hcall : context.call world call = some next) : next.Accounted :=
  call_rule h (fun _ _ _ => h.queueEntry _ _) (fun _ _ _ _ hbefore => hbefore.run)
    (fun active _ => h.queueResume active) h.cancel hcall

/-! ### One suspension at a time -/

/-- What only the rounds and the calls themselves change. -/
def history (context : CommandExecutionContext S C P) :
    List (CommandQueueEntry S C P × ℕ) × List (ActiveSuspension P × SuspensionEnd) ×
      Option (ActiveSuspension P) :=
  (context.executed, context.ended, context.suspension)

theorem queueEntry_history (frame : Frame) (action : EntryAction S C P) :
    (context.queueEntry frame action).history = context.history := by
  obtain ⟨_, -, -, ⟨_, rfl | rfl, hqueue⟩ | ⟨-, -, hqueue⟩⟩ :=
    queueEntry_cases context frame action
  all_goals simp only [hqueue, history, overflow, cancelCommandQueue, cancelNewTopCommands]

theorem queueEntry_suspension (frame : Frame) (action : EntryAction S C P) :
    (context.queueEntry frame action).suspension = context.suspension :=
  congrArg (·.2.2) (queueEntry_history frame action)

theorem runOperation_history (operation : QueueOperation S C P) :
    (context.runOperation operation).history = context.history := by
  cases operation with
  | queue frame action => exact queueEntry_history frame action
  | discard frame =>
    rw [runOperation, discard]
    split <;> rfl
  | incrementCost | handleError source error forked => rfl

theorem runOperation_suspension (operation : QueueOperation S C P) :
    (context.runOperation operation).suspension = context.suspension :=
  congrArg (·.2.2) (runOperation_history operation)

/-- A round begins without a suspension, so that it can set one. -/
theorem runRounds_isSome (h : context.suspension = none) (rounds : ℕ) :
    (runRounds world rounds context).isSome = true := by
  induction rounds generalizing context with
  | zero => rfl
  | succ rounds ih =>
    rw [runRounds]
    split_ifs
    · rfl
    · cases hqueue : context.commandQueue with
      | nil => rfl
      | cons entry rest =>
        have hstart : (context.start entry rest).suspension = none := h
        obtain ⟨after, hexecute⟩ := Option.isSome_iff_exists.mp
          (execute_isSome world hstart entry.frame entry.path entry.action)
        simp only [hexecute, Option.bind_eq_bind, Option.bind_some]
        split_ifs with hover hsuspended
        · rfl
        · rfl
        · exact ih (by simpa [pushNewCommands] using hsuspended)

theorem run_isSome (rounds : ℕ) : (context.run world rounds).isSome = true := by
  rw [run]
  split_ifs with hsuspended
  · rfl
  · rfl
  · exact runRounds_isSome (by simpa [pushNewCommands] using hsuspended) rounds

theorem call_isSome (world : CommandWorld S C P) (context : CommandExecutionContext S C P)
    (call : ExecutionCall S C) : (context.call world call).isSome = true := by
  cases call with
  | queueInitialCommand chain source => rfl
  | run rounds => rw [CommandExecutionContext.call, Option.isSome_map, run_isSome]
  | pollSuspension ready rounds =>
    rw [CommandExecutionContext.call, Option.isSome_map, pollSuspension]
    split
    · exact run_isSome rounds
    · split_ifs
      · exact run_isSome rounds
      · rfl
  | cancel => rfl

/-- What every call keeps holds after all calls, and they all return. -/
theorem runCalls_rule
    (world : CommandWorld S C P) (calls : List (ExecutionCall S C)) (h : motive context)
    (hcall : ∀ call ∈ calls, ∀ context next : CommandExecutionContext S C P, motive context →
      context.call world call = some next → motive next) :
    ∃ next, context.runCalls world calls = some next ∧ motive next := by
  induction calls generalizing context with
  | nil => exact ⟨context, rfl, h⟩
  | cons call rest ih =>
    obtain ⟨after, hafter⟩ := Option.isSome_iff_exists.mp (call_isSome world context call)
    obtain ⟨next, hnext, hmotive⟩ := ih (hcall call mem_cons_self _ _ h hafter)
      fun other hother => hcall other (mem_cons_of_mem _ hother)
    refine ⟨next, ?_, hmotive⟩
    rw [runCalls, foldlM_cons, hafter]
    exact hnext

/-- **Each entry ends once.** After any calls an entry was executed once, or cancelled once, or it
is pending, and only one of these. When the execution is cancelled or dropped then, every entry was
executed or cancelled. -/
theorem executed_or_cancelled_once (world : CommandWorld S C P) (commandLimit forkLimit : ℕ)
    (calls : List (ExecutionCall S C)) :
    ∃ context, (new commandLimit forkLimit).runCalls world calls = some context ∧
      (∀ id, context.executed.countP (·.1.id = id) + context.cancelled.countP (·.id = id) +
        (context.newTopCommands ++ context.commandQueue).countP (·.id = id) =
          if id < context.nextId then 1 else 0) ∧
      ∀ id < context.nextId, context.cancel.executed.countP (·.1.id = id) +
        context.cancel.cancelled.countP (·.id = id) = 1 := by
  obtain ⟨context, hcalls, haccounted⟩ := runCalls_rule (motive := Accounted) world calls
    (accounted_new commandLimit forkLimit) fun _ _ _ _ hbefore hcall => hbefore.call hcall
  refine ⟨context, hcalls, fun id => ?_, fun id hid => ?_⟩
  · have hcount := haccounted id
    rwa [occurrences, ← countP_append] at hcount
  · have hcount := haccounted.cancel id
    rw [if_pos (show id < context.cancel.nextId from hid)] at hcount
    exact hcount

/-! ### One end for each suspension -/

/-- The entries that set a suspension, in order, are those of the suspensions that have ended and
that of the active one. -/
def SuspensionsEnd (context : CommandExecutionContext S C P) : Prop :=
  (context.executed.filter (·.1.action.activates)).map (·.1.path) =
    (context.ended.map Prod.fst ++ context.suspension.toList).map (·.path)

theorem SuspensionsEnd.of_history (h : context.SuspensionsEnd)
    (hhistory : next.history = context.history) : next.SuspensionsEnd := by
  obtain ⟨hexecuted, hended, hsuspension⟩ := by simpa only [history, Prod.mk.injEq] using hhistory
  rw [SuspensionsEnd, hexecuted, hended, hsuspension]
  exact h

theorem SuspensionsEnd.pushNewCommands (h : context.SuspensionsEnd) :
    context.pushNewCommands.SuspensionsEnd :=
  h.of_history rfl

theorem SuspensionsEnd.endSuspension (h : context.SuspensionsEnd) (suspensionEnd : SuspensionEnd) :
    (context.endSuspension suspensionEnd).SuspensionsEnd := by
  have hended : (context.ended ++ context.suspension.toList.map (·, suspensionEnd)).map Prod.fst =
      context.ended.map Prod.fst ++ context.suspension.toList := by
    rw [map_append, map_map]
    exact congrArg _ (map_id _)
  simp only [SuspensionsEnd, CommandExecutionContext.endSuspension, hended, Option.toList_none,
    append_nil]
  exact h

theorem SuspensionsEnd.execute (h : context.SuspensionsEnd) (hnone : context.suspension = none)
    (hexecute : (context.start entry rest).execute world entry.frame entry.path entry.action =
      some next) : next.SuspensionsEnd := by
  rw [SuspensionsEnd, hnone, Option.toList_none, append_nil] at h
  obtain ⟨hactivates, -, suspension, rfl⟩ | ⟨hactivates, operations, rfl⟩ := execute_cases hexecute
  · simp only [SuspensionsEnd, CommandExecutionContext.start, filter_append, filter_cons,
      hactivates, map_append, h]
    rfl
  · have hstart : (context.start entry rest).SuspensionsEnd := by
      simp only [SuspensionsEnd, CommandExecutionContext.start, filter_append, filter_cons,
        hactivates, map_append, h, hnone]
      rfl
    exact foldlRecOn operations _ hstart fun _ hbefore operation _ =>
      hbefore.of_history (runOperation_history operation)

theorem SuspensionsEnd.runRounds (h : context.SuspensionsEnd) (hnone : context.suspension = none)
    (hrun : CommandExecutionContext.runRounds world rounds context = some (next, stop)) :
    next.SuspensionsEnd := by
  induction rounds generalizing context with
  | zero =>
    obtain ⟨rfl, -⟩ := Prod.mk.inj (Option.some.inj hrun)
    exact h
  | succ rounds ih =>
    obtain ⟨rfl, -⟩ | ⟨entry, rest, after, -, -, hexecute, hafter⟩ := runRounds_succ_cases hrun
    · exact h
    · have hnext := h.execute hnone hexecute
      obtain ⟨rfl, -⟩ | ⟨hsuspension, hrest⟩ := hafter
      · exact hnext
      · exact ih hnext.pushNewCommands hsuspension hrest

theorem SuspensionsEnd.queueResume (h : context.SuspensionsEnd) (active : ActiveSuspension P) :
    (context.queueResume world active).SuspensionsEnd := by
  have htaken : SuspensionsEnd { context.endSuspension .resumed with running := active.path } :=
    h.endSuspension .resumed
  have hqueued := htaken.of_history (queueEntry_history active.frame
    (.suspensionResume (world.resume context.executed.length active.suspension)))
  rw [CommandExecutionContext.queueResume]
  generalize CommandExecutionContext.queueEntry _ _ _ = queued at hqueued ⊢
  exact hqueued

theorem SuspensionsEnd.call (h : context.SuspensionsEnd) {call : ExecutionCall S C}
    (hcall : context.call world call = some next) : next.SuspensionsEnd :=
  call_rule h (fun _ _ _ => h.of_history (queueEntry_history _ _))
    (fun _ _ _ _ hbefore => run_rule hbefore hbefore.pushNewCommands.runRounds)
    (fun active _ => h.queueResume active) (h.endSuspension .cancelled) hcall

/-- **Each suspension ends once.** After any calls, the suspensions that were set are those that
were resumed or cancelled, once each and in order, and at last the active one. When the execution is
cancelled or dropped then, none is active. -/
theorem suspension_ends_once (world : CommandWorld S C P) (commandLimit forkLimit : ℕ)
    (calls : List (ExecutionCall S C)) :
    ∃ context, (new commandLimit forkLimit).runCalls world calls = some context ∧
      (context.executed.filter (·.1.action.activates)).map (·.1.path) =
        (context.ended.map Prod.fst ++ context.suspension.toList).map (·.path) ∧
      (context.executed.filter (·.1.action.activates)).map (·.1.path) =
        context.cancel.ended.map (·.1.path) := by
  have hnew : (new commandLimit forkLimit : CommandExecutionContext S C P).SuspensionsEnd := rfl
  obtain ⟨context, hcalls, hend⟩ := runCalls_rule (motive := SuspensionsEnd) world calls hnew
    fun _ _ _ _ hbefore hcall => hbefore.call hcall
  refine ⟨context, hcalls, hend, ?_⟩
  have hcancelled := hend.endSuspension .cancelled
  rwa [SuspensionsEnd, show (context.endSuspension .cancelled).suspension = none from rfl,
    Option.toList_none, append_nil, map_map] at hcancelled

end CommandExecutionContext

/-! ### Depth-first order -/

/-- The paths part, and the first goes to the earlier child there. -/
def LeftOf (first second : List ℕ) : Prop :=
  ∃ stem i j firstRest secondRest, first = stem ++ i :: firstRest ∧
    second = stem ++ j :: secondRest ∧ i < j

/-- The first path is visited before the second: it leads to it or is left of it. -/
def VisitedBefore (first second : List ℕ) : Prop :=
  first <+: second ∧ first ≠ second ∨ LeftOf first second

section Paths

variable {first second : List ℕ}

theorem LeftOf.append_left (h : LeftOf first second) (more : List ℕ) :
    LeftOf (first ++ more) second := by
  obtain ⟨stem, i, j, firstRest, secondRest, rfl, rfl, hlt⟩ := h
  exact ⟨stem, i, j, firstRest ++ more, secondRest, by simp, rfl, hlt⟩

theorem LeftOf.append_right (h : LeftOf first second) (more : List ℕ) :
    LeftOf first (second ++ more) := by
  obtain ⟨stem, i, j, firstRest, secondRest, rfl, rfl, hlt⟩ := h
  exact ⟨stem, i, j, firstRest, secondRest ++ more, rfl, by simp, hlt⟩

theorem leftOf_siblings (stem : List ℕ) {i j : ℕ} (h : i < j) :
    LeftOf (stem ++ [i]) (stem ++ [j]) :=
  ⟨stem, i, j, [], [], rfl, rfl, h⟩

/-- A child is visited after all that its parent is not visited before. -/
theorem visitedBefore_child (h : first = second ∨ VisitedBefore first second) (i : ℕ) :
    VisitedBefore first (second ++ [i]) := by
  have hne : ∀ {stem : List ℕ}, stem <+: second → stem ≠ second ++ [i] := by
    intro stem hstem heq
    have hlength := hstem.length_le
    rw [heq, length_append, length_singleton] at hlength
    omega
  obtain rfl | ⟨hleads, -⟩ | hleft := h
  · exact Or.inl ⟨prefix_append _ _, hne (prefix_refl _)⟩
  · exact Or.inl ⟨hleads.trans (prefix_append _ _), hne hleads⟩
  · exact Or.inr (hleft.append_right [i])

end Paths

namespace CommandExecutionContext

variable {S C P : Type} {world : CommandWorld S C P} {context next : CommandExecutionContext S C P}
  {limit : ℕ} {parent : List ℕ}

def pending (context : CommandExecutionContext S C P) : List (CommandQueueEntry S C P) :=
  context.newTopCommands ++ context.commandQueue

/-- All that was executed was visited in order, what is pending is to be visited in order after it,
and the limits are kept. -/
structure Between (limit : ℕ) (context : CommandExecutionContext S C P) : Prop where
  pending : context.pending.Pairwise fun first second => LeftOf first.path second.path
  executed : context.executed.Pairwise fun first second =>
    VisitedBefore first.1.path second.1.path
  ahead : ∀ execution ∈ context.executed, ∀ entry ∈ context.pending,
    VisitedBefore execution.1.path entry.path
  length : context.pending.length ≤ maxCommandQueueDepth + 1
  queueLimit : context.queueLimit = maxCommandQueueDepth
  commandLimit : context.commandLimit = limit
  quota : context.commandQuota = limit - context.charged
  starts : ∀ execution ∈ context.executed,
    execution.1.action.runsAfterCommandLimit = true ∨ execution.2 < limit

/-- New entries are children of the parent, which comes before all others that are pending and
after all others that were executed. -/
structure Inside (limit : ℕ) (parent : List ℕ) (context : CommandExecutionContext S C P) : Prop
    extends Between limit context where
  children : ∀ entry ∈ context.newTopCommands,
    entry.ancestors = parent ∧ entry.id < context.nextId
  behind : ∀ entry ∈ context.commandQueue, LeftOf parent entry.path
  latest : ∀ execution ∈ context.executed,
    execution.1.path = parent ∨ VisitedBefore execution.1.path parent

/-- Nothing is lost when pending entries are taken out of the queue. -/
theorem Inside.sublist (h : Inside limit parent context)
    {queue : List (CommandQueueEntry S C P)} (hqueue : queue <+ context.commandQueue)
    (cancelled : List (CommandQueueEntry S C P)) :
    Inside limit parent { context with commandQueue := queue, cancelled } := by
  have hpending : context.newTopCommands ++ queue <+ context.pending := hqueue.append_left _
  exact
    { h with
      pending := h.pending.sublist hpending
      ahead := fun execution hexecution entry hentry =>
        h.ahead execution hexecution entry (hpending.subset hentry)
      length := hpending.length_le.trans h.length
      behind := fun entry hentry => h.behind entry (hqueue.subset hentry) }

theorem Inside.overflow (h : Inside limit parent context) :
    Inside limit parent context.overflow := by
  have hempty := h.sublist (nil_sublist context.commandQueue) context.overflow.cancelled
  exact
    { hempty with
      pending := Pairwise.nil
      ahead := fun _ _ entry hentry => by cases hentry
      length := Nat.zero_le _
      children := fun entry hentry => by cases hentry }

/-- A new entry is the youngest child of the one that runs. -/
theorem Inside.queueEntry (h : Inside limit parent context) (hrunning : context.running = parent)
    (frame : Frame) (action : EntryAction S C P) :
    Inside limit parent (context.queueEntry frame action) := by
  have hids : ∀ {before : CommandExecutionContext S C P} {cancelled}, Inside limit parent before →
      before.nextId = context.nextId →
      Inside limit parent { before with nextId := context.nextId + 1, cancelled } := by
    intro before cancelled hbefore hid
    exact
      { hbefore with
        children := fun entry hentry =>
          ⟨(hbefore.children entry hentry).1,
            Nat.lt_succ_of_lt (hid ▸ (hbefore.children entry hentry).2)⟩ }
  obtain ⟨entry, hid, hancestors, ⟨before, hbefore, hqueue⟩ | ⟨-, hlength, hqueue⟩⟩ :=
    queueEntry_cases context frame action
  · rw [hqueue]
    obtain rfl | rfl := hbefore
    · exact hids h rfl
    · exact hids h.overflow rfl
  · have hpath : entry.path = parent ++ [context.nextId] := by
      rw [CommandQueueEntry.path, hancestors, hrunning, hid]
    have hpending : context.newTopCommands ++ [entry] ++ context.commandQueue ~
        entry :: context.pending := by
      rw [append_assoc, singleton_append]
      exact perm_middle
    rw [hqueue]
    exact
      { h with
        pending := by
          obtain ⟨hnew, hold, hacross⟩ := pairwise_append.mp h.pending
          refine pairwise_append.mpr ⟨pairwise_append.mpr ⟨hnew, pairwise_singleton _ _, ?_⟩, hold,
            ?_⟩
          · intro other hother last hlast
            rw [mem_singleton.mp hlast, hpath, CommandQueueEntry.path, (h.children other hother).1]
            exact leftOf_siblings parent (h.children other hother).2
          · intro first hfirst second hsecond
            obtain hfirst | hlast := mem_append.mp hfirst
            · exact hacross first hfirst second hsecond
            · rw [mem_singleton.mp hlast, hpath]
              exact (h.behind second hsecond).append_left _
        ahead := fun execution hexecution other hother => by
          obtain rfl | hother := mem_cons.mp (hpending.mem_iff.mp hother)
          · rw [hpath]
            exact visitedBefore_child (h.latest execution hexecution) _
          · exact h.ahead execution hexecution other hother
        length := by
          rw [CommandExecutionContext.pending, hpending.length_eq, length_cons,
            CommandExecutionContext.pending, length_append]
          rw [h.queueLimit] at hlength
          exact Nat.succ_le_succ hlength
        children := fun other hother => by
          obtain hother | hlast := mem_append.mp hother
          · exact ⟨(h.children other hother).1, Nat.lt_succ_of_lt (h.children other hother).2⟩
          · rw [mem_singleton.mp hlast, hancestors, hrunning, hid]
            exact ⟨rfl, Nat.lt_succ_self _⟩ }

theorem queueEntry_running (frame : Frame) (action : EntryAction S C P) :
    (context.queueEntry frame action).running = context.running := by
  obtain ⟨_, -, -, ⟨_, rfl | rfl, hqueue⟩ | ⟨-, -, hqueue⟩⟩ :=
    queueEntry_cases context frame action
  all_goals simp only [hqueue, overflow, cancelCommandQueue, cancelNewTopCommands]

theorem Inside.runOperation (h : Inside limit parent context) (hrunning : context.running = parent)
    (operation : QueueOperation S C P) :
    Inside limit parent (context.runOperation operation) ∧
      (context.runOperation operation).running = parent := by
  cases operation with
  | queue frame action =>
    exact ⟨h.queueEntry hrunning frame action, (queueEntry_running frame action).trans hrunning⟩
  | discard frame =>
    rw [CommandExecutionContext.runOperation, CommandExecutionContext.discard]
    split
    · exact ⟨h.sublist (nil_sublist _) _, hrunning⟩
    · exact ⟨h.sublist (dropWhile_sublist _) _, hrunning⟩
  | incrementCost =>
    refine ⟨{ h with quota := ?_ }, hrunning⟩
    have hquota := h.quota
    simp only [CommandExecutionContext.runOperation, CommandExecutionContext.incrementCost]
    omega
  | handleError source error forked => exact ⟨h, hrunning⟩

theorem Inside.execute (h : Inside limit parent context) (hrunning : context.running = parent)
    {frame : Frame} {action : EntryAction S C P} (hsuspension : context.suspension = none)
    (hexecute : context.execute world frame parent action = some next) :
    Inside limit parent next ∧ ∀ active, next.suspension = some active → active.path = parent := by
  obtain ⟨-, -, suspension, rfl⟩ | ⟨-, operations, rfl⟩ := execute_cases hexecute
  · refine ⟨{ h with }, fun active hactive => ?_⟩
    rw [← Option.some.inj hactive]
  · obtain ⟨hinside, -, hnone⟩ := foldlRecOn
      (motive := fun after : CommandExecutionContext S C P => Inside limit parent after ∧
        after.running = parent ∧ after.suspension = none)
      operations CommandExecutionContext.runOperation ⟨h, hrunning, hsuspension⟩
      fun before hbefore operation _ => by
        obtain ⟨hinside, hparent⟩ := hbefore.1.runOperation hbefore.2.1 operation
        exact ⟨hinside, hparent, (runOperation_suspension operation).trans hbefore.2.2⟩
    refine ⟨hinside, fun active hactive => ?_⟩
    rw [hnone] at hactive
    cases hactive

/-- The first entry is left of all others, and the limit was not reached before it. -/
theorem Between.start (h : Between limit context) {entry : CommandQueueEntry S C P}
    {rest : List (CommandQueueEntry S C P)} (hnew : context.newTopCommands = [])
    (hqueue : context.commandQueue = entry :: rest)
    (hlimit : entry.action.runsAfterCommandLimit = true ∨ context.commandQuota ≠ 0) :
    Inside limit entry.path (context.start entry rest) := by
  have hpending : context.pending = entry :: rest := by
    rw [CommandExecutionContext.pending, hnew, hqueue, nil_append]
  have hrest : (context.start entry rest).pending = rest := by
    rw [CommandExecutionContext.pending, CommandExecutionContext.start, hnew, nil_append]
  have hordered := h.pending
  rw [hpending, pairwise_cons] at hordered
  have hahead : ∀ execution ∈ context.executed, ∀ other ∈ entry :: rest,
      VisitedBefore execution.1.path other.path := hpending ▸ h.ahead
  have hlength := h.length
  rw [hpending, length_cons] at hlength
  exact
    { h with
      pending := hrest.symm ▸ hordered.2
      executed := pairwise_append.mpr ⟨h.executed, pairwise_singleton _ _,
        fun execution hexecution last hlast => by
          rw [mem_singleton.mp hlast]
          exact hahead execution hexecution entry mem_cons_self⟩
      ahead := fun execution hexecution other hother => by
        rw [hrest] at hother
        obtain hexecution | hlast := mem_append.mp hexecution
        · exact hahead execution hexecution other (mem_cons_of_mem _ hother)
        · rw [mem_singleton.mp hlast]
          exact Or.inr (hordered.1 other hother)
      length := by
        rw [hrest]
        exact Nat.le_of_succ_le hlength
      starts := fun execution hexecution => by
        obtain hexecution | hlast := mem_append.mp hexecution
        · exact h.starts execution hexecution
        · rw [mem_singleton.mp hlast]
          have hquota := h.quota
          exact hlimit.imp_right fun hne => by omega
      children := fun other hother => by
        rw [CommandExecutionContext.start, hnew] at hother
        cases hother
      behind := hordered.1
      latest := fun execution hexecution => by
        obtain hexecution | hlast := mem_append.mp hexecution
        · exact Or.inr (hahead execution hexecution entry mem_cons_self)
        · exact Or.inl (congrArg (·.1.path) (mem_singleton.mp hlast)) }

theorem Between.pushNewCommands (h : Between limit context) :
    Between limit context.pushNewCommands := by
  have hpending : context.pushNewCommands.pending = context.pending := by
    rw [CommandExecutionContext.pending, CommandExecutionContext.pushNewCommands,
      foldr_cons_eq_append', nil_append, CommandExecutionContext.pending]
  exact
    { h with
      pending := hpending.symm ▸ h.pending
      ahead := hpending.symm ▸ h.ahead
      length := hpending.symm ▸ h.length }

/-- Between calls, a suspension stands for the entry whose children are queued next. -/
structure Halted (limit : ℕ) (context : CommandExecutionContext S C P) : Prop where
  between : Between limit context
  suspended : ∀ active, context.suspension = some active → Inside limit active.path context

theorem Between.halted (h : Between limit context) (hsuspension : context.suspension = none) :
    Halted limit context where
  between := h
  suspended active hactive := by
    rw [hsuspension] at hactive
    cases hactive

theorem Halted.finish (h : Halted limit context) : Halted limit context.finish where
  between := { h.between with }
  suspended active hactive := { h.suspended active hactive with }

variable {stop : Option ExecutionStop} {rounds : ℕ}

theorem Between.runRounds (h : Between limit context) (hnew : context.newTopCommands = [])
    (hsuspension : context.suspension = none)
    (hrun : CommandExecutionContext.runRounds world rounds context = some (next, stop)) :
    Halted limit next := by
  induction rounds generalizing context with
  | zero =>
    obtain ⟨rfl, -⟩ := Prod.mk.inj (Option.some.inj hrun)
    exact h.halted hsuspension
  | succ rounds ih =>
    obtain ⟨rfl, -⟩ | ⟨entry, rest, after, hqueue, hallowed, hexecute, hnext⟩ :=
      runRounds_succ_cases hrun
    · exact (h.halted hsuspension).finish
    · have hstart := h.start hnew hqueue hallowed
      obtain ⟨hafter, hactive⟩ := hstart.execute rfl hsuspension hexecute
      have hstopped : Halted limit after :=
        ⟨hafter.toBetween, fun active hsome => hactive active hsome ▸ hafter⟩
      obtain ⟨rfl, -⟩ | ⟨hnone, hrest⟩ := hnext
      · exact hstopped.finish
      · exact ih hafter.toBetween.pushNewCommands rfl hnone hrest

theorem Halted.run (h : Halted limit context)
    (hrun : context.run world rounds = some (next, stop)) : Halted limit next :=
  run_rule h (fun hnone => h.between.pushNewCommands.runRounds rfl hnone) hrun

theorem Halted.queueResume (h : Halted limit context) {active : ActiveSuspension P}
    (hactive : context.suspension = some active) :
    Halted limit (context.queueResume world active) := by
  have htaken : Inside limit active.path
      { context.endSuspension .resumed with running := active.path } :=
    { h.suspended active hactive with }
  have hqueued := htaken.queueEntry rfl active.frame
    (.suspensionResume (world.resume context.executed.length active.suspension))
  have hnone := (queueEntry_suspension active.frame
    (.suspensionResume (world.resume context.executed.length active.suspension)) :
    (CommandExecutionContext.queueEntry
      { context.endSuspension .resumed with running := active.path } _ _).suspension = none)
  rw [CommandExecutionContext.queueResume]
  generalize CommandExecutionContext.queueEntry _ _ _ = queued at hqueued hnone ⊢
  exact Between.halted { hqueued.toBetween with } hnone

theorem Halted.call (h : Halted limit context) {call : ExecutionCall S C}
    (hinitial : ∀ chain source, call ≠ .queueInitialCommand chain source)
    (hcall : context.call world call = some next) : Halted limit next := by
  refine call_rule h (fun chain source heq => absurd heq (hinitial chain source))
    (fun _ _ _ _ hbefore => hbefore.run) (fun _ hactive => h.queueResume hactive) ?_ hcall
  exact Between.halted
    { h.between with
      pending := Pairwise.nil
      ahead := fun _ _ entry hentry => by cases hentry
      length := Nat.zero_le _ } rfl

theorem runRounds_completed (hnew : context.newTopCommands = [])
    (hsuspension : context.suspension = none)
    (hrun : runRounds world rounds context = some (next, some .completed)) :
    next.pending = [] ∧ next.suspension = none := by
  induction rounds generalizing context with
  | zero => cases hrun
  | succ rounds ih =>
    obtain ⟨rfl, hstop⟩ | ⟨entry, rest, after, -, -, -, hafter⟩ := runRounds_succ_cases hrun
    · have hpending : context.pending = [] := by
        rw [CommandExecutionContext.pending, hnew, hstop rfl, nil_append]
      exact ⟨hpending, hsuspension⟩
    · obtain ⟨-, hstop⟩ | ⟨hnone, hrest⟩ := hafter
      · exact absurd rfl hstop
      · have hpushed : after.pushNewCommands.suspension = none := hnone
        exact ih rfl hpushed hrest

/-- A run that reports its completion leaves nothing pending and no suspension, so that a cancel
after it ends nothing. -/
theorem run_completed (hrun : context.run world rounds = some (next, some .completed)) :
    next.pending = [] ∧ next.suspension = none ∧ next.cancel.cancelled = next.cancelled ∧
      next.cancel.ended = next.ended := by
  rw [run] at hrun
  split_ifs at hrun with hsuspended
  · cases hrun
  · cases hrun
  · have hnone : context.pushNewCommands.suspension = none := by
      simpa [pushNewCommands] using hsuspended
    obtain ⟨hpending, hsuspension⟩ := runRounds_completed rfl hnone hrun
    obtain ⟨hnew, hqueue⟩ := append_eq_nil_iff.mp hpending
    refine ⟨hpending, hsuspension, ?_, ?_⟩
    · simp [cancel, cancelNewTopCommands, cancelCommandQueue, endSuspension, hnew, hqueue]
    · simp [cancel, cancelNewTopCommands, cancelCommandQueue, endSuspension, hsuspension]

/-- Initial commands have no parent. -/
structure Initial (limit : ℕ) (context : CommandExecutionContext S C P) : Prop
    extends Inside limit [] context where
  running : context.running = []
  suspension : context.suspension = none
  executed_eq : context.executed = []
  commandQueue_eq : context.commandQueue = []

theorem initial_new (commandLimit forkLimit : ℕ) :
    Initial (max commandLimit 1) (new commandLimit forkLimit : CommandExecutionContext S C P) where
  pending := Pairwise.nil
  executed := Pairwise.nil
  ahead execution hexecution := by cases hexecution
  length := Nat.zero_le _
  queueLimit := rfl
  commandLimit := rfl
  quota := rfl
  starts execution hexecution := by cases hexecution
  children entry hentry := by cases hentry
  behind entry hentry := by cases hentry
  latest execution hexecution := by cases hexecution
  running := rfl
  suspension := rfl
  executed_eq := rfl
  commandQueue_eq := rfl

theorem Initial.queueInitialCommand (h : Initial limit context) (chain : ContextChain C)
    (source : S) : Initial limit (context.queueInitialCommand chain source) := by
  have hqueue : (context.queueInitialCommand chain source).executed = [] ∧
      (context.queueInitialCommand chain source).commandQueue = [] := by
    rw [CommandExecutionContext.queueInitialCommand]
    obtain ⟨_, -, -, ⟨_, rfl | rfl, hqueue⟩ | ⟨-, -, hqueue⟩⟩ :=
      queueEntry_cases context context.createTopFrame
        (.buildContexts chain source [source] ⟨false, false⟩)
    all_goals
      simp only [hqueue, overflow, cancelCommandQueue, cancelNewTopCommands, h.executed_eq,
        h.commandQueue_eq, and_self]
  exact
    { h.queueEntry h.running context.createTopFrame _ with
      running := (queueEntry_running _ _).trans h.running
      suspension := (queueEntry_suspension _ _).trans h.suspension
      executed_eq := hqueue.1
      commandQueue_eq := hqueue.2 }

theorem runCalls_append (calls more : List (ExecutionCall S C)) :
    context.runCalls world (calls ++ more) =
      (context.runCalls world calls).bind fun next => next.runCalls world more :=
  foldlM_append

/-- Polls that find the suspension not ready change nothing. -/
theorem runCalls_polls (h : context.suspension.isSome = true) (polls rounds : ℕ)
    (calls : List (ExecutionCall S C)) :
    context.runCalls world (replicate polls (.pollSuspension false rounds) ++ calls) =
      context.runCalls world calls := by
  obtain ⟨active, hactive⟩ := Option.isSome_iff_exists.mp h
  induction polls with
  | zero => rfl
  | succ polls ih =>
    have hpoll : context.call world (.pollSuspension false rounds) = some context := by
      simp [call, pollSuspension, hactive]
    rw [replicate_succ, cons_append, runCalls, foldlM_cons, hpoll]
    exact ih

/-- Unless there are none, a standard modifier leaves fewer sources than the fork limit. -/
theorem forkSources_length {time forkLimit : ℕ} {modifier : C} {chain : ContextChain C}
    {originalSource : S} {modifiers : ChainModifiers} {sources nextSources result : List S}
    (h : world.forkSources time forkLimit modifier chain originalSource modifiers sources
      nextSources = .ok result) (hnext : nextSources = [] ∨ nextSources.length < forkLimit) :
    result = [] ∨ result.length < forkLimit := by
  induction sources generalizing nextSources with
  | nil =>
    rw [CommandWorld.forkSources, Except.ok.injEq] at h
    exact h ▸ hnext
  | cons source rest ih =>
    rw [CommandWorld.forkSources] at h
    cases hmodify : world.modify time modifier chain source with
    | error error =>
      simp only [hmodify] at h
      split_ifs at h
      exact ih h hnext
    | ok newSources =>
      simp only [hmodify] at h
      split_ifs at h with hfull
      exact ih h (Or.inr (by rw [length_append]; omega))

/-- **Depth-first order.** When initial commands are queued and then run, polled and cancelled in
any way, entries are executed in depth-first order, and what is pending comes after it in that
order. An entry is executed before the command limit is reached, or it belongs to a suspension, and
no second suspension is activated. -/
theorem executed_depth_first (world : CommandWorld S C P) (commandLimit forkLimit : ℕ)
    (commands : List (ContextChain C × S)) (calls : List (ExecutionCall S C))
    (hcalls : ∀ chain source, .queueInitialCommand chain source ∉ calls) :
    ∃ context, (new commandLimit forkLimit).runCalls world
        (commands.map (fun command => .queueInitialCommand command.1 command.2) ++ calls) =
          some context ∧
      context.executed.Pairwise (fun first second =>
        VisitedBefore first.1.path second.1.path) ∧
      (∀ execution ∈ context.executed, ∀ entry ∈ context.pending,
        VisitedBefore execution.1.path entry.path) ∧
      context.pending.Pairwise (fun first second => LeftOf first.path second.path) ∧
      (context.suspension.isSome = true → ∀ polls rounds more,
        context.runCalls world (replicate polls (.pollSuspension false rounds) ++ more) =
          context.runCalls world more) ∧
      (∀ execution ∈ context.executed, execution.1.action.runsAfterCommandLimit = true ∨
        execution.2 < max commandLimit 1) ∧
      context.pending.length ≤ maxCommandQueueDepth + 1 ∧
      ∀ time modifier chain originalSource modifiers sources result,
        world.forkSources time forkLimit modifier chain originalSource modifiers sources [] =
          .ok result → result = [] ∨ result.length < forkLimit := by
  obtain ⟨queued, hqueued, hinitial⟩ := runCalls_rule
    (motive := Initial (max commandLimit 1)) world
    (commands.map fun command => .queueInitialCommand command.1 command.2)
    (initial_new commandLimit forkLimit) fun call hcall before after hbefore hafter => by
      obtain ⟨command, -, rfl⟩ := mem_map.mp hcall
      obtain rfl := Option.some.inj hafter
      exact hbefore.queueInitialCommand command.1 command.2
  obtain ⟨context, hcontext, hhalted⟩ := runCalls_rule
    (motive := Halted (max commandLimit 1)) world calls
    (hinitial.toBetween.halted hinitial.suspension) fun call hcall before after hbefore hafter =>
      hbefore.call (fun chain source heq => hcalls chain source (heq ▸ hcall)) hafter
  have hbetween := hhalted.between
  refine ⟨context, ?_, hbetween.executed, hbetween.ahead, hbetween.pending, ?_, hbetween.starts,
    hbetween.length, ?_⟩
  · rw [runCalls_append, hqueued]
    exact hcontext
  · intro hsuspended polls rounds more
    exact runCalls_polls hsuspended polls rounds more
  · intro time modifier chain originalSource modifiers sources result hresult
    exact forkSources_length hresult (Or.inl rfl)

def keepingWorld : CommandWorld Unit Unit Unit where
  isCurrent _ _ _ := true
  modify _ _ _ source := .ok [source]
  applyModifier _ _ _ _ _ _ _ := []
  runCustom _ _ _ _ _ _ := []
  runStandard _ _ _ _ := .ok ()
  runSuspended _ _ _ _ := .ok ()
  runOther _ _ _ := []
  resume _ _ := .fallthrough

def twoModifiers : ContextChain Unit where
  modifyStages := [⟨false, some (.standard ())⟩, ⟨false, some (.standard ())⟩]
  executor := .suspended ()

theorem executed_depth_first_twoModifiers :
    ∃ context, (new 3 10).runCalls keepingWorld
        ([(twoModifiers, ())].map (fun command => .queueInitialCommand command.1 command.2) ++
          [.run 9, .pollSuspension true 9]) = some context ∧
      context.executed.Pairwise fun first second =>
        VisitedBefore first.1.path second.1.path := by
  obtain ⟨context, hcalls, hexecuted, -⟩ := executed_depth_first keepingWorld 3 10
    [(twoModifiers, ())] [.run 9, .pollSuspension true 9] (by simp)
  exact ⟨context, hcalls, hexecuted⟩

/-- One action is charged twice when the limit is one. -/
theorem charged_exceeds_commandLimit :
    ((new 1 10).runCalls keepingWorld [.queueInitialCommand twoModifiers (), .run 9]).map
      (fun context => (context.commandLimit, context.charged)) = some (1, 2) := by
  rfl

end CommandExecutionContext

end Steel
