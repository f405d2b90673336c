import Steel.Lib.HashMap
import Steel.Utils.Types

/-!
# The queue of command actions

An execution runs the actions at the front of its queue, and what an action queues is put in front
of what was pending. It stops at its limits, and it can be suspended and taken up again. Entries are
numbered in the order in which they are queued, and keep the numbers of those that led to them.
-/

namespace Steel

open List

inductive ExecutionStop where
  | completed
  | suspended
  | commandLimit
  | queueOverflow
deriving DecidableEq, Repr

inductive FrameDiscard where
  | all
  | atOrAbove (depth : ℕ)
deriving DecidableEq, Repr

structure Frame where
  depth : ℕ
  discard : FrameDiscard
deriving DecidableEq, Repr

structure ChainModifiers where
  isForked : Bool
  isReturn : Bool
deriving DecidableEq, Repr

/-! ### Context chains

What runs in a chain is known by a name `C`. -/

inductive SteelModifier (C : Type) where
  | standard (modifier : C)
  | custom (modifier : C)

inductive SteelExecutor (C : Type) where
  | standard (executor : C)
  | suspended (executor : C)
  | custom (executor : C)

structure ModifyStage (C : Type) where
  isForked : Bool
  modifier : Option (SteelModifier C)

structure ContextChain (C : Type) where
  modifyStages : List (ModifyStage C)
  executor : SteelExecutor C

/-! ### Actions -/

inductive EntryAction (S C P : Type) where
  | suspend (suspension : P)
  | suspensionResume (action : EntryAction S C P)
  | buildContexts (chain : ContextChain C) (originalSource : S) (sources : List S)
      (modifiers : ChainModifiers)
  | executeContinuation (chain : ContextChain C) (sources : List S) (modifiers : ChainModifiers)
  | execute (chain : ContextChain C) (source : S) (modifiers : ChainModifiers)
  | commandResult (source : S) (modifiers : ChainModifiers) (error : Option String)
  | fallthrough
  | other (action : C)

def EntryAction.runsAfterCommandLimit {S C P : Type} : EntryAction S C P → Bool
  | suspend _ => true
  | suspensionResume _ => true
  | _ => false

/-- Whether the execution of the action sets a suspension. -/
def EntryAction.activates {S C P : Type} : EntryAction S C P → Bool
  | suspend _ => true
  | suspensionResume action => action.activates
  | _ => false

inductive QueueOperation (S C P : Type) where
  | queue (frame : Frame) (action : EntryAction S C P)
  | discard (frame : Frame)
  | incrementCost
  | handleError (source : S) (error : String) (forked : Bool)

/-- What is outside of the queue. All of it may change from one executed entry to the next. -/
structure CommandWorld (S C P : Type) where
  isCurrent : ℕ → ContextChain C → S → Bool
  modify : ℕ → C → ContextChain C → S → Except String (List S)
  applyModifier : ℕ → C → S → List S → ContextChain C → ChainModifiers → Frame →
    List (QueueOperation S C P)
  runCustom : ℕ → C → S → ContextChain C → ChainModifiers → Frame → List (QueueOperation S C P)
  runStandard : ℕ → C → S → ContextChain C → Except String Unit
  runSuspended : ℕ → C → S → ContextChain C → Except String P
  runOther : ℕ → C → Frame → List (QueueOperation S C P)
  resume : ℕ → P → EntryAction S C P

namespace CommandWorld

variable {S C P : Type} (world : CommandWorld S C P) (time forkLimit : ℕ) (frame : Frame)

/-- The sources after a standard modifier, or what is done instead. -/
def forkSources (modifier : C) (chain : ContextChain C) (originalSource : S)
    (modifiers : ChainModifiers) :
    List S → List S → Except (List (QueueOperation S C P)) (List S)
  | [], nextSources => .ok nextSources
  | source :: rest, nextSources =>
    match world.modify time modifier chain source with
    | .error error =>
      if modifiers.isForked then
        forkSources modifier chain originalSource modifiers rest nextSources
      else .error [.handleError source error false]
    | .ok newSources =>
      if forkLimit ≤ nextSources.length + newSources.length then
        .error [.handleError originalSource s!"Command fork limit reached ({forkLimit})"
          modifiers.isForked]
      else
        forkSources modifier chain originalSource modifiers rest (nextSources ++ newSources)

variable (chain : ContextChain C)

def scheduleExecutions (sources : List S) (modifiers : ChainModifiers) :
    List (QueueOperation S C P) :=
  match sources.length with
  | 0 => []
  | 1 | 2 => sources.map fun source => .queue frame (.execute chain source modifiers)
  | _ => [.queue frame (.executeContinuation chain sources modifiers)]

def noSources (modifiers : ChainModifiers) : List (QueueOperation S C P) :=
  if modifiers.isReturn then [.queue frame .fallthrough] else []

def buildContexts (executor : SteelExecutor C) (originalSource : S) :
    List (ModifyStage C) → List S → ChainModifiers → List (QueueOperation S C P)
  | stage :: rest, sources, modifiers =>
    let chain : ContextChain C := ⟨stage :: rest, executor⟩
    let sources := sources.filter (world.isCurrent time chain)
    if sources.isEmpty then noSources frame modifiers
    else
      let modifiers := if stage.isForked then { modifiers with isForked := true } else modifiers
      match stage.modifier with
      | some (.custom modifier) =>
        world.applyModifier time modifier originalSource sources chain modifiers frame
      | some (.standard modifier) =>
        .incrementCost ::
          match world.forkSources time forkLimit modifier chain originalSource modifiers sources []
            with
          | .error operations => operations
          | .ok sources => buildContexts executor originalSource rest sources modifiers
      | none => buildContexts executor originalSource rest sources modifiers
  | [], sources, modifiers =>
    let chain : ContextChain C := ⟨[], executor⟩
    let sources := sources.filter (world.isCurrent time chain)
    if sources.isEmpty then noSources frame modifiers
    else
      match executor with
      | .custom executor =>
        sources.flatMap fun source => world.runCustom time executor source chain modifiers frame
      | _ =>
        scheduleExecutions frame chain (if modifiers.isReturn then sources.take 1 else sources)
          modifiers

def completeCommandResult (source : S) (modifiers : ChainModifiers) (error : Option String) :
    List (QueueOperation S C P) :=
  match error with
  | some error => if modifiers.isForked then [] else [.handleError source error false]
  | none => []

def executeCommand (source : S) (modifiers : ChainModifiers) : List (QueueOperation S C P) :=
  if !world.isCurrent time chain source then []
  else
    .incrementCost ::
      match chain.executor with
      | .standard executor =>
        match world.runStandard time executor source chain with
        | .ok _ => completeCommandResult source modifiers none
        | .error error => completeCommandResult source modifiers (some error)
      | .suspended executor =>
        match world.runSuspended time executor source chain with
        | .ok suspension => [.queue frame (.suspend suspension)]
        | .error error => completeCommandResult source modifiers (some error)
      | .custom _ => []

def executeContinuation (sources : List S) (modifiers : ChainModifiers) :
    List (QueueOperation S C P) :=
  match sources with
  | [] => []
  | source :: rest =>
    .queue frame (.execute chain source modifiers) ::
      if rest.isEmpty then [] else [.queue frame (.executeContinuation chain rest modifiers)]

end CommandWorld

/-! ### The context -/

/-- `ancestors` are the entries that led to this one, the latest last. -/
structure CommandQueueEntry (S C P : Type) where
  id : ℕ
  ancestors : List ℕ
  frame : Frame
  action : EntryAction S C P

def CommandQueueEntry.path {S C P : Type} (entry : CommandQueueEntry S C P) : List ℕ :=
  entry.ancestors ++ [entry.id]

structure ActiveSuspension (P : Type) where
  frame : Frame
  suspension : P
  path : List ℕ

inductive SuspensionEnd where
  | resumed
  | cancelled
deriving DecidableEq, Repr

/-- The fields after `currentFrameDepth` record what has happened: the number of entries so far, the
entry that runs, those that were executed with the cost charged before, those that were cancelled,
the suspensions that have ended, and the cost. -/
structure CommandExecutionContext (S C P : Type) where
  commandLimit : ℕ
  forkLimit : ℕ
  queueLimit : ℕ
  commandQuota : ℕ
  queueOverflow : Bool
  commandQueue : List (CommandQueueEntry S C P)
  newTopCommands : List (CommandQueueEntry S C P)
  suspension : Option (ActiveSuspension P)
  currentFrameDepth : ℕ
  nextId : ℕ
  running : List ℕ
  executed : List (CommandQueueEntry S C P × ℕ)
  cancelled : List (CommandQueueEntry S C P)
  ended : List (ActiveSuspension P × SuspensionEnd)
  charged : ℕ

/-- What the owner of an execution calls. The rounds bound how long a run is watched, and a poll
finds the suspension ready or not. -/
inductive ExecutionCall (S C : Type) where
  | queueInitialCommand (chain : ContextChain C) (source : S)
  | run (rounds : ℕ)
  | pollSuspension (ready : Bool) (rounds : ℕ)
  | cancel

namespace CommandExecutionContext

variable {S C P : Type} (world : CommandWorld S C P) (context : CommandExecutionContext S C P)

def maxCommandQueueDepth : ℕ := 10000000

def new (commandLimit forkLimit : ℕ) : CommandExecutionContext S C P where
  commandLimit := max commandLimit 1
  forkLimit := forkLimit
  queueLimit := maxCommandQueueDepth
  commandQuota := max commandLimit 1
  queueOverflow := false
  commandQueue := []
  newTopCommands := []
  suspension := none
  currentFrameDepth := 0
  nextId := 0
  running := []
  executed := []
  cancelled := []
  ended := []
  charged := 0

def cancelCommandQueue : CommandExecutionContext S C P :=
  { context with commandQueue := [], cancelled := context.cancelled ++ context.commandQueue }

def cancelNewTopCommands : CommandExecutionContext S C P :=
  { context with newTopCommands := [], cancelled := context.cancelled ++ context.newTopCommands }

def overflow : CommandExecutionContext S C P :=
  cancelCommandQueue (cancelNewTopCommands { context with queueOverflow := true })

def queueEntry (frame : Frame) (action : EntryAction S C P) : CommandExecutionContext S C P :=
  let entry := { id := context.nextId, ancestors := context.running, frame, action }
  let context := { context with nextId := context.nextId + 1 }
  let context :=
    if context.newTopCommands.length + context.commandQueue.length > context.queueLimit then
      context.overflow
    else context
  if context.queueOverflow then { context with cancelled := context.cancelled ++ [entry] }
  else { context with newTopCommands := context.newTopCommands ++ [entry] }

/-- The last one is taken and put in front until there is none. -/
def pushNewCommands : CommandExecutionContext S C P :=
  { context with
    newTopCommands := []
    commandQueue := context.newTopCommands.foldr cons context.commandQueue }

def discard (frame : Frame) : CommandExecutionContext S C P :=
  match frame.discard with
  | .all => context.cancelCommandQueue
  | .atOrAbove depth =>
    let discarded := fun entry : CommandQueueEntry S C P => decide (depth ≤ entry.frame.depth)
    { context with
      commandQueue := context.commandQueue.dropWhile discarded
      cancelled := context.cancelled ++ context.commandQueue.takeWhile discarded }

def incrementCost : CommandExecutionContext S C P :=
  { context with commandQuota := context.commandQuota - 1, charged := context.charged + 1 }

def runOperation : QueueOperation S C P → CommandExecutionContext S C P
  | .queue frame action => context.queueEntry frame action
  | .discard frame => context.discard frame
  | .incrementCost => context.incrementCost
  | .handleError _ _ _ => context

def createTopFrame : Frame :=
  if context.currentFrameDepth = 0 then { depth := 0, discard := .all }
  else
    let depth := context.currentFrameDepth + 1
    { depth, discard := .atOrAbove depth }

def queueInitialCommand (chain : ContextChain C) (source : S) : CommandExecutionContext S C P :=
  context.queueEntry context.createTopFrame (.buildContexts chain source [source] ⟨false, false⟩)

def operations (time forkLimit : ℕ) (frame : Frame) :
    EntryAction S C P → List (QueueOperation S C P)
  | .buildContexts chain originalSource sources modifiers =>
    world.buildContexts time forkLimit frame chain.executor originalSource chain.modifyStages
      sources modifiers
  | .executeContinuation chain sources modifiers =>
    CommandWorld.executeContinuation frame chain sources modifiers
  | .execute chain source modifiers => world.executeCommand time frame chain source modifiers
  | .commandResult source modifiers error =>
    CommandWorld.completeCommandResult source modifiers error
  | .fallthrough => [.discard frame]
  | .other action => world.runOther time action frame
  | .suspend _ | .suspensionResume _ => []

/-- Nothing is returned if a second suspension would be activated. -/
def execute (frame : Frame) (path : List ℕ) :
    EntryAction S C P → Option (CommandExecutionContext S C P)
  | .suspend suspension =>
    if context.suspension.isSome then none
    else some { context with suspension := some { frame, suspension, path } }
  | .suspensionResume action => execute frame path action
  | action =>
    some ((operations world context.executed.length context.forkLimit frame action).foldl
      runOperation context)

/-- The first entry is taken, and the rest is left. -/
def start (entry : CommandQueueEntry S C P) (rest : List (CommandQueueEntry S C P)) :
    CommandExecutionContext S C P :=
  { context with
    commandQueue := rest
    currentFrameDepth := entry.frame.depth
    running := entry.path
    executed := context.executed ++ [(entry, context.charged)] }

def finish : CommandExecutionContext S C P :=
  { context with currentFrameDepth := 0, running := [] }

/-- The rounds of `run`, until it stops or is not watched any more. -/
def runRounds : ℕ → CommandExecutionContext S C P →
    Option (CommandExecutionContext S C P × Option ExecutionStop)
  | 0, context => some (context, none)
  | rounds + 1, context =>
    if context.commandQuota = 0 ∧
        !(context.commandQueue.head?.any fun entry => entry.action.runsAfterCommandLimit) then
      some (context.finish, some .commandLimit)
    else
      match context.commandQueue with
      | [] => some (context.finish, some .completed)
      | entry :: rest => do
        let context ← (context.start entry rest).execute world entry.frame entry.path entry.action
        if context.queueOverflow then some (context.finish, some .queueOverflow)
        else if context.suspension.isSome then some (context.finish, some .suspended)
        else runRounds rounds context.pushNewCommands

def run (rounds : ℕ) : Option (CommandExecutionContext S C P × Option ExecutionStop) :=
  if context.suspension.isSome then some (context, some .suspended)
  else if context.queueOverflow then some (context, some .queueOverflow)
  else runRounds world rounds context.pushNewCommands

/-- The suspension is taken out. -/
def endSuspension (suspensionEnd : SuspensionEnd) : CommandExecutionContext S C P :=
  { context with
    suspension := none
    ended := context.ended ++ context.suspension.toList.map (·, suspensionEnd) }

/-- The action that the suspension leads to is queued in its frame. -/
def queueResume (active : ActiveSuspension P) : CommandExecutionContext S C P :=
  let taken := { context.endSuspension .resumed with running := active.path }
  { taken.queueEntry active.frame
      (.suspensionResume (world.resume context.executed.length active.suspension)) with
    running := [] }

def pollSuspension (ready : Bool) (rounds : ℕ) :
    Option (CommandExecutionContext S C P × Option ExecutionStop) :=
  match context.suspension with
  | none => context.run world rounds
  | some active =>
    if ready then (context.queueResume world active).run world rounds
    else some (context, some .suspended)

def cancel : CommandExecutionContext S C P :=
  { cancelNewTopCommands (cancelCommandQueue (context.endSuspension .cancelled)) with
    queueOverflow := false
    currentFrameDepth := 0 }

def call : ExecutionCall S C → Option (CommandExecutionContext S C P)
  | .queueInitialCommand chain source => some (context.queueInitialCommand chain source)
  | .run rounds => (context.run world rounds).map Prod.fst
  | .pollSuspension ready rounds => (context.pollSuspension world ready rounds).map Prod.fst
  | .cancel => some context.cancel

def runCalls (calls : List (ExecutionCall S C)) : Option (CommandExecutionContext S C P) :=
  calls.foldlM (fun context => context.call world) context

end CommandExecutionContext

end Steel
