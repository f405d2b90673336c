import Mathlib.Algebra.GroupWithZero.Nat
import Steel.Utils.Traversal

/-!
# The traversal from neighbor to neighbor

A node that is taken from the queue is at the depth of the shortest walk to it through accepted
nodes. Whether a node is accepted is known when it is processed, so walks are over any set of nodes
that agrees with the calls so far, and the calls only grow.
-/

namespace Steel

open List

namespace Traversal

section Walks

variable (neighborProvider : BlockPos → List BlockPos) (accepted : BlockPos → Prop)
  (startPos : BlockPos)

/-- A walk of some length, where all nodes before the last are accepted. -/
inductive Reached : ℕ → BlockPos → Prop where
  | start : Reached 0 startPos
  | step {depth : ℕ} {pos next : BlockPos} (h : Reached depth pos) (haccepted : accepted pos)
      (hnext : next ∈ neighborProvider pos) : Reached (depth + 1) next

end Walks

variable {S : Type} {neighborProvider : BlockPos → List BlockPos} {accepted : BlockPos → Prop}
  {startPos : BlockPos} {maxDepth maxCount : ℤ}
  {nodeProcessor : S → BlockPos → TraversalNodeStatus × S} {traversal : Traversal S}

/-- The accepted nodes are those of the calls that have been accepted. -/
def Agrees (accepted : BlockPos → Prop) (traversal : Traversal S) : Prop :=
  ∀ pos depth status, (pos, depth, status) ∈ traversal.calls → (accepted pos ↔ status = .accept)

/-- A node has been visited when it has been processed, and that happens once. -/
structure Recorded (traversal : Traversal S) : Prop where
  visited : ∀ pos, pos ∈ traversal.visited ↔ ∃ depth status, (pos, depth, status) ∈ traversal.calls
  nodup : (traversal.calls.map Prod.fst).Nodup
  count : traversal.count = traversal.calls.countP fun call => call.2.2 = .accept

/-- The calls are in the order of the depths, which are the lengths of shortest walks. -/
structure Ordered (neighborProvider : BlockPos → List BlockPos) (startPos : BlockPos)
    (maxDepth : ℤ) (accepted : BlockPos → Prop) (traversal : Traversal S) : Prop where
  sorted : traversal.calls.Pairwise fun call later => call.2.1 ≤ later.2.1
  called : ∀ call ∈ traversal.calls,
    IsLeast { depth | Reached neighborProvider accepted startPos depth call.1 } call.2.1 ∧
      call.2.1 ≤ max maxDepth 0

/-- What is still to be done is in the queue. -/
structure Searched (neighborProvider : BlockPos → List BlockPos) (startPos : BlockPos)
    (maxDepth : ℤ) (accepted : BlockPos → Prop) (traversal : Traversal S) : Prop
    extends Ordered neighborProvider startPos maxDepth accepted traversal where
  before : ∀ call ∈ traversal.calls, ∀ node ∈ traversal.nodes, call.2.1 ≤ node.2
  queue : traversal.nodes.Pairwise fun node later => node.2 ≤ later.2 ∧ later.2 ≤ node.2 + 1
  queued : ∀ node ∈ traversal.nodes, Reached neighborProvider accepted startPos node.2 node.1 ∧
    node.2 ≤ max maxDepth 0
  first : startPos ∈ traversal.visited ∨ (startPos, 0) ∈ traversal.nodes
  closed : ∀ pos depth, (pos, depth, .accept) ∈ traversal.calls → depth < maxDepth →
    ∀ next ∈ neighborProvider pos, next ∈ traversal.visited ∨ (next, depth + 1) ∈ traversal.nodes

/-- A walk that is no longer than what is queued ends at a node that is known. -/
theorem Searched.known (h : Searched neighborProvider startPos maxDepth accepted traversal)
    (hrecorded : Recorded traversal) (hagrees : Agrees accepted traversal) {depth : ℕ}
    {pos : BlockPos} (hreached : Reached neighborProvider accepted startPos depth pos)
    (hqueue : ∀ node ∈ traversal.nodes, depth ≤ node.2) (hdepth : depth ≤ max maxDepth 0) :
    pos ∈ traversal.visited ∨ ∃ less ≤ depth, (pos, less) ∈ traversal.nodes := by
  induction hreached with
  | start => exact h.first.imp_right fun hfirst => ⟨0, le_rfl, hfirst⟩
  | @step depth pos next hwalk haccepted hnext ih =>
    have hvisited := ih (fun node hnode => Nat.le_of_succ_le (hqueue node hnode)) (by omega)
    obtain hvisited | ⟨less, hless, hnode⟩ := hvisited
    · obtain ⟨found, status, hcall⟩ := (hrecorded.visited pos).mp hvisited
      obtain rfl := (hagrees pos found status hcall).mp haccepted
      have hfound : found ≤ depth := (h.called _ hcall).1.2 hwalk
      refine (h.closed pos found hcall (by omega) next hnext).imp_right fun hnode => ?_
      exact ⟨found + 1, Nat.succ_le_succ hfound, hnode⟩
    · have hlater := hqueue _ hnode
      dsimp only at hlater
      omega

/-! ### One round -/

variable {pos : BlockPos} {depth : ℕ} {nodes : List (BlockPos × ℕ)} {status : TraversalNodeStatus}
  {environment : S} {count : ℤ}

def processed (traversal : Traversal S) (pos : BlockPos) (depth : ℕ) (status : TraversalNodeStatus)
    (environment : S) (count : ℤ) (nodes : List (BlockPos × ℕ)) : Traversal S :=
  { nodes
    visited := insert pos traversal.visited
    count
    environment
    calls := traversal.calls ++ [(pos, depth, status)] }

def newNodes (neighborProvider : BlockPos → List BlockPos) (maxDepth : ℤ) (pos : BlockPos)
    (depth : ℕ) (status : TraversalNodeStatus) : List (BlockPos × ℕ) :=
  if status = .accept ∧ depth < maxDepth then
    (neighborProvider pos).map fun next => (next, depth + 1)
  else []

def newCount (count : ℤ) (status : TraversalNodeStatus) : ℤ :=
  if status = .accept then count + 1 else count

/-- Every round leaves, drops a node that has been visited, or processes a node. -/
theorem round_cases (traversal : Traversal S) :
    (traversal.nodes = [] ∧
      traversal.round maxDepth maxCount neighborProvider nodeProcessor = .leave traversal) ∨
    ∃ pos depth nodes, traversal.nodes = (pos, depth) :: nodes ∧
      ((pos ∈ traversal.visited ∧
        traversal.round maxDepth maxCount neighborProvider nodeProcessor =
          .again { traversal with nodes }) ∨
      (pos ∉ traversal.visited ∧ ∃ status environment,
        let called := traversal.processed pos depth status environment
          (newCount traversal.count status)
        (status = .stop ∨ status = .accept ∧ maxCount ≤ traversal.count + 1) ∧
          traversal.round maxDepth maxCount neighborProvider nodeProcessor =
            .leave (called nodes) ∨
        (status = .skip ∨ status = .accept ∧ traversal.count + 1 < maxCount) ∧
          traversal.round maxDepth maxCount neighborProvider nodeProcessor =
            .again (called (nodes ++ newNodes neighborProvider maxDepth pos depth status)))) := by
  cases hnodes : traversal.nodes with
  | nil => exact .inl ⟨rfl, by simp only [round, hnodes]⟩
  | cons node nodes =>
    obtain ⟨pos, depth⟩ := node
    refine .inr ⟨pos, depth, nodes, rfl, ?_⟩
    simp only [round, hnodes]
    by_cases hvisited : pos ∈ traversal.visited
    · exact .inl ⟨hvisited, if_pos hvisited⟩
    · refine .inr ⟨hvisited, (nodeProcessor traversal.environment pos).1,
        (nodeProcessor traversal.environment pos).2, ?_⟩
      rw [if_neg hvisited]
      cases hstatus : (nodeProcessor traversal.environment pos).1 with
      | skip => exact .inr ⟨.inl rfl, by simp [processed, newCount, newNodes]⟩
      | stop => exact .inl ⟨.inl rfl, by simp [processed, newCount]⟩
      | accept =>
        by_cases hlimit : maxCount ≤ traversal.count + 1
        · exact .inl ⟨.inr ⟨rfl, hlimit⟩, by simp [processed, newCount, hlimit]⟩
        · refine .inr ⟨.inr ⟨rfl, not_le.mp hlimit⟩, ?_⟩
          by_cases hdepth : depth < maxDepth
          · simp [processed, newCount, newNodes, hlimit, hdepth]
          · simp [processed, newCount, newNodes, hlimit, hdepth]

theorem Recorded.drop (h : Recorded traversal) (nodes : List (BlockPos × ℕ)) :
    Recorded { traversal with nodes } :=
  ⟨h.visited, h.nodup, h.count⟩

theorem Recorded.processed (h : Recorded traversal) (hpos : pos ∉ traversal.visited) :
    Recorded (traversal.processed pos depth status environment (newCount traversal.count status)
      nodes) := by
  refine ⟨fun other => ?_, ?_, ?_⟩
  · simp only [Traversal.processed, Finset.mem_insert, h.visited, mem_append, mem_singleton,
      Prod.mk.injEq]
    constructor
    · rintro (rfl | ⟨depth', status', hcall⟩)
      · exact ⟨depth, status, .inr ⟨rfl, rfl, rfl⟩⟩
      · exact ⟨depth', status', .inl hcall⟩
    · rintro ⟨depth', status', hcall | ⟨rfl, -, -⟩⟩
      · exact .inr ⟨depth', status', hcall⟩
      · exact .inl rfl
  · simp only [Traversal.processed, map_append, map_cons, map_nil]
    refine h.nodup.append (nodup_singleton pos) ?_
    rw [disjoint_singleton]
    intro hmem
    obtain ⟨⟨other, depth', status'⟩, hcall, rfl⟩ := mem_map.mp hmem
    exact hpos ((h.visited other).mpr ⟨depth', status', hcall⟩)
  · simp only [Traversal.processed, countP_append, countP_singleton, newCount, h.count,
      decide_eq_true_eq]
    split_ifs
    · rfl
    · rfl

theorem mem_nodes_of_mem_tail (hnodes : traversal.nodes = (pos, depth) :: nodes) :
    ∀ node ∈ nodes, node ∈ traversal.nodes := by
  intro node hnode
  rw [hnodes]
  exact mem_cons_of_mem _ hnode

/-- What is visited or queued is still known when the front of the queue has been visited. -/
theorem known_of_visited {visited : Finset BlockPos} {others : List (BlockPos × ℕ)}
    (hnodes : traversal.nodes = (pos, depth) :: nodes) (hpos : pos ∈ visited)
    (hvisited : traversal.visited ⊆ visited) (hothers : nodes ⊆ others) {other : BlockPos}
    {depth' : ℕ} (hother : other ∈ traversal.visited ∨ (other, depth') ∈ traversal.nodes) :
    other ∈ visited ∨ (other, depth') ∈ others := by
  rw [hnodes, mem_cons, Prod.mk.injEq] at hother
  obtain hother | ⟨rfl, -⟩ | hnode := hother
  · exact .inl (hvisited hother)
  · exact .inl hpos
  · exact .inr (hothers hnode)

theorem Searched.drop (h : Searched neighborProvider startPos maxDepth accepted traversal)
    (hnodes : traversal.nodes = (pos, depth) :: nodes) (hpos : pos ∈ traversal.visited) :
    Searched neighborProvider startPos maxDepth accepted { traversal with nodes } := by
  have hsub := mem_nodes_of_mem_tail hnodes
  have hknown : ∀ other depth', other ∈ traversal.visited ∨ (other, depth') ∈ traversal.nodes →
      other ∈ traversal.visited ∨ (other, depth') ∈ nodes := fun other depth' =>
    known_of_visited hnodes hpos (Finset.Subset.refl _) (List.Subset.refl _)
  refine ⟨⟨h.sorted, h.called⟩,
    fun call hcall node hnode => h.before call hcall node (hsub node hnode),
    ?_, fun node hnode => h.queued node (hsub node hnode), hknown _ _ h.first,
    fun pos depth hcall hdepth next hnext =>
      hknown _ _ (h.closed pos depth hcall hdepth next hnext)⟩
  have hqueue := h.queue
  rw [hnodes] at hqueue
  exact hqueue.of_cons

theorem Agrees.before {queue : List (BlockPos × ℕ)}
    (h : Agrees accepted (traversal.processed pos depth status environment count queue)) :
    Agrees accepted traversal :=
  fun pos depth status hcall => h pos depth status (mem_append_left _ hcall)

theorem mem_newNodes {node : BlockPos × ℕ} :
    node ∈ newNodes neighborProvider maxDepth pos depth status ↔
      (status = .accept ∧ depth < maxDepth) ∧ node.1 ∈ neighborProvider pos ∧
        node.2 = depth + 1 := by
  rw [newNodes]
  split_ifs with hpush
  · rw [mem_map]
    constructor
    · rintro ⟨next, hnext, rfl⟩
      exact ⟨hpush, hnext, rfl⟩
    · rintro ⟨-, hnext, hdepth⟩
      exact ⟨node.1, hnext, Prod.ext rfl hdepth.symm⟩
  · simp only [not_mem_nil, false_iff]
    exact fun hnode => hpush hnode.1

section Processed

variable (h : Searched neighborProvider startPos maxDepth accepted traversal)
  (hnodes : traversal.nodes = (pos, depth) :: nodes)

include h hnodes

/-- The node at the front of the queue has the least depth, and the others at most one more. -/
theorem Searched.front : ∀ node ∈ traversal.nodes, depth ≤ node.2 ∧ node.2 ≤ depth + 1 := by
  have hqueue := h.queue
  rw [hnodes, pairwise_cons] at hqueue
  intro node hnode
  rw [hnodes] at hnode
  obtain rfl | hnode := mem_cons.mp hnode
  · exact ⟨le_rfl, Nat.le_succ depth⟩
  · exact hqueue.1 node hnode

theorem Searched.ordered_processed (hrecorded : Recorded traversal)
    (hagrees : Agrees accepted traversal) (hpos : pos ∉ traversal.visited)
    (queue : List (BlockPos × ℕ)) :
    Ordered neighborProvider startPos maxDepth accepted
      (traversal.processed pos depth status environment count queue) := by
  have hfront := h.front hnodes
  have hhead : (pos, depth) ∈ traversal.nodes := by
    rw [hnodes]
    exact mem_cons_self
  refine ⟨?_, fun call hcall => ?_⟩
  · refine pairwise_append.mpr ⟨h.sorted, pairwise_singleton _ _, fun call hcall later hlater => ?_⟩
    obtain rfl := mem_singleton.mp hlater
    exact h.before call hcall _ hhead
  · obtain hcall | hcall := mem_append.mp hcall
    · exact h.called call hcall
    · obtain rfl := mem_singleton.mp hcall
      refine ⟨⟨(h.queued _ hhead).1, fun other hother => ?_⟩, (h.queued _ hhead).2⟩
      -- A shorter walk would end at a node that is before this one in the queue.
      by_contra hless
      have hless : other < depth := not_le.mp hless
      have hdepth := (h.queued _ hhead).2
      dsimp only at hdepth
      obtain hvisited | ⟨less, hle, hnode⟩ := h.known hrecorded hagrees hother
        (fun node hnode => hless.le.trans (hfront node hnode).1) (by omega)
      · exact hpos hvisited
      · have hleast := (hfront _ hnode).1
        dsimp only at hleast
        omega

/-- The nodes that are queued next are one deeper than the node at the front was. -/
theorem Searched.processed (hrecorded : Recorded traversal) (hpos : pos ∉ traversal.visited)
    (hagrees : Agrees accepted (traversal.processed pos depth status environment count
      (nodes ++ newNodes neighborProvider maxDepth pos depth status))) :
    Searched neighborProvider startPos maxDepth accepted
      (traversal.processed pos depth status environment count
        (nodes ++ newNodes neighborProvider maxDepth pos depth status)) := by
  have hagreesBefore : Agrees accepted traversal := hagrees.before
  have haccepted : accepted pos ↔ status = .accept :=
    hagrees pos depth status (mem_append_right _ mem_cons_self)
  have hhead : (pos, depth) ∈ traversal.nodes := by
    rw [hnodes]
    exact mem_cons_self
  have hsub := mem_nodes_of_mem_tail hnodes
  have hfront : ∀ node ∈ nodes, depth ≤ node.2 ∧ node.2 ≤ depth + 1 :=
    fun node hnode => h.front hnodes node (hsub node hnode)
  have hknown : ∀ other depth', other ∈ traversal.visited ∨ (other, depth') ∈ traversal.nodes →
      other ∈ insert pos traversal.visited ∨
        (other, depth') ∈ nodes ++ newNodes neighborProvider maxDepth pos depth status :=
    fun other depth' => known_of_visited hnodes (Finset.mem_insert_self _ _)
      (Finset.subset_insert _ _) (subset_append_left _ _)
  refine ⟨h.ordered_processed hnodes hrecorded hagreesBefore hpos _,
    fun call hcall node hnode => ?_,
    ?_, fun node hnode => ?_, hknown _ _ h.first, fun called depth' hcall hless next hnext => ?_⟩
  · have hle : call.2.1 ≤ depth := by
      obtain hcall | hcall := mem_append.mp hcall
      · exact h.before call hcall _ hhead
      · obtain rfl := mem_singleton.mp hcall
        exact le_rfl
    obtain hnode | hnode := mem_append.mp hnode
    · exact hle.trans (hfront node hnode).1
    · have hdeeper := (mem_newNodes.mp hnode).2.2
      omega
  · have hqueue := h.queue
    rw [hnodes] at hqueue
    refine pairwise_append.mpr ⟨hqueue.of_cons, ?_, fun node hnode later hlater => ?_⟩
    · refine pairwise_of_forall_mem_list fun node hnode later hlater => ?_
      have hnode' := (mem_newNodes.mp hnode).2.2
      have hlater' := (mem_newNodes.mp hlater).2.2
      omega
    · have hnode' := hfront node hnode
      have hlater' := (mem_newNodes.mp hlater).2.2
      omega
  · obtain hnode | hnode := mem_append.mp hnode
    · exact h.queued node (hsub node hnode)
    · obtain ⟨⟨hstatus, hless⟩, hnext, hdeeper⟩ := mem_newNodes.mp hnode
      rw [hdeeper]
      exact ⟨(h.queued _ hhead).1.step (haccepted.mpr hstatus) hnext, by omega⟩
  · obtain hcall | hcall := mem_append.mp hcall
    · exact hknown _ _ (h.closed called depth' hcall hless next hnext)
    · obtain ⟨rfl, rfl, rfl⟩ := Prod.mk.inj (mem_singleton.mp hcall)
      exact .inr (mem_append_right _ (mem_newNodes.mpr ⟨⟨rfl, hless⟩, hnext, rfl⟩))

end Processed

/-! ### The whole traversal -/

/-- The number of walks from a node, of at most some length. -/
def treeSize (neighborProvider : BlockPos → List BlockPos) : ℕ → BlockPos → ℕ
  | 0, _ => 1
  | length + 1, pos => 1 + ((neighborProvider pos).map (treeSize neighborProvider length)).sum

/-- A bound for the rounds that the queue can still take. -/
def weight (neighborProvider : BlockPos → List BlockPos) (maxDepth : ℤ)
    (nodes : List (BlockPos × ℕ)) : ℕ :=
  (nodes.map fun node => treeSize neighborProvider (maxDepth - node.2).toNat node.1).sum

theorem weight_append (nodes added : List (BlockPos × ℕ)) :
    weight neighborProvider maxDepth (nodes ++ added) =
      weight neighborProvider maxDepth nodes + weight neighborProvider maxDepth added := by
  rw [weight, map_append, sum_append]
  rfl

theorem treeSize_pos (length : ℕ) (pos : BlockPos) : 0 < treeSize neighborProvider length pos := by
  cases length with
  | zero => exact Nat.one_pos
  | succ length => exact Nat.add_pos_left Nat.one_pos _

theorem weight_newNodes : weight neighborProvider maxDepth
      (newNodes neighborProvider maxDepth pos depth status) <
    treeSize neighborProvider (maxDepth - depth).toNat pos := by
  rw [newNodes]
  split_ifs with hpush
  · obtain ⟨length, hlength⟩ : ∃ length, (maxDepth - depth).toNat = length + 1 :=
      ⟨(maxDepth - depth).toNat - 1, by omega⟩
    have hrest : (maxDepth - (depth + 1 : ℕ)).toNat = length := by omega
    rw [hlength, treeSize, weight, map_map]
    simp only [Function.comp_def, hrest]
    exact Nat.lt_add_of_pos_left Nat.one_pos
  · exact treeSize_pos _ _

/-- The traversal has not been stopped. -/
structure Running (neighborProvider : BlockPos → List BlockPos) (startPos : BlockPos)
    (maxDepth maxCount : ℤ) (traversal : Traversal S) : Prop where
  recorded : Recorded traversal
  limit : traversal.count = 0 ∨ traversal.count < maxCount
  searched : ∀ accepted, Agrees accepted traversal →
    Searched neighborProvider startPos maxDepth accepted traversal

/-- The traversal is over, because it was stopped or because everything has been visited. -/
structure Finished (neighborProvider : BlockPos → List BlockPos) (startPos : BlockPos)
    (maxDepth maxCount : ℤ) (traversal : Traversal S) : Prop where
  recorded : Recorded traversal
  ordered : ∀ accepted, Agrees accepted traversal →
    Ordered neighborProvider startPos maxDepth accepted traversal
  count_le : traversal.count ≤ max maxCount 1
  complete : (∃ call ∈ traversal.calls, call.2.2 = .stop) ∨
    (0 < traversal.count ∧ maxCount ≤ traversal.count) ∨
    ∀ accepted, Agrees accepted traversal → ∀ (depth : ℕ) (pos : BlockPos),
      Reached neighborProvider accepted startPos depth pos → depth ≤ max maxDepth 0 →
        pos ∈ traversal.visited

theorem Recorded.count_nonneg (h : Recorded traversal) : 0 ≤ traversal.count := by
  rw [h.count]
  exact Int.natCast_nonneg _

theorem running_start (startPos : BlockPos) (environment : S) :
    Running neighborProvider startPos maxDepth maxCount
      { nodes := [(startPos, 0)], visited := ∅, count := 0, environment, calls := [] } := by
  refine ⟨⟨fun pos => ?_, nodup_nil, rfl⟩, .inl rfl, fun accepted _ => ?_⟩
  · simp
  · refine ⟨⟨Pairwise.nil, fun _ hcall => absurd hcall not_mem_nil⟩,
      fun _ hcall => absurd hcall not_mem_nil, pairwise_singleton _ _, fun node hnode => ?_,
      .inr mem_cons_self, fun _ _ hcall => absurd hcall not_mem_nil⟩
    obtain rfl := mem_singleton.mp hnode
    exact ⟨.start, le_max_right _ _⟩

/-- A round goes on with less to do, or ends the traversal. -/
theorem Running.round (nodeProcessor : S → BlockPos → TraversalNodeStatus × S)
    (h : Running neighborProvider startPos maxDepth maxCount traversal) :
    (∃ next, (some ∘ Traversal.round maxDepth maxCount neighborProvider nodeProcessor) traversal =
        some (.again next) ∧ Running neighborProvider startPos maxDepth maxCount next ∧
      weight neighborProvider maxDepth next.nodes <
        weight neighborProvider maxDepth traversal.nodes) ∨
    ∃ result, (some ∘ Traversal.round maxDepth maxCount neighborProvider nodeProcessor) traversal =
        some (.leave result) ∧ Finished neighborProvider startPos maxDepth maxCount result := by
  have hnonneg := h.recorded.count_nonneg
  have hlimit := h.limit
  obtain ⟨hnodes, hround⟩ | ⟨pos, depth, nodes, hnodes, hcases⟩ := round_cases traversal
  · refine .inr ⟨traversal, congrArg some hround, h.recorded,
      fun accepted hagrees => (h.searched accepted hagrees).toOrdered, by omega, .inr (.inr ?_)⟩
    intro accepted hagrees depth pos hreached hdepth
    refine ((h.searched accepted hagrees).known h.recorded hagrees hreached ?_
      hdepth).resolve_right ?_
    · rw [hnodes]
      exact fun _ hmem => absurd hmem not_mem_nil
    · rw [hnodes]
      rintro ⟨_, -, hmem⟩
      cases hmem
  · have hweight : weight neighborProvider maxDepth traversal.nodes =
        treeSize neighborProvider (maxDepth - depth).toNat pos +
          weight neighborProvider maxDepth nodes := by
      rw [hnodes]
      rfl
    have hpositive : 0 < treeSize neighborProvider (maxDepth - depth).toNat pos := treeSize_pos _ _
    obtain ⟨hvisited, hround⟩ | ⟨hpos, status, environment, ⟨hstop, hround⟩ | ⟨hrunning, hround⟩⟩ :=
      hcases
    · refine .inl ⟨_, congrArg some hround, ⟨h.recorded.drop nodes, h.limit, fun accepted hagrees =>
        (h.searched accepted hagrees).drop hnodes hvisited⟩, ?_⟩
      rw [hweight]
      exact Nat.lt_add_of_pos_left hpositive
    · refine .inr ⟨_, congrArg some hround, h.recorded.processed hpos,
        fun accepted hagrees => ?_, ?_, ?_⟩
      · have hagreesBefore : Agrees accepted traversal := hagrees.before
        exact (h.searched accepted hagreesBefore).ordered_processed hnodes h.recorded hagreesBefore
          hpos nodes
      · dsimp only [processed, newCount]
        obtain rfl | ⟨rfl, -⟩ := hstop
        · rw [if_neg (by decide)]
          omega
        · rw [if_pos rfl]
          omega
      · obtain rfl | ⟨rfl, hmax⟩ := hstop
        · exact .inl ⟨_, mem_append_right _ mem_cons_self, rfl⟩
        · refine .inr (.inl ?_)
          dsimp only [processed, newCount]
          rw [if_pos rfl]
          omega
    · refine .inl ⟨_, congrArg some hround, ⟨h.recorded.processed hpos, ?_, fun accepted hagrees =>
        (h.searched accepted hagrees.before).processed hnodes h.recorded hpos hagrees⟩, ?_⟩
      · dsimp only [processed, newCount]
        obtain rfl | ⟨rfl, hless⟩ := hrunning
        · rw [if_neg (by decide)]
          exact hlimit
        · rw [if_pos rfl]
          exact .inr hless
      · have hadded : weight neighborProvider maxDepth (newNodes neighborProvider maxDepth pos depth
            status) < _ := weight_newNodes
        dsimp only [processed]
        rw [weight_append, hweight]
        omega

theorem Recorded.agrees (h : Recorded traversal) :
    Agrees (fun pos => ∃ depth, (pos, depth, .accept) ∈ traversal.calls) traversal := by
  intro pos depth status hcall
  constructor
  · rintro ⟨depth', hcall'⟩
    have hsame := inj_on_of_nodup_map h.nodup hcall hcall' rfl
    exact congrArg (fun call => call.2.2) hsame
  · rintro rfl
    exact ⟨depth, hcall⟩

/-- The traversal ends. It processes no node twice, in the order of their depths, and only nodes
that accepted nodes lead to. Unless the processor or the limit has stopped it, it processes all of
those, and it returns how many have been accepted. -/
theorem breadthFirstTraversal_finished (startPos : BlockPos) (maxDepth maxCount : ℤ)
    (neighborProvider : BlockPos → List BlockPos)
    (nodeProcessor : S → BlockPos → TraversalNodeStatus × S) (environment : S) :
    ∃ fuel result, startPos.breadthFirstTraversal maxDepth maxCount neighborProvider nodeProcessor
        environment fuel = some result ∧
      let accepted := fun pos => ∃ depth, (pos, depth, .accept) ∈ result.calls
      (result.calls.map Prod.fst).Nodup ∧
      (result.calls.Pairwise fun call later => call.2.1 ≤ later.2.1) ∧
      (∀ call ∈ result.calls,
        IsLeast { depth | Reached neighborProvider accepted startPos depth call.1 } call.2.1 ∧
          call.2.1 ≤ max maxDepth 0) ∧
      ((∃ call ∈ result.calls, call.2.2 = .stop) ∨ (0 < result.count ∧ maxCount ≤ result.count) ∨
        ∀ (depth : ℕ) (pos : BlockPos), Reached neighborProvider accepted startPos depth pos →
          depth ≤ max maxDepth 0 → pos ∈ result.calls.map Prod.fst) ∧
      result.count = result.calls.countP (fun call => call.2.2 = .accept) ∧
      result.count ≤ max maxCount 1 := by
  obtain ⟨fuel, result, hloop, hfinished⟩ := loop_leaves
    (Running neighborProvider startPos maxDepth maxCount)
    (Finished neighborProvider startPos maxDepth maxCount) (· < ·) wellFounded_lt
    (fun traversal => weight neighborProvider maxDepth traversal.nodes)
    (fun traversal htraversal => htraversal.round nodeProcessor)
    { nodes := [(startPos, 0)], visited := ∅, count := 0, environment, calls := [] }
    (running_start startPos environment)
  have hagrees := hfinished.recorded.agrees
  have hordered := hfinished.ordered _ hagrees
  refine ⟨fuel, result, hloop, hfinished.recorded.nodup, hordered.sorted, hordered.called, ?_,
    hfinished.recorded.count, hfinished.count_le⟩
  refine hfinished.complete.imp_right (Or.imp_right fun hcomplete depth pos hreached hdepth => ?_)
  obtain ⟨depth', status, hcall⟩ :=
    (hfinished.recorded.visited pos).mp (hcomplete _ hagrees depth pos hreached hdepth)
  exact mem_map.mpr ⟨_, hcall, rfl⟩

/-- A limit of 0 is exceeded, as it is looked at after a node has been counted. -/
theorem breadthFirstTraversal_exceeds :
    (BlockPos.breadthFirstTraversal ⟨0, 0, 0⟩ 0 0 (fun _ => [])
      (fun (_ : Unit) _ => (.accept, ())) () 1).map Traversal.count = some 1 := by
  decide

end Traversal

end Steel
