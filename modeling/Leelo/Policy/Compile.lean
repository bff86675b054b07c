import Leelo.Core.Exec
import Leelo.Policy.Tree

/-!
# The policy compiler, its certificate and admitted policies

`compileNode` threads a node budget, two identity sets and the growing plan
through one traversal. `checkSubtree` re-walks the tree with its own depth
constant and cursors. Compilation succeeds exactly on well-formed trees and its
output is the postorder layout.
-/

namespace Leelo.Policy

open Leelo.Core

/-- The largest number of nodes, the root's pair included. -/
def maxNodes : Nat := 31
/-- The greatest depth. -/
def maxDepth : Nat := 4

/-- The protection mode of a policy. -/
inductive Mode where
  | networkBound
  | attested
  deriving DecidableEq, Repr

/-- Errors of policy construction, recovery and sessions. -/
inductive PolicyError where
  | tooManyNodes
  | tooDeep
  | duplicateNodeId (id : UInt8)
  | duplicateProvider
  | invalidThreshold
  | invalidCompilation
  | envelopeNotAuthenticated
  | unknownNetworkLeaf (id : UInt8)
  | duplicateResponse (id : UInt8)
  | factorsNotSatisfied
  | rootNotAuthenticated
  | alreadyReleased
  | sharing (error : Sss.Error)
  deriving DecidableEq, Repr

/-- A compiled plan: postorder gates and the leaf identities in source order. -/
structure NetworkPlan where
  gates : List Gate
  leaves : List (UInt8 × ProviderId)
  deriving DecidableEq

/-- The mutable data of one compilation. -/
structure CompileState where
  count : Nat
  ids : Finset UInt8
  providers : Finset ProviderId
  plan : NetworkPlan

/-- The checks every node passes before its own form is compiled. -/
def admitNode (id : UInt8) (depth : Nat) (state : CompileState) :
    Except PolicyError CompileState :=
  if depth > maxDepth then .error .tooDeep
  else if state.count ≥ maxNodes then .error .tooManyNodes
  else if id ∈ state.ids then .error (.duplicateNodeId id)
  else .ok { state with count := state.count + 1, ids := insert id state.ids }

/-- Append a gate and return its index. -/
def pushGate (gate : Gate) (state : CompileState) : Nat × CompileState :=
  (state.plan.gates.length,
    { state with plan := { state.plan with gates := state.plan.gates ++ [gate] } })

mutual
/-- Compile one node after its children and return its gate index. -/
def compileNode : NetworkNode → Nat → CompileState → Except PolicyError (Nat × CompileState)
  | .leaf id providerId, depth, state => do
    let state ← admitNode id depth state
    if providerId ∈ state.providers then .error .duplicateProvider
    else
      let responseIndex := state.plan.leaves.length
      let state := { state with
        providers := insert providerId state.providers
        plan := { state.plan with leaves := state.plan.leaves ++ [(id, providerId)] } }
      .ok (pushGate (.leaf responseIndex) state)
  | .threshold id required children, depth, state => do
    let state ← admitNode id depth state
    if required = 0 ∨ required.toNat > children.length then .error .invalidThreshold
    else
      let (indices, state) ← compileChildren children (depth + 1) state
      .ok (pushGate (.threshold required.toNat indices) state)
/-- Compile children in order and collect their gate indices. -/
def compileChildren : List NetworkNode → Nat → CompileState →
    Except PolicyError (List Nat × CompileState)
  | [], _, state => .ok ([], state)
  | child :: children, depth, state => do
    let (index, state) ← compileNode child depth state
    let (indices, state) ← compileChildren children depth state
    .ok (index :: indices, state)
end

/-- The provider comparison loop. -/
def sameProvider (a b : ProviderId) : Bool :=
  (List.finRange 32).all fun i => a[i] == b[i]

mutual
/-- Check one subtree against a plan and return the consumed endpoints. -/
def checkSubtree (gates : List Gate) (leaves : List (UInt8 × ProviderId)) :
    NetworkNode → (gateStart leafStart depth : Nat) → Bool × Nat × Nat
  | .leaf id providerId, gateStart, leafStart, depth =>
    if depth = 0 ∨ gateStart ≥ gates.length ∨ leafStart ≥ leaves.length then
      (false, gateStart, leafStart)
    else
      match leaves[leafStart]?, gates[gateStart]? with
      | some (leafId, leafProvider), some (.leaf responseIndex) =>
        if leafId ≠ id ∨ sameProvider leafProvider providerId = false then
          (false, gateStart, leafStart)
        else if responseIndex ≠ leafStart then (false, gateStart, leafStart)
        else (true, gateStart + 1, leafStart + 1)
      | _, _ => (false, gateStart, leafStart)
  | .threshold _ required children, gateStart, leafStart, depth =>
    if depth = 0 ∨ gateStart ≥ gates.length ∨ leafStart ≥ leaves.length then
      (false, gateStart, leafStart)
    else if required = 0 ∨ required.toNat > children.length then (false, gateStart, leafStart)
    else
      match checkChildren gates leaves children gateStart leafStart (depth - 1) with
      | none => (false, gateStart, leafStart)
      | some (expected, gc, lc) =>
        match gates[gc]? with
        | some (.threshold actual edges) =>
          if actual ≠ required.toNat ∨ edges.length ≠ expected.length then
            (false, gateStart, leafStart)
          else if (edges.zip expected).any fun (edge, want) => edge != want then
            (false, gateStart, leafStart)
          else (true, gc + 1, lc)
        | _ => (false, gateStart, leafStart)
/-- The child loop of the checker: expected edges and both cursors. -/
def checkChildren (gates : List Gate) (leaves : List (UInt8 × ProviderId)) :
    List NetworkNode → (gc lc depth : Nat) → Option (List Nat × Nat × Nat)
  | [], gc, lc, _ => some ([], gc, lc)
  | child :: children, gc, lc, depth =>
    match checkSubtree gates leaves child gc lc depth with
    | (false, _, _) => none
    | (true, gc, lc) =>
      match checkChildren gates leaves children gc lc depth with
      | none => none
      | some (expected, gc', lc') => some ((gc - 1) :: expected, gc', lc')
end

/-- The certificate consumes the whole plan at three source levels. -/
def checkCompilation (node : NetworkNode) (gates : List Gate)
    (leaves : List (UInt8 × ProviderId)) : Bool :=
  let (ok, gateEnd, leafEnd) := checkSubtree gates leaves node 0 0 3
  ok && gateEnd == gates.length && leafEnd == leaves.length

/-- Compile below the implicit root, which with the mandatory TPM node counts two. -/
def compilePlan (tpmNodeId : UInt8) (network : NetworkNode) : Except PolicyError NetworkPlan := do
  let (_, state) ← compileNode network 2 ⟨2, {tpmNodeId}, ∅, ⟨[], []⟩⟩
  return state.plan

/-- An admitted policy. Its plan was compiled and certified, so no other plan
can reach a decision, sharing or recovery. -/
structure ProductionPolicy where
  mode : Mode
  tpmNodeId : UInt8
  network : NetworkNode
  plan : NetworkPlan
  /-- The plan is the compiler's output for this tree and TPM node. -/
  compiled : compilePlan tpmNodeId network = .ok plan
  /-- The certificate accepted that output. -/
  certified : checkCompilation network plan.gates plan.leaves = true

namespace ProductionPolicy

/-- Create the implicit root over the TPM and the network tree. -/
def new (mode : Mode) (tpmNodeId : UInt8) (network : NetworkNode) :
    Except PolicyError ProductionPolicy :=
  match h : compilePlan tpmNodeId network with
  | .error e => .error e
  | .ok plan =>
    if hcheck : checkCompilation network plan.gates plan.leaves = true then
      .ok ⟨mode, tpmNodeId, network, plan, h, hcheck⟩
    else .error .invalidCompilation

/-- The identifiers of the leaves. -/
def networkLeafIds (policy : ProductionPolicy) : List UInt8 :=
  policy.plan.leaves.map Prod.fst

/-- Leaf identities in the order used by sharing and envelope encoding. -/
def networkLeaves (policy : ProductionPolicy) : List (UInt8 × ProviderId) := policy.plan.leaves

end ProductionPolicy

/-- Distinct names, none of them already seen. -/
def Fresh {α : Type} (names : List α) (seen : Finset α) : Prop :=
  names.Nodup ∧ ∀ name ∈ names, name ∉ seen

theorem fresh_cons {α : Type} [DecidableEq α] {name : α} {names : List α} {seen : Finset α} :
    Fresh (name :: names) seen ↔ name ∉ seen ∧ Fresh names (insert name seen) := by
  simp only [Fresh, List.nodup_cons, List.forall_mem_cons, Finset.mem_insert, not_or]
  constructor
  · rintro ⟨⟨hname, hnodup⟩, hseen, hall⟩
    exact ⟨hseen, hnodup, fun x hx => ⟨fun he => hname (he ▸ hx), hall x hx⟩⟩
  · rintro ⟨hseen, hnodup, hall⟩
    exact ⟨⟨fun hmem => (hall name hmem).1 rfl, hnodup⟩, hseen, fun x hx => (hall x hx).2⟩

theorem fresh_append {α : Type} [DecidableEq α] {names names' : List α} {seen : Finset α} :
    Fresh (names ++ names') seen ↔ Fresh names seen ∧ Fresh names' (seen ∪ names.toFinset) := by
  induction names generalizing seen with
  | nil => simp [Fresh]
  | cons name names ih =>
    rw [List.cons_append, fresh_cons, ih, fresh_cons, and_assoc, List.toFinset_cons,
      Finset.union_insert, Finset.insert_union]

/-- The tree conditions under which one node compiles at a depth and state. -/
structure Admits (node : NetworkNode) (depth : Nat) (state : CompileState) : Prop where
  shallow : depth + node.levels ≤ maxDepth + 1
  small : state.count + node.size ≤ maxNodes
  thresholds : node.ThresholdsValid
  ids : Fresh node.ids state.ids
  providers : Fresh (node.leaves.map Prod.snd) state.providers

/-- The same conditions for a forest of siblings. -/
structure AdmitsAll (children : List NetworkNode) (depth : Nat) (state : CompileState) :
    Prop where
  shallow : depth + NetworkNode.levelsAll children ≤ maxDepth + 1
  small : state.count + NetworkNode.sizes children ≤ maxNodes
  thresholds : NetworkNode.ThresholdsValidAll children
  ids : Fresh (NetworkNode.idsAll children) state.ids
  providers : Fresh ((NetworkNode.leavesAll children).map Prod.snd) state.providers

/-- The state after a tree with the given layout data has been compiled. -/
def CompileState.extend (state : CompileState) (size : Nat) (ids : List UInt8)
    (leaves : List (UInt8 × ProviderId)) (gates : List Gate) : CompileState where
  count := state.count + size
  ids := state.ids ∪ ids.toFinset
  providers := state.providers ∪ (leaves.map Prod.snd).toFinset
  plan := ⟨state.plan.gates ++ gates, state.plan.leaves ++ leaves⟩

/-- The state after one tree. -/
def CompileState.add (state : CompileState) (node : NetworkNode) : CompileState :=
  state.extend node.size node.ids node.leaves
    (node.postorder state.plan.gates.length state.plan.leaves.length)

/-- The state after a forest. -/
def CompileState.addAll (state : CompileState) (children : List NetworkNode) : CompileState :=
  state.extend (NetworkNode.sizes children) (NetworkNode.idsAll children)
    (NetworkNode.leavesAll children)
    (NetworkNode.postorderAll state.plan.gates.length state.plan.leaves.length children)

variable {depth : Nat} {state : CompileState}

theorem admitNode_eq_ok {id : UInt8} {state' : CompileState} :
    admitNode id depth state = .ok state' ↔
      depth ≤ maxDepth ∧ state.count < maxNodes ∧ id ∉ state.ids ∧
        state' = { state with count := state.count + 1, ids := insert id state.ids } := by
  simp only [admitNode, guard_eq_ok, Except.ok.injEq, not_lt, not_le, gt_iff_lt, ge_iff_le,
    eq_comm (a := state')]

theorem admitsAll_cons {child : NetworkNode} {children : List NetworkNode} :
    AdmitsAll (child :: children) depth state ↔
      Admits child depth state ∧ AdmitsAll children depth (state.add child) := by
  constructor
  · rintro ⟨hshallow, hsmall, hthresholds, hids, hproviders⟩
    simp only [NetworkNode.levelsAll, NetworkNode.sizes, NetworkNode.ThresholdsValidAll,
      NetworkNode.idsAll, NetworkNode.leavesAll, List.map_append, fresh_append] at *
    exact ⟨⟨by omega, by omega, hthresholds.1, hids.1, hproviders.1⟩,
      ⟨by omega, by simp only [CompileState.add, CompileState.extend]; omega, hthresholds.2,
        hids.2, hproviders.2⟩⟩
  · rintro ⟨⟨hshallow, hsmall, hthresholds, hids, hproviders⟩,
      ⟨hshallow', hsmall', hthresholds', hids', hproviders'⟩⟩
    refine ⟨?_, ?_, ⟨hthresholds, hthresholds'⟩, ?_, ?_⟩
    · simp only [NetworkNode.levelsAll]
      omega
    · simp only [CompileState.add, CompileState.extend] at hsmall'
      simp only [NetworkNode.sizes]
      omega
    · rw [NetworkNode.idsAll, fresh_append]
      exact ⟨hids, hids'⟩
    · rw [NetworkNode.leavesAll, List.map_append, fresh_append]
      exact ⟨hproviders, hproviders'⟩

theorem addAll_cons (state : CompileState) (child : NetworkNode) (children : List NetworkNode) :
    state.addAll (child :: children) = (state.add child).addAll children := by
  simp only [CompileState.addAll, CompileState.add, CompileState.extend, NetworkNode.sizes,
    NetworkNode.idsAll, NetworkNode.leavesAll, NetworkNode.postorderAll, List.map_append,
    List.toFinset_append, Finset.union_assoc, List.append_assoc, List.length_append,
    NetworkNode.length_postorder, Nat.add_assoc]

/-- The leaf branch pushes exactly the layout of a leaf. -/
private theorem pushGate_leaf (id : UInt8) (providerId : ProviderId) (state : CompileState) :
    pushGate (.leaf state.plan.leaves.length)
      { count := state.count + 1
        ids := insert id state.ids
        providers := insert providerId state.providers
        plan := ⟨state.plan.gates, state.plan.leaves ++ [(id, providerId)]⟩ } =
      (state.plan.gates.length + (NetworkNode.leaf id providerId).size - 1,
        state.add (.leaf id providerId)) := by
  simp only [pushGate, CompileState.add, CompileState.extend, NetworkNode.size, NetworkNode.ids,
    NetworkNode.leaves, NetworkNode.postorder, Nat.add_sub_cancel, List.map_cons, List.map_nil,
    List.toFinset_cons, List.toFinset_nil, Finset.union_insert, Finset.union_empty]

/-- The threshold branch pushes its gate after the layout of its children. -/
private theorem pushGate_threshold (id required : UInt8) (children : List NetworkNode)
    (state : CompileState) :
    pushGate (.threshold required.toNat
        (NetworkNode.roots state.plan.gates.length children))
      (CompileState.addAll
        { state with count := state.count + 1, ids := insert id state.ids } children) =
      (state.plan.gates.length + (NetworkNode.threshold id required children).size - 1,
        state.add (.threshold id required children)) := by
  simp only [pushGate, CompileState.addAll, CompileState.add, CompileState.extend,
    NetworkNode.size, NetworkNode.ids, NetworkNode.leaves, NetworkNode.postorder,
    List.length_append, NetworkNode.length_postorderAll, List.toFinset_cons,
    Finset.union_insert, Finset.insert_union, List.append_assoc, Nat.add_assoc,
    Nat.add_comm 1]
  rfl

/-- The compiler succeeds exactly for what is admitted, and adds its layout. -/
private theorem compile_spec :
    (∀ node : NetworkNode, ∀ depth state result, compileNode node depth state = .ok result ↔
      Admits node depth state ∧
        result = (state.plan.gates.length + node.size - 1, state.add node)) ∧
    ∀ children, ∀ depth state result, depth ≤ maxDepth + 1 → state.count ≤ maxNodes →
      (compileChildren children depth state = .ok result ↔
        AdmitsAll children depth state ∧
          result = (NetworkNode.roots state.plan.gates.length children,
            state.addAll children)) := by
  refine NetworkNode.forest_induction ?leaf ?threshold ?nil ?cons
  case leaf =>
    intro id providerId depth state result
    simp only [compileNode, bind_eq_ok, admitNode_eq_ok, guard_eq_ok, Except.ok.injEq]
    constructor
    · rintro ⟨_, ⟨hdepth, hcount, hid, rfl⟩, hprovider, rfl⟩
      refine ⟨⟨?_, hcount, trivial, ?_, ?_⟩, pushGate_leaf id providerId state⟩
      · simpa only [NetworkNode.levels, Nat.add_le_add_iff_right] using hdepth
      · exact fresh_cons.mpr ⟨hid, by simp [Fresh]⟩
      · exact fresh_cons.mpr ⟨hprovider, by simp [Fresh]⟩
    · rintro ⟨⟨hshallow, hsmall, _, hids, hproviders⟩, rfl⟩
      refine ⟨_, ⟨?_, hsmall, (fresh_cons.mp hids).1, rfl⟩, (fresh_cons.mp hproviders).1,
        pushGate_leaf id providerId state⟩
      simpa only [NetworkNode.levels, Nat.add_le_add_iff_right] using hshallow
  case threshold =>
    intro id required children ih depth state result
    have hzero : required = 0 ↔ required.toNat = 0 := by
      rw [← UInt8.toNat_inj]
      rfl
    simp only [compileNode, bind_eq_ok, admitNode_eq_ok, guard_eq_ok, Except.ok.injEq, hzero]
    constructor
    · rintro ⟨_, ⟨hdepth, hcount, hid, rfl⟩, hrequired, _, hchildren, rfl⟩
      obtain ⟨⟨hshallow, hsmall, hthresholds, hids, hproviders⟩, rfl⟩ :=
        (ih _ _ _ (by omega) (by exact hcount)).mp hchildren
      refine ⟨⟨?_, ?_, ⟨by omega, by omega, hthresholds⟩, fresh_cons.mpr ⟨hid, hids⟩,
        hproviders⟩, pushGate_threshold id required children state⟩
      · simp only [NetworkNode.levels]
        omega
      · simp only [NetworkNode.size]
        simp only at hsmall
        omega
    · rintro ⟨⟨hshallow, hsmall, hthresholds, hids, hproviders⟩, rfl⟩
      simp only [NetworkNode.levels] at hshallow
      simp only [NetworkNode.size] at hsmall
      simp only [NetworkNode.ThresholdsValid] at hthresholds
      obtain ⟨hid, hids⟩ := fresh_cons.mp hids
      refine ⟨_, ⟨by omega, by omega, hid, rfl⟩, by omega, _, (ih _ _ _ (by omega) ?_).mpr
        ⟨⟨by omega, ?_, hthresholds.2.2, hids, hproviders⟩, rfl⟩,
        pushGate_threshold id required children state⟩
      · simp only
        omega
      · simp only
        omega
  case nil =>
    intro depth state result hdepth hcount
    have hadd : state.addAll [] = state := by
      simp [CompileState.addAll, CompileState.extend, NetworkNode.sizes, NetworkNode.idsAll,
        NetworkNode.leavesAll, NetworkNode.postorderAll]
    have hadmits : AdmitsAll [] depth state :=
      ⟨hdepth, hcount, trivial, by simp [Fresh, NetworkNode.idsAll],
        by simp [Fresh, NetworkNode.leavesAll]⟩
    rw [compileChildren, hadd, Except.ok.injEq, NetworkNode.roots, eq_comm]
    exact ⟨fun h => ⟨hadmits, h⟩, And.right⟩
  case cons =>
    intro child children hchild hchildren depth state result hdepth _
    simp only [compileChildren, bind_eq_ok, hchild, admitsAll_cons, addAll_cons,
      Except.ok.injEq, NetworkNode.roots]
    constructor
    · rintro ⟨_, ⟨hadmits, rfl⟩, _, hrest, rfl⟩
      obtain ⟨hadmitsAll, rfl⟩ := (hchildren _ _ _ hdepth hadmits.small).mp hrest
      refine ⟨⟨hadmits, hadmitsAll⟩, ?_⟩
      simp [CompileState.add, CompileState.extend]
    · rintro ⟨⟨hadmits, hadmitsAll⟩, rfl⟩
      refine ⟨_, ⟨hadmits, rfl⟩, _, (hchildren _ _ _ hdepth hadmits.small).mpr
        ⟨hadmitsAll, rfl⟩, ?_⟩
      simp [CompileState.add, CompileState.extend]

/-- Compilation succeeds exactly on admitted trees and yields their layout. -/
theorem compileNode_eq_ok {node : NetworkNode} {result : Nat × CompileState} :
    compileNode node depth state = .ok result ↔ Admits node depth state ∧
      result = (state.plan.gates.length + node.size - 1, state.add node) :=
  compile_spec.1 node depth state result

/-- The tree conditions of admission, with the implicit root and the TPM node counted. -/
structure NetworkNode.WellFormed (network : NetworkNode) (tpmNodeId : UInt8) : Prop where
  shallow : network.levels ≤ 3
  small : network.size ≤ maxNodes - 2
  thresholds : network.ThresholdsValid
  ids : (tpmNodeId :: network.ids).Nodup
  providers : (network.leaves.map Prod.snd).Nodup

instance (network : NetworkNode) (tpmNodeId : UInt8) :
    Decidable (network.WellFormed tpmNodeId) :=
  decidable_of_iff (network.levels ≤ 3 ∧ network.size ≤ maxNodes - 2 ∧
      network.ThresholdsValid ∧ (tpmNodeId :: network.ids).Nodup ∧
      (network.leaves.map Prod.snd).Nodup)
    ⟨fun h => ⟨h.1, h.2.1, h.2.2.1, h.2.2.2.1, h.2.2.2.2⟩,
      fun h => ⟨h.shallow, h.small, h.thresholds, h.ids, h.providers⟩⟩

theorem admits_root_iff (network : NetworkNode) (tpmNodeId : UInt8) :
    Admits network 2 ⟨2, {tpmNodeId}, ∅, ⟨[], []⟩⟩ ↔ network.WellFormed tpmNodeId := by
  have hids : Fresh network.ids {tpmNodeId} ↔ (tpmNodeId :: network.ids).Nodup := by
    simp only [Fresh, Finset.mem_singleton, List.nodup_cons]
    constructor
    · exact fun h => ⟨fun hmem => h.2 _ hmem rfl, h.1⟩
    · exact fun h => ⟨h.2, fun id hid he => h.1 (he ▸ hid)⟩
  constructor
  · rintro ⟨hshallow, hsmall, hthresholds, hfresh, hproviders⟩
    simp only [maxDepth, maxNodes] at hshallow hsmall
    exact ⟨by omega, by simp only [maxNodes]; omega, hthresholds, hids.mp hfresh, hproviders.1⟩
  · rintro ⟨hshallow, hsmall, hthresholds, hnodup, hproviders⟩
    simp only [maxNodes] at hsmall
    exact ⟨by simp only [maxDepth]; omega, by simp only [maxNodes]; omega, hthresholds,
      hids.mpr hnodup, hproviders, by simp⟩

/-- The compiler accepts exactly well-formed trees and produces their layout. -/
theorem compilePlan_eq_ok {tpmNodeId : UInt8} {network : NetworkNode} {plan : NetworkPlan} :
    compilePlan tpmNodeId network = .ok plan ↔
      network.WellFormed tpmNodeId ∧ plan = ⟨network.postorder 0 0, network.leaves⟩ := by
  simp only [compilePlan, bind_eq_ok, compileNode_eq_ok, admits_root_iff]
  constructor
  · rintro ⟨_, ⟨hwf, rfl⟩, hplan⟩
    exact ⟨hwf, (Except.ok.inj hplan).symm⟩
  · rintro ⟨hwf, rfl⟩
    exact ⟨_, ⟨hwf, rfl⟩, rfl⟩

end Leelo.Policy
