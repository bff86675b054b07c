import Leelo.Policy.Decision
import Leelo.Sss.Sharing
import Mathlib.Order.MinMax

/-!
# Network trees, their threshold semantics and their postorder layout

The source tree is evaluated directly: a leaf is satisfied when its identifier
is present and a threshold when enough children are. The layout lists one gate
for each node in postorder, with consecutive leaf positions. Evaluating the
layout gives the direct semantics of the tree at its last gate.
-/

namespace Leelo.Policy

/-- A provider identity. -/
abbrev ProviderId := Vector UInt8 32

/-- The network part of a policy as the envelope encodes it. -/
inductive NetworkNode where
  | leaf (id : UInt8) (providerId : ProviderId)
  | threshold (id required : UInt8) (children : List NetworkNode)

namespace NetworkNode

/-- Induction over a tree together with its child forests. -/
theorem forest_induction {P : NetworkNode → Prop} {Q : List NetworkNode → Prop}
    (leaf : ∀ id providerId, P (.leaf id providerId))
    (threshold : ∀ id required children, Q children → P (.threshold id required children))
    (nil : Q []) (cons : ∀ child children, P child → Q children → Q (child :: children)) :
    (∀ node, P node) ∧ ∀ children, Q children := by
  have hnode : ∀ node, P node := fun node =>
    @NetworkNode.rec P Q leaf threshold nil cons node
  refine ⟨hnode, fun children => ?_⟩
  induction children with
  | nil => exact nil
  | cons child children ih => exact cons child children (hnode child) ih

mutual
/-- The number of nodes. -/
def size : NetworkNode → Nat
  | .leaf _ _ => 1
  | .threshold _ _ children => sizes children + 1
/-- The number of nodes of a forest. -/
def sizes : List NetworkNode → Nat
  | [] => 0
  | child :: children => child.size + sizes children
end

mutual
/-- The number of levels; a leaf has one. -/
def levels : NetworkNode → Nat
  | .leaf _ _ => 1
  | .threshold _ _ children => levelsAll children + 1
/-- The largest number of levels in a forest. -/
def levelsAll : List NetworkNode → Nat
  | [] => 0
  | child :: children => max child.levels (levelsAll children)
end

mutual
/-- Leaf identities from left to right. -/
def leaves : NetworkNode → List (UInt8 × ProviderId)
  | .leaf id providerId => [(id, providerId)]
  | .threshold _ _ children => leavesAll children
/-- Leaf identities of a forest from left to right. -/
def leavesAll : List NetworkNode → List (UInt8 × ProviderId)
  | [] => []
  | child :: children => child.leaves ++ leavesAll children
end

mutual
/-- All node identifiers, a node before its children. -/
def ids : NetworkNode → List UInt8
  | .leaf id _ => [id]
  | .threshold id _ children => id :: idsAll children
/-- All node identifiers of a forest. -/
def idsAll : List NetworkNode → List UInt8
  | [] => []
  | child :: children => child.ids ++ idsAll children
end

mutual
/-- Every threshold asks for at least one and at most all of its children. -/
def ThresholdsValid : NetworkNode → Prop
  | .leaf _ _ => True
  | .threshold _ required children =>
    1 ≤ required.toNat ∧ required.toNat ≤ children.length ∧ ThresholdsValidAll children
/-- Every threshold of a forest is within its bounds. -/
def ThresholdsValidAll : List NetworkNode → Prop
  | [] => True
  | child :: children => child.ThresholdsValid ∧ ThresholdsValidAll children
end

mutual
/-- The bounds of all thresholds can be computed. -/
def decideThresholdsValid : (node : NetworkNode) → Decidable node.ThresholdsValid
  | .leaf _ _ => .isTrue trivial
  | .threshold _ required children =>
    have := decideThresholdsValidAll children
    inferInstanceAs (Decidable
      (1 ≤ required.toNat ∧ required.toNat ≤ children.length ∧ ThresholdsValidAll children))
/-- The bounds of a forest's thresholds can be computed. -/
def decideThresholdsValidAll : (children : List NetworkNode) →
    Decidable (ThresholdsValidAll children)
  | [] => .isTrue trivial
  | child :: children =>
    have := child.decideThresholdsValid
    have := decideThresholdsValidAll children
    inferInstanceAs (Decidable (child.ThresholdsValid ∧ ThresholdsValidAll children))
end

instance : DecidablePred ThresholdsValid := decideThresholdsValid

mutual
/-- Direct threshold semantics over the present leaf identifiers. -/
def satisfied (present : UInt8 → Bool) : NetworkNode → Bool
  | .leaf id _ => present id
  | .threshold _ required children => decide (required.toNat ≤ satisfiedCount present children)
/-- The number of satisfied children. -/
def satisfiedCount (present : UInt8 → Bool) : List NetworkNode → Nat
  | [] => 0
  | child :: children =>
    (if child.satisfied present then 1 else 0) + satisfiedCount present children
end

mutual
/-- The postorder gates of a tree placed after `gateStart` gates and `leafStart` leaves. -/
def postorder (gateStart leafStart : Nat) : NetworkNode → List Gate
  | .leaf _ _ => [.leaf leafStart]
  | .threshold _ required children =>
    postorderAll gateStart leafStart children ++
      [.threshold required.toNat (roots gateStart children)]
/-- The consecutive postorder gates of a forest. -/
def postorderAll (gateStart leafStart : Nat) : List NetworkNode → List Gate
  | [] => []
  | child :: children =>
    child.postorder gateStart leafStart ++
      postorderAll (gateStart + child.size) (leafStart + child.leaves.length) children
/-- The gate index of each tree of a forest. -/
def roots (gateStart : Nat) : List NetworkNode → List Nat
  | [] => []
  | child :: children => (gateStart + child.size - 1) :: roots (gateStart + child.size) children
end

/-- A tree has a node. -/
theorem size_pos (node : NetworkNode) : 0 < node.size := by
  cases node <;> simp [size]

private theorem length_layouts :
    (∀ node : NetworkNode, ∀ g l, (node.postorder g l).length = node.size) ∧
      ∀ children, ∀ g l, (postorderAll g l children).length = sizes children := by
  refine forest_induction ?leaf ?threshold ?nil ?cons
  case leaf => exact fun _ _ _ _ => rfl
  case threshold => exact fun _ _ children ih g l => by simp [postorder, size, ih]
  case nil => exact fun _ _ => rfl
  case cons =>
    intro child children hchild hchildren g l
    rw [postorderAll, List.length_append, hchild, hchildren, sizes]

/-- The layout has one gate for each node. -/
@[simp] theorem length_postorder (node : NetworkNode) (g l : Nat) :
    (node.postorder g l).length = node.size := length_layouts.1 node g l

@[simp] theorem length_postorderAll (children : List NetworkNode) (g l : Nat) :
    (postorderAll g l children).length = sizes children := length_layouts.2 children g l

@[simp] theorem length_roots (children : List NetworkNode) (g : Nat) :
    (roots g children).length = children.length := by
  induction children generalizing g with
  | nil => rfl
  | cons child children ih => simp [roots, ih]

/-- A threshold never has more children than nodes. -/
theorem length_le_sizes (children : List NetworkNode) : children.length ≤ sizes children := by
  induction children with
  | nil => exact le_rfl
  | cons child children ih =>
    have := child.size_pos
    simp only [List.length_cons, sizes]
    omega

private theorem levels_le_size_aux :
    (∀ node : NetworkNode, node.levels ≤ node.size) ∧
      ∀ children, levelsAll children ≤ sizes children := by
  refine forest_induction ?leaf ?threshold ?nil ?cons
  case leaf => exact fun _ _ => le_rfl
  case threshold => exact fun _ _ children ih => Nat.succ_le_succ ih
  case nil => exact le_rfl
  case cons =>
    intro child children hchild hchildren
    simp only [levelsAll, sizes]
    omega

/-- A tree has at least one node on each level. -/
theorem levels_le_size (node : NetworkNode) : node.levels ≤ node.size :=
  levels_le_size_aux.1 node

private theorem length_leaves_aux :
    (∀ node : NetworkNode, node.leaves.length ≤ node.size) ∧
      ∀ children, (leavesAll children).length ≤ sizes children := by
  refine forest_induction ?leaf ?threshold ?nil ?cons
  case leaf => exact fun _ _ => le_rfl
  case threshold => exact fun _ _ children ih => Nat.le_succ_of_le ih
  case nil => exact le_rfl
  case cons =>
    intro child children hchild hchildren
    rw [leavesAll, List.length_append]
    exact Nat.add_le_add hchild hchildren

/-- Leaves are nodes. -/
theorem length_leaves_le (node : NetworkNode) : node.leaves.length ≤ node.size :=
  length_leaves_aux.1 node

private theorem leafIds_sublist_aux :
    (∀ node : NetworkNode, (node.leaves.map Prod.fst).Sublist node.ids) ∧
      ∀ children, ((leavesAll children).map Prod.fst).Sublist (idsAll children) := by
  refine forest_induction ?leaf ?threshold ?nil ?cons
  case leaf => exact fun _ _ => .refl _
  case threshold => exact fun id _ children ih => ih.cons id
  case nil => exact .refl _
  case cons =>
    intro child children hchild hchildren
    rw [leavesAll, List.map_append, idsAll]
    exact hchild.append hchildren

/-- Leaf identifiers are node identifiers, in the same order. -/
theorem leafIds_sublist (node : NetworkNode) : (node.leaves.map Prod.fst).Sublist node.ids :=
  leafIds_sublist_aux.1 node

variable {p q : UInt8 → Bool} {node : NetworkNode}

/-- More leaves satisfy more. -/
private theorem satisfied_mono_aux (h : ∀ id, p id = true → q id = true) :
    (∀ node : NetworkNode, node.satisfied p = true → node.satisfied q = true) ∧
      ∀ children, satisfiedCount p children ≤ satisfiedCount q children := by
  refine forest_induction ?leaf ?threshold ?nil ?cons
  case leaf => exact fun id _ hid => h id hid
  case threshold =>
    intro _ required children ih hp
    simp only [satisfied, decide_eq_true_eq] at hp ⊢
    exact hp.trans ih
  case nil => exact le_rfl
  case cons =>
    intro child children hchild hchildren
    simp only [satisfiedCount]
    cases hp : child.satisfied p with
    | false => simp; omega
    | true => simp [hchild hp, hchildren]

/-- More present leaves satisfy at least the same trees. -/
theorem satisfied_mono (h : ∀ id, p id = true → q id = true) (hp : node.satisfied p = true) :
    node.satisfied q = true :=
  (satisfied_mono_aux h).1 node hp

private theorem satisfied_congr_aux :
    (∀ node : NetworkNode, (∀ leaf ∈ node.leaves, p leaf.1 = q leaf.1) →
      node.satisfied p = node.satisfied q) ∧
    ∀ children, (∀ leaf ∈ leavesAll children, p leaf.1 = q leaf.1) →
      satisfiedCount p children = satisfiedCount q children := by
  refine forest_induction ?leaf ?threshold ?nil ?cons
  case leaf => exact fun id providerId h => h (id, providerId) (by simp [leaves])
  case threshold => exact fun _ _ children ih h => by simp only [satisfied, ih h]
  case nil => exact fun _ => rfl
  case cons =>
    intro child children hchild hchildren h
    rw [leavesAll] at h
    rw [satisfiedCount, satisfiedCount,
      hchild fun leaf hleaf => h leaf (List.mem_append_left _ hleaf),
      hchildren fun leaf hleaf => h leaf (List.mem_append_right _ hleaf)]

/-- Only the presence of the tree's own leaves matters. -/
theorem satisfied_congr (h : ∀ leaf ∈ node.leaves, p leaf.1 = q leaf.1) :
    node.satisfied p = node.satisfied q :=
  satisfied_congr_aux.1 node h

/-- With valid thresholds nothing is satisfied by no leaf at all. -/
theorem satisfied_none (h : node.ThresholdsValid) :
    node.satisfied (fun _ => false) = false := by
  have haux : (∀ node : NetworkNode, node.ThresholdsValid →
      node.satisfied (fun _ => false) = false) ∧
      ∀ children, ThresholdsValidAll children → satisfiedCount (fun _ => false) children = 0 := by
    refine forest_induction ?leaf ?threshold ?nil ?cons
    case leaf => exact fun _ _ _ => rfl
    case threshold =>
      intro _ required children ih hvalid
      simp only [ThresholdsValid] at hvalid
      rw [satisfied, ih hvalid.2.2, decide_eq_false_iff_not]
      omega
    case nil => exact fun _ => rfl
    case cons =>
      intro child children hchild hchildren hvalid
      simp only [ThresholdsValidAll] at hvalid
      rw [satisfiedCount, hchild hvalid.1, hchildren hvalid.2]
      rfl
  exact haux.1 node h

mutual
/-- The gate values of a tree in postorder. -/
def gateValues (present : UInt8 → Bool) : NetworkNode → List Bool
  | .leaf id _ => [present id]
  | .threshold id required children =>
    gateValuesAll present children ++ [(threshold id required children).satisfied present]
/-- The gate values of a forest in postorder. -/
def gateValuesAll (present : UInt8 → Bool) : List NetworkNode → List Bool
  | [] => []
  | child :: children => child.gateValues present ++ gateValuesAll present children
end

private theorem gateValues_shape_aux (present : UInt8 → Bool) :
    (∀ node : NetworkNode, ∃ body : List Bool,
      node.gateValues present = body ++ [node.satisfied present] ∧ body.length + 1 = node.size) ∧
    ∀ children, (gateValuesAll present children).length = sizes children := by
  refine forest_induction ?leaf ?threshold ?nil ?cons
  case leaf => exact fun _ _ => ⟨[], rfl, rfl⟩
  case threshold => exact fun _ _ children ih => ⟨_, rfl, by rw [ih, size]⟩
  case nil => rfl
  case cons =>
    rintro child children ⟨body, hbody, hsize⟩ hchildren
    rw [gateValuesAll, sizes, hbody]
    simp only [List.length_append, List.length_singleton, hsize, hchildren]

/-- A tree's gate values end with its own value. -/
theorem gateValues_shape (present : UInt8 → Bool) (node : NetworkNode) : ∃ body : List Bool,
    node.gateValues present = body ++ [node.satisfied present] ∧ body.length + 1 = node.size :=
  (gateValues_shape_aux present).1 node

/-- The child loop counts exactly the satisfied trees at their root gates. -/
theorem foldl_countChild_roots (present : UInt8 → Bool) (children : List NetworkNode)
    (before after : List Bool) (successes : Nat) (valid : Bool) :
    (roots before.length children).foldl
        (countChild (before ++ gateValuesAll present children ++ after)) (successes, valid) =
      (successes + satisfiedCount present children, valid) := by
  induction children generalizing before successes with
  | nil => rfl
  | cons child children ih =>
    obtain ⟨body, hbody, hsize⟩ := child.gateValues_shape present
    have hroot : before.length + child.size - 1 = (before ++ body).length := by
      rw [List.length_append]
      omega
    have hnext : before.length + child.size = (before ++ child.gateValues present).length := by
      rw [hbody]
      simp only [List.length_append, List.length_singleton]
      omega
    have hvalues : before ++ gateValuesAll present (child :: children) ++ after =
        before ++ child.gateValues present ++ gateValuesAll present children ++ after := by
      simp [gateValuesAll, List.append_assoc]
    have hstep : countChild (before ++ gateValuesAll present (child :: children) ++ after)
        (successes, valid) (before.length + child.size - 1) =
        (successes + (if child.satisfied present then 1 else 0), valid) := by
      have hat : (before ++ gateValuesAll present (child :: children) ++ after)[
          before.length + child.size - 1]? = some (child.satisfied present) := by
        rw [hroot, hvalues, hbody]
        simp
      obtain ⟨hlt, hget⟩ := List.getElem?_eq_some_iff.mp hat
      rw [countChild, dif_pos hlt, hget]
      cases child.satisfied present <;> rfl
    rw [roots, List.foldl_cons, hstep, hnext, hvalues, ih, satisfiedCount, Nat.add_assoc]

/-- A layout evaluates to the values of its nodes. -/
private theorem evaluateGates_layout_aux (present : UInt8 → Bool) :
    (∀ node : NetworkNode, node.ThresholdsValid → ∀ values before after : List Bool,
      evaluateGates (before ++ node.leaves.map (fun leaf => present leaf.1) ++ after) values
        (node.postorder values.length before.length) = values ++ node.gateValues present) ∧
    ∀ children, ThresholdsValidAll children → ∀ values before after : List Bool,
      evaluateGates (before ++ (leavesAll children).map (fun leaf => present leaf.1) ++ after)
        values (postorderAll values.length before.length children) =
        values ++ gateValuesAll present children := by
  refine forest_induction ?leaf ?threshold ?nil ?cons
  case leaf =>
    intro id providerId _ values before after
    rw [postorder, evaluateGates_singleton, gateValues]
    simp [evaluateGate, leaves]
  case threshold =>
    intro id required children ih hvalid values before after
    simp only [ThresholdsValid] at hvalid
    have hcount := foldl_countChild_roots present children values [] 0 true
    rw [List.append_nil, Nat.zero_add] at hcount
    have hbounds : ¬ (required.toNat = 0 ∨ required.toNat > children.length) := by omega
    have hgate : evaluateGate (.threshold required.toNat (roots values.length children))
        (values ++ gateValuesAll present children)
        (before ++ (leavesAll children).map (fun leaf => present leaf.1) ++ after) =
        (threshold id required children).satisfied present := by
      simp only [evaluateGate, length_roots, hcount, if_neg hbounds, satisfied, ge_iff_le,
        Bool.true_and]
    rw [postorder, leaves, evaluateGates_append, ih hvalid.2.2, evaluateGates_singleton, hgate,
      gateValues, List.append_assoc]
  case nil => exact fun _ values before after => (List.append_nil values).symm
  case cons =>
    intro child children hchild hchildren hvalid values before after
    simp only [ThresholdsValidAll] at hvalid
    obtain ⟨body, hbody, hsize⟩ := child.gateValues_shape present
    have hgate : values.length + child.size = (values ++ child.gateValues present).length := by
      rw [hbody]
      simp only [List.length_append, List.length_singleton]
      omega
    have hleaf : before.length + child.leaves.length =
        (before ++ child.leaves.map fun leaf => present leaf.1).length := by simp
    have hfirst := hchild hvalid.1 values before
      ((leavesAll children).map (fun leaf => present leaf.1) ++ after)
    have hrest := hchildren hvalid.2 (values ++ child.gateValues present)
      (before ++ child.leaves.map fun leaf => present leaf.1) after
    simp only [List.append_assoc] at hfirst hrest
    rw [postorderAll, leavesAll, evaluateGates_append, List.map_append, hgate, hleaf]
    simp only [List.append_assoc]
    rw [hfirst, hrest, gateValuesAll]

/-- Evaluating the layout of a valid tree is its direct threshold semantics. -/
theorem evaluateNetwork_postorder (h : node.ThresholdsValid) (present : UInt8 → Bool) :
    evaluateNetwork (node.postorder 0 0) (node.leaves.map fun leaf => present leaf.1) =
      node.satisfied present := by
  obtain ⟨body, hbody, -⟩ := node.gateValues_shape present
  have hvalues := (evaluateGates_layout_aux present).1 node h [] [] []
  simp only [List.nil_append, List.append_nil, List.length_nil] at hvalues
  rw [evaluateNetwork, hvalues, hbody, List.getLast?_append]
  rfl

end NetworkNode

end Leelo.Policy
