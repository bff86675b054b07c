import Leelo.Policy.Admission

/-!
# The compilation certificate

The certificate accepts one plan for each shallow tree with valid thresholds and none for
any other tree. The accepted plan evaluates every response vector to the value of the tree
with one response for each leaf position, so repeated identifiers make no difference.
-/

namespace Leelo.Policy

namespace NetworkNode

mutual
/-- Direct threshold semantics over response positions from the given leaf on. -/
def valueAt (responses : List Bool) : (leafStart : Nat) → NetworkNode → Bool
  | leafStart, .leaf _ _ => responses.getD leafStart false
  | leafStart, .threshold _ required children =>
    decide (required.toNat ≤ successesAt responses leafStart children)
/-- The number of satisfied children, each at its own leaf positions. -/
def successesAt (responses : List Bool) : (leafStart : Nat) → List NetworkNode → Nat
  | _, [] => 0
  | leafStart, child :: children =>
    (if child.valueAt responses leafStart then 1 else 0) +
      successesAt responses (leafStart + child.leaves.length) children
end

/-- What evaluating the layout of a tree appends to the values before it. -/
private def Evaluates (responses : List Bool) (node : NetworkNode) : Prop :=
  ∀ (values : List Bool) (l : Nat), ∃ body, body.length + 1 = node.size ∧
    evaluateGates responses values (node.postorder values.length l) =
      values ++ body ++ [node.valueAt responses l]

/-- What evaluating the layout of a forest appends, and what its roots then count. -/
private def EvaluatesAll (responses : List Bool) (children : List NetworkNode) : Prop :=
  ∀ (values : List Bool) (l : Nat), ∃ body, body.length = sizes children ∧
    evaluateGates responses values (postorderAll values.length l children) = values ++ body ∧
    ∀ (after : List Bool) (successes : Nat) (valid : Bool),
      (roots values.length children).foldl (countChild (values ++ body ++ after))
        (successes, valid) = (successes + successesAt responses l children, valid)

private theorem evaluates_threshold {responses : List Bool} {id required : UInt8}
    {children : List NetworkNode} (hpositive : 1 ≤ required.toNat)
    (hbounded : required.toNat ≤ children.length) (h : EvaluatesAll responses children) :
    Evaluates responses (.threshold id required children) := by
  intro values l
  obtain ⟨body, hlength, hvalues, hcount⟩ := h values l
  have hroots := hcount [] 0 true
  rw [List.append_nil, Nat.zero_add] at hroots
  have hbounds : ¬ (required.toNat = 0 ∨ required.toNat > children.length) := by omega
  refine ⟨body, by rw [hlength, size], ?_⟩
  rw [postorder, evaluateGates_append, hvalues, evaluateGates_singleton]
  simp only [evaluateGate, length_roots, hroots, if_neg hbounds, valueAt, ge_iff_le, Bool.true_and]

private theorem evaluatesAll_cons {responses : List Bool} {child : NetworkNode}
    {children : List NetworkNode} (h : Evaluates responses child)
    (hall : EvaluatesAll responses children) : EvaluatesAll responses (child :: children) := by
  intro values l
  obtain ⟨body, hlength, hvalues⟩ := h values l
  have hsize : values.length + child.size =
      (values ++ body ++ [child.valueAt responses l]).length := by
    simp only [List.length_append, List.length_singleton]
    omega
  obtain ⟨rest, hrest, hvalues', hcount⟩ :=
    hall (values ++ body ++ [child.valueAt responses l]) (l + child.leaves.length)
  refine ⟨body ++ [child.valueAt responses l] ++ rest, ?_, ?_, fun after successes valid => ?_⟩
  · simp only [List.length_append, List.length_singleton, sizes, hrest]
    omega
  · rw [postorderAll, evaluateGates_append, hvalues, hsize, hvalues']
    simp only [List.append_assoc]
  · -- The first root reads the child's own value, the others are counted by the rest.
    have hroot : values.length + child.size - 1 = (values ++ body).length := by
      rw [List.length_append]
      omega
    have hassoc : values ++ (body ++ [child.valueAt responses l] ++ rest) ++ after =
        values ++ body ++ [child.valueAt responses l] ++ rest ++ after := by
      simp only [List.append_assoc]
    have hat : (values ++ body ++ [child.valueAt responses l] ++ rest ++ after)[
        values.length + child.size - 1]? = some (child.valueAt responses l) := by
      rw [hroot]
      simp
    obtain ⟨hlt, hget⟩ := List.getElem?_eq_some_iff.mp hat
    have hstep : countChild (values ++ body ++ [child.valueAt responses l] ++ rest ++ after)
        (successes, valid) (values.length + child.size - 1) =
        (successes + (if child.valueAt responses l then 1 else 0), valid) := by
      rw [countChild, dif_pos hlt, hget]
      cases child.valueAt responses l with
      | true => rfl
      | false => rfl
    rw [hassoc, roots, List.foldl_cons, hstep, hsize, hcount, successesAt, Nat.add_assoc]

/-- Every layout of a valid tree evaluates as the tree does. -/
private theorem evaluates_of_thresholdsValid (responses : List Bool) :
    (∀ node : NetworkNode, node.ThresholdsValid → Evaluates responses node) ∧
      ∀ children, ThresholdsValidAll children → EvaluatesAll responses children := by
  refine forest_induction ?leaf ?threshold ?nil ?cons
  case leaf =>
    intro id providerId _ values l
    refine ⟨[], rfl, ?_⟩
    rw [postorder, evaluateGates_singleton, List.append_nil, valueAt]
    simp only [evaluateGate, List.getD_eq_getElem?_getD]
    by_cases hl : l < responses.length
    · rw [dif_pos hl, List.getElem?_eq_getElem hl, Option.getD_some]
    · rw [dif_neg hl, List.getElem?_eq_none (Nat.le_of_not_lt hl), Option.getD_none]
  case threshold =>
    intro id required children ih hvalid
    rw [ThresholdsValid] at hvalid
    exact evaluates_threshold hvalid.1 hvalid.2.1 (ih hvalid.2.2)
  case nil =>
    intro _ values l
    refine ⟨[], rfl, (List.append_nil values).symm, fun after successes valid => rfl⟩
  case cons =>
    intro child children hchild hchildren hvalid
    rw [ThresholdsValidAll] at hvalid
    exact evaluatesAll_cons (hchild hvalid.1) (hchildren hvalid.2)

/-- Evaluating the layout gives the value of the tree on every response vector. -/
theorem evaluateNetwork_valueAt {node : NetworkNode} (h : node.ThresholdsValid)
    (responses : List Bool) :
    evaluateNetwork (node.postorder 0 0) responses = node.valueAt responses 0 := by
  obtain ⟨body, -, hvalues⟩ := (evaluates_of_thresholdsValid responses).1 node h [] 0
  rw [List.length_nil] at hvalues
  rw [evaluateNetwork, hvalues, List.getLast?_append]
  rfl

end NetworkNode

/-- The certificate is sound and complete: it accepts exactly the postorder plan of a tree
with at most three levels and valid thresholds, so at most one plan for each tree, and that
plan decides every response vector as the tree does. -/
theorem checkCompilation_exact (node : NetworkNode) :
    (∀ (gates : List Gate) (leaves : List (UInt8 × ProviderId)),
      checkCompilation node gates leaves = true ↔
        node.levels ≤ 3 ∧ node.ThresholdsValid ∧ leaves = node.leaves ∧
          gates = node.postorder 0 0) ∧
    (∀ (gates gates' : List Gate) (leaves leaves' : List (UInt8 × ProviderId)),
      checkCompilation node gates leaves = true → checkCompilation node gates' leaves' = true →
        gates = gates' ∧ leaves = leaves') ∧
    ∀ (gates : List Gate) (leaves : List (UInt8 × ProviderId)) (responses : List Bool),
      checkCompilation node gates leaves = true → responses.length = leaves.length →
        evaluateNetwork gates responses = node.valueAt responses 0 := by
  refine ⟨fun gates leaves => ?_, ?_, ?_⟩
  · rw [checkCompilation_iff]
    exact and_congr_right fun _ => and_congr_right fun _ => and_comm
  · intro gates gates' leaves leaves' h h'
    obtain ⟨-, -, rfl, rfl⟩ := checkCompilation_iff.mp h
    obtain ⟨-, -, rfl, rfl⟩ := checkCompilation_iff.mp h'
    exact ⟨rfl, rfl⟩
  · intro gates leaves responses h _
    obtain ⟨-, hvalid, rfl, rfl⟩ := checkCompilation_iff.mp h
    exact NetworkNode.evaluateNetwork_valueAt hvalid responses

/-- The plan of the pair is accepted and decides by either response. -/
theorem checkCompilation_exact_pair :
    evaluateNetwork (pairNetwork.postorder 0 0) [false, true] =
      pairNetwork.valueAt [false, true] 0 :=
  (checkCompilation_exact pairNetwork).2.2 _ pairNetwork.leaves [false, true]
    (((checkCompilation_exact pairNetwork).1 _ _).mpr ⟨by decide, by decide, rfl, rfl⟩) rfl

end Leelo.Policy
