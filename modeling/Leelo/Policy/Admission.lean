import Leelo.Policy.Compile

/-!
# The certificate and admission

The certificate accepts a plan exactly when it is the layout of a shallow tree
with valid thresholds, so it never refuses the compiler's output and admission
is decided by the tree alone. In an admitted plan every edge points backwards
and every gate but the last has exactly one parent.
-/

namespace Leelo.Policy

open Leelo.Core

/-- A tree's layout and leaves stand in a plan at the given cursors. -/
structure PlacedAt (gates : List Gate) (leaves : List (UInt8 × ProviderId))
    (node : NetworkNode) (g l depth : Nat) : Prop where
  shallow : node.levels ≤ depth
  thresholds : node.ThresholdsValid
  gates : node.postorder g l <+: gates.drop g
  leaves : node.leaves <+: leaves.drop l

/-- A forest's layout and leaves stand in a plan at the given cursors. -/
structure PlacedAllAt (gates : List Gate) (leaves : List (UInt8 × ProviderId))
    (children : List NetworkNode) (g l depth : Nat) : Prop where
  shallow : NetworkNode.levelsAll children ≤ depth
  thresholds : NetworkNode.ThresholdsValidAll children
  gates : NetworkNode.postorderAll g l children <+: gates.drop g
  leaves : NetworkNode.leavesAll children <+: leaves.drop l

theorem append_prefix_drop {α : Type} {xs ys zs : List α} {k : Nat} :
    xs ++ ys <+: zs.drop k ↔ xs <+: zs.drop k ∧ ys <+: zs.drop (k + xs.length) := by
  constructor
  · rintro ⟨t, ht⟩
    refine ⟨⟨ys ++ t, by rw [← ht, List.append_assoc]⟩, ⟨t, ?_⟩⟩
    rw [← List.drop_drop, ← ht, List.append_assoc, List.drop_left]
  · rintro ⟨⟨t, ht⟩, ⟨u, hu⟩⟩
    refine ⟨u, ?_⟩
    rw [← List.drop_drop, ← ht, List.drop_left] at hu
    rw [List.append_assoc, hu, ht]

theorem singleton_prefix_drop {α : Type} {x : α} {zs : List α} {k : Nat} :
    [x] <+: zs.drop k ↔ zs[k]? = some x := by
  rw [← List.head?_drop]
  cases zs.drop k with
  | nil => simp
  | cons y ys => simp [List.cons_prefix_cons, eq_comm]

variable {gates : List Gate} {leaves : List (UInt8 × ProviderId)} {g l depth : Nat}
  {node : NetworkNode}

theorem placedAllAt_cons {child : NetworkNode} {children : List NetworkNode} :
    PlacedAllAt gates leaves (child :: children) g l depth ↔
      PlacedAt gates leaves child g l depth ∧
        PlacedAllAt gates leaves children (g + child.size) (l + child.leaves.length) depth := by
  constructor
  · rintro ⟨hshallow, hthresholds, hgates, hleaves⟩
    simp only [NetworkNode.levelsAll, NetworkNode.ThresholdsValidAll, NetworkNode.postorderAll,
      NetworkNode.leavesAll, append_prefix_drop, NetworkNode.length_postorder, max_le_iff] at *
    exact ⟨⟨hshallow.1, hthresholds.1, hgates.1, hleaves.1⟩,
      ⟨hshallow.2, hthresholds.2, hgates.2, hleaves.2⟩⟩
  · rintro ⟨⟨hshallow, hthresholds, hgates, hleaves⟩,
      ⟨hshallow', hthresholds', hgates', hleaves'⟩⟩
    refine ⟨max_le hshallow hshallow', ⟨hthresholds, hthresholds'⟩, ?_, ?_⟩
    · rw [NetworkNode.postorderAll, append_prefix_drop, NetworkNode.length_postorder]
      exact ⟨hgates, hgates'⟩
    · rw [NetworkNode.leavesAll, append_prefix_drop]
      exact ⟨hleaves, hleaves'⟩

theorem NetworkNode.leaves_ne_nil (h : node.ThresholdsValid) :
    node.leaves ≠ [] := by
  have haux : (∀ node : NetworkNode, node.ThresholdsValid → node.leaves ≠ []) ∧
      ∀ children, NetworkNode.ThresholdsValidAll children → children ≠ [] →
        NetworkNode.leavesAll children ≠ [] := by
    refine NetworkNode.forest_induction ?leaf ?threshold ?nil ?cons
    case leaf => exact fun id providerId _ => by simp [leaves]
    case threshold =>
      intro id required children ih hvalid
      simp only [ThresholdsValid] at hvalid
      exact ih hvalid.2.2 fun he => by simp [he] at hvalid; omega
    case nil => exact fun _ h => absurd rfl h
    case cons =>
      intro child children hchild _ hvalid _
      simp only [ThresholdsValidAll] at hvalid
      simp [leavesAll, hchild hvalid.1]
  exact haux.1 node h

theorem sameProvider_iff (a b : ProviderId) : sameProvider a b = true ↔ a = b := by
  simp only [sameProvider, List.all_eq_true, beq_iff_eq]
  constructor
  · exact fun h => Vector.ext fun k hk => h ⟨k, hk⟩ (List.mem_finRange _)
  · rintro rfl i _
    rfl

private theorem zip_any_ne {edges expected : List Nat} (h : edges.length = expected.length) :
    ((edges.zip expected).any fun (edge, want) => edge != want) = false ↔ edges = expected := by
  induction edges generalizing expected with
  | nil => simp [List.length_eq_zero_iff.mp h.symm]
  | cons edge edges ih =>
    cases expected with
    | nil => simp at h
    | cons want expected => simp [ih (Nat.succ.inj h)]

/-- A placed tree leaves room for the cursor tests at its start. -/
theorem PlacedAt.in_range (h : PlacedAt gates leaves node g l depth) :
    ¬ (depth = 0 ∨ g ≥ gates.length ∨ l ≥ leaves.length) := by
  have hlevels : 0 < node.levels := by cases node <;> simp [NetworkNode.levels]
  have hg := h.gates.length_le
  have hl := h.leaves.length_le
  have hsize := node.size_pos
  have hleaves := List.length_pos_iff.mpr (NetworkNode.leaves_ne_nil h.thresholds)
  have := h.shallow
  simp only [NetworkNode.length_postorder, List.length_drop] at hg hl
  omega

/-- A threshold is placed after its children, with edges to them. -/
theorem placedAt_threshold {id required : UInt8} {children : List NetworkNode}
    (hdepth : depth ≠ 0) :
    PlacedAt gates leaves (.threshold id required children) g l depth ↔
      (1 ≤ required.toNat ∧ required.toNat ≤ children.length) ∧
        PlacedAllAt gates leaves children g l (depth - 1) ∧
        gates[g + NetworkNode.sizes children]? =
          some (.threshold required.toNat (NetworkNode.roots g children)) := by
  constructor
  · rintro ⟨hshallow, hthresholds, hgates, hleaves⟩
    rw [NetworkNode.postorder, append_prefix_drop, NetworkNode.length_postorderAll,
      singleton_prefix_drop] at hgates
    simp only [NetworkNode.levels] at hshallow
    exact ⟨⟨hthresholds.1, hthresholds.2.1⟩,
      ⟨by omega, hthresholds.2.2, hgates.1, hleaves⟩, hgates.2⟩
  · rintro ⟨⟨hpositive, hbounded⟩, ⟨hshallow, hthresholds, hgates, hleaves⟩, hgate⟩
    refine ⟨?_, ⟨hpositive, hbounded, hthresholds⟩, ?_, hleaves⟩
    · simp only [NetworkNode.levels]
      omega
    · rw [NetworkNode.postorder, append_prefix_drop, NetworkNode.length_postorderAll,
        singleton_prefix_drop]
      exact ⟨hgates, hgate⟩

theorem placedAt_leaf {id : UInt8} {providerId : ProviderId} (hdepth : depth ≠ 0) :
    PlacedAt gates leaves (.leaf id providerId) g l depth ↔
      leaves[l]? = some (id, providerId) ∧ gates[g]? = some (.leaf l) := by
  constructor
  · rintro ⟨-, -, hgates, hleaves⟩
    exact ⟨singleton_prefix_drop.mp hleaves, singleton_prefix_drop.mp hgates⟩
  · rintro ⟨hleaf, hgate⟩
    exact ⟨Nat.one_le_iff_ne_zero.mpr hdepth, trivial, singleton_prefix_drop.mpr hgate,
      singleton_prefix_drop.mpr hleaf⟩

/-- The checker accepts exactly what is placed, and says where it ends. -/
private theorem check_spec (gates : List Gate) (leaves : List (UInt8 × ProviderId)) :
    (∀ node : NetworkNode, ∀ g l depth gEnd lEnd,
      checkSubtree gates leaves node g l depth = (true, gEnd, lEnd) ↔
        PlacedAt gates leaves node g l depth ∧ gEnd = g + node.size ∧
          lEnd = l + node.leaves.length) ∧
    ∀ children, ∀ g l depth result,
      checkChildren gates leaves children g l depth = some result ↔
        PlacedAllAt gates leaves children g l depth ∧
          result = (NetworkNode.roots g children, g + NetworkNode.sizes children,
            l + (NetworkNode.leavesAll children).length) := by
  refine NetworkNode.forest_induction ?leaf ?threshold ?nil ?cons
  case leaf =>
    intro id providerId g l depth gEnd lEnd
    rw [checkSubtree]
    split_ifs with hrange
    · exact ⟨(fun h => by cases h), fun h => absurd hrange h.1.in_range⟩
    · rw [placedAt_leaf (by omega)]
      rcases leaves[l]? with _ | ⟨leafId, leafProvider⟩
      · simp
      · rcases gates[g]? with _ | ⟨responseIndex⟩ | ⟨_, _⟩
        · simp
        · simp only [← Bool.not_eq_true, sameProvider_iff]
          split_ifs with hleaf hindex
          · simp [not_and_or.mpr hleaf]
          · simp [hindex]
          · obtain ⟨rfl, rfl⟩ : leafId = id ∧ leafProvider = providerId := by tauto
            obtain rfl : responseIndex = l := by tauto
            simp [NetworkNode.size, NetworkNode.leaves, eq_comm]
        · simp
  case threshold =>
    intro id required children ih g l depth gEnd lEnd
    have hzero : required = 0 ↔ required.toNat = 0 := by
      rw [← UInt8.toNat_inj]
      rfl
    simp only [checkSubtree, hzero]
    split_ifs with hrange hrequired
    · exact ⟨(fun h => by cases h), fun h => absurd hrange h.1.in_range⟩
    · refine ⟨(fun h => by cases h), fun h => ?_⟩
      have := ((placedAt_threshold (by omega)).mp h.1).1
      omega
    · rw [placedAt_threshold (by omega)]
      rcases hchildren : checkChildren gates leaves children g l (depth - 1) with _ | result
      · refine ⟨(fun h => by cases h), fun h => ?_⟩
        rw [(ih _ _ _ _).mpr ⟨h.1.2.1, rfl⟩] at hchildren
        cases hchildren
      · obtain ⟨hplaced, rfl⟩ := (ih _ _ _ _).mp hchildren
        have hbounds : 1 ≤ required.toNat ∧ required.toNat ≤ children.length := by omega
        rcases hgate : gates[g + NetworkNode.sizes children]? with _ | _ | ⟨actual, edges⟩
        · simp [hgate]
        · simp [hgate]
        · simp only [hgate]
          split_ifs with hshape hedges
          · refine ⟨(fun h => by cases h), fun h => ?_⟩
            simp only [Option.some.injEq, Gate.threshold.injEq] at h
            simp [h.1.2.2] at hshape
          · refine ⟨(fun h => by cases h), fun h => ?_⟩
            simp only [Option.some.injEq, Gate.threshold.injEq] at h
            rw [h.1.2.2.2, ← Bool.not_eq_false, zip_any_ne rfl] at hedges
            exact absurd rfl hedges
          · rw [not_or, not_ne_iff, not_ne_iff] at hshape
            have hedges := (zip_any_ne hshape.2).mp (Bool.not_eq_true _ ▸ hedges)
            simp [hshape.1, hedges, hbounds, hplaced, NetworkNode.size, NetworkNode.leaves,
              Nat.add_assoc, eq_comm]
  case nil =>
    intro g l depth result
    have hplaced : PlacedAllAt gates leaves [] g l depth :=
      ⟨Nat.zero_le _, trivial, List.nil_prefix, List.nil_prefix⟩
    simp [checkChildren, hplaced, NetworkNode.roots, NetworkNode.sizes, NetworkNode.leavesAll,
      eq_comm]
  case cons =>
    intro child children hchild hchildren g l depth result
    rw [checkChildren, placedAllAt_cons]
    rcases hfirst : checkSubtree gates leaves child g l depth with ⟨_ | _, gEnd, lEnd⟩
    · refine ⟨(fun h => by cases h), fun h => ?_⟩
      rw [(hchild _ _ _ _ _).mpr ⟨h.1.1, rfl, rfl⟩] at hfirst
      cases hfirst
    · obtain ⟨hplaced, rfl, rfl⟩ := (hchild _ _ _ _ _).mp hfirst
      dsimp only
      rcases hrest : checkChildren gates leaves children (g + child.size)
        (l + child.leaves.length) depth with _ | rest
      · refine ⟨(fun h => by cases h), fun h => ?_⟩
        rw [(hchildren _ _ _ _).mpr ⟨h.1.2, rfl⟩] at hrest
        cases hrest
      · obtain ⟨hplacedAll, rfl⟩ := (hchildren _ _ _ _).mp hrest
        simp [hplaced, hplacedAll, NetworkNode.roots, NetworkNode.sizes,
          NetworkNode.leavesAll, Nat.add_assoc, eq_comm]

/-- The certificate accepts exactly the layout of a shallow tree with valid thresholds. -/
theorem checkCompilation_iff :
    checkCompilation node gates leaves = true ↔
      node.levels ≤ 3 ∧ node.ThresholdsValid ∧ gates = node.postorder 0 0 ∧
        leaves = node.leaves := by
  rcases hcheck : checkSubtree gates leaves node 0 0 3 with ⟨_ | _, gEnd, lEnd⟩
  · simp only [checkCompilation, hcheck, Bool.false_and, Bool.false_eq_true, false_iff]
    rintro ⟨hlevels, hthresholds, rfl, rfl⟩
    rw [((check_spec _ _).1 node 0 0 3 _ _).mpr
      ⟨⟨hlevels, hthresholds, List.prefix_rfl, List.prefix_rfl⟩, rfl, rfl⟩] at hcheck
    cases hcheck
  · obtain ⟨⟨hlevels, hthresholds, hgates, hleaves⟩, rfl, rfl⟩ :=
      ((check_spec _ _).1 node 0 0 3 _ _).mp hcheck
    simp only [checkCompilation, hcheck, Bool.true_and, Bool.and_eq_true, beq_iff_eq,
      Nat.zero_add, hlevels, hthresholds, true_and]
    rw [List.drop_zero] at hgates hleaves
    constructor
    · rintro ⟨hgateEnd, hleafEnd⟩
      rw [← node.length_postorder 0 0] at hgateEnd
      exact ⟨(hgates.eq_of_length hgateEnd).symm, (hleaves.eq_of_length hleafEnd).symm⟩
    · rintro ⟨rfl, rfl⟩
      exact ⟨(node.length_postorder 0 0).symm, rfl⟩

namespace NetworkNode

/-- The edges of a tree reach every gate but its root exactly once. -/
private theorem edges_perm :
    (∀ node : NetworkNode, ∀ g l,
      ((node.postorder g l).flatMap Gate.children).Perm (List.range' g (node.size - 1))) ∧
    ∀ children, ∀ g l,
      ((postorderAll g l children).flatMap Gate.children ++ roots g children).Perm
        (List.range' g (sizes children)) := by
  refine forest_induction ?leaf ?threshold ?nil ?cons
  case leaf => exact fun _ _ _ _ => .refl _
  case threshold =>
    intro _ required children ih g l
    simpa [postorder, Gate.children, size] using ih g l
  case nil => exact fun _ _ => .refl _
  case cons =>
    intro child children hchild hchildren g l
    have hroot : List.range' g child.size =
        List.range' g (child.size - 1) ++ [g + child.size - 1] := by
      have hpos := child.size_pos
      conv_lhs => rw [← Nat.sub_add_cancel hpos, List.range'_concat]
      rw [Nat.one_mul, Nat.add_sub_assoc hpos]
    rw [sizes, ← List.range'_append_1, hroot, postorderAll, roots, List.flatMap_append]
    refine List.Perm.trans ?_ (((hchild g l).append_right _).append
      (hchildren _ (l + child.leaves.length)))
    simp only [List.append_assoc, List.singleton_append]
    exact List.perm_middle.append_left _

/-- Every edge of the layout goes back. -/
private theorem edges_backward :
    (∀ node : NetworkNode, ∀ g l i gate, (node.postorder g l)[i]? = some gate →
      ∀ child ∈ gate.children, child < g + i) ∧
    ∀ children, ∀ g l i gate, (postorderAll g l children)[i]? = some gate →
      ∀ child ∈ gate.children, child < g + i := by
  refine forest_induction ?leaf ?threshold ?nil ?cons
  case leaf =>
    intro id providerId g l i gate hgate
    have hleaf := List.mem_of_getElem? hgate
    simp only [postorder, List.mem_singleton] at hleaf
    simp [hleaf, Gate.children]
  case threshold =>
    intro id required children ih g l i gate hgate child hchild
    rw [postorder] at hgate
    rcases Nat.lt_or_ge i (postorderAll g l children).length with hi | hi
    · rw [List.getElem?_append_left hi] at hgate
      exact ih g l i gate hgate child hchild
    · rw [List.getElem?_append_right hi] at hgate
      have hlast := List.mem_of_getElem? hgate
      rw [List.mem_singleton] at hlast
      have hmem : child ∈ roots g children := by simpa [hlast, Gate.children] using hchild
      have hrange := (edges_perm.2 children g l).subset (List.mem_append_right _ hmem)
      rw [length_postorderAll] at hi
      have := (List.mem_range'_1.mp hrange).2
      omega
  case nil => exact fun g l i gate hgate => by simp [postorderAll] at hgate
  case cons =>
    intro node children hnode hchildren g l i gate hgate child hchild
    rw [postorderAll] at hgate
    rcases Nat.lt_or_ge i (node.postorder g l).length with hi | hi
    · rw [List.getElem?_append_left hi] at hgate
      exact hnode g l i gate hgate child hchild
    · rw [List.getElem?_append_right hi] at hgate
      have := hchildren _ _ _ gate hgate child hchild
      rw [length_postorder] at this hi
      omega

/-- Every edge of the layout points to an earlier gate. -/
theorem postorder_backward {node : NetworkNode} {i : Nat} {gate : Gate}
    (h : (node.postorder 0 0)[i]? = some gate) : ∀ child ∈ gate.children, child < i := by
  simpa using edges_backward.1 node 0 0 i gate h

/-- Every gate of the layout but the last is the child of exactly one gate. -/
theorem postorder_parent_unique (node : NetworkNode) {i : Nat} (hi : i + 1 < node.size) :
    ∃! j : Nat, ∃ gate, (node.postorder 0 0)[j]? = some gate ∧ i ∈ gate.children := by
  have hperm := edges_perm.1 node 0 0
  have hnodup : ((node.postorder 0 0).flatMap Gate.children).Nodup :=
    hperm.nodup_iff.mpr (List.nodup_range' ..)
  have hmem : i ∈ (node.postorder 0 0).flatMap Gate.children :=
    hperm.mem_iff.mpr (List.mem_range'_1.mpr (by omega))
  obtain ⟨gate, hgate, hchild⟩ := List.mem_flatMap.mp hmem
  obtain ⟨j, hj⟩ := List.mem_iff_getElem?.mp hgate
  refine ⟨j, ⟨gate, hj, hchild⟩, ?_⟩
  rintro k ⟨other, hk, hother⟩
  have hdisjoint := (List.nodup_flatMap.mp hnodup).2
  obtain ⟨hjlt, rfl⟩ := List.getElem?_eq_some_iff.mp hj
  obtain ⟨hklt, rfl⟩ := List.getElem?_eq_some_iff.mp hk
  rcases lt_trichotomy k j with hlt | rfl | hlt
  · exact absurd hchild (List.pairwise_iff_getElem.mp hdisjoint _ _ hklt hjlt hlt hother)
  · rfl
  · exact absurd hother (List.pairwise_iff_getElem.mp hdisjoint _ _ hjlt hklt hlt hchild)

end NetworkNode

namespace ProductionPolicy

/-- A policy is fixed by its mode, TPM node and tree. -/
theorem new_eq_ok {mode : Mode} {tpmNodeId : UInt8} {network : NetworkNode}
    {policy : ProductionPolicy} :
    new mode tpmNodeId network = .ok policy ↔
      policy.mode = mode ∧ policy.tpmNodeId = tpmNodeId ∧ policy.network = network := by
  constructor
  · intro h
    unfold new at h
    split at h
    · cases h
    · split_ifs at h
      obtain rfl := Except.ok.inj h
      exact ⟨rfl, rfl, rfl⟩
  · rintro ⟨rfl, rfl, rfl⟩
    unfold new
    split
    next e h => cases policy.compiled.symm.trans h
    next plan h =>
      obtain rfl : policy.plan = plan := Except.ok.inj (policy.compiled.symm.trans h)
      rw [dif_pos policy.certified]

/-- Admission refuses with the compiler's own error and accepts every compiled tree. -/
theorem new_eq_error {mode : Mode} {tpmNodeId : UInt8} {network : NetworkNode} {e : PolicyError} :
    new mode tpmNodeId network = .error e ↔ compilePlan tpmNodeId network = .error e := by
  unfold new
  split
  next e' h => simp [h]
  next plan h =>
    obtain ⟨hwf, rfl⟩ := compilePlan_eq_ok.mp h
    rw [dif_pos (checkCompilation_iff.mpr ⟨hwf.shallow, hwf.thresholds, rfl, rfl⟩)]
    exact ⟨(fun he => by cases he), fun he => by cases h.symm.trans he⟩

/-- The policy of a well-formed tree. -/
def ofWellFormed (mode : Mode) (tpmNodeId : UInt8) (network : NetworkNode)
    (h : network.WellFormed tpmNodeId) : ProductionPolicy where
  mode := mode
  tpmNodeId := tpmNodeId
  network := network
  plan := ⟨network.postorder 0 0, network.leaves⟩
  compiled := compilePlan_eq_ok.mpr ⟨h, rfl⟩
  certified := checkCompilation_iff.mpr ⟨h.shallow, h.thresholds, rfl, rfl⟩

theorem wellFormed (policy : ProductionPolicy) : policy.network.WellFormed policy.tpmNodeId :=
  (compilePlan_eq_ok.mp policy.compiled).1

theorem plan_eq (policy : ProductionPolicy) :
    policy.plan = ⟨policy.network.postorder 0 0, policy.network.leaves⟩ :=
  (compilePlan_eq_ok.mp policy.compiled).2

/-- An admitted tree stands at the start of its own plan. -/
theorem placed (policy : ProductionPolicy) {depth : Nat} (h : policy.network.levels ≤ depth) :
    PlacedAt policy.plan.gates policy.plan.leaves policy.network 0 0 depth := by
  rw [policy.plan_eq]
  exact ⟨h, policy.wellFormed.thresholds, List.prefix_rfl, List.prefix_rfl⟩

theorem networkLeaves_eq (policy : ProductionPolicy) :
    policy.networkLeaves = policy.network.leaves := by
  rw [networkLeaves, plan_eq]

end ProductionPolicy

/-- The compiler's own traversal never reports a failed certificate. -/
private theorem compile_ne_invalidCompilation :
    (∀ node : NetworkNode, ∀ depth state,
      compileNode node depth state ≠ .error .invalidCompilation) ∧
    ∀ children, ∀ depth state,
      compileChildren children depth state ≠ .error .invalidCompilation := by
  have hadmit : ∀ id depth state, admitNode id depth state ≠ .error .invalidCompilation := by
    intro id depth state
    unfold admitNode
    split_ifs <;> simp
  refine NetworkNode.forest_induction ?leaf ?threshold ?nil ?cons
  case leaf =>
    intro id providerId depth state h
    rw [compileNode] at h
    rcases bind_eq_error.mp h with h | ⟨_, -, h⟩
    · exact hadmit _ _ _ h
    · split_ifs at h
      cases h
  case threshold =>
    intro id required children ih depth state h
    rw [compileNode] at h
    rcases bind_eq_error.mp h with h | ⟨_, -, h⟩
    · exact hadmit _ _ _ h
    · split_ifs at h
      · cases h
      · rcases bind_eq_error.mp h with h | ⟨_, -, h⟩
        · exact ih _ _ h
        · cases h
  case nil => exact fun _ _ h => by cases h
  case cons =>
    intro child children hchild hchildren depth state h
    rw [compileChildren] at h
    rcases bind_eq_error.mp h with h | ⟨_, -, h⟩
    · exact hchild _ _ h
    · rcases bind_eq_error.mp h with h | ⟨_, -, h⟩
      · exact hchildren _ _ h
      · cases h

theorem compilePlan_ne_invalidCompilation (tpmNodeId : UInt8) (network : NetworkNode) :
    compilePlan tpmNodeId network ≠ .error .invalidCompilation := by
  intro h
  rcases bind_eq_error.mp h with h | ⟨_, -, h⟩
  · exact compile_ne_invalidCompilation.1 _ _ _ h
  · cases h

/-- Admission accepts exactly the well-formed trees, the certificate never
refuses the compiler's output, and an admitted plan is the postorder of its tree
with backward edges and one parent for every gate but the last. -/
theorem ProductionPolicy.new_exact (mode : Mode) (tpmNodeId : UInt8) (network : NetworkNode) :
    ((∃ policy, ProductionPolicy.new mode tpmNodeId network = .ok policy) ↔
      network.WellFormed tpmNodeId) ∧
    ProductionPolicy.new mode tpmNodeId network ≠ .error .invalidCompilation ∧
    ∀ policy, ProductionPolicy.new mode tpmNodeId network = .ok policy →
      policy.mode = mode ∧ policy.tpmNodeId = tpmNodeId ∧ policy.network = network ∧
      policy.networkLeaves = network.leaves ∧
      policy.plan.gates = network.postorder 0 0 ∧
      (∀ (parent : Nat) gate, policy.plan.gates[parent]? = some gate →
        ∀ child ∈ gate.children, child < parent) ∧
      ∀ child, child + 1 < policy.plan.gates.length →
        ∃! parent : Nat, ∃ gate, policy.plan.gates[parent]? = some gate ∧
          child ∈ gate.children := by
  refine ⟨⟨?_, ?_⟩, ?_, ?_⟩
  · rintro ⟨policy, h⟩
    obtain ⟨-, rfl, rfl⟩ := new_eq_ok.mp h
    exact policy.wellFormed
  · intro hwf
    exact ⟨ofWellFormed mode tpmNodeId network hwf, new_eq_ok.mpr ⟨rfl, rfl, rfl⟩⟩
  · exact fun h => compilePlan_ne_invalidCompilation _ _ (new_eq_error.mp h)
  · intro policy h
    obtain ⟨hmode, htpm, rfl⟩ := new_eq_ok.mp h
    have hgates : policy.plan.gates = policy.network.postorder 0 0 := by rw [policy.plan_eq]
    refine ⟨hmode, htpm, rfl, policy.networkLeaves_eq, hgates, ?_, ?_⟩
    · rw [hgates]
      exact fun parent gate hgate => NetworkNode.postorder_backward hgate
    · rw [hgates, NetworkNode.length_postorder]
      exact fun child hchild => policy.network.postorder_parent_unique hchild

/-- Either of two leaves. -/
def pairNetwork : NetworkNode :=
  .threshold 2 1 [.leaf 3 (Vector.replicate 32 7), .leaf 4 (Vector.replicate 32 8)]

/-- A two-level tree is admitted and its leaves come out in source order. -/
theorem ProductionPolicy.new_exact_pair :
    ∃ policy, ProductionPolicy.new .attested 1 pairNetwork = .ok policy ∧
      policy.networkLeaves = [(3, Vector.replicate 32 7), (4, Vector.replicate 32 8)] := by
  have hexact := ProductionPolicy.new_exact .attested 1 pairNetwork
  obtain ⟨policy, hpolicy⟩ := hexact.1.mpr (by decide)
  exact ⟨policy, hpolicy, (hexact.2.2 policy hpolicy).2.2.2.1⟩

end Leelo.Policy
