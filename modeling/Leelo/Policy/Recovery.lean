import Leelo.Policy.Responses

/-!
# Sharing and recovering a network secret over the compiled plan

`splitGate` recurses from the last gate downwards, `recoverNetwork` loops over
the postorder gates and consumes each child value. Both index into the plan, so
a bad index would abort. On an admitted plan they never do: each is equal to a
recursion over the source tree.
-/

namespace Leelo.Policy

open Leelo.Core
open Leelo.Sss (Secret Share)

/-- A network leaf identifier and its secret payload. -/
abbrev NetworkShare := UInt8 × Secret

section Split

variable {ρ : Type}

/-- Share a secret below one gate and append the leaf payloads. The recursion
follows stored indices, so its depth is bounded by `fuel`. -/
def NetworkPlan.splitGate (plan : NetworkPlan) (rng : Sss.Rng ρ) :
    (fuel index : Nat) → Secret → ρ → List NetworkShare →
      Exec PolicyError (List NetworkShare × ρ)
  | 0, _, _, _, _ => .error .abort
  | fuel + 1, index, secret, r, leaves =>
    match plan.gates[index]? with
    | none => .error .abort
    | some (.leaf responseIndex) =>
      match plan.leaves[responseIndex]? with
      | none => .error .abort
      | some (id, _) => .ok (leaves ++ [(id, secret)], r)
    | some (.threshold required children) => do
      -- Shamir assigns coordinates 1..n in this child order.
      let (shares, r) ← Exec.lift .sharing
        (Sss.split rng secret (UInt8.ofNat required) (UInt8.ofNat children.length) r)
      (children.zip shares).foldlM (fun (leaves, r) (child, share) =>
        plan.splitGate rng fuel child share.value r leaves) (leaves, r)

/-- Split a network secret according to the validated policy. -/
def ProductionPolicy.splitNetwork (policy : ProductionPolicy) (rng : Sss.Rng ρ)
    (secret : Secret) (r : ρ) : Exec PolicyError (List NetworkShare × ρ) :=
  policy.plan.splitGate rng policy.plan.gates.length (policy.plan.gates.length - 1) secret r []

end Split

/-- The child loop of a threshold gate: take each present value as the share at
its position. A taken value is gone. -/
def takeShares : (position : Nat) → List Nat → List (Option Secret) → List Share →
    Exec PolicyError (List Share × List (Option Secret))
  | _, [], values, shares => .ok (shares, values)
  | position, child :: children, values, shares =>
    match values[child]? with
    | none => .error .abort
    | some none => takeShares (position + 1) children values shares
    | some (some secret) => do
      let share ← Exec.lift .sharing (Share.fromParts (UInt8.ofNat (position + 1)) secret)
      takeShares (position + 1) children (values.set child none) (shares ++ [share])

/-- The first supplied payload of a leaf. -/
def findShare (recovered : List NetworkShare) (id : UInt8) : Option Secret :=
  (recovered.find? fun share => share.1 == id).map Prod.snd

/-- One round of the recovery loop: append the value of the next gate. -/
def NetworkPlan.recoverGate (plan : NetworkPlan) (recovered : List NetworkShare)
    (values : List (Option Secret)) (gate : Gate) : Exec PolicyError (List (Option Secret)) :=
  match gate with
  | .leaf responseIndex =>
    match plan.leaves[responseIndex]? with
    | none => .error .abort
    | some (id, _) => .ok (values ++ [findShare recovered id])
  | .threshold required children => do
    let (shares, values) ← takeShares 0 children values []
    if shares.length < required then .ok (values ++ [none])
    else
      let secret ← Exec.lift .sharing (Sss.reconstruct (UInt8.ofNat required) shares)
      .ok (values ++ [some secret])

/-- Recover a candidate from authenticated leaves, checking every supplied leaf. -/
def ProductionPolicy.recoverNetwork (policy : ProductionPolicy) (recovered : List NetworkShare) :
    Exec PolicyError Secret := do
  let _ ← Exec.lift id (policy.plan.responses (recovered.map Prod.fst))
  let values ← policy.plan.gates.foldlM (policy.plan.recoverGate recovered) []
  match values.getLast? with
  | some (some secret) => .ok secret
  | _ => .error (.error .factorsNotSatisfied)

namespace NetworkNode

variable {ρ : Type}

mutual
/-- Share a secret down a tree. -/
def splitTree (rng : Sss.Rng ρ) : NetworkNode → Secret → ρ →
    Except Sss.Error (List NetworkShare × ρ)
  | .leaf id _, secret, r => .ok ([(id, secret)], r)
  | .threshold _ required children, secret, r => do
    let (shares, r) ← Sss.split rng secret required (UInt8.ofNat children.length) r
    splitForest rng children shares r
/-- Share each tree of a forest with its own share. -/
def splitForest (rng : Sss.Rng ρ) : List NetworkNode → List Share → ρ →
    Except Sss.Error (List NetworkShare × ρ)
  | child :: children, share :: shares, r => do
    let (first, r) ← child.splitTree rng share.value r
    let (rest, r) ← splitForest rng children shares r
    .ok (first ++ rest, r)
  | _, _, r => .ok ([], r)
end

/-- The shares of the present values, each at its position. -/
def presentShares : (position : Nat) → List (Option Secret) → List Share
  | _, [] => []
  | position, none :: values => presentShares (position + 1) values
  | position, some value :: values =>
    if h : UInt8.ofNat (position + 1) = 0 then presentShares (position + 1) values
    else ⟨UInt8.ofNat (position + 1), value, h⟩ :: presentShares (position + 1) values

/-- Combine child values at a threshold; too few leave it without a value. -/
def combine (required : UInt8) (values : List (Option Secret)) :
    Except Sss.Error (Option Secret) :=
  if (presentShares 0 values).length < required.toNat then .ok none
  else (Sss.reconstruct required (presentShares 0 values)).map some

mutual
/-- Recover the value of a tree from the supplied leaf values. -/
def recoverTree (supplied : UInt8 → Option Secret) : NetworkNode →
    Except Sss.Error (Option Secret)
  | .leaf id _ => .ok (supplied id)
  | .threshold _ required children => do
    let values ← recoverForest supplied children
    combine required values
/-- Recover the value of each tree of a forest. -/
def recoverForest (supplied : UInt8 → Option Secret) : List NetworkNode →
    Except Sss.Error (List (Option Secret))
  | [] => .ok []
  | child :: children => do
    let value ← child.recoverTree supplied
    let values ← recoverForest supplied children
    .ok (value :: values)
end

end NetworkNode

/-- Splitting from a placed gate is splitting down its tree. -/
private theorem splitGate_placed {ρ : Type} (plan : NetworkPlan) (rng : Sss.Rng ρ) :
    (∀ node : NetworkNode, ∀ fuel g l secret r acc,
      PlacedAt plan.gates plan.leaves node g l fuel →
      plan.splitGate rng fuel (g + node.size - 1) secret r acc =
        Exec.lift .sharing (node.splitTree rng secret r) >>= fun out =>
          .ok (acc ++ out.1, out.2)) ∧
    ∀ children, ∀ fuel g l shares r acc,
      PlacedAllAt plan.gates plan.leaves children g l fuel →
      ((NetworkNode.roots g children).zip shares).foldlM (fun (leaves, r) (child, share) =>
          plan.splitGate rng fuel child share.value r leaves) (acc, r) =
        Exec.lift .sharing (NetworkNode.splitForest rng children shares r) >>= fun out =>
          .ok (acc ++ out.1, out.2) := by
  refine NetworkNode.forest_induction ?leaf ?threshold ?nil ?cons
  case leaf =>
    intro id providerId fuel g l secret r acc hplaced
    obtain ⟨fuel, rfl⟩ := Nat.exists_eq_succ_of_ne_zero (not_or.mp hplaced.in_range).1
    obtain ⟨hleaf, hgate⟩ := (placedAt_leaf (Nat.succ_ne_zero fuel)).mp hplaced
    rw [NetworkPlan.splitGate, NetworkNode.size, Nat.add_sub_cancel, hgate]
    simp only [hleaf]
    rfl
  case threshold =>
    intro id required children ih fuel g l secret r acc hplaced
    obtain ⟨fuel, rfl⟩ := Nat.exists_eq_succ_of_ne_zero (not_or.mp hplaced.in_range).1
    obtain ⟨-, hchildren, hgate⟩ := (placedAt_threshold (Nat.succ_ne_zero fuel)).mp hplaced
    rw [NetworkPlan.splitGate, NetworkNode.size, ← Nat.add_assoc, Nat.add_sub_cancel, hgate]
    simp only [NetworkNode.splitTree, UInt8.ofNat_toNat, NetworkNode.length_roots,
      Exec.lift_bind]
    cases Sss.split rng secret required (UInt8.ofNat children.length) r with
    | error e => rfl
    | ok out => exact ih _ g l out.1 out.2 acc hchildren
  case nil =>
    intro fuel g l shares r acc _
    simp [NetworkNode.roots, NetworkNode.splitForest, pure, Except.pure]
  case cons =>
    intro child children hchild hchildren fuel g l shares r acc hplaced
    obtain ⟨hfirst, hrest⟩ := placedAllAt_cons.mp hplaced
    cases shares with
    | nil => simp [NetworkNode.splitForest, pure, Except.pure]
    | cons share shares =>
      rw [NetworkNode.roots, List.zip_cons_cons, List.foldlM_cons, NetworkNode.splitForest,
        Exec.lift_bind]
      dsimp only
      rw [hchild fuel g l share.value r acc hfirst]
      cases child.splitTree rng share.value r with
      | error e => rfl
      | ok out =>
        simp only [Exec.lift_ok, ok_bind, Exec.lift_bind]
        rw [hchildren fuel (g + child.size) _ shares out.2 (acc ++ out.1) hrest]
        cases NetworkNode.splitForest rng children shares out.2 with
        | error e => rfl
        | ok rest => simp

/-- On an admitted policy splitting never aborts and follows the tree. -/
theorem ProductionPolicy.splitNetwork_eq {ρ : Type} (policy : ProductionPolicy)
    (rng : Sss.Rng ρ) (secret : Secret) (r : ρ) :
    policy.splitNetwork rng secret r =
      Exec.lift .sharing (policy.network.splitTree rng secret r) := by
  have hsize : policy.plan.gates.length = policy.network.size := by
    rw [policy.plan_eq, NetworkNode.length_postorder]
  have hsplit := (splitGate_placed policy.plan rng).1 policy.network _ 0 0 secret r []
    (policy.placed policy.network.levels_le_size)
  rw [Nat.zero_add] at hsplit
  rw [splitNetwork, hsize, hsplit]
  cases policy.network.splitTree rng secret r <;> rfl

/-- Forest values in postorder position, with every consumed value gone. -/
private def placeValues : List NetworkNode → List (Option Secret) → List (Option Secret)
  | child :: children, value :: values =>
    List.replicate (child.size - 1) none ++ value :: placeValues children values
  | _, _ => []

/-- The child loop takes exactly the present values and leaves nothing behind. -/
private theorem takeShares_roots (children : List NetworkNode)
    (values before : List (Option Secret))
    (shares : List Share) (position : Nat) (hlen : values.length = children.length)
    (hposition : position + children.length < 256) :
    takeShares position (NetworkNode.roots before.length children)
        (before ++ placeValues children values) shares =
      .ok (shares ++ NetworkNode.presentShares position values,
        before ++ List.replicate (NetworkNode.sizes children) none) := by
  induction children generalizing values before shares position with
  | nil =>
    obtain rfl := List.length_eq_zero_iff.mp hlen
    simp [NetworkNode.roots, takeShares, placeValues, NetworkNode.presentShares,
      NetworkNode.sizes]
  | cons child children ih =>
    obtain _ | ⟨value, values⟩ := values
    · simp at hlen
    have hsize := child.size_pos
    have hat : before.length + child.size - 1 =
        (before ++ List.replicate (child.size - 1) none : List (Option Secret)).length := by
      simp only [List.length_append, List.length_replicate]
      omega
    have hnext : before.length + child.size =
        (before ++ List.replicate (child.size - 1) none ++ [none] :
          List (Option Secret)).length := by
      simp only [List.length_append, List.length_replicate, List.length_singleton]
      omega
    have hlist : before ++ placeValues (child :: children) (value :: values) =
        before ++ List.replicate (child.size - 1) none ++ value :: placeValues children values := by
      simp [placeValues]
    have hget : (before ++ placeValues (child :: children) (value :: values))[
        before.length + child.size - 1]? = some value := by
      rw [hlist, hat]
      simp
    have hgone : before ++ List.replicate (child.size - 1) none ++ [none] ++
        List.replicate (NetworkNode.sizes children) none =
        before ++
          List.replicate (NetworkNode.sizes (child :: children)) (none : Option Secret) := by
      rw [NetworkNode.sizes, List.append_assoc, List.append_assoc]
      congr 1
      rw [← List.append_assoc, ← List.replicate_succ', List.replicate_append_replicate]
      congr 1
      omega
    rw [NetworkNode.roots, takeShares, hget]
    simp only [List.length_cons] at hposition hlen
    cases value with
    | none =>
      dsimp only
      have hrest := ih values (before ++ List.replicate (child.size - 1) none ++ [none]) shares
        (position + 1) (by omega) (by omega)
      rw [hnext, hlist, NetworkNode.presentShares, ← hgone, ← hrest]
      simp
    | some secret =>
      have hcoordinate : UInt8.ofNat (position + 1) ≠ 0 :=
        Sss.ofNat_succ_ne_zero (by omega)
      have hset : (before ++ placeValues (child :: children) (some secret :: values)).set
          (before.length + child.size - 1) none =
          before ++ List.replicate (child.size - 1) none ++ [none] ++
            placeValues children values := by
        rw [hlist, hat, List.set_append_right _ _ le_rfl]
        simp
      have hrest := ih values (before ++ List.replicate (child.size - 1) none ++ [none])
        (shares ++ [⟨UInt8.ofNat (position + 1), secret, hcoordinate⟩]) (position + 1)
        (by omega) (by omega)
      simp only [Share.fromParts, dif_neg hcoordinate, Exec.lift_ok, ok_bind]
      rw [hset, hnext, hrest, NetworkNode.presentShares, dif_neg hcoordinate, hgone,
        List.append_assoc, List.singleton_append]

private theorem length_recoverForest {supplied : UInt8 → Option Secret}
    {children : List NetworkNode} {values : List (Option Secret)}
    (h : NetworkNode.recoverForest supplied children = .ok values) :
    values.length = children.length := by
  induction children generalizing values with
  | nil =>
    obtain rfl := Except.ok.inj h
    rfl
  | cons child children ih =>
    rw [NetworkNode.recoverForest, bind_eq_ok] at h
    obtain ⟨value, -, h⟩ := h
    obtain ⟨rest, hrest, h⟩ := bind_eq_ok.mp h
    obtain rfl := Except.ok.inj h
    simp [ih hrest]

/-- The loop over a placed layout computes the tree's value and consumes the rest. -/
private theorem recoverGate_placed (plan : NetworkPlan) (recovered : List NetworkShare) :
    (∀ node : NetworkNode, ∀ l values, node.leaves <+: plan.leaves.drop l → node.size < 256 →
      (node.postorder values.length l).foldlM (plan.recoverGate recovered) values =
        Exec.lift .sharing (node.recoverTree (findShare recovered)) >>= fun value =>
          .ok (values ++ List.replicate (node.size - 1) none ++ [value])) ∧
    ∀ children, ∀ l values, NetworkNode.leavesAll children <+: plan.leaves.drop l →
      NetworkNode.sizes children < 256 →
      (NetworkNode.postorderAll values.length l children).foldlM (plan.recoverGate recovered)
          values =
        Exec.lift .sharing (NetworkNode.recoverForest (findShare recovered) children) >>= fun out =>
          .ok (values ++ placeValues children out) := by
  refine NetworkNode.forest_induction ?leaf ?threshold ?nil ?cons
  case leaf =>
    intro id providerId l values hleaves _
    have hleaf := singleton_prefix_drop.mp hleaves
    simp only [NetworkNode.postorder, List.foldlM_cons, List.foldlM_nil, bind_pure,
      NetworkPlan.recoverGate, hleaf]
    simp [NetworkNode.recoverTree, NetworkNode.size]
  case threshold =>
    intro id required children ih l values hleaves hsize
    rw [NetworkNode.size] at hsize
    rw [NetworkNode.postorder, List.foldlM_append, ih l values hleaves (by omega),
      NetworkNode.recoverTree, Exec.lift_bind]
    cases hforest : NetworkNode.recoverForest (findShare recovered) children with
    | error e => rfl
    | ok out =>
      have hlen := length_recoverForest hforest
      have hbound := NetworkNode.length_le_sizes children
      have htake := takeShares_roots children out values [] 0 hlen (by omega)
      simp only [Exec.lift_ok, ok_bind, List.foldlM_cons, List.foldlM_nil, bind_pure,
        NetworkPlan.recoverGate, htake, List.nil_append, UInt8.ofNat_toNat, NetworkNode.combine,
        NetworkNode.size, Nat.add_sub_cancel]
      split_ifs
      · rfl
      · cases Sss.reconstruct required (NetworkNode.presentShares 0 out) <;> rfl
  case nil =>
    intro l values _ _
    simp [NetworkNode.postorderAll, NetworkNode.recoverForest, placeValues, pure, Except.pure]
  case cons =>
    intro child children hchild hchildren l values hleaves hsize
    rw [NetworkNode.leavesAll, append_prefix_drop] at hleaves
    rw [NetworkNode.sizes] at hsize
    have hpos := child.size_pos
    rw [NetworkNode.postorderAll, List.foldlM_append, hchild l values hleaves.1 (by omega),
      NetworkNode.recoverForest, Exec.lift_bind]
    cases child.recoverTree (findShare recovered) with
    | error e => rfl
    | ok value =>
      have hlen : values.length + child.size =
          (values ++ List.replicate (child.size - 1) none ++ [value]).length := by
        simp only [List.length_append, List.length_replicate, List.length_singleton]
        omega
      simp only [Exec.lift_ok, ok_bind, Exec.lift_bind]
      rw [hlen, hchildren _ _ hleaves.2 (by omega)]
      cases NetworkNode.recoverForest (findShare recovered) children with
      | error e => rfl
      | ok out => simp [placeValues]

/-- The result of recovery from the value of the tree. -/
def recoveryResult : Except Sss.Error (Option Secret) → Exec PolicyError Secret
  | .error e => .error (.error (.sharing e))
  | .ok none => .error (.error .factorsNotSatisfied)
  | .ok (some secret) => .ok secret

/-- On an admitted policy recovery never aborts: after the response check it is
the recovery of the tree. -/
theorem ProductionPolicy.recoverNetwork_eq (policy : ProductionPolicy)
    (recovered : List NetworkShare) :
    policy.recoverNetwork recovered =
      match policy.plan.responses (recovered.map Prod.fst) with
      | .error e => .error (.error e)
      | .ok _ => recoveryResult (policy.network.recoverTree (findShare recovered)) := by
  have hleaves : policy.network.leaves <+: policy.plan.leaves.drop 0 :=
    (policy.placed le_rfl).leaves
  have hsmall : policy.network.size < 256 := by
    have := policy.wellFormed.small
    simp only [maxNodes] at this
    omega
  have hloop := (recoverGate_placed policy.plan recovered).1 policy.network 0 [] hleaves hsmall
  have hgates : policy.plan.gates = policy.network.postorder 0 0 := by rw [policy.plan_eq]
  rw [recoverNetwork, hgates]
  cases policy.plan.responses (recovered.map Prod.fst) with
  | error e => rfl
  | ok responses =>
    rw [Exec.lift_ok, ok_bind]
    rw [List.length_nil] at hloop
    rw [hloop]
    generalize policy.network.recoverTree (findShare recovered) = value
    rcases value with e | _ | secret
    · rfl
    · simp [recoveryResult]
    · simp [recoveryResult]

end Leelo.Policy
