import Leelo.Core.Uniform
import Leelo.Policy.Threshold
import Leelo.Sss.Tape

/-!
# Perfect secrecy of the composed sharing

Enrollment splits the root secret two of two, one share for the TPM leaf and one
for the network tree. For any unauthorised set of leaves and any two roots, a
fixed shift of the coefficient tape leaves every exposed value unchanged. The
shift is built down the tree: each gate cancels its change at the satisfied
children, and each unsatisfied child absorbs its own change below.
-/

namespace Leelo.Policy

open Leelo.Core
open Leelo.Sss (Secret Share secretLen xorSecret xorBytes zeroSecret shareValue takeRows)

namespace NetworkNode

mutual
/-- The number of coefficient bytes drawn below a tree. -/
def tapeLength : NetworkNode → Nat
  | .leaf _ _ => 0
  | .threshold _ required children =>
    secretLen * (required.toNat - 1) + tapeLengthAll children
/-- The number of coefficient bytes drawn below a forest. -/
def tapeLengthAll : List NetworkNode → Nat
  | [] => 0
  | child :: children => child.tapeLength + tapeLengthAll children
end

mutual
/-- The leaf values as a function of the secret and the tape. -/
def leafShares : NetworkNode → Secret → List UInt8 → List NetworkShare
  | .leaf id _, secret, _ => [(id, secret)]
  | .threshold _ required children, secret, tape =>
    let drawn := secretLen * (required.toNat - 1)
    forestShares children 0
      (shareValue secret (takeRows (required.toNat - 1) secretLen (tape.take drawn)))
      (tape.drop drawn)
/-- The leaf values of a forest whose trees share the values at their coordinates. -/
def forestShares : List NetworkNode → Nat → (UInt8 → Secret) → List UInt8 → List NetworkShare
  | [], _, _, _ => []
  | child :: children, position, value, tape =>
    child.leafShares (value (UInt8.ofNat (position + 1))) (tape.take child.tapeLength) ++
      forestShares children (position + 1) value (tape.drop child.tapeLength)
end

/-- Splitting from a tape reads exactly its length. -/
private theorem split_tape :
    (∀ node : NetworkNode, node.ThresholdsValid → node.size ≤ 31 → ∀ secret tape rest,
      tape.length = node.tapeLength →
      node.splitTree Sss.tapeRng secret (tape ++ rest) = .ok (node.leafShares secret tape, rest)) ∧
    ∀ children, ThresholdsValidAll children → sizes children ≤ 31 →
      ∀ position (value : UInt8 → Secret) (shares : List Share) tape rest,
      shares.length = children.length →
      (∀ k share, shares[k]? = some share →
        share.value = value (UInt8.ofNat (position + k + 1))) →
      tape.length = tapeLengthAll children →
      splitForest Sss.tapeRng children shares (tape ++ rest) =
        .ok (forestShares children position value tape, rest) := by
  refine forest_induction ?leaf ?threshold ?nil ?cons
  case leaf =>
    intro id providerId _ _ secret tape rest htape
    obtain rfl := List.length_eq_zero_iff.mp htape
    rfl
  case threshold =>
    intro id required children ih hvalid hsmall secret tape rest htape
    simp only [ThresholdsValid] at hvalid
    simp only [size] at hsmall
    simp only [tapeLength] at htape
    obtain ⟨hpos, hle, hmax, hcount⟩ := gate_bounds ⟨hvalid.1, hvalid.2.1⟩ (by omega)
    have hdrawn : (tape.take (secretLen * (required.toNat - 1))).length =
        secretLen * (required.toNat - 1) := by
      rw [List.length_take]
      omega
    have hrows := Sss.fillRows_tape (required.toNat - 1) secretLen _
      (tape.drop (secretLen * (required.toNat - 1)) ++ rest) hdrawn
    rw [← List.append_assoc, List.take_append_drop] at hrows
    rw [splitTree, Sss.split_eq _ _ _ hpos hle hmax, hrows]
    refine ih hvalid.2.2 (by omega) 0 _ _ _ rest ?_ ?_ ?_
    · simp [Sss.sharesOf, hcount]
    · intro k share hshare
      simp only [Sss.sharesOf, List.getElem?_map, Option.map_eq_some_iff] at hshare
      obtain ⟨i, hi, rfl⟩ := hshare
      obtain ⟨hk, rfl⟩ := List.getElem?_eq_some_iff.mp hi
      simp
    · rw [List.length_drop]
      omega
  case nil =>
    intro _ _ position value shares tape rest hlen _ htape
    obtain rfl := List.length_eq_zero_iff.mp hlen
    obtain rfl := List.length_eq_zero_iff.mp htape
    rfl
  case cons =>
    intro child children hchild hchildren hvalid hsmall position value shares tape rest hlen
      hvalue htape
    simp only [ThresholdsValidAll] at hvalid
    simp only [sizes] at hsmall
    simp only [tapeLengthAll] at htape
    obtain _ | ⟨share, shares⟩ := shares
    · simp at hlen
    have hfirst := hchild hvalid.1 (by omega) share.value (tape.take child.tapeLength)
      (tape.drop child.tapeLength ++ rest) (by rw [List.length_take]; omega)
    rw [← List.append_assoc, List.take_append_drop] at hfirst
    have hrest := hchildren hvalid.2 (by omega) (position + 1) value shares
      (tape.drop child.tapeLength) rest (Nat.succ.inj hlen)
      (fun k other hother => by
        have hshift : position + 1 + k + 1 = position + (k + 1) + 1 := by omega
        rw [hshift]
        exact hvalue (k + 1) other hother)
      (by rw [List.length_drop]; omega)
    have hhead : share.value = value (UInt8.ofNat (position + 1)) := hvalue 0 share rfl
    rw [hhead] at hfirst
    simp only [splitForest, hhead, hfirst, ok_bind, hrest, forestShares]

/-- Two leaf values an observer of the exposed leaves cannot tell apart. -/
def AgreeOn (exposed : UInt8 → Bool) (a b : NetworkShare) : Prop :=
  a.1 = b.1 ∧ (exposed a.1 = true → a.2 = b.2)

/-- The coordinates of the satisfied trees of a forest. -/
def exposedCoordinates (exposed : UInt8 → Bool) : Nat → List NetworkNode → List UInt8
  | _, [] => []
  | position, child :: children =>
    if child.satisfied exposed then
      UInt8.ofNat (position + 1) :: exposedCoordinates exposed (position + 1) children
    else exposedCoordinates exposed (position + 1) children

theorem length_exposedCoordinates (exposed : UInt8 → Bool) (position : Nat)
    (children : List NetworkNode) :
    (exposedCoordinates exposed position children).length = satisfiedCount exposed children := by
  induction children generalizing position with
  | nil => rfl
  | cons child children ih =>
    rw [exposedCoordinates, satisfiedCount]
    split_ifs
    · rw [List.length_cons, ih, Nat.add_comm]
    · rw [ih, Nat.zero_add]

theorem zero_notMem_exposedCoordinates {exposed : UInt8 → Bool} {position : Nat}
    {children : List NetworkNode} (h : position + children.length < 256) :
    (0 : UInt8) ∉ exposedCoordinates exposed position children := by
  induction children generalizing position with
  | nil => simp [exposedCoordinates]
  | cons child children ih =>
    rw [List.length_cons] at h
    have hrest := ih (by omega : position + 1 + children.length < 256)
    rw [exposedCoordinates]
    split_ifs
    · rw [List.mem_cons, not_or]
      exact ⟨(Sss.ofNat_succ_ne_zero (by omega)).symm, hrest⟩
    · exact hrest

/-- Some rows carry any change of an unsatisfied gate to zero at its satisfied
children; a satisfied gate changes by nothing. -/
private theorem exists_gate_rows {exposed : UInt8 → Bool} {id required : UInt8}
    {children : List NetworkNode} (hlength : children.length < 256) {delta : Secret}
    (hdelta : (threshold id required children).satisfied exposed = true → delta = zeroSecret) :
    ∃ rows : List (List UInt8), rows.length = secretLen ∧
      (∀ row ∈ rows, row.length = required.toNat - 1) ∧
      ∀ x ∈ exposedCoordinates exposed 0 children, shareValue delta rows x = zeroSecret := by
  by_cases hsatisfied : (threshold id required children).satisfied exposed = true
  · refine ⟨List.replicate secretLen (List.replicate (required.toNat - 1) 0), by simp, ?_, ?_⟩
    · intro row hrow
      rw [List.eq_of_mem_replicate hrow, List.length_replicate]
    · intro x _
      rw [hdelta hsatisfied, Sss.shareValue_zero]
  · refine Sss.exists_shift_rows (zero_notMem_exposedCoordinates (by omega)) ?_ delta
    rw [length_exposedCoordinates]
    simpa [satisfied] using hsatisfied

theorem length_flatten_rows {degree : Nat} {rows : List (List UInt8)}
    (h : ∀ row ∈ rows, row.length = degree) : rows.flatten.length = rows.length * degree := by
  induction rows with
  | nil => simp
  | cons row rows ih =>
    rw [List.forall_mem_cons] at h
    rw [List.flatten_cons, List.length_append, ih h.2, h.1, List.length_cons, Nat.succ_mul,
      Nat.add_comm]

/-- A shift of the tape changes the secret and no exposed share. -/
private theorem exists_shift (exposed : UInt8 → Bool) :
    (∀ node : NetworkNode, node.size ≤ 31 → ∀ delta,
      (node.satisfied exposed = true → delta = zeroSecret) →
      ∃ shift : List UInt8, shift.length = node.tapeLength ∧
        ∀ secret tape, tape.length = node.tapeLength →
          List.Forall₂ (AgreeOn exposed) (node.leafShares secret tape)
            (node.leafShares (xorSecret secret delta) (xorBytes tape shift))) ∧
    ∀ children, sizes children ≤ 31 → ∀ position (delta : UInt8 → Secret),
      (∀ x ∈ exposedCoordinates exposed position children, delta x = zeroSecret) →
      ∃ shift : List UInt8, shift.length = tapeLengthAll children ∧
        ∀ (value : UInt8 → Secret) tape, tape.length = tapeLengthAll children →
          List.Forall₂ (AgreeOn exposed) (forestShares children position value tape)
            (forestShares children position (fun x => xorSecret (value x) (delta x))
              (xorBytes tape shift)) := by
  refine forest_induction ?leaf ?threshold ?nil ?cons
  case leaf =>
    intro id providerId _ delta hdelta
    refine ⟨[], rfl, fun secret tape _ => .cons ⟨rfl, fun hexposed => ?_⟩ .nil⟩
    rw [hdelta hexposed, Sss.xorSecret_zero]
  case threshold =>
    intro id required children ih hsmall delta hdelta
    simp only [size] at hsmall
    have hlength := length_le_sizes children
    obtain ⟨rows, hcount, hrows, hvanish⟩ := exists_gate_rows (by omega) hdelta
    obtain ⟨shift, hshift, hagree⟩ := ih (by omega) 0 (shareValue delta rows) hvanish
    have hflat : rows.flatten.length = secretLen * (required.toNat - 1) := by
      rw [length_flatten_rows hrows, hcount]
    refine ⟨rows.flatten ++ shift, by rw [List.length_append, hflat, hshift, tapeLength], ?_⟩
    intro secret tape htape
    rw [tapeLength] at htape
    have hdrawn : (tape.take (secretLen * (required.toNat - 1))).length =
        secretLen * (required.toNat - 1) := by
      rw [List.length_take]
      omega
    have htake : (xorBytes tape (rows.flatten ++ shift)).take
        (secretLen * (required.toNat - 1)) =
        xorBytes (tape.take (secretLen * (required.toNat - 1))) rows.flatten := by
      rw [xorBytes, List.take_zipWith, ← hflat, List.take_left]
      rfl
    have hdrop : (xorBytes tape (rows.flatten ++ shift)).drop
        (secretLen * (required.toNat - 1)) =
        xorBytes (tape.drop (secretLen * (required.toNat - 1))) shift := by
      rw [xorBytes, List.drop_zipWith, ← hflat, List.drop_left]
      rfl
    have hread : takeRows (required.toNat - 1) secretLen rows.flatten = rows := by
      rw [← hcount]
      exact Sss.takeRows_flatten hrows
    simp only [leafShares, htake, hdrop, Sss.takeRows_xorBytes, hread]
    have hvalue : shareValue (xorSecret secret delta)
        (List.zipWith xorBytes (takeRows (required.toNat - 1) secretLen
          (tape.take (secretLen * (required.toNat - 1)))) rows) =
        fun x => xorSecret (shareValue secret (takeRows (required.toNat - 1) secretLen
          (tape.take (secretLen * (required.toNat - 1)))) x) (shareValue delta rows x) :=
      funext fun x => Sss.shareValue_xor (Sss.length_takeRows _ _ _) hcount
        (Sss.length_row_of_takeRows hdrawn) hrows secret delta x
    rw [hvalue]
    exact hagree _ _ (by rw [List.length_drop]; omega)
  case nil => exact fun _ _ _ _ => ⟨[], rfl, fun _ _ _ => .nil⟩
  case cons =>
    intro child children hchild hchildren hsmall position delta hdelta
    simp only [sizes] at hsmall
    rw [exposedCoordinates] at hdelta
    have hfirst : child.satisfied exposed = true →
        delta (UInt8.ofNat (position + 1)) = zeroSecret := by
      intro hsatisfied
      rw [if_pos hsatisfied] at hdelta
      exact hdelta _ (List.mem_cons_self ..)
    have hrest : ∀ x ∈ exposedCoordinates exposed (position + 1) children,
        delta x = zeroSecret := by
      intro x hx
      split_ifs at hdelta
      · exact hdelta x (List.mem_cons_of_mem _ hx)
      · exact hdelta x hx
    obtain ⟨first, hfirstLength, hfirstAgree⟩ := hchild (by omega) _ hfirst
    obtain ⟨rest, hrestLength, hrestAgree⟩ :=
      hchildren (by omega) (position + 1) delta hrest
    refine ⟨first ++ rest, by rw [List.length_append, hfirstLength, hrestLength, tapeLengthAll], ?_⟩
    intro value tape htape
    rw [tapeLengthAll] at htape
    have htake : (xorBytes tape (first ++ rest)).take child.tapeLength =
        xorBytes (tape.take child.tapeLength) first := by
      rw [xorBytes, List.take_zipWith, ← hfirstLength, List.take_left]
      rfl
    have hdrop : (xorBytes tape (first ++ rest)).drop child.tapeLength =
        xorBytes (tape.drop child.tapeLength) rest := by
      rw [xorBytes, List.drop_zipWith, ← hfirstLength, List.drop_left]
      rfl
    simp only [forestShares, htake, hdrop]
    exact List.rel_append (hfirstAgree _ _ (by rw [List.length_take]; omega))
      (hrestAgree _ _ (by rw [List.length_drop]; omega))

/-- Leaf values that agree on the exposed leaves have the same exposed part. -/
theorem filter_eq_of_agreeOn {exposed : UInt8 → Bool} {xs ys : List NetworkShare}
    (h : List.Forall₂ (AgreeOn exposed) xs ys) :
    xs.filter (fun share => exposed share.1) = ys.filter fun share => exposed share.1 := by
  induction h with
  | nil => rfl
  | @cons a b xs ys hab _ ih =>
    obtain ⟨hid, hvalue⟩ := hab
    rw [List.filter_cons, List.filter_cons, ← hid, ih]
    split_ifs with hexposed
    · rw [Prod.ext hid (hvalue hexposed)]
    · rfl

end NetworkNode

namespace ProductionPolicy

variable (policy : ProductionPolicy)

/-- The two splits of enrollment: the root two of two, then its second share down
the network tree. -/
def splitRoot {ρ : Type} (rng : Sss.Rng ρ) (root : Secret) (r : ρ) :
    Exec PolicyError (List NetworkShare × ρ) := do
  let (rootShares, r) ← Exec.lift .sharing (Sss.split rng root 2 2 r)
  match rootShares[0]?, rootShares[1]? with
  | some tpmShare, some networkShare =>
    let (networkShares, r) ← policy.splitNetwork rng networkShare.value r
    .ok ((policy.tpmNodeId, tpmShare.value) :: networkShares, r)
  | _, _ => .error .abort

/-- The implicit root as a tree: both the TPM leaf and the network. -/
def rootTree : NetworkNode :=
  .threshold policy.tpmNodeId 2
    [.leaf policy.tpmNodeId (Vector.replicate 32 0), policy.network]

/-- The number of coefficient bytes drawn by both splits. -/
def tapeLength : Nat := policy.rootTree.tapeLength

theorem rootTree_valid : policy.rootTree.ThresholdsValid :=
  ⟨by decide, le_rfl, trivial, policy.wellFormed.thresholds, trivial⟩

/-- The root's tree is small. -/
theorem rootTree_size : policy.rootTree.size ≤ 31 := by
  have := policy.wellFormed.small
  simp only [rootTree, NetworkNode.size, NetworkNode.sizes, maxNodes] at this ⊢
  omega

/-- The two splits share down the root tree. -/
theorem splitRoot_eq {ρ : Type} (rng : Sss.Rng ρ) (root : Secret) (r : ρ) :
    policy.splitRoot rng root r = Exec.lift .sharing (policy.rootTree.splitTree rng root r) := by
  have hsplit := @Sss.split_eq ρ 2 2 rng root r (by decide) le_rfl (by decide)
  have hcount : UInt8.ofNat [NetworkNode.leaf policy.tpmNodeId (Vector.replicate 32 0),
      policy.network].length = 2 := rfl
  rw [splitRoot, rootTree, NetworkNode.splitTree, hcount]
  cases hrows : rng.fillRows ((2 : UInt8).toNat - 1) secretLen r with
  | none =>
    rw [hrows] at hsplit
    rw [hsplit]
    rfl
  | some drawn =>
    obtain ⟨rows, r'⟩ := drawn
    obtain ⟨tpmShare, networkShare, hshares⟩ :
        ∃ tpmShare networkShare, Sss.sharesOf root rows 2 = [tpmShare, networkShare] := ⟨_, _, rfl⟩
    simp only [hrows, hshares] at hsplit
    rw [hsplit]
    simp only [Exec.lift_ok, ok_bind, List.getElem?_cons_zero, List.getElem?_cons_succ,
      splitNetwork_eq, NetworkNode.splitForest, NetworkNode.splitTree]
    cases policy.network.splitTree rng networkShare.value r' with
    | error e => rfl
    | ok out => simp

/-- A finite tape of coefficient bytes. -/
abbrev Tape (n : Nat) := Fin n → UInt8

/-- Add a fixed list of bytes to a tape. -/
def Tape.shift {n : Nat} (shift : List UInt8) (h : shift.length = n) : Tape n ≃ Tape n :=
  Function.Involutive.toPerm (fun tape i => tape i ^^^ shift.get (i.cast h.symm))
    fun tape => funext fun i => by
      simp only [UInt8.xor_assoc, UInt8.xor_self, UInt8.xor_zero]

theorem Tape.ofFn_shift {n : Nat} (shift : List UInt8) (h : shift.length = n) (tape : Tape n) :
    List.ofFn (Tape.shift shift h tape) = xorBytes (List.ofFn tape) shift := by
  subst h
  refine List.ext_getElem (by simp [xorBytes]) fun k hk _ => ?_
  simp [Tape.shift, xorBytes]

/-- What an observer of the exposed leaves sees of one enrollment. -/
def exposedView (exposed : UInt8 → Bool) (root : Secret) (tape : Tape policy.tapeLength) :
    Exec PolicyError (List NetworkShare) :=
  (policy.splitRoot Sss.tapeRng root (List.ofFn tape)).map fun out =>
    out.1.filter fun share => exposed share.1

/-- A full tape supplies both splits exactly. -/
theorem splitRoot_tape (root : Secret) (tape : Tape policy.tapeLength) :
    policy.splitRoot Sss.tapeRng root (List.ofFn tape) =
      .ok (policy.rootTree.leafShares root (List.ofFn tape), []) := by
  have htape := NetworkNode.split_tape.1 policy.rootTree policy.rootTree_valid
    policy.rootTree_size root (List.ofFn tape) [] (by rw [List.length_ofFn]; rfl)
  rw [List.append_nil] at htape
  rw [splitRoot_eq, htape, Exec.lift_ok]

theorem rootTree_unsatisfied {exposed : UInt8 → Bool}
    (h : exposed policy.tpmNodeId = false ∨ policy.network.satisfied exposed = false) :
    policy.rootTree.satisfied exposed = false := by
  have hleaf : (NetworkNode.leaf policy.tpmNodeId (Vector.replicate 32 0)).satisfied exposed =
      exposed policy.tpmNodeId := rfl
  have htwo : (2 : UInt8).toNat = 2 := rfl
  rw [rootTree, NetworkNode.satisfied, decide_eq_false_iff_not, not_le, htwo]
  simp only [NetworkNode.satisfiedCount, hleaf]
  rcases h with h | h
  · rw [if_neg (by simp [h])]
    split_ifs <;> omega
  · rw [if_neg (by simp [h] : ¬ policy.network.satisfied exposed = true)]
    split_ifs <;> omega

/-- An unauthorised set of leaves sees the same under a fixed shift of the tape. -/
theorem exists_tape_shift {exposed : UInt8 → Bool}
    (h : exposed policy.tpmNodeId = false ∨ policy.network.satisfied exposed = false)
    (root root' : Secret) :
    ∃ e : Tape policy.tapeLength ≃ Tape policy.tapeLength,
      ∀ tape, policy.exposedView exposed root tape = policy.exposedView exposed root' (e tape) := by
  obtain ⟨shift, hlength, hagree⟩ := (NetworkNode.exists_shift exposed).1 policy.rootTree
    policy.rootTree_size (xorSecret root root')
    fun hsatisfied => absurd hsatisfied (by simp [policy.rootTree_unsatisfied h])
  have htape : shift.length = policy.tapeLength := hlength
  refine ⟨Tape.shift shift htape, fun tape => ?_⟩
  have hview := NetworkNode.filter_eq_of_agreeOn
    (hagree root (List.ofFn tape) (by rw [List.length_ofFn]; rfl))
  rw [Sss.xorSecret_cancel] at hview
  rw [exposedView, exposedView, splitRoot_tape, splitRoot_tape, Tape.ofFn_shift]
  exact congrArg Except.ok hview

/-- For any leaves without the TPM leaf or short of the network tree, two roots are related by a
bijection of the tapes that keeps the exposed values, so under uniform tapes these have one
distribution. Both splits succeed on every full tape. -/
theorem splitRoot_secrecy {exposed : UInt8 → Bool}
    (h : exposed policy.tpmNodeId = false ∨ policy.network.satisfied exposed = false)
    (root root' : Secret) :
    (∀ secret tape, ∃ leaves, policy.splitRoot Sss.tapeRng secret
      (List.ofFn (tape : Tape policy.tapeLength)) = .ok (leaves, [])) ∧
    (∃ e : Tape policy.tapeLength ≃ Tape policy.tapeLength,
      ∀ tape, policy.exposedView exposed root tape = policy.exposedView exposed root' (e tape)) ∧
    (PMF.uniformOfFintype (Tape policy.tapeLength)).map (policy.exposedView exposed root) =
      (PMF.uniformOfFintype (Tape policy.tapeLength)).map (policy.exposedView exposed root') := by
  obtain ⟨e, he⟩ := policy.exists_tape_shift h root root'
  exact ⟨fun secret tape => ⟨_, policy.splitRoot_tape secret tape⟩, ⟨e, he⟩,
    uniform_map_eq_of_equiv e he⟩

/-- The TPM leaf, one network leaf and half of the group learn nothing. -/
theorem splitRoot_secrecy_trio :
    (PMF.uniformOfFintype (Tape trioPolicy.tapeLength)).map (trioPolicy.exposedView
        (fun id => id == 1 || id == 3 || id == 6) (Vector.replicate 32 0)) =
      (PMF.uniformOfFintype (Tape trioPolicy.tapeLength)).map (trioPolicy.exposedView
        (fun id => id == 1 || id == 3 || id == 6) (Vector.replicate 32 1)) :=
  (splitRoot_secrecy trioPolicy (.inr rfl) (Vector.replicate 32 0) (Vector.replicate 32 1)).2.2

end ProductionPolicy

end Leelo.Policy
