import Leelo.Core.Cbor
import Leelo.Core.Exec
import Leelo.Crypto.Primitives
import Leelo.Policy.Admission

/-!
# The signed descriptor

The descriptor is the public configuration of one enrollment: the volume and slot, the
policy tree, one binding for each network leaf and the platform registers. Its
encoder refuses an invalid descriptor, and its decoder rebuilds the compiled policy and
accepts only the bytes that the encoder writes for the result.
-/

namespace Leelo.Envelope

open Leelo.Core Leelo.Policy Leelo.Crypto

/-- The version of the format. -/
def version : UInt8 := 1
/-- The suite of algorithms. -/
def suite : UInt8 := 1
/-- The largest envelope. -/
def maxEnvelope : Nat := 64 * 1024
/-- The largest area of the module's object. -/
def maxTpmBlob : Nat := 4096

/-- The errors of the format. -/
inductive EnvelopeError where
  | tooLarge
  | malformed
  | nonCanonical
  | unsupported
  | invalidPolicy
  | invalidProvider
  | invalidSignature
  deriving DecidableEq, Repr

/-- The server key and input seed that a network leaf is bound to. -/
structure NetworkBinding where
  nodeId : UInt8
  providerId : ProviderId
  keyId : Vector UInt8 32
  publicKey : PointBytes
  inputSeed : Vector UInt8 32
  deriving DecidableEq

/-- The public configuration. -/
structure Descriptor where
  bindingId : Vector UInt8 32
  volumeUuid : Vector UInt8 16
  slot : UInt8
  generation : UInt64
  policy : ProductionPolicy
  networks : List NetworkBinding
  tpmPcrMask : UInt32
  tpmPcrDigest : Vector UInt8 32

section Validate

variable (P : Primitives)

/-- Each binding repeats its leaf and names its own, well-formed key. -/
def checkBindings : List ((UInt8 × ProviderId) × NetworkBinding) → Except EnvelopeError Unit
  | [] => .ok ()
  | ((id, providerId), binding) :: rest =>
    if id ≠ binding.nodeId ∨ providerId ≠ binding.providerId ∨
        binding.keyId ≠ keyId P binding.publicKey then
      .error .invalidProvider
    else
      match ServerPublicKey.fromBytes P binding.publicKey with
      | .error _ => .error .invalidProvider
      | .ok _ => checkBindings rest

/-- No binding repeats a key identifier or a key of an earlier one. -/
def checkDistinct (earlier : List NetworkBinding) :
    List NetworkBinding → Except EnvelopeError Unit
  | [] => .ok ()
  | binding :: rest =>
    if earlier.any fun other =>
        other.keyId == binding.keyId || other.publicKey == binding.publicKey then
      .error .invalidProvider
    else checkDistinct (earlier ++ [binding]) rest

/-- Checks a descriptor. -/
def validateDescriptor (d : Descriptor) : Except EnvelopeError Unit :=
  if d.slot ≥ 32 ∨ d.generation = 0 ∨ d.bindingId = Vector.replicate 32 0 ∨
      d.volumeUuid = Vector.replicate 16 0 ∨ d.tpmPcrMask = 0 ∨
      d.tpmPcrMask &&& 0xff000000 ≠ 0 then
    .error .invalidPolicy
  else if d.policy.networkLeaves.length ≠ d.networks.length then .error .invalidProvider
  else do
    checkBindings P (d.policy.networkLeaves.zip d.networks)
    checkDistinct [] d.networks

/-- What validation accepts: fields in range, bindings that repeat the leaves of the
policy in order, and pairwise distinct canonical keys under their own identifiers. -/
structure Descriptor.Valid (d : Descriptor) : Prop where
  fields : ¬(d.slot ≥ 32 ∨ d.generation = 0 ∨ d.bindingId = Vector.replicate 32 0 ∨
    d.volumeUuid = Vector.replicate 16 0 ∨ d.tpmPcrMask = 0 ∨ d.tpmPcrMask &&& 0xff000000 ≠ 0)
  leaves : d.networks.map (fun binding => (binding.nodeId, binding.providerId)) =
    d.policy.networkLeaves
  keys : ∀ binding ∈ d.networks,
    binding.keyId = keyId P binding.publicKey ∧ P.Canonical binding.publicKey
  distinct : d.networks.Pairwise fun a b => a.keyId ≠ b.keyId ∧ a.publicKey ≠ b.publicKey

variable {P}

/-- The bindings pass where they match their leaves and name their keys. -/
private theorem checkBindings_eq_ok {pairs : List ((UInt8 × ProviderId) × NetworkBinding)} :
    checkBindings P pairs = .ok () ↔ ∀ pair ∈ pairs,
      pair.1 = (pair.2.nodeId, pair.2.providerId) ∧
        pair.2.keyId = keyId P pair.2.publicKey ∧ P.Canonical pair.2.publicKey := by
  induction pairs with
  | nil => simp [checkBindings]
  | cons pair pairs ih =>
    obtain ⟨⟨id, providerId⟩, binding⟩ := pair
    rw [List.forall_mem_cons, ← ih, checkBindings]
    split_ifs with hbad
    · refine iff_of_false (fun h => by cases h) ?_
      rintro ⟨⟨hleaf, hkey, -⟩, -⟩
      obtain ⟨hid, hprovider⟩ := Prod.mk.inj hleaf
      rcases hbad with hne | hne | hne
      · exact hne hid
      · exact hne hprovider
      · exact hne hkey
    · simp only [not_or, not_not] at hbad
      obtain ⟨rfl, rfl, hkey⟩ := hbad
      cases hfrom : ServerPublicKey.fromBytes P binding.publicKey with
      | error e =>
        refine iff_of_false (fun h => by cases h) ?_
        rintro ⟨⟨-, -, hcanonical⟩, -⟩
        have hok := ServerPublicKey.fromBytes_eq_ok.mpr
          (show (⟨_, hcanonical⟩ : ServerPublicKey P).bytes = binding.publicKey from rfl)
        rw [hfrom] at hok
        cases hok
      | ok key =>
        have hcanonical := key.canonical
        rw [ServerPublicKey.fromBytes_eq_ok.mp hfrom] at hcanonical
        exact ⟨fun h => ⟨⟨rfl, hkey, hcanonical⟩, h⟩, fun h => h.2⟩

/-- The keys pass where no two are the same. -/
private theorem checkDistinct_eq_ok {earlier rest : List NetworkBinding} :
    checkDistinct earlier rest = .ok () ↔
      (∀ a ∈ earlier, ∀ b ∈ rest, a.keyId ≠ b.keyId ∧ a.publicKey ≠ b.publicKey) ∧
      rest.Pairwise fun a b => a.keyId ≠ b.keyId ∧ a.publicKey ≠ b.publicKey := by
  induction rest generalizing earlier with
  | nil => simp [checkDistinct]
  | cons binding rest ih =>
    rw [checkDistinct, List.pairwise_cons]
    by_cases hany : (earlier.any fun other =>
        other.keyId == binding.keyId || other.publicKey == binding.publicKey) = true
    · rw [if_pos hany]
      simp only [List.any_eq_true, Bool.or_eq_true, beq_iff_eq] at hany
      obtain ⟨other, hother, hsame⟩ := hany
      simp only [reduceCtorEq, false_iff]
      intro h
      have hne := h.1 other hother binding List.mem_cons_self
      tauto
    · rw [if_neg hany, ih]
      simp only [List.any_eq_true, Bool.or_eq_true, beq_iff_eq, not_exists, not_and,
        not_or] at hany
      simp only [List.forall_mem_append, List.forall_mem_singleton, List.forall_mem_cons]
      constructor
      · rintro ⟨⟨hcross, hhead⟩, hrest⟩
        exact ⟨fun a ha => ⟨hany a ha, hcross a ha⟩, hhead, hrest⟩
      · rintro ⟨hcross, hhead, hrest⟩
        exact ⟨⟨fun a ha => (hcross a ha).2, hhead⟩, hrest⟩

/-- A zip that repeats its left half on the right is that half. -/
private theorem zip_repeats {leaves : List (UInt8 × ProviderId)} {networks : List NetworkBinding}
    (hlength : leaves.length = networks.length) :
    (∀ pair ∈ leaves.zip networks, pair.1 = (pair.2.nodeId, pair.2.providerId)) ↔
      networks.map (fun binding => (binding.nodeId, binding.providerId)) = leaves := by
  induction leaves generalizing networks with
  | nil =>
    have hnil : networks = [] := List.length_eq_zero_iff.mp hlength.symm
    simp [hnil]
  | cons leaf leaves ih =>
    cases networks with
    | nil => cases hlength
    | cons binding networks =>
      rw [List.zip_cons_cons, List.forall_mem_cons, ih (Nat.succ.inj hlength), List.map_cons,
        List.cons.injEq, eq_comm]

/-- The check passes exactly for valid descriptors. -/
theorem validateDescriptor_eq_ok {d : Descriptor} :
    validateDescriptor P d = .ok () ↔ d.Valid P := by
  unfold validateDescriptor
  split_ifs with hfields hlength
  · exact iff_of_false (fun h => by cases h) fun h => h.fields hfields
  · refine iff_of_false (fun h => by cases h) fun h => hlength ?_
    rw [← h.leaves, List.length_map]
  · have hlength := not_not.mp hlength
    have hsnd : (d.policy.networkLeaves.zip d.networks).map Prod.snd = d.networks :=
      List.map_snd_zip (Nat.le_of_eq hlength.symm)
    rw [bind_eq_ok]
    constructor
    · rintro ⟨⟨⟩, hbindings, hdistinct⟩
      have hbindings := checkBindings_eq_ok.mp hbindings
      have hdistinct := (checkDistinct_eq_ok.mp hdistinct).2
      refine ⟨hfields, (zip_repeats hlength).mp fun pair hpair => (hbindings pair hpair).1, ?_,
        hdistinct⟩
      intro binding hbinding
      rw [← hsnd] at hbinding
      obtain ⟨pair, hpair, rfl⟩ := List.mem_map.mp hbinding
      exact (hbindings pair hpair).2
    · intro h
      refine ⟨(), checkBindings_eq_ok.mpr fun pair hpair =>
        ⟨(zip_repeats hlength).mpr h.leaves pair hpair, ?_⟩,
        checkDistinct_eq_ok.mpr ⟨?_, h.distinct⟩⟩
      · have hmem : pair.2 ∈ d.networks := by
          rw [← hsnd]
          exact List.mem_map_of_mem hpair
        exact h.keys pair.2 hmem
      · exact fun a ha => absurd ha List.not_mem_nil

end Validate

section Codec

variable (cbor : Cbor)

/-- An array head with exactly this count. -/
def arr (size : Nat) : Decoder EnvelopeError Unit := do
  let count ← orError cbor.getArray .malformed
  require (count = some size) .malformed

/-- Reads an octet. -/
def getU8 : Decoder EnvelopeError UInt8 := orError cbor.getU8 .malformed

/-- A byte string of exactly `n` bytes. -/
def bytes (n : Nat) : Decoder EnvelopeError (Vector UInt8 n) := do
  let value ← orError cbor.getBytes .malformed
  match tryInto n value with
  | some array => pure array
  | none => throw .malformed

/-- A nonempty byte string of at most `max` bytes. -/
def boundedBytes (max : Nat) : Decoder EnvelopeError Bytes := do
  let value ← orError cbor.getBytes .malformed
  require (value ≠ [] ∧ value.length ≤ max) .tooLarge
  pure value

/-- The count of a definite array. -/
def definiteArray : Decoder EnvelopeError Nat := do
  match ← orError cbor.getArray .malformed with
  | some count => pure count
  | none => throw .malformed

/-- The count of a definite array of at most `max` elements. -/
def boundedArray (max : Nat) : Decoder EnvelopeError Nat := do
  let count ← definiteArray cbor
  require (count ≤ max) .tooLarge
  pure count

mutual
/-- Prints a node of the tree. -/
def putNode : NetworkNode → Bytes
  | .leaf id providerId =>
    cbor.putArray 3 ++ cbor.putU8 0 ++ cbor.putU8 id ++ cbor.putBytes providerId.toList
  | .threshold id required children =>
    cbor.putArray 4 ++ cbor.putU8 1 ++ cbor.putU8 id ++ cbor.putU8 required ++
      cbor.putArray children.length ++ putNodes children
/-- Prints nodes. -/
def putNodes : List NetworkNode → Bytes
  | [] => []
  | child :: children => putNode child ++ putNodes children
end

/-- Read a node within `levels` more levels. The source counts depth upwards from one and
refuses a depth above four, so it starts here with four levels; `nodes` is its counter. -/
def getNode : (levels nodes : Nat) → Decoder EnvelopeError (NetworkNode × Nat)
  | 0, _ => throw .tooLarge
  | levels + 1, nodes => do
    require (nodes < 30) .tooLarge
    let n ← definiteArray cbor
    let tag ← getU8 cbor
    let id ← getU8 cbor
    if n = 3 ∧ tag = 0 then do
      let providerId ← bytes cbor 32
      pure (.leaf id providerId, nodes + 1)
    else if n = 4 ∧ tag = 1 then do
      let required ← getU8 cbor
      let count ← boundedArray cbor 30
      let (children, nodes) ← readFold (getNode levels) count (nodes + 1)
      pure (.threshold id required children, nodes)
    else throw .malformed

/-- The tag of a mode. -/
def putMode : Mode → UInt8
  | .networkBound => 0
  | .attested => 1

/-- Reads a mode. -/
def getMode : Decoder EnvelopeError Mode := do
  let tag ← getU8 cbor
  if tag = 0 then pure .networkBound
  else if tag = 1 then pure .attested
  else throw .unsupported

/-- Prints a binding. -/
def putBinding (n : NetworkBinding) : Bytes :=
  cbor.putArray 5 ++ cbor.putU8 n.nodeId ++ cbor.putBytes n.providerId.toList ++
    cbor.putBytes n.keyId.toList ++ cbor.putBytes n.publicKey.toList ++
    cbor.putBytes n.inputSeed.toList

/-- Reads a binding. -/
def getBinding : Decoder EnvelopeError NetworkBinding := do
  arr cbor 5
  let nodeId ← getU8 cbor
  let providerId ← bytes cbor 32
  let keyId ← bytes cbor 32
  let publicKey ← bytes cbor pointBytes
  let inputSeed ← bytes cbor 32
  pure ⟨nodeId, providerId, keyId, publicKey, inputSeed⟩

/-- The fields in order, closed by the name of the payload. -/
def putDescriptor (d : Descriptor) : Bytes :=
  cbor.putArray 13 ++ cbor.putU8 version ++ cbor.putU8 suite ++
    cbor.putBytes d.bindingId.toList ++ cbor.putBytes d.volumeUuid.toList ++
    cbor.putU8 d.slot ++ cbor.putU64 d.generation ++ cbor.putU8 (putMode d.policy.mode) ++
    cbor.putU8 d.policy.tpmNodeId ++ putNode cbor d.policy.network ++
    cbor.putArray d.networks.length ++ d.networks.flatMap (putBinding cbor) ++
    cbor.putU32 d.tpmPcrMask ++ cbor.putBytes d.tpmPcrDigest.toList ++ cbor.putStr "luks2-slot"

/-- Reads a descriptor. -/
def getDescriptor : Decoder EnvelopeError Descriptor := do
  arr cbor 13
  let actualVersion ← getU8 cbor
  require (actualVersion = version) .unsupported
  let actualSuite ← getU8 cbor
  require (actualSuite = suite) .unsupported
  let bindingId ← bytes cbor 32
  let volumeUuid ← bytes cbor 16
  let slot ← getU8 cbor
  let generation ← orError cbor.getU64 .malformed
  let mode ← getMode cbor
  let tpmId ← getU8 cbor
  let (network, _) ← getNode cbor 4 0
  let policy ← fromExcept
    ((ProductionPolicy.new mode tpmId network).mapError fun _ => .invalidPolicy)
  let count ← boundedArray cbor 30
  let networks ← readList (getBinding cbor) count
  let tpmPcrMask ← orError cbor.getU32 .malformed
  let tpmPcrDigest ← bytes cbor 32
  let payload ← orError cbor.getStr .malformed
  require (payload = "luks2-slot") .malformed
  pure ⟨bindingId, volumeUuid, slot, generation, policy, networks, tpmPcrMask, tpmPcrDigest⟩

variable (P : Primitives)

/-- Prints a valid descriptor. -/
def descriptorBytes (d : Descriptor) : Except EnvelopeError Bytes := do
  validateDescriptor P d
  return putDescriptor cbor d

/-- Nothing may follow the last field, and the bytes must be the encoder's own. -/
def readDescriptor (raw : Bytes) : Except EnvelopeError Descriptor := do
  let (desc, rest) ← (getDescriptor cbor).run raw
  if rest ≠ [] then .error .malformed
  else
    let canonical ← descriptorBytes cbor P desc
    if canonical ≠ raw then .error .nonCanonical else .ok desc

end Codec

section RoundTrip

variable {cbor : Cbor}

variable (h : cbor.Rfc8949)

include h

theorem reads_arr {size : Nat} (hsize : size < 2 ^ 64) :
    Reads (arr cbor size) (cbor.putArray size) () := by
  apply Reads.finish (reads_orError (h.array size hsize))
  intro rest
  rw [require, if_pos rfl]
  rfl

/-- An octet is read back. -/
theorem reads_getU8 (value : UInt8) :
    Reads (getU8 cbor) (cbor.putU8 value) value :=
  reads_orError (h.u8 value)

theorem reads_bytes {n : Nat} (hn : n < 2 ^ 64) (value : Vector UInt8 n) :
    Reads (bytes cbor n) (cbor.putBytes value.toList) value := by
  have hlength : value.toList.length < 2 ^ 64 := by rwa [value.length_toList]
  apply Reads.finish (reads_orError (h.bytes value.toList hlength))
  rw [tryInto_toList]
  exact Reads.pure value

theorem reads_boundedBytes {max : Nat} {value : Bytes} (hmax : max < 2 ^ 64) (hne : value ≠ [])
    (hle : value.length ≤ max) :
    Reads (boundedBytes cbor max) (cbor.putBytes value) value := by
  apply Reads.finish (reads_orError (h.bytes value (Nat.lt_of_le_of_lt hle hmax)))
  exact Reads.check ⟨hne, hle⟩ (Reads.pure value)

theorem reads_definiteArray {count : Nat} (hcount : count < 2 ^ 64) :
    Reads (definiteArray cbor) (cbor.putArray count) count :=
  Reads.finish (reads_orError (h.array count hcount)) (Reads.pure count)

theorem reads_boundedArray {max count : Nat} (hmax : max < 2 ^ 64) (hle : count ≤ max) :
    Reads (boundedArray cbor max) (cbor.putArray count) count := by
  apply Reads.finish (reads_definiteArray h (Nat.lt_of_le_of_lt hle hmax))
  exact Reads.check hle (Reads.pure count)

/-- A mode is read back. -/
theorem reads_getMode (mode : Mode) :
    Reads (getMode cbor) (cbor.putU8 (putMode mode)) mode := by
  apply Reads.finish (reads_getU8 h (putMode mode))
  cases mode <;> exact Reads.pure _

/-- A binding is read back. -/
theorem reads_getBinding (binding : NetworkBinding) :
    Reads (getBinding cbor) (putBinding cbor binding) binding := by
  simp only [putBinding, List.append_assoc]
  apply Reads.bind (reads_arr h (by norm_num))
  apply Reads.bind (reads_getU8 h binding.nodeId)
  apply Reads.bind (reads_bytes h (by norm_num) binding.providerId)
  apply Reads.bind (reads_bytes h (by norm_num) binding.keyId)
  apply Reads.bind (reads_bytes h (by norm_num [pointBytes]) binding.publicKey)
  apply Reads.finish (reads_bytes h (by norm_num) binding.inputSeed)
  exact Reads.pure binding

/-- A tree within the remaining levels and nodes decodes to itself and adds its size
to the counter; a forest does so child by child. -/
private theorem reads_forest :
    (∀ node : NetworkNode, ∀ levels nodes, node.levels ≤ levels → nodes + node.size ≤ 30 →
      Reads (getNode cbor levels nodes) (putNode cbor node) (node, nodes + node.size)) ∧
    ∀ children : List NetworkNode, ∀ levels nodes, NetworkNode.levelsAll children ≤ levels →
      nodes + NetworkNode.sizes children ≤ 30 →
      Reads (readFold (getNode cbor levels) children.length nodes) (putNodes cbor children)
        (children, nodes + NetworkNode.sizes children) := by
  apply NetworkNode.forest_induction
  case leaf =>
    intro id providerId levels nodes hlevels hnodes
    simp only [NetworkNode.levels, NetworkNode.size] at hlevels hnodes
    obtain ⟨levels, rfl⟩ := Nat.exists_eq_add_of_le' hlevels
    simp only [putNode, getNode, List.append_assoc]
    apply Reads.check (by omega)
    apply Reads.bind (reads_definiteArray h (by norm_num))
    apply Reads.bind (reads_getU8 h 0)
    apply Reads.bind (reads_getU8 h id)
    rw [if_pos ⟨rfl, rfl⟩]
    exact Reads.finish (reads_bytes h (by norm_num) providerId) (Reads.pure _)
  case threshold =>
    intro id required children ih levels nodes hlevels hnodes
    simp only [NetworkNode.levels, NetworkNode.size] at hlevels hnodes
    obtain ⟨levels, rfl⟩ := Nat.exists_eq_add_of_le' (Nat.le_of_add_left_le hlevels)
    have hcount := NetworkNode.length_le_sizes children
    have hchildren := ih levels (nodes + 1) (by omega) (by omega)
    simp only [putNode, getNode, List.append_assoc]
    apply Reads.check (by omega)
    apply Reads.bind (reads_definiteArray h (by norm_num))
    apply Reads.bind (reads_getU8 h 1)
    apply Reads.bind (reads_getU8 h id)
    rw [if_neg (by decide), if_pos ⟨rfl, rfl⟩]
    apply Reads.bind (reads_getU8 h required)
    apply Reads.bind (reads_boundedArray h (by norm_num) (by omega))
    apply Reads.finish hchildren
    simp only [NetworkNode.size]
    rw [Nat.add_assoc, Nat.add_comm 1]
    exact Reads.pure _
  case nil =>
    intro levels nodes _ _
    exact Reads.pure _
  case cons =>
    intro child children ihnode ihchildren levels nodes hlevels hnodes
    simp only [NetworkNode.levelsAll, NetworkNode.sizes] at hlevels hnodes
    simp only [putNodes, readFold, List.length_cons]
    apply Reads.bind (ihnode levels nodes (by omega) (by omega))
    apply Reads.finish (ihchildren levels (nodes + child.size) (by omega) (by omega))
    simp only [NetworkNode.sizes, ← Nat.add_assoc]
    exact Reads.pure _

/-- The decoder's limits admit every tree that a policy can hold. -/
theorem reads_getNode (policy : ProductionPolicy) :
    Reads (getNode cbor 4 0) (putNode cbor policy.network)
      (policy.network, policy.network.size) := by
  have hwf := policy.wellFormed
  have hsmall : policy.network.size ≤ 29 := hwf.small
  have hread := (reads_forest h).1 policy.network 4 0 (Nat.le_succ_of_le hwf.shallow) (by omega)
  rwa [Nat.zero_add] at hread

/-- Every field of a descriptor with few enough bindings decodes to itself, and the
policy is compiled again to the same plan. -/
theorem reads_getDescriptor {d : Descriptor} (hcount : d.networks.length ≤ 30) :
    Reads (getDescriptor cbor) (putDescriptor cbor d) d := by
  have hpolicy : (ProductionPolicy.new d.policy.mode d.policy.tpmNodeId d.policy.network).mapError
      (fun _ => EnvelopeError.invalidPolicy) = .ok d.policy := by
    rw [ProductionPolicy.new_eq_ok.mpr ⟨rfl, rfl, rfl⟩]
    rfl
  have hname : "luks2-slot".utf8ByteSize < 2 ^ 64 := by decide
  simp only [putDescriptor, List.append_assoc]
  apply Reads.bind (reads_arr h (by norm_num))
  apply Reads.bind (reads_getU8 h version)
  apply Reads.check rfl
  apply Reads.bind (reads_getU8 h suite)
  apply Reads.check rfl
  apply Reads.bind (reads_bytes h (by norm_num) d.bindingId)
  apply Reads.bind (reads_bytes h (by norm_num) d.volumeUuid)
  apply Reads.bind (reads_getU8 h d.slot)
  apply Reads.bind (reads_orError (h.u64 d.generation))
  apply Reads.bind (reads_getMode h d.policy.mode)
  apply Reads.bind (reads_getU8 h d.policy.tpmNodeId)
  apply Reads.bind (reads_getNode h d.policy)
  apply Reads.computed hpolicy
  apply Reads.bind (reads_boundedArray h (by norm_num) hcount)
  apply Reads.bind (reads_readList fun binding _ => reads_getBinding h binding)
  apply Reads.bind (reads_orError (h.u32 d.tpmPcrMask))
  apply Reads.bind (reads_bytes h (by norm_num) d.tpmPcrDigest)
  apply Reads.finish (reads_orError (h.str _ hname))
  exact Reads.check rfl (Reads.pure d)

end RoundTrip

section Size

variable {cbor : Cbor}

theorem length_putBytes (h : cbor.Rfc8949) {n : Nat} (value : Vector UInt8 n) :
    (cbor.putBytes value.toList).length ≤ n + 9 := by
  have hlength := h.length_bytes value.toList
  rwa [value.length_toList] at hlength

/-- A node takes at most 54 bytes, a leaf's own maximum. -/
private theorem length_forest (h : cbor.Rfc8949) :
    (∀ node : NetworkNode, (putNode cbor node).length ≤ 54 * node.size) ∧
    ∀ children : List NetworkNode,
      (putNodes cbor children).length ≤ 54 * NetworkNode.sizes children := by
  have harray := h.length_array
  have hu8 := h.length_u8
  apply NetworkNode.forest_induction
  case leaf =>
    intro id providerId
    have hprovider := length_putBytes h providerId
    have := harray 3
    have := hu8 0
    have := hu8 id
    simp only [putNode, List.length_append, NetworkNode.size]
    omega
  case threshold =>
    intro id required children ih
    have := harray 4
    have := harray children.length
    have := hu8 1
    have := hu8 id
    have := hu8 required
    simp only [putNode, List.length_append, NetworkNode.size]
    omega
  case nil => simp [putNodes]
  case cons =>
    intro child children ihchild ihchildren
    simp only [putNodes, List.length_append, NetworkNode.sizes]
    omega

theorem length_putBinding (h : cbor.Rfc8949) (binding : NetworkBinding) :
    (putBinding cbor binding).length ≤ 192 := by
  have := h.length_array 5
  have := h.length_u8 binding.nodeId
  have := length_putBytes h binding.providerId
  have := length_putBytes h binding.keyId
  have := length_putBytes h binding.publicKey
  have := length_putBytes h binding.inputSeed
  have : pointBytes = 49 := rfl
  simp only [putBinding, List.length_append]
  omega

/-- No descriptor with at most 29 bindings takes more than 8000 bytes. -/
theorem length_putDescriptor (h : cbor.Rfc8949) {d : Descriptor} (hcount : d.networks.length ≤ 29) :
    (putDescriptor cbor d).length ≤ 8000 := by
  have hsmall : d.policy.network.size ≤ 29 := d.policy.wellFormed.small
  have htree := (length_forest h).1 d.policy.network
  have hbindings := length_flatMap_le (length_putBinding h) d.networks
  have := h.length_array 13
  have := h.length_u8 version
  have := h.length_u8 suite
  have := length_putBytes h d.bindingId
  have := length_putBytes h d.volumeUuid
  have := h.length_u8 d.slot
  have := h.length_u64 d.generation
  have := h.length_u8 (putMode d.policy.mode)
  have := h.length_u8 d.policy.tpmNodeId
  have := h.length_array d.networks.length
  have := h.length_u32 d.tpmPcrMask
  have := length_putBytes h d.tpmPcrDigest
  have hname := h.length_str "luks2-slot"
  rw [show "luks2-slot".utf8ByteSize = 10 by decide] at hname
  simp only [putDescriptor, List.length_append]
  omega

end Size

section Exact

variable {cbor : Cbor} {P : Primitives}

variable {d : Descriptor}

theorem descriptorBytes_eq_ok {raw : Bytes} :
    descriptorBytes cbor P d = .ok raw ↔ d.Valid P ∧ raw = putDescriptor cbor d := by
  unfold descriptorBytes
  rw [bind_eq_ok, ← validateDescriptor_eq_ok]
  constructor
  · rintro ⟨⟨⟩, hvalid, hraw⟩
    exact ⟨hvalid, (Except.ok.inj hraw).symm⟩
  · rintro ⟨hvalid, rfl⟩
    exact ⟨(), hvalid, rfl⟩

/-- The bindings have distinct providers. -/
theorem Descriptor.Valid.nodup_providerIds (h : d.Valid P) :
    (d.networks.map NetworkBinding.providerId).Nodup := by
  have hproviders := congrArg (List.map Prod.snd) h.leaves
  rw [List.map_map, d.policy.networkLeaves_eq] at hproviders
  exact hproviders ▸ d.policy.wellFormed.providers

/-- A valid descriptor has one binding for each of at most 29 leaves. -/
theorem Descriptor.Valid.length_networks (h : d.Valid P) :
    d.networks.length ≤ 29 := by
  have hlength := congrArg List.length h.leaves
  have hsmall : d.policy.network.size ≤ 29 := d.policy.wellFormed.small
  have hleaves := d.policy.network.length_leaves_le
  rw [List.length_map, d.policy.networkLeaves_eq] at hlength
  omega

/-- The bindings name the leaves of the policy in order. -/
theorem Descriptor.Valid.nodeIds (h : d.Valid P) :
    d.networks.map NetworkBinding.nodeId = d.policy.networkLeafIds := by
  have hids := congrArg (List.map Prod.fst) h.leaves
  rw [List.map_map] at hids
  exact hids

/-- The decoder inverts the encoder, and accepts only what the encoder writes for the descriptor
that it returns. -/
theorem readDescriptor_eq_ok (h : cbor.Rfc8949) {raw : Bytes} :
    readDescriptor cbor P raw = .ok d ↔ descriptorBytes cbor P d = .ok raw := by
  constructor
  · intro hread
    unfold readDescriptor at hread
    obtain ⟨⟨desc, rest⟩, -, hread⟩ := bind_eq_ok.mp hread
    dsimp only at hread
    split_ifs at hread with hrest
    obtain ⟨canonical, hcanonical, hread⟩ := bind_eq_ok.mp hread
    split_ifs at hread with hsame
    obtain rfl := Except.ok.inj hread
    rwa [not_not.mp hsame] at hcanonical
  · intro hraw
    obtain ⟨hvalid, rfl⟩ := descriptorBytes_eq_ok.mp hraw
    have hread := (reads_getDescriptor h (Nat.le_succ_of_le hvalid.length_networks)).last
    unfold readDescriptor
    simp only [hread, hraw, ok_bind, ne_eq, not_true_eq_false, if_false]

end Exact

end Leelo.Envelope
