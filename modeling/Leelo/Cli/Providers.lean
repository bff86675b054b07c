import Leelo.Cli.Host
import Leelo.Collector.Journal
import Leelo.Net.Client
import Leelo.Tpm.Pcr

/-!
# Configuration and preflight of an enrollment

Providers come from a configuration that the operator trusts. Before anything is written, an
enrollment builds its descriptor from them, from the device and from the TPM: one threshold
over all providers, and the first free slot.
-/

namespace Leelo.Cli

open Leelo.Core Leelo.Core.Fallible Leelo.Crypto Leelo.Envelope Leelo.Policy
open Leelo.Collector (hexPairs)
open Leelo.Engine (EngineError)
open Leelo.Net (Endpoint HttpsNetworkProvider)
open Leelo.Sss (Rng)

/-- One provider as the configuration spells it. -/
structure ProviderConfig where
  providerId : Bytes
  keyId : Bytes
  publicKey : Bytes
  url : String
  caFile : Bytes

/-- A provider's identity in the configuration. -/
structure Identity where
  providerId : ProviderId
  keyId : Vector UInt8 32
  publicKey : PointBytes

/-- The configured providers: their client and their identities. -/
structure Providers (library : Net.Library) where
  network : HttpsNetworkProvider library
  identities : List Identity

/-- Reads bytes of a fixed length from hexadecimal digits. -/
def unhex (n : Nat) (value : Bytes) : Except (Halt CliError) (Vector UInt8 n) :=
  if value.length % 2 ≠ 0 then .error misconfigured
  else match (hexPairs value).bind (tryInto n) with
    | none => .error misconfigured
    | some bytes => .ok bytes

/-- The JSON reader of configurations, and how a path in one is resolved. -/
structure Settings where
  parse : Bytes → Option (List ProviderConfig)
  resolve : (config caFile : Bytes) → Bytes

section Read

variable (settings : Settings) (P : Primitives) (path : Bytes)

/-- Reads one provider; its key identifier must be that of its key. -/
def readProvider (provider : ProviderConfig) : Action (Endpoint × Identity) := do
  let providerId ← ofResult (unhex 32 provider.providerId)
  let publicKey ← ofResult (unhex pointBytes provider.publicKey)
  let keyId ← ofResult (unhex 32 provider.keyId)
  if Crypto.keyId P publicKey ≠ keyId then ofResult (.error misconfigured)
  else do
    let caPem ← readBounded (settings.resolve path provider.caFile) (64 * 1024)
    pure (⟨providerId, provider.url, caPem⟩, ⟨providerId, keyId, publicKey⟩)

/-- Reads the providers in their order. -/
def readProviders : List ProviderConfig → Action (List (Endpoint × Identity))
  | [] => pure []
  | provider :: rest => do
    let first ← readProvider settings P path provider
    let others ← readProviders rest
    pure (first :: others)

/-- Reads the configuration. -/
def Providers.read (library : Net.Library) : Action (Providers library) := do
  match settings.parse (← readBounded path (32 * 1024)) with
  | none => ofResult (.error misconfigured)
  | some providers =>
    if providers = [] ∨ providers.length > 27 then ofResult (.error misconfigured)
    else do
      let read ← readProviders settings P path providers
      match HttpsNetworkProvider.new library (read.map Prod.fst) with
      | .error _ => ofResult (.error misconfigured)
      | .ok network => pure ⟨network, read.map Prod.snd⟩

end Read

/-- Leaves are numbered from two on: the TPM is zero and the threshold is one. -/
def enrollmentBindings {ρ : Type} (rng : Rng ρ) :
    Nat → List Identity → ρ → Except (Halt CliError) (List NetworkBinding × ρ)
  | _, [], r => .ok ([], r)
  | index, identity :: rest, r => do
    let (inputSeed, r) ← (randomBytes rng 32 r).mapError fun _ => misconfigured
    let (others, r) ← enrollmentBindings rng (index + 1) rest r
    .ok (⟨UInt8.ofNat (index + 2), identity.providerId, identity.keyId, identity.publicKey,
      inputSeed⟩ :: others, r)

/-- Any `threshold` of the providers. -/
def enrollmentNetwork (threshold : UInt8) (networks : List NetworkBinding) : NetworkNode :=
  .threshold 1 threshold (networks.map fun network => .leaf network.nodeId network.providerId)

/-- An open TPM, and what it reads after the mask was checked. -/
structure TpmAccess where
  provider : Engine.TpmProvider
  reading : UInt32 → Except EngineError (Vector UInt8 32)

/-- The digest of the selected registers, for a valid mask. -/
def TpmAccess.pcrDigest (tpm : TpmAccess) (mask : UInt32) :
    Except EngineError (Vector UInt8 32) := do
  Tpm.validateMask mask
  tpm.reading mask

/-- The arguments of `enroll`. -/
structure EnrollArgs where
  device : Bytes
  config : Bytes
  existingKeyFile : Bytes
  signingKey : Bytes
  pcrMask : UInt32
  threshold : UInt8

/-- What an enrollment has before it writes its journal. -/
structure Preflight (library : Net.Library) where
  providers : Providers library
  luks : Luks.Luks2
  old : Bytes
  signingSeed : Vector UInt8 32
  tpm : TpmAccess
  descriptor : Descriptor

section Preflight

variable (settings : Settings) (P : Primitives) (library : Net.Library) {ρ : Type} (rng : Rng ρ)
  (entropy : ρ) (openTpm : Except EngineError TpmAccess) (args : EnrollArgs)

/-- Everything the enrollment checks before it writes anything. -/
def preflight : Action (Preflight library) := do
  let providers ← Providers.read settings P args.config library
  let (networks, r) ← ofResult (enrollmentBindings rng 0 providers.identities entropy)
  let luks ← openLuks args.device true
  let old ← readSecret args.existingKeyFile 8192
  let _ ← onLuks (Luks.testCredential luks none old)
  let signingSeed ← readSecret args.signingKey 32
  match tryInto 32 signingSeed with
  | none => ofResult (.error misconfigured)
  | some signingSeed => do
    let tpm ← ofResult (Exec.lift engineError openTpm)
    let digest ← ofResult (Exec.lift engineError (tpm.pcrDigest args.pcrMask))
    let policy ← ofResult ((ProductionPolicy.new .networkBound 0
      (enrollmentNetwork args.threshold networks)).mapError fun _ => misconfigured)
    let (bindingId, _) ← ofResult ((randomBytes rng 32 r).mapError fun _ => misconfigured)
    let slot ← onLuks (Luks.firstFreeSlot luks)
    pure ⟨providers, luks, old, signingSeed, tpm,
      ⟨bindingId, luks.uuid, slot, 1, policy, networks, args.pcrMask, digest⟩⟩

end Preflight

section Inversion

variable {settings : Settings} {P : Primitives} {path : Bytes} {library : Net.Library}
  {rely : Host → Host → Prop} {s s' : Host}

theorem runs_readProvider {provider : ProviderConfig} {read : Endpoint × Identity}
    (h : Runs hostResponds rely (readProvider settings P path provider) s (.ok read) s') :
    read.1.providerId = read.2.providerId ∧ read.2.keyId = Crypto.keyId P read.2.publicKey := by
  obtain ⟨providerId, -, h⟩ := runs_ofResult_bind_ok.mp h
  obtain ⟨publicKey, -, h⟩ := runs_ofResult_bind_ok.mp h
  obtain ⟨keyId, -, h⟩ := runs_ofResult_bind_ok.mp h
  split_ifs at h with hkey
  · cases (runs_ofResult.mp h).1
  · obtain ⟨caPem, _, -, h⟩ := runs_bind_ok.mp h
    cases (runs_pure.mp h).1
    exact ⟨rfl, (not_not.mp hkey).symm⟩

theorem runs_readProviders {providers : List ProviderConfig} {read : List (Endpoint × Identity)}
    (h : Runs hostResponds rely (readProviders settings P path providers) s (.ok read) s') :
    read.length = providers.length ∧ ∀ entry ∈ read,
      entry.1.providerId = entry.2.providerId ∧
        entry.2.keyId = Crypto.keyId P entry.2.publicKey := by
  induction providers generalizing read s s' with
  | nil =>
    cases (runs_pure.mp h).1
    exact ⟨rfl, List.forall_mem_nil _⟩
  | cons provider rest ih =>
    obtain ⟨first, s₁, hfirst, h⟩ := runs_bind_ok.mp h
    obtain ⟨others, s₂, hothers, h⟩ := runs_bind_ok.mp h
    cases (runs_pure.mp h).1
    obtain ⟨hlength, hall⟩ := ih hothers
    exact ⟨congrArg (· + 1) hlength, List.forall_mem_cons.mpr ⟨runs_readProvider hfirst, hall⟩⟩

/-- One to twenty-seven distinct providers, each with an endpoint and the identifier of its
key. -/
structure Providers.Configured (P : Primitives) (providers : Providers library) : Prop where
  nonempty : providers.identities ≠ []
  few : providers.identities.length ≤ 27
  distinct : (providers.identities.map Identity.providerId).Nodup
  endpoints : ∀ identity ∈ providers.identities, ∃ endpoint,
    providers.network.get identity.providerId = some endpoint ∧ endpoint.Admitted
  keys : ∀ identity ∈ providers.identities, identity.keyId = Crypto.keyId P identity.publicKey

/-- A configuration that is read is well formed. -/
theorem runs_read {providers : Providers library}
    (h : Runs hostResponds rely (Providers.read settings P path library) s (.ok providers) s') :
    providers.Configured P := by
  obtain ⟨text, s₁, -, h⟩ := runs_bind_ok.mp h
  cases hparse : settings.parse text with
  | none =>
    rw [hparse] at h
    cases (runs_ofResult.mp h).1
  | some configs =>
    rw [hparse] at h
    dsimp only at h
    split_ifs at h with hcount
    · cases (runs_ofResult.mp h).1
    obtain ⟨hsome, hfew⟩ := not_or.mp hcount
    obtain ⟨read, s₂, hread, h⟩ := runs_bind_ok.mp h
    obtain ⟨hlength, hentries⟩ := runs_readProviders hread
    cases hnew : HttpsNetworkProvider.new library (read.map Prod.fst) with
    | error error =>
      rw [hnew] at h
      cases (runs_ofResult.mp h).1
    | ok network =>
      rw [hnew] at h
      cases (runs_pure.mp h).1
      obtain ⟨hnodup, hget⟩ := HttpsNetworkProvider.new_ids hnew
      have hids : (read.map Prod.snd).map Identity.providerId =
          (read.map Prod.fst).map Endpoint.providerId := by
        rw [List.map_map, List.map_map]
        exact List.map_congr_left fun entry hentry => (hentries entry hentry).1.symm
      refine ⟨fun hnil => hsome ?_, ?_, hids ▸ hnodup, ?_, ?_⟩
      · have hempty : read = [] := List.map_eq_nil_iff.mp hnil
        rw [hempty] at hlength
        exact List.length_eq_zero_iff.mp hlength.symm
      · rw [List.length_map, hlength]
        exact Nat.le_of_not_lt hfew
      · intro identity hidentity
        obtain ⟨entry, hentry, rfl⟩ := List.mem_map.mp hidentity
        obtain ⟨endpoint, hendpoint⟩ :=
          Option.isSome_iff_exists.mp (hget entry.1 (List.mem_map_of_mem hentry))
        rw [(hentries entry hentry).1] at hendpoint
        exact ⟨endpoint, hendpoint, HttpsNetworkProvider.get_admitted hnew hendpoint⟩
      · intro identity hidentity
        obtain ⟨entry, hentry, rfl⟩ := List.mem_map.mp hidentity
        exact (hentries entry hentry).2

end Inversion

section Flat

variable (threshold : UInt8) (networks : List NetworkBinding)

end Flat

section Established

variable {settings : Settings} {P : Primitives} {library : Net.Library} {ρ : Type} {rng : Rng ρ}
  {entropy : ρ} {openTpm : Except EngineError TpmAccess} {args : EnrollArgs}
  {rely : Host → Host → Prop} {s s' : Host} {result : Preflight library}

/-- What the descriptor of an enrollment takes from the operator. -/
structure Preflight.Built (P : Primitives) (args : EnrollArgs) (result : Preflight library) :
    Prop where
  configured : result.providers.Configured P
  mode : result.descriptor.policy.mode = .networkBound
  network : result.descriptor.policy.network =
    enrollmentNetwork args.threshold result.descriptor.networks
  identities : result.descriptor.networks.map (fun network =>
    (⟨network.providerId, network.keyId, network.publicKey⟩ : Identity)) =
      result.providers.identities
  volume : result.descriptor.volumeUuid = result.luks.uuid
  slot : result.descriptor.slot < Luks.slotCount
  generation : result.descriptor.generation = 1
  mask : result.descriptor.tpmPcrMask = args.pcrMask ∧ Tpm.validateMask args.pcrMask = .ok ()
  reading : result.tpm.reading args.pcrMask = .ok result.descriptor.tpmPcrDigest

/-- Admission has checked the threshold. -/
theorem Preflight.Built.thresholds (h : result.Built P args) : 1 ≤ args.threshold.toNat ∧
    args.threshold.toNat ≤ result.descriptor.networks.length := by
  have hvalid := result.descriptor.policy.wellFormed.thresholds
  rw [h.network, enrollmentNetwork, NetworkNode.ThresholdsValid, List.length_map] at hvalid
  exact ⟨hvalid.1, hvalid.2.1⟩

end Established

/-- Each field once, in any order, and nothing else. -/
def providerOf : Json.Value → Option ProviderConfig
  | .object members =>
    match members.toList.length, members.toList.lookup "provider_id",
        members.toList.lookup "key_id", members.toList.lookup "public_key",
        members.toList.lookup "url", members.toList.lookup "ca_file" with
    | 5, some (.string providerId), some (.string keyId), some (.string publicKey),
        some (.string url), some (.string caFile) =>
      some ⟨Json.utf8 providerId, Json.utf8 keyId, Json.utf8 publicKey, url, Json.utf8 caFile⟩
    | _, _, _, _, _, _ => none
  | _ => none

/-- The providers of an array. -/
def providersOf : Json.Items → Option (List ProviderConfig)
  | .nil => some []
  | .cons value items => do return (← providerOf value) :: (← providersOf items)

/-- The providers of the configuration's object. -/
def configOf : Json.Value → Option (List ProviderConfig)
  | .object (.cons "providers" (.array items) .nil) => providersOf items
  | _ => none

/-- A configuration is one JSON value, and a relative path in it stands beside it. -/
def jsonSettings : Settings where
  parse text := (Json.parse text).bind configOf
  resolve config caFile :=
    if caFile.head? = some 47 then caFile
    else (config.reverse.dropWhile (· ≠ 47)).reverse ++ caFile

/-- The provider of a pair with this byte in its identifier and key. -/
def pairProvider (fill : UInt8) : Json.Value :=
  let hex size := .string ((Json.ofUtf8 (hexEncode (List.replicate size fill))).getD "")
  .object (.ofList [("provider_id", hex 32), ("key_id", hex 32), ("public_key", hex pointBytes),
    ("url", .string "https://node"), ("ca_file", .string "ca.pem")])

/-- The configuration of a pair. -/
def pairConfig : Bytes :=
  (Json.Value.object (.ofList
    [("providers", .array (.cons (pairProvider 7) (.cons (pairProvider 8) .nil)))])).print

/-- Everything is in a file of its own. -/
def pairFiles (path : Bytes) : Option HostFile :=
  if path = ascii "etc/config.json" then some ⟨pairConfig, true, false, 0o644⟩
  else if path = ascii "etc/ca.pem" then some ⟨Net.nodeCa, true, false, 0o644⟩
  else if path = ascii "old" then some ⟨[1], true, false, 0o600⟩
  else if path = ascii "seed" then some ⟨List.replicate 32 5, true, false, 0o600⟩
  else some ⟨List.replicate 32 5, true, false, 0o644⟩

end Leelo.Cli
