import Mathlib.Data.List.Nodup
import Leelo.Core.Program
import Leelo.Engine.Providers
import Leelo.Net.Wire

/-!
# The HTTPS client

Trusted configuration names one origin and its roots for each provider. An evaluation sends
one request to the configured origin and reads one bounded response. The URL parser, the
certificate parser and the HTTP library are parameters.
-/

namespace Leelo.Net

open Leelo.Core Leelo.Crypto Leelo.Envelope Leelo.Engine
open Leelo.Policy (ProviderId)

/-- The largest number of endpoints. -/
def maxProviders : Nat := 32
/-- The largest bundle of roots, and the largest certificate kept. -/
def maxCaBytes : Nat := 64 * 1024
/-- The longest address. -/
def maxUrlBytes : Nat := 2048

/-- The errors of the client. -/
inductive Error where
  | configuration
  | duplicateProvider
  | unknownProvider
  | invalidKeyId
  | transport
  | timeout
  | runtime
  | remoteFailure
  | protocol
  deriving DecidableEq

/-- An endpoint of the configuration. -/
structure Endpoint where
  providerId : ProviderId
  url : String
  caPem : Bytes

/-- The parts of a parsed URL. -/
structure Url where
  scheme : String
  username : String
  password : Option String
  host : Option String
  path : String
  query : Option String
  fragment : Option String
  deriving DecidableEq

/-- The URL and certificate parsers, and the construction of a client that trusts these roots
and no others. -/
structure Library where
  Certificate : Type
  Client : Type
  parseUrl : String → Option Url
  fromPemBundle : Bytes → Option (List Certificate)
  build : List Certificate → Option Client

variable (library : Library)

/-- An endpoint with its client. -/
structure ConfiguredEndpoint where
  url : Url
  client : library.Client

/-- An origin without credentials, query or fragment. -/
def Url.isOrigin (url : Url) : Bool :=
  url.scheme = "https" ∧ url.host.isSome ∧ url.username = "" ∧ url.password = none ∧
    url.query = none ∧ url.fragment = none ∧ url.path = "/"

/-- The path of an evaluation. -/
def evaluatePath : String := "/v1/evaluate"

/-- Checks an endpoint and builds its client. -/
def configure (endpoint : Endpoint) : Except Error (ConfiguredEndpoint library) :=
  if endpoint.url.utf8ByteSize > maxUrlBytes then .error .configuration
  else match library.parseUrl endpoint.url with
  | none => .error .configuration
  | some url =>
    if ¬url.isOrigin ∨ endpoint.caPem = [] ∨ endpoint.caPem.length > maxCaBytes then
      .error .configuration
    else match library.fromPemBundle endpoint.caPem with
    | none => .error .configuration
    | some [] => .error .configuration
    | some roots =>
      match library.build roots with
      | none => .error .configuration
      | some client => .ok ⟨{ url with path := evaluatePath }, client⟩

/-- One endpoint for each provider. -/
structure HttpsNetworkProvider where
  endpoints : List (ProviderId × ConfiguredEndpoint library)
  nodup : (endpoints.map Prod.fst).Nodup

namespace HttpsNetworkProvider

variable {library}

/-- A provider without endpoints. -/
def empty : HttpsNetworkProvider library := ⟨[], .nil⟩

/-- A provider that is there already is an error. -/
def insert (provider : HttpsNetworkProvider library) (providerId : ProviderId)
    (endpoint : ConfiguredEndpoint library) : Except Error (HttpsNetworkProvider library) :=
  if h : providerId ∈ provider.endpoints.map Prod.fst then .error .duplicateProvider
  else .ok ⟨(providerId, endpoint) :: provider.endpoints, List.nodup_cons.mpr ⟨h, provider.nodup⟩⟩

/-- Adds the endpoints in their order. -/
def insertAll (provider : HttpsNetworkProvider library) :
    List Endpoint → Except Error (HttpsNetworkProvider library)
  | [] => .ok provider
  | endpoint :: rest => do
    let configured ← configure library endpoint
    let provider ← provider.insert endpoint.providerId configured
    provider.insertAll rest

variable (library) in
/-- A provider of between one and 32 endpoints. -/
def new (endpoints : List Endpoint) : Except Error (HttpsNetworkProvider library) :=
  if endpoints = [] ∨ endpoints.length > maxProviders then .error .configuration
  else empty.insertAll endpoints

/-- The endpoint of a provider. -/
def get (provider : HttpsNetworkProvider library) (providerId : ProviderId) :
    Option (ConfiguredEndpoint library) :=
  provider.endpoints.lookup providerId

end HttpsNetworkProvider

/-- An origin of the configuration with the path of evaluations. -/
structure ConfiguredEndpoint.Admitted {library : Library} (endpoint : ConfiguredEndpoint library) :
    Prop where
  scheme : endpoint.url.scheme = "https"
  path : endpoint.url.path = evaluatePath
  query : endpoint.url.query = none
  roots : ∃ roots ≠ [], library.build roots = some endpoint.client

/-- An endpoint that is configured is admitted. -/
theorem configure_admitted {library : Library} {endpoint : Endpoint}
    {configured : ConfiguredEndpoint library} (h : configure library endpoint = .ok configured) :
    configured.Admitted := by
  unfold configure at h
  split_ifs at h
  split at h
  · cases h
  rename_i url _
  split_ifs at h with horigin
  split at h
  · cases h
  · cases h
  rename_i roots hroots _
  split at h
  · cases h
  rename_i client hclient
  cases h
  have hurl : url.isOrigin = true := not_not.mp (not_or.mp horigin).1
  obtain ⟨hscheme, -, -, -, hquery, -⟩ := of_decide_eq_true hurl
  exact ⟨hscheme, rfl, hquery, roots, hroots, hclient⟩

namespace HttpsNetworkProvider

variable {library : Library}

variable {endpoints : List Endpoint}

variable {provider : HttpsNetworkProvider library}

/-- Every endpoint added is admitted. -/
theorem insertAll_admitted {provider' : HttpsNetworkProvider library}
    (h : provider.insertAll endpoints = .ok provider')
    (hbefore : ∀ entry ∈ provider.endpoints, entry.2.Admitted) :
    ∀ entry ∈ provider'.endpoints, entry.2.Admitted := by
  induction endpoints generalizing provider with
  | nil =>
    cases h
    exact hbefore
  | cons endpoint rest ih =>
    obtain ⟨configured, hconfigured, h⟩ := bind_eq_ok.mp h
    obtain ⟨inserted, hinserted, h⟩ := bind_eq_ok.mp h
    refine ih h ?_
    unfold insert at hinserted
    split_ifs at hinserted
    cases hinserted
    exact List.forall_mem_cons.mpr ⟨configure_admitted hconfigured, hbefore⟩

/-- The endpoints are those added. -/
theorem insertAll_ids {provider' : HttpsNetworkProvider library}
    (h : provider.insertAll endpoints = .ok provider') :
    provider'.endpoints.map Prod.fst =
      (endpoints.map Endpoint.providerId).reverse ++ provider.endpoints.map Prod.fst := by
  induction endpoints generalizing provider with
  | nil =>
    cases h
    rfl
  | cons endpoint rest ih =>
    obtain ⟨configured, -, h⟩ := bind_eq_ok.mp h
    obtain ⟨inserted, hinserted, h⟩ := bind_eq_ok.mp h
    unfold insert at hinserted
    split_ifs at hinserted
    cases hinserted
    rw [ih h, List.map_cons, List.map_cons, List.reverse_cons, List.append_assoc]
    rfl

/-- The providers of a configuration are distinct, and each has an endpoint. -/
theorem new_ids (h : new library endpoints = .ok provider) :
    (endpoints.map Endpoint.providerId).Nodup ∧
      ∀ endpoint ∈ endpoints, (provider.get endpoint.providerId).isSome = true := by
  unfold new at h
  split_ifs at h
  have hids : provider.endpoints.map Prod.fst = (endpoints.map Endpoint.providerId).reverse :=
    (insertAll_ids h).trans (List.append_nil _)
  refine ⟨List.nodup_reverse.mp (hids ▸ provider.nodup), fun endpoint hendpoint => ?_⟩
  have hmem : endpoint.providerId ∈ provider.endpoints.map Prod.fst := by
    rw [hids]
    exact List.mem_reverse.mpr (List.mem_map_of_mem hendpoint)
  rw [get, Option.isSome_iff_ne_none]
  intro hnone
  obtain ⟨entry, hentry, hid⟩ := List.mem_map.mp hmem
  exact bne_iff_ne.mp (List.lookup_eq_none_iff.mp hnone entry hentry) hid.symm

theorem get_admitted {providerId : ProviderId} {endpoint : ConfiguredEndpoint library}
    (hnew : new library endpoints = .ok provider) (h : provider.get providerId = some endpoint) :
    endpoint.Admitted := by
  unfold new at hnew
  split_ifs at hnew
  obtain ⟨before, after, hsplit, -⟩ := List.lookup_eq_some_iff.mp h
  refine insertAll_admitted hnew (List.forall_mem_nil _) (providerId, endpoint) ?_
  rw [hsplit]
  exact List.mem_append_right before List.mem_cons_self

end HttpsNetworkProvider

/-- A request as it leaves the client. -/
structure Posted where
  url : Url
  contentTypes : List String
  accept : String
  contentEncoded : Bool
  body : Bytes

/-- How sending a request fails. -/
inductive SendError where
  | timeout
  | other
  deriving DecidableEq

/-- A send's failure as the client's error. -/
def transportError : SendError → Error
  | .timeout => .timeout
  | .other => .transport

/-- The head of a response. A header value that is no text is `none`. -/
structure Head where
  status : Nat
  contentTypes : List (Option String)
  contentEncoded : Bool
  contentLength : Option Nat
  certificate : Option Bytes

/-- How the chunks of a body end. -/
inductive BodyEnd where
  | complete
  | failed (error : SendError)
  | deadline

/-- The operations of an exchange. -/
inductive ClientOp where
  | insideRuntime
  | buildRuntime
  | post (request : Posted)
  | head
  | chunks

/-- In the answer of an awaited operation, `none` is the deadline. The chunks are those of all
reads in the loop. -/
abbrev ClientOp.Ans : ClientOp → Type
  | .insideRuntime => Bool
  | .buildRuntime => Bool
  | .post _ => Unit
  | .head => Option (Except SendError Head)
  | .chunks => List Bytes × BodyEnd

/-- A program over an exchange. -/
abbrev Exchange := Program ClientOp ClientOp.Ans

/-- A single operation. -/
def ask (op : ClientOp) : Exchange op.Ans := Program.perform op

/-- Append chunks as long as the response is not longer than a message. -/
def collect (bytes : Bytes) : List Bytes → Option Bytes
  | [] => some bytes
  | chunk :: chunks =>
    if bytes.length + chunk.length > responseBytes then none
    else collect (bytes ++ chunk) chunks

variable {chunks : List Bytes}

theorem collect_eq_some {bytes all : Bytes} (h : collect bytes chunks = some all) :
    all = bytes ++ chunks.flatten := by
  induction chunks generalizing bytes with
  | nil =>
    cases h
    exact (List.append_nil _).symm
  | cons chunk chunks ih =>
    unfold collect at h
    split_ifs at h
    rw [ih h, List.append_assoc]
    rfl

theorem collect_of_length_le {bytes : Bytes}
    (h : (bytes ++ chunks.flatten).length ≤ responseBytes) :
    collect bytes chunks = some (bytes ++ chunks.flatten) := by
  induction chunks generalizing bytes with
  | nil => rw [collect, List.flatten_nil, List.append_nil]
  | cons chunk chunks ih =>
    rw [List.flatten_cons, ← List.append_assoc] at h ⊢
    have hfits : ¬bytes.length + chunk.length > responseBytes := by
      simp only [List.length_append] at h
      omega
    rw [collect, if_neg hfits, ih h]

/-- The head announces a message of the protocol. -/
def Head.isMessage (head : Head) : Bool :=
  head.contentTypes.head?.join = some contentType ∧ head.contentTypes.length = 1 ∧
    ¬head.contentEncoded ∧ head.contentLength.all (· = responseBytes)

/-- The result after the chunks of a body; `none` is the deadline. -/
def bodyResult (chunks : List Bytes) (ending : BodyEnd) : Option (Except Error Evaluation) :=
  match collect [] chunks, ending with
  | none, _ => some (.error .protocol)
  | some _, .failed error => some (.error (transportError error))
  | some _, .deadline => none
  | some bytes, .complete =>
    match decodeResponse bytes with
    | none => some (.error .protocol)
    | some evaluation => some (.ok evaluation)

theorem bodyResult_eq_ok {ending : BodyEnd} {evaluation : Evaluation}
    (h : bodyResult chunks ending = some (.ok evaluation)) :
    decodeResponse chunks.flatten = some evaluation := by
  unfold bodyResult at h
  split at h
  · cases h
  · cases h
  · cases h
  · rename_i bytes hbytes
    split at h
    · cases h
    · rename_i decoded hdecoded
      cases h
      rw [← hdecoded, collect_eq_some hbytes]
      rfl

theorem bodyResult_complete {evaluation : Evaluation}
    (h : chunks.flatten = encodeResponse evaluation) :
    bodyResult chunks .complete = some (.ok evaluation) := by
  have hbytes : collect [] chunks = some (encodeResponse evaluation) := by
    rw [collect_of_length_le, List.nil_append, h]
    rw [List.nil_append, h, length_encodeResponse]
  simp only [bodyResult, hbytes, decodeResponse_eq_some.mpr rfl]

/-- Reads the response after its head. -/
def readResponse (head : Head) : Exchange (Option (Except Error Evaluation)) :=
  if head.status ≠ 200 then return some (.error .remoteFailure)
  else if ¬head.isMessage then return some (.error .protocol)
  else do
    let answer ← ask .chunks
    return bodyResult answer.1 answer.2

/-- The certificate that was seen, where it is not too large. -/
def observedCertificate (head : Head) : Option Bytes :=
  head.certificate.filter fun der => der.length ≤ maxCaBytes

section Exchange

variable {library} (P : Primitives) (provider : HttpsNetworkProvider library)
  (binding : NetworkBinding) (blinded : PointBytes)

/-- The request for a binding. -/
def requestOf (endpoint : ConfiguredEndpoint library) : Posted where
  url := endpoint.url
  contentTypes := [contentType]
  accept := contentType
  contentEncoded := false
  body := encodeRequest binding.keyId blinded

/-- The certificate of the peer and the result. -/
def exchange : Exchange (Option Bytes × Option (Except Error Evaluation)) :=
  if binding.keyId ≠ keyId P binding.publicKey then return (none, some (.error .invalidKeyId))
  else match provider.get binding.providerId with
  | none => return (none, some (.error .unknownProvider))
  | some endpoint => do
    ask (.post (requestOf binding blinded endpoint))
    match ← ask .head with
    | none => return (none, none)
    | some (.error error) => return (none, some (.error (transportError error)))
    | some (.ok head) =>
      let result ← readResponse head
      return (observedCertificate head, result)

/-- Evaluates before the deadline. -/
def evaluateBefore : Exchange (Except Error Evaluation) := do
  let (_, result) ← exchange P provider binding blinded
  return result.getD (.error .timeout)

/-- Only a caller outside of any runtime may block on a new one. -/
def blockOn {α : Type} (failed : α) (body : Exchange α) : Exchange α := do
  if ← ask .insideRuntime then return failed
  else if ← ask .buildRuntime then body
  else return failed

/-- Evaluates a binding from outside a runtime. -/
def evaluateBinding : Exchange (Except Error Evaluation) :=
  blockOn (.error .runtime) (evaluateBefore P provider binding blinded)

/-- An evaluation with the certificate that was seen. -/
structure ObservedEvaluation where
  evaluation : Except Error Evaluation
  peerCertificate : Option Bytes

/-- The same, with the certificate that was seen. -/
def evaluateBindingObserved : Exchange ObservedEvaluation :=
  blockOn ⟨.error .runtime, none⟩ do
    let (certificate, result) ← exchange P provider binding blinded
    return ⟨result.getD (.error .timeout), certificate⟩

/-- The client's error as the engine's. -/
def networkFailure : Error → NetworkFailure
  | .configuration => .configuration
  | .duplicateProvider => .configuration
  | .unknownProvider => .configuration
  | .invalidKeyId => .configuration
  | .runtime => .configuration
  | .transport => .unavailable
  | .timeout => .timeout
  | .remoteFailure => .remoteRejected
  | .protocol => .invalidResponse

/-- The engine's call. -/
def evaluate : Exchange (Except NetworkFailure Evaluation) := do
  let result ← evaluateBefore P provider binding blinded
  return result.mapError networkFailure

end Exchange

/-- A library that knows the origin of one node, and bundles of a single certificate. -/
def nodeLibrary : Library where
  Certificate := Bytes
  Client := List Bytes
  parseUrl url :=
    if url = "https://node" then some ⟨"https", "", none, some "node", "/", none, none⟩ else none
  fromPemBundle bundle :=
    if (ascii "-----BEGIN CERTIFICATE-----").isPrefixOf bundle then some [bundle] else none
  build roots := some roots

/-- The text of its certificate. -/
def nodeCa : Bytes :=
  ascii "-----BEGIN CERTIFICATE-----\nMAA=\n-----END CERTIFICATE-----\n"

end Leelo.Net
