import Leelo.Net.Delivery

/-!
# The entry points of the client

The engine, the command line and the probe evaluate through functions of their own. They add a
runtime, the certificate of the peer or the engine's errors to one exchange, and nothing to what
the exchange does. A leaf key that the engine derives over this client comes from the evaluation
that the worker made of the engine's own point.
-/

namespace Leelo.Net

open Leelo.Core Leelo.Crypto Leelo.Envelope Leelo.Engine

/-- A client that calls one entry point, beside the frontend and the worker. -/
def entryNetwork {γ : Type} (entry : Exchange γ) (id : Vector UInt8 32) :
    System Party PartyOp PartyOp.Ans (Option γ) Wires where
  programs
    | .client => some <$> entry.expand fun op => act (.client op)
    | .frontend => (fun _ => none) <$> frontendProcess id
    | .worker => (fun _ => none) <$> workerProcess id
  state := ⟨none, ⟨[], false⟩, ⟨[], false⟩, [], none, false⟩

/-- The end of an exchange, with the certificate of the peer. -/
abbrev Exchanged := Option Bytes × Option (Except Error Evaluation)

/-- The deadline is an error. -/
def Exchanged.result (exchanged : Exchanged) : Except Error Evaluation :=
  exchanged.2.getD (.error .timeout)

private theorem map_map {Op : Type} {Ans : Op → Type} {α β γ : Type} (f : α → β) (g : β → γ)
    (p : Program Op Ans α) : g <$> f <$> p = (g ∘ f) <$> p := Program.bind_assoc p _ _

/-- What an entry point makes of the exchange is done to its results. -/
theorem map_entryNetwork {γ δ : Type} (f : γ → δ) (entry : Exchange γ) (id : Vector UInt8 32) :
    (entryNetwork entry id).map (Option.map f) = entryNetwork (f <$> entry) id := by
  have hprograms : ((entryNetwork entry id).map (Option.map f)).programs =
      (entryNetwork (f <$> entry) id).programs := by
    funext party
    cases party with
    | client =>
      have hexpand : (f <$> entry).expand (fun op => act (.client op)) =
          f <$> entry.expand fun op => act (.client op) := Program.expand_bind entry _
      change Option.map f <$> some <$> _ = some <$> Program.expand _ (f <$> entry)
      rw [hexpand, map_map, map_map]
      rfl
    | frontend => exact map_map _ _ _
    | worker => exact map_map _ _ _
  exact congrArg (System.mk · _) hprograms

section Entries

variable {library : Library} {P : Primitives} {provider : HttpsNetworkProvider library}
  {endpoints : List Endpoint} {endpoint : ConfiguredEndpoint library} {binding : NetworkBinding}
  {blinded : PointBytes} {id : Vector UInt8 32}

/-- The client of the network is one at an entry point that adds the deadline only. -/
theorem network_eq : network P provider binding blinded id =
    entryNetwork (Exchanged.result <$> exchange P provider binding blinded) id := by
  have hprograms : (network P provider binding blinded id).programs =
      (entryNetwork (Exchanged.result <$> exchange P provider binding blinded) id).programs := by
    funext party
    cases party with
    | client => rfl
    | frontend =>
      change frontendProcess id = (fun _ => none) <$> frontendProcess id
      refine Eq.trans ?_ (Program.bind_assoc _ _ _).symm
      refine congrArg (_ >>= ·) (funext fun reply => ?_)
      cases reply with
      | none => rfl
      | some reply => rfl
    | worker =>
      change workerProcess id = (fun _ => none) <$> workerProcess id
      refine Eq.trans ?_ (Program.bind_assoc _ _ _).symm
      rfl
  exact congrArg (System.mk · _) hprograms

variable {γ : Type} {c : System Party PartyOp PartyOp.Ans (Option γ) Wires}

/-- What is reached at one entry point is reached at every other. -/
theorem reaches_entry {δ : Type} {f : Exchanged → γ} (g : Exchanged → δ)
    (h : System.Reaches responds Eq
      (entryNetwork (f <$> exchange P provider binding blinded) id) c) :
    ∃ c', System.Reaches responds Eq
        (entryNetwork (g <$> exchange P provider binding blinded) id) c' ∧ c'.state = c.state ∧
      ∀ result, c.programs .client = pure (some result) →
        ∃ exchanged, result = f exchanged ∧ c'.programs .client = pure (some (g exchanged)) := by
  rw [← map_entryNetwork] at h ⊢
  obtain ⟨base, hbase, rfl⟩ := System.reaches_map.mp h
  refine ⟨base.map (Option.map g), System.reaches_map.mpr ⟨base, hbase, rfl⟩, rfl, ?_⟩
  intro result hdone
  change Option.map f <$> base.programs .client = _ at hdone
  cases hclient : base.programs .client with
  | call op next =>
    rw [hclient] at hdone
    cases hdone
  | done exchanged =>
    rw [hclient] at hdone
    cases exchanged with
    | none => cases hdone
    | some exchanged =>
      cases hdone
      exact ⟨exchanged, rfl, congrArg (Option.map g <$> ·) hclient⟩

private theorem entryNetwork_set (entry entry' : Exchange γ) :
    (entryNetwork entry id).set .client (some <$> entry'.expand fun op => act (.client op)) =
      entryNetwork entry' id := by
  refine congrArg (System.mk · _) (funext fun party => ?_)
  cases party with
  | client => exact Function.update_self ..
  | frontend => rfl
  | worker => rfl

/-- A question about the runtime changes nothing. -/
theorem reaches_asked (op : ClientOp) {next : op.Ans → Exchange γ}
    (hsilent : ∀ s answer s', clientResponds op s answer s' → s' = s) {result : Option γ}
    (hdone : c.programs .client = pure result)
    (h : System.Reaches responds Eq (entryNetwork (ask op >>= next) id) c) :
    ∃ answer, System.Reaches responds Eq (entryNetwork (next answer) id) c := by
  rw [← entryNetwork_set (ask op >>= next)] at h
  have hcall : System.Reaches responds Eq ((entryNetwork (ask op >>= next) id).set .client
      (.call (.client op) fun answer =>
        some <$> (next answer).expand fun op => act (.client op))) c := h
  obtain ⟨hwaits, -⟩ | ⟨answer, hreaches⟩ := System.reaches_silent hsilent hcall
  · cases hdone.symm.trans hwaits
  · rw [entryNetwork_set] at hreaches
    exact ⟨answer, hreaches⟩

/-- Without a runtime the exchange does not begin. -/
theorem reaches_blockOn {failed result : γ} {entry : Exchange γ}
    (hdone : c.programs .client = pure (some result))
    (h : System.Reaches responds Eq (entryNetwork (blockOn failed entry) id) c) :
    result = failed ∨ System.Reaches responds Eq (entryNetwork entry id) c := by
  have hended : System.Reaches responds Eq (entryNetwork (pure failed) id) c → result = failed := by
    intro hreaches
    have hfailed : c.programs .client = .done (some failed) := hreaches.done rfl
    cases hdone.symm.trans hfailed
    rfl
  obtain ⟨inside, h⟩ := reaches_asked .insideRuntime (fun _ _ _ hs => hs) hdone h
  cases inside with
  | true => exact .inl (hended h)
  | false =>
    obtain ⟨built, h⟩ := reaches_asked .buildRuntime (fun _ _ _ hs => hs) hdone h
    cases built with
    | true => exact .inr h
    | false => exact .inl (hended h)

/-- An evaluation is the only one that the worker made, of the client's point and under the key
that the client named. If nothing was disturbed the result is the worker's decision. -/
structure Attests (binding : NetworkBinding) (blinded : PointBytes) (id : Vector UInt8 32)
    (s : Wires) (result : Except Error Evaluation) : Prop where
  accepted : ∀ evaluation, result = .ok evaluation → id = binding.keyId ∧
    s.evaluated = [(blinded.toList, .ok (rawBytes evaluation))]
  settled : s.disturbed = false → ∃ decision,
    Settled binding.keyId blinded id s.evaluated decision ∧ result = resultOf decision

/-- An entry that only renames the result of the exchange attests to it. -/
theorem attests_of_entry (hnew : HttpsNetworkProvider.new library endpoints = .ok provider)
    (hkey : binding.keyId = Crypto.keyId P binding.publicKey)
    (hget : provider.get binding.providerId = some endpoint) {f : Exchanged → γ}
    (h : System.Reaches responds Eq
      (entryNetwork (f <$> exchange P provider binding blinded) id) c) {result : γ}
    (hdone : c.programs .client = pure (some result)) :
    ∃ exchanged, result = f exchanged ∧
      Attests binding blinded id c.state exchanged.result := by
  obtain ⟨c', hreaches, hstate, hresults⟩ := reaches_entry Exchanged.result h
  obtain ⟨exchanged, hresult, hdone'⟩ := hresults result hdone
  rw [← network_eq] at hreaches
  obtain ⟨-, hnamed, hmeans⟩ := results_of_reaches hnew hkey hget hreaches
  obtain ⟨haccepted, hsettled⟩ := hmeans _ hdone'
  rw [hstate] at hnamed haccepted hsettled
  refine ⟨exchanged, hresult, fun evaluation hok => ⟨?_, haccepted evaluation hok⟩, hsettled⟩
  refine (hnamed (blinded.toList, .ok (rawBytes evaluation)) ?_).2
  rw [haccepted evaluation hok]
  exact List.mem_singleton_self _

theorem evaluate_eq : evaluate P provider binding blinded =
    (fun exchanged : Exchanged => exchanged.result.mapError networkFailure) <$>
      exchange P provider binding blinded := Program.bind_assoc _ _ _

/-- Whatever entry point the client calls, a result of it stands for what the worker did, except
that there may be no runtime to evaluate in. -/
theorem entries_attest (hnew : HttpsNetworkProvider.new library endpoints = .ok provider)
    (hkey : binding.keyId = Crypto.keyId P binding.publicKey)
    (hget : provider.get binding.providerId = some endpoint) :
    (∀ c result, System.Reaches responds Eq
        (entryNetwork (evaluate P provider binding blinded) id) c →
      c.programs .client = pure (some result) →
      ∃ exact, Attests binding blinded id c.state exact ∧
        result = exact.mapError networkFailure) ∧
    (∀ c result, System.Reaches responds Eq
        (entryNetwork (evaluateBinding P provider binding blinded) id) c →
      c.programs .client = pure (some result) →
      result = .error .runtime ∨ Attests binding blinded id c.state result) ∧
    ∀ c result, System.Reaches responds Eq
        (entryNetwork (evaluateBindingObserved P provider binding blinded) id) c →
      c.programs .client = pure (some result) →
      result = ⟨.error .runtime, none⟩ ∨ Attests binding blinded id c.state result.evaluation := by
  refine ⟨fun c result h hdone => ?_, fun c result h hdone => ?_, fun c result h hdone => ?_⟩
  · rw [evaluate_eq] at h
    obtain ⟨exchanged, rfl, hattests⟩ := attests_of_entry hnew hkey hget h hdone
    exact ⟨exchanged.result, hattests, rfl⟩
  · refine (reaches_blockOn hdone h).imp_right fun hreaches => ?_
    obtain ⟨exchanged, rfl, hattests⟩ := attests_of_entry (f := Exchanged.result) hnew hkey hget
      hreaches hdone
    exact hattests
  · refine (reaches_blockOn hdone h).imp_right fun hreaches => ?_
    obtain ⟨exchanged, rfl, hattests⟩ := attests_of_entry
      (f := fun exchanged => ⟨exchanged.result, exchanged.1⟩) hnew hkey hget hreaches hdone
    exact hattests

/-- Every answer is the result of one evaluation by this client, beside some worker. -/
def Serves (P : Primitives) (provider : HttpsNetworkProvider library) (net : NetworkProvider) :
    Prop :=
  ∀ binding blinded deadline, ∃ id c,
    System.Reaches responds Eq (entryNetwork (evaluate P provider binding blinded) id) c ∧
      c.programs .client = pure (some (net.evaluate binding blinded deadline))

/-- Without an endpoint or the right key identifier nothing is sent. -/
theorem evaluate_unconfigured (h : binding.keyId ≠ Crypto.keyId P binding.publicKey ∨
    provider.get binding.providerId = none) :
    evaluate P provider binding blinded = pure (.error .configuration) := by
  rw [evaluate_eq, exchange]
  by_cases hkey : binding.keyId ≠ Crypto.keyId P binding.publicKey
  · rw [if_pos hkey]
    rfl
  · rw [if_neg hkey, h.resolve_left hkey]
    rfl

variable {net : NetworkProvider} {deadline : Nat} {evaluation : Evaluation}

/-- The engine is given the evaluation that a worker with the pinned key made of its point. -/
theorem Serves.evaluated (h : Serves P provider net)
    (hnew : HttpsNetworkProvider.new library endpoints = .ok provider)
    (hok : net.evaluate binding blinded deadline = .ok evaluation) :
    binding.keyId = Crypto.keyId P binding.publicKey ∧ ∃ c,
      System.Reaches responds Eq
        (entryNetwork (evaluate P provider binding blinded) binding.keyId) c ∧
      c.state.evaluated = [(blinded.toList, .ok (rawBytes evaluation))] := by
  obtain ⟨id, c, hreaches, hdone⟩ := h binding blinded deadline
  rw [hok] at hdone
  have hconfigured : ¬(binding.keyId ≠ Crypto.keyId P binding.publicKey ∨
      provider.get binding.providerId = none) := by
    intro hnone
    rw [evaluate_unconfigured hnone] at hreaches
    have hfailed : c.programs .client = .done (some (.error .configuration)) := hreaches.done rfl
    cases hdone.symm.trans hfailed
  obtain ⟨hkey, hsome⟩ := not_or.mp hconfigured
  have hkey := not_not.mp hkey
  obtain ⟨endpoint, hget⟩ := Option.ne_none_iff_exists'.mp hsome
  obtain ⟨exact, hattests, hresult⟩ := (entries_attest hnew hkey hget).1 c _ hreaches hdone
  obtain ⟨rfl, hevaluated⟩ := hattests.accepted evaluation (mapError_eq_ok.mp hresult.symm)
  exact ⟨hkey, c, hreaches, hevaluated⟩

/-- A leaf key is derived from the evaluation that a worker with the pinned key made of the
blinded input of the leaf. -/
theorem Serves.networkKey (h : Serves P provider net)
    (hnew : HttpsNetworkProvider.new library endpoints = .ok provider) {ρ : Type} {rng : Sss.Rng ρ}
    {d : Descriptor} {context : Vector UInt8 48} {r r' : ρ} {key : Sss.Secret}
    (hok : Engine.networkKey P rng d binding context net deadline r = .ok (key, r')) :
    binding.keyId = Crypto.keyId P binding.publicKey ∧
      ∃ state blinded evaluation pk output c,
        blind P rng (networkInput d binding) r = .ok ((state, blinded), r') ∧
        System.Reaches responds Eq
          (entryNetwork (evaluate P provider binding blinded) binding.keyId) c ∧
        c.state.evaluated = [(blinded.toList, .ok (rawBytes evaluation))] ∧
        pk.bytes = binding.publicKey ∧ state.finalize P evaluation pk = .ok output ∧
        deriveWrapKey P output (leafContext context binding.nodeId) = .ok key := by
  obtain ⟨output, ⟨state, blinded, evaluation, pk, hblind, hevaluate, hpk, houtput⟩, hkey⟩ :=
    networkKey_eq_ok.mp hok
  obtain ⟨hid, c, hreaches, hevaluated⟩ := h.evaluated hnew hevaluate
  exact ⟨hid, state, blinded, evaluation, pk, output, c, hblind, hreaches, hevaluated, hpk,
    houtput, hkey⟩

open Classical in
/-- There is such a network for all evaluations that workers may make. -/
theorem exists_serves (hnew : HttpsNetworkProvider.new library endpoints = .ok provider)
    (evaluates : NetworkBinding → PointBytes → Evaluation) : ∃ net, Serves P provider net ∧
      ∀ binding blinded deadline, binding.keyId = Crypto.keyId P binding.publicKey →
        provider.get binding.providerId ≠ none →
        net.evaluate binding blinded deadline = .ok (evaluates binding blinded) := by
  refine ⟨⟨fun binding blinded _ =>
    if binding.keyId ≠ Crypto.keyId P binding.publicKey ∨ provider.get binding.providerId = none
    then .error .configuration else .ok (evaluates binding blinded)⟩, ?_, ?_⟩
  · intro binding blinded deadline
    by_cases hnone : binding.keyId ≠ Crypto.keyId P binding.publicKey ∨
        provider.get binding.providerId = none
    · refine ⟨binding.keyId, _, .refl, ?_⟩
      dsimp only
      rw [evaluate_unconfigured hnone, if_pos hnone]
      rfl
    · obtain ⟨hkey, hsome⟩ := not_or.mp hnone
      have hkey := not_not.mp hkey
      obtain ⟨endpoint, hget⟩ := Option.ne_none_iff_exists'.mp hsome
      obtain ⟨c, hreaches, hdone, -⟩ := reaches_delivered
        (HttpsNetworkProvider.get_admitted hnew hget) hkey hget
        (.evaluated (evaluates binding blinded) rfl rfl)
      rw [network_eq] at hreaches
      obtain ⟨c', hreaches', -, hresults⟩ := reaches_entry
        (fun exchanged => exchanged.result.mapError networkFailure) hreaches
      obtain ⟨exchanged, hexchanged, hdone'⟩ := hresults _ hdone
      rw [← evaluate_eq] at hreaches'
      refine ⟨binding.keyId, c', hreaches', ?_⟩
      dsimp only
      rw [hdone', ← hexchanged, if_neg hnone]
      rfl
  · intro binding blinded deadline hkey hsome
    exact if_neg (not_or.mpr ⟨not_not.mpr hkey, hsome⟩)

end Entries

end Leelo.Net
