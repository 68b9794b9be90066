import DashFaucet.Chain.Relays

/-!
# What a lookup returns

Listings, coinbase verdicts and ChainLock statuses come from a provider that answered so; a status
from a configured one. None of these programs asks a relay or whether a transaction is known
(`Reads`), so nothing they hear can vouch for a transaction. A listing asks for no verdict
(`Surveys`), and a verdict is asked about one transaction (`Classifies`).
-/

namespace DashFaucet

open Async

/-- A query that neither hands a transaction to relays nor asks whether one is known. -/
def Reads : Query → Prop
  | .relay .. | .hasTx .. => False
  | _ => True

theorem Reads.noRelay {q : Query} (h : Reads q) : NoRelay q := by
  rintro relays hex rfl
  exact h

/-- What a listing takes: a sample of evonodes, heights and the coins. -/
def Surveys : Query → Prop
  | .sample _ | .heights _ | .listing .. => True
  | _ => False

theorem Surveys.reads {q : Query} (h : Surveys q) : Reads q := by
  cases q <;> trivial

/-- What a verdict on a transaction takes: a sample of evonodes, and providers asked about it. -/
def Classifies (txid : String) : Query → Prop
  | .sample _ => True
  | .isCoinbase _ txid' => txid' = txid
  | _ => False

theorem Classifies.reads {txid : String} {q : Query} (h : Classifies txid q) : Reads q := by
  cases q <;> trivial

theorem Samples.surveys {q : Query} (h : Samples q) : Surveys q := by
  obtain ⟨n, rfl⟩ := h
  trivial

theorem Samples.classifies {txid : String} {q : Query} (h : Samples q) : Classifies txid q := by
  obtain ⟨n, rfl⟩ := h
  trivial

namespace ChainClient

variable {σ : Type} {cc : ChainClient} {es : List Answered}

theorem surveys_heights (providers : List Provider) :
    (cc.heights providers : Net σ _).Quiet Surveys :=
  Quiet.bind ((quiet_ask _).mpr trivial) fun _ => quiet_pure _

theorem surveys_surveyWith : (cc.surveyWith : Net σ _).Quiet Surveys := by
  refine (quiet_active.mono fun _ => Samples.surveys).bind fun providers =>
    (surveys_heights _).bind fun statuses => ?_
  dsimp only
  split
  · exact quiet_pure _
  · exact (surveys_heights _).bind fun _ => quiet_pure _

theorem surveys_listFrom (address : String) (retried : Bool) (ps : List Provider)
    (errors : List String) : (listFrom address retried ps errors : Net σ _).Quiet Surveys := by
  induction ps generalizing retried errors with
  | nil => trivial
  | cons p ps ih =>
    refine Quiet.bind ((quiet_ask _).mpr trivial) fun first => ?_
    cases first with
    | ok utxos => exact quiet_pure _
    | error e =>
      dsimp only
      split
      · refine Quiet.bind ((quiet_ask _).mpr trivial) fun second => ?_
        cases second with
        | ok utxos => exact quiet_pure _
        | error e' => exact ih true _
      · exact ih retried _

theorem surveys_getUtxos (address : String) : (cc.getUtxos address : Net σ _).Quiet Surveys := by
  refine surveys_surveyWith.bind fun survey => ?_
  obtain ⟨providers, statuses⟩ := survey
  dsimp only
  split
  · exact quiet_throw _
  · exact (surveys_listFrom _ _ _ _).bind fun _ => quiet_pure _

theorem reads_getUtxos (address : String) : (cc.getUtxos address : Net σ _).Quiet Reads :=
  (surveys_getUtxos address).mono fun _ => Surveys.reads

/-- A listing is some provider's answer. -/
theorem listFrom_ok {address : String} {retried : Bool} {ps : List Provider} {errors : List String}
    {p : Provider} {utxos : List Utxo}
    (h : Transcript (listFrom address retried ps errors : Net σ _) es (.ok (p, utxos))) :
    ⟨.listing p address, .ok utxos⟩ ∈ es := by
  induction ps generalizing retried errors es with
  | nil =>
    obtain ⟨-, hr⟩ := transcript_throw.mp h
    cases hr
  | cons q ps ih =>
    obtain ⟨es₁, r₁, h₁, hrest⟩ := transcript_bind.mp h
    obtain ⟨first, rfl, rfl⟩ := transcript_ask.mp h₁
    obtain ⟨es₂, rfl, h₂⟩ := hrest
    rcases first with ⟨e, aborted⟩ | utxos'
    · dsimp only at h₂
      split at h₂
      · -- a quick failure: the same provider once more
        obtain ⟨es₃, r₃, h₃, hrest⟩ := transcript_bind.mp h₂
        obtain ⟨second, rfl, rfl⟩ := transcript_ask.mp h₃
        obtain ⟨es₄, rfl, h₄⟩ := hrest
        rcases second with ⟨e', aborted'⟩ | utxos'
        -- both tries failed: the provider after it is asked
        · exact List.mem_append_right _ (List.mem_append_right _ (ih h₄))
        · obtain ⟨-, hr⟩ := transcript_pure.mp h₄
          cases hr
          simp
      · exact List.mem_append_right _ (ih h₂)
    · obtain ⟨-, hr⟩ := transcript_pure.mp h₂
      cases hr
      simp

/-- The coins of a snapshot are some provider's listing. -/
theorem getUtxos_ok {address : String} {snapshot : UtxoSnapshot}
    (h : Transcript (cc.getUtxos address : Net σ _) es (.ok snapshot)) :
    ∃ p, ⟨.listing p address, .ok snapshot.utxos⟩ ∈ es := by
  obtain ⟨es₁, r₁, -, hrest⟩ := transcript_bind.mp h
  rcases r₁ with e | ⟨providers, statuses⟩
  · exact absurd hrest.2 (by simp)
  · obtain ⟨es₂, rfl, h₂⟩ := hrest
    dsimp only at h₂
    split at h₂
    · obtain ⟨-, hr⟩ := transcript_throw.mp h₂
      cases hr
    · obtain ⟨es₃, r₃, h₃, hrest⟩ := transcript_bind.mp h₂
      rcases r₃ with e | ⟨p, utxos⟩
      · exact absurd hrest.2 (by simp)
      · obtain ⟨es₄, rfl, h₄⟩ := hrest
        obtain ⟨-, hr⟩ := transcript_pure.mp h₄
        cases hr
        exact ⟨p, List.mem_append_right _ (List.mem_append_left _ (listFrom_ok h₃))⟩

section FirstAnswer

variable {α : Type} {operation none? : String} {q : Provider → Query}
  {ask' : (p : Provider) → Net σ (Except String α)}

theorem quiet_firstAnswer {ok : Query → Prop} (hask : ∀ p, (ask' p).Quiet ok) (ps : List Provider)
    (errors : List String) : (firstAnswer operation none? ask' ps errors).Quiet ok := by
  induction ps generalizing errors with
  | nil => trivial
  | cons p ps ih =>
    refine (hask p).bind fun answer => ?_
    cases answer with
    | ok a => exact quiet_pure _
    | error e => exact ih _

/-- The first answer is one of the providers' own, and the last thing heard. -/
theorem firstAnswer_ok {ps : List Provider} {errors : List String} {a : α}
    (h : Transcript (firstAnswer operation none? ask' ps errors) es (.ok a)) :
    ∃ p ∈ ps, ∃ es', es' <:+ es ∧ Transcript (ask' p) es' (.ok (.ok a)) := by
  induction ps generalizing errors es with
  | nil =>
    obtain ⟨-, hr⟩ := transcript_throw.mp h
    cases hr
  | cons p ps ih =>
    obtain ⟨es₁, r₁, h₁, hrest⟩ := transcript_bind.mp h
    rcases r₁ with e | e | a'
    · exact absurd hrest.2 (by simp)
    · obtain ⟨es₂, rfl, h₂⟩ := hrest
      obtain ⟨p', hp', es', hsub, h'⟩ := ih h₂
      exact ⟨p', List.mem_cons_of_mem _ hp', es', hsub.trans (List.suffix_append _ _), h'⟩
    · obtain ⟨es₂, rfl, h₂⟩ := hrest
      obtain ⟨rfl, hr⟩ := transcript_pure.mp h₂
      cases hr
      exact ⟨p, List.mem_cons_self, es₁, ⟨[], by simp⟩, h₁⟩

end FirstAnswer

theorem classifies_isCoinbase (txid : String) :
    (cc.isCoinbase txid : Net σ _).Quiet (Classifies txid) :=
  (quiet_active.mono fun _ => Samples.classifies).bind fun _ =>
    quiet_firstAnswer (fun p => (quiet_ask (Query.isCoinbase p txid)).mpr
      (show Classifies txid (Query.isCoinbase p txid) from rfl)) _ _

theorem reads_isCoinbase (txid : String) : (cc.isCoinbase txid : Net σ _).Quiet Reads :=
  (classifies_isCoinbase txid).mono fun _ => Classifies.reads

/-- A coinbase verdict is some provider's answer. -/
theorem isCoinbase_ok {txid : String} {b : Bool}
    (h : Transcript (cc.isCoinbase txid : Net σ _) es (.ok b)) :
    ∃ p, ⟨.isCoinbase p txid, .ok b⟩ ∈ es := by
  obtain ⟨es₁, r₁, -, hrest⟩ := transcript_bind.mp h
  cases r₁ with
  | error e => exact absurd hrest.2 (by simp)
  | ok active =>
    obtain ⟨es₂, rfl, h₂⟩ := hrest
    obtain ⟨p, -, es', hsub, h'⟩ := firstAnswer_ok h₂
    obtain ⟨a, rfl, hr⟩ := transcript_ask.mp h'
    cases hr
    exact ⟨p, List.mem_append_right _ (hsub.subset List.mem_cons_self)⟩

theorem reads_getChainLockStatus (txid : String) :
    (cc.getChainLockStatus txid : Net σ _).Quiet Reads :=
  quiet_firstAnswer (fun _ => (quiet_ask _).mpr trivial) _ _

theorem isEvonode_of_configured {p : Provider} (h : p ∈ cc.primary ++ cc.fallback) :
    p.isEvonode = false := by
  simp only [List.mem_append, primary, fallback, List.mem_map] at h
  rcases h with ⟨spec, -, rfl⟩ | ⟨spec, -, rfl⟩ <;> rfl

/-- A ChainLock status is a configured provider's answer, the last one heard. -/
theorem getChainLockStatus_ok {txid : String} {status : ChainLockStatus}
    (h : Transcript (cc.getChainLockStatus txid : Net σ _) es (.ok status)) :
    ∃ p, p.isEvonode = false ∧ [⟨.chainLock p txid, .ok status⟩] <:+ es := by
  obtain ⟨p, hp, es', hsub, h'⟩ := firstAnswer_ok h
  obtain ⟨a, rfl, hr⟩ := transcript_ask.mp h'
  cases hr
  exact ⟨p, isEvonode_of_configured (List.mem_of_mem_filter hp), hsub⟩

end ChainClient

end DashFaucet
