import DashFaucet.Chain.Lookups

/-!
# Evonodes decide nothing

Sampled evonodes are strangers. They relay and vote on the tip, but what decides about money is the
same whatever they are and whatever they answer. Two executions are compared question by question:
where both ask the same configured provider, it answers both alike.

* `SameReplies`, `Agree`: the configured providers answer two executions alike.
* `ChainClient.vouches_of_agree`: a configured relay takes the transaction in both or in neither.
* `ChainClient.evonodes_decide_nothing`: broadcasts, ChainLock statuses and lookups.
-/

namespace DashFaucet

open Async

/-! ### Two executions -/

/-- A configured provider that is asked at the same place of two questions answers both alike. -/
def SameReplies : Answered → Answered → Prop
  | ⟨.relay relays _, settled⟩, ⟨.relay relays' _, settled'⟩ =>
    ∀ i p, p.isEvonode = false → relays[i]? = some p → relays'[i]? = some p →
      settled i = settled' i
  | ⟨.hasTx providers _, settled⟩, ⟨.hasTx providers' _, settled'⟩ =>
    ∀ i p, p.isEvonode = false → providers[i]? = some p → providers'[i]? = some p →
      settled i = settled' i
  | ⟨.chainLock p _, status⟩, ⟨.chainLock p' _, status'⟩ =>
    p.isEvonode = false → p = p' → status = status'
  | _, _ => True

/-- So it does at every question that both executions get to. -/
def Agree (es es' : List Answered) : Prop :=
  ∀ (k : ℕ) (e e' : Answered), es[k]? = some e → es'[k]? = some e' → SameReplies e e'

theorem SameReplies.symm {e e' : Answered} (h : SameReplies e e') : SameReplies e' e := by
  obtain ⟨q, a⟩ := e
  obtain ⟨q', a'⟩ := e'
  cases q <;> cases q' <;> first | trivial | skip
  · exact fun i p hp hi hi' => (h i p hp hi' hi).symm
  · exact fun i p hp hi hi' => (h i p hp hi' hi).symm
  · rintro hp rfl
    exact (h hp rfl).symm

namespace Agree

variable {es es' fs fs' : List Answered}

theorem symm (h : Agree es es') : Agree es' es :=
  fun k e e' he he' => (h k e' e he' he).symm

theorem head {e e' : Answered} (h : Agree (e :: es) (e' :: es')) : SameReplies e e' :=
  h 0 e e' rfl rfl

theorem tail {e e' : Answered} (h : Agree (e :: es) (e' :: es')) : Agree es es' :=
  fun k => h (k + 1)

/-- What comes after as many questions agrees too. -/
theorem drop (h : Agree (es ++ fs) (es' ++ fs')) (hlen : es.length = es'.length) :
    Agree fs fs' := by
  intro k e e' he he'
  refine h (es.length + k) e e' ?_ ?_
  · rw [List.getElem?_append_right (Nat.le_add_right _ _), Nat.add_sub_cancel_left, he]
  · rw [hlen, List.getElem?_append_right (Nat.le_add_right _ _), Nat.add_sub_cancel_left, he']

end Agree

/-- Every sampled origin parses as a URL. -/
def Parsed (cc : ChainClient) (es : List Answered) : Prop :=
  ∀ n origins, ⟨.sample n, origins⟩ ∈ es → ∀ o ∈ origins, (cc.urlHostname o).isSome

namespace ChainClient

variable {σ : Type} {cc : ChainClient} {es es' : List Answered}

/-! ### The active providers -/

/-- The active providers are the primaries and some evonodes, after as many questions in every
execution. -/
theorem active_transcript {r : Except Thrown (List Provider)}
    (h : Transcript (cc.active : Net σ _) es r) (hparsed : Parsed cc es) :
    es.length = (if cc.evonodes then 1 else 0) ∧
      ∃ origins : List String, r = .ok (cc.primary ++ origins.map Provider.evonode) := by
  unfold active at h
  split at h
  · next hon =>
    obtain ⟨es₁, r₁, h₁, hrest⟩ := transcript_bind.mp h
    obtain ⟨origins, rfl, rfl⟩ := transcript_ask.mp h₁
    obtain ⟨es₂, rfl, h₂⟩ := hrest
    have hall : origins.all (fun o => (cc.urlHostname o).isSome) = true :=
      List.all_eq_true.mpr (hparsed evonodeSample origins List.mem_cons_self)
    rw [if_pos hall] at h₂
    obtain ⟨rfl, rfl⟩ := transcript_pure.mp h₂
    exact ⟨by simp [hon], origins, rfl⟩
  · next hoff =>
    obtain ⟨rfl, rfl⟩ := transcript_pure.mp h
    exact ⟨by simp [hoff], [], by simp⟩

/-- A configured provider stands at the same place whatever was sampled. -/
theorem getElem?_of_configured {configured : List Provider} {origins : List String}
    {i : ℕ} {p : Provider} (hp : p.isEvonode = false)
    (hi : (configured ++ origins.map Provider.evonode)[i]? = some p) (origins' : List String) :
    (configured ++ origins'.map Provider.evonode)[i]? = some p := by
  by_cases hlt : i < configured.length
  · rw [List.getElem?_append_left hlt] at hi ⊢
    exact hi
  · rw [List.getElem?_append_right (by omega)] at hi
    obtain ⟨origin, -, rfl⟩ := List.mem_map.mp (List.mem_of_getElem? hi)
    cases hp

/-! ### Broadcast -/

/-- The relays of the first round. -/
theorem relays_eq (origins : List String) :
    (cc.primary ++ origins.map Provider.evonode).filter (·.canBroadcast) =
      cc.primary.filter (·.canBroadcast) ++ origins.map Provider.evonode := by
  rw [List.filter_append]
  have hall : (origins.map Provider.evonode).filter (·.canBroadcast) =
      origins.map Provider.evonode := by
    refine List.filter_eq_self.mpr fun p hp => ?_
    obtain ⟨origin, -, rfl⟩ := List.mem_map.mp hp
    rfl
  rw [hall]

/-- The outcomes of one round. -/
theorem relayOutcomes_singleton (rawHex : String) (relays : List Provider)
    (settled : ℕ → Except String String) :
    relayOutcomes rawHex [⟨.relay relays rawHex, settled⟩] =
      relays.zipIdx.map fun x => (x.1, settled x.2) := by
  simp [relayOutcomes, outcomesOf]

/-- Some configured relay of a round took the transaction. -/
def TakenIn (relays : List Provider) (settled : ℕ → Except String String) : Prop :=
  ∃ i p, relays[i]? = some p ∧ Vouches (p, settled i)

theorem exists_vouches_singleton (rawHex : String) {relays : List Provider}
    {settled : ℕ → Except String String} :
    (∃ o ∈ relayOutcomes rawHex [⟨.relay relays rawHex, settled⟩], Vouches o) ↔
      TakenIn relays settled := by
  rw [relayOutcomes_singleton]
  simp only [List.mem_map, TakenIn, Prod.exists, List.mem_zipIdx_iff_getElem?]
  constructor
  · rintro ⟨p', a, ⟨p, i, hi, heq⟩, hv⟩
    cases heq
    exact ⟨i, _, hi, hv⟩
  · rintro ⟨i, p, hi, hv⟩
    exact ⟨p, settled i, ⟨p, i, hi, rfl⟩, hv⟩

theorem exists_vouches_two {rawHex : String} {relays relays' : List Provider}
    {settled settled' : ℕ → Except String String} :
    (∃ o ∈ relayOutcomes rawHex
      [⟨.relay relays rawHex, settled⟩, ⟨.relay relays' rawHex, settled'⟩],
      Vouches o) ↔ TakenIn relays settled ∨ TakenIn relays' settled' := by
  rw [← List.singleton_append, relayOutcomes_append, ← exists_vouches_singleton rawHex,
    ← exists_vouches_singleton rawHex]
  simp only [List.mem_append, or_and_right, exists_or]

/-- The rounds of a broadcast: none without any relay, one when a configured relay took the
transaction, and the fallbacks after it when none did. -/
inductive Rounds (cc : ChainClient) (rawHex : String) (relays : List Provider) :
    List Answered → Prop where
  | none (hrelays : relays = []) (hfallback : cc.fallback = []) : Rounds cc rawHex relays []
  | one {settled : ℕ → Except String String} (htaken : TakenIn relays settled) :
      Rounds cc rawHex relays [⟨.relay relays rawHex, settled⟩]
  | two {settled settled' : ℕ → Except String String} (hnot : ¬TakenIn relays settled) :
      Rounds cc rawHex relays [⟨.relay relays rawHex, settled⟩,
        ⟨.relay (cc.fallback.filter (·.canBroadcast)) rawHex, settled'⟩]

theorem relay_rounds {relays : List Provider} {rawHex txid : String} {t : Tally}
    {r : Except Thrown Tally} (h : Transcript (cc.relay relays rawHex txid t : Net σ _) es r) :
    ∃ settled, es = [⟨.relay relays rawHex, settled⟩] := by
  obtain ⟨es₁, r₁, h₁, hrest⟩ := transcript_bind.mp h
  obtain ⟨settled, rfl, rfl⟩ := transcript_ask.mp h₁
  obtain ⟨es₂, rfl, h₂⟩ := hrest
  obtain ⟨rfl, -⟩ := transcript_pure.mp h₂
  exact ⟨settled, rfl⟩

theorem broadcast_rounds {rawHex txid : String} {r : Except Thrown BroadcastResult}
    (h : Transcript (cc.broadcast rawHex txid : Net σ _) es r) (hparsed : Parsed cc es) :
    ∃ front rounds, ∃ origins : List String, es = front ++ rounds ∧
      front.length = (if cc.evonodes then 1 else 0) ∧
      relayOutcomes rawHex front = [] ∧
      Rounds cc rawHex (cc.primary.filter (·.canBroadcast) ++ origins.map Provider.evonode)
        rounds := by
  obtain ⟨front, r₁, h₁, hrest⟩ := transcript_bind.mp h
  have hfront : Parsed cc front := by
    intro n origins hmem
    refine hparsed n origins ?_
    cases r₁ with
    | error e => exact hrest.1 ▸ hmem
    | ok active =>
      obtain ⟨rounds, rfl, -⟩ := hrest
      exact List.mem_append_left _ hmem
  -- no provider takes broadcasts: the client throws before any round
  obtain ⟨hlen, origins, rfl⟩ := active_transcript h₁ hfront
  obtain ⟨rounds, rfl, h₂⟩ := hrest
  refine ⟨front, rounds, origins, rfl, hlen, active_relayOutcomes rawHex h₁, ?_⟩
  dsimp only at h₂
  -- the first round; whether a relay took it is read off its answers
  rw [relays_eq] at h₂
  split at h₂
  · next hnone =>
    obtain ⟨rfl, -⟩ := transcript_throw.mp h₂
    rw [Bool.and_eq_true, List.isEmpty_iff] at hnone
    exact .none hnone.1 (List.isEmpty_iff.mp hnone.2)
  · obtain ⟨es₁, r₁, h₁, hrest⟩ := transcript_bind.mp h₂
    obtain ⟨settled, rfl⟩ := relay_rounds h₁
    -- nobody took it: the second round
    have htaken :
        (cc.tally txid (relayOutcomes rawHex [⟨.relay _ rawHex, settled⟩])).accepted ≠ [] ↔
        _ := cc.accepted_ne_nil txid
    rw [exists_vouches_singleton] at htaken
    obtain rfl := relay_transcript h₁
    obtain ⟨es₂, rfl, h₃⟩ := hrest
    split at h₃
    · next hempty =>
      obtain ⟨es₃, r₃, h₄, hrest⟩ := transcript_bind.mp h₃
      obtain ⟨settled', rfl⟩ := relay_rounds h₄
      obtain rfl := relay_transcript h₄
      obtain ⟨es₄, rfl, h₅⟩ := hrest
      obtain ⟨rfl, -⟩ := transcript_pure.mp h₅
      exact .two fun h => htaken.mpr h (List.isEmpty_iff.mp hempty)
    · next hsome =>
      obtain ⟨rfl, -⟩ := transcript_pure.mp h₃
      exact .one (htaken.mp fun h => hsome (List.isEmpty_iff.mpr h))

/-- What the configured relays take does not depend on the evonodes. -/
theorem TakenIn.agree {configured : List Provider} {origins origins' : List String}
    {hex hex' : String} {settled settled' : ℕ → Except String String}
    (h : TakenIn (configured ++ origins.map Provider.evonode) settled)
    (hsame : SameReplies ⟨.relay (configured ++ origins.map Provider.evonode) hex, settled⟩
      ⟨.relay (configured ++ origins'.map Provider.evonode) hex', settled'⟩) :
    TakenIn (configured ++ origins'.map Provider.evonode) settled' := by
  obtain ⟨i, p, hi, hv⟩ := h
  have hi' := getElem?_of_configured hv.1 hi origins'
  refine ⟨i, p, hi', ?_⟩
  rw [← hsame i p hv.1 hi hi']
  exact hv

/-- **A configured relay takes the transaction in both executions or in neither.** -/
theorem vouches_of_agree {rawHex txid : String} {r r' : Except Thrown BroadcastResult}
    (h : Transcript (cc.broadcast rawHex txid : Net σ _) es r)
    (h' : Transcript (cc.broadcast rawHex txid : Net σ _) es' r') (hparsed : Parsed cc es)
    (hparsed' : Parsed cc es') (hagree : Agree es es')
    (hv : ∃ o ∈ relayOutcomes rawHex es, Vouches o) :
    ∃ o ∈ relayOutcomes rawHex es', Vouches o := by
  obtain ⟨front, rounds, origins, rfl, hlen, hnone, hrounds⟩ := broadcast_rounds h hparsed
  obtain ⟨front', rounds', origins', rfl, hlen', hnone', hrounds'⟩ := broadcast_rounds h' hparsed'
  have hagree := hagree.drop (hlen.trans hlen'.symm)
  rw [relayOutcomes_append, hnone, List.nil_append] at hv
  rw [relayOutcomes_append, hnone', List.nil_append]
  cases hrounds' with
  | none hrelays hfallback =>
    -- no relay but evonodes, here or there
    exfalso
    have hnot : ∀ {settled}, ¬TakenIn (cc.primary.filter (·.canBroadcast) ++
        origins.map Provider.evonode) settled := by
      rintro settled ⟨i, p, hi, hv⟩
      have hi' := getElem?_of_configured hv.1 hi origins'
      rw [hrelays] at hi'
      cases hi'
    cases hrounds with
    | none =>
      obtain ⟨o, ho, -⟩ := hv
      cases ho
    | one htaken => exact hnot htaken
    | two =>
      rcases exists_vouches_two.mp hv with htaken | ⟨i, p, hi, -⟩
      · exact hnot htaken
      · rw [hfallback] at hi
        cases hi
  | one htaken => exact (exists_vouches_singleton _).mpr htaken
  | two hnot =>
    cases hrounds with
    | none =>
      obtain ⟨o, ho, -⟩ := hv
      cases ho
    | one htaken => exact absurd (htaken.agree hagree.head) hnot
    | two hnot₁ =>
      -- both asked the fallbacks, the same ones
      obtain ⟨i, p, hi, hvouches⟩ := (exists_vouches_two.mp hv).resolve_left hnot₁
      refine exists_vouches_two.mpr (.inr ⟨i, p, hi, ?_⟩)
      rw [← hagree.tail.head i p hvouches.1 hi hi]
      exact hvouches

/-- A broadcast has an acceptance exactly when a configured relay took the transaction. -/
theorem accepted_iff {rawHex txid : String} {r : Except Thrown BroadcastResult}
    (h : Transcript (cc.broadcast rawHex txid : Net σ _) es r) :
    (∃ res, r = .ok res ∧ res.accepted ≠ []) ↔ ∃ o ∈ relayOutcomes rawHex es, Vouches o := by
  rcases broadcast_transcript h with ⟨e, rfl, hnone⟩ | rfl
  · rw [hnone]
    constructor
    · rintro ⟨res, hres, -⟩
      cases hres
    · rintro ⟨o, ho, -⟩
      cases ho
  · constructor
    · rintro ⟨res, hres, hacc⟩
      cases hres
      exact (cc.accepted_ne_nil txid).mp (result_accepted_ne_nil.mp hacc)
    · exact fun hv => ⟨_, rfl, result_accepted_ne_nil.mpr ((cc.accepted_ne_nil txid).mpr hv)⟩

/-! ### ChainLock statuses -/

/-- A status depends on configured providers only. -/
theorem firstAnswer_agree {operation none? txid : String} {ps : List Provider}
    {errors : List String} (hps : ∀ p ∈ ps, p.isEvonode = false)
    {r r' : Except Thrown ChainLockStatus}
    (h : Transcript (firstAnswer operation none?
      (fun p => (ask (Query.chainLock p txid) : Net σ _)) ps errors) es r)
    (h' : Transcript (firstAnswer operation none?
      (fun p => (ask (Query.chainLock p txid) : Net σ _)) ps errors) es' r')
    (hagree : Agree es es') : r = r' := by
  induction ps generalizing errors es es' with
  | nil =>
    obtain ⟨-, rfl⟩ := transcript_throw.mp h
    obtain ⟨-, rfl⟩ := transcript_throw.mp h'
    rfl
  | cons p ps ih =>
    obtain ⟨hp, hps⟩ := List.forall_mem_cons.mp hps
    obtain ⟨es₁, r₁, h₁, hrest⟩ := transcript_bind.mp h
    obtain ⟨a, rfl, rfl⟩ := transcript_ask.mp h₁
    obtain ⟨es₂, rfl, h₂⟩ := hrest
    obtain ⟨es₁', r₁', h₁', hrest'⟩ := transcript_bind.mp h'
    obtain ⟨a', rfl, rfl⟩ := transcript_ask.mp h₁'
    obtain ⟨es₂', rfl, h₂'⟩ := hrest'
    -- the same provider is asked, and answers both alike
    obtain rfl : a = a' := hagree.head hp rfl
    cases a with
    | ok status =>
      obtain ⟨-, rfl⟩ := transcript_pure.mp h₂
      obtain ⟨-, rfl⟩ := transcript_pure.mp h₂'
      rfl
    | error e => exact ih hps h₂ h₂' hagree.tail

/-! ### Lookups -/

/-- Among the active providers, which are asked first, a primary one said it knows the
transaction. -/
def PrimaryKnows (cc : ChainClient) (txid : String) (es : List Answered) : Prop :=
  ∃ providers, ∃ settled : Answer (.hasTx providers txid),
    es[if cc.evonodes then 1 else 0]? = some ⟨.hasTx providers txid, settled⟩ ∧
      ∃ i < cc.primary.length, settled i = .ok true

/-- The active providers are asked first. -/
theorem anyKnowsTx_first {txid : String} {r : Except Thrown (Option Bool)}
    (h : Transcript (cc.anyKnowsTx txid : Net σ _) es r) (hparsed : Parsed cc es) :
    ∃ origins : List String, ∃ settled,
      es[if cc.evonodes then 1 else 0]? =
        some ⟨.hasTx (cc.primary ++ origins.map Provider.evonode) txid, settled⟩ := by
  obtain ⟨front, r₁, h₁, hrest⟩ := transcript_bind.mp h
  -- the sample is drawn first, and before anything that could throw
  have hfront : Parsed cc front := by
    intro n origins hmem
    refine hparsed n origins ?_
    cases r₁ with
    | error e => exact hrest.1 ▸ hmem
    | ok active =>
      obtain ⟨rest, rfl, -⟩ := hrest
      exact List.mem_append_left _ hmem
  obtain ⟨hlen, origins, rfl⟩ := active_transcript h₁ hfront
  obtain ⟨rest, rfl, h₂⟩ := hrest
  obtain ⟨es₂, r₂, h₃, hrest⟩ := transcript_bind.mp h₂
  obtain ⟨es₃, r₃, h₄, hrest'⟩ := transcript_bind.mp h₃
  obtain ⟨settled, rfl, rfl⟩ := transcript_ask.mp h₄
  obtain ⟨es₄, rfl, h₅⟩ := hrest'
  obtain ⟨rfl, rfl⟩ := transcript_pure.mp h₅
  obtain ⟨es₅, rfl, -⟩ := hrest
  -- it takes one answer, or none without evonodes
  refine ⟨origins, settled, ?_⟩
  rw [← hlen, List.getElem?_append_right (le_refl _), Nat.sub_self]
  rfl

theorem PrimaryKnows.known {txid : String} {r : Except Thrown (Option Bool)}
    (h : Transcript (cc.anyKnowsTx txid : Net σ _) es r) (hparsed : Parsed cc es)
    (hknows : PrimaryKnows cc txid es) : r = .ok (some true) := by
  obtain ⟨origins, settled, hfirst⟩ := anyKnowsTx_first h hparsed
  obtain ⟨providers, settled', hentry, i, hi, hyes⟩ := hknows
  rw [hfirst] at hentry
  cases hentry
  refine (anyKnowsTx_transcript h).mpr ⟨_, List.mem_of_getElem? hfirst, _, settled, rfl,
    cc.primary[i], i, ?_, ?_, hyes⟩
  · rw [List.mem_zipIdx_iff_getElem?, List.getElem?_append_left hi, List.getElem?_eq_getElem hi]
  · exact isEvonode_of_configured (List.mem_append_left _ (List.getElem_mem hi))

/-- A primary provider's yes is heard in both executions. -/
theorem PrimaryKnows.agree {txid : String} {r r' : Except Thrown (Option Bool)}
    (h : Transcript (cc.anyKnowsTx txid : Net σ _) es r)
    (h' : Transcript (cc.anyKnowsTx txid : Net σ _) es' r') (hparsed : Parsed cc es)
    (hparsed' : Parsed cc es') (hagree : Agree es es') (hknows : PrimaryKnows cc txid es) :
    PrimaryKnows cc txid es' := by
  obtain ⟨origins, settled, hfirst⟩ := anyKnowsTx_first h hparsed
  obtain ⟨origins', settled', hfirst'⟩ := anyKnowsTx_first h' hparsed'
  obtain ⟨providers, settled₁, hentry, i, hi, hyes⟩ := hknows
  rw [hfirst] at hentry
  cases hentry
  refine ⟨_, settled', hfirst', i, hi, ?_⟩
  have hplace : ∀ origins : List String, (cc.primary ++ origins.map Provider.evonode)[i]? =
      some cc.primary[i] := by
    intro origins
    rw [List.getElem?_append_left hi, List.getElem?_eq_getElem hi]
  have hconf : cc.primary[i].isEvonode = false :=
    isEvonode_of_configured (List.mem_append_left _ (List.getElem_mem hi))
  rw [← hagree _ _ _ hfirst hfirst' i _ hconf (hplace origins) (hplace origins')]
  exact hyes

/-- **Evonodes decide nothing.** Take two executions in which the configured providers answer alike,
with any evonodes sampled, whose origins parse, and any answers from these. A broadcast is accepted
in both or in neither; the ChainLock status, or the failure, is the same; and a transaction is known
in either only if a configured provider said so, and in both if a primary one did. -/
theorem evonodes_decide_nothing (hparsed : Parsed cc es) (hparsed' : Parsed cc es')
    (hagree : Agree es es') :
    (∀ rawHex txid r r', Transcript (cc.broadcast rawHex txid : Net σ _) es r →
      Transcript (cc.broadcast rawHex txid : Net σ _) es' r' →
        ((∃ res, r = .ok res ∧ res.accepted ≠ []) ↔ ∃ res, r' = .ok res ∧ res.accepted ≠ [])) ∧
    (∀ txid r r', Transcript (cc.getChainLockStatus txid : Net σ _) es r →
      Transcript (cc.getChainLockStatus txid : Net σ _) es' r' → r = r') ∧
    ∀ txid r r', Transcript (cc.anyKnowsTx txid : Net σ _) es r →
      Transcript (cc.anyKnowsTx txid : Net σ _) es' r' →
        (r = .ok (some true) → ∃ e ∈ es, Knows txid e) ∧
        (r' = .ok (some true) → ∃ e ∈ es', Knows txid e) ∧
        (PrimaryKnows cc txid es → r = .ok (some true) ∧ r' = .ok (some true)) := by
  refine ⟨fun rawHex txid r r' h h' => ?_, fun txid r r' h h' => ?_, fun txid r r' h h' => ?_⟩
  · rw [accepted_iff h, accepted_iff h']
    exact ⟨vouches_of_agree h h' hparsed hparsed' hagree,
      vouches_of_agree h' h hparsed' hparsed hagree.symm⟩
  · -- only configured providers are asked for ChainLocks
    refine firstAnswer_agree (fun p hp => ?_) h h' hagree
    exact isEvonode_of_configured (List.mem_of_mem_filter hp)
  · exact ⟨(anyKnowsTx_transcript h).mp, (anyKnowsTx_transcript h').mp, fun hknows =>
      ⟨hknows.known h hparsed, (hknows.agree h h' hparsed hparsed' hagree).known h' hparsed'⟩⟩

/-- A Core node accepts, once with an evonode beside it that refuses and once alone. -/
theorem evonodes_decide_nothing_core :
    ∃ (es es' : List Answered) (r r' : Except Thrown BroadcastResult),
    es.length = es'.length ∧ es ≠ es' ∧
      ((∃ res, r = .ok res ∧ res.accepted ≠ []) ↔ ∃ res, r' = .ok res ∧ res.accepted ≠ []) := by
  let cc : ChainClient := ⟨[(.dashrpc, "core")], [], true, some, .insertion⟩
  let core : Provider := .configured .dashrpc "core"
  let settled : ℕ → Except String String := fun i => if i = 0 then .ok "id" else .error "bad-txns"
  let es : List Answered :=
    [⟨.sample evonodeSample, ["a"]⟩, ⟨.relay [core, .evonode "a"] "00", settled⟩]
  let es' : List Answered := [⟨.sample evonodeSample, []⟩, ⟨.relay [core] "00", settled⟩]
  have h : Transcript (cc.broadcast "00" "id" : Net Unit _) es
      (.ok ⟨"id", ["dashrpc"], ["dapi:a: bad-txns"], []⟩) := by
    exact ⟨_, _, rfl, _, _, rfl, rfl, by decide +kernel⟩
  have h' : Transcript (cc.broadcast "00" "id" : Net Unit _) es'
    (.ok ⟨"id", ["dashrpc"], [], []⟩) := by
    exact ⟨_, _, rfl, _, _, rfl, rfl, by decide +kernel⟩
  have hparsed : Parsed cc es := by
    intro n origins _ o _
    rfl
  have hparsed' : Parsed cc es' := by
    intro n origins _ o _
    rfl
  -- the two worlds agree on what the configured relay says
  have hagree : Agree es es' := by
    rintro (_ | _ | k) e e' he he'
    · cases he
      cases he'
      trivial
    · cases he
      cases he'
      exact fun i p _ _ _ => rfl
    · cases he
  refine ⟨es, es', _, _, rfl, ?_, (evonodes_decide_nothing hparsed hparsed' hagree).1 _ _ _ _ h h'⟩
  intro heq
  have hlen : (relayOutcomes "00" es).length = (relayOutcomes "00" es').length := by rw [heq]
  exact absurd hlen (by decide)

end ChainClient

end DashFaucet
