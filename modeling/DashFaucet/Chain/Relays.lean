import DashFaucet.Chain.Client

/-!
# What a broadcast proves

A broadcast asks relays in one or two rounds and sorts their outcomes into three lists. This file
reads those lists back as a function of the outcomes alone.

* `relayOutcomes`: who was asked to relay a transaction, and with what outcome.
* `Vouches`, `Rejects`: the outcomes that prove that a transaction is, or is not, on the network.
* `ChainClient.broadcast_ok`: the result of a broadcast is the tally of its outcomes, so every
  relay asked has exactly one entry (`ChainClient.entry`).
* `ChainClient.accepted_ne_nil`, `ChainClient.rejects_of_not_ambiguous`: an acceptance is vouched
  by a configured relay, and with neither acceptance nor doubt every relay rejected.
* `ChainClient.anyKnowsTx_true`: only a configured provider makes a transaction known.
-/

namespace DashFaucet

open Async

/-- A query and its answer. -/
abbrev Answered := (q : Query) × Answer q

/-- The outcomes of a query that hands `rawHex` to relays, relay by relay. -/
def outcomesOf (rawHex : String) : (q : Query) → Answer q → List (Provider × Except String String)
  | .relay relays hex, settled =>
    if hex = rawHex then relays.zipIdx.map fun (p, i) => (p, settled i) else []
  | _, _ => []

/-- Every relay that was handed `rawHex`, with its outcome. -/
def relayOutcomes (rawHex : String) (es : List Answered) : List (Provider × Except String String) :=
  es.flatMap fun e => outcomesOf rawHex e.1 e.2

@[simp] theorem relayOutcomes_nil (rawHex : String) : relayOutcomes rawHex [] = [] := rfl

theorem relayOutcomes_append (rawHex : String) (es es' : List Answered) :
    relayOutcomes rawHex (es ++ es') = relayOutcomes rawHex es ++ relayOutcomes rawHex es' :=
  List.flatMap_append ..

/-- A configured relay accepted the transaction or reported it as already known. -/
def Vouches (o : Provider × Except String String) : Prop :=
  o.1.isEvonode = false ∧ ((∃ txid, o.2 = .ok txid) ∨ ∃ m, o.2 = .error m ∧ isAlreadyKnown m)

/-- The relay explicitly rejected the transaction. -/
def Rejects (o : Provider × Except String String) : Prop :=
  ∃ m, o.2 = .error m ∧ isAlreadyKnown m = false ∧ classifyBroadcastError m = .rejected

/-- A configured provider said it knows the transaction. -/
def Knows (txid : String) (e : Answered) : Prop :=
  ∃ providers, ∃ settled : Answer (.hasTx providers txid), e = ⟨.hasTx providers txid, settled⟩ ∧
    ∃ p i, (p, i) ∈ providers.zipIdx ∧ p.isEvonode = false ∧ settled i = .ok true

/-! ### Kinds of queries -/

/-- The draw of a sample. -/
def Samples (q : Query) : Prop := ∃ n, q = .sample n

/-- What a broadcast of `rawHex` asks. -/
def Broadcasts (rawHex : String) (q : Query) : Prop :=
  Samples q ∨ ∃ relays, q = .relay relays rawHex

/-- What hands nothing to a relay. -/
def NoRelay (q : Query) : Prop := ∀ relays hex, q ≠ .relay relays hex

theorem Samples.noRelay {q : Query} (h : Samples q) : NoRelay q := by
  rintro relays hex rfl
  obtain ⟨n, hn⟩ := h
  cases hn

namespace ChainClient

variable {σ : Type} (cc : ChainClient)

/-! ### The tally -/

/-- Add the outcomes of some relays to a tally. -/
def pushAll (expectedTxid : String) (t : Tally) (os : List (Provider × Except String String)) :
    Tally :=
  os.foldl (fun t o => t.push (cc.name o.1) (cc.verdict expectedTxid o.1 o.2)) t

/-- The tally of a whole broadcast. -/
def tally (expectedTxid : String) (os : List (Provider × Except String String)) : Tally :=
  cc.pushAll expectedTxid ⟨[], [], [], []⟩ os

inductive Column where
  | accepted
  | rejected
  | ambiguous
  deriving DecidableEq, Repr

/-- The one entry of a relay in the result, `vouched` saying whether a configured relay took the
transaction. -/
def entry (expectedTxid : String) (vouched : Bool) (o : Provider × Except String String) :
    Column × String :=
  match cc.verdict expectedTxid o.1 o.2 with
  | .accepted => (.accepted, cc.name o.1)
  | .unvouched =>
    if vouched then (.accepted, cc.name o.1)
    else (.ambiguous, cc.name o.1 ++ ": accepted, unvouched by a configured relay")
  | .rejected text => (.rejected, text)
  | .ambiguous text => (.ambiguous, text)

/-- The entries of a column. -/
def column (expectedTxid : String) (vouched : Bool) (c : Column)
    (os : List (Provider × Except String String)) : List String :=
  ((os.map (cc.entry expectedTxid vouched)).filter fun e => e.1 = c).map Prod.snd

/-- The lists of a result hold the entries of their columns, one for each relay asked. -/
def OneEntryEach (expectedTxid : String) (os : List (Provider × Except String String))
    (res : BroadcastResult) : Prop :=
  ∃ vouched : Bool, (vouched = true ↔ ∃ o ∈ os, Vouches o) ∧
    res.accepted.Perm (cc.column expectedTxid vouched .accepted os) ∧
    res.rejected.Perm (cc.column expectedTxid vouched .rejected os) ∧
    res.ambiguous.Perm (cc.column expectedTxid vouched .ambiguous os)

/-- Each relay has its entry in the column its verdict names, acceptances by evonodes moving with
those of the configured relays. -/
theorem pushAll_columns (txid : String) (os : List (Provider × Except String String)) (t : Tally) :
    let t' := cc.pushAll txid t os
    (∀ v, t'.rejected = t.rejected ++ cc.column txid v .rejected os) ∧
      (t'.accepted ++ t'.unvouched).Perm
        (t.accepted ++ t.unvouched ++ cc.column txid true .accepted os) ∧
      t'.accepted = t.accepted ++ cc.column txid false .accepted os ∧
      t'.ambiguous = t.ambiguous ++ cc.column txid true .ambiguous os ∧
      (t'.ambiguous ++ t'.unvouched.map (· ++ ": accepted, unvouched by a configured relay")).Perm
        (t.ambiguous ++ t.unvouched.map (· ++ ": accepted, unvouched by a configured relay") ++
          cc.column txid false .ambiguous os) := by
  induction os generalizing t with
  | nil => simp [pushAll, column]
  | cons o os ih =>
    obtain ⟨h₁, h₂, h₃, h₄, h₅⟩ := ih (t.push (cc.name o.1) (cc.verdict txid o.1 o.2))
    simp only [pushAll, List.foldl_cons] at h₁ h₂ h₃ h₄ h₅ ⊢
    -- one relay: its verdict decides which list grew
    cases hv : cc.verdict txid o.1 o.2 with
    | accepted =>
      simp only [hv, Tally.push] at h₁ h₂ h₃ h₄ h₅ ⊢
      simp only [column, List.map_cons, entry, hv, List.filter_cons] at h₁ h₂ h₃ h₄ h₅ ⊢
      refine ⟨fun v => by simpa using h₁ v, h₂.trans ?_, by simpa using h₃, by simpa using h₄,
        by simpa using h₅⟩
      simp only [List.append_assoc, List.perm_append_left_iff]
      simpa using List.perm_middle.symm
    | unvouched =>
      simp only [hv, Tally.push] at h₁ h₂ h₃ h₄ h₅ ⊢
      simp only [column, List.map_cons, entry, hv, List.filter_cons] at h₁ h₂ h₃ h₄ h₅ ⊢
      refine ⟨fun v => ?_, by simpa using h₂, by simpa using h₃, by simpa using h₄,
        by simpa using h₅⟩
      cases v <;> simpa using h₁ _
    | rejected text =>
      simp only [hv, Tally.push] at h₁ h₂ h₃ h₄ h₅ ⊢
      simp only [column, List.map_cons, entry, hv, List.filter_cons] at h₁ h₂ h₃ h₄ h₅ ⊢
      exact ⟨fun v => by simpa using h₁ v, by simpa using h₂, by simpa using h₃,
        by simpa using h₄, by simpa using h₅⟩
    | ambiguous text =>
      simp only [hv, Tally.push] at h₁ h₂ h₃ h₄ h₅ ⊢
      simp only [column, List.map_cons, entry, hv, List.filter_cons] at h₁ h₂ h₃ h₄ h₅ ⊢
      refine ⟨fun v => by simpa using h₁ v, by simpa using h₂, by simpa using h₃,
        by simpa using h₄, h₅.trans ?_⟩
      simp only [List.append_assoc, List.perm_append_left_iff]
      simpa using List.perm_middle.symm

/-! ### What the verdicts mean -/

theorem verdict_accepted (txid : String) {o : Provider × Except String String} :
    cc.verdict txid o.1 o.2 = .accepted ↔ Vouches o := by
  obtain ⟨p, o⟩ := o
  cases o with
  | ok answered =>
    simp only [verdict, Vouches]
    cases p.isEvonode
    · simp
    · simp only [true_and, if_true]
      split <;> simp
  | error m =>
    simp only [verdict, Vouches]
    cases hp : p.isEvonode <;> cases hk : isAlreadyKnown m <;>
      cases classifyBroadcastError m <;> simp [hk]

theorem verdict_rejected (txid : String) {o : Provider × Except String String} :
    (∃ text, cc.verdict txid o.1 o.2 = .rejected text) ↔ Rejects o := by
  obtain ⟨p, o⟩ := o
  cases o with
  | ok answered =>
    simp only [verdict, Rejects]
    cases p.isEvonode
    · simp
    · simp only [true_and, if_true]
      split <;> simp
  | error m =>
    simp only [verdict, Rejects]
    cases hp : p.isEvonode <;> cases hk : isAlreadyKnown m <;>
      cases hc : classifyBroadcastError m <;> simp [hk, hc]

theorem mem_column {txid : String} {vouched : Bool} {c : Column} {text : String}
    {os : List (Provider × Except String String)} :
    text ∈ cc.column txid vouched c os ↔ ∃ o ∈ os, cc.entry txid vouched o = (c, text) := by
  simp only [column, List.mem_map, List.mem_filter, decide_eq_true_eq, Prod.exists]
  constructor
  · rintro ⟨c', text', ⟨⟨p, o, ho, he⟩, rfl⟩, rfl⟩
    exact ⟨p, o, ho, he⟩
  · rintro ⟨p, o, ho, he⟩
    exact ⟨c, text, ⟨⟨p, o, ho, he⟩, rfl⟩, rfl⟩

/-- **Acceptance is vouched.** The tally has an acceptance when, and only when, some configured
relay took the transaction. -/
theorem accepted_ne_nil (txid : String) {os : List (Provider × Except String String)} :
    (cc.tally txid os).accepted ≠ [] ↔ ∃ o ∈ os, Vouches o := by
  obtain ⟨-, -, h, -, -⟩ := cc.pushAll_columns txid os ⟨[], [], [], []⟩
  rw [tally, h, List.nil_append]
  constructor
  · intro hne
    obtain ⟨text, htext⟩ := List.exists_mem_of_ne_nil _ hne
    obtain ⟨o, ho, he⟩ := cc.mem_column.mp htext
    refine ⟨o, ho, (cc.verdict_accepted txid).mp ?_⟩
    unfold entry at he
    split at he <;> simp_all
  · rintro ⟨o, ho, hv⟩
    refine List.ne_nil_of_mem (cc.mem_column.mpr ⟨o, ho, (?_ : _ = (_, cc.name o.1))⟩)
    rw [← cc.verdict_accepted txid] at hv
    simp [entry, hv]

/-- **One entry each.** Every list of the result holds the entries of its column, and each relay
has one entry in one column. -/
theorem result_columns (txid : String) (os : List (Provider × Except String String)) :
    cc.OneEntryEach txid os ((cc.tally txid os).result txid) := by
  obtain ⟨hrej, hacc, hacc', hamb, hamb'⟩ := cc.pushAll_columns txid os ⟨[], [], [], []⟩
  simp only [List.nil_append, List.map_nil] at hrej hacc hacc' hamb hamb'
  by_cases hne : (cc.tally txid os).accepted = []
  · refine ⟨false, by rw [← cc.accepted_ne_nil txid]; simp [hne], ?_⟩
    simp only [Tally.result, hne, ne_eq, not_true, if_false]
    refine ⟨?_, ?_, hamb'⟩
    · rw [← hacc', show (cc.pushAll txid _ os).accepted = [] from hne]
    · exact .of_eq (hrej false)
  · refine ⟨true, by rw [← cc.accepted_ne_nil txid]; simp [hne], ?_⟩
    simp only [Tally.result, ne_eq, hne, not_false_eq_true, if_true]
    exact ⟨hacc, .of_eq (hrej true), .of_eq hamb⟩

/-- With neither an acceptance nor a doubt, every relay that was asked rejected. -/
theorem rejects_of_not_ambiguous {txid : String} {os : List (Provider × Except String String)}
    (hacc : ((cc.tally txid os).result txid).accepted = [])
    (hamb : ((cc.tally txid os).result txid).ambiguous = []) : ∀ o ∈ os, Rejects o := by
  obtain ⟨vouched, -, hacc', -, hamb'⟩ := cc.result_columns txid os
  rw [hacc] at hacc'
  rw [hamb] at hamb'
  -- both other columns are empty, so every outcome is in the third
  have hnone : ∀ c, c ≠ .rejected → ∀ text, text ∉ cc.column txid vouched c os := by
    intro c hc text
    cases c with
    | accepted => rw [List.nil_perm.mp hacc']; exact List.not_mem_nil
    | rejected => exact absurd rfl hc
    | ambiguous => rw [List.nil_perm.mp hamb']; exact List.not_mem_nil
  intro o ho
  have hcol : (cc.entry txid vouched o).1 = .rejected := by
    by_contra hc
    exact hnone _ hc (cc.entry txid vouched o).2 (cc.mem_column.mpr ⟨o, ho, rfl⟩)
  refine (cc.verdict_rejected txid).mp ?_
  unfold entry at hcol
  split at hcol
  · cases hcol
  · split at hcol <;> cases hcol
  · next text h => exact ⟨text, h⟩
  · cases hcol

/-- A doubt is about a relay that did not reject. -/
theorem exists_not_rejects_of_ambiguous {txid : String}
    {os : List (Provider × Except String String)}
    (hamb : ((cc.tally txid os).result txid).ambiguous ≠ []) : ∃ o ∈ os, ¬Rejects o := by
  obtain ⟨vouched, -, -, -, hcolumn⟩ := cc.result_columns txid os
  obtain ⟨text, htext⟩ := List.exists_mem_of_ne_nil _ hamb
  obtain ⟨o, ho, hentry⟩ := cc.mem_column.mp (hcolumn.subset htext)
  refine ⟨o, ho, fun hrejects => ?_⟩
  obtain ⟨reason, hverdict⟩ := (cc.verdict_rejected txid).mpr hrejects
  rw [entry, hverdict] at hentry
  cases hentry

/-- Who vouches does not reject. -/
theorem not_rejects_of_vouches {o : Provider × Except String String} (h : Vouches o) :
    ¬Rejects o := by
  obtain ⟨p, o⟩ := o
  rintro ⟨m, rfl, hunknown, -⟩
  rcases h.2 with ⟨id, hid⟩ | ⟨m', hm, hknown⟩
  · cases hid
  · cases hm
    rw [hunknown] at hknown
    cases hknown

theorem result_accepted_ne_nil {t : Tally} {txid : String} :
    (t.result txid).accepted ≠ [] ↔ t.accepted ≠ [] := by
  unfold Tally.result
  split <;> simp_all

/-! ### Transcripts -/

section Transcripts

variable {cc} {es : List Answered} {rawHex txid : String}

theorem quiet_active : (cc.active : Net σ _).Quiet Samples := by
  unfold active
  split
  · refine Quiet.bind ((quiet_ask _).mpr ⟨_, rfl⟩) fun origins => ?_
    split
    · exact quiet_pure _
    · exact quiet_throw _
  · exact quiet_pure _

theorem quiet_relay (relays : List Provider) (t : Tally) :
    (cc.relay relays rawHex txid t : Net σ _).Quiet (Broadcasts rawHex) :=
  Quiet.bind ((quiet_ask _).mpr (.inr ⟨relays, rfl⟩)) fun _ => quiet_pure _

theorem quiet_broadcast : (cc.broadcast rawHex txid : Net σ _).Quiet (Broadcasts rawHex) := by
  refine (quiet_active.mono fun _ => .inl).bind fun active => ?_
  dsimp only
  split
  · exact quiet_throw _
  · refine (quiet_relay _ _).bind fun first => ?_
    split
    · exact (quiet_relay _ _).bind fun t => quiet_pure _
    · exact (quiet_pure _).bind fun t => quiet_pure _

theorem quiet_knowsTx (providers : List Provider) :
    (knowsTx providers txid : Net σ _).Quiet NoRelay :=
  Quiet.bind ((quiet_ask _).mpr fun _ _ h => by cases h) fun _ => quiet_pure _

theorem quiet_anyKnowsTx : (cc.anyKnowsTx txid : Net σ _).Quiet NoRelay := by
  refine (quiet_active.mono fun _ => Samples.noRelay).bind fun active =>
    (quiet_knowsTx _).bind fun first => ?_
  split
  · exact quiet_pure _
  · exact quiet_knowsTx _

/-- What hands nothing to a relay has no relay's outcome. -/
theorem relayOutcomes_eq_nil (h : ∀ e ∈ es, NoRelay e.1) : relayOutcomes rawHex es = [] := by
  refine List.flatMap_eq_nil_iff.mpr fun e he => ?_
  obtain ⟨q, a⟩ := e
  cases q with
  | relay relays hex => exact absurd rfl (h _ he relays hex)
  | _ => rfl

/-- A broadcast asks nobody whether a transaction is known. -/
theorem not_knows_of_broadcast {r : Except Thrown BroadcastResult} {id : String}
    (h : Transcript (cc.broadcast rawHex txid : Net σ _) es r) : ∀ e ∈ es, ¬Knows id e := by
  rintro e he ⟨providers, settled, rfl, -⟩
  rcases quiet_broadcast.of_mem_transcript h _ he with ⟨n, hn⟩ | ⟨relays, hr⟩
  · cases hn
  · cases hr

/-- Drawing the active providers hands nothing to a relay. -/
theorem active_relayOutcomes (rawHex : String) {r : Except Thrown (List Provider)}
    (h : Transcript (cc.active : Net σ _) es r) : relayOutcomes rawHex es = [] :=
  relayOutcomes_eq_nil fun e he => (quiet_active.of_mem_transcript h e he).noRelay

/-- One round adds the outcomes of its relays to the tally. -/
theorem relay_transcript {relays : List Provider} {t : Tally} {r : Except Thrown Tally}
    (h : Transcript (cc.relay relays rawHex txid t : Net σ _) es r) :
    r = .ok (cc.pushAll txid t (relayOutcomes rawHex es)) := by
  obtain ⟨es₁, r₁, h₁, hrest⟩ := transcript_bind.mp h
  obtain ⟨settled, rfl, rfl⟩ := transcript_ask.mp h₁
  obtain ⟨es₂, rfl, h₂⟩ := hrest
  obtain ⟨rfl, rfl⟩ := transcript_pure.mp h₂
  simp [relayOutcomes, outcomesOf, pushAll, List.foldl_map]

/-- **The result of a broadcast** is the tally of all its outcomes, first round and fallback. When
it throws, no relay was asked. -/
theorem broadcast_transcript {r : Except Thrown BroadcastResult}
    (h : Transcript (cc.broadcast rawHex txid : Net σ _) es r) :
    (∃ e, r = .error e ∧ relayOutcomes rawHex es = []) ∨
      r = .ok ((cc.tally txid (relayOutcomes rawHex es)).result txid) := by
  obtain ⟨es₁, r₁, h₁, hrest⟩ := transcript_bind.mp h
  -- drawing a sample asks no relay
  have hquiet := active_relayOutcomes rawHex h₁
  cases r₁ with
  | error e =>
    obtain ⟨rfl, rfl⟩ := hrest
    exact .inl ⟨e, rfl, hquiet⟩
  | ok active =>
    obtain ⟨es₂, rfl, h₂⟩ := hrest
    dsimp only at h₂
    rw [relayOutcomes_append, hquiet, List.nil_append]
    split at h₂
    · obtain ⟨rfl, rfl⟩ := transcript_throw.mp h₂
      exact .inl ⟨_, rfl, rfl⟩
    · -- two rounds at most, both added to one tally
      obtain ⟨es₃, r₃, h₃, hrest⟩ := transcript_bind.mp h₂
      obtain rfl := relay_transcript h₃
      obtain ⟨es₄, rfl, h₄⟩ := hrest
      refine .inr ?_
      split at h₄
      · obtain ⟨es₅, r₅, h₅, hrest⟩ := transcript_bind.mp h₄
        obtain rfl := relay_transcript h₅
        obtain ⟨es₆, rfl, h₆⟩ := hrest
        obtain ⟨rfl, rfl⟩ := transcript_pure.mp h₆
        simp [relayOutcomes_append, tally, pushAll, List.foldl_append]
      · obtain ⟨rfl, rfl⟩ := transcript_pure.mp h₄
        rw [List.append_nil]
        rfl

/-- The step of the loop that meets `p`, which failed with `message`: it files the relay as
ambiguous and leaves the lists of acceptances as they are. -/
def LeavesOpen (cc : ChainClient) (txid : String) (t : Tally) (p : Provider) (message : String) :
    Prop :=
  cc.pushAll txid t [(p, .error message)] =
    { t with ambiguous := t.ambiguous ++ [s!"{cc.name p}: {message}"] }

/-- A transport failure is left open unless its text reads as an acceptance. -/
theorem leavesOpen_iff {t : Tally} {p : Provider} {message : String}
    (htransport : matchesTransport (toLowerCase message) = true) :
    cc.LeavesOpen txid t p message ↔ isAlreadyKnown message = false := by
  have hkind : classifyBroadcastError message = .ambiguous := if_pos htransport
  rw [LeavesOpen]
  show t.push (cc.name p) (cc.verdict txid p (.error message)) = _ ↔ _
  cases hknown : isAlreadyKnown message with
  | false =>
    have hverdict : cc.verdict txid p (.error message) =
        .ambiguous s!"{cc.name p}: {message}" := by
      simp only [verdict, hknown, hkind, Bool.false_eq_true, if_false]
    rw [hverdict]
    exact iff_of_true rfl rfl
  | true =>
    refine iff_of_false (fun h => ?_) Bool.noConfusion
    -- an acceptance adds nothing to the ambiguous list
    have hsame : (t.push (cc.name p) (cc.verdict txid p (.error message))).ambiguous =
        t.ambiguous := by
      simp only [verdict, hknown, if_true]
      split <;> rfl
    rw [h] at hsame
    exact absurd hsame (by simp)

/-- **When a transport failure is read as one.** The relays are tallied one by one, and one that
failed in transport, which proves nothing about the transaction, is left open if and only if its
text has no wording of an acceptance in it. -/
theorem relay_transport_iff {relays : List Provider} {t : Tally} {r : Except Thrown Tally}
    (h : Transcript (cc.relay relays rawHex txid t : Net σ _) es r) :
    ∃ settled : ℕ → Except String String, es = [⟨.relay relays rawHex, settled⟩] ∧
      r = .ok (cc.pushAll txid t (relays.zipIdx.map fun (p, i) => (p, settled i))) ∧
      ∀ before p message after,
        relays.zipIdx.map (fun (p, i) => (p, settled i)) = before ++ (p, .error message) :: after →
        matchesTransport (toLowerCase message) = true →
          (cc.LeavesOpen txid (cc.pushAll txid t before) p message ↔
            isAlreadyKnown message = false) := by
  have htally := relay_transcript h
  obtain ⟨es₁, r₁, h₁, hrest⟩ := transcript_bind.mp h
  obtain ⟨settled, rfl, rfl⟩ := transcript_ask.mp h₁
  obtain ⟨es₂, rfl, h₂⟩ := hrest
  obtain ⟨rfl, -⟩ := transcript_pure.mp h₂
  refine ⟨settled, rfl, ?_, fun before p message after _ htransport => leavesOpen_iff htransport⟩
  rw [htally]
  simp [relayOutcomes, outcomesOf]

/-- An explorer behind a gateway that is down. -/
theorem relay_transport_iff_gateway :
    let insight := Provider.configured .insight "i"
    let cc : ChainClient := ⟨[(.insight, "i")], [], false, fun _ => none, .insertion⟩
    cc.LeavesOpen "ab" ⟨[], [], [], []⟩ insight "[insight] HTTP 502: bad gateway" := by
  intro insight cc
  obtain ⟨settled, hes, -, hopen⟩ := @relay_transport_iff Unit cc
    [⟨.relay [insight] "00", fun _ => .error "[insight] HTTP 502: bad gateway"⟩] "00" "ab" [insight]
    ⟨[], [], [], []⟩ _ ⟨_, _, rfl, rfl, rfl⟩
  cases hes
  exact (hopen [] insight _ [] rfl (by decide)).mpr (by decide)

/-- The page of a gateway that is down carries a date, and the faucet reads it as an acceptance. -/
theorem relay_accepts_gateway_error :
    let insight := Provider.configured .insight "i"
    let cc : ChainClient := ⟨[(.insight, "i")], [], false, fun _ => none, .insertion⟩
    let message := "[insight] HTTP 502: Bad gateway, 2026-07-27 10:15:00 UTC"
    matchesTransport (toLowerCase message) = true ∧
      Transcript (cc.relay [insight] "00" "ab" ⟨[], [], [], []⟩ : Net Unit _)
        [⟨.relay [insight] "00", fun _ => .error message⟩] (.ok ⟨["insight"], [], [], []⟩) ∧
      ¬cc.LeavesOpen "ab" ⟨[], [], [], []⟩ insight message := by
  intro insight cc message
  have htransport : matchesTransport (toLowerCase message) = true := by decide
  have hknown : isAlreadyKnown message = true := by decide
  refine ⟨htransport, ⟨_, _, rfl, rfl, ?_⟩, fun hopen => ?_⟩
  · have hverdict : cc.verdict "ab" insight (.error message) = .accepted := by
      simp only [verdict, hknown, if_true]
      rfl
    show Except.ok _ = Except.ok (Tally.push _ _ (cc.verdict "ab" insight (.error message)))
    rw [hverdict]
    rfl
  · -- left open it would have to be unknown
    rw [(leavesOpen_iff htransport).mp hopen] at hknown
    cases hknown

/-- A configured provider says yes. -/
theorem any_configured_yes (providers : List Provider) (settled : ℕ → Except String Bool) :
    ((providers.zipIdx.map fun x => (x.1, settled x.2)).any fun x =>
      !x.1.isEvonode && x.2 matches .ok true) = true ↔
        ∃ p i, (p, i) ∈ providers.zipIdx ∧ p.isEvonode = false ∧ settled i = .ok true := by
  simp only [List.any_map, List.any_eq_true, Function.comp_apply, Bool.and_eq_true,
    Bool.not_eq_true', Prod.exists]
  refine exists_congr fun p => exists_congr fun i => and_congr_right fun _ =>
    and_congr_right fun _ => ?_
  cases hs : settled i with
  | error e => simp
  | ok b => cases b <;> simp

/-- A round of lookups says yes exactly on a configured provider's yes. -/
theorem knowsTx_transcript {providers : List Provider} {r : Except Thrown (Option Bool)}
    (h : Transcript (knowsTx providers txid : Net σ _) es r) :
    ∃ known, r = .ok known ∧ (known = some true ↔ ∃ e ∈ es, Knows txid e) := by
  obtain ⟨es₁, r₁, h₁, hrest⟩ := transcript_bind.mp h
  obtain ⟨settled, rfl, rfl⟩ := transcript_ask.mp h₁
  obtain ⟨es₂, rfl, h₂⟩ := hrest
  obtain ⟨rfl, rfl⟩ := transcript_pure.mp h₂
  refine ⟨_, rfl, ?_⟩
  have hany := any_configured_yes providers settled
  constructor
  · intro hyes
    split at hyes
    · next hmatch => exact ⟨_, by simp, providers, settled, rfl, hany.mp hmatch⟩
    · split at hyes <;> cases hyes
  · rintro ⟨e, he, providers', settled', rfl, hknows⟩
    simp only [List.append_nil, List.mem_singleton] at he
    cases he
    exact if_pos (hany.mpr hknows)

/-- **Only a configured provider makes a transaction known**, and always does. -/
theorem anyKnowsTx_transcript {r : Except Thrown (Option Bool)}
    (h : Transcript (cc.anyKnowsTx txid : Net σ _) es r) :
    r = .ok (some true) ↔ ∃ e ∈ es, Knows txid e := by
  obtain ⟨es₁, r₁, h₁, hrest⟩ := transcript_bind.mp h
  have hno₁ : ∀ e ∈ es₁, ¬Knows txid e := by
    rintro e he ⟨providers, settled, rfl, -⟩
    obtain ⟨n, hn⟩ := quiet_active.of_mem_transcript h₁ _ he
    cases hn
  cases r₁ with
  | error e =>
    obtain ⟨rfl, rfl⟩ := hrest
    constructor
    · intro hr
      cases hr
    · rintro ⟨e, he, hk⟩
      exact absurd hk (hno₁ e he)
  | ok active =>
    obtain ⟨es₂, rfl, h₂⟩ := hrest
    obtain ⟨es₃, r₃, h₃, hrest⟩ := transcript_bind.mp h₂
    obtain ⟨known, rfl, hknown⟩ := knowsTx_transcript h₃
    obtain ⟨es₄, rfl, h₄⟩ := hrest
    -- those who know it were asked in the first round or after it
    have hsplit : (∃ e ∈ es₁ ++ (es₃ ++ es₄), Knows txid e) ↔
        known = some true ∨ ∃ e ∈ es₄, Knows txid e := by
      rw [hknown]
      constructor
      · rintro ⟨e, he, hk⟩
        simp only [List.mem_append] at he
        rcases he with he | he | he
        · exact absurd hk (hno₁ e he)
        · exact .inl ⟨e, he, hk⟩
        · exact .inr ⟨e, he, hk⟩
      · rintro (⟨e, he, hk⟩ | ⟨e, he, hk⟩) <;> exact ⟨e, by simp [he], hk⟩
    rw [hsplit]
    split at h₄
    · obtain ⟨rfl, rfl⟩ := transcript_pure.mp h₄
      simp
    · next hnone =>
      obtain ⟨known', rfl, hknown'⟩ := knowsTx_transcript h₄
      rw [← hknown', Except.ok.injEq]
      -- the first round had no answer when there was a second
      refine ⟨.inr, fun hor => hor.resolve_left fun hk => hnone ?_⟩
      simp [hk]

end Transcripts

end ChainClient

end DashFaucet
