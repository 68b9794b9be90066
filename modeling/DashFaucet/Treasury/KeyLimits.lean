import DashFaucet.Store.Window
import DashFaucet.Treasury.Counted

/-!
# API keys

The key payouts on the books are those of the record that were settled as accepted or in doubt, so
a key's counters and its rolling limit can be read off the record. A settlement that throws once
relays were asked leaves a payout that may be live and is on no book.

* `Faucet.KeyBooks`: the invariant about `key_payouts` and `api_keys`.
* `Faucet.key_limits`: in every window of 24 hours a key is charged at most `per_day` times, and
  at most that many of its payouts may be live, if their settlements could draw relays again.
* `Faucet.key_twice`: where one could not, a key that may pay once pays twice.
-/

namespace DashFaucet

open Async

/-- The row of `key_payouts` that a charge of a key leaves. -/
def Charge.keyPayout (c : Charge) : Option KeyPayout :=
  match c.payer with
  | .apiKey row => some ⟨row.id, c.tx.txid, c.input.address, c.satoshis, c.time⟩
  | _ => none

/-- The payouts of a key. -/
def State.payoutsOf (id : String) (s : State) : List KeyPayout :=
  s.ledger.keyPayouts.filter fun p => p.keyId = id

namespace Faucet

variable {f : Faucet}

/-- What a charge of a key says about the keys. -/
structure KnownKey (s : State) (c : Charge) (row : ApiKeyRow) : Prop where
  hash : c.input.apiKeyHash = some row.hash
  listed : ∃ row' ∈ s.admin.apiKeys.rows, SameKey row row'
  mn : row.tier = .mn → c.satoshis = mnCollateralSats

/-- The books of the keys agree with the record. -/
structure KeyBooks (s : State) : Prop where
  payouts : s.ledger.keyPayouts = s.charges.filterMap Charge.keyPayout
  known : ∀ c ∈ s.charges, ∀ row, c.payer = .apiKey row → KnownKey s c row
  presented : ∀ c ∈ s.charges, c.input.apiKeyHash.isSome → ∃ row, c.payer = .apiKey row
  usage : ∀ row ∈ s.admin.apiKeys.rows, row.payouts = (s.payoutsOf row.id).length ∧
    row.paidSats = ((s.payoutsOf row.id).map KeyPayout.satoshis).sum
  limited : ∀ row ∈ s.admin.apiKeys.rows, ∀ k, row.perDay = some k →
    Window.Limited KeyPayout.createdAt (fun _ => k) dayMs (s.payoutsOf row.id)

/-! ### Rows and charges -/

/-- A key payout is the row of a charge of its key. -/
theorem KeyBooks.exists_charge {s : State} (h : KeyBooks s) {p : KeyPayout}
    (hp : p ∈ s.ledger.keyPayouts) :
    ∃ c ∈ s.charges, ∃ row, c.payer = .apiKey row ∧ p = ⟨row.id, c.tx.txid, c.input.address,
      c.satoshis, c.time⟩ := by
  rw [h.payouts, List.mem_filterMap] at hp
  obtain ⟨c, hc, hp⟩ := hp
  unfold Charge.keyPayout at hp
  split at hp
  · next row hpayer =>
    cases hp
    exact ⟨c, hc, row, hpayer, rfl⟩
  · cases hp

/-- No payout is later than the last operation. -/
theorem KeyBooks.timely {s : State} (h : KeyBooks s) (hs : f.Orderly s) :
    ∀ p ∈ s.ledger.keyPayouts, p.createdAt ≤ s.now := by
  intro p hp
  obtain ⟨c, hc, row, -, rfl⟩ := h.exists_charge hp
  exact hs.timely c hc

/-- A key without payouts has its whole allowance. -/
theorem payoutsOf_eq_nil {s : State} (h : KeyBooks s) {id : String}
    (hid : ∀ row ∈ s.admin.apiKeys.rows, row.id ≠ id) : s.payoutsOf id = [] := by
  refine List.filter_eq_nil_iff.mpr fun p hp => ?_
  obtain ⟨c, hc, row, hpayer, rfl⟩ := h.exists_charge hp
  obtain ⟨row', hrow', hsame⟩ := (h.known c hc row hpayer).listed
  have hne := hid row' hrow'
  rw [hsame.id] at hne
  simpa using hne

/-- The charges made with a key's hash are the payouts of its id. -/
theorem payoutsOf_eq {s : State} (h : KeyBooks s) {row : ApiKeyRow}
    (hrow : row ∈ s.admin.apiKeys.rows) :
    s.payoutsOf row.id =
      (s.charges.filter fun c => c.input.apiKeyHash = some row.hash).filterMap
        Charge.keyPayout := by
  rw [State.payoutsOf, h.payouts, List.filter_filterMap, List.filterMap_filter]
  refine List.filterMap_congr fun c hc => ?_
  cases hpayer : c.payer with
  | apiKey row₀ =>
    obtain ⟨hhash, ⟨row', hrow', hsame⟩, -⟩ := h.known c hc row₀ hpayer
    -- hash and id name the same row of the table
    have hiff : row₀.id = row.id ↔ row₀.hash = row.hash := by
      constructor
      · intro hid
        rw [← hsame.hash, Table.eq_of_alt hrow' hrow (hsame.id.trans hid)]
      · intro heq
        rw [← hsame.id, Table.eq_of_key hrow' hrow (hsame.hash.trans heq)]
    by_cases hid : row₀.id = row.id
    · simp [Charge.keyPayout, hpayer, hhash, hid, hiff.mp hid]
    · simp [Charge.keyPayout, hpayer, hhash, hid, mt hiff.mpr hid]
  | code row₀ => simp [Charge.keyPayout, hpayer]
  | anyone => simp [Charge.keyPayout, hpayer]

/-- Every charge made with the hash of a key is one of its payouts. -/
theorem length_within_charges {s : State} (h : KeyBooks s) (hash : String) (t : ℤ) :
    (Window.within Charge.time dayMs t
      (s.charges.filter fun c => c.input.apiKeyHash = some hash)).length =
    (Window.within KeyPayout.createdAt dayMs t
      ((s.charges.filter fun c => c.input.apiKeyHash = some hash).filterMap
        Charge.keyPayout)).length := by
  have hpresented : ∀ c ∈ s.charges.filter fun c => c.input.apiKeyHash = some hash,
      ∃ row, c.payer = .apiKey row := by
    intro c hc
    obtain ⟨hmem, hhash⟩ := List.mem_filter.mp hc
    refine h.presented c hmem ?_
    rw [of_decide_eq_true hhash]
    rfl
  generalize s.charges.filter (fun c => c.input.apiKeyHash = some hash) = cs at hpresented
  -- every charge with the key has its row in the table
  induction cs with
  | nil => rfl
  | cons c cs ih =>
    have hrest := ih fun c' hc' => hpresented c' (List.mem_cons_of_mem _ hc')
    obtain ⟨row, hpayer⟩ := hpresented c List.mem_cons_self
    rw [List.filterMap_cons]
    simp only [Charge.keyPayout, hpayer, Window.within, List.filter_cons] at hrest ⊢
    split
    · rw [List.length_cons, List.length_cons, hrest]
    · exact hrest

/-! ### The invariant -/

/-- A key payout that is not the key's own leaves its payouts alone. -/
theorem payoutsOf_append (id : String) (ps : List KeyPayout) (p : KeyPayout) :
    (ps ++ [p]).filter (fun q => q.keyId = id) =
      ps.filter (fun q => q.keyId = id) ++ if p.keyId = id then [p] else [] := by
  rw [List.filter_append]
  congr 1
  by_cases hid : p.keyId = id <;> simp [hid]

/-- The bookkeeping of a charge of a key. -/
theorem charge_key {s : State} {c : Charge} {row : ApiKeyRow} (hpayer : c.payer = .apiKey row) :
    s.charge c = s.recordKeyPayout row c.tx c.input.address c.satoshis c.time := by
  obtain ⟨payer, input, tx, satoshis, time, accepted⟩ := c
  cases hpayer
  cases accepted <;> rfl

/-- Other charges leave the keys alone. -/
theorem charge_keyless {s : State} {c : Charge} (hpayer : ∀ row, c.payer ≠ .apiKey row) :
    (s.charge c).ledger.keyPayouts = s.ledger.keyPayouts ∧
      (s.charge c).admin.apiKeys = s.admin.apiKeys := by
  obtain ⟨payer, input, tx, satoshis, time, accepted⟩ := c
  cases payer with
  | apiKey row => exact absurd rfl (hpayer row)
  | code row => cases accepted <;> exact ⟨rfl, rfl⟩
  | anyone => cases accepted <;> exact ⟨rfl, rfl⟩

/-- What a certified key pays with an `mn` key. -/
theorem keyAmount_mn {cfg : FaucetConfig} {row : ApiKeyRow} {requested : Option ℕ} {satoshis : ℕ}
    (h : keyAmount cfg row requested = .ok satoshis) (hmn : row.tier = .mn) :
    satoshis = mnCollateralSats := by
  unfold keyAmount at h
  rw [hmn] at h
  dsimp only at h
  split at h
  · cases h
  · cases h
    rfl

/-- A certified key has room for one more payout. -/
theorem KeyBooks.room {s : State} (h : KeyBooks s) (hs : f.Orderly s) {id : String} {k : ℕ}
    (hroom : (s.keyHits id s.now).length < k) :
    (Window.within KeyPayout.createdAt dayMs s.now (s.payoutsOf id)).length < k := by
  refine lt_of_le_of_lt ?_ hroom
  rw [State.keyHits, List.length_map, Window.within, State.payoutsOf, List.filter_filter]
  simp only [← List.countP_eq_length_filter]
  refine List.countP_mono_left fun p hp hwin => ?_
  have htimely := h.timely hs p hp
  simp only [Bool.and_eq_true, decide_eq_true_eq] at hwin ⊢
  exact ⟨hwin.2, by omega⟩

/-- The books of the keys are the same when the tables are, and no charge of a key came. -/
theorem KeyBooks.of_eq {s s' : State} (h : KeyBooks s) {more : List Charge}
    (hpayouts : s'.ledger.keyPayouts = s.ledger.keyPayouts)
    (hkeys : s'.admin.apiKeys = s.admin.apiKeys) (hcharges : s'.charges = s.charges ++ more)
    (hmore : ∀ c ∈ more, c.input.apiKeyHash = none ∧ ∀ row, c.payer ≠ .apiKey row) :
    KeyBooks s' := by
  have hof : ∀ id, s'.payoutsOf id = s.payoutsOf id := fun id => by
    rw [State.payoutsOf, State.payoutsOf, hpayouts]
  refine ⟨?_, fun c hc row hpayer => ?_, fun c hc hsome => ?_, fun row hrow => ?_,
    fun row hrow k hk => ?_⟩
  · -- the charges that are new are not the key's
    have hnone : more.filterMap Charge.keyPayout = [] := by
      apply List.filterMap_eq_nil_iff.mpr
      intro c hc
      unfold Charge.keyPayout
      split
      · next row hpayer => exact absurd hpayer ((hmore c hc).2 row)
      · rfl
    rw [hpayouts, hcharges, List.filterMap_append, hnone, List.append_nil]
    exact h.payouts
  · rw [hcharges] at hc
    rcases List.mem_append.mp hc with hc | hc
    · obtain ⟨hhash, hlisted, hmn⟩ := h.known c hc row hpayer
      rw [← hkeys] at hlisted
      exact ⟨hhash, hlisted, hmn⟩
    · exact absurd hpayer ((hmore c hc).2 row)
  · rw [hcharges] at hc
    rcases List.mem_append.mp hc with hc | hc
    · exact h.presented c hc hsome
    · rw [(hmore c hc).1] at hsome
      cases hsome
  · rw [hkeys] at hrow
    rw [hof]
    exact h.usage row hrow
  · rw [hkeys] at hrow
    rw [hof]
    exact h.limited row hrow k hk

/-- A payout that no key pays for presented no key. -/
theorem keyless_of_certificate {s : State} {input : PayoutRequest} {payer : Payer} {satoshis : ℕ}
    (hcert : f.Certificate s input payer satoshis) (hpayer : ∀ row, payer ≠ .apiKey row) :
    input.apiKeyHash = none := by
  cases payer with
  | apiKey row => exact absurd rfl (hpayer row)
  | code row => exact hcert.1
  | anyone =>
    have hpublic : input.isPublic = true := hcert.1
    rw [PayoutRequest.isPublic, Bool.and_eq_true] at hpublic
    exact Option.isNone_iff_eq_none.mp hpublic.1

section Charging

variable {s s' : State} {c : Charge} {row₀ : ApiKeyRow}

/-- A key that was charged. -/
def charged (c : Charge) (r : ApiKeyRow) : ApiKeyRow :=
  { r with
    lastUsedAt := some c.time, payouts := r.payouts + 1, paidSats := r.paidSats + c.satoshis }

/-- The one key that changes is that of the payer. -/
theorem mem_apiKeys_charge (hpayer : c.payer = .apiKey row₀) (hbooks : SameBooks (s.charge c) s')
    {row : ApiKeyRow} : row ∈ s'.admin.apiKeys.rows ↔
      ∃ r ∈ s.admin.apiKeys.rows, (if r.hash = row₀.hash then charged c r else r) = row := by
  rw [hbooks.apiKeys, charge_key hpayer]
  simp [State.recordKeyPayout, State.withAdmin, State.withLedger, Table.mem_update, charged]

/-- A key on record is still listed when one is charged. -/
theorem listed_charge (hpayer : c.payer = .apiKey row₀) (hbooks : SameBooks (s.charge c) s')
    {r : ApiKeyRow} (h : ∃ r' ∈ s.admin.apiKeys.rows, SameKey r r') :
    ∃ r' ∈ s'.admin.apiKeys.rows, SameKey r r' := by
  obtain ⟨r', hr', hsame⟩ := h
  refine ⟨_, (mem_apiKeys_charge hpayer hbooks).mpr ⟨r', hr', rfl⟩, ?_⟩
  split
  · exact ⟨hsame.hash, hsame.id, hsame.tier, hsame.perDay⟩
  · exact hsame

/-- The payout is listed under the payer's key, and under no other. -/
theorem payoutsOf_charge (hpayer : c.payer = .apiKey row₀) (hbooks : SameBooks (s.charge c) s')
    (id : String) : s'.payoutsOf id = s.payoutsOf id ++
      if row₀.id = id then [⟨row₀.id, c.tx.txid, c.input.address, c.satoshis, c.time⟩]
      else [] := by
  have hpayouts : s'.ledger.keyPayouts = s.ledger.keyPayouts ++
      [⟨row₀.id, c.tx.txid, c.input.address, c.satoshis, c.time⟩] := by
    rw [hbooks.keyPayouts, charge_key hpayer]
    rfl
  rw [State.payoutsOf, hpayouts, payoutsOf_append]
  rfl

/-- Charging a certified key keeps the books of the keys. -/
theorem KeyBooks.charge (h : KeyBooks s) (hs : f.Orderly s) (hpayer : c.payer = .apiKey row₀)
    (hcert : f.Certificate s c.input (.apiKey row₀) c.satoshis) (htime : c.time = s.now)
    (hbooks : SameBooks (s.charge c) s') (hcharges : s'.charges = s.charges ++ [c]) :
    KeyBooks s' := by
  obtain ⟨hhash, hamount, ⟨row', hrow', hsame⟩, hroom⟩ := hcert
  -- hash and id name the same key
  have hown : ∀ r ∈ s.admin.apiKeys.rows, (r.hash = row₀.hash ↔ row₀.id = r.id) := by
    intro r hr
    constructor
    · intro heq
      rw [← hsame.id, Table.eq_of_key hrow' hr (hsame.hash.trans heq.symm)]
    · intro heq
      rw [← hsame.hash, Table.eq_of_alt hrow' hr (hsame.id.trans heq)]
  refine ⟨?_, fun c' hc' row hp => ?_, fun c' hc' hsome => ?_, fun row hrow => ?_,
    fun row hrow k hk => ?_⟩
  · rw [hbooks.keyPayouts, charge_key hpayer, hcharges, List.filterMap_append, ← h.payouts]
    simp [State.recordKeyPayout, State.withAdmin, State.withLedger, Charge.keyPayout, hpayer]
  · rw [hcharges] at hc'
    rcases List.mem_append.mp hc' with hc' | hc'
    · obtain ⟨hhash', hlisted, hmn⟩ := h.known c' hc' row hp
      exact ⟨hhash', listed_charge hpayer hbooks hlisted, hmn⟩
    · obtain rfl := List.mem_singleton.mp hc'
      obtain rfl : row₀ = row := by
        rw [hpayer] at hp
        cases hp
        rfl
      exact ⟨hhash, listed_charge hpayer hbooks ⟨row', hrow', hsame⟩, keyAmount_mn hamount⟩
  · rw [hcharges] at hc'
    rcases List.mem_append.mp hc' with hc' | hc'
    · exact h.presented c' hc' hsome
    · obtain rfl := List.mem_singleton.mp hc'
      exact ⟨row₀, hpayer⟩
  · obtain ⟨r, hr, rfl⟩ := (mem_apiKeys_charge hpayer hbooks).mp hrow
    obtain ⟨hcount, hsum⟩ := h.usage r hr
    rw [payoutsOf_charge hpayer hbooks]
    by_cases heq : r.hash = row₀.hash
    · simp [heq, (hown r hr).mp heq, hcount, hsum, charged]
    · simp [heq, mt (hown r hr).mpr heq, hcount, hsum]
  · obtain ⟨r, hr, rfl⟩ := (mem_apiKeys_charge hpayer hbooks).mp hrow
    rw [payoutsOf_charge hpayer hbooks]
    by_cases heq : r.hash = row₀.hash
    · simp only [heq, if_true, charged] at hk ⊢
      rw [if_pos ((hown r hr).mp heq)]
      obtain rfl : row' = r := Table.eq_of_key hrow' hr (hsame.hash.trans heq.symm)
      have hlimited := h.limited row' hrow' k hk
      refine hlimited.snoc (fun p hp => ?_) ?_
      · rw [htime]
        exact h.timely hs p (List.mem_of_mem_filter hp)
      · rw [htime, hsame.id]
        exact h.room hs (hroom k (hsame.perDay ▸ hk))
    · simp only [heq, if_false] at hk ⊢
      rw [if_neg (mt (hown r hr).mpr heq), List.append_nil]
      exact h.limited r hr k hk

end Charging

theorem keyBooks_kept : f.KeptByBooks KeyBooks where
  same s s' hbooks hcharges _ h :=
    h.of_eq hbooks.keyPayouts hbooks.apiKeys (hcharges.trans (List.append_nil _).symm)
      fun c hc => absurd hc List.not_mem_nil
  prune s h :=
    h.of_eq rfl rfl (List.append_nil _).symm fun c hc => absurd hc List.not_mem_nil
  charge s s' c hs hcert htime hbooks _ hcharges h := by
    by_cases hkey : ∃ row, c.payer = .apiKey row
    · obtain ⟨row₀, hpayer⟩ := hkey
      rw [hpayer] at hcert
      exact h.charge hs hpayer hcert htime hbooks hcharges
    · have hnone : ∀ row, c.payer ≠ .apiKey row := fun row hp => hkey ⟨row, hp⟩
      obtain ⟨hpayouts, hapi⟩ := charge_keyless (s := s) hnone
      refine h.of_eq (hbooks.keyPayouts.trans hpayouts) (hbooks.apiKeys.trans hapi) hcharges
        fun c' hc' => ?_
      rw [List.mem_singleton.mp hc']
      exact ⟨keyless_of_certificate hcert hnone, hnone⟩
  call c t s h := by
    -- administration pays nothing: keys keep their usage, and a new key has none
    have hadm := Call.administered f.cfg t s.admin c
    refine ⟨h.payouts, fun ch hch row hpayer => ?_, h.presented, fun row hrow => ?_,
      fun row hrow k hk => ?_⟩
    · obtain ⟨hhash, ⟨row', hrow', hsame⟩, hmn⟩ := h.known ch hch row hpayer
      obtain ⟨row'', hrow'', husage⟩ := hadm.keys row' hrow'
      exact ⟨hhash, ⟨row'', hrow'', hsame.trans husage.toSameKey⟩, hmn⟩
    · rcases hadm.newKeys row hrow with ⟨row₀, hrow₀, hsame⟩ | ⟨hpay, hpaid, hfresh⟩
      · rw [hsame.payouts, hsame.paidSats, hsame.id]
        exact h.usage row₀ hrow₀
      · have hnil : (s.call f.cfg c t).payoutsOf row.id = [] :=
          payoutsOf_eq_nil h fun row₀ hrow₀ => (hfresh row₀ hrow₀).2
        rw [hnil, hpay, hpaid]
        exact ⟨rfl, rfl⟩
    · rcases hadm.newKeys row hrow with ⟨row₀, hrow₀, hsame⟩ | ⟨-, -, hfresh⟩
      · rw [hsame.id]
        exact h.limited row₀ hrow₀ k (hsame.perDay ▸ hk)
      · have hnil : (s.call f.cfg c t).payoutsOf row.id = [] :=
          payoutsOf_eq_nil h fun row₀ hrow₀ => (hfresh row₀ hrow₀).2
        rw [hnil]
        exact Window.limited_nil

/-- A payout with a key, begun in the day before an instant. -/
def PaysWith (hash : String) (t : ℤ) (r : OpRecord) : Prop :=
  ∃ input, r.op = .payout input ∧ input.apiKeyHash = some hash ∧ t - dayMs < r.now ∧ r.now ≤ t

/-- **Keys keep to their limits** as long as settlements can draw relays again. In every state a run
reaches, whatever the relays answered and however keys were minted, revoked and rotated in between:
of any payouts with a key in a window of 24 hours that were accepted or left in doubt, and whose
broadcasts could be repeated, there are no more than the key may make a day. Without that condition,
a key is charged no more often than that in every such window; every payout of an `mn` key is one
collateral; and the counters of a key are the number and the total of its payouts. -/
theorem key_limits {c : Actor.Config f.treasury} (hc : f.Reached c) :
    (∀ row ∈ c.store.admin.apiKeys.rows, ∀ k, row.perDay = some k → ∀ t,
      ∀ l : List OpRecord, l.Sublist (c.store.past.map Prod.fst) →
        (∀ r ∈ l, PaysWith row.hash t r ∧ f.chain.CanRepeat (answers r.trace) ∧
          ∃ hex, r.MayBeLive hex) → l.length ≤ k) ∧
    (∀ row ∈ c.store.admin.apiKeys.rows, ∀ k, row.perDay = some k → ∀ t,
      (Window.within Charge.time dayMs t
        (c.store.charges.filter fun ch => ch.input.apiKeyHash = some row.hash)).length ≤ k) ∧
    (∀ p ∈ c.store.ledger.keyPayouts, ∀ row ∈ c.store.admin.apiKeys.rows, row.id = p.keyId →
      row.tier = .mn → p.satoshis = mnCollateralSats) ∧
    ∀ row ∈ c.store.admin.apiKeys.rows,
      row.payouts = (c.store.payoutsOf row.id).length ∧
      row.paidSats = ((c.store.payoutsOf row.id).map KeyPayout.satoshis).sum := by
  obtain ⟨-, -, h⟩ := keyBooks_kept.reached (fun clock => ⟨rfl, fun _ hc => (by cases hc),
    fun _ hc => (by cases hc), fun _ hrow => (by cases hrow), fun _ hrow => (by cases hrow)⟩) hc
  have hcharges : ∀ row ∈ c.store.admin.apiKeys.rows, ∀ k, row.perDay = some k → ∀ t,
      (Window.within Charge.time dayMs t
        (c.store.charges.filter fun ch => ch.input.apiKeyHash = some row.hash)).length ≤ k := by
    intro row hrow k hk t
    rw [length_within_charges h, ← payoutsOf_eq h hrow]
    exact (h.limited row hrow k hk).length_le t
  refine ⟨fun row hrow k hk t l hl hlive => ?_, hcharges, fun p hp row hrow hid hmn => ?_, h.usage⟩
  · -- each of them is charged to the key, at its time
    refine le_trans ?_ (hcharges row hrow k hk t)
    rw [Window.within, List.filter_filter]
    refine hc.counted.length_le hl (fun r hr => ?_) fun r hr ch hch => ?_
    · obtain ⟨⟨input, hop, -⟩, hcan, hhex⟩ := hlive r hr
      exact ⟨hcan, ⟨input, hop⟩, hhex⟩
    · obtain ⟨⟨input, hop, hhash, hafter, hbefore⟩, -⟩ := hlive r hr
      obtain ⟨hop', htime⟩ := OpRecord.charge_eq_some hch
      cases hop.symm.trans hop'
      simp only [Bool.and_eq_true, decide_eq_true_eq]
      rw [← htime]
      exact ⟨⟨hafter, hbefore⟩, hhash⟩
  · obtain ⟨ch, hch, row₀, hpayer, rfl⟩ := h.exists_charge hp
    obtain ⟨-, ⟨row', hrow', hsame⟩, hmn₀⟩ := h.known ch hch row₀ hpayer
    obtain rfl := Table.eq_of_alt hrow' hrow (hsame.id.trans hid.symm)
    exact hmn₀ (hsame.tier ▸ hmn)

/-- A key that may pay once a day and did, its broadcast left in doubt. -/
theorem key_limits_small : ∃ c, small.Reached c ∧
    c.store.admin.apiKeys.rows.map (fun row => (row.perDay, row.payouts)) = [(some 1, 1)] ∧
    ∀ row ∈ c.store.admin.apiKeys.rows, row.payouts = (c.store.payoutsOf row.id).length := by
  have hrun : (smallAfter (.call (.createApiKey { label := "ci", tier := .trusted
                                                  perDay := some (some 1) } "hash") 0 ::
      smallRun (.payout { address := "Xalice", pubKeyHash := "alice", ip := "192.0.2.1"
                          apiKeyHash := some "hash" }) 1000 9 (.error "timeout"))).map
      (fun c => c.store.admin.apiKeys.rows.map fun row => (row.perDay, row.payouts)) =
        some [(some 1, 1)] := by
    decide +kernel
  obtain ⟨c, hc, hrows⟩ := Option.map_eq_some_iff.mp hrun
  have hreached := smallAfter_reached hc
  exact ⟨c, hreached, hrows, fun row hrow => ((key_limits hreached).2.2.2 row hrow).1⟩

/-- A payout with the certified key. -/
def mnRequest : PayoutRequest :=
  { address := "Xalice", pubKeyHash := "alice", ip := "192.0.2.1", apiKeyHash := some "hash" }

/-- **A key beyond its limit.** A key for one collateral a day pays two. The relays are silent and
the settlement of the first throws where it would broadcast again: the key is not charged, and a
second later it pays with another coin. -/
theorem key_twice : ∃ c, sampling.Reached c ∧
    c.store.admin.apiKeys.rows.map (fun row => (row.hash, row.perDay)) = [("hash", some 1)] ∧
    ∃ r r', [r, r'].Sublist (c.store.past.map Prod.fst) ∧ PaysWith "hash" 2000 r ∧
      PaysWith "hash" 2000 r' ∧ r.MayBeLive "a" ∧ r'.MayBeLive "b" := by
  have hrun : (samplingAfter (.call (.createApiKey { label := "ci", tier := .mn
                                                     perDay := some (some 1) } "hash") 0 ::
      (abortedRun (.payout mnRequest) 1000 [collateralCoin "a"] ++
        doubtfulRun (.payout mnRequest) 2000 [collateralCoin "b"]))).map (fun c =>
      (c.store.admin.apiKeys.rows.map (fun row => (row.hash, row.perDay)),
        c.store.past.map fun p => (p.1.op, p.1.now, ["a", "b"].map p.1.unanswered))) =
      some ([("hash", some 1)], [(.payout mnRequest, 1000, [true, false]),
        (.payout mnRequest, 2000, [false, true])]) := by
    decide +kernel
  obtain ⟨c, hc, hsummary⟩ := Option.map_eq_some_iff.mp hrun
  obtain ⟨hkeys, hpast⟩ := Prod.mk.inj hsummary
  obtain ⟨p, p', hl, hp, hp'⟩ := exists_pair_of_map hpast
  simp only [List.map_cons, List.map_nil, Prod.mk.injEq, List.cons.injEq] at hp hp'
  obtain ⟨hop, hnow, hlive, -, -⟩ := hp
  obtain ⟨hop', hnow', -, hlive', -⟩ := hp'
  refine ⟨c, samplingAfter_reached hc, hkeys, p.1, p'.1, ?_, ⟨mnRequest, hop, rfl, ?_, ?_⟩,
    ⟨mnRequest, hop', rfl, ?_, ?_⟩, OpRecord.mayBeLive_of_unanswered hlive,
    OpRecord.mayBeLive_of_unanswered hlive'⟩
  · rw [hl]
    exact List.Sublist.refl _
  · rw [hnow]
    decide
  · rw [hnow]
    decide
  · rw [hnow']
    decide
  · rw [hnow']

end Faucet

end DashFaucet
