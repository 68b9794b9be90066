import DashFaucet.Store.Window
import DashFaucet.Treasury.Admission

/-!
# The public limits

The public path is held to a daily budget, to an hourly limit for every IP, and to one payout for
every address and day. Its books are three tables that only an accepted public payout writes, and
that pruning shortens by age. What they have to agree with are the payouts the faucet reported to
its callers (`State.publicPayouts`).

* `Faucet.PublicBooks`: the invariant about `budget`, `ip_hits` and `claims`.
* `Faucet.Told`: what was charged is what was reported, but for the payout under way.
* `Faucet.daily_budget`: the budget of a day is the total of its payouts, and within the limit.
* `Faucet.ip_limits`: in every window of an hour an IP gets no more payouts than its tiers allow.
-/

namespace DashFaucet

open Async

/-- A payout of the public path. -/
structure PublicPayout where
  input : PayoutRequest
  /-- When it began. -/
  time : ℤ
  satoshis : ℕ

namespace PublicPayout

/-- The hourly limit of the tier it presented. -/
def limit (cfg : FaucetConfig) (p : PublicPayout) : ℕ := cfg.rateLimits (p.input.tier.getD .soft)

/-- The payouts of an IP. -/
def ofIp (ip : String) (ps : List PublicPayout) : List PublicPayout :=
  ps.filter fun p => p.input.ip = ip

/-- When the payouts of an IP in the hour before `t` began. -/
def hourOf (ip : String) (t : ℤ) (ps : List PublicPayout) : List ℤ :=
  ((ofIp ip ps).filter fun p => p.time > t - hourMs).map time

/-- The total of the payouts begun on a day. -/
def satsOn (day : ℤ) (ps : List PublicPayout) : ℕ :=
  ((ps.filter fun p => utcDay p.time = day).map satoshis).sum

theorem satsOn_append (day : ℤ) (ps qs : List PublicPayout) :
    satsOn day (ps ++ qs) = satsOn day ps + satsOn day qs := by
  rw [satsOn, List.filter_append, List.map_append, List.sum_append]
  rfl

theorem satsOn_singleton (day : ℤ) (p : PublicPayout) :
    satsOn day [p] = if day = utcDay p.time then p.satoshis else 0 := by
  by_cases h : day = utcDay p.time
  · simp [satsOn, h]
  · simp [satsOn, h, Ne.symm h]

theorem ofIp_append (ip : String) (ps qs : List PublicPayout) :
    ofIp ip (ps ++ qs) = ofIp ip ps ++ ofIp ip qs := List.filter_append ..

end PublicPayout

/-- The public payout that an operation reported: an `ok` that is neither a replay nor a dry
run. -/
def publicPayout : OpRecord × Except Thrown Reply → Option PublicPayout
  | (⟨.payout input, now, _⟩, .ok (.payout (.ok paid))) =>
    if input.isPublic && !paid.replay && !paid.dryRun then some ⟨input, now, paid.satoshis⟩
    else none
  | _ => none

/-- The public payout that a charge stands for. -/
def Charge.publicPayout (c : Charge) : Option PublicPayout :=
  if c.accepted && c.input.isPublic then some ⟨c.input, c.time, c.satoshis⟩ else none

namespace State

/-- The public payouts reported so far, oldest first. -/
def publicPayouts (s : State) : List PublicPayout := s.past.filterMap DashFaucet.publicPayout

/-- The accepted public payouts so far: those reported, and the one under way. -/
def publicCharges (s : State) : List PublicPayout := s.charges.filterMap Charge.publicPayout

end State

namespace Faucet

variable {f : Faucet}

/-- The books of the public path agree with the payouts `ps`. -/
structure PublicBooks (cfg : FaucetConfig) (now : ℤ) (l : Ledger) (ps : List PublicPayout) :
    Prop where
  budget : ∀ day, utcDay (now - 7 * dayMs) ≤ day → l.spentToday day = PublicPayout.satsOn day ps
  capped : ∀ day, PublicPayout.satsOn day ps ≤ cfg.dailyBudgetSats
  hits : l.ipHits.filter (fun h => h.createdAt > now - hourMs) =
    (ps.filter fun p => p.time > now - hourMs).map fun p => ⟨p.input.ip, p.time⟩
  admitted : ∀ ip, Window.Admitted PublicPayout.time (PublicPayout.limit cfg) hourMs
    (PublicPayout.ofIp ip ps)
  sorted : ps.Pairwise fun p q => p.time ≤ q.time
  timely : ∀ p ∈ ps, p.time ≤ now
  amount : ∀ p ∈ ps, p.satoshis = cfg.payoutSats
  claims : ∀ p ∈ ps, now - 7 * dayMs ≤ p.time → ∃ r ∈ l.claims.rows,
    r.recipient = p.input.address ∧ r.day = utcDay p.time ∧ p.time ≤ r.createdAt

namespace PublicBooks

variable {now now' : ℤ} {l l' : Ledger} {ps : List PublicPayout}

theorem utcDay_mono {t t' : ℤ} (h : t ≤ t') : utcDay t ≤ utcDay t' :=
  Int.ediv_le_ediv (by decide) h

/-- The hits counted at a later instant are among those counted now. -/
theorem hits_later (h : PublicBooks f.cfg now l ps) (hle : now ≤ now') :
    l.ipHits.filter (fun h => h.createdAt > now' - hourMs) =
      (ps.filter fun p => p.time > now' - hourMs).map fun p => ⟨p.input.ip, p.time⟩ := by
  have hhits := congrArg (List.filter fun h : IpHit => h.createdAt > now' - hourMs) h.hits
  rw [List.filter_filter, List.filter_map, List.filter_filter] at hhits
  have hnarrow : ∀ t : ℤ, (decide (t > now' - hourMs) && decide (t > now - hourMs)) =
      decide (t > now' - hourMs) := by
    intro t
    by_cases ht : t > now' - hourMs
    · have ht' : t > now - hourMs := by omega
      simp [ht, ht']
    · simp [ht]
  simpa only [hnarrow, Function.comp_def] using hhits

/-- What is counted for an IP at a later instant are its payouts of the hour before. -/
theorem hits_eq {s : State} (h : PublicBooks f.cfg now s.ledger ps) (hle : now ≤ now')
    (ip : String) : s.hits ip now' = PublicPayout.hourOf ip now' ps := by
  have hhits := congrArg (List.filter fun hit : IpHit => hit.ip = ip) (h.hits_later hle)
  rw [List.filter_filter, List.filter_map, List.filter_filter] at hhits
  have htimes := congrArg (List.map IpHit.createdAt) hhits
  rw [List.map_map] at htimes
  rw [State.hits, PublicPayout.hourOf, PublicPayout.ofIp, List.filter_filter]
  simp only [Bool.decide_and, Function.comp_def] at htimes ⊢
  exact htimes.trans (congrArg (List.map PublicPayout.time)
    (List.filter_congr fun p _ => Bool.and_comm _ _))

/-- The books of the public path keep while they rest and time goes on. -/
theorem rest (h : PublicBooks f.cfg now l ps) (hle : now ≤ now') (hclaims : l'.claims = l.claims)
    (hhits : l'.ipHits = l.ipHits) (hbudget : l'.budget = l.budget) :
    PublicBooks f.cfg now' l' ps := by
  refine ⟨fun day hday => ?_, h.capped, ?_, h.admitted, h.sorted,
    fun p hp => (h.timely p hp).trans hle, h.amount, fun p hp hnew => ?_⟩
  · rw [Ledger.spentToday, hbudget]
    exact h.budget day ((utcDay_mono (by omega)).trans hday)
  · rw [hhits]
    exact h.hits_later hle
  · rw [hclaims]
    exact h.claims p hp (by omega)

/-- Pruning takes nothing that still counts. -/
theorem prune (h : PublicBooks f.cfg now l ps) : PublicBooks f.cfg now (l.prune f.cfg now) ps := by
  refine ⟨fun day hday => ?_, h.capped, ?_, h.admitted, h.sorted, h.timely, h.amount,
    fun p hp hnew => ?_⟩
  · rw [Ledger.spentToday_prune, if_neg (not_lt.mpr hday)]
    exact h.budget day hday
  · rw [← h.hits]
    simp only [Ledger.prune, List.filter_filter]
    refine List.filter_congr fun hit _ => ?_
    -- one comparison prunes, the other counts
    by_cases ht : hit.createdAt > now - hourMs
    · have hkept : ¬hit.createdAt < now - hourMs := by omega
      simp [ht, hkept]
    · simp [ht]
  · obtain ⟨r, hr, hrecipient, hday, htime⟩ := h.claims p hp hnew
    refine ⟨r, Table.mem_deleteWhere.mpr ⟨hr, ?_⟩, hrecipient, hday, htime⟩
    exact decide_eq_false (by omega)

/-- What admission found is room for one more payout. -/
theorem room (h : PublicBooks f.cfg now l ps) {ip : String} {k : ℕ}
    (hroom : (l.ipHits.filter fun h => h.ip = ip ∧ h.createdAt > now - hourMs).length < k) :
    (Window.within PublicPayout.time hourMs now (PublicPayout.ofIp ip ps)).length < k := by
  have hcount : (l.ipHits.filter fun h => h.ip = ip ∧ h.createdAt > now - hourMs).length =
      (Window.within PublicPayout.time hourMs now (PublicPayout.ofIp ip ps)).length := by
    have hhits := congrArg (List.filter fun h : IpHit => h.ip = ip) h.hits
    rw [List.filter_filter, List.filter_map, List.filter_filter] at hhits
    have hlen := congrArg List.length hhits
    rw [List.length_map] at hlen
    simp only [Window.within, PublicPayout.ofIp, List.filter_filter]
    simp only [Bool.decide_and, Function.comp_def] at hlen ⊢
    rw [hlen]
    refine congrArg List.length (List.filter_congr fun p hp => ?_)
    have htime : decide (p.time ≤ now) = true := decide_eq_true (h.timely p hp)
    rw [htime, Bool.and_true, Bool.and_comm]
  exact hcount ▸ hroom

/-- An accepted public payout is booked. -/
theorem pay (h : PublicBooks f.cfg now l ps) {input : PayoutRequest} (txid : String)
    (hlimit : (l.ipHits.filter fun h => h.ip = input.ip ∧ h.createdAt > now - hourMs).length <
      f.cfg.rateLimits (input.tier.getD .soft))
    (hbudget : l.spentToday (utcDay now) + f.cfg.payoutSats ≤ f.cfg.dailyBudgetSats)
    (hclaims : l'.claims = l.claims.insertOrReplace
      ⟨input.address, utcDay now, txid, f.cfg.payoutSats, now⟩)
    (hhits : l'.ipHits = l.ipHits ++ [⟨input.ip, now⟩])
    (hspent : l'.budget = Ledger.addToBudget (utcDay now) f.cfg.payoutSats l.budget) :
    PublicBooks f.cfg now l' (ps ++ [⟨input, now, f.cfg.payoutSats⟩]) := by
  have hlast : utcDay (now - 7 * dayMs) ≤ utcDay now := utcDay_mono (by unfold dayMs; omega)
  refine ⟨fun day hday => ?_, fun day => ?_, ?_, fun ip => ?_, ?_, fun p hp => ?_, fun p hp => ?_,
    fun p hp hnew => ?_⟩
  -- the day's budget row grows by the payout
  · have hadd := Ledger.spentToday_addToBudget l (utcDay now) day f.cfg.payoutSats
    rw [Ledger.spentToday] at hadd ⊢
    rw [hspent, hadd, PublicPayout.satsOn_append, PublicPayout.satsOn_singleton, h.budget day hday]
  -- the day of the payout had room for it
  · rw [PublicPayout.satsOn_append, PublicPayout.satsOn_singleton]
    by_cases hday : day = utcDay now
    · rw [if_pos hday, hday, ← h.budget _ hlast]
      exact hbudget
    · rw [if_neg hday]
      exact h.capped day
  -- the payout's hit is the newest of the window
  · rw [hhits, List.filter_append, List.filter_append, List.map_append, h.hits]
    have hwin : now > now - hourMs := by unfold hourMs; omega
    simp [hwin]
  -- only the payout's own IP gets one more
  · rw [PublicPayout.ofIp_append]
    by_cases hip : input.ip = ip
    · have hown : PublicPayout.ofIp ip [⟨input, now, f.cfg.payoutSats⟩] =
          [⟨input, now, f.cfg.payoutSats⟩] := by simp [PublicPayout.ofIp, hip]
      rw [hown]
      subst hip
      exact (h.admitted _).snoc (h.room hlimit)
    · have hother : PublicPayout.ofIp ip [⟨input, now, f.cfg.payoutSats⟩] = [] := by
        simp [PublicPayout.ofIp, hip]
      rw [hother, List.append_nil]
      exact h.admitted ip
  · rw [List.pairwise_append]
    refine ⟨h.sorted, List.pairwise_singleton .., fun p hp q hq => ?_⟩
    rw [List.mem_singleton.mp hq]
    exact h.timely p hp
  · rcases List.mem_append.mp hp with hp | hp
    · exact h.timely p hp
    · rw [List.mem_singleton.mp hp]
  · rcases List.mem_append.mp hp with hp | hp
    · exact h.amount p hp
    · rw [List.mem_singleton.mp hp]
  · -- the row of the new payout, or one with another key
    rw [hclaims]
    rcases List.mem_append.mp hp with hp | hp
    · obtain ⟨r, hr, hrecipient, hday, htime⟩ := h.claims p hp hnew
      by_cases hkey : (r.recipient, r.day) = (input.address, utcDay now)
      · refine ⟨_, Table.mem_insertOrReplace.mpr (.inr rfl), ?_, ?_, h.timely p hp⟩
        · exact (congrArg Prod.fst hkey).symm.trans hrecipient
        · exact (congrArg Prod.snd hkey).symm.trans hday
      · exact ⟨r, Table.mem_insertOrReplace.mpr (.inl ⟨hr, hkey, hkey⟩), hrecipient, hday, htime⟩
    · rw [List.mem_singleton.mp hp]
      exact ⟨_, Table.mem_insertOrReplace.mpr (.inr rfl), rfl, rfl, le_refl now⟩

end PublicBooks

/-- What the public limits found when they let a payout through. -/
theorem admitPublic_ok {cfg : FaucetConfig} {s : State} {input : PayoutRequest} {now : ℤ}
    {payer : Payer} {satoshis : ℕ} (h : admitPublic cfg s input now = .ok (payer, satoshis)) :
    s.ledger.claims.find? (input.address, utcDay now) = none ∧
      (s.hits input.ip now).length < cfg.rateLimits (input.tier.getD .soft) ∧
      s.ledger.spentToday (utcDay now) + cfg.payoutSats ≤ cfg.dailyBudgetSats ∧
      satoshis = cfg.payoutSats := by
  unfold admitPublic at h
  split at h
  · cases h
  next hnone =>
  dsimp only at h
  split at h
  · cases h
  next hhits =>
  split at h
  · cases h
  next hbudget =>
  cases h
  exact ⟨hnone, not_le.mp hhits, not_lt.mp hbudget, rfl⟩

/-- Only accepted charges of the public path reach its books. -/
theorem charge_private {s : State} {c : Charge} (hnone : c.publicPayout = none)
    (hcert : f.Certificate s c.input c.payer c.satoshis) :
    (s.charge c).ledger.claims = s.ledger.claims ∧
      (s.charge c).ledger.ipHits = s.ledger.ipHits ∧
      (s.charge c).ledger.budget = s.ledger.budget := by
  obtain ⟨payer, input, tx, satoshis, time, accepted⟩ := c
  cases payer with
  | anyone =>
    cases accepted with
    | false => exact ⟨rfl, rfl, rfl⟩
    | true =>
      have hpublic : input.isPublic = true := hcert.1
      simp [Charge.publicPayout, hpublic] at hnone
  | apiKey row | code row => cases accepted <;> exact ⟨rfl, rfl, rfl⟩

/-- A charge on the public books is that of a payout nobody but the public limits admitted. -/
theorem charge_public {s : State} {c : Charge} {p : PublicPayout}
    (hsome : c.publicPayout = some p) (hcert : f.Certificate s c.input c.payer c.satoshis) :
    p = ⟨c.input, c.time, c.satoshis⟩ ∧
      s.charge c = s.recordClaim c.tx c.input.address c.input.ip c.satoshis c.time ∧
      admitPublic f.cfg s c.input s.now = .ok (.anyone, c.satoshis) := by
  obtain ⟨payer, input, tx, satoshis, time, accepted⟩ := c
  simp only [Charge.publicPayout] at hsome
  split at hsome
  · next hboth =>
    cases hsome
    simp only [Bool.and_eq_true] at hboth
    obtain ⟨hacc, hpublic⟩ := hboth
    simp only [PayoutRequest.isPublic, Bool.and_eq_true, Option.isNone_iff_eq_none] at hpublic
    cases payer with
    | anyone =>
      refine ⟨rfl, ?_, hcert.2⟩
      simp only [State.charge, hacc]
      rfl
    -- with a key or a code the payer is another
    | apiKey row =>
      have hkey : input.apiKeyHash = some row.hash := hcert.1
      rw [hpublic.1] at hkey
      cases hkey
    | code row =>
      have hcode : input.codeKey.isSome = true := hcert.2.1
      rw [hpublic.2] at hcode
      cases hcode
  · cases hsome

theorem publicBooks_kept :
    f.KeptByBooks fun s => PublicBooks f.cfg s.now s.ledger s.publicCharges where
  same s s' hbooks hcharges hle h := by
    rw [State.publicCharges, hcharges]
    exact h.rest hle hbooks.claims hbooks.ipHits hbooks.budget
  prune s h := h.prune
  charge s s' c _ hcert htime hbooks hnow hcharges h := by
    rw [State.publicCharges, hcharges, List.filterMap_append, hnow]
    cases hpayout : c.publicPayout with
    | none =>
      -- a key's or a code's charge writes no public row
      obtain ⟨hclaims, hhits, hbudget⟩ := charge_private hpayout hcert
      rw [show [c].filterMap Charge.publicPayout = [] by simp [hpayout], List.append_nil]
      exact h.rest (le_refl _) (hbooks.claims.trans hclaims) (hbooks.ipHits.trans hhits)
        (hbooks.budget.trans hbudget)
    | some p =>
      -- a public charge was admitted under the public limits
      obtain ⟨rfl, hcharge, hadm⟩ := charge_public hpayout hcert
      obtain ⟨-, hlimit, hbudget, hsats⟩ := admitPublic_ok hadm
      rw [show [c].filterMap Charge.publicPayout = [⟨c.input, c.time, c.satoshis⟩] by
        simp [hpayout], htime, hsats]
      rw [State.hits, List.length_map] at hlimit
      rw [htime, hsats] at hcharge
      refine h.pay c.tx.txid hlimit hbudget ?_ ?_ ?_
      · rw [hbooks.claims, hcharge]
        rfl
      · rw [hbooks.ipHits, hcharge]
        rfl
      · rw [hbooks.budget, hcharge]
        rfl
  call c t s h := h

theorem publicBooks_initial (clock : ℤ) :
    PublicBooks f.cfg clock Ledger.empty (State.initial clock).publicCharges :=
  ⟨fun _ _ => rfl, fun _ => Nat.zero_le _, rfl, fun _ => Window.admitted_nil, .nil,
    fun _ hp => (by cases hp), fun _ hp => (by cases hp), fun _ hp => (by cases hp)⟩

/-! ### What was reported -/

/-- The payouts reported are those charged in the operations that ended. -/
def Told (s : State) : Prop :=
  s.publicPayouts =
    ((s.past.map Prod.fst).filterMap OpRecord.charge).filterMap Charge.publicPayout

/-- A payout is reported when it ends as charged. -/
theorem publicPayout_eq {s : State} {input : PayoutRequest} {r : Except Thrown Reply}
    (hs : f.Orderly s) (hamount : ∀ p ∈ s.publicCharges, p.satoshis = f.cfg.payoutSats)
    (hrun : s.running = some (.payout input)) (hends : f.PayoutEnds input r s.trace) :
    publicPayout (⟨.payout input, s.now, s.trace⟩, r) =
      (OpRecord.charge ⟨.payout input, s.now, s.trace⟩).bind Charge.publicPayout := by
  by_cases hpaid : ∃ tx accepted, .settled tx (.ok accepted) ∈ s.trace
  · -- accepted: charged, and the caller was told so
    obtain ⟨tx, accepted, hmem⟩ := hpaid
    obtain ⟨paid, rfl, hreplay, hdry⟩ := hends.paid_of_settled tx accepted hmem
    obtain ⟨payer, satoshis, hcharge⟩ := hs.charge_of_settled hrun hmem rfl
    rw [hcharge, Option.bind_some]
    cases hpublic : input.isPublic with
    | false => simp [publicPayout, Charge.publicPayout, hpublic]
    | true =>
      have hsats := (hends.settled_of_paid paid rfl hreplay hdry).2 hpublic
      have hnew : (⟨input, s.now, satoshis⟩ : PublicPayout) ∈ s.publicCharges := by
        refine List.mem_filterMap.mpr ⟨⟨payer, input, tx, satoshis, s.now, true⟩, ?_, ?_⟩
        · rw [charges_eq, hrun, Option.bind_some, hcharge]
          exact List.mem_append_right _ List.mem_cons_self
        · simp [Charge.publicPayout, hpublic]
      have hown : satoshis = f.cfg.payoutSats := hamount _ hnew
      simp [publicPayout, Charge.publicPayout, hpublic, hreplay, hdry, hsats, hown]
  · -- not accepted: not charged, and not reported
    have hnone : (OpRecord.charge ⟨.payout input, s.now, s.trace⟩).bind Charge.publicPayout =
        none := by
      unfold OpRecord.charge
      dsimp only
      -- without an accepted settlement the trace charges nobody, or not as accepted
      cases hset : s.trace.findSome? Event.settlement with
      | none => cases s.trace.findSome? Event.admission <;> rfl
      | some settled =>
        obtain ⟨tx, outcome⟩ := settled
        cases outcome with
        | failed result uncertain =>
          cases uncertain <;> cases s.trace.findSome? Event.admission <;> rfl
        | ok accepted =>
          obtain ⟨e, he, hsettled⟩ := List.exists_of_findSome?_eq_some hset
          cases e with
          | settled tx' outcome' =>
            cases hsettled
            exact absurd ⟨tx, accepted, he⟩ hpaid
          | _ => cases hsettled
    rw [hnone]
    -- a reply that reports a payment would have been settled as one
    unfold publicPayout
    split
    · next input' now trace paid heq =>
      cases heq
      split
      · next hboth =>
        simp only [Bool.and_eq_true, Bool.not_eq_true'] at hboth
        obtain ⟨⟨tx, -, hmem⟩, -⟩ := hends.settled_of_paid paid rfl hboth.1.2 hboth.2
        exact absurd ⟨tx, paid.accepted, hmem⟩ hpaid
      · rfl
    · rfl

theorem told_kept :
    f.KeptUnder (fun s => f.Orderly s ∧ PublicBooks f.cfg s.now s.ledger s.publicCharges) Told where
  step op s s' hrun hstep _ h := by
    unfold Told State.publicPayouts
    rw [hstep.continues.past]
    exact h
  answer op q a s _ _ _ h := h
  call c t s _ _ h := h
  enter op t s _ _ _ _ h := h
  leave op r s hrun hends hs h := by
    unfold Told State.publicPayouts at h ⊢
    change (s.past ++ [((⟨op, s.now, s.trace⟩ : OpRecord), r)]).filterMap publicPayout =
      (((s.past ++ [((⟨op, s.now, s.trace⟩ : OpRecord), r)]).map Prod.fst).filterMap
        OpRecord.charge).filterMap Charge.publicPayout
    simp only [List.filterMap_append, List.map_append, h, List.append_cancel_left_eq]
    -- what this operation was told is what it is charged
    have hone : publicPayout (⟨op, s.now, s.trace⟩, r) =
        (OpRecord.charge ⟨op, s.now, s.trace⟩).bind Charge.publicPayout := by
      cases op with
      | payout input => exact publicPayout_eq hs.1 hs.2.amount hrun (hends.payout input rfl)
      | _ => rfl
    simp only [List.map_cons, List.map_nil, List.filterMap_cons, List.filterMap_nil, hone]
    cases OpRecord.charge ⟨op, s.now, s.trace⟩ <;> rfl

/-- Between operations, the reported payouts are all. -/
theorem Told.idle {s : State} (h : Told s) (hrun : s.running = none) :
    s.publicCharges = s.publicPayouts := by
  rw [h, State.publicCharges, charges_eq, hrun, Option.bind_none, Option.toList_none,
    List.append_nil]

/-- At any time, the reported payouts come first. -/
theorem Told.isPrefix {s : State} (h : Told s) : s.publicPayouts <+: s.publicCharges := by
  rw [h, State.publicCharges, charges_eq, List.filterMap_append]
  exact List.prefix_append _ _

/-- The books of the public path in a run. -/
theorem publicBooks_reached {c : Actor.Config f.treasury} (hc : f.Reached c) :
    f.Aligned c.phase ∧ PublicBooks f.cfg c.store.now c.store.ledger c.store.publicCharges ∧
      Told c.store := by
  obtain ⟨halign, ⟨-, hbooks⟩, htold⟩ :=
    (KeptUnder.and (KeptUnder.and orderly_kept publicBooks_kept.kept) told_kept).reached
      (fun clock => ⟨⟨orderly_initial clock, publicBooks_initial clock⟩, rfl⟩) hc
  exact ⟨halign, hbooks, htold⟩

/-- Between operations the store knows of none. -/
theorem Aligned.idle_store {c : Actor.Config f.treasury} (h : f.Aligned c.phase)
    (hidle : c.running = none) : c.store.running = none := by
  have hrunning := h.running
  simpa [Actor.Config.phase, hidle] using hrunning

/-- **The daily budget.** In every state a run reaches, the public payouts begun on a day total at
most the daily budget. Between operations, the budget row of every day that pruning left is the
total of the payouts of that day that were reported as made; while an operation runs, it may
already hold the one payout that was accepted and not yet reported. -/
theorem daily_budget {c : Actor.Config f.treasury} (hc : f.Reached c) :
    (∀ day, PublicPayout.satsOn day c.store.publicPayouts ≤
      PublicPayout.satsOn day c.store.publicCharges ∧
      PublicPayout.satsOn day c.store.publicCharges ≤ f.cfg.dailyBudgetSats) ∧
    ∀ day, utcDay (c.store.now - 7 * dayMs) ≤ day →
      c.store.ledger.spentToday day = PublicPayout.satsOn day c.store.publicCharges ∧
      (c.running = none →
        c.store.ledger.spentToday day = PublicPayout.satsOn day c.store.publicPayouts) := by
  obtain ⟨halign, hbooks, htold⟩ := publicBooks_reached hc
  refine ⟨fun day => ⟨?_, hbooks.capped day⟩, fun day hday => ⟨hbooks.budget day hday, ?_⟩⟩
  · obtain ⟨rest, hrest⟩ := htold.isPrefix
    rw [← hrest, PublicPayout.satsOn_append]
    exact Nat.le_add_right _ _
  · intro hidle
    rw [← htold.idle (halign.idle_store hidle)]
    exact hbooks.budget day hday

/-- A public payout of the small deployment. -/
def smallPayout : Op :=
  .payout { address := "Xalice", pubKeyHash := "alice", ip := "192.0.2.1" }

/-- A day with one payout. -/
theorem daily_budget_small : ∃ c, small.Reached c ∧ c.store.publicPayouts.length = 1 ∧
    c.store.ledger.spentToday 0 = PublicPayout.satsOn 0 c.store.publicPayouts := by
  have hrun : (smallAfter (smallRun smallPayout 1000 5 (.ok "sent"))).map
      (fun c => (c.running.isNone, c.store.now, c.store.publicPayouts.length)) =
        some (true, 1000, 1) := by
    decide +kernel
  obtain ⟨c, hc, heq⟩ := Option.map_eq_some_iff.mp hrun
  simp only [Prod.mk.injEq, Option.isNone_iff_eq_none] at heq
  obtain ⟨hidle, hnow, hone⟩ := heq
  have hreached := smallAfter_reached hc
  refine ⟨c, hreached, hone, ((daily_budget hreached).2 0 ?_).2 hidle⟩
  rw [hnow]
  decide

/-- **The hourly limit of an IP.** In every state a run reaches, whatever tiers the requests of an
IP presented: no window of an hour holds more of its public payouts than the largest limit of the
tiers among them, and each was accepted while fewer than its own tier's limit lay in the hour
before it. What the faucet counts for the IP at any later time are its accepted public payouts of
the hour before and nothing else; between operations, these are the ones that were reported. -/
theorem ip_limits {c : Actor.Config f.treasury} (hc : f.Reached c) (ip : String) :
    Window.Limited PublicPayout.time (PublicPayout.limit f.cfg) hourMs
      (PublicPayout.ofIp ip c.store.publicPayouts) ∧
    Window.Admitted PublicPayout.time (PublicPayout.limit f.cfg) hourMs
      (PublicPayout.ofIp ip c.store.publicPayouts) ∧
    ∀ t, c.store.now ≤ t →
      c.store.hits ip t = PublicPayout.hourOf ip t c.store.publicCharges ∧
      (c.running = none → c.store.hits ip t = PublicPayout.hourOf ip t c.store.publicPayouts) := by
  obtain ⟨halign, hbooks, htold⟩ := publicBooks_reached hc
  obtain ⟨rest, hrest⟩ := htold.isPrefix
  have hadmitted := hbooks.admitted ip
  have hsorted := hbooks.sorted
  rw [← hrest] at hadmitted hsorted
  rw [PublicPayout.ofIp_append] at hadmitted
  have hearlier := (List.pairwise_append.mp hsorted).1
  refine ⟨hadmitted.of_append.limited (hearlier.sublist List.filter_sublist),
    hadmitted.of_append, fun t ht => ⟨hbooks.hits_eq ht ip, fun hidle => ?_⟩⟩
  rw [← htold.idle (halign.idle_store hidle)]
  exact hbooks.hits_eq ht ip

/-- An IP with one payout. -/
theorem ip_limits_small : ∃ c, small.Reached c ∧
    (PublicPayout.ofIp "192.0.2.1" c.store.publicPayouts).length = 1 ∧
    Window.Limited PublicPayout.time (PublicPayout.limit small.cfg) hourMs
      (PublicPayout.ofIp "192.0.2.1" c.store.publicPayouts) := by
  have hrun : (smallAfter (smallRun smallPayout 1000 5 (.ok "sent"))).map
      (fun c => (PublicPayout.ofIp "192.0.2.1" c.store.publicPayouts).length) = some 1 := by
    decide +kernel
  obtain ⟨c, hc, hone⟩ := Option.map_eq_some_iff.mp hrun
  have hreached := smallAfter_reached hc
  exact ⟨c, hreached, hone, (ip_limits hreached "192.0.2.1").1⟩

end Faucet

end DashFaucet
