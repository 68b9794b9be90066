import DashFaucet.Treasury.PublicLimits

/-!
# How long to wait

An IP over its hourly limit is told to come back in `retryAfter` seconds, which is when the oldest
of its hits leaves the window. Whether that is long enough depends on how many hits there are: the
count does not look at the tier of a hit, so a request of a weak tier may be refused by more hits
than its limit, and then one hit less is not enough.

* `FewYounger`: the hits that stay in the window are fewer than the limit.
* `filter_windowRetryAfter`: which hits the wait leaves behind.
* `Faucet.retryAfter_honest_iff`: when the wait is long enough, whatever else the faucet does
  meanwhile.
-/

namespace DashFaucet

/-- The age of a hit in whole seconds. -/
def ageSeconds (now hit : ℤ) : ℤ := (now - hit) / 1000

/-- Fewer than `limit` of the hits are younger, in whole seconds, than some other. -/
def FewYounger (limit : ℕ) (now : ℤ) (hits : List ℤ) : Prop :=
  (hits.filter fun hit => hits.any fun hit' => ageSeconds now hit < ageSeconds now hit').length <
    limit

/-- **What the wait leaves behind.** Of the hits of the last hour, those are still counted after the
wait that are younger than the oldest. -/
theorem filter_windowRetryAfter {now : ℤ} {hits : List ℤ} (hwindow : ∀ h ∈ hits, now - hourMs < h) :
    hits.filter (fun hit => hit > now + 1000 * windowRetryAfter hourMs now hits - hourMs) =
      hits.filter fun hit => hits.any fun hit' => ageSeconds now hit < ageSeconds now hit' := by
  refine List.filter_congr fun hit hhit => ?_
  rw [Bool.eq_iff_iff, decide_eq_true_eq, List.any_eq_true]
  simp only [decide_eq_true_eq]
  obtain ⟨o, ho⟩ : ∃ o, hits.min? = some o :=
    Option.isSome_iff_exists.mp (List.isSome_min?_of_mem hhit)
  obtain ⟨homem, hole⟩ := List.min?_eq_some_iff.mp ho
  have hold := hwindow o homem
  have hfirst := hole hit hhit
  rw [windowRetryAfter, oldest, ho, Option.getD_some, retryAfterSeconds]
  simp only [ageSeconds, hourMs] at hold ⊢
  constructor
  · intro hleft
    exact ⟨o, homem, by omega⟩
  · rintro ⟨hit', hhit', hyounger⟩
    have hle := hole hit' hhit'
    omega

namespace Faucet

variable {f : Faucet}

/-- The check of the hourly limit, made at `t`. -/
def PassesIpLimit (cfg : FaucetConfig) (s : State) (input : PayoutRequest) (t : ℤ) : Prop :=
  ((s.prune cfg t).hits input.ip t).length < cfg.rateLimits (input.tier.getD .soft)

/-- What the refusal says. -/
theorem admitPublic_rateLimited {cfg : FaucetConfig} {s : State} {input : PayoutRequest} {now r : ℤ}
    (h : admitPublic cfg s input now = .error (.rateLimited r)) :
    r = windowRetryAfter hourMs now (s.hits input.ip now) := by
  unfold admitPublic at h
  split at h
  · cases h
  dsimp only at h
  split at h
  · cases h
    rfl
  · split at h <;> cases h

/-- What a payout does before it first waits. -/
theorem advance_payout (input : PayoutRequest) (now : ℤ) (s : State) :
    Actor.advance (f.program now (.payout input)) s =
      Actor.advance ((match admitPayout f.cfg (s.prune f.cfg now) input now with
        | .error answer => pure answer
        | .ok (payer, satoshis) => do
          note (.admitted payer satoshis)
          f.payoutFrom input payer satoshis now) >>= fun r => pure (.payout r))
        (s.prune f.cfg now) := rfl

/-- A payout that is not admitted is answered at once. -/
theorem advance_refused {input : PayoutRequest} {now : ℤ} {s : State} {answer : PayoutResult}
    (hadm : admitPayout f.cfg (s.prune f.cfg now) input now = .error answer) :
    Actor.advance (f.program now (.payout input)) s =
      (.ret (.payout answer), s.prune f.cfg now) := by
  rw [advance_payout, hadm]
  rfl

/-- A payout that is admitted waits for the key. -/
theorem advance_admitted {input : PayoutRequest} {now : ℤ} {s : State} {admitted : Payer × ℕ}
    (hadm : admitPayout f.cfg (s.prune f.cfg now) input now = .ok admitted) :
    ∃ k s', Actor.advance (f.program now (.payout input)) s = (.await .loadKey k, s') ∧
      s'.past = s.past := by
  rw [advance_payout, hadm]
  exact ⟨_, _, rfl, rfl⟩

/-- A public payout that is answered with `rate_limited` was refused by the public limits. -/
theorem admitPublic_of_refused {c c₁ : Actor.Config f.treasury} {input : PayoutRequest} {now r : ℤ}
    {trace : List Event} (hpublic : input.isPublic = true)
    (hstep : f.treasury.step c (.begin (.payout input) now) = some c₁)
    (hreply : c₁.store.past =
      c.store.past ++ [(⟨.payout input, now, trace⟩, .ok (.payout (.rateLimited r)))]) :
    c.clock ≤ now ∧ c₁.clock = now ∧
      c₁.store = ((c.store.enter (.payout input) now).prune f.cfg now).leave (.payout input) now
        (.ok (.payout (.rateLimited r))) ∧
      admitPublic f.cfg ((c.store.enter (.payout input) now).prune f.cfg now) input now =
        .error (.rateLimited r) := by
  cases hrun : c.running with
  | some running =>
    -- nothing begins while something runs
    simp only [Actor.step, hrun] at hstep
    cases hstep
  | none =>
    simp only [Actor.step, hrun] at hstep
    split at hstep
    · next hle =>
      have hstep := Option.some.inj hstep
      cases hadm : admitPayout f.cfg ((c.store.enter (.payout input) now).prune f.cfg now) input
        now with
      | error answer =>
        rw [advance_refused hadm] at hstep
        subst hstep
        have hanswer := List.append_cancel_left hreply
        simp only [List.cons.injEq, Prod.mk.injEq, Except.ok.injEq, Reply.payout.injEq] at hanswer
        obtain ⟨⟨-, rfl⟩, -⟩ := hanswer
        refine ⟨hle, rfl, rfl, ?_⟩
        obtain ⟨hkey, hcode⟩ : input.apiKeyHash = none ∧ input.codeKey = none := by
          rw [PayoutRequest.isPublic, Bool.and_eq_true] at hpublic
          exact ⟨Option.isNone_iff_eq_none.mp hpublic.1, Option.isNone_iff_eq_none.mp hpublic.2⟩
        simp only [admitPayout, hkey, hcode] at hadm
        exact hadm
      | ok admitted =>
        -- it waits for the key, so nothing was answered
        obtain ⟨k, s', hadvance, hpast⟩ := advance_admitted hadm
        rw [hadvance] at hstep
        subst hstep
        have hsame : c.store.past = c.store.past ++
            [(⟨.payout input, now, trace⟩, .ok (.payout (.rateLimited r)))] :=
          hpast.symm.trans hreply
        exact absurd hsame (by simp)
    · cases hstep

/-- What the public limits refuse is answered at once. -/
theorem step_refused {c : Actor.Config f.treasury} {input : PayoutRequest} {now : ℤ}
    {answer : PayoutResult} (hidle : c.running = none) (hle : c.clock ≤ now)
    (hpublic : input.apiKeyHash = none ∧ input.codeKey = none)
    (hadm : admitPublic f.cfg ((c.store.enter (.payout input) now).prune f.cfg now) input now =
      .error answer) :
    f.treasury.step c (.begin (.payout input) now) =
      some ⟨now, ((c.store.enter (.payout input) now).prune f.cfg now).leave (.payout input) now
        (.ok (.payout answer)), none⟩ := by
  have hadmit : admitPayout f.cfg ((c.store.enter (.payout input) now).prune f.cfg now) input now =
      .error answer := by
    simp only [admitPayout, hpublic.1, hpublic.2]
    exact hadm
  simp only [Actor.step, hidle, if_pos hle]
  rw [advance_refused hadmit]
  rfl

/-- Pruning takes no hit that is counted. -/
theorem hits_prune (cfg : FaucetConfig) (s : State) (ip : String) (now : ℤ) :
    (s.prune cfg now).hits ip now = s.hits ip now := by
  rw [State.hits, State.hits, State.prune]
  simp only [Ledger.prune, List.filter_filter]
  congr 1
  refine List.filter_congr fun hit _ => ?_
  by_cases ht : hit.createdAt > now - hourMs
  · have hkept : ¬hit.createdAt < now - hourMs := by omega
    simp [ht, hkept]
  · simp [ht]

/-- With no other payout of the IP in between, the hits counted later are those of now that are
still in the window. -/
theorem hits_later_eq {c₁ c₂ : Actor.Config f.treasury} (h₁ : f.Reached c₁) (h₂ : f.Reached c₂)
    {ip : String} (hnone : PublicPayout.ofIp ip c₂.store.publicCharges =
      PublicPayout.ofIp ip c₁.store.publicCharges) {now t : ℤ} (hnow : c₁.clock ≤ now)
    (ht : c₂.clock ≤ t) (hle : now ≤ t) :
    (c₂.store.prune f.cfg t).hits ip t =
      (c₁.store.hits ip now).filter fun hit => hit > t - hourMs := by
  obtain ⟨halign₁, hbooks₁, -⟩ := publicBooks_reached h₁
  obtain ⟨halign₂, hbooks₂, -⟩ := publicBooks_reached h₂
  rw [hits_prune, hbooks₁.hits_eq (halign₁.le_clock.trans hnow) ip,
    hbooks₂.hits_eq (halign₂.le_clock.trans ht) ip, PublicPayout.hourOf, PublicPayout.hourOf, hnone,
    List.filter_map, List.filter_filter]
  congr 1
  -- the window of `t` is within that of `now`, but for hits that came later
  refine List.filter_congr fun p _ => ?_
  by_cases hlate : p.time > t - hourMs
  · have hcounted : p.time > now - hourMs := by omega
    simp [hlate, hcounted]
  · simp [hlate]

/-- **When `Retry-After` is honest.** A public payout was refused by the hourly limit of its IP and
told to wait for `r` seconds. That the same request passes the limit from then on, however the
faucet went on as long as no other payout of that IP was accepted, is true if and only if the hits
younger than the oldest are fewer than the limit of its tier. -/
theorem retryAfter_honest_iff {c c₁ : Actor.Config f.treasury} (hc : f.Reached c)
    {input : PayoutRequest} {now r : ℤ} {trace : List Event} (hpublic : input.isPublic = true)
    (hstep : f.treasury.step c (.begin (.payout input) now) = some c₁)
    (hreply : c₁.store.past =
      c.store.past ++ [(⟨.payout input, now, trace⟩, .ok (.payout (.rateLimited r)))]) :
    (∀ is c₂, f.treasury.exec c₁ is = some c₂ →
      PublicPayout.ofIp input.ip c₂.store.publicCharges =
        PublicPayout.ofIp input.ip c₁.store.publicCharges →
      ∀ t, c₂.clock ≤ t → now + 1000 * r ≤ t → PassesIpLimit f.cfg c₂.store input t) ↔
    FewYounger (f.cfg.rateLimits (input.tier.getD .soft)) now (c.store.hits input.ip now) := by
  obtain ⟨-, hclock, hstore, hadm⟩ := admitPublic_of_refused hpublic hstep hreply
  have hwait := admitPublic_rateLimited hadm
  have hcount : ((c.store.enter (.payout input) now).prune f.cfg now).hits input.ip now =
      c.store.hits input.ip now := hits_prune f.cfg _ input.ip now
  rw [hcount] at hwait
  have hcount₁ : c₁.store.hits input.ip now = c.store.hits input.ip now := by
    rw [hstore]
    exact hcount
  have hwindow : ∀ hit ∈ c.store.hits input.ip now, now - hourMs < hit := by
    intro hit hhit
    obtain ⟨row, hrow, rfl⟩ := List.mem_map.mp hhit
    exact (of_decide_eq_true (List.mem_filter.mp hrow).2).2
  obtain ⟨start, is₀, hexec₀⟩ := hc
  have hreached : ∀ is c₂, f.treasury.exec c₁ is = some c₂ → f.Reached c₂ := by
    intro is c₂ hexec
    refine ⟨start, is₀ ++ .begin (.payout input) now :: is, ?_⟩
    rw [Actor.exec_append, hexec₀, Option.bind_some, Actor.exec_cons, hstep,
      Option.bind_some, hexec]
  have hreached₁ : f.Reached c₁ := hreached [] c₁ rfl
  have hpatience : 1 ≤ r := by
    rw [hwait]
    exact le_max_left _ _
  rw [FewYounger, ← filter_windowRetryAfter hwindow, ← hwait]
  constructor
  · intro hpasses
    -- the earliest time, with nothing in between
    have hsoon := hpasses [] c₁ rfl rfl (now + 1000 * r) (by omega) (le_refl _)
    rw [PassesIpLimit, hits_later_eq hreached₁ hreached₁ rfl hclock.le (by omega) (by omega),
      hcount₁] at hsoon
    exact hsoon
  · intro hfew is c₂ hexec hnone t ht hpatient
    rw [PassesIpLimit, hits_later_eq hreached₁ (hreached is c₂ hexec) hnone hclock.le ht (by omega),
      hcount₁]
    refine lt_of_le_of_lt ?_ hfew
    -- what is in the window at `t` was in it when the wait was over
    refine (List.monotone_filter_right _ fun hit hlate => ?_).length_le
    simp only [decide_eq_true_eq] at hlate ⊢
    omega

/-! ### A deployment with tiers -/

/-- The small deployment with one payout an hour for soft proofs and three for hard ones. -/
def graded : Faucet where
  __ := small
  cfg := { small.cfg with rateLimits := fun | .soft => 1 | .turnstile => 2 | .hard => 3 }

def gradedPayout (name : String) (tier : ProofTier) : PayoutRequest :=
  { address := name, pubKeyHash := name, ip := "192.0.2.1", tier := some tier }

/-- Two payouts to one IP with hard proofs, half an hour apart. -/
def gradedRun : List (Actor.Input graded.treasury) :=
  .begin (.payout (gradedPayout "alice" .hard)) 1000 ::
      List.replicate 5 (.resume (smallWorld (.ok "sent"))) ++
    .begin (.payout (gradedPayout "bob" .hard)) 1801000 ::
      List.replicate 5 (.resume (smallWorld (.ok "sent")))

/-- A request with a weaker proof is refused after that run: what the checks see, and the step. -/
theorem gradedRun_refuses (tier : ProofTier) (htier : tier = .soft ∨ tier = .turnstile) :
    ∃ c c₁, graded.Reached c ∧
      graded.treasury.step c (.begin (.payout (gradedPayout "carol" tier)) 1802000) = some c₁ ∧
      c₁.store.past = c.store.past ++
        [(⟨.payout (gradedPayout "carol" tier), 1802000, []⟩, .ok (.payout (.rateLimited 1799)))] ∧
      c.store.hits "192.0.2.1" 1802000 = [1000, 1801000] ∧
      (c₁.store.prune graded.cfg 3601000).hits "192.0.2.1" 3601000 = [1801000] := by
  have hrun : (graded.treasury.exec ⟨0, .initial 0, none⟩ gradedRun).map
      (fun c => (c.running.isNone, c.clock, c.store.hits "192.0.2.1" 1802000,
        ((c.store.prune graded.cfg 1802000).prune graded.cfg 3601000).hits "192.0.2.1" 3601000,
        [ProofTier.soft, .turnstile].all fun tier =>
          admitPublic graded.cfg (c.store.prune graded.cfg 1802000) (gradedPayout "carol" tier)
            1802000 = .error (.rateLimited 1799))) =
        some (true, 1801000, [1000, 1801000], [1801000], true) := by
    decide +kernel
  obtain ⟨c, hc, heq⟩ := Option.map_eq_some_iff.mp hrun
  simp only [Prod.mk.injEq, Option.isNone_iff_eq_none] at heq
  obtain ⟨hidle, hclock, hhits, hlater, hadm⟩ := heq
  -- two payouts of the IP within the hour are enough for either tier
  have hadm : admitPublic graded.cfg
      ((c.store.enter (.payout (gradedPayout "carol" tier)) 1802000).prune graded.cfg 1802000)
      (gradedPayout "carol" tier) 1802000 = .error (.rateLimited 1799) :=
    of_decide_eq_true (List.all_eq_true.mp hadm tier (by rcases htier with rfl | rfl <;> simp))
  have hstep := step_refused hidle (by omega) ⟨rfl, rfl⟩ hadm
  exact ⟨c, _, ⟨0, gradedRun, hc⟩, hstep, rfl, hhits, hlater⟩

/-- **One hit less is not enough.** A soft request, of which one an hour is allowed, is refused by
two hits and told to wait 1799 seconds; after these the newer of the two still refuses it. -/
theorem retryAfter_too_short : ∃ c c₁, graded.Reached c ∧
    graded.treasury.step c (.begin (.payout (gradedPayout "carol" .soft)) 1802000) = some c₁ ∧
    c₁.store.past = c.store.past ++
      [(⟨.payout (gradedPayout "carol" .soft), 1802000, []⟩, .ok (.payout (.rateLimited 1799)))] ∧
    ¬PassesIpLimit graded.cfg c₁.store (gradedPayout "carol" .soft) (1802000 + 1000 * 1799) := by
  obtain ⟨c, c₁, hc, hstep, hreply, -, hlater⟩ := gradedRun_refuses .soft (.inl rfl)
  refine ⟨c, c₁, hc, hstep, hreply, fun hpasses => ?_⟩
  have hpasses :
      ((c₁.store.prune graded.cfg 3601000).hits "192.0.2.1" 3601000).length < 1 := hpasses
  rw [hlater] at hpasses
  exact absurd hpasses (by decide)

/-- A request with Turnstile, of which two are allowed, is told the same and can rely on it. -/
theorem retryAfter_honest_iff_turnstile : ∃ c c₁, graded.Reached c ∧
    graded.treasury.step c (.begin (.payout (gradedPayout "carol" .turnstile)) 1802000) = some c₁ ∧
    ∀ t, 3601000 ≤ t → PassesIpLimit graded.cfg c₁.store (gradedPayout "carol" .turnstile) t := by
  obtain ⟨c, c₁, hc, hstep, hreply, hhits, -⟩ := gradedRun_refuses .turnstile (.inr rfl)
  refine ⟨c, c₁, hc, hstep, fun t ht => ?_⟩
  have hfew : FewYounger 2 1802000 (c.store.hits "192.0.2.1" 1802000) := by
    rw [hhits]
    show List.length _ < 2
    decide
  have hclock : c₁.clock = 1802000 := (admitPublic_of_refused rfl hstep hreply).2.1
  exact (retryAfter_honest_iff hc rfl hstep hreply).mpr hfew [] c₁ rfl rfl t (by omega) (by omega)

end Faucet

end DashFaucet
