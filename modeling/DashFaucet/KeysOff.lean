import DashFaucet.PortalGates
import DashFaucet.Settings
import DashFaucet.Treasury.CodeLimits
import DashFaucet.Treasury.KeyLimits

/-!
# Where keys are off

Keys and codes pay without the public limits, so they exist on testnet only. On mainnet a payout is
public or it is none, in every run, whatever the tables hold and whoever asks; and nobody signs in.

* `Faucet.PublicOnly`, `Faucet.publicOnly_kept`: who is admitted where keys are off.
* `Portal.silent`: what the portal does there.
* `mainnet_public_only`: both, for every configuration that is accepted.
-/

namespace DashFaucet

open Async

namespace Faucet

variable {f : Faucet}

/-- Nobody was admitted but the public, at the public amount. -/
def PublicOnly (f : Faucet) (s : State) : Prop :=
  ∀ entry ∈ s.log, ∀ payer satoshis, entry.2.2 = .admitted payer satoshis →
    payer = .anyone ∧ satoshis = f.cfg.payoutSats

/-- A key or a code is refused, whatever it is. -/
theorem admitPayout_public {cfg : FaucetConfig} (hoff : cfg.keysEnabled = false) {s : State}
    {input : PayoutRequest} {now : ℤ} {payer : Payer} {satoshis : ℕ}
    (h : admitPayout cfg s input now = .ok (payer, satoshis)) :
    payer = .anyone ∧ satoshis = cfg.payoutSats := by
  unfold admitPayout at h
  split at h
  · next hash hhash =>
    -- keys are refused before their limits are looked at, and so are codes below
    have hrefused : ∀ answer,
        authorizeKeyPayout cfg s hash input.requestedSats now ≠ .ok answer := by
      intro answer hok
      unfold authorizeKeyPayout at hok
      split at hok
      · cases hok
      · rw [hoff, if_pos (by rfl)] at hok
        cases hok
    split at h
    · cases h
    · next hok => exact absurd hok (hrefused _)
  · rw [hoff, if_pos (by rfl)] at h
    cases h
  · unfold admitPublic at h
    split at h
    · cases h
    dsimp only at h
    split at h
    · cases h
    split at h
    · cases h
    · cases h
      exact ⟨rfl, rfl⟩

/-- The events of one step: no admission, or one that the checks made. -/
theorem Step.admissions {op : Op} {now : ℤ} {s s' : State} (h : Step f op now s s') :
    ∃ es, s'.trace = s.trace ++ es ∧ ∀ payer satoshis, .admitted payer satoshis ∈ es →
      ∃ input, admitPayout f.cfg s input now = .ok (payer, satoshis) := by
  have hnone : ∀ {es : List Event}, (∀ e ∈ es, e.admission = none) →
      ∀ payer satoshis, .admitted payer satoshis ∈ es →
        ∃ input, admitPayout f.cfg s input now = .ok (payer, satoshis) := by
    intro es hes payer satoshis hmem
    cases hes _ hmem
  have hsettled : ∀ {tx : BuiltTx} {outcome : BroadcastSettlement} {es es' : List Event},
      (∀ e ∈ es ++ es', e.Aside) → ∀ e ∈ es ++ .settled tx outcome :: es', e.admission = none := by
    intro tx outcome es es' haside e he
    rcases List.mem_append.mp he with he | he
    · exact (haside e (List.mem_append_left _ he)).admission
    rcases List.mem_cons.mp he with rfl | he
    · rfl
    · exact (haside e (List.mem_append_right _ he)).admission
  -- only one kind of step admits
  cases h.effect with
  | prune _ heq =>
    subst heq
    exact ⟨[], (List.append_nil _).symm, hnone fun e he => by cases he⟩
  | @admits input payer satoshis _ _ hadm heq =>
    subst heq
    refine ⟨[.admitted payer satoshis], rfl, fun payer' satoshis' hmem => ⟨input, ?_⟩⟩
    cases List.mem_singleton.mp hmem
    exact hadm
  | settle _ _ _ _ htrace haside =>
    exact ⟨_, htrace.trans (List.append_assoc ..), hnone (hsettled haside)⟩
  | reject _ _ _ htrace haside =>
    exact ⟨_, htrace.trans (List.append_assoc ..), hnone (hsettled haside)⟩
  | aside htrace haside => exact ⟨_, htrace, hnone fun e he => (haside e he).1⟩

theorem publicOnly_kept (hoff : f.cfg.keysEnabled = false) : f.Kept f.PublicOnly where
  step op s s' hrun hstep _ hs := by
    obtain ⟨es, htrace, hadmits⟩ := Step.admissions hstep
    intro entry hmem payer satoshis heq
    rw [State.log_append hrun hstep.continues htrace] at hmem
    rcases List.mem_append.mp hmem with hmem | hmem
    · exact hs entry hmem payer satoshis heq
    · obtain ⟨e, he, rfl⟩ := List.mem_map.mp hmem
      -- what is new in the log was admitted now
      obtain ⟨input, hadm⟩ := hadmits payer satoshis ((show e = _ from heq) ▸ he)
      exact admitPayout_public hoff hadm
  answer op q a s hrun _ _ hs := by
    intro entry hmem payer satoshis heq
    rw [State.log_note hrun] at hmem
    rcases List.mem_append.mp hmem with hmem | hmem
    · exact hs entry hmem payer satoshis heq
    · rw [List.mem_singleton.mp hmem] at heq
      cases heq
  call c t s _ _ hs := hs
  enter op t s hrun _ _ _ hs := by
    unfold PublicOnly
    rw [State.log_enter hrun]
    exact hs
  leave op r s hrun _ _ hs := by
    unfold PublicOnly
    rw [State.log_leave hrun]
    exact hs

/-- A charge was admitted. -/
theorem exists_admitted {s : State} {c : Charge} (hc : c ∈ s.charges) :
    ∃ entry ∈ s.log, entry.2.2 = .admitted c.payer c.satoshis := by
  obtain ⟨r, hr, hcharge⟩ := List.mem_filterMap.mp hc
  unfold OpRecord.charge at hcharge
  split at hcharge
  · next input _ =>
    obtain ⟨⟨payer, satoshis⟩, hadm, hcharge⟩ := Option.bind_eq_some_iff.mp hcharge
    obtain ⟨⟨tx, outcome⟩, -, hcharge⟩ := Option.bind_eq_some_iff.mp hcharge
    obtain ⟨accepted, -, hcharge⟩ := Option.bind_eq_some_iff.mp hcharge
    cases hcharge
    obtain ⟨e, he, hadm⟩ := List.exists_of_findSome?_eq_some hadm
    cases e with
    | admitted payer' satoshis' =>
      cases hadm
      exact ⟨_, List.mem_flatMap.mpr ⟨r, hr, List.mem_map_of_mem he⟩, rfl⟩
    | _ => cases hadm
  · cases hcharge

/-- Where keys are off every payout is public, and the tables of keys and codes stay empty. -/
theorem publicOnly_reached (hoff : f.cfg.keysEnabled = false) {c : Actor.Config f.treasury}
    (hc : f.Reached c) :
    (∀ r ∈ c.store.records, ∀ payer satoshis, .admitted payer satoshis ∈ r.trace →
        payer = .anyone ∧ satoshis = f.cfg.payoutSats) ∧
      (∀ r ∈ c.store.records, r.IsLive → .admitted .anyone f.cfg.payoutSats ∈ r.trace) ∧
      (∀ charge ∈ c.store.charges, charge.payer = .anyone ∧ charge.satoshis = f.cfg.payoutSats) ∧
      c.store.ledger.keyPayouts = [] ∧ c.store.ledger.codeRedemptions = [] := by
  have hpublic := ((publicOnly_kept hoff).reached (fun clock entry hentry => by cases hentry) hc).2
  have hadmitted : ∀ r ∈ c.store.records, ∀ payer satoshis, .admitted payer satoshis ∈ r.trace →
      payer = .anyone ∧ satoshis = f.cfg.payoutSats := by
    intro r hr payer satoshis hadm
    exact hpublic _ (List.mem_flatMap.mpr ⟨r, hr, List.mem_map_of_mem hadm⟩) payer satoshis rfl
  have hcharges : ∀ charge ∈ c.store.charges, charge.payer = .anyone ∧
      charge.satoshis = f.cfg.payoutSats := by
    intro charge hcharge
    obtain ⟨entry, hentry, heq⟩ := exists_admitted hcharge
    exact hpublic entry hentry _ _ heq
  refine ⟨hadmitted, ?_, hcharges, ?_, ?_⟩
  · -- what the relays were handed was built by a payout that was admitted
    rintro r hr ⟨⟨input, hop⟩, hex, o, ho, -⟩
    have hregular := hc.counted.regular r hr
    obtain ⟨tx, htx, -⟩ := hregular.relayed input hop hex o ho
    obtain ⟨payer, satoshis, hadm⟩ := hregular.admitted input hop tx htx
    obtain ⟨rfl, rfl⟩ := hadmitted r hr payer satoshis hadm
    exact hadm
  · obtain ⟨-, -, hbooks⟩ := keyBooks_kept.reached (fun clock => ⟨rfl, fun _ hc => (by cases hc),
      fun _ hc => (by cases hc), fun _ hrow => (by cases hrow), fun _ hrow => (by cases hrow)⟩) hc
    rw [hbooks.payouts, List.filterMap_eq_nil_iff]
    intro charge hcharge
    rw [Charge.keyPayout, (hcharges charge hcharge).1]
  · obtain ⟨-, -, hbooks⟩ := codeBooks_kept.reached (fun clock => ⟨rfl, fun _ hr => (by cases hr),
      fun _ hrow => (by cases hrow), List.nodup_nil, fun _ hrow => (by cases hrow)⟩) hc
    rw [hbooks.rows, List.filterMap_eq_nil_iff]
    intro charge hcharge
    rw [Charge.redemption, (hcharges charge hcharge).1]

end Faucet

/-! ### The portal -/

namespace Portal

/-- Nobody can sign in, and keys are off. -/
structure PortalConfig.Off (cfg : PortalConfig) : Prop where
  enabled : cfg.enabled = false
  origin : cfg.auth.origin = ""
  sessionSecret : cfg.auth.sessionSecret = ""
  configured : ∀ provider, cfg.auth.configured provider = false

/-- **Where keys are off the portal reaches no table**: it sends its pages, and that is all. -/
theorem silent {cfg : PortalConfig} (hoff : cfg.Off) (rt : Runtime) (request : Request) (now : ℤ) :
    (handlePortal rt request now (.ok cfg)).Quiet fun q => q = .asset := by
  have hsession : readSession rt cfg request now = none := if_pos hoff.sessionSecret
  -- nothing is configured, so each part ends before it asks
  have hadmin : handleAdmin rt cfg request now = pure (errorJson 404 "Not found" []) :=
    if_pos (.inl hoff.enabled)
  have hme : (handleMe rt cfg request now).Quiet fun q => q = .asset := by
    unfold handleMe
    dsimp only
    rw [hsession]
    split
    · trivial
    · trivial
  have hauth : (handleAuth rt cfg request).Quiet fun q => q = .asset := by
    unfold handleAuth
    split
    · rw [if_neg fun h => h.1 hoff.origin]
      trivial
    split
    · trivial
    · next provider login _ =>
      rw [if_pos (hoff.configured provider)]
      trivial
  unfold handlePortal
  dsimp only
  split
  · trivial
  rw [ofExcept_bind]
  split
  · trivial
  split
  · refine Async.Quiet.bind (Async.Quiet.bind ((Async.quiet_ask _).mpr rfl) fun _ => ?_)
      fun _ => trivial
    exact Async.Quiet.bind (Async.quiet_ofExcept _) fun _ => trivial
  split
  · exact Async.Quiet.bind hauth fun _ => trivial
  split
  · exact Async.Quiet.bind hme fun _ => trivial
  · rw [hadmin]
    trivial

end Portal

/-! ### Mainnet -/

variable {number : String → Option ℕ} {toLowerCase : String → String}

/-- Off testnet there is no login, and no key. -/
theorem Settings.off {cfg : Settings} (h : cfg.Sound) (hlogin : cfg.auth.Sound cfg.network)
    (hmain : cfg.network = .mainnet) : cfg.login.toPortalConfig.Off := by
  have horigin : cfg.auth.origin = "" := by
    by_contra hne
    have htest := (hlogin.origin hne).1
    rw [hmain] at htest
    cases htest
  refine ⟨h.keys.trans (by rw [hmain]; rfl), horigin, ?_, fun provider => ?_⟩
  · by_contra hne
    exact hlogin.secret hne horigin
  · show cfg.auth.configured provider = false
    rw [cfg.auth.configured_eq]
    cases hclient : cfg.auth.client provider with
    | none => rfl
    | some client => exact absurd horigin (hlogin.client provider client hclient).1

/-- **On mainnet nobody is paid past the public limits.** Whatever the environment that was accepted
for mainnet, for the faucet or for the Treasury of the invitations: in every run of that Treasury
each payout that is admitted is public and of the public amount, whatever keys and codes its tables
hold and however it ends; so is each that may be live, and each on the books, and no payout is ever
booked on a key or a code; and the portal reaches no table at all. -/
theorem mainnet_public_only {env : Env} {cfg : Settings} {f : Faucet}
    (hcfg : resolveConfig number toLowerCase env = .ok cfg ∨
      resolveInvitationTreasuryConfig number toLowerCase env = .ok cfg)
    (hmain : cfg.network = .mainnet) (hf : f.cfg = cfg.faucet) {c : Actor.Config f.treasury}
    (hc : f.Reached c) :
    ((∀ r ∈ c.store.records, ∀ payer satoshis, .admitted payer satoshis ∈ r.trace →
        payer = .anyone ∧ satoshis = cfg.faucet.payoutSats) ∧
      (∀ r ∈ c.store.records, r.IsLive → .admitted .anyone cfg.faucet.payoutSats ∈ r.trace) ∧
      (∀ charge ∈ c.store.charges, charge.payer = .anyone ∧
        charge.satoshis = cfg.faucet.payoutSats) ∧
      c.store.ledger.keyPayouts = [] ∧ c.store.ledger.codeRedemptions = []) ∧
    (resolveConfig number toLowerCase env = .ok cfg →
      ∀ (rt : Portal.Runtime) (request : Request) (now : ℤ),
        (Portal.handlePortal rt request now (.ok cfg.login.toPortalConfig)).Quiet
          fun q => q = .asset) := by
  -- either Treasury has a configuration that was checked
  have hsound : cfg.Sound := by
    rcases hcfg with hcfg | hinv
    · exact (resolveConfig_sound hcfg).1
    · obtain ⟨base, hbase, -⟩ := Except.of_bind_ok hinv
      exact (invitationTreasury_sound hbase hinv).1
  have hoff : f.cfg.keysEnabled = false := by rw [hf, hsound.keys, hmain]; rfl
  refine ⟨hf ▸ Faucet.publicOnly_reached hoff hc, fun hcfg rt request now => ?_⟩
  exact Portal.silent (Settings.off hsound (resolveConfig_sound hcfg).2 hmain) rt request now

/-- A mainnet faucet that is asked for a payout with a key, and then for a public one. -/
theorem mainnet_public_only_sample : ∃ (f : Faucet) (c : Actor.Config f.treasury),
    f.cfg = (sampleSettings .mainnet).faucet ∧ f.Reached c ∧ c.store.charges ≠ [] ∧
      c.store.admin.apiKeys.rows ≠ [] ∧ ∀ charge ∈ c.store.charges, charge.payer = .anyone := by
  let f : Faucet := { Faucet.small with cfg := (sampleSettings .mainnet).faucet }
  let inputs : List (Actor.Input f.treasury) :=
    [.call (.createApiKey { label := "ci", tier := .trusted } "hash") 0,
      .begin (.payout { address := "Xalice", pubKeyHash := "alice", ip := "192.0.2.1"
                        apiKeyHash := some "hash" }) 1000,
      .begin (.payout { address := "Xbob", pubKeyHash := "bob", ip := "192.0.2.1" }) 2000] ++
    List.replicate 5 (.resume (Faucet.smallWorld (.ok "txid")))
  have hrun : (f.treasury.exec ⟨0, .initial 0, none⟩ inputs).map
      (fun c => (c.store.charges.length, c.store.admin.apiKeys.rows.length)) = some (1, 1) := by
    decide +kernel
  obtain ⟨c, hc, hcount⟩ := Option.map_eq_some_iff.mp hrun
  obtain ⟨hcharges, hrows⟩ := Prod.mk.inj hcount
  refine ⟨f, c, rfl, ⟨0, inputs, hc⟩, ?_, ?_, fun charge hcharge => ?_⟩
  · exact List.ne_nil_of_length_pos (hcharges ▸ Nat.one_pos)
  · exact List.ne_nil_of_length_pos (hrows ▸ Nat.one_pos)
  · have h := mainnet_public_only (f := f) (.inl (resolveConfig_sample .mainnet)) rfl rfl
      ⟨0, inputs, hc⟩
    exact (h.1.2.2.1 charge hcharge).1

end DashFaucet
