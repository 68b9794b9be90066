import DashFaucet.Chain.Lookups
import DashFaucet.Chain.Redraws

/-!
# Failing over between listings

A listing asks the eligible providers in turn until one of them gives its coins. One of them may be
asked a second time: the first that fails before its deadline has passed.

* `readers`: the providers that are asked, by a test of their lags.
* `FailsOver`: who is asked, how often, and what is made of the answers.
* `listFrom_failsOver`: the loop fails over.
* `listLoop_eq`: so does the loop as the source writes it, over an index that a retry steps back.
* `readers_eq_iff`: when those asked are at most ten blocks behind.
* `getUtxos_exact`: the whole of `getUtxos`.
-/

namespace DashFaucet

open Async

/-- One call of a provider's `getUtxos`. A failure says whether the deadline had passed. -/
structure Listing where
  provider : Provider
  outcome : Except (String × Bool) (List Utxo)

namespace Listing

/-- The call among everything asked. -/
def event (address : String) (call : Listing) : Answered :=
  ⟨.listing call.provider address, call.outcome⟩

theorem event_injective (address : String) : Function.Injective (event address) := by
  rintro ⟨p, outcome⟩ ⟨p', outcome'⟩ h
  cases h
  rfl

def error? (call : Listing) : Option String :=
  match call.outcome with
  | .ok _ => none
  | .error (e, _) => some e

def Fails (call : Listing) : Prop := ∃ e, call.outcome = .error e

/-- The call failed before its deadline. -/
def FailsQuickly (call : Listing) : Prop := ∃ e, call.outcome = .error (e, false)

end Listing

/-- What is made of the answers, `asked` being the providers that were asked at all. -/
structure FirstSuccess (eligible asked : List Provider) (errors : List String)
    (calls : List Listing) (r : Except Thrown (Provider × List Utxo)) : Prop where
  /-- The providers are asked in order and none is skipped. -/
  in_order : asked <+: eligible
  /-- The coins are those of the first call that succeeds. -/
  found : ∀ p utxos, r = .ok (p, utxos) →
    ∃ earlier, calls = earlier ++ [⟨p, .ok utxos⟩] ∧ ∀ call ∈ earlier, call.Fails
  /-- There are none only when everybody was asked and failed. -/
  failed : ∀ e, r = .error e → asked = eligible ∧ (∀ call ∈ calls, call.Fails) ∧
    e = .allProvidersFailed "getUtxos" (errors ++ calls.filterMap Listing.error?)

/-- **Failing over**: each provider is asked once, and the first that fails quickly once more. -/
structure FailsOver (eligible asked : List Provider) (errors : List String) (calls : List Listing)
    (r : Except Thrown (Provider × List Utxo)) : Prop
    extends FirstSuccess eligible asked errors calls r where
  turns : calls.map Listing.provider = asked ∧ (∀ call ∈ calls, ¬call.FailsQuickly) ∨
    ∃ before first again after, calls = before ++ first :: again :: after ∧
      (∀ call ∈ before, ¬call.FailsQuickly) ∧ first.FailsQuickly ∧
      again.provider = first.provider ∧ (before ++ again :: after).map Listing.provider = asked

section

variable {eligible asked : List Provider} {errors : List String} {calls : List Listing}
  {r : Except Thrown (Provider × List Utxo)}

/-- At most one call more than there are eligible providers. -/
theorem FailsOver.length_le (h : FailsOver eligible asked errors calls r) :
    calls.length ≤ eligible.length + 1 := by
  have hasked : asked.length ≤ eligible.length := h.in_order.length_le
  obtain ⟨rfl, -⟩ | ⟨before, first, again, after, rfl, -, -, -, rfl⟩ := h.turns
  · rw [List.length_map] at hasked
    omega
  · simp only [List.length_map, List.length_append, List.length_cons] at hasked ⊢
    omega

namespace FirstSuccess

theorem nil (errors : List String) :
    FirstSuccess [] [] errors [] (.error (.allProvidersFailed "getUtxos" errors)) where
  in_order := List.nil_prefix
  found _ _ hr := by cases hr
  failed e hr := by
    cases hr
    exact ⟨rfl, List.forall_mem_nil _, by rw [List.filterMap_nil, List.append_nil]⟩

/-- A call that succeeds is the last. -/
theorem success (p : Provider) (rest : List Provider) (errors : List String) (utxos : List Utxo) :
    FirstSuccess (p :: rest) [p] errors [⟨p, .ok utxos⟩] (.ok (p, utxos)) where
  in_order := ⟨rest, rfl⟩
  found _ _ hr := by
    cases hr
    exact ⟨[], rfl, List.forall_mem_nil _⟩
  failed _ hr := by cases hr

/-- A failed call goes in front of the calls that follow it. -/
theorem fail {eligible' asked' : List Provider} (p : Provider) (e : String) (aborted : Bool)
    (h : FirstSuccess eligible asked (errors ++ [e]) calls r) (horder : asked' <+: eligible')
    (hall : asked = eligible → asked' = eligible') :
    FirstSuccess eligible' asked' errors (⟨p, .error (e, aborted)⟩ :: calls) r where
  in_order := horder
  found q utxos hr := by
    obtain ⟨earlier, rfl, hfails⟩ := h.found q utxos hr
    refine ⟨⟨p, .error (e, aborted)⟩ :: earlier, rfl, ?_⟩
    exact List.forall_mem_cons.mpr ⟨⟨_, rfl⟩, hfails⟩
  failed thrown hr := by
    obtain ⟨hasked, hfails, rfl⟩ := h.failed thrown hr
    refine ⟨hall hasked, List.forall_mem_cons.mpr ⟨⟨_, rfl⟩, hfails⟩, ?_⟩
    rw [List.append_assoc]
    rfl

/-- Where there is somebody to ask, the first call is of the first in line. -/
theorem exists_first {p : Provider} {rest : List Provider}
    (h : FirstSuccess (p :: rest) (calls.map Listing.provider) errors calls r) :
    ∃ first after, calls = first :: after ∧ first.provider = p := by
  cases calls with
  | nil =>
    -- without a call there is neither a success nor a reason to give up
    cases r with
    | ok coins =>
      obtain ⟨earlier, hcalls, -⟩ := h.found coins.1 coins.2 rfl
      exact absurd hcalls (by simp)
    | error e =>
      obtain ⟨hasked, -⟩ := h.failed e rfl
      cases hasked
  | cons first after =>
    obtain ⟨others, hothers⟩ := h.in_order
    exact ⟨first, after, rfl, (List.cons.inj hothers).1⟩

end FirstSuccess

end

namespace ChainClient

variable {σ : Type} {cc : ChainClient} {address : String} {es : List Answered}

/-! ### The loop -/

/-- **The retry** is the loop over the same providers with the retry used up. -/
theorem listFrom_false_cons (p : Provider) (ps : List Provider) (errors : List String) :
    (listFrom address false (p :: ps) errors : Net σ _) =
      .await (.listing p address) fun first =>
        match first with
        | .ok utxos => .ret (p, utxos)
        | .error (e, false) => listFrom address true (p :: ps) (errors ++ [e])
        | .error (e, true) => listFrom address false ps (errors ++ [e]) := by
  refine congrArg (Async.await _) (funext fun first => ?_)
  rcases first with ⟨e, _ | _⟩ | utxos
  · -- the two errors of a provider are filed one by one here and together there
    refine congrArg (Async.await _) (funext fun second => ?_)
    rcases second with ⟨e', aborted⟩ | utxos
    · show listFrom address true ps (errors ++ [e, e']) =
        listFrom address true ps (errors ++ [e] ++ [e'])
      rw [List.append_assoc]
      rfl
    · rfl
  · rfl
  · rfl

/-- After the retry every provider is asked once. -/
theorem listFrom_retried {ps : List Provider} {errors : List String}
    {r : Except Thrown (Provider × List Utxo)}
    (h : Transcript (listFrom address true ps errors : Net σ _) es r) :
    ∃ calls, es = calls.map (Listing.event address) ∧
      FirstSuccess ps (calls.map Listing.provider) errors calls r := by
  -- one call for each provider from here on
  induction ps generalizing errors es with
  | nil =>
    obtain ⟨rfl, rfl⟩ := transcript_throw.mp h
    exact ⟨[], rfl, .nil errors⟩
  | cons p ps ih =>
    obtain ⟨es₁, r₁, h₁, hrest⟩ := transcript_bind.mp h
    obtain ⟨first, rfl, rfl⟩ := transcript_ask.mp h₁
    obtain ⟨es₂, rfl, h₂⟩ := hrest
    rcases first with ⟨e, aborted⟩ | utxos
    · obtain ⟨calls, rfl, hcalls⟩ := ih h₂
      refine ⟨⟨p, .error (e, aborted)⟩ :: calls, rfl, ?_⟩
      refine hcalls.fail p e aborted ((List.prefix_cons_inj p).mpr hcalls.in_order) fun hasked => ?_
      rw [List.map_cons, hasked]
    · obtain ⟨rfl, rfl⟩ := transcript_pure.mp h₂
      exact ⟨[⟨p, .ok utxos⟩], rfl, .success p ps errors utxos⟩

/-- **The loop fails over.** -/
theorem listFrom_failsOver {ps : List Provider} {errors : List String}
    {r : Except Thrown (Provider × List Utxo)}
    (h : Transcript (listFrom address false ps errors : Net σ _) es r) :
    ∃ asked calls, es = calls.map (Listing.event address) ∧ FailsOver ps asked errors calls r := by
  induction ps generalizing errors es with
  | nil =>
    obtain ⟨rfl, rfl⟩ := transcript_throw.mp h
    exact ⟨[], [], rfl, .nil errors, .inl ⟨rfl, List.forall_mem_nil _⟩⟩
  | cons p ps ih =>
    rw [listFrom_false_cons] at h
    obtain ⟨first, es₂, rfl, h₂⟩ := h
    rcases first with ⟨e, aborted⟩ | utxos
    · cases aborted with
      | false =>
        -- the one retry: the calls after it begin with the same provider
        obtain ⟨calls, rfl, hcalls⟩ := listFrom_retried h₂
        obtain ⟨again, after, rfl, hagain⟩ := hcalls.exists_first
        refine ⟨(again :: after).map Listing.provider,
          ⟨p, .error (e, false)⟩ :: again :: after, rfl,
          hcalls.fail p e false hcalls.in_order id, .inr ?_⟩
        exact ⟨[], ⟨p, .error (e, false)⟩, again, after, rfl, List.forall_mem_nil _,
          ⟨e, rfl⟩, hagain, rfl⟩
      | true =>
        -- a timeout uses up no retry, so a later provider may have it
        obtain ⟨asked, calls, rfl, hcalls⟩ := ih h₂
        refine ⟨p :: asked, ⟨p, .error (e, true)⟩ :: calls, rfl, hcalls.fail p e true
          ((List.prefix_cons_inj p).mpr hcalls.in_order) fun hasked => by rw [hasked], ?_⟩
        have hslow : ¬(⟨p, .error (e, true)⟩ : Listing).FailsQuickly := by
          rintro ⟨_, he⟩
          cases he
        obtain ⟨rfl, hnone⟩ | ⟨before, first, again, after, rfl, hbefore, hquick, hagain, rfl⟩ :=
          hcalls.turns
        · exact .inl ⟨rfl, List.forall_mem_cons.mpr ⟨hslow, hnone⟩⟩
        · exact .inr ⟨⟨p, .error (e, true)⟩ :: before, first, again, after, rfl,
            List.forall_mem_cons.mpr ⟨hslow, hbefore⟩, hquick, hagain, rfl⟩
    · obtain ⟨rfl, rfl⟩ := transcript_pure.mp h₂
      refine ⟨[p], [⟨p, .ok utxos⟩], rfl, .success p ps errors utxos, .inl ⟨rfl, ?_⟩⟩
      intro call hcall
      rw [List.mem_singleton.mp hcall]
      rintro ⟨e, he⟩
      cases he

/-! ### The loop of the source -/

/-- The loop of `getUtxos` as it is written, over an index. A retry steps the index back, so that
the next round finds it where it was. `none` is what is left when `fuel` runs out. -/
def listLoop (address : String) (eligible : List Provider) :
    ℕ → ℕ → Bool → List String → Net σ (Option (Provider × List Utxo))
  | 0, _, _, _ => .ret none
  | fuel + 1, i, retried, errors =>
    match eligible[i]? with
    | none => .throw (.allProvidersFailed "getUtxos" errors)
    | some p =>
      .await (.listing p address) fun outcome =>
        match outcome with
        | .ok utxos => .ret (some (p, utxos))
        | .error (e, aborted) =>
          if !retried && !aborted then listLoop address eligible fuel i true (errors ++ [e])
          else listLoop address eligible fuel (i + 1) retried (errors ++ [e])

/-- **The index loop ends**, one round after the calls it can make at most, and does what the loop
over the providers that are left does. -/
theorem listLoop_eq {eligible : List Provider} {fuel i : ℕ} {retried : Bool} {errors : List String}
    (hfuel : eligible.length - i + (if retried then 0 else 1) < fuel) :
    (listLoop address eligible fuel i retried errors : Net σ _) =
      listFrom address retried (eligible.drop i) errors >>= fun found => pure (some found) := by
  induction fuel generalizing i retried errors with
  | zero => exact absurd hfuel (Nat.not_lt_zero _)
  | succ fuel ih =>
    rw [listLoop]
    cases hp : eligible[i]? with
    | none =>
      rw [List.drop_eq_nil_of_le (List.getElem?_eq_none_iff.mp hp), listFrom]
      rfl
    | some p =>
      obtain ⟨hi, hget⟩ := List.getElem?_eq_some_iff.mp hp
      have hdrop : eligible.drop i = p :: eligible.drop (i + 1) := by
        rw [List.drop_eq_getElem_cons hi, hget]
      cases retried with
      | true =>
        -- from here on every round moves the index
        rw [hdrop]
        refine congrArg (Async.await _) (funext fun outcome => ?_)
        rcases outcome with ⟨e, aborted⟩ | utxos
        · exact ih (by simp only [if_true] at hfuel ⊢; omega)
        · rfl
      | false =>
        rw [hdrop, listFrom_false_cons]
        refine congrArg (Async.await _) (funext fun outcome => ?_)
        rcases outcome with ⟨e, _ | _⟩ | utxos
        · -- the index has not moved, but the retry is gone
          have hsame := @ih i true (errors ++ [e])
            (by simp only [if_true, Bool.false_eq_true, if_false] at hfuel ⊢; omega)
          rw [hdrop] at hsame
          exact hsame
        · exact ih (by simp only [Bool.false_eq_true, if_false] at hfuel ⊢; omega)
        · rfl

/-! ### The whole -/

/-- A provider that can list coins and answered the survey, and whose lag passes a test. -/
def reads (test : JsNumber → Bool) (tip : JsNumber) (p : Provider) (status : ProviderStatus) :
    Bool :=
  p.canReadUtxos && status.ok && status.height.any fun h => test (tip - h)

/-- The test of `getUtxos`: not beyond the allowance. -/
def notBeyond (lag : JsNumber) : Bool := !decide (lag > maxLagBlocks)

/-- Ten blocks at most. -/
def within (lag : JsNumber) : Bool := decide (lag ≤ maxLagBlocks)

/-- The providers of a survey whose lag passes a test. -/
def readers (test : JsNumber → Bool) (tip : JsNumber) (providers : List Provider)
    (statuses : List ProviderStatus) : List Provider :=
  ((providers.zip statuses).filter fun (p, status) => reads test tip p status).map Prod.fst

/-- The lag of every provider that might be asked is a number of blocks. -/
def Comparable (tip : JsNumber) (providers : List Provider) (statuses : List ProviderStatus) :
    Prop :=
  ∀ entry ∈ providers.zip statuses, entry.1.canReadUtxos = true → entry.2.ok = true →
    ∀ h, entry.2.height = some h → tip - h ≠ .nan

theorem ineligible_isNone (tip : JsNumber) (p : Provider) (status : ProviderStatus) :
    (p.canReadUtxos && (cc.ineligible tip p status).isNone) = reads notBeyond tip p status := by
  rw [reads, Bool.and_assoc]
  congr 1
  unfold ineligible
  obtain ⟨name, ok, height, error⟩ := status
  cases ok with
  | false => rfl
  | true =>
    cases height with
    | none => rfl
    | some h =>
      show (if tip - h > maxLagBlocks then some _ else none).isNone = notBeyond (tip - h)
      by_cases hlag : tip - h > maxLagBlocks
      · rw [if_pos hlag, notBeyond, decide_eq_true hlag]
        rfl
      · rw [if_neg hlag, notBeyond, decide_eq_false hlag]
        rfl

theorem notBeyond_of_within {lag : JsNumber} (h : within lag = true) : notBeyond lag = true := by
  rw [notBeyond, decide_eq_false (JsNumber.not_lt_of_le (of_decide_eq_true h))]
  rfl

/-- The two tests agree on numbers, and only on numbers. -/
theorem within_iff_ne_nan {lag : JsNumber} (h : notBeyond lag = true) :
    within lag = true ↔ lag ≠ .nan := by
  rw [within, decide_eq_true_eq]
  rw [notBeyond, Bool.not_eq_true', decide_eq_false_iff_not] at h
  exact ⟨fun hle => (JsNumber.ne_nan_of_le hle).1,
    fun hnum => JsNumber.le_of_not_lt (by decide) hnum h⟩

/-- Those at most ten blocks behind are among those that are asked. -/
theorem readers_within_eq (tip : JsNumber) (providers : List Provider)
    (statuses : List ProviderStatus) : readers within tip providers statuses =
      (((providers.zip statuses).filter fun entry => reads notBeyond tip entry.1 entry.2).filter
        fun entry => reads within tip entry.1 entry.2).map Prod.fst := by
  rw [readers, List.filter_filter]
  congr 1
  refine List.filter_congr fun entry _ => (Bool.and_eq_left_iff_imp.mpr fun h => ?_).symm
  simp only [reads, Bool.and_eq_true, Option.any_eq_true] at h ⊢
  obtain ⟨hreads, height, hheight, hwithin⟩ := h
  exact ⟨hreads, height, hheight, notBeyond_of_within hwithin⟩

/-- **Who is asked** is at most ten blocks behind exactly where no lag is NaN. -/
theorem readers_eq_iff {tip : JsNumber} {providers : List Provider}
    {statuses : List ProviderStatus} :
    readers notBeyond tip providers statuses = readers within tip providers statuses ↔
      Comparable tip providers statuses := by
  have hall : readers notBeyond tip providers statuses = readers within tip providers statuses ↔
      ∀ entry ∈ (providers.zip statuses).filter fun entry => reads notBeyond tip entry.1 entry.2,
        reads within tip entry.1 entry.2 = true := by
    rw [readers_within_eq]
    constructor
    · -- nobody is lost to the second test
      intro heq
      have hlength := congrArg List.length heq
      rw [readers, List.length_map, List.length_map] at hlength
      exact List.length_filter_eq_length_iff.mp hlength.symm
    · intro hall
      rw [List.filter_eq_self.mpr hall]
      rfl
  rw [hall]
  simp only [List.mem_filter, reads, Bool.and_eq_true, Option.any_eq_true]
  constructor
  · -- only a lag of NaN passes one test and fails the other
    intro h entry hentry hread hok height hheight
    by_contra hnan
    have hnot : notBeyond (tip - height) = true := by rw [hnan]; rfl
    obtain ⟨-, height', hheight', hwithin⟩ :=
      h entry ⟨hentry, ⟨hread, hok⟩, height, hheight, hnot⟩
    cases hheight.symm.trans hheight'
    exact (within_iff_ne_nan hnot).mp hwithin hnan
  · rintro h entry ⟨hentry, ⟨hread, hok⟩, height, hheight, hnot⟩
    exact ⟨⟨hread, hok⟩, height, hheight,
      (within_iff_ne_nan hnot).mpr (h entry hentry hread hok height hheight)⟩

theorem active_ok {ps : List Provider} (h : Transcript (cc.active : Net σ _) es (.ok ps)) :
    ∃ origins : List String, ps = cc.primary ++ origins.map Provider.evonode := by
  obtain ⟨origins, -, ⟨-, hps⟩ | ⟨-, hps⟩⟩ := active_draws h
  · cases hps
    exact ⟨origins, rfl⟩
  · cases hps

theorem heights_ok {ps : List Provider} {statuses : List ProviderStatus}
    (h : Transcript (cc.heights ps : Net σ _) es (.ok statuses)) : statuses.length = ps.length := by
  obtain ⟨es₁, r₁, h₁, hrest⟩ := transcript_bind.mp h
  obtain ⟨answers, rfl, rfl⟩ := transcript_ask.mp h₁
  obtain ⟨es₂, rfl, h₂⟩ := hrest
  obtain ⟨-, hstatuses⟩ := transcript_pure.mp h₂
  cases hstatuses
  rw [List.length_map, List.length_zipIdx]

/-- Those asked for their height: the primaries, evonodes, and the fallbacks if need be. -/
theorem surveyWith_ok {providers : List Provider} {statuses : List ProviderStatus}
    (h : Transcript (cc.surveyWith : Net σ _) es (.ok (providers, statuses))) :
    statuses.length = providers.length ∧ ∃ origins : List String, ∃ more, more <+: cc.fallback ∧
      providers = cc.primary ++ origins.map Provider.evonode ++ more := by
  obtain ⟨es₁, r₁, h₁, hrest⟩ := transcript_bind.mp h
  rcases r₁ with e | active
  · exact absurd hrest.2 (by simp)
  obtain ⟨origins, rfl⟩ := active_ok h₁
  obtain ⟨es₂, rfl, h₂⟩ := hrest
  obtain ⟨es₃, r₃, h₃, hrest⟩ := transcript_bind.mp h₂
  rcases r₃ with e | heard
  · exact absurd hrest.2 (by simp)
  obtain ⟨es₄, rfl, h₄⟩ := hrest
  dsimp only at h₄
  split at h₄
  · -- somebody knows a height: the fallbacks are left alone
    obtain ⟨-, hr⟩ := transcript_pure.mp h₄
    cases hr
    exact ⟨heights_ok h₃, origins, [], List.nil_prefix, (List.append_nil _).symm⟩
  · -- nobody does, so the fallbacks are asked as well
    obtain ⟨es₅, r₅, h₅, hrest⟩ := transcript_bind.mp h₄
    rcases r₅ with e | more
    · exact absurd hrest.2 (by simp)
    obtain ⟨es₆, rfl, h₆⟩ := hrest
    obtain ⟨-, hr⟩ := transcript_pure.mp h₆
    cases hr
    refine ⟨?_, origins, cc.fallback, List.prefix_rfl, rfl⟩
    rw [List.length_append, List.length_append, heights_ok h₃, heights_ok h₅]

/-- Evonodes list no coins, so those asked are configured, and in the order of the
configuration. -/
theorem readers_sublist (test : JsNumber → Bool) (tip : JsNumber) {providers : List Provider}
    {statuses : List ProviderStatus}
    (h : Transcript (cc.surveyWith : Net σ _) es (.ok (providers, statuses))) :
    (readers test tip providers statuses).Sublist (cc.primary ++ cc.fallback) := by
  obtain ⟨hlength, origins, more, hmore, rfl⟩ := surveyWith_ok h
  have hfst : ((cc.primary ++ origins.map Provider.evonode ++ more).zip statuses).map Prod.fst =
      cc.primary ++ origins.map Provider.evonode ++ more := by
    apply List.map_fst_zip
    exact hlength.ge
  have hreaders : (readers test tip (cc.primary ++ origins.map Provider.evonode ++ more)
      statuses).Sublist ((cc.primary ++ origins.map Provider.evonode ++ more).filter
        (·.canReadUtxos)) := by
    conv_rhs => rw [← hfst]
    rw [readers, List.filter_map]
    apply List.Sublist.map
    apply List.monotone_filter_right
    intro entry hentry
    simp only [reads, Bool.and_eq_true] at hentry
    exact hentry.1.1
  -- evonodes list no coins
  have hevonodes : (origins.map Provider.evonode).filter (·.canReadUtxos) = [] := by
    rw [List.filter_eq_nil_iff]
    intro p hp
    obtain ⟨origin, -, rfl⟩ := List.mem_map.mp hp
    exact Bool.false_ne_true
  rw [List.filter_append, List.filter_append, hevonodes, List.append_nil] at hreaders
  exact hreaders.trans
    (List.filter_sublist.append (List.filter_sublist.trans hmore.sublist))

/-- What is asked after a survey with this tip, and what comes of it: the providers whose lag passes
`test` fail over, in the order of the configuration, with one call more than there are at most. -/
def ListedBy (cc : ChainClient) (test : JsNumber → Bool) (address : String) (tip : JsNumber)
    (providers : List Provider) (statuses : List ProviderStatus) (es : List Answered)
    (r : Except Thrown UtxoSnapshot) : Prop :=
  (readers test tip providers statuses).Sublist (cc.primary ++ cc.fallback) ∧
    ∃ (asked : List Provider) (errors : List String) (calls : List Listing)
      (found : Except Thrown (Provider × List Utxo)),
      es = calls.map (Listing.event address) ∧
        r = found.map (fun coins => ⟨coins.2, cc.name coins.1, tip, statuses⟩) ∧
        FailsOver (readers test tip providers statuses) asked errors calls found ∧
        calls.length ≤ (readers test tip providers statuses).length + 1

/-- What `getUtxos` comes to, by the way it goes. -/
inductive Listed (cc : ChainClient) (σ : Type) (address : String) :
    List Answered → Except Thrown UtxoSnapshot → Prop
  /-- The active providers could not be built. -/
  | unsurveyed {es : List Answered} {e : Thrown}
      (hsurvey : Transcript (cc.surveyWith : Net σ _) es (.error e)) :
      Listed cc σ address es (.error e)
  /-- Nobody knows a height: nobody is asked for coins. -/
  | blind {es : List Answered} {providers : List Provider} {statuses : List ProviderStatus}
      (hsurvey : Transcript (cc.surveyWith : Net σ _) es (.ok (providers, statuses)))
      (htip : cc.tipHeight providers statuses = none) :
      Listed cc σ address es
        (.error (.allProvidersFailed "getHeight" (statuses.map fun s => s.error.getD "unknown")))
  /-- The eligible providers fail over. -/
  | listed {front es : List Answered} {providers : List Provider}
      {statuses : List ProviderStatus} {tip : JsNumber} {r : Except Thrown UtxoSnapshot}
      (hsurvey : Transcript (cc.surveyWith : Net σ _) front (.ok (providers, statuses)))
      (htip : cc.tipHeight providers statuses = some tip)
      (hlisted : cc.ListedBy notBeyond address tip providers statuses es r) :
      Listed cc σ address (front ++ es) r

/-- `getUtxos` after a survey with a tip. -/
theorem getUtxos_eq (address : String) : (cc.getUtxos address : Net σ _) =
    cc.surveyWith >>= fun survey =>
      match cc.tipHeight survey.1 survey.2 with
      | none => .throw
          (.allProvidersFailed "getHeight" (survey.2.map fun s => s.error.getD "unknown"))
      | some tip =>
        listFrom address false (readers notBeyond tip survey.1 survey.2)
            (((survey.1.zip survey.2).filter fun x => x.1.canReadUtxos).filterMap
              fun x => cc.ineligible tip x.1 x.2) >>= fun coins =>
          pure ⟨coins.2, cc.name coins.1, tip, survey.2⟩ := by
  -- filtering twice is filtering by both
  have heligible (tip : JsNumber) (providers : List Provider) (statuses : List ProviderStatus) :
      (((providers.zip statuses).filter fun x => x.1.canReadUtxos).filter
        fun x => (cc.ineligible tip x.1 x.2).isNone).map Prod.fst =
          readers notBeyond tip providers statuses := by
    rw [List.filter_filter, readers]
    congr 1
    refine List.filter_congr fun x _ => ?_
    rw [Bool.and_comm, ineligible_isNone]
  simp only [← heligible]
  rfl

/-- What follows a survey with a tip. -/
theorem transcript_getUtxos {front : List Answered} {providers : List Provider}
    {statuses : List ProviderStatus} {tip : JsNumber} {r : Except Thrown UtxoSnapshot}
    (hsurvey : Transcript (cc.surveyWith : Net σ _) front (.ok (providers, statuses)))
    (htip : cc.tipHeight providers statuses = some tip) :
    Transcript (cc.getUtxos address : Net σ _) (front ++ es) r ↔
      ∃ errors found, r = found.map (fun coins => ⟨coins.2, cc.name coins.1, tip, statuses⟩) ∧
        errors = ((providers.zip statuses).filter fun x => x.1.canReadUtxos).filterMap
          (fun x => cc.ineligible tip x.1 x.2) ∧
        Transcript (listFrom address false (readers notBeyond tip providers statuses) errors :
          Net σ _) es found := by
  -- behind the survey and its tip, all that is asked is the loop over the readers
  rw [getUtxos_eq, transcript_bind_append hsurvey]
  dsimp only
  rw [htip]
  dsimp only
  rw [transcript_bind]
  constructor
  · rintro ⟨es₁, found, hfound, hrest⟩
    refine ⟨_, found, ?_, rfl, ?_⟩
    · cases found with
      | error e => exact hrest.2
      | ok coins =>
        obtain ⟨es₂, -, hret⟩ := hrest
        exact (transcript_pure.mp hret).2
    · cases found with
      | error e => exact hrest.1 ▸ hfound
      | ok coins =>
        obtain ⟨es₂, rfl, hret⟩ := hrest
        rw [(transcript_pure.mp hret).1, List.append_nil]
        exact hfound
  · rintro ⟨errors, found, rfl, rfl, hfound⟩
    refine ⟨es, found, hfound, ?_⟩
    cases found with
    | error e => exact ⟨rfl, rfl⟩
    | ok coins => exact ⟨[], (List.append_nil es).symm, rfl, rfl⟩

theorem listedBy_notBeyond {front : List Answered} {providers : List Provider}
    {statuses : List ProviderStatus} {tip : JsNumber} {r : Except Thrown UtxoSnapshot}
    (hsurvey : Transcript (cc.surveyWith : Net σ _) front (.ok (providers, statuses)))
    (htip : cc.tipHeight providers statuses = some tip)
    (h : Transcript (cc.getUtxos address : Net σ _) (front ++ es) r) :
    cc.ListedBy notBeyond address tip providers statuses es r := by
  obtain ⟨errors, found, hr, -, hfound⟩ := (transcript_getUtxos hsurvey htip).mp h
  obtain ⟨asked, calls, hes, hcalls⟩ := listFrom_failsOver hfound
  exact ⟨readers_sublist _ tip hsurvey, asked, errors, calls, found, hes, hr, hcalls,
    hcalls.length_le⟩

theorem getUtxos_listed {r : Except Thrown UtxoSnapshot}
    (h : Transcript (cc.getUtxos address : Net σ _) es r) : Listed cc σ address es r := by
  have hbind := h
  rw [getUtxos_eq] at hbind
  obtain ⟨front, survey, hsurvey, hrest⟩ := transcript_bind.mp hbind
  rcases survey with e | ⟨providers, statuses⟩
  · obtain ⟨rfl, rfl⟩ := hrest
    exact .unsurveyed hsurvey
  obtain ⟨es₂, rfl, h₂⟩ := hrest
  cases htip : cc.tipHeight providers statuses with
  | none =>
    dsimp only at h₂
    rw [htip] at h₂
    obtain ⟨rfl, rfl⟩ := transcript_throw.mp h₂
    rw [List.append_nil]
    exact .blind hsurvey htip
  | some tip => exact .listed hsurvey htip (listedBy_notBeyond hsurvey htip h)

/-! ### Whose lag is a number -/

/-- All listings fail at their deadlines. -/
theorem transcript_all_late (ps : List Provider) (errors : List String) :
    ∃ calls : List Listing, calls.map Listing.provider = ps ∧
      (∀ call ∈ calls, ¬call.FailsQuickly) ∧
      ∃ e, Transcript (listFrom address false ps errors : Net σ _)
        (calls.map (Listing.event address)) (.error e) := by
  induction ps generalizing errors with
  | nil => exact ⟨[], rfl, List.forall_mem_nil _, _, rfl, rfl⟩
  | cons p ps ih =>
    obtain ⟨calls, hproviders, hlate, e, hcalls⟩ := ih (errors ++ ["timeout"])
    refine ⟨⟨p, .error ("timeout", true)⟩ :: calls, by rw [List.map_cons, hproviders],
      List.forall_mem_cons.mpr ⟨?_, hlate⟩, e, ?_⟩
    · rintro ⟨_, he⟩
      cases he
    · rw [listFrom_false_cons]
      exact ⟨.error ("timeout", true), _, rfl, hcalls⟩

/-- When everybody fails late, those that were asked are those that had to be. -/
theorem readers_eq_of_listedBy {front : List Answered} {providers : List Provider}
    {statuses : List ProviderStatus} {tip : JsNumber} {test : JsNumber → Bool}
    (hsurvey : Transcript (cc.surveyWith : Net σ _) front (.ok (providers, statuses)))
    (htip : cc.tipHeight providers statuses = some tip)
    (h : ∀ es r, Transcript (cc.getUtxos address : Net σ _) (front ++ es) r →
      cc.ListedBy test address tip providers statuses es r) :
    readers notBeyond tip providers statuses = readers test tip providers statuses := by
  -- let everybody fail at the deadline: then exactly the eligible ones are asked
  obtain ⟨late, hproviders, hlate, e, hlisting⟩ := @transcript_all_late σ address
    (readers notBeyond tip providers statuses)
    (((providers.zip statuses).filter fun x => x.1.canReadUtxos).filterMap
      fun x => cc.ineligible tip x.1 x.2)
  obtain ⟨-, asked, errors, calls, found, hes, hr, hcalls, -⟩ := h _ _
    ((transcript_getUtxos hsurvey htip).mpr ⟨_, _, rfl, rfl, hlisting⟩)
  obtain rfl : late = calls := List.map_injective_iff.mpr (Listing.event_injective address) hes
  cases found with
  | ok coins => cases hr
  | error e' =>
    obtain ⟨hasked, -, -⟩ := hcalls.failed e' rfl
    rw [← hproviders, ← hasked]
    obtain ⟨hall, -⟩ | ⟨before, first, again, after, rfl, -, hquick, -, -⟩ := hcalls.turns
    · exact hall
    · exact absurd hquick (hlate first (by simp))

/-- **Failover is exact** but for a height that is no number. Every call of `getUtxos`, whatever its
providers answer, lists only eligible providers, in the configured order and with one retry at most,
returns the coins of the first that gives them and throws when none did. The loop the source writes
over an index ends within two rounds more than there are eligible providers, and is the one
described. After a survey those eligible are, whatever the listings come to, the ones at most ten
blocks behind its tip exactly if nobody's lag is NaN. -/
theorem getUtxos_exact (cc : ChainClient) (address : String) :
    (∀ es r, Transcript (cc.getUtxos address : Net σ _) es r → Listed cc σ address es r) ∧
    (∀ (eligible : List Provider) (errors : List String) (fuel : ℕ), eligible.length + 1 < fuel →
      (listLoop address eligible fuel 0 false errors : Net σ _) =
        listFrom address false eligible errors >>= fun found => pure (some found)) ∧
    ∀ front providers statuses tip,
      Transcript (cc.surveyWith : Net σ _) front (.ok (providers, statuses)) →
      cc.tipHeight providers statuses = some tip →
      ((∀ es r, Transcript (cc.getUtxos address : Net σ _) (front ++ es) r →
          cc.ListedBy within address tip providers statuses es r) ↔
        Comparable tip providers statuses) := by
  refine ⟨fun es r h => getUtxos_listed h, fun eligible errors fuel hfuel => listLoop_eq hfuel,
    fun front providers statuses tip hsurvey htip => ?_⟩
  rw [← readers_eq_iff]
  constructor
  · exact readers_eq_of_listedBy hsurvey htip
  · intro heq es r h
    have hlisted := listedBy_notBeyond hsurvey htip h
    unfold ListedBy at hlisted ⊢
    rwa [← heq]

/-- The first explorer fails quickly, is asked again and times out; the second has no coins. -/
theorem getUtxos_exact_retry :
    let hyphen := Provider.configured .hyphen "h"
    let insight := Provider.configured .insight "i"
    let cc : ChainClient :=
      ⟨[(.hyphen, "h"), (.insight, "i")], [], false, fun _ => none, .insertion⟩
    let statuses : List ProviderStatus :=
      [⟨"hyphen", true, some 100, none⟩, ⟨"insight", true, some 100, none⟩]
    let survey : List Answered := [⟨.heights [hyphen, insight], fun _ => .ok 100⟩]
    Listed cc Unit "y"
        [⟨.heights [hyphen, insight], fun _ => .ok 100⟩,
          ⟨.listing hyphen "y", .error ("[hyphen] HTTP 502: blip", false)⟩,
          ⟨.listing hyphen "y", .error ("The operation was aborted due to timeout", true)⟩,
          ⟨.listing insight "y", .ok []⟩]
        (.ok ⟨[], "insight", 100, statuses⟩) ∧
      (listLoop "y" [hyphen, insight] 4 0 false [] : Net Unit _) =
        listFrom "y" false [hyphen, insight] [] >>= (fun found => pure (some found)) ∧
      ((∀ es r, Transcript (cc.getUtxos "y" : Net Unit _) (survey ++ es) r →
          cc.ListedBy within "y" 100 [hyphen, insight] statuses es r) ↔
        Comparable 100 [hyphen, insight] statuses) := by
  intro hyphen insight cc statuses survey
  obtain ⟨hlisted, hloop, hcurrent⟩ := @getUtxos_exact Unit cc "y"
  have hsurvey : Transcript (cc.surveyWith : Net Unit _) survey
      (.ok ([hyphen, insight], statuses)) := ⟨_, _, rfl, rfl, rfl⟩
  have htip : cc.tipHeight [hyphen, insight] statuses = some 100 := by decide +kernel
  refine ⟨hlisted _ _ ?_, hloop [hyphen, insight] [] 4 (by decide),
    hcurrent survey _ statuses 100 hsurvey htip⟩
  -- at one height both are asked
  have hboth : readers notBeyond 100 [hyphen, insight] statuses = [hyphen, insight] := by
    decide +kernel
  refine (transcript_getUtxos hsurvey htip).mpr ⟨_, .ok (insight, []), rfl, rfl, ?_⟩
  rw [hboth]
  exact ⟨_, _, rfl, _, _, rfl, _, _, rfl, rfl, rfl⟩

/-- **Far behind.** Where an evonode answers NaN, a source at height 1 is asked, though another one
stands at 1000. -/
theorem getUtxos_behind :
    let insight := Provider.configured .insight "i"
    let core := Provider.configured .dashrpc "c"
    let evonode := Provider.evonode "https://1.2.3.4:443"
    let cc : ChainClient := ⟨[(.insight, "i"), (.dashrpc, "c")], [], true,
      fun _ => some "1.2.3.4", .insertion⟩
    let statuses : List ProviderStatus := [⟨"insight", true, some 1, none⟩,
      ⟨"dashrpc", true, some 1000, none⟩, ⟨cc.name evonode, true, some .nan, none⟩]
    let survey : List Answered := [⟨.sample evonodeSample, ["https://1.2.3.4:443"]⟩,
      ⟨.heights [insight, core, evonode],
        fun i => .ok (if i = 0 then 1 else if i = 1 then 1000 else .nan)⟩]
    let snapshot : UtxoSnapshot := ⟨[], "insight", .nan, statuses⟩
    let listing : List Answered := [⟨.listing insight "y", .ok []⟩]
    Transcript (cc.getUtxos "y" : Net Unit _) (survey ++ listing) (.ok snapshot) ∧
      ¬cc.ListedBy within "y" .nan [insight, core, evonode] statuses listing (.ok snapshot) := by
  intro insight core evonode cc statuses survey snapshot listing
  have hsurvey : Transcript (cc.surveyWith : Net Unit _) survey
      (.ok ([insight, core, evonode], statuses)) := ⟨_, _, rfl, _, _, rfl, rfl, rfl⟩
  have htip : cc.tipHeight [insight, core, evonode] statuses = some .nan := by decide +kernel
  constructor
  · have hall : readers notBeyond .nan [insight, core, evonode] statuses = [insight, core] := by
      decide +kernel
    refine (transcript_getUtxos hsurvey htip).mpr ⟨_, .ok (insight, []), rfl, rfl, ?_⟩
    rw [hall]
    exact ⟨_, _, rfl, rfl, rfl⟩
  · rintro ⟨-, asked, errors, calls, found, hes, -, hcalls, -⟩
    have hnobody : readers within .nan [insight, core, evonode] statuses = [] := by decide +kernel
    rw [hnobody] at hcalls
    obtain rfl : [⟨insight, .ok []⟩] = calls :=
      List.map_injective_iff.mpr (Listing.event_injective "y") hes
    -- nobody was to be asked, and one was
    obtain rfl : asked = [] := List.prefix_nil.mp hcalls.in_order
    obtain ⟨hasked, -⟩ | ⟨before, first, again, after, -, -, -, -, hasked⟩ := hcalls.turns
    · cases hasked
    · exact absurd hasked (by simp)

end ChainClient
end DashFaucet
