import DashFaucet.Chain.Relays

/-!
# Drawing relays again

Every broadcast and every lookup draws a fresh sample of evonodes. Building a provider for an origin
that is no URL throws, and so does a broadcast without anybody to hand the transaction to. A
transaction that was handed out once is handed out again when it is in doubt, and looked up; if one
of these two throws, whoever broadcast it learns nothing of the first.

* `ChainClient.Draws`: the sample that is drawn, if any is.
* `ChainClient.broadcast_draws`, `ChainClient.anyKnowsTx_draws`: the samples that make them throw.
* `ChainClient.CanRepeat`: no such sample is drawn once a relay was asked.
-/

namespace DashFaucet

open Async

namespace ChainClient

variable {σ : Type} {cc : ChainClient} {es : List Answered} {rawHex txid : String}

/-- Every origin of a sample is a URL. -/
def AllUrls (cc : ChainClient) (origins : List String) : Prop :=
  ∀ origin ∈ origins, (cc.urlHostname origin).isSome = true

/-- With this sample there is somebody to broadcast to. -/
def HasRelay (cc : ChainClient) (origins : List String) : Prop :=
  (∃ p ∈ cc.primary, p.canBroadcast = true) ∨ origins ≠ [] ∨ cc.fallback ≠ []

/-- The draw of a sample. A deployment without evonodes draws none. -/
inductive Draws (cc : ChainClient) : List Answered → List String → Prop
  | sampled (origins : List String) (h : cc.evonodes = true) :
      Draws cc [⟨.sample evonodeSample, origins⟩] origins
  | fixed (h : cc.evonodes = false) : Draws cc [] []

theorem Draws.noRelay {origins : List String} (h : cc.Draws es origins) :
    ∀ e ∈ es, NoRelay e.1 := by
  cases h with
  | sampled =>
    intro e he
    rw [List.mem_singleton.mp he]
    exact Samples.noRelay ⟨_, rfl⟩
  | fixed => exact List.forall_mem_nil _

/-- The active providers can be built exactly for a sample of URLs. -/
theorem active_draws {r : Except Thrown (List Provider)}
    (h : Transcript (cc.active : Net σ _) es r) : ∃ origins, cc.Draws es origins ∧
      ((cc.AllUrls origins ∧ r = .ok (cc.primary ++ origins.map Provider.evonode)) ∨
        ¬cc.AllUrls origins ∧ r = .error (.error "Invalid URL string.")) := by
  unfold active at h
  split at h
  · next hevonodes =>
    obtain ⟨es₁, r₁, h₁, hrest⟩ := transcript_bind.mp h
    obtain ⟨origins, rfl, rfl⟩ := transcript_ask.mp h₁
    obtain ⟨es₂, rfl, h₂⟩ := hrest
    -- the origins become providers if the URL parser takes them all
    have hall : (origins.all fun o => (cc.urlHostname o).isSome) = true ↔ cc.AllUrls origins :=
      List.all_eq_true
    split at h₂
    · next hurls =>
      obtain ⟨rfl, rfl⟩ := transcript_pure.mp h₂
      exact ⟨origins, .sampled origins hevonodes, .inl ⟨hall.mp hurls, rfl⟩⟩
    · next hurls =>
      obtain ⟨rfl, rfl⟩ := transcript_throw.mp h₂
      exact ⟨origins, .sampled origins hevonodes, .inr ⟨mt hall.mpr hurls, rfl⟩⟩
  · next hfixed =>
    obtain ⟨rfl, rfl⟩ := transcript_pure.mp h
    exact ⟨[], .fixed (Bool.eq_false_iff.mpr hfixed),
      .inl ⟨List.forall_mem_nil _, (congrArg Except.ok (List.append_nil _)).symm⟩⟩

/-- There are no relays at all exactly where nobody is configured and nobody was drawn. -/
theorem relays_isEmpty_iff (origins : List String) :
    (((cc.primary ++ origins.map Provider.evonode).filter (·.canBroadcast)).isEmpty &&
      cc.fallback.isEmpty) = true ↔ ¬cc.HasRelay origins := by
  have hevonodes : (origins.map Provider.evonode).filter (·.canBroadcast) =
      origins.map Provider.evonode := by
    refine List.filter_eq_self.mpr fun p hp => ?_
    obtain ⟨origin, -, rfl⟩ := List.mem_map.mp hp
    rfl
  rw [List.filter_append, hevonodes, HasRelay]
  simp only [List.isEmpty_iff, Bool.and_eq_true, List.append_eq_nil_iff, List.filter_eq_nil_iff,
    List.map_eq_nil_iff, not_or, not_exists, not_and, ne_eq, not_not]
  exact and_assoc

/-- Whoever is asked next, no sample is drawn in a round of relays. -/
theorem relay_not_samples {relays : List Provider} {t : Tally} {r : Except Thrown Tally}
    (h : Transcript (cc.relay relays rawHex txid t : Net σ _) es r) :
    ∃ settled, es = [⟨.relay relays rawHex, settled⟩] := by
  obtain ⟨es₁, r₁, h₁, hrest⟩ := transcript_bind.mp h
  obtain ⟨settled, rfl, rfl⟩ := transcript_ask.mp h₁
  obtain ⟨es₂, rfl, h₂⟩ := hrest
  obtain ⟨rfl, -⟩ := transcript_pure.mp h₂
  exact ⟨settled, rfl⟩

/-- **A broadcast** draws a sample. It throws for want of URLs or of relays, and nothing was handed
out; or else it goes on to a relay, and draws no other sample. -/
theorem broadcast_draws {r : Except Thrown BroadcastResult}
    (h : Transcript (cc.broadcast rawHex txid : Net σ _) es r) :
    ∃ draw origins, cc.Draws draw origins ∧
      ((∃ e, r = .error e ∧ es = draw ∧ ¬(cc.AllUrls origins ∧ cc.HasRelay origins)) ∨
        cc.HasRelay origins ∧ (∃ res, r = .ok res) ∧ ∃ relays settled rest,
          es = draw ++ ⟨.relay relays rawHex, settled⟩ :: rest ∧ ∀ e ∈ rest, ¬Samples e.1) := by
  obtain ⟨draw, r₁, h₁, hrest⟩ := transcript_bind.mp h
  obtain ⟨origins, hdraw, ⟨hurls, rfl⟩ | ⟨hurls, rfl⟩⟩ := active_draws h₁
  · obtain ⟨es₂, rfl, h₂⟩ := hrest
    refine ⟨draw, origins, hdraw, ?_⟩
    dsimp only at h₂
    split at h₂
    · next hempty =>
      obtain ⟨rfl, rfl⟩ := transcript_throw.mp h₂
      exact .inl ⟨_, rfl, List.append_nil _,
        fun hboth => (relays_isEmpty_iff origins).mp hempty hboth.2⟩
    · next hsome =>
      -- somebody is asked, and from then on nothing is drawn and nothing throws
      refine .inr ⟨not_not.mp (mt (relays_isEmpty_iff origins).mpr hsome), ?_⟩
      obtain ⟨es₃, r₃, h₃, hrest⟩ := transcript_bind.mp h₂
      obtain ⟨settled, rfl⟩ := relay_not_samples h₃
      obtain rfl := relay_transcript h₃
      obtain ⟨es₄, rfl, h₄⟩ := hrest
      split at h₄
      · -- nobody took it: the fallbacks are asked too
        obtain ⟨es₅, r₅, h₅, hrest⟩ := transcript_bind.mp h₄
        obtain ⟨settled', rfl⟩ := relay_not_samples h₅
        obtain rfl := relay_transcript h₅
        obtain ⟨es₆, rfl, h₆⟩ := hrest
        obtain ⟨rfl, rfl⟩ := transcript_pure.mp h₆
        refine ⟨⟨_, rfl⟩, _, settled, _, rfl, fun e he => ?_⟩
        obtain rfl : e = ⟨.relay (cc.fallback.filter (·.canBroadcast)) rawHex, settled'⟩ := by
          simpa using he
        rintro ⟨n, hn⟩
        cases hn
      · obtain ⟨es₅, r₅, h₅, hrest⟩ := transcript_bind.mp h₄
        obtain ⟨rfl, rfl⟩ := transcript_pure.mp h₅
        obtain ⟨es₆, rfl, h₆⟩ := hrest
        obtain ⟨rfl, rfl⟩ := transcript_pure.mp h₆
        exact ⟨⟨_, rfl⟩, _, settled, [], rfl, List.forall_mem_nil _⟩
  · -- an origin that is no URL
    obtain ⟨rfl, rfl⟩ := hrest
    exact ⟨es, origins, hdraw, .inl ⟨_, rfl, rfl, fun hboth => hurls hboth.1⟩⟩

/-- **A lookup** throws for want of URLs only. -/
theorem anyKnowsTx_draws {e : Thrown}
    (h : Transcript (cc.anyKnowsTx txid : Net σ _) es (.error e)) :
    ∃ origins, cc.Draws es origins ∧ ¬cc.AllUrls origins := by
  obtain ⟨draw, r₁, h₁, hrest⟩ := transcript_bind.mp h
  obtain ⟨origins, hdraw, ⟨hurls, rfl⟩ | ⟨hurls, rfl⟩⟩ := active_draws h₁
  · -- past the draw there is nothing that throws
    obtain ⟨es₂, rfl, h₂⟩ := hrest
    obtain ⟨es₃, r₃, h₃, hrest⟩ := transcript_bind.mp h₂
    have hknows : ∀ {ps : List Provider} {es : List Answered} {r : Except Thrown (Option Bool)},
        Transcript (knowsTx ps txid : Net σ _) es r → ∃ known, r = .ok known := by
      intro ps es r h
      obtain ⟨es₁, r₁, h₁, hrest⟩ := transcript_bind.mp h
      obtain ⟨settled, rfl, rfl⟩ := transcript_ask.mp h₁
      obtain ⟨es₂, -, h₂⟩ := hrest
      exact ⟨_, (transcript_pure.mp h₂).2⟩
    obtain ⟨first, rfl⟩ := hknows h₃
    obtain ⟨es₄, rfl, h₄⟩ := hrest
    split at h₄
    · cases (transcript_pure.mp h₄).2
    · obtain ⟨known, hknown⟩ := hknows h₄
      cases hknown
  · exact ⟨origins, hrest.1 ▸ hdraw, hurls⟩

/-- Once a relay was asked, every sample that is drawn consists of URLs, and the first of them
leaves somebody to broadcast to. -/
structure CanRepeat (cc : ChainClient) (es : List Answered) : Prop where
  urls : ∀ before n origins after, es = before ++ ⟨.sample n, origins⟩ :: after →
    (∃ e ∈ before, ¬NoRelay e.1) → cc.AllUrls origins
  relay : ∀ before relayed between n origins after,
    es = before ++ relayed :: between ++ ⟨.sample n, origins⟩ :: after →
    (∀ e ∈ before, NoRelay e.1) → ¬NoRelay relayed.1 → (∀ e ∈ between, ¬Samples e.1) →
    cc.HasRelay origins

namespace CanRepeat

variable {before draw rest draw' : List Answered} {origins origins' : List String}
  {relayed : Answered}

/-- After a relay, providers can be built for whatever is drawn. -/
theorem allUrls (h : cc.CanRepeat (before ++ draw)) (hdraw : cc.Draws draw origins)
    (hrelay : ∃ e ∈ before, ¬NoRelay e.1) : cc.AllUrls origins := by
  cases hdraw with
  | sampled => exact h.urls before _ origins [] rfl hrelay
  | fixed => exact List.forall_mem_nil _

/-- After one broadcast there is somebody for another. -/
theorem hasRelay (h : cc.CanRepeat (before ++ (draw ++ relayed :: rest) ++ draw'))
    (hbefore : ∀ e ∈ before, NoRelay e.1) (hdraw : cc.Draws draw origins)
    (hfirst : cc.HasRelay origins) (hrelayed : ¬NoRelay relayed.1)
    (hrest : ∀ e ∈ rest, ¬Samples e.1) (hdraw' : cc.Draws draw' origins') :
    cc.HasRelay origins' := by
  cases hdraw' with
  | sampled =>
    refine h.relay (before ++ draw) relayed rest evonodeSample origins' [] ?_ (fun e he => ?_)
      hrelayed hrest
    · rw [List.append_assoc before draw]
    · exact (List.mem_append.mp he).elim (hbefore e) (hdraw.noRelay e)
  | fixed hfixed =>
    -- without evonodes both broadcasts go to the same relays
    cases hdraw with
    | sampled _ hevonodes =>
      rw [hfixed] at hevonodes
      cases hevonodes
    | fixed => exact hfirst

end CanRepeat

end ChainClient

end DashFaucet
