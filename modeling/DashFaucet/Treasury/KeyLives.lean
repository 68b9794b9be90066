import DashFaucet.Treasury.Payout
import Mathlib.Data.List.Induction
import Mathlib.Order.MinMax

/-!
# Lives of keys

A key is live while it is neither revoked nor expired. Keys are issued, rotated, revoked and used,
and a migration lifts the expiry of live ones. Between two calls time passes, and keys expire
silently.

Everything rests on what one call does to one row (`Heir`): whoever is live after the call was live
at the call. So a dead key stays dead, and the number of live keys of an owner grows only where a
key is issued, which is capped.

* `KeyCall`, `Admin.after`: the calls on keys, and runs of them.
* `KeyCall.rows`: what a call does to the table, row by row.
* `Admin.issueOwnKey_rotated`: the anatomy of a rotation.
* `keys_live_once`: the cap, the rotation, failed calls, and no resurrection.
-/

namespace DashFaucet

/-! ### Runs -/

/-- What is done to keys: an ownerless key is made by an administrator, a key is used for a payout,
and the constructor migrates the accounts under the policy of the day. -/
inductive KeyCall where
  | issueOwnKey (input : IssueOwnKeyInput) (hash : String)
  | revokeApiKey (id : String) (owner admin : Option String)
  | createApiKey (input : MintKeyInput) (hash : String)
  | migrateAccounts (selfServeKeysExpire : Bool)
  | recordKeyPayout (key : ApiKeyRow) (built : BuiltTx) (address : String) (satoshis : ℕ)

namespace KeyCall

/-- Whether the call made at `now` succeeds, and the accounts after it. -/
def effect (now : ℤ) (a : Admin) : KeyCall → Bool × Admin
  | issueOwnKey input hash =>
    let (result, a') := a.issueOwnKey input hash now
    (result matches .ok _, a')
  | revokeApiKey id owner admin =>
    (a.apiKeys.rows.any fun r => r.id = id ∧ r.revokedAt = none ∧ (owner = none ∨ r.owner = owner),
      a.revokeApiKey id owner admin now)
  | createApiKey input hash =>
    ((a.mintKey { input with owner := none } hash now).isSome,
      a.createApiKey { input with owner := none } hash now)
  | migrateAccounts selfServeKeysExpire => (true, a.migrateAccounts selfServeKeysExpire now)
  | recordKeyPayout key built address satoshis =>
    (true, (State.recordKeyPayout key built address satoshis now
      { State.initial now with admin := a }).admin)

/-- The token of a call is new: no key has its hash or its handle. -/
def Fresh (a : Admin) : KeyCall → Prop
  | issueOwnKey _ hash | createApiKey _ hash =>
    ∀ r ∈ a.apiKeys.rows, r.hash ≠ hash ∧ r.id ≠ keyId hash
  | _ => True

/-- The cap a call passes for an owner. -/
def maxActive (owner : String) : KeyCall → Option ℕ
  | issueOwnKey input _ => if input.who = owner then some input.maxActive else none
  | _ => none

end KeyCall

namespace Admin

/-- The live keys of an owner. -/
def liveKeys (a : Admin) (owner : String) (now : ℤ) : List ApiKeyRow :=
  a.apiKeys.rows.filter fun r => r.owner = some owner ∧ r.live now

/-- The accounts after some calls, each made at its instant. -/
def after (calls : List (ℤ × KeyCall)) (a : Admin) : Admin :=
  calls.foldl (fun a c => (c.2.effect c.1 a).2) a

end Admin

/-- The largest cap some calls passed for an owner. -/
def largestMaxActive (owner : String) (calls : List (ℤ × KeyCall)) : ℕ :=
  (calls.filterMap fun c => c.2.maxActive owner).foldl max 0

/-! ### What a call does to a row -/

/-- A live key was live before. -/
theorem ApiKeyRow.live_of_le {r : ApiKeyRow} {t t' : ℤ} (hle : t ≤ t') (h : r.live t') :
    r.live t := by
  rw [ApiKeyRow.live, Bool.and_eq_true, Option.all_eq_true] at h ⊢
  refine ⟨h.1, fun e he => ?_⟩
  have hlater := of_decide_eq_true (h.2 e he)
  exact decide_eq_true (by omega)

/-- `r'` is what a call at `now` made of `r`: the same key, and live only if it was at the call. -/
structure Heir (now : ℤ) (r r' : ApiKeyRow) : Prop where
  hash : r'.hash = r.hash
  id : r'.id = r.id
  owner : r'.owner = r.owner
  lives : ∀ t, now ≤ t → r'.live t → r.live now

namespace Heir

variable {now : ℤ} {r : ApiKeyRow}

theorem refl (now : ℤ) (r : ApiKeyRow) : Heir now r r :=
  ⟨rfl, rfl, rfl, fun _ hle h => ApiKeyRow.live_of_le hle h⟩

/-- A revoked key is dead. -/
theorem revoke (now t : ℤ) (by' : Option String) (r : ApiKeyRow) :
    Heir now r { r with revokedAt := some t, revokedBy := by' } :=
  ⟨rfl, rfl, rfl, fun _ _ h => absurd h Bool.false_ne_true⟩

/-- Only the expiry of a live key is lifted. -/
theorem lift (h : r.live now) : Heir now r { r with expiresAt := none } :=
  ⟨rfl, rfl, rfl, fun _ _ _ => h⟩

theorem ite {r' : ApiKeyRow} {p : Bool} (h : p = true → Heir now r r') :
    Heir now r (if p then r' else r) := by
  cases p with
  | true => exact h rfl
  | false => exact refl now r

end Heir

/-! ### Minting and issuing -/

namespace Admin

variable {a a' : Admin} {now : ℤ} {hash : String} {key : ApiKeyRow}

theorem mem_liveKeys {owner : String} {r : ApiKeyRow} :
    r ∈ a.liveKeys owner now ↔ r ∈ a.apiKeys.rows ∧ r.owner = some owner ∧ r.live now := by
  rw [liveKeys, List.mem_filter, decide_eq_true_eq]

/-- A minted key, and the table it is in. -/
structure Minted (input : MintKeyInput) (hash : String) (a : Admin) (key : ApiKeyRow) (a' : Admin) :
    Prop where
  hash_eq : key.hash = hash
  id_eq : key.id = keyId hash
  owner_eq : key.owner = input.owner
  unrevoked : key.revokedAt = none
  expiresAt_eq : key.expiresAt = input.expiresAt
  rows_eq : a'.apiKeys.rows = a.apiKeys.rows ++ [key]
  fresh : ∀ r ∈ a.apiKeys.rows, r.hash ≠ hash ∧ r.id ≠ keyId hash

theorem minted_of_mintKey {input : MintKeyInput} (h : a.mintKey input hash now = some (key, a')) :
    Minted input hash a key a' := by
  obtain ⟨apiKeys, hins, heq⟩ := Option.map_eq_some_iff.mp h
  obtain ⟨hrows, hfresh⟩ := Table.insert?_eq_some hins
  cases heq
  exact ⟨rfl, rfl, rfl, rfl, rfl, hrows, hfresh⟩

/-- Only a token that is not new cannot be minted. -/
theorem clash_of_mintKey {input : MintKeyInput} (h : a.mintKey input hash now = none) :
    ∃ r ∈ a.apiKeys.rows, r.hash = hash ∨ r.id = keyId hash := by
  have hins := Option.map_eq_none_iff.mp h
  unfold Table.insert? at hins
  split at hins
  · cases hins
  · next hclash =>
    simp only [not_forall] at hclash
    obtain ⟨r, hr, hclash⟩ := hclash
    rw [not_and_or, not_not, not_not] at hclash
    exact ⟨r, hr, hclash⟩

/-- What becomes of a row when the key of an id is revoked. -/
def revoked (who id : String) (now : ℤ) (r : ApiKeyRow) : ApiKeyRow :=
  if r.id = id then { r with revokedAt := some now, revokedBy := some who } else r

theorem heir_revoked (who id : String) (now : ℤ) (r : ApiKeyRow) :
    Heir now r (revoked who id now r) := by
  unfold revoked
  split
  · exact .revoke now now (some who) r
  · exact .refl now r

/-- How `issueOwnKey` ends. -/
inductive Issued (input : IssueOwnKeyInput) (hash : String) (now : ℤ) (a : Admin) :
    IssueOwnKeyResult → Admin → Prop where
  | limit (hnew : input.replacing = none)
      (hfull : input.maxActive ≤ (a.liveKeys input.who now).length) :
      Issued input hash now a .limit a
  | notFound {id : String} (hold : input.replacing = some id)
      (hnone : ∀ r ∈ a.liveKeys input.who now, r.id ≠ id) : Issued input hash now a .notFound a
  /-- A key more. -/
  | added {key : ApiKeyRow} {a' : Admin} (hnew : input.replacing = none)
      (hroom : (a.liveKeys input.who now).length < input.maxActive)
      (howner : key.owner = some input.who) (hrows : a'.apiKeys.rows = a.apiKeys.rows ++ [key]) :
      Issued input hash now a (.ok key) a'
  /-- A key for another. -/
  | rotated {id : String} {old key : ApiKeyRow} {a' : Admin} (hold : input.replacing = some id)
      (hlive : old ∈ a.liveKeys input.who now) (hid : old.id = id)
      (howner : key.owner = some input.who) (hkey : key.live now) (hhash : key.hash = hash)
      (hfresh : ∀ r ∈ a.apiKeys.rows, r.hash ≠ hash ∧ r.id ≠ key.id)
      (hrows : a'.apiKeys.rows = a.apiKeys.rows.map (revoked input.who id now) ++ [key]) :
      Issued input hash now a (.ok key) a'
  /-- The insert broke a unique column; a key to be replaced is revoked by then. -/
  | conflict {a' : Admin} {g : ApiKeyRow → ApiKeyRow} (hheir : ∀ r, Heir now r (g r))
      (hrows : a'.apiKeys.rows = a.apiKeys.rows.map g)
      (hclash : ∃ r ∈ a.apiKeys.rows, r.hash = hash ∨ r.id = keyId hash) :
      Issued input hash now a .conflict a'

/-- A key without an expiry, or with one ahead, is live. -/
theorem live_of_minted {ttlMs : ℤ} (hunrevoked : key.revokedAt = none)
    (hexpires : key.expiresAt = if ttlMs > 0 then some (now + ttlMs) else none) : key.live now := by
  rw [ApiKeyRow.live, hunrevoked, hexpires]
  split
  · show (true && decide (now + ttlMs > now)) = true
    rw [Bool.true_and]
    exact decide_eq_true (by omega)
  · rfl

theorem issueOwnKey_issued (input : IssueOwnKeyInput) (hash : String) (now : ℤ) (a : Admin) :
    Issued input hash now a (a.issueOwnKey input hash now).1 (a.issueOwnKey input hash now).2 := by
  unfold issueOwnKey
  dsimp only
  cases hreplacing : input.replacing with
  | some id =>
    dsimp only
    cases hfind : a.apiKeys.rows.find? fun r => r.id = id ∧ r.owner = some input.who ∧
      r.live now with
    | none =>
      refine .notFound hreplacing fun r hr heq => ?_
      obtain ⟨hr, howner, hlive⟩ := mem_liveKeys.mp hr
      exact List.find?_eq_none.mp hfind r hr (decide_eq_true ⟨heq, howner, hlive⟩)
    | some old =>
      have hspec := List.find?_some hfind
      rw [decide_eq_true_eq] at hspec
      obtain ⟨hid, howner, hlive⟩ := hspec
      have hold : old ∈ a.liveKeys input.who now :=
        mem_liveKeys.mpr ⟨List.mem_of_find?_eq_some hfind, howner, hlive⟩
      -- the table in which the old key is revoked
      have hrevoked : ∀ r, r ∈ a.apiKeys.rows.map (fun r => if decide (r.id = id) = true then
          { r with revokedAt := some now, revokedBy := some input.who } else r) →
          ∃ r₀ ∈ a.apiKeys.rows, r.hash = r₀.hash ∧ r.id = r₀.id := by
        intro r hr
        obtain ⟨r₀, hr₀, rfl⟩ := List.mem_map.mp hr
        refine ⟨r₀, hr₀, ?_⟩
        split <;> exact ⟨rfl, rfl⟩
      dsimp only
      split
      · next key a' hmint =>
        have hminted := minted_of_mintKey hmint
        refine .rotated hreplacing hold hid hminted.owner_eq
          (live_of_minted hminted.unrevoked hminted.expiresAt_eq) hminted.hash_eq ?_ ?_
        · -- revoking changes no id, so the new one is none of the old
          intro r hr
          have hfresh := hminted.fresh _ (Table.mem_update_of_mem (p := fun r => r.id = id)
            (f := fun r => { r with revokedAt := some now, revokedBy := some input.who })
            (fun _ => rfl) (fun _ => rfl) hr)
          rw [hminted.id_eq]
          revert hfresh
          split <;> exact fun h => h
        · rw [hminted.rows_eq]
          apply congrArg (· ++ [key])
          apply List.map_congr_left
          intro r _
          rw [revoked]
          by_cases h : r.id = id
          · rw [if_pos h, if_pos (decide_eq_true h)]
          · rw [if_neg h, if_neg (by rw [decide_eq_true_eq]; exact h)]
      · next hmint =>
        -- the old key is revoked although no new one comes
        obtain ⟨r, hr, hclash⟩ := clash_of_mintKey hmint
        obtain ⟨r₀, hr₀, hhash, hid₀⟩ := hrevoked r hr
        refine .conflict (fun r => .ite fun _ => .revoke now now (some input.who) r) rfl
          ⟨r₀, hr₀, ?_⟩
        rwa [← hhash, ← hid₀]
  | none =>
    dsimp only
    split
    · next hfull => exact .limit hreplacing hfull
    · next hroom =>
      split
      · next key a' hmint =>
        have hminted := minted_of_mintKey hmint
        exact .added hreplacing (not_le.mp hroom) hminted.owner_eq hminted.rows_eq
      · next hmint =>
        exact .conflict (Heir.refl now) (List.map_id _).symm (clash_of_mintKey hmint)

/-! ### Counting the live keys -/

variable {owner : String}

/-- Fewer keys are live later. -/
theorem liveKeys_sublist {t t' : ℤ} (hle : t ≤ t') :
    (a.liveKeys owner t').Sublist (a.liveKeys owner t) := by
  apply List.monotone_filter_right
  intro r hr
  rw [decide_eq_true_eq] at hr ⊢
  exact ⟨hr.1, ApiKeyRow.live_of_le hle hr.2⟩

/-- **Counting.** Where the rows of a table are heirs of those before, and some new ones, no more
keys of an owner are live than were, and the new ones of that owner. -/
theorem length_liveKeys_le {g : ApiKeyRow → ApiKeyRow} {new : List ApiKeyRow}
    (hheir : ∀ r, Heir now r (g r)) (hrows : a'.apiKeys.rows = a.apiKeys.rows.map g ++ new) :
    (a'.liveKeys owner now).length ≤
      (a.liveKeys owner now).length + (new.filter fun r => r.owner = some owner).length := by
  -- an old row has no more life than before
  have hold : ((a.apiKeys.rows.map g).filter fun r => r.owner = some owner ∧ r.live now).length ≤
      (a.liveKeys owner now).length := by
    rw [List.filter_map, List.length_map]
    apply List.Sublist.length_le
    apply List.monotone_filter_right
    intro r hr
    have hr := of_decide_eq_true hr
    rw [decide_eq_true_eq, ← (hheir r).owner]
    exact ⟨hr.1, (hheir r).lives now le_rfl hr.2⟩
  have hnew : (new.filter fun r => r.owner = some owner ∧ r.live now).length ≤
      (new.filter fun r => r.owner = some owner).length := by
    apply List.Sublist.length_le
    apply List.monotone_filter_right
    intro r hr
    rw [decide_eq_true_eq] at hr ⊢
    exact hr.1
  rw [liveKeys, hrows, List.filter_append, List.length_append]
  omega

/-- What a rotation does: the old key is dead for good, the new one is live, its token is new, and
otherwise the same keys are live. -/
structure Rotated (who id hash : String) (now : ℤ) (a : Admin) (key : ApiKeyRow) (a' : Admin) :
    Prop where
  lives : ∃ old ∈ a.liveKeys who now, old.id = id ∧
    a'.liveKeys who now = (a.liveKeys who now).erase old ++ [key] ∧
    ∀ r ∈ a'.apiKeys.rows, r.hash = old.hash → ∀ t, ¬r.live t
  count : (a'.liveKeys who now).length = (a.liveKeys who now).length
  token : key.hash = hash
  new : ∀ r ∈ a.apiKeys.rows, r.hash ≠ key.hash
  others : ∀ owner, owner ≠ who → a'.liveKeys owner now = a.liveKeys owner now

/-- The live keys of an owner when one id is revoked are those of another id. -/
theorem filter_map_revoked (who id : String) (l : List ApiKeyRow) :
    (l.map (revoked who id now)).filter (fun r => r.owner = some owner ∧ r.live now) =
      (l.filter fun r => r.owner = some owner ∧ r.live now).filter fun r => r.id ≠ id := by
  induction l with
  | nil => rfl
  | cons r l ih =>
    rw [List.map_cons, List.filter_cons, List.filter_cons, ih]
    by_cases hid : r.id = id
    · -- revoked: neither side has it
      have hdead : (revoked who id now r).live now = false := by
        rw [revoked, if_pos hid]
        rfl
      rw [if_neg (by rw [hdead]; simp)]
      split
      · rw [List.filter_cons, if_neg (by simpa using hid)]
      · rfl
    · rw [revoked, if_neg hid]
      split
      · rw [List.filter_cons, if_pos (by simpa using hid)]
      · rfl

/-- **The anatomy of a rotation.** -/
theorem issueOwnKey_rotated {input : IssueOwnKeyInput} {id : String}
    (hreplacing : input.replacing = some id)
    (h : a.issueOwnKey input hash now = (.ok key, a')) :
    Rotated input.who id hash now a key a' := by
  have hissued := issueOwnKey_issued input hash now a
  rw [h] at hissued
  cases hissued with
  | added hnew => rw [hnew] at hreplacing; cases hreplacing
  | @rotated id' old _ _ hold hlive hid howner hkey hhash hfresh hrows =>
    obtain rfl : id' = id := Option.some.inj (hold.symm.trans hreplacing)
    have hnodup : (a.liveKeys input.who now).Nodup :=
      -- the rows of an owner differ in their ids, so that of the old key is its own
      (List.Nodup.of_map _ a.apiKeys.key_nodup).filter _
    have herase : (a.liveKeys input.who now).filter (fun r => r.id ≠ id') =
        (a.liveKeys input.who now).erase old := by
      rw [hnodup.erase_eq_filter]
      apply List.filter_congr
      intro r hr
      rw [Bool.eq_iff_iff, decide_eq_true_eq, bne_iff_ne, not_iff_not, ← hid]
      refine ⟨fun heq => ?_, fun heq => by rw [heq]⟩
      exact Table.eq_of_alt (mem_liveKeys.mp hr).1 (mem_liveKeys.mp hlive).1 heq
    -- the old key goes out of the live ones, the new key comes in
    have hlives : a'.liveKeys input.who now = (a.liveKeys input.who now).erase old ++ [key] := by
      have hkey' : [key].filter (fun r => r.owner = some input.who ∧ r.live now) = [key] := by
        apply List.filter_eq_self.mpr
        intro r hr
        rw [List.mem_singleton.mp hr]
        exact decide_eq_true ⟨howner, hkey⟩
      rw [← herase, liveKeys, hrows, List.filter_append, filter_map_revoked, hkey']
      rfl
    refine ⟨⟨old, hlive, hid, hlives, ?_⟩, ?_, hhash, ?_, ?_⟩
    -- the old key is dead at every time, and no other row has its hash
    · intro r hr heq t
      rw [hrows] at hr
      rcases List.mem_append.mp hr with hr | hr
      · obtain ⟨r₀, hr₀, rfl⟩ := List.mem_map.mp hr
        have hsame : r₀ = old := by
          refine Table.eq_of_key hr₀ (mem_liveKeys.mp hlive).1 ?_
          exact (heir_revoked input.who id' now r₀).hash.symm.trans heq
        rw [hsame, revoked, if_pos hid]
        exact Bool.false_ne_true
      · rw [List.mem_singleton.mp hr, hhash] at heq
        exact absurd heq.symm (hfresh old (mem_liveKeys.mp hlive).1).1
    · rw [hlives, List.length_append, List.length_erase_of_mem hlive, List.length_singleton]
      have hpos := List.length_pos_of_mem hlive
      omega
    · intro r hr
      rw [hhash]
      exact (hfresh r hr).1
    -- no key of another owner is touched
    · intro owner hne
      rw [liveKeys, hrows, List.filter_append, filter_map_revoked]
      have hkeep : (a.liveKeys owner now).filter (fun r => r.id ≠ id') = a.liveKeys owner now := by
        apply List.filter_eq_self.mpr
        intro r hr
        rw [decide_eq_true_eq]
        intro heq
        obtain ⟨hr, howner', -⟩ := mem_liveKeys.mp hr
        have hsame : r = old :=
          Table.eq_of_alt hr (mem_liveKeys.mp hlive).1 (heq.trans hid.symm)
        rw [hsame, (mem_liveKeys.mp hlive).2.1] at howner'
        exact hne (Option.some.inj howner').symm
      have hkey' : [key].filter (fun r => r.owner = some owner ∧ r.live now) = [] := by
        apply List.filter_eq_nil_iff.mpr
        intro r hr hlives
        rw [List.mem_singleton.mp hr, decide_eq_true_eq, howner] at hlives
        exact hne (Option.some.inj hlives.1).symm
      rw [hkey', List.append_nil]
      exact hkeep

end Admin

/-! ### What a call does -/

namespace KeyCall

variable {now : ℤ} {a : Admin}

/-- **One call, row by row.** Every row has an heir, and new rows come at the end. Only
`issueOwnKey` makes keys with an owner. -/
theorem rows (c : KeyCall) (now : ℤ) (a : Admin) :
    ∃ (g : ApiKeyRow → ApiKeyRow) (new : List ApiKeyRow), (∀ r, Heir now r (g r)) ∧
      (c.effect now a).2.apiKeys.rows = a.apiKeys.rows.map g ++ new ∧
      ((∀ r ∈ new, r.owner = none) ∨ ∃ input hash, c = issueOwnKey input hash) := by
  have hnone : ∀ r ∈ ([] : List ApiKeyRow), r.owner = none := fun r hr => absurd hr List.not_mem_nil
  cases c with
  | issueOwnKey input hash =>
    have hissued := a.issueOwnKey_issued input hash now
    change ∃ g new, _ ∧ (a.issueOwnKey input hash now).2.apiKeys.rows = _ ∧ _
    generalize (a.issueOwnKey input hash now).1 = result at hissued
    generalize (a.issueOwnKey input hash now).2 = a' at hissued ⊢
    have hissue : ∃ input' hash', issueOwnKey input hash = issueOwnKey input' hash' := ⟨_, _, rfl⟩
    cases hissued with
    | limit | notFound => exact ⟨id, [], Heir.refl now, by simp, .inl hnone⟩
    | @added key _ _ _ _ hrows =>
      exact ⟨id, [key], Heir.refl now, by rw [hrows, List.map_id], .inr hissue⟩
    | @rotated id' _ key _ _ _ _ _ _ _ _ hrows =>
      exact ⟨_, [key], Admin.heir_revoked input.who id' now, hrows, .inr hissue⟩
    | @conflict _ g hheir hrows => exact ⟨g, [], hheir, by rw [hrows, List.append_nil], .inl hnone⟩
  | revokeApiKey id owner admin =>
    refine ⟨fun r => if r.id = id ∧ r.revokedAt = none ∧ (owner = none ∨ r.owner = owner) then
      { r with revokedAt := some now, revokedBy := admin.or owner } else r, [], fun r => ?_, ?_,
      .inl hnone⟩
    · dsimp only
      split
      · exact .revoke now now (admin.or owner) r
      · exact .refl now r
    · rw [List.append_nil]
      apply List.map_congr_left
      intro r _
      simp only [decide_eq_true_eq]
  | createApiKey input hash =>
    change ∃ g new, _ ∧ (a.createApiKey { input with owner := none } hash now).apiKeys.rows = _ ∧ _
    rw [Admin.createApiKey]
    cases hmint : a.mintKey { input with owner := none } hash now with
    | none => exact ⟨id, [], Heir.refl now, by simp, .inl hnone⟩
    | some minted =>
      obtain ⟨key, a'⟩ := minted
      have hminted := Admin.minted_of_mintKey hmint
      refine ⟨id, [key], Heir.refl now, ?_, .inl fun r hr => ?_⟩
      · rw [List.map_id]
        exact hminted.rows_eq
      · rw [List.mem_singleton.mp hr]
        exact hminted.owner_eq
  | migrateAccounts selfServeKeysExpire =>
    change ∃ g new, _ ∧ (a.migrateAccounts selfServeKeysExpire now).apiKeys.rows = _ ∧ _
    unfold Admin.migrateAccounts
    split
    · exact ⟨id, [], Heir.refl now, by simp, .inl hnone⟩
    · refine ⟨_, [], fun r => .ite fun hp => .lift ?_, (List.append_nil _).symm, .inl hnone⟩
      -- what is lifted has its expiry ahead
      rw [Bool.and_eq_true, Bool.and_eq_true] at hp
      obtain ⟨⟨-, hahead⟩, hunrevoked⟩ := hp
      rw [ApiKeyRow.live, hunrevoked, Bool.true_and]
      cases hexp : r.expiresAt with
      | none => rfl
      | some t =>
        rw [hexp] at hahead
        exact hahead
  | recordKeyPayout key built address satoshis =>
    refine ⟨_, [], fun r => ?_, (List.append_nil _).symm, .inl hnone⟩
    exact .ite fun _ => ⟨rfl, rfl, rfl, fun t hle h => ApiKeyRow.live_of_le (r := r) hle h⟩

/-- A call that fails changes nothing, if its token is new. -/
theorem unchanged_of_failed {c : KeyCall} (hfresh : c.Fresh a) (h : (c.effect now a).1 = false) :
    (c.effect now a).2 = a := by
  cases c with
  | issueOwnKey input hash =>
    have hissued := a.issueOwnKey_issued input hash now
    change (_ : Bool) = false at h
    change (a.issueOwnKey input hash now).2 = a
    -- a call that fails answers something else than a key
    have hfailed : ∀ key, (a.issueOwnKey input hash now).1 ≠ .ok key := by
      intro key heq
      unfold effect at h
      dsimp only at h
      rw [heq] at h
      cases h
    generalize (a.issueOwnKey input hash now).1 = result at hissued hfailed
    generalize (a.issueOwnKey input hash now).2 = a' at hissued ⊢
    cases hissued with
    | limit | notFound => rfl
    | added | rotated => exact absurd rfl (hfailed _)
    -- a fresh hash and id clash with no row
    | conflict _ _ hclash =>
      obtain ⟨r, hr, hclash⟩ := hclash
      exact (hclash.elim (hfresh r hr).1 (hfresh r hr).2).elim
  | revokeApiKey id owner admin =>
    -- no row matches the revocation
    have hnone : ∀ r ∈ a.apiKeys.rows, decide (r.id = id ∧ r.revokedAt = none ∧
        (owner = none ∨ r.owner = owner)) = false :=
      fun r hr => Bool.eq_false_iff.mpr (List.any_eq_false.mp h r hr)
    show { a with apiKeys := a.apiKeys.update _ _ _ _ } = a
    rw [Table.update_eq_self _ _ hnone]
  | createApiKey input hash =>
    change a.createApiKey { input with owner := none } hash now = a
    have hnone : a.mintKey { input with owner := none } hash now = none :=
      Option.isSome_eq_false_iff.mp h |> Option.isNone_iff_eq_none.mp
    rw [Admin.createApiKey, hnone]
    rfl
  | migrateAccounts | recordKeyPayout => cases h

/-- **One call and the cap.** No more keys of an owner are live than before, or than the cap the
call passes. -/
theorem length_liveKeys_effect (c : KeyCall) (now : ℤ) (a : Admin) (owner : String) :
    ((c.effect now a).2.liveKeys owner now).length ≤
      max (a.liveKeys owner now).length ((c.maxActive owner).getD 0) := by
  obtain ⟨g, new, hheir, hrows, hnew⟩ := c.rows now a
  -- old rows give at most one live row each; new ones come on top
  have hle : ((c.effect now a).2.liveKeys owner now).length ≤ _ :=
    Admin.length_liveKeys_le hheir hrows
  by_cases hissue : ∃ input hash, c = issueOwnKey input hash
  · obtain ⟨input, hash, rfl⟩ := hissue
    have hissued := a.issueOwnKey_issued input hash now
    change ((a.issueOwnKey input hash now).2.liveKeys owner now).length ≤ _
    rcases hres : a.issueOwnKey input hash now with ⟨result, a'⟩
    rw [hres] at hissued
    cases hissued with
    | limit | notFound => exact le_max_left _ _
    | @added key _ _ hroom howner hrows =>
      have hrows' : a'.apiKeys.rows = a.apiKeys.rows.map id ++ [key] := by
        rw [List.map_id]
        exact hrows
      have hle : (a'.liveKeys owner now).length ≤ _ :=
        Admin.length_liveKeys_le (fun r => Heir.refl now r) hrows'
      by_cases hwho : input.who = owner
      · -- there was room for one more
        subst hwho
        rw [maxActive, if_pos rfl, Option.getD_some]
        have hone := List.length_filter_le (fun r : ApiKeyRow => r.owner = some input.who) [key]
        rw [List.length_singleton] at hone
        have hcount : (a'.liveKeys input.who now).length ≤ input.maxActive := by omega
        exact le_max_of_le_right hcount
      -- the new key is another owner's
      · have hother : [key].filter (fun r => r.owner = some owner) = [] := by
          apply List.filter_eq_nil_iff.mpr
          intro r hr heq
          rw [List.mem_singleton.mp hr, decide_eq_true_eq, howner] at heq
          exact hwho (Option.some.inj heq)
        rw [hother] at hle
        exact le_max_of_le_left hle
    | @rotated _ _ key _ hold =>
      have hrotated := Admin.issueOwnKey_rotated hold hres
      by_cases hwho : owner = input.who
      · rw [hwho]
        exact le_max_of_le_left hrotated.count.le
      · rw [show (_, a').2.liveKeys owner now = _ from hrotated.others owner hwho]
        exact le_max_left _ _
    | @conflict _ g hheir hrows =>
      have hle : (a'.liveKeys owner now).length ≤ _ :=
        Admin.length_liveKeys_le hheir (hrows.trans (List.append_nil _).symm)
      exact le_max_of_le_left hle
  -- the other calls add no row with an owner
  · have hunowned : new.filter (fun r => r.owner = some owner) = [] := by
      apply List.filter_eq_nil_iff.mpr
      intro r hr heq
      rw [decide_eq_true_eq, hnew.resolve_right hissue r hr] at heq
      cases heq
    rw [hunowned] at hle
    exact le_max_of_le_left hle

end KeyCall

/-! ### Runs -/

/-- The clock does not go backwards. -/
def Clocked (calls : List (ℤ × KeyCall)) : Prop := calls.Pairwise fun c c' => c.1 ≤ c'.1

theorem largestMaxActive_append (owner : String) (calls : List (ℤ × KeyCall)) (c : ℤ × KeyCall) :
    largestMaxActive owner (calls ++ [c]) =
      max (largestMaxActive owner calls) ((c.2.maxActive owner).getD 0) := by
  unfold largestMaxActive
  rw [List.filterMap_append, List.foldl_append]
  cases h : c.2.maxActive owner with
  | none => simp [h]
  | some cap => simp [h]

namespace Admin

theorem after_append (calls : List (ℤ × KeyCall)) (c : ℤ × KeyCall) (a : Admin) :
    a.after (calls ++ [c]) = (c.2.effect c.1 (a.after calls)).2 := by
  rw [after, after, List.foldl_append]
  rfl

/-- **The cap holds at all times.** -/
theorem capped {calls : List (ℤ × KeyCall)} (hclock : Clocked calls) {now : ℤ}
    (hnow : ∀ c ∈ calls, c.1 ≤ now) (owner : String) :
    ((Admin.empty.after calls).liveKeys owner now).length ≤ largestMaxActive owner calls := by
  induction calls using List.reverseRecOn generalizing now with
  | nil => exact le_rfl
  | append_singleton calls c ih =>
    obtain ⟨hclock, -, hlast⟩ := List.pairwise_append.mp hclock
    rw [after_append, largestMaxActive_append]
    -- the call is made after the others, and now is after the call
    have hbefore := ih hclock fun c' hc' => hlast c' hc' c List.mem_cons_self
    have hle := hnow c (List.mem_append_right _ List.mem_cons_self)
    calc (((c.2.effect c.1 (Admin.empty.after calls)).2).liveKeys owner now).length
        ≤ (((c.2.effect c.1 (Admin.empty.after calls)).2).liveKeys owner c.1).length :=
          (liveKeys_sublist hle).length_le
      _ ≤ max ((Admin.empty.after calls).liveKeys owner c.1).length
            ((c.2.maxActive owner).getD 0) := c.2.length_liveKeys_effect c.1 _ owner
      _ ≤ _ := max_le_max_right _ hbefore

/-- **A dead key stays dead**, whatever is called later. -/
theorem dead_after {calls : List (ℤ × KeyCall)} (hclock : Clocked calls) {a : Admin} {t : ℤ}
    (ht : ∀ c ∈ calls, t ≤ c.1) {r : ApiKeyRow} (hr : r ∈ a.apiKeys.rows) (hdead : ¬r.live t) :
    ∃ r' ∈ (a.after calls).apiKeys.rows, r'.hash = r.hash ∧
      ∀ now, t ≤ now → (∀ c ∈ calls, c.1 ≤ now) → ¬r'.live now := by
  induction calls generalizing a t r with
  | nil => exact ⟨r, hr, rfl, fun now hle _ h => hdead (ApiKeyRow.live_of_le hle h)⟩
  | cons c calls ih =>
    obtain ⟨hfirst, hclock⟩ := List.pairwise_cons.mp hclock
    obtain ⟨g, new, hheir, hrows, -⟩ := c.2.rows c.1 a
    have hr' : g r ∈ (c.2.effect c.1 a).2.apiKeys.rows := by
      rw [hrows]
      exact List.mem_append_left _ (List.mem_map_of_mem hr)
    have hdead' : ¬(g r).live c.1 := by
      intro h
      apply hdead
      exact ApiKeyRow.live_of_le (ht c List.mem_cons_self) ((hheir r).lives c.1 le_rfl h)
    obtain ⟨r', hmem, hhash, hnever⟩ := ih hclock (fun c' hc' => hfirst c' hc') hr' hdead'
    refine ⟨r', hmem, hhash.trans (hheir r).hash, fun now _ hnow => ?_⟩
    exact hnever now (hnow c List.mem_cons_self) fun c' hc' => hnow c' (List.mem_cons_of_mem c hc')

end Admin

/-- A dead key authorizes nothing. -/
theorem unauthorized_of_dead {cfg : FaucetConfig} {s : State} {r : ApiKeyRow} {now : ℤ}
    (hr : r ∈ s.admin.apiKeys.rows) (hdead : ¬r.live now) (requestedSats : Option ℕ) :
    authorizeKeyPayout cfg s r.hash requestedSats now = .error .unauthorized := by
  have hfind : s.admin.apiKeys.find? r.hash = some r := Table.find?_eq_some.mpr ⟨hr, rfl⟩
  unfold authorizeKeyPayout
  rw [hfind]
  show (if !cfg.keysEnabled || !r.live now then _ else _) = _
  rw [Bool.not_eq_true _ |>.mp hdead, Bool.not_false, Bool.or_true, if_pos rfl]

/-- **Keys live once.** In every run of calls on keys with a clock that does not go backwards: at
every time no owner has more live keys than the largest cap passed for them; a rotation that
succeeds trades one live key for another; a call that fails changes nothing, its token being new;
and a key that is revoked or has expired is never live again, and never authorizes a payout. -/
theorem keys_live_once {calls : List (ℤ × KeyCall)} (hclock : Clocked calls) :
    (∀ now, (∀ c ∈ calls, c.1 ≤ now) → ∀ owner,
      ((Admin.empty.after calls).liveKeys owner now).length ≤ largestMaxActive owner calls) ∧
    (∀ now input hash id key a', input.replacing = some id →
      (Admin.empty.after calls).issueOwnKey input hash now = (.ok key, a') →
      Admin.Rotated input.who id hash now (Admin.empty.after calls) key a') ∧
    (∀ now (c : KeyCall), c.Fresh (Admin.empty.after calls) →
      (c.effect now (Admin.empty.after calls)).1 = false →
      (c.effect now (Admin.empty.after calls)).2 = Admin.empty.after calls) ∧
    (∀ calls' t, Clocked (calls ++ calls') → (∀ c ∈ calls', t ≤ c.1) →
      ∀ r ∈ (Admin.empty.after calls).apiKeys.rows, ¬r.live t →
      ∀ now, t ≤ now → (∀ c ∈ calls', c.1 ≤ now) →
      ∀ s : State, s.admin = Admin.empty.after (calls ++ calls') →
        (∀ r' ∈ s.admin.apiKeys.rows, r'.hash = r.hash → ¬r'.live now) ∧
        ∀ cfg requestedSats,
          authorizeKeyPayout cfg s r.hash requestedSats now = .error .unauthorized) := by
  refine ⟨fun now hnow owner => Admin.capped hclock hnow owner,
    fun now input hash id key a' hreplacing h => Admin.issueOwnKey_rotated hreplacing h,
    fun now c hfresh h => KeyCall.unchanged_of_failed hfresh h, ?_⟩
  intro calls' t hclock' ht r hr hdead now hle hnow s hs
  obtain ⟨-, hclock', -⟩ := List.pairwise_append.mp hclock'
  -- the row is still there after the later calls, as dead as before
  obtain ⟨r', hr', hhash, hnever⟩ := Admin.dead_after hclock' ht hr hdead
  have happ : Admin.empty.after (calls ++ calls') = (Admin.empty.after calls).after calls' :=
    List.foldl_append
  rw [← happ, ← hs] at hr'
  have hdead' := hnever now hle hnow
  refine ⟨fun r'' hr'' heq => ?_, fun cfg requestedSats => ?_⟩
  · rwa [show r'' = r' from Table.eq_of_key hr'' hr' (heq.trans hhash.symm)]
  · rw [← hhash]
    exact unauthorized_of_dead hr' hdead' requestedSats

/-- A key, issued at 0 to expire at 100, is rotated at 10; the migration at 50 lifts the expiry of
its successor. The old key never pays again, and a second key is refused. -/
theorem keys_live_once_rotated :
    ∃ calls : List (ℤ × KeyCall), Clocked calls ∧
      ((Admin.empty.after calls).liveKeys "gh:1" 1000).length ≤ 1 ∧
      (∀ s : State, s.admin = Admin.empty.after calls → ∀ cfg,
        authorizeKeyPayout cfg s "aaaaaaaaaaaaaa" none 1000 = .error .unauthorized) := by
  let issue : KeyCall :=
    .issueOwnKey { who := "gh:1", maxActive := 1, ttlMs := 100 } "aaaaaaaaaaaaaa"
  let rotate : KeyCall := .issueOwnKey
    { who := "gh:1", maxActive := 1, ttlMs := 100, replacing := some "aaaaaaaaaaaa" }
      "bbbbbbbbbbbbbb"
  let again : KeyCall :=
    .issueOwnKey { who := "gh:1", maxActive := 1, ttlMs := 100 } "cccccccccccccc"
  have hclock : Clocked [(0, issue), (10, rotate), (50, .migrateAccounts false), (60, again)] := by
    simp [Clocked]
  refine ⟨_, hclock, ?_, ?_⟩
  · have hcap := (keys_live_once hclock).1 1000 (by simp) "gh:1"
    exact hcap.trans (by decide +kernel)
  · -- the first key, after the rotation
    obtain ⟨-, -, -, hnever⟩ := keys_live_once (hclock.sublist (List.sublist_append_left _ _) :
      Clocked [(0, issue), (10, rotate)])
    intro s hs cfg
    have hrow : ∃ r ∈ (Admin.empty.after [(0, issue), (10, rotate)]).apiKeys.rows,
        r.hash = "aaaaaaaaaaaaaa" ∧ ¬r.live 10 := by decide +kernel
    obtain ⟨r, hr, hhash, hdead⟩ := hrow
    rw [← hhash]
    exact (hnever _ 10 hclock (by simp) r hr hdead 1000 (by decide) (by simp) s hs).2 cfg none

end DashFaucet
