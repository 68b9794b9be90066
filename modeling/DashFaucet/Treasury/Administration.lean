import DashFaucet.Treasury.System

/-!
# What administration leaves alone

Calls run at any time between the awaits of an operation. Whatever they do to the accounts, a key
keeps what limits it, a code keeps what was redeemed, and a new row starts at zero
(`Administered`).

* `Call.administered`: the effect of every call.
-/

namespace DashFaucet

/-- `row'` is a later version of `row`: what identifies and limits the key is the same. -/
structure SameKey (row row' : ApiKeyRow) : Prop where
  hash : row'.hash = row.hash
  id : row'.id = row.id
  tier : row'.tier = row.tier
  perDay : row'.perDay = row.perDay

theorem SameKey.refl (row : ApiKeyRow) : SameKey row row := ⟨rfl, rfl, rfl, rfl⟩

theorem SameKey.trans {r r' r'' : ApiKeyRow} (h : SameKey r r') (h' : SameKey r' r'') :
    SameKey r r'' :=
  ⟨h'.hash.trans h.hash, h'.id.trans h.id, h'.tier.trans h.tier, h'.perDay.trans h.perDay⟩

/-- Besides, nothing was paid on the key in between. -/
structure SameUsage (row row' : ApiKeyRow) : Prop extends SameKey row row' where
  payouts : row'.payouts = row.payouts
  paidSats : row'.paidSats = row.paidSats

theorem SameUsage.refl (row : ApiKeyRow) : SameUsage row row := ⟨.refl row, rfl, rfl⟩

theorem SameUsage.trans {r r' r'' : ApiKeyRow} (h : SameUsage r r') (h' : SameUsage r' r'') :
    SameUsage r r'' :=
  ⟨h.toSameKey.trans h'.toSameKey, h'.payouts.trans h.payouts, h'.paidSats.trans h.paidSats⟩

/-- How administration may change the accounts. -/
structure Administered (a a' : Admin) : Prop where
  /-- No key goes, and none changes in what counts. -/
  keys : ∀ row ∈ a.apiKeys.rows, ∃ row' ∈ a'.apiKeys.rows, SameUsage row row'
  /-- A key is an old one, or new and unused. -/
  newKeys : ∀ row' ∈ a'.apiKeys.rows, (∃ row ∈ a.apiKeys.rows, SameUsage row row') ∨
    (row'.payouts = 0 ∧ row'.paidSats = 0 ∧
      ∀ row ∈ a.apiKeys.rows, row.hash ≠ row'.hash ∧ row.id ≠ row'.id)
  /-- No code goes, and none loses or gains a redemption. -/
  codes : ∀ row ∈ a.codes.rows, ∃ row' ∈ a'.codes.rows, row'.id = row.id ∧
    row'.redemptions = row.redemptions
  /-- A code is an old one, or new and unredeemed. -/
  newCodes : ∀ row' ∈ a'.codes.rows, (∃ row ∈ a.codes.rows, row'.id = row.id ∧
    row'.redemptions = row.redemptions) ∨
      (row'.redemptions = 0 ∧ ∀ row ∈ a.codes.rows, row.id ≠ row'.id)

namespace Administered

variable {a a' a'' : Admin}

/-- Where the two tables are the same, nothing happened. -/
theorem of_eq (hkeys : a'.apiKeys = a.apiKeys) (hcodes : a'.codes = a.codes) :
    Administered a a' where
  keys row hrow := ⟨row, hkeys ▸ hrow, .refl row⟩
  newKeys row hrow := .inl ⟨row, hkeys ▸ hrow, .refl row⟩
  codes row hrow := ⟨row, hcodes ▸ hrow, rfl, rfl⟩
  newCodes row hrow := .inl ⟨row, hcodes ▸ hrow, rfl, rfl⟩

theorem refl (a : Admin) : Administered a a := of_eq rfl rfl

theorem trans (h : Administered a a') (h' : Administered a' a'') : Administered a a'' where
  keys row hrow := by
    obtain ⟨row', hrow', hsame⟩ := h.keys row hrow
    obtain ⟨row'', hrow'', hsame'⟩ := h'.keys row' hrow'
    exact ⟨row'', hrow'', hsame.trans hsame'⟩
  newKeys row'' hrow'' := by
    rcases h'.newKeys row'' hrow'' with ⟨row', hrow', hsame'⟩ | ⟨hpay, hpaid, hfresh⟩
    -- a later row comes from a middle row, or is fresh
    · rcases h.newKeys row' hrow' with ⟨row, hrow, hsame⟩ | ⟨hpay, hpaid, hfresh⟩
      · exact .inl ⟨row, hrow, hsame.trans hsame'⟩
      · refine .inr ⟨hsame'.payouts.trans hpay, hsame'.paidSats.trans hpaid, fun row hrow => ?_⟩
        rw [hsame'.hash, hsame'.id]
        exact hfresh row hrow
    · -- fresh next to the later rows, so next to the earlier ones
      refine .inr ⟨hpay, hpaid, fun row hrow => ?_⟩
      obtain ⟨row', hrow', hsame⟩ := h.keys row hrow
      rw [← hsame.hash, ← hsame.id]
      exact hfresh row' hrow'
  codes row hrow := by
    obtain ⟨row', hrow', hid, hred⟩ := h.codes row hrow
    obtain ⟨row'', hrow'', hid', hred'⟩ := h'.codes row' hrow'
    exact ⟨row'', hrow'', hid'.trans hid, hred'.trans hred⟩
  newCodes row'' hrow'' := by
    rcases h'.newCodes row'' hrow'' with ⟨row', hrow', hid', hred'⟩ | ⟨hred, hfresh⟩
    · rcases h.newCodes row' hrow' with ⟨row, hrow, hid, hred⟩ | ⟨hred, hfresh⟩
      · exact .inl ⟨row, hrow, hid'.trans hid, hred'.trans hred⟩
      · refine .inr ⟨hred'.trans hred, fun row hrow => ?_⟩
        rw [hid']
        exact hfresh row hrow
    · refine .inr ⟨hred, fun row hrow => ?_⟩
      obtain ⟨row', hrow', hid, -⟩ := h.codes row hrow
      rw [← hid]
      exact hfresh row' hrow'

/-- An update of the keys that leaves alone what counts. -/
theorem updateKeys (a : Admin) {p : ApiKeyRow → Bool} {g : ApiKeyRow → ApiKeyRow} {hkey halt}
    (hg : ∀ row, SameUsage row (g row)) :
    Administered a { a with apiKeys := a.apiKeys.update p g hkey halt } where
  keys row hrow := by
    have hsame : SameUsage row (if p row then g row else row) := by
      split
      · exact hg row
      · exact .refl row
    exact ⟨_, Table.mem_update_of_mem hkey halt hrow, hsame⟩
  newKeys row' hrow' := by
    simp only [Table.mem_update] at hrow'
    obtain ⟨row, hrow, rfl⟩ := hrow'
    refine .inl ⟨row, hrow, ?_⟩
    split
    · exact hg row
    · exact .refl row
  codes row hrow := ⟨row, hrow, rfl, rfl⟩
  newCodes row hrow := .inl ⟨row, hrow, rfl, rfl⟩

/-- An update of the codes that leaves the redemptions alone. -/
theorem updateCodes (a : Admin) {p : CodeRow → Bool} {g : CodeRow → CodeRow} {hkey halt}
    (hg : ∀ row, (g row).id = row.id ∧ (g row).redemptions = row.redemptions) :
    Administered a { a with codes := a.codes.update p g hkey halt } where
  keys row hrow := ⟨row, hrow, .refl row⟩
  newKeys row hrow := .inl ⟨row, hrow, .refl row⟩
  codes row hrow := by
    refine ⟨_, Table.mem_update_of_mem hkey halt hrow, ?_⟩
    split
    · exact hg row
    · exact ⟨rfl, rfl⟩
  newCodes row' hrow' := by
    simp only [Table.mem_update] at hrow'
    obtain ⟨row, hrow, rfl⟩ := hrow'
    refine .inl ⟨row, hrow, ?_⟩
    split
    · exact hg row
    · exact ⟨rfl, rfl⟩

/-- A minted key is new and unused. -/
theorem mintKey {input : MintKeyInput} {hash : String} {now : ℤ} {key : ApiKeyRow}
    (h : a.mintKey input hash now = some (key, a')) : Administered a a' := by
  obtain ⟨apiKeys, hins, heq⟩ := Option.map_eq_some_iff.mp h
  cases heq
  obtain ⟨hrows, hfresh⟩ := Table.insert?_eq_some hins
  refine ⟨fun row hrow => ?_, fun row hrow => ?_, fun row hrow => ⟨row, hrow, rfl, rfl⟩,
    fun row hrow => .inl ⟨row, hrow, rfl, rfl⟩⟩
  · exact ⟨row, by rw [hrows]; exact List.mem_append_left _ hrow, .refl row⟩
  · rw [hrows] at hrow
    rcases List.mem_append.mp hrow with hrow | hrow
    · exact .inl ⟨row, hrow, .refl row⟩
    · rw [List.mem_singleton.mp hrow]
      exact .inr ⟨rfl, rfl, hfresh⟩

/-- Inserted codes are new and unredeemed, however far the insertion got. -/
theorem insertCodes (input : NewCodes) (batch : Option String) (now : ℤ)
    (pairs : List (String × String)) (a : Admin) :
    Administered a { a with codes := Admin.insertCodes input batch now pairs a.codes } := by
  induction pairs generalizing a with
  | nil => exact refl a
  | cons pair pairs ih =>
    obtain ⟨code, id⟩ := pair
    unfold Admin.insertCodes
    split
    · exact refl a
    · next t hins =>
      obtain ⟨hrows, hfresh⟩ := Table.insert?_eq_some hins
      -- one row at a time
      suffices hone : Administered a { a with codes := t } from hone.trans (ih _)
      refine ⟨fun row hrow => ⟨row, hrow, .refl row⟩, fun row hrow => .inl ⟨row, hrow, .refl row⟩,
        fun row hrow => ?_, fun row hrow => ?_⟩
      · exact ⟨row, by rw [hrows]; exact List.mem_append_left _ hrow, rfl, rfl⟩
      · rw [hrows] at hrow
        rcases List.mem_append.mp hrow with hrow | hrow
        · exact .inl ⟨row, hrow, rfl, rfl⟩
        · rw [List.mem_singleton.mp hrow]
          exact .inr ⟨rfl, fun row' hrow' => (hfresh row' hrow').1⟩

end Administered

/-- A self-serve key: at most one key is revoked and one minted. -/
theorem Admin.issueOwnKey_administered (input : IssueOwnKeyInput) (hash : String) (now : ℤ)
    (a : Admin) : Administered a (a.issueOwnKey input hash now).2 := by
  refine issueOwnKey_keeps (.refl a) (fun old _ _ => ?_) fun m a' _ hkept key a'' hmint => ?_
  · exact .updateKeys a fun row => ⟨⟨rfl, rfl, rfl, rfl⟩, rfl, rfl⟩
  · exact hkept.trans (.mintKey hmint)

/-- **Every call is administration.** -/
theorem Call.administered (cfg : FaucetConfig) (now : ℤ) (a : Admin) (c : Call) :
    Administered a (c.effect cfg now a) := by
  cases c with
  | createApiKey input hash =>
    -- a hash or an id that is taken makes the insert fail, and nothing is kept
    simp only [effect, Admin.createApiKey]
    cases h : a.mintKey input hash now with
    | none => exact .refl a
    | some minted => exact .mintKey h
  | revokeApiKey id owner admin =>
    -- the revocation keeps the ids, the hashes and the usage of the rows it touches
    exact .updateKeys a fun row => ⟨⟨rfl, rfl, rfl, rfl⟩, rfl, rfl⟩
  | issueOwnKey input hash => exact a.issueOwnKey_administered input hash now
  | createCodes input batch ids =>
    simp only [effect, Admin.createCodes]
    split
    · exact .refl a
    · exact .insertCodes ..
  | updateCode id patch editor =>
    simp only [effect, Admin.updateCode]
    split
    · exact .refl a
    · exact .updateCodes a fun row => ⟨rfl, rfl⟩
  -- captcha rows only
  | consumeCapToken token expiresAt =>
    simp only [effect, Admin.consumeCapToken]
    split <;> exact .of_eq rfl rfl
  | migrateAccounts =>
    simp only [effect, Admin.migrateAccounts]
    split
    · exact .refl a
    -- the owners are rewritten, nothing else
    · exact .updateKeys a fun row => ⟨⟨rfl, rfl, rfl, rfl⟩, rfl, rfl⟩

end DashFaucet
