import DashFaucet.Treasury.State

/-!
# Keys and codes

The part of the Treasury that administration and the captcha call without the spending lock:
minting, revoking and rotating API keys, creating and editing redemption codes (`accounts.ts`),
and the spent-set of capTokens. Each call is synchronous SQL, so it is a function on `Admin`; what
it draws at random (a token's hash, the ids of codes) is an argument.
-/

namespace DashFaucet

/-! ### API keys -/

/-- Short, non-secret handle for listing and revoking a key. -/
def keyId (hash : String) : String := String.ofList (hash.toList.take 12)

/-- Per-day payout count a new key of each tier gets unless the admin overrides it. -/
def defaultPerDay : KeyTier → Option ℕ
  | .trusted => none
  | .mn => some 1

/-- `perDay` is `none` when the field is left out, `some none` for no limit. -/
structure MintKeyInput where
  label : String
  tier : KeyTier
  perDay : Option (Option ℕ) := none
  owner : Option String := none
  expiresAt : Option ℤ := none
  createdBy : Option String := none
  deriving DecidableEq, Repr

structure IssueOwnKeyInput where
  who : String
  label : Option String := none
  maxActive : ℕ
  ttlMs : ℤ
  replacing : Option String := none
  deriving DecidableEq, Repr

inductive IssueOwnKeyResult where
  | ok (key : ApiKeyRow)
  | limit
  | notFound
  /-- The insert broke a `UNIQUE` column and threw. -/
  | conflict
  deriving DecidableEq, Repr

/-- A key that is neither revoked nor expired. -/
def ApiKeyRow.live (row : ApiKeyRow) (now : ℤ) : Bool :=
  row.revokedAt.isNone && row.expiresAt.all fun t => decide (t > now)

namespace Admin

/-- Mint an API key; `none` when the insert breaks a `UNIQUE` column. -/
def mintKey (input : MintKeyInput) (hash : String) (now : ℤ) (a : Admin) :
    Option (ApiKeyRow × Admin) :=
  let row : ApiKeyRow :=
    { hash, id := keyId hash, label := input.label, tier := input.tier
      perDay := input.perDay.getD (defaultPerDay input.tier), createdAt := now, revokedAt := none
      lastUsedAt := none, payouts := 0, paidSats := 0, owner := input.owner
      expiresAt := input.expiresAt, createdBy := input.createdBy.or input.owner
      revokedBy := none }
  (a.apiKeys.insert? row).map fun apiKeys => (row, { a with apiKeys })

/-- An admin's key. -/
def createApiKey (input : MintKeyInput) (hash : String) (now : ℤ) (a : Admin) : Admin :=
  ((a.mintKey input hash now).map Prod.snd).getD a

/-- Revoke by id; with `owner`, only one of theirs. -/
def revokeApiKey (id : String) (owner admin : Option String) (now : ℤ) (a : Admin) : Admin :=
  { a with
    apiKeys := a.apiKeys.update
      (fun r => r.id = id ∧ r.revokedAt = none ∧ (owner = none ∨ r.owner = owner))
      fun r => { r with revokedAt := some now, revokedBy := admin.or owner } }

/-- A self-serve `trusted` key, capped at `maxActive` live keys of its owner. With `replacing`,
that key is revoked in the same step. -/
def issueOwnKey (input : IssueOwnKeyInput) (hash : String) (now : ℤ) (a : Admin) :
    IssueOwnKeyResult × Admin :=
  let mint := fun (label : String) (a : Admin) =>
    match a.mintKey { label, tier := .trusted, perDay := some none, owner := some input.who
                      expiresAt := if input.ttlMs > 0 then some (now + input.ttlMs) else none }
      hash now with
    | some (key, a) => (.ok key, a)
    | none => (.conflict, a)
  -- a rotation needs a live key of one's own, and keeps its label
  match input.replacing with
  | some id =>
    match a.apiKeys.rows.find? fun r => r.id = id ∧ r.owner = some input.who ∧ r.live now with
    | none => (.notFound, a)
    | some old =>
      mint old.label
        { a with
          apiKeys := a.apiKeys.update (fun r => r.id = id) fun r =>
            { r with revokedAt := some now, revokedBy := some input.who } }
  | none =>
    -- another key counts against the limit
    let live := a.apiKeys.rows.filter fun r => r.owner = some input.who ∧ r.live now
    if live.length ≥ input.maxActive then (.limit, a)
    else mint (input.label.getD "API key") a

/-- **What revoking one's own key and minting keep, a self-serve key keeps.** -/
theorem issueOwnKey_keeps {P : Admin → Prop} {input : IssueOwnKeyInput} {hash : String} {now : ℤ}
    {a : Admin} (h : P a)
    (hrevoke : ∀ old ∈ a.apiKeys.rows, old.owner = some input.who →
      P { a with
          apiKeys := a.apiKeys.update (fun r => r.id = old.id) fun r =>
            { r with revokedAt := some now, revokedBy := some input.who } })
    (hmint : ∀ (m : MintKeyInput) (a : Admin), m.owner = some input.who → P a →
      ∀ key a', a.mintKey m hash now = some (key, a') → P a') :
    P (a.issueOwnKey input hash now).2 := by
  -- with a key to replace or without, it comes down to a mint
  have hminted : ∀ (m : MintKeyInput) (a : Admin), m.owner = some input.who → P a →
      P (match a.mintKey m hash now with
        | some (key, a) => (IssueOwnKeyResult.ok key, a)
        | none => (.conflict, a)).2 := by
    intro m a howner ha
    split
    · next hsome => exact hmint m a howner ha _ _ hsome
    · exact ha
  unfold issueOwnKey
  dsimp only
  split
  · next id _ =>
    split
    · exact h
    · next old hold =>
      have hspec := List.find?_some hold
      rw [decide_eq_true_eq] at hspec
      obtain ⟨rfl, howner, -⟩ := hspec
      exact hminted _ _ rfl (hrevoke old (List.mem_of_find?_eq_some hold) howner)
  · split
    · exact h
    · exact hminted _ _ rfl h

/-- The part of `migrateAccounts` that touches rows: when self-serve keys no longer expire,
neither do the live ones issued while they did. -/
def migrateAccounts (selfServeKeysExpire : Bool) (now : ℤ) (a : Admin) : Admin :=
  if selfServeKeysExpire then a
  else
    { a with
      apiKeys := a.apiKeys.update
        (fun r => r.owner.isSome && (r.expiresAt.any fun t => decide (t > now)) &&
          r.revokedAt.isNone)
        fun r => { r with expiresAt := none } }

end Admin

/-! ### Codes -/

/-- The characters beyond `a`–`z` whose upper case has an ASCII letter, and those letters. -/
def upperToAscii : List (Char × String) :=
  [('\u00DF', "SS"), ('\u0131', "I"), ('\u0149', "N"), ('\u017F', "S"), ('\u01F0', "J"),
    ('\u1E96', "H"), ('\u1E97', "T"), ('\u1E98', "W"), ('\u1E99', "Y"), ('\u1E9A', "A"),
    ('\uFB00', "FF"), ('\uFB01', "FI"), ('\uFB02', "FL"), ('\uFB03', "FFI"), ('\uFB04', "FFL"),
    ('\uFB05', "ST"), ('\uFB06', "ST")]

/-- What a code is matched on: `toUpperCase()` with everything but `A`–`Z` and `0`–`9` removed. -/
def codeKey (input : String) : String :=
  String.ofList <| input.toList.flatMap fun c =>
    if c.isAlphanum then [c.toUpper]
    else ((upperToAscii.lookup c).map String.toList).getD []

structure NewCodes where
  kind : CodeKind
  codes : List String
  label : String
  amountSats : ℕ
  maxRedemptions : ℕ
  expiresAt : Option ℤ
  createdBy : String
  deriving DecidableEq, Repr

/-- A field left out is `none`; `expiresAt := some none` clears the expiry. -/
structure CodePatch where
  label : Option String := none
  amountSats : Option ℕ := none
  maxRedemptions : Option ℕ := none
  expiresAt : Option (Option ℤ) := none
  disabled : Option Bool := none
  deriving DecidableEq, Repr

namespace Admin

/-- Insert a row for every code, up to the first that breaks a `UNIQUE` column. -/
def insertCodes (input : NewCodes) (batch : Option String) (now : ℤ) :
    List (String × String) → Table CodeRow → Table CodeRow
  | [], t => t
  | (code, id) :: rest, t =>
    match t.insert? { id, code, codeKey := codeKey code, kind := input.kind, label := input.label
                      amountSats := input.amountSats, maxRedemptions := input.maxRedemptions
                      redemptions := 0, expiresAt := input.expiresAt, disabled := false, batch
                      createdBy := input.createdBy, createdAt := now, updatedAt := now
                      updatedBy := none } with
    -- two of one batch alike: the constraint refuses the second
    | none => t
    | some t => insertCodes input batch now rest t

/-- Insert every code or none; `some code` is the first that already exists. -/
def createCodes (input : NewCodes) (batch : String) (ids : List String) (now : ℤ) (a : Admin) :
    Option String × Admin :=
  match input.codes.find? fun code => a.codes.rows.any fun r => r.codeKey = codeKey code with
  | some taken => (some taken, a)
  | none =>
    let batch := if input.codes.length > 1 then some batch else none
    (none, { a with codes := insertCodes input batch now (input.codes.zip ids) a.codes })

/-- Edit a code: a read, and an update of the editable columns only. -/
def updateCode (id : String) (patch : CodePatch) (editor : String) (now : ℤ) (a : Admin) : Admin :=
  match a.codes.find? id with
  | none => a
  | some current =>
    { a with
      codes := a.codes.update (fun r => r.id = id) fun r =>
        -- the redemptions are not the editor's
        { r with
          label := patch.label.getD current.label
          amountSats := patch.amountSats.getD current.amountSats
          maxRedemptions := patch.maxRedemptions.getD current.maxRedemptions
          expiresAt := patch.expiresAt.getD current.expiresAt
          disabled := patch.disabled.getD current.disabled
          updatedAt := now
          updatedBy := some editor } }

/-! ### capTokens -/

/-- Burn a capToken; false if it was already spent. -/
def consumeCapToken (token : String) (expiresAt now : ℤ) (a : Admin) : Bool × Admin :=
  let usedCap := a.usedCap.deleteWhere fun r => r.expiresAt < now
  match usedCap.find? token with
  | some _ => (false, { a with usedCap })
  | none => (true, { a with usedCap := usedCap.insertOrReplace ⟨token, expiresAt⟩ })

/-! ### Keys at a glance -/

/-- Whether `hash` names an active key. -/
def isActiveApiKey (enabled : Bool) (hash : String) (now : ℤ) (a : Admin) : Bool :=
  enabled && a.apiKeys.rows.any fun row => decide (row.hash = hash) && row.live now

end Admin

end DashFaucet
