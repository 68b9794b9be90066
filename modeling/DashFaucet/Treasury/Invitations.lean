import DashFaucet.Treasury.Maintenance

/-!
# Invitation vouchers

`issueInvitation` and `maintainInvitations`: the inventory of pre-minted asset locks, from the
broadcast through the ChainLock to the holder and back.

The source asks Platform about a batch of vouchers at once; the model asks one after the other,
and only then works through the answers.
-/

namespace DashFaucet

open Async

/-- The credit output of an invitation asset lock: everything not fee or change. -/
def voucherAmount (built : BuiltTx) : ℤ :=
  built.totalIn - built.fee - (built.ownOutputs.map OwnOutput.satoshis).sum

/-- An erased secret. -/
def EncryptedSecret.erased : EncryptedSecret := ⟨"", ""⟩

namespace State

/-- `UPDATE invitation_inventory SET f WHERE id = ?`. -/
def updateVoucher (id : String) (f : InvitationRow → InvitationRow)
    (hkey : ∀ r, key (f r) = key r := by intro r; rfl)
    (halt : ∀ r, alt (f r) = alt r := by intro r; rfl) : State → State :=
  withLedger fun l => { l with inventory := l.inventory.update (fun r => r.id = id) f hkey halt }

/-- A voucher that is written goes on as it was written; the others stay. -/
theorem mem_updateVoucher {id : String} {g : InvitationRow → InvitationRow}
    {hkey : ∀ r, key (g r) = key r} {halt : ∀ r, alt (g r) = alt r}
    {row : InvitationRow} {s : State} :
    row ∈ (s.updateVoucher id g hkey halt).ledger.inventory.rows ↔
      (row ∈ s.ledger.inventory.rows ∧ row.id ≠ id) ∨
        ∃ r ∈ s.ledger.inventory.rows, r.id = id ∧ g r = row := by
  have hmem : row ∈ (s.updateVoucher id g hkey halt).ledger.inventory.rows ↔
      ∃ r ∈ s.ledger.inventory.rows, (if r.id = id then g r else r) = row := by
    rw [updateVoucher, withLedger]
    simp [Table.mem_update]
  rw [hmem]
  constructor
  · rintro ⟨r, hr, rfl⟩
    by_cases hid : r.id = id
    · exact .inr ⟨r, hr, hid, (if_pos hid).symm⟩
    · rw [if_neg hid]
      exact .inl ⟨hr, hid⟩
  · rintro (⟨hr, hid⟩ | ⟨r, hr, hid, rfl⟩)
    · exact ⟨row, hr, if_neg hid⟩
    · exact ⟨r, hr, if_pos hid⟩

/-- The holder claimed the voucher: retire it. -/
def claimVoucher (id : String) : State → State :=
  updateVoucher id fun r => { r with state := .claimed, secret := .erased }

/-- The secret cannot be opened. -/
def failVoucher (id : String) : State → State :=
  updateVoucher id fun r => { r with state := .failed }

/-- The asset lock was rejected: the secret has nothing to open. -/
def discardVoucher (id : String) : State → State :=
  updateVoucher id fun r => { r with state := .failed, secret := .erased }

/-- Give the voucher out. -/
def issueVoucher (id deviceHash : String) (now : ℤ) : State → State :=
  updateVoucher id fun r =>
    { r with state := .issued, deviceHash := some deviceHash, issuedAt := some now }

/-- Take an expired voucher back. -/
def recycleVoucher (id : String) : State → State :=
  updateVoucher id fun r => { r with state := .available, deviceHash := none, issuedAt := none }

/-- The asset lock is in a ChainLocked block. -/
def confirmVoucher (id : String) (height : ℤ) : State → State :=
  updateVoucher id fun r => { r with state := .available, chainLockedHeight := some height }

/-- The asset lock was accepted. -/
def awaitVoucher (id : String) : State → State :=
  updateVoucher id fun r => { r with state := .awaitingChainlock }

/-- Recover the amount of vouchers minted before it was stored. -/
def backfillInvitationAmounts : State → State :=
  withLedger fun l =>
    { l with
      inventory := l.inventory.update (fun r => r.amountSats.isNone) fun r =>
        { r with amountSats := some (voucherAmount r.built) } }

theorem mem_backfillInvitationAmounts {row : InvitationRow} {s : State} :
    row ∈ s.backfillInvitationAmounts.ledger.inventory.rows ↔ ∃ r ∈ s.ledger.inventory.rows,
      (if r.amountSats.isNone then { r with amountSats := some (voucherAmount r.built) } else r) =
        row := by
  rw [backfillInvitationAmounts, withLedger]
  simp [Table.mem_update]

/-- `INSERT INTO invitation_hits` for the two signals of a request. -/
def recordInvitationHits (ipHash deviceHash : String) (now : ℤ) : State → State :=
  withLedger fun l =>
    { l with
      invitationHits := l.invitationHits ++ [⟨.ip, ipHash, now⟩, ⟨.device, deviceHash, now⟩] }

/-- The instants of the issuances to a signal within the window. -/
def invitationHitTimes (kind : SignalKind) (valueHash : String) (since : ℤ) (s : State) :
    List ℤ :=
  (s.ledger.invitationHits.filter fun h =>
    h.kind = kind ∧ h.valueHash = valueHash ∧ h.createdAt > since).map InvitationHit.createdAt

end State

namespace Faucet

variable (f : Faucet)

/-- Decrypt a voucher's key and build its link. -/
def openVoucher (row : InvitationRow) (expiresAt : ℤ) : Prog IssuedInvitation := do
  let wif : Except String String ← ask (Query.decryptWif row.secret)
  match wif with
  | .ok wif => pure ⟨invitationUri row.txid wif, row.txid, expiresAt⟩
  | .error e => .throw (.error e)

/-! ### Issuing -/

/-- The vouchers a device got less than `ttlMs` ago, latest first. -/
def priorVouchers (s : State) (deviceHash : String) (now : ℤ) : List InvitationRow :=
  (s.ledger.inventory.rows.filter fun r => r.state = .issued ∧ r.deviceHash = some deviceHash ∧
    r.issuedAt.any fun t => decide (t > now - f.cfg.invitations.ttlMs)).insertionSort
      fun a b => b.issuedAt.getD 0 ≤ a.issuedAt.getD 0

/-- Hand the prior vouchers of a device out again. -/
def replay (prior : List InvitationRow) : Prog InvitationIssueResult := do
  match ← attempt (forEach (fun row => openVoucher row
    (row.issuedAt.getD 0 + f.cfg.invitations.ttlMs)) prior) with
  | .ok invitations => pure (.ok invitations true)
  | .error _ => pure (.error "invitation could not be opened")

/-- The seconds until a signal is out of the window; 0 when it is. -/
def signalRetryAfter (s : State) (kind : SignalKind) (valueHash : String) (now : ℤ) : ℤ :=
  let window := f.cfg.invitations.rateWindowMs
  let hits := s.invitationHitTimes kind valueHash (now - window)
  if hits.length > 0 then windowRetryAfter window now hits else 0

/-- The vouchers on offer, oldest first. -/
def candidates (s : State) (limit : ℕ) : List InvitationRow :=
  ((s.ledger.inventory.rows.filter fun r => r.state = .available ∧
    r.amountSats = some (f.cfg.invitations.amountSats : ℤ)).insertionSort
      fun a b => a.createdAt ≤ b.createdAt).take limit

/-- What the issuance loop has so far. -/
structure Batch where
  invitations : List IssuedInvitation
  explorerDown : Bool
  decryptFailed : Bool
  deriving DecidableEq, Repr

/-- Work through one candidate with Platform's answer about it. -/
def offer (input : InvitationIssueRequest) (now : ℤ) (b : Batch) (row : InvitationRow) :
    Option Bool → Prog Batch
  -- left available: nobody knows whether it was claimed
  | none => pure { b with explorerDown := true }
  | some true => do
    modify (State.claimVoucher row.id)
    pure b
  | some false => do
    match ← attempt (openVoucher row (now + f.cfg.invitations.ttlMs)) with
    -- a secret that does not open is not tried again
    | .error _ =>
      modify (State.failVoucher row.id)
      pure { b with decryptFailed := true }
    | .ok opened =>
      modify (State.issueVoucher row.id input.deviceHash now)
      note (.issued row)
      pure { b with invitations := b.invitations ++ [opened] }

/-- Work through a batch of candidates in order. -/
def offerAll (input : InvitationIssueRequest) (now : ℤ) :
    Batch → List (InvitationRow × Option Bool) → Prog Batch
  | b, [] => pure b
  | b, (row, claimed) :: rest => do
    let b ← f.offer input now b row claimed
    offerAll input now b rest

/-- `platformIdentityExists`. -/
def platformIdentityExists (row : InvitationRow) : Prog (Option Bool) :=
  ask (Query.identity row.prospectiveIdentityId)

/-- The issuance loop: until there are `count`, or no candidate is left, or Platform is silent.
Every round but the last takes a voucher off the shelf, so `fuel`, the number of rows, is
enough. -/
def issueLoop (input : InvitationIssueRequest) (count : ℕ) (now : ℤ) : ℕ → Batch → Prog Batch
  | 0, b => pure b
  | fuel + 1, b => do
    if b.invitations.length < count ∧ !b.explorerDown then
      let s ← read
      let rows := f.candidates s (count - b.invitations.length)
      if rows.isEmpty then pure b
      else do
        -- asked in parallel: the whole batch holds the lock
        let claims ← forEach platformIdentityExists rows
        let b ← f.offerAll input now b (rows.zip claims)
        issueLoop input count now fuel b
    else pure b

/-- Issue up to `count` fresh vouchers. -/
def issueFresh (input : InvitationIssueRequest) (count : ℕ) (now : ℤ) :
    Prog InvitationIssueResult := do
  let s ← read
  let b ← f.issueLoop input count now (s.ledger.inventory.rows.length + 1) ⟨[], false, false⟩
  if b.invitations.isEmpty then
    if b.explorerDown then pure .platformUnavailable
    else if b.decryptFailed then pure (.error "invitation could not be opened")
    else pure .unavailable
  else do
    -- a batch is one issuance as far as the window is concerned
    modify (State.recordInvitationHits input.ipHash input.deviceHash now)
    pure (.ok b.invitations false)

def issueInvitationLocked (input : InvitationIssueRequest) (now : ℤ) :
    Prog InvitationIssueResult :=
  let cfg := f.cfg.invitations
  if !cfg.enabled then pure .unavailable
  else do
    let count := max 1 (min (input.count.getD 1) cfg.maxPerRequest)
    modify (State.prune f.cfg now)
    let s ← read
    -- with the window disabled a repeat request must hand out fresh vouchers
    if cfg.rateWindowMs > 0 then
      let prior := f.priorVouchers s input.deviceHash now
      if prior.length > 0 then f.replay prior
      else
        let retryAfter := max (f.signalRetryAfter s .ip input.ipHash now)
          (f.signalRetryAfter s .device input.deviceHash now)
        if retryAfter > 0 then pure (.rateLimited retryAfter)
        else f.issueFresh input count now
    else f.issueFresh input count now

/-! ### Maintaining the inventory -/

/-- Ask Platform about an expired voucher: retire it or take it back. The result counts it as
claimed or recycled. -/
def reclaim (row : InvitationRow) : Prog (Option Bool) := do
  let exists? ← platformIdentityExists row
  match exists? with
  | none => pure none
  | some true =>
    modify (State.claimVoucher row.id)
    pure (some true)
  | some false =>
    modify (State.recycleVoucher row.id)
    pure (some false)

/-- Move one unconfirmed voucher along. The result says whether it advanced. -/
def follow (now : ℤ) (row : InvitationRow) : Prog Bool := do
  match ← attempt (f.chain.getChainLockStatus row.txid) with
  | .error _ => pure false
  | .ok status =>
    match status.chainLocked, status.height with
    | true, some height =>
      -- in doubt till now: the spend was never recorded
      if row.state = .broadcastUnknown then modify (State.recordSpend row.built now) else pure ()
      modify (State.confirmVoucher row.id height)
      pure true
    | _, _ =>
      -- nobody knows it: broadcast it again
      if row.state = .broadcastUnknown ∧ !status.known then
        match ← f.settleBroadcast row.built now with
        | .ok _ =>
          modify (State.recordSpend row.built now)
          modify (State.awaitVoucher row.id)
          pure true
        | .failed _ uncertain =>
          if uncertain then pure ()
          else modify (State.discardVoucher row.id)
          pure false
      else pure false

/-- Mint one voucher; `some detail` says why none was. -/
def mintInvitation (now : ℤ) : Prog (Option String) := do
  let key ← f.key
  match ← attempt (f.spendableUtxos key now) with
  | .error e => pure (some (describeError e))
  | .ok view =>
    let voucher : VoucherKey ← ask Query.voucherKey
    match ← attempt (f.dash.buildInvitationAssetLock key view.utxos voucher.publicKeyHash
      f.cfg.invitations.amountSats) with
    | .error e => pure (some (describeError e))
    | .ok built =>
      note (.built built)
      -- the key is stored before anything is broadcast
      let secret : EncryptedSecret ← ask (Query.encryptWif voucher.wif)
      let id : String ← ask Query.randomUUID
      let prospectiveIdentityId ← ofExcept (prospectiveIdentityId f.sha256 built.txid)
      let row : InvitationRow :=
        { id, txid := built.txid, built, secret, prospectiveIdentityId
          amountSats := some f.cfg.invitations.amountSats, state := .broadcastUnknown
          chainLockedHeight := none, deviceHash := none, issuedAt := none, createdAt := now }
      let s ← read
      match s.ledger.inventory.insert? row with
      | none => .throw (.error "UNIQUE constraint failed: invitation_inventory")
      | some inventory =>
        modify (State.withLedger fun l => { l with inventory })
        note (.minted row)
        match ← f.settleBroadcast built now with
        | .ok _ =>
          modify (State.recordSpend built now)
          modify (State.awaitVoucher id)
          pure none
        | .failed _ uncertain =>
          -- it may be live: the row stays, to be followed
          if uncertain then pure none
          else do
            modify (State.discardVoucher id)
            pure (some "asset-lock broadcast rejected")

/-- Refill the inventory; stop at the first voucher that could not be minted. -/
def refillInventory (now : ℤ) : ℕ → ℕ → Prog (ℕ × Option String)
  | 0, minted => pure (minted, none)
  | missing + 1, minted => do
    match ← f.mintInvitation now with
    | some detail => pure (minted, some detail)
    | none => refillInventory now missing (minted + 1)

def maintainInvitationsLocked (now : ℤ) : Prog InvitationMaintenanceResult :=
  let cfg := f.cfg.invitations
  if !cfg.enabled then pure ⟨.disabled, "invitations disabled"⟩
  else if f.cfg.dryRun then pure ⟨.none, "dry run: invitation inventory unchanged"⟩
  else do
    modify (State.prune f.cfg now)
    modify State.backfillInvitationAmounts
    let s ← read
    -- reservations that ran out: claimed by now, or free again
    let expired := s.ledger.inventory.rows.filter fun r => r.state = .issued ∧
      r.issuedAt.any fun t => decide (t ≤ now - cfg.ttlMs)
    let reclaimed ← forEach reclaim expired
    let claimed := (reclaimed.filter (· = some true)).length
    let recycled := (reclaimed.filter (· = some false)).length
    let s ← read
    -- asset locks on their way
    let unconfirmed := s.ledger.inventory.rows.filter fun r =>
      r.state = .broadcastUnknown ∨ r.state = .awaitingChainlock
    let followed ← forEach (f.follow now) unconfirmed
    let advanced := (followed.filter id).length
    let s ← read
    -- refill what is neither there nor under way
    let counts := f.invitationCounts s
    let (minted, stopped) ←
      f.refillInventory now (cfg.inventoryTarget - (counts.available + counts.preparing)) 0
    match stopped with
    | some detail =>
      pure ⟨if minted > 0 then .minted else .blocked,
        s!"{minted} voucher(s) minted; refill stopped: {detail}"⟩
    | none =>
      if minted > 0 then pure ⟨.minted, s!"{minted} voucher(s) awaiting ChainLock"⟩
      else if recycled + claimed + advanced > 0 then
        pure ⟨.updated, s!"{advanced} ready, {recycled} recycled, {claimed} claimed"⟩
      else pure ⟨.none, "invitation inventory unchanged"⟩

end Faucet

end DashFaucet
