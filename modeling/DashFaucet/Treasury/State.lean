import DashFaucet.Store.Table
import DashFaucet.Tx

/-!
# The Treasury's storage

The tables of the Treasury's SQLite database, and what a run leaves behind for the theorems.

* `Ledger`: the tables only the operations under the spending lock write.
* `Admin`: the tables that administration and the captcha write without that lock.
* `Event`, `OpRecord`, `State`: the storage together with the record of the run so far: the
  operations that ended and the events of the one that runs. No function of the faucet reads the
  record.

Instants are milliseconds since the epoch. A UTC day is its number since the epoch where the
source writes its ISO date; the two order alike up to the year 9999.
-/

namespace DashFaucet

open Async

def coin : ℕ := 100000000

def hourMs : ℤ := 3600000

def dayMs : ℤ := 86400000

/-- Grace before a `spent` row whose outpoint left the listing is dropped. -/
def spentSettledMs : ℤ := 30 * 60000

/-- How long a `spent` row survives while its outpoint is still listed. -/
def spentStaleMs : ℤ := 24 * hourMs

/-- How long an unconfirmed output of ours stays authoritative over the explorers. -/
def pendingTtlMs : ℤ := hourMs

/-- Core spends a coinbase output only this deep, with one block of margin. -/
def coinbaseMaturity : JsNumber := 101

def maxCoinbaseLookups : ℕ := 6

/-- A regular masternode's collateral. -/
def mnCollateralSats : ℕ := 1000 * coin

/-- A coin that can pay one masternode collateral by itself. -/
def collateralCoinSats : ℕ := mnCollateralSats + coin

def followUpMs : ℤ := 2000

def confirmationPollMs : ℤ := 60000

def mergeDemandTtlMs : ℤ := hourMs

def looseCoinsMax : ℕ := 5

/-- The UTC day of an instant. -/
def utcDay (now : ℤ) : ℤ := now / dayMs

/-- `Math.max(1, Math.ceil(ms / 1000))`. -/
def retryAfterSeconds (ms : ℤ) : ℤ := max 1 (-(-ms / 1000))

/-- The oldest of some instants, `now` when there is none. -/
def oldest (now : ℤ) (times : List ℤ) : ℤ := times.min?.getD now

/-- The seconds until one of the counted instants leaves a window of `windowMs`. -/
def windowRetryAfter (windowMs now : ℤ) (times : List ℤ) : ℤ :=
  retryAfterSeconds (oldest now times + windowMs - now)

/-! ### Rows -/

/-- One public payout per recipient and UTC day. -/
structure ClaimRow where
  recipient : String
  day : ℤ
  txid : String
  satoshis : ℕ
  createdAt : ℤ
  deriving DecidableEq, Repr

instance : Keyed ClaimRow (String × ℤ) (String × ℤ) where
  key r := (r.recipient, r.day)
  alt r := (r.recipient, r.day)

structure IpHit where
  ip : String
  createdAt : ℤ
  deriving DecidableEq, Repr

/-- An outpoint we spent. The columns `txid` and `vout` are its outpoint. -/
structure SpentRow where
  outpoint : Outpoint
  createdAt : ℤ
  deriving DecidableEq, Repr

instance : Keyed SpentRow Outpoint Outpoint where
  key := SpentRow.outpoint
  alt := SpentRow.outpoint

/-- An unconfirmed output of ours. -/
structure PendingRow where
  outpoint : Outpoint
  satoshis : ℕ
  createdAt : ℤ
  deriving DecidableEq, Repr

instance : Keyed PendingRow Outpoint Outpoint where
  key := PendingRow.outpoint
  alt := PendingRow.outpoint

structure BudgetRow where
  day : ℤ
  satoshis : ℕ
  deriving DecidableEq, Repr

instance : Keyed BudgetRow ℤ ℤ where
  key := BudgetRow.day
  alt := BudgetRow.day

structure CoinbaseCheck where
  txid : String
  isCoinbase : Bool
  checkedAt : ℤ
  deriving DecidableEq, Repr

instance : Keyed CoinbaseCheck String String where
  key := CoinbaseCheck.txid
  alt := CoinbaseCheck.txid

/-- A capToken that was spent. -/
structure UsedCapRow where
  token : String
  expiresAt : ℤ
  deriving DecidableEq, Repr

instance : Keyed UsedCapRow String String where
  key := UsedCapRow.token
  alt := UsedCapRow.token

inductive InvitationState where
  | broadcastUnknown
  | awaitingChainlock
  | available
  | issued
  | claimed
  | failed
  deriving DecidableEq, Repr

/-- A voucher. `built` is the signed asset lock (`built_json`); an erased secret is two empty
strings. `updated_at` is written and never read, and left out. -/
structure InvitationRow where
  id : String
  txid : String
  built : BuiltTx
  secret : EncryptedSecret
  prospectiveIdentityId : String
  amountSats : Option ℤ
  state : InvitationState
  chainLockedHeight : Option ℤ
  deviceHash : Option String
  issuedAt : Option ℤ
  createdAt : ℤ
  deriving DecidableEq, Repr

instance : Keyed InvitationRow String String where
  key := InvitationRow.id
  alt := InvitationRow.txid

inductive SignalKind where
  | ip
  | device
  deriving DecidableEq, Repr

structure InvitationHit where
  kind : SignalKind
  valueHash : String
  createdAt : ℤ
  deriving DecidableEq, Repr

/-- A coin size payouts asked for and that only a merge can provide. -/
structure MergeDemand where
  satoshis : ℕ
  createdAt : ℤ
  deriving DecidableEq, Repr

inductive KeyTier where
  | trusted
  | mn
  deriving DecidableEq, Repr

structure ApiKeyRow where
  hash : String
  id : String
  label : String
  tier : KeyTier
  perDay : Option ℕ
  createdAt : ℤ
  revokedAt : Option ℤ
  lastUsedAt : Option ℤ
  payouts : ℕ
  paidSats : ℕ
  owner : Option String
  expiresAt : Option ℤ
  createdBy : Option String
  revokedBy : Option String
  deriving DecidableEq, Repr

instance : Keyed ApiKeyRow String String where
  key := ApiKeyRow.hash
  alt := ApiKeyRow.id

/-- Audit log and per-day counter of the key payouts; never pruned. -/
structure KeyPayout where
  keyId : String
  txid : String
  address : String
  satoshis : ℕ
  createdAt : ℤ
  deriving DecidableEq, Repr

inductive CodeKind where
  | event
  | voucher
  deriving DecidableEq, Repr

structure CodeRow where
  id : String
  code : String
  codeKey : String
  kind : CodeKind
  label : String
  amountSats : ℕ
  maxRedemptions : ℕ
  redemptions : ℕ
  expiresAt : Option ℤ
  disabled : Bool
  batch : Option String
  createdBy : String
  createdAt : ℤ
  updatedAt : ℤ
  updatedBy : Option String
  deriving DecidableEq, Repr

instance : Keyed CodeRow String String where
  key := CodeRow.id
  alt := CodeRow.codeKey

/-- Audit log and once-per-address check of the redemptions; never pruned. -/
structure CodeRedemption where
  codeId : String
  address : String
  txid : String
  satoshis : ℕ
  createdAt : ℤ
  deriving DecidableEq, Repr

/-! ### Storage -/

/-- The tables written only under the spending lock. -/
structure Ledger where
  claims : Table ClaimRow
  ipHits : List IpHit
  spent : Table SpentRow
  pending : Table PendingRow
  budget : Table BudgetRow
  coinbaseChecks : Table CoinbaseCheck
  inventory : Table InvitationRow
  invitationHits : List InvitationHit
  mergeDemand : List MergeDemand
  keyPayouts : List KeyPayout
  codeRedemptions : List CodeRedemption

/-- The tables that are also written without the spending lock. -/
structure Admin where
  apiKeys : Table ApiKeyRow
  codes : Table CodeRow
  usedCap : Table UsedCapRow

/-- The database after `migrate` on first use. -/
def Ledger.empty : Ledger :=
  ⟨.empty, [], .empty, .empty, .empty, .empty, .empty, [], [], [], []⟩

def Admin.empty : Admin := ⟨.empty, .empty, .empty⟩

/-! ### Requests and results -/

inductive ProofTier where
  | soft
  | turnstile
  | hard
  deriving DecidableEq, Repr

structure PayoutRequest where
  address : String
  pubKeyHash : String
  ip : String
  tier : Option ProofTier := none
  apiKeyHash : Option String := none
  requestedSats : Option ℕ := none
  codeKey : Option String := none
  deriving DecidableEq, Repr

/-- A request of the public path: no key, no code. -/
def PayoutRequest.isPublic (input : PayoutRequest) : Bool :=
  input.apiKeyHash.isNone && input.codeKey.isNone

/-- The `ok: true` case of `PayoutResult`. -/
structure Paid where
  txid : String
  satoshis : ℕ
  replay : Bool
  dryRun : Bool
  accepted : List String
  keyId : Option String := none
  codeLabel : Option String := none
  deriving DecidableEq, Repr

inductive PayoutResult where
  | ok (paid : Paid)
  | rateLimited (retryAfter : ℤ)
  | budgetExhausted (retryAfter : ℤ)
  | unauthorized
  | codeInvalid
  | codeUsed
  | badRequest (detail : String)
  | fragmented (detail : String) (retryAfter : Option ℤ)
  | insufficientFunds (detail : String)
  | selfPay (detail : String)
  | chainUnavailable (detail : String)
  | error (detail : String)
  deriving DecidableEq, Repr

/-- What became of a broadcast. -/
inductive BroadcastSettlement where
  | ok (accepted : List String)
  | failed (result : PayoutResult) (uncertain : Bool)
  deriving DecidableEq, Repr

structure InvitationCounts where
  available : ℕ
  preparing : ℕ
  issued : ℕ
  deriving DecidableEq, Repr

structure Snapshot where
  address : String
  balanceSats : ℕ
  availableUtxos : ℕ
  poolUtxos : ℕ
  collateralUtxos : ℕ
  blockHeight : JsNumber
  source : String
  providers : List ProviderStatus
  spentToday : ℕ
  invitations : InvitationCounts
  deriving DecidableEq, Repr

inductive MaintenanceAction where
  | none
  | split
  | consolidate
  | waiting
  | blocked
  deriving DecidableEq, Repr

structure MaintenanceResult where
  action : MaintenanceAction
  detail : String
  txid : Option String := none
  deriving DecidableEq, Repr

structure InvitationIssueRequest where
  ipHash : String
  deviceHash : String
  count : Option ℕ := none
  deriving DecidableEq, Repr

structure IssuedInvitation where
  uri : String
  txid : String
  expiresAt : ℤ
  deriving DecidableEq, Repr

inductive InvitationIssueResult where
  | ok (invitations : List IssuedInvitation) (replay : Bool)
  | rateLimited (retryAfter : ℤ)
  | unavailable
  | platformUnavailable
  | error (detail : String)
  deriving DecidableEq, Repr

inductive InvitationMaintenanceAction where
  | disabled
  | none
  | updated
  | minted
  | blocked
  deriving DecidableEq, Repr

structure InvitationMaintenanceResult where
  action : InvitationMaintenanceAction
  detail : String
  deriving DecidableEq, Repr

/-! ### The record of a run -/

/-- The operations that run under the spending lock. -/
inductive Op where
  | payout (input : PayoutRequest)
  | snapshot
  | issueInvitation (input : InvitationIssueRequest)
  | maintainInvitations
  | maintain
  deriving DecidableEq, Repr

inductive Reply where
  | payout (result : PayoutResult)
  | snapshot (result : Snapshot)
  | issueInvitation (result : InvitationIssueResult)
  | maintainInvitations (result : InvitationMaintenanceResult)
  | maintain (result : MaintenanceResult)
  deriving DecidableEq, Repr

/-- Which limits a payout is held to: those of an API key, of a code, or the public ones. -/
inductive Payer where
  | apiKey (row : ApiKeyRow)
  | code (row : CodeRow)
  | anyone
  deriving DecidableEq, Repr

/-- What an operation did, in order. -/
inductive Event where
  /-- The outside world answered. -/
  | io (q : Query) (a : Answer q)
  /-- A payout passed its checks. -/
  | admitted (payer : Payer) (satoshis : ℕ)
  /-- The spendable view of a snapshot was computed. -/
  | viewed (snapshot view : UtxoSnapshot)
  /-- A builder signed a transaction. -/
  | built (tx : BuiltTx)
  /-- A voucher was put into the inventory. -/
  | minted (row : InvitationRow)
  /-- A voucher was given out. -/
  | issued (row : InvitationRow)
  /-- The inputs of a transaction were locked. -/
  | locked (tx : BuiltTx)
  /-- A transaction was recorded as accepted, outputs included. -/
  | recorded (tx : BuiltTx)
  /-- A broadcast was settled. -/
  | settled (tx : BuiltTx) (outcome : BroadcastSettlement)

/-- An operation and what it did. -/
structure OpRecord where
  op : Op
  /-- The instant it worked with. -/
  now : ℤ
  trace : List Event

/-- The Treasury's storage and the record of its run. -/
structure State where
  ledger : Ledger
  admin : Admin
  /-- The operations that ended, oldest first, with what they returned or threw. -/
  past : List (OpRecord × Except Thrown Reply)
  /-- The operation that runs. -/
  running : Option Op
  /-- When it began, or the last one did. -/
  now : ℤ
  /-- Its events so far. -/
  trace : List Event
  /-- The versions of the codes that administration left, oldest first. -/
  codeVersions : List CodeRow

/-- A fresh deployment. -/
def State.initial (start : ℤ) : State := ⟨.empty, .empty, [], none, start, [], []⟩

/-- Programs of the Treasury. -/
abbrev Prog (α : Type) := Async Query Answer State Thrown α

namespace State

/-- Append an event to the record. -/
def note (e : Event) (s : State) : State := { s with trace := s.trace ++ [e] }

/-- Change the ledger. -/
def withLedger (f : Ledger → Ledger) (s : State) : State := { s with ledger := f s.ledger }

/-- Change the administration's tables. -/
def withAdmin (f : Admin → Admin) (s : State) : State := { s with admin := f s.admin }

/-- Every operation so far, the running one last. -/
def records (s : State) : List OpRecord :=
  s.past.map Prod.fst ++ (s.running.map fun op => ⟨op, s.now, s.trace⟩).toList

/-- Every event so far, with its operation and the instant of that. -/
def log (s : State) : List (Op × ℤ × Event) :=
  s.records.flatMap fun r => r.trace.map fun e => (r.op, r.now, e)

end State

end DashFaucet
