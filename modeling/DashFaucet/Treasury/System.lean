import DashFaucet.Async.Actor
import DashFaucet.Treasury.Payout
import DashFaucet.Treasury.Invitations

/-!
# The Treasury as an actor

`Faucet.treasury` puts the operations under the spending lock and the calls outside it together
(`Treasury extends DurableObject`, `serialize`). Its executions (`Actor.exec`) are the runs the
theorems speak of: operations in any order, one at a time, with the calls interleaved at every
await, any answers from the outside world, and a clock that never goes backwards.
-/

namespace DashFaucet

open Async

/-- What administration and the captcha do without the spending lock. The last is the work of the
constructor, when the runtime restarts the object. -/
inductive Call where
  | createApiKey (input : MintKeyInput) (hash : String)
  | revokeApiKey (id : String) (owner admin : Option String)
  | issueOwnKey (input : IssueOwnKeyInput) (hash : String)
  | createCodes (input : NewCodes) (batch : String) (ids : List String)
  | updateCode (id : String) (patch : CodePatch) (editor : String)
  | consumeCapToken (token : String) (expiresAt : ℤ)
  | migrateAccounts
  deriving DecidableEq, Repr

/-- The effect of a call made at `now`. -/
def Call.effect (cfg : FaucetConfig) (now : ℤ) (a : Admin) : Call → Admin
  | .createApiKey input hash => a.createApiKey input hash now
  | .revokeApiKey id owner admin => a.revokeApiKey id owner admin now
  | .issueOwnKey input hash => (a.issueOwnKey input hash now).2
  | .createCodes input batch ids => (a.createCodes input batch ids now).2
  | .updateCode id patch editor => a.updateCode id patch editor now
  | .consumeCapToken token expiresAt => (a.consumeCapToken token expiresAt now).2
  | .migrateAccounts => a.migrateAccounts (decide (cfg.keyTtlMs > 0)) now

namespace State

/-- Run a call and keep the versions of the codes it left. -/
def call (cfg : FaucetConfig) (c : Call) (now : ℤ) (s : State) : State :=
  let admin := c.effect cfg now s.admin
  { s with admin, codeVersions := s.codeVersions ++ admin.codes.rows }

/-- An operation takes the lock. -/
def enter (op : Op) (now : ℤ) (s : State) : State :=
  { s with running := some op, now, trace := [] }

/-- An operation releases the lock. -/
def leave (op : Op) (now : ℤ) (reply : Except Thrown Reply) (s : State) : State :=
  { s with past := s.past ++ [(⟨op, now, s.trace⟩, reply)], running := none, trace := [] }

end State

namespace Faucet

variable (f : Faucet)

/-- The program of an operation. -/
def program (now : ℤ) : Op → Prog Reply
  | .payout input => do pure (.payout (← f.payoutLocked input now))
  | .snapshot => do pure (.snapshot (← f.snapshot now))
  | .issueInvitation input => do pure (.issueInvitation (← f.issueInvitationLocked input now))
  | .maintainInvitations => do
    pure (.maintainInvitations (← f.maintainInvitationsLocked now))
  | .maintain => do pure (.maintain (← f.maintain now))

/-- The Treasury of a deployment. -/
@[reducible] def treasury : Actor Query Answer State Thrown where
  Op := Op
  Call := Call
  Reply := Reply
  program op now := f.program now op
  emit q a := State.note (.io q a)
  enter := State.enter
  leave := State.leave
  call := State.call f.cfg

/-- A configuration some run of a fresh deployment reaches. -/
def Reached (c : Actor.Config f.treasury) : Prop :=
  ∃ start is, f.treasury.exec ⟨start, .initial start, none⟩ is = some c

end Faucet

end DashFaucet
