import DashFaucet.Treasury.Meets.Invitations
import DashFaucet.Treasury.Meets.Maintenance
import DashFaucet.Treasury.Meets.Payout

/-!
# Runs of the Treasury

All five operations keep to the contract, so whatever a run does is made of moves, and an
invariant need only be checked step by step.

* `Faucet.meets`: every operation meets its contract, wherever it begins.
* `Faucet.Kept.reached`: an inductive invariant holds in every configuration a run reaches.
* `Faucet.Kept.exec`: and is carried from one configuration of a run to every later one.
* `State.log_append`, `State.log_enter`, `State.log_leave`: how the log of a run grows.
* `Faucet.small`: a small deployment, to run.
-/

namespace DashFaucet

open Async

namespace Faucet

variable {f : Faucet}

theorem meets (op : Op) (now : ℤ) (s : State) :
    Actor.Meets (M := f.treasury) f.contract f.EndsWell op now s := by
  cases op with
  | payout input => exact payout_meets input now s
  | snapshot => exact snapshot_meets now s
  | issueInvitation input => exact issueInvitation_meets input now s
  | maintainInvitations => exact maintainInvitations_meets now s
  | maintain => exact maintain_meets now s

/-- Where every run begins. -/
def start (f : Faucet) (clock : ℤ) : Actor.Phase f.treasury := ⟨clock, none, .initial clock⟩

theorem aligned_start (clock : ℤ) : f.Aligned (f.start clock) :=
  ⟨rfl, fun _ _ h => (by cases h), fun _ => rfl, le_refl clock⟩

/-- A run is made of moves. -/
theorem Reached.moves {c : Actor.Config f.treasury} (h : f.Reached c) :
    ∃ clock, Actor.Moves f.contract f.EndsWell (f.start clock) c.phase ∧
      Actor.Sound f.contract f.EndsWell c := by
  obtain ⟨clock, is, hexec⟩ := h
  exact ⟨clock, Actor.refines fits (fun op t _ s _ _ => meets op t s) hexec⟩

/-- The store of a run knows who holds the lock, and since when. -/
theorem Reached.aligned {c : Actor.Config f.treasury} (h : f.Reached c) : f.Aligned c.phase := by
  obtain ⟨clock, hmoves, -⟩ := h.moves
  have htrue : f.Kept fun _ => True :=
    ⟨fun _ _ _ _ _ _ _ => trivial, fun _ _ _ _ _ _ _ _ => trivial, fun _ _ _ _ _ _ => trivial,
      fun _ _ _ _ _ _ _ _ => trivial, fun _ _ _ _ _ _ _ => trivial⟩
  exact (htrue.moves hmoves (aligned_start clock) trivial).1

/-- **Invariants of runs.** -/
theorem Kept.reached {I : State → Prop} (hI : f.Kept I) (hinit : ∀ clock, I (.initial clock))
    {c : Actor.Config f.treasury} (h : f.Reached c) : f.Aligned c.phase ∧ I c.store := by
  obtain ⟨clock, hmoves, -⟩ := h.moves
  exact hI.moves hmoves (aligned_start clock) (hinit clock)

/-- **Invariants from one configuration of a run to a later one.** -/
theorem Kept.exec {I : State → Prop} (hI : f.Kept I) {c c' : Actor.Config f.treasury}
    (h : f.Reached c) {is : List (Actor.Input f.treasury)} (hexec : f.treasury.exec c is = some c')
    (hIc : I c.store) : f.Aligned c'.phase ∧ I c'.store := by
  obtain ⟨clock, hmoves, hsound⟩ := h.moves
  obtain ⟨hmoves', -⟩ := Actor.exec_moves fits (fun op t _ s _ _ => meets op t s) hmoves hsound
    hexec
  exact hI.moves hmoves' h.aligned hIc

end Faucet

/-! ### The log of a run -/

/-- An element of a list that is not in its tail end is in the front. -/
theorem split_of_not_mem {α : Type} {l l' p q : List α} {x : α} (h : l ++ l' = p ++ x :: q)
    (hx : x ∉ l') : ∃ r, l = p ++ x :: r ∧ q = r ++ l' := by
  rcases List.append_eq_append_iff.mp h with ⟨r, hp, hl'⟩ | ⟨r, hl, hq⟩
  · refine absurd ?_ hx
    rw [hl']
    exact List.mem_append_right _ List.mem_cons_self
  · cases r with
    | nil =>
      refine absurd ?_ hx
      rw [← List.nil_append l', ← hq]
      exact List.mem_cons_self
    | cons y r =>
      obtain ⟨rfl, hrest⟩ := List.cons_eq_cons.mp hq
      exact ⟨r, hl, hrest⟩

theorem prefix_of_not_mem {α : Type} {l l' p : List α} {x : α} (h : p ++ [x] <+: l ++ l')
    (hx : x ∉ l') : p ++ [x] <+: l := by
  obtain ⟨q, hq⟩ := h
  rw [List.append_assoc] at hq
  obtain ⟨r, rfl, -⟩ := split_of_not_mem hq.symm hx
  exact ⟨r, by simp⟩

/-- An event of a run, with its operation and the instant of that. -/
abbrev Entry := Op × ℤ × Event

/-- The entries of an operation with these events. -/
abbrev entries (op : Op) (t : ℤ) (es : List Event) : List Entry := es.map fun e => (op, t, e)

namespace State

/-- The entries of the operations that ended. -/
def pastLog (s : State) : List Entry :=
  s.past.flatMap fun r => r.1.trace.map fun e => (r.1.op, r.1.now, e)

theorem log_running {s : State} {op : Op} (hrun : s.running = some op) :
    s.log = s.pastLog ++ s.trace.map fun e => (op, s.now, e) := by
  rw [log, records, hrun, List.flatMap_append, List.flatMap_map]
  change _ ++ (_ ++ []) = _
  rw [List.append_nil]
  rfl

theorem log_idle {s : State} (hrun : s.running = none) : s.log = s.pastLog := by
  rw [log, records, hrun, List.flatMap_append, List.flatMap_map]
  exact List.append_nil _

/-- The log grows by the events of the running operation. -/
theorem log_append {s s' : State} {op : Op} (hrun : s.running = some op) (hcont : Continues s s')
    {es : List Event} (htrace : s'.trace = s.trace ++ es) :
    s'.log = s.log ++ es.map fun e => (op, s.now, e) := by
  rw [log_running (hcont.running.trans hrun), log_running hrun, pastLog, hcont.past, hcont.now,
    htrace, List.map_append, List.append_assoc]
  rfl

theorem log_note {s : State} {op : Op} (hrun : s.running = some op) (e : Event) :
    (s.note e).log = s.log ++ [(op, s.now, e)] := log_append hrun (.note e s) rfl

theorem log_enter {s : State} {op : Op} {t : ℤ} (hrun : s.running = none) :
    (s.enter op t).log = s.log := by
  rw [log_running (s := s.enter op t) rfl, log_idle hrun]
  exact List.append_nil _

theorem log_leave {s : State} {op : Op} {r : Except Thrown Reply} (hrun : s.running = some op) :
    (s.leave op s.now r).log = s.log := by
  rw [log_idle (s := s.leave op s.now r) rfl, log_running hrun, pastLog, pastLog]
  change (s.past ++ [((⟨op, s.now, s.trace⟩ : OpRecord), r)]).flatMap _ = _
  rw [List.flatMap_append, List.flatMap_singleton]

end State

namespace Faucet

/-! ### A small deployment

Enough of a deployment to run: one Core node, two coins, every input worth 149 bytes of fee and
every output 34. A transaction's text names the coins it spends, so different coins make different
transactions. -/

/-- The text of a transaction in the small deployment. -/
def smallHex (info : TxInfo) : String := "+".intercalate (info.inputs.map TxInput.txid)

def smallTx : DashTx where
  appraiseMax numInputs numOutputs := 10 + 149 * numInputs + 34 * numOutputs
  legacyDust := 2000
  sortInputs _ _ := 0
  sortOutputs _ _ := 0
  draftSingleOutput _ inputs output :=
    let rest := (inputs.map TxInput.satoshis).sum - output.satoshis - (78 + 149 * inputs.length)
    .ok ⟨inputs, [output], if rest > 2000 then some { satoshis := rest } else none⟩
  hashAndSignAll info _ := .ok ⟨smallHex info, info.inputs, info.outputs, info.extraPayload⟩
  finalizePresorted info _ := .ok ⟨smallHex info, info.inputs, info.outputs, info.extraPayload⟩
  getId hex := "id of " ++ hex

theorem smallTx_faithful : smallTx.Faithful where
  draft_inputs h := by
    cases h
    rfl
  draft_outputs h := by
    cases h
    rfl
  sign_inputs h := by
    cases h
    rfl
  sign_outputs h := by
    cases h
    rfl
  finalize_inputs h := by
    cases h
    rfl
  finalize_outputs h := by
    cases h
    rfl

/-- A faucet that pays one coin per IP and hour, and three a day. -/
def small : Faucet where
  cfg :=
    { payoutSats := coin, rateLimits := fun _ => 1, dailyBudgetSats := 3 * coin, poolMin := 1
      poolTarget := 2, poolUtxoSats := 2 * coin, dryRun := false, maxPayoutInputs := 10
      collateralCoins := 0, keyTtlMs := 0, keysEnabled := true
      keyMaxPerRequestSats := 10 * coin, keyReserveSats := 0
      invitations :=
        { enabled := true, amountSats := coin, inventoryTarget := 1, maxPerRequest := 1
          ttlMs := 7 * dayMs, rateWindowMs := dayMs } }
  chain :=
    { primarySpecs := [(.dashrpc, "core")], fallbackSpecs := [], evonodes := false
      urlHostname := fun _ => none
      sort := .insertion }
  dash := smallTx
  faucetKey := .ok ⟨"faucet", "Xfaucet"⟩
  createPkhScript := id
  sha256 _ := []

/-- A world in which the same two coins are always listed, nobody knows a transaction, and the
node answers every broadcast alike. -/
def smallWorld (relay : Except String String) : (q : Query) → Answer q
  | .sample _ => []
  | .heights _ => fun _ => .ok 1000
  | .listing .. =>
    .ok [⟨"a", 0, 3 * coin, "faucet", some 1⟩, ⟨"b", 0, 3 * coin, "faucet", some 1⟩]
  | .relay .. => fun _ => relay
  | .hasTx .. => fun _ => .error "timeout"
  | .isCoinbase .. => .ok false
  | .chainLock .. => .ok ⟨false, none, false⟩
  | .identity _ => some false
  | .loadKey => ()
  | .entropy => 0
  | .voucherKey => ⟨"wif", "0123456789012345678901234567890123456789"⟩
  | .encryptWif wif => ⟨wif, "iv"⟩
  | .decryptWif secret => .ok secret.cipherHex
  | .randomUUID => "uuid"
  | .bookAlarm _ => ()

/-- A coin that pays a collateral. -/
def collateralCoin (txid : String) : Utxo := ⟨txid, 0, 1001 * coin, "faucet", some 1⟩

/-- Run an operation that waits `awaits` times, in that world. -/
def smallRun (op : Op) (t : ℤ) (awaits : ℕ) (relay : Except String String) :
    List (Actor.Input small.treasury) :=
  .begin op t :: List.replicate awaits (.resume (smallWorld relay))

/-- The small deployment after some inputs. -/
def smallAfter (is : List (Actor.Input small.treasury)) : Option (Actor.Config small.treasury) :=
  small.treasury.exec ⟨0, .initial 0, none⟩ is

theorem smallAfter_reached {is : List (Actor.Input small.treasury)}
    {c : Actor.Config small.treasury} (h : smallAfter is = some c) : small.Reached c :=
  ⟨0, is, h⟩

/-! ### A deployment that asks evonodes -/

/-- The small deployment with evonodes, of which one is no URL. -/
def sampling : Faucet where
  __ := small
  chain :=
    { small.chain with
      evonodes := true
      urlHostname := fun origin =>
        if origin = "https://09.1.2.3:443" then none else some "1.2.3.4" }

/-- That deployment after some inputs. -/
def samplingAfter (is : List (Actor.Input sampling.treasury)) :
    Option (Actor.Config sampling.treasury) :=
  sampling.treasury.exec ⟨0, .initial 0, none⟩ is

theorem samplingAfter_reached {is : List (Actor.Input sampling.treasury)}
    {c : Actor.Config sampling.treasury} (h : samplingAfter is = some c) : sampling.Reached c :=
  ⟨0, is, h⟩

/-! ### A deployment that mints

The same deployment with vouchers. An identity is computed from a transaction's id, which has to be
hexadecimal here: the names of the coins it spends, each letter twice. -/

def mintTx : DashTx where
  __ := smallTx
  getId hex := String.ofList (hex.toList.flatMap fun c => if c = '+' then [] else [c, c])

/-- A faucet that keeps `target` vouchers. -/
def minting (target : ℕ) : Faucet where
  __ := small
  cfg :=
    { small.cfg with
      invitations := { small.cfg.invitations with inventoryTarget := target } }
  dash := mintTx

/-- The small world with other coins, and a ChainLock source of its own. -/
def mintWorld (utxos : List Utxo) (lock : Except String ChainLockStatus)
    (relay : Except String String) : (q : Query) → Answer q
  | .listing .. => .ok utxos
  | .chainLock .. => lock
  | q => smallWorld relay q

/-- Run an operation that waits `awaits` times, in that world. -/
def mintRun (target : ℕ) (op : Op) (t : ℤ) (awaits : ℕ) (utxos : List Utxo)
    (lock : Except String ChainLockStatus) (relay : Except String String) :
    List (Actor.Input (minting target).treasury) :=
  .begin op t :: List.replicate awaits (.resume (mintWorld utxos lock relay))

/-- That deployment after some inputs. -/
def mintAfter (target : ℕ) (is : List (Actor.Input (minting target).treasury)) :
    Option (Actor.Config (minting target).treasury) :=
  (minting target).treasury.exec ⟨0, .initial 0, none⟩ is

theorem mintAfter_reached {target : ℕ} {is : List (Actor.Input (minting target).treasury)}
    {c : Actor.Config (minting target).treasury} (h : mintAfter target is = some c) :
    (minting target).Reached c :=
  ⟨0, is, h⟩

end Faucet

end DashFaucet
