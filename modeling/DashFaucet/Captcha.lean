import Mathlib.Data.List.Induction
import DashFaucet.Cap
import DashFaucet.Treasury.Runs

/-!
# The captcha

A request with a capToken has it verified in the Worker and then spent at the Treasury
(`verifyCaptcha` in `index.ts`). The two happen at different instants: other requests, and whatever
else the Treasury does, come in between.

The spent-set forgets a token once the token has expired, and the Treasury does not look at the
expiry itself. So a token that is verified in time and spent late is taken for new, whether or not
it was spent before.

* `Captcha`, `Captcha.Config`, `Captcha.step`: the Worker's requests and the Treasury in one system.
* `Aged`: what time does to the spent-set.
* `Captcha.Judged`: which calls find a token unspent.
* `Captcha.passes_once`: when a capToken buys at most one pass.
-/

namespace DashFaucet

open Async

/-! ### The system -/

/-- A captcha in front of a faucet. -/
structure Captcha where
  faucet : Faucet
  hmac : List ℕ → List ℕ → List ℕ
  capSecret : String

namespace Captcha

/-- A request whose capToken was verified, on its way to the Treasury. -/
structure Checked where
  capToken : String
  expiresAt : ℤ
  deriving DecidableEq, Repr

/-- A request the Treasury has answered. -/
structure Consumed extends Checked where
  calledAt : ℤ
  fresh : Bool
  deriving DecidableEq, Repr

variable (g : Captcha)

/-- The clock, the Treasury, and the requests: those still on their way, and those answered. -/
structure Config where
  clock : ℤ
  treasury : Actor.Config g.faucet.treasury
  checked : List Checked
  consumed : List Consumed

/-- What can happen next. -/
inductive Input where
  /-- A request comes with a capToken, which is verified at time `t`. -/
  | verify (capToken : String) (t : ℤ)
  /-- A verified request reaches the Treasury at time `t`. -/
  | consume (request : Checked) (t : ℤ)
  /-- Anything else the Treasury does. -/
  | other (i : Actor.Input g.faucet.treasury)

/-- The instant of an input. The answer to a query has none of its own. -/
def instant : Actor.Input g.faucet.treasury → Option ℤ
  | .begin _ t | .call _ t => some t
  | .resume _ => none

/-- The input is a call of `consumeCapToken`. -/
def spends : Actor.Input g.faucet.treasury → Bool
  | .call (.consumeCapToken ..) _ => true
  | _ => false

def step (c : g.Config) : g.Input → Option g.Config
  | .verify capToken t =>
    if c.clock ≤ t then
      match verifyCapToken g.hmac g.capSecret capToken t with
      | .ok check =>
        some { c with clock := t, checked := c.checked ++ [⟨capToken, check.expiresAt⟩] }
      | .error _ => some { c with clock := t }
    else none
  -- any token that was checked, however long ago
  | .consume r t =>
    if c.clock ≤ t ∧ r ∈ c.checked then do
      let fresh := (c.treasury.store.admin.consumeCapToken r.capToken r.expiresAt t).1
      let treasury ← g.faucet.treasury.step c.treasury
        (.call (.consumeCapToken r.capToken r.expiresAt) t)
      some ⟨t, treasury, c.checked.erase r, c.consumed ++ [⟨r, t, fresh⟩]⟩
    else none
  | .other i =>
    if g.spends i = false ∧ ∀ t ∈ instant g i, c.clock ≤ t then do
      let treasury ← g.faucet.treasury.step c.treasury i
      some { c with clock := max c.clock treasury.clock, treasury }
    else none

def exec (c : g.Config) (is : List g.Input) : Option g.Config := is.foldlM g.step c

/-- A fresh deployment. -/
def init (clock : ℤ) : g.Config := ⟨clock, ⟨clock, .initial clock, none⟩, [], []⟩

/-- A configuration some run of a fresh deployment reaches. -/
def Reached (c : g.Config) : Prop := ∃ clock is, g.exec (g.init clock) is = some c

/-- The requests the Treasury told that their token was new. -/
def passes (token : String) (l : List Consumed) : List Consumed :=
  l.filter fun a => a.capToken = token ∧ a.fresh

end Captcha

/-! ### The spent-set -/

/-- What is left of a spent-set at `t`: nothing new, and all that has not expired. -/
structure Aged (t : ℤ) (u u' : Table UsedCapRow) : Prop where
  old : ∀ r ∈ u'.rows, r ∈ u.rows
  kept : ∀ r ∈ u.rows, t ≤ r.expiresAt → r ∈ u'.rows

namespace Aged

variable {t t' : ℤ} {u u' u'' : Table UsedCapRow}

theorem refl (t : ℤ) (u : Table UsedCapRow) : Aged t u u := ⟨fun _ h => h, fun _ h _ => h⟩

theorem of_eq (h : u' = u) : Aged t u u' := h ▸ refl t u

theorem trans (h : Aged t u u') (h' : Aged t u' u'') : Aged t u u'' where
  old r hr := h.old r (h'.old r hr)
  kept r hr hlive := h'.kept r (h.kept r hr hlive) hlive

theorem mono (h : Aged t u u') (hle : t ≤ t') : Aged t' u u' where
  old := h.old
  kept r hr hlive := h.kept r hr (hle.trans hlive)

theorem deleteWhere (t : ℤ) (u : Table UsedCapRow) :
    Aged t u (u.deleteWhere fun r => r.expiresAt < t) where
  old _ hr := (Table.mem_deleteWhere.mp hr).1
  kept _ hr hlive := Table.mem_deleteWhere.mpr ⟨hr, decide_eq_false (not_lt.mpr hlive)⟩

end Aged

/-- An operation only prunes the spent-set. -/
theorem Step.aged {f : Faucet} {op : Op} {now : ℤ} {s s' : State} (h : Step f op now s s') :
    Aged now s.admin.usedCap s'.admin.usedCap := by
  cases h with
  | prune => exact .deleteWhere now _
  | admits | verdict | view | demand | build | backfill | mint | claim | recycle | spoil | issue
  | count => exact .refl now _
  | @settle tx outcome locks es pre s s' hset hans honce hbooks =>
    have hconclude : (s.conclude tx outcome locks now).admin = s.admin := by cases locks <;> rfl
    rw [← hconclude]
    apply Aged.of_eq
    cases hbooks with
    | @paid input payer => cases payer <;> rfl
    | @doubtful input payer => cases payer <;> rfl
    | unpaid | unmaintained | kept | maintained | awaited | discarded => rfl
  | confirm =>
    apply Aged.of_eq
    split <;> rfl

theorem aged_of_steps {f : Faucet} {op : Op} {now : ℤ} {s s' : State}
    (h : Relation.ReflTransGen (Step f op now) s s') :
    Aged now s.admin.usedCap s'.admin.usedCap := by
  induction h with
  | refl => exact .refl now _
  | tail _ hstep ih => exact ih.trans hstep.aged

theorem Admin.usedCap_mintKey {input : MintKeyInput} {hash : String} {now : ℤ} {a a' : Admin}
    {key : ApiKeyRow} (h : a.mintKey input hash now = some (key, a')) : a'.usedCap = a.usedCap := by
  obtain ⟨apiKeys, -, heq⟩ := Option.map_eq_some_iff.mp h
  cases heq
  rfl

/-- Administration leaves the spent-set alone. -/
theorem Call.usedCap_effect (c : Call) (cfg : FaucetConfig) (now : ℤ) (a : Admin)
    (hc : ∀ token expiresAt, c ≠ .consumeCapToken token expiresAt) :
    (c.effect cfg now a).usedCap = a.usedCap := by
  cases c with
  | consumeCapToken token expiresAt => exact absurd rfl (hc token expiresAt)
  | revokeApiKey => rfl
  | createApiKey input hash =>
    show (a.createApiKey input hash now).usedCap = _
    -- the calls that mint a key write accounts, keys, the audit and no captcha row
    rw [Admin.createApiKey]
    cases hmint : a.mintKey input hash now with
    | none => rfl
    | some minted => exact Admin.usedCap_mintKey hmint
  | issueOwnKey input hash =>
    show (a.issueOwnKey input hash now).2.usedCap = _
    exact Admin.issueOwnKey_keeps (P := fun a' => a'.usedCap = a.usedCap) rfl (fun _ _ _ => rfl)
      fun m a' _ hkept key a'' hmint => (Admin.usedCap_mintKey hmint).trans hkept
  | createCodes input batch ids =>
    show (a.createCodes input batch ids now).2.usedCap = _
    unfold Admin.createCodes
    split <;> rfl
  | updateCode id patch editor =>
    show (a.updateCode id patch editor now).usedCap = _
    unfold Admin.updateCode
    split <;> rfl
  | migrateAccounts =>
    show (a.migrateAccounts (decide (cfg.keyTtlMs > 0)) now).usedCap = _
    unfold Admin.migrateAccounts
    split <;> rfl

/-- So does all that is done to the Treasury, but for the call that spends a token. -/
theorem Faucet.Reached.aged {f : Faucet} {c c' : Actor.Config f.treasury}
    {i : Actor.Input f.treasury} (h : f.Reached c) (hstep : f.treasury.step c i = some c')
    (hi : ∀ token expiresAt t, i ≠ .call (.consumeCapToken token expiresAt) t) :
    c.clock ≤ c'.clock ∧
      Aged c'.clock c.store.admin.usedCap c'.store.admin.usedCap := by
  obtain ⟨-, -, hsound⟩ := h.moves
  have halign := h.aligned
  rcases Actor.step_segment Faucet.fits (fun op t _ => Faucet.meets op t c.store) hsound hstep with
    ⟨a, t, rfl, hle, rfl⟩ | ⟨op, t, s, s', hopen, hguar, hclose⟩
  · refine ⟨hle, .of_eq ?_⟩
    apply a.usedCap_effect
    intro token expiresAt heq
    exact hi token expiresAt t (by rw [heq])
  · -- the segment began when the operation did, and that is not after now
    have hs : s.admin = c.store.admin ∧ c.clock ≤ c'.clock ∧ t ≤ c'.clock := by
      rcases hopen with ⟨hle, hclock, rfl⟩ | ⟨p, q, a, hrun, hclock, rfl⟩
      · exact ⟨rfl, hclock ▸ hle, hclock.ge⟩
      · have hbusy : c.phase.busy = some (op, t) := by
          show c.running.map _ = _
          rw [hrun]
          rfl
        -- an operation under way keeps the time it began at
        have hnow := halign.time op t hbusy
        exact ⟨rfl, hclock.ge, hnow ▸ hclock ▸ halign.le_clock⟩
    obtain ⟨hadmin, hle, ht⟩ := hs
    have hs' : c'.store.admin = s'.admin := by
      rcases hclose with h | ⟨r, h⟩ <;> rw [h]
      rfl
    refine ⟨hle, ?_⟩
    rw [hs', ← hadmin]
    exact (aged_of_steps hguar).mono ht

/-! ### Spending a token -/

namespace Admin

variable {token : String} {expiresAt now : ℤ} {a : Admin}

/-- The rows of a token that have not expired. -/
theorem find?_live_eq_none :
    (a.usedCap.deleteWhere fun r => r.expiresAt < now).find? token = none ↔
      ∀ r ∈ a.usedCap.rows, r.token = token → r.expiresAt < now := by
  rw [Table.find?_eq_none]
  constructor
  · intro h r hr htoken
    by_contra hlive
    exact h r (Table.mem_deleteWhere.mpr ⟨hr, decide_eq_false hlive⟩) htoken
  · intro h r hr htoken
    obtain ⟨hr, hlive⟩ := Table.mem_deleteWhere.mp hr
    exact of_decide_eq_false hlive (h r hr htoken)

/-- The Treasury takes a token for new when it has no row of it, or only one that expired. -/
theorem consumeCapToken_fresh : (a.consumeCapToken token expiresAt now).1 = true ↔
    ∀ r ∈ a.usedCap.rows, r.token = token → r.expiresAt < now := by
  rw [← find?_live_eq_none, consumeCapToken]
  cases h : (a.usedCap.deleteWhere fun r => r.expiresAt < now).find? token with
  | none => exact iff_of_true rfl rfl
  | some r => exact iff_of_false Bool.false_ne_true (Option.some_ne_none r)

/-- The rows after a call: those that have not expired, and the token's own if it was new. -/
theorem mem_consumeCapToken {r : UsedCapRow} :
    r ∈ (a.consumeCapToken token expiresAt now).2.usedCap.rows ↔
      (r ∈ a.usedCap.rows ∧ now ≤ r.expiresAt) ∨
        ((a.consumeCapToken token expiresAt now).1 = true ∧ r = ⟨token, expiresAt⟩) := by
  have hlive : r ∈ (a.usedCap.deleteWhere fun r => r.expiresAt < now).rows ↔
      r ∈ a.usedCap.rows ∧ now ≤ r.expiresAt := by
    rw [Table.mem_deleteWhere, decide_eq_false_iff_not, not_lt]
  rw [← hlive, consumeCapToken]
  -- the token is new or was seen, once the expired rows are gone
  cases h : (a.usedCap.deleteWhere fun r => r.expiresAt < now).find? token with
  | none =>
    have hnone := Table.find?_eq_none.mp h
    rw [Table.mem_insertOrReplace]
    constructor
    · rintro (⟨hr, -⟩ | rfl)
      · exact .inl hr
      · exact .inr ⟨rfl, rfl⟩
    · rintro (hr | ⟨-, rfl⟩)
      · exact .inl ⟨hr, hnone r hr, hnone r hr⟩
      · exact .inr rfl
  | some r => exact ⟨.inl, fun h => h.resolve_right fun h => Bool.false_ne_true h.1⟩

end Admin

/-! ### Runs -/

namespace Captcha

variable {g : Captcha}

/-- The expiry is the one the token proves. -/
def Proves (g : Captcha) (r : Checked) : Prop :=
  ∃ t check, verifyCapToken g.hmac g.capSecret r.capToken t = .ok check ∧
    check.expiresAt = r.expiresAt

theorem Proves.unique {r r' : Checked} (h : g.Proves r) (h' : g.Proves r')
    (heq : r.capToken = r'.capToken) : r.expiresAt = r'.expiresAt := by
  obtain ⟨t, check, hcheck, hexp⟩ := h
  obtain ⟨t', check', hcheck', hexp'⟩ := h'
  rw [heq] at hcheck
  rw [← hexp, ← hexp', verifyCapToken_unique hcheck hcheck']

/-- Which calls find their token new: the first, and whichever come after the token expired. -/
def Judged (l : List Consumed) : Prop :=
  ∀ pre a, pre ++ [a] <+: l →
    (a.fresh = true ↔ (∀ b ∈ pre, b.capToken ≠ a.capToken) ∨ a.expiresAt < a.calledAt)

/-- What holds throughout a run. The spent-set has only tokens that were spent, and all of them that
have not expired. -/
structure Sound (c : g.Config) : Prop where
  reached : g.faucet.Reached c.treasury
  le_clock : c.treasury.clock ≤ c.clock
  checked : ∀ r ∈ c.checked, g.Proves r
  consumed : ∀ a ∈ c.consumed, g.Proves a.toChecked
  rows : ∀ row ∈ c.treasury.store.admin.usedCap.rows,
    ∃ a ∈ c.consumed, a.capToken = row.token ∧ a.expiresAt = row.expiresAt
  spent : ∀ a ∈ c.consumed, c.clock ≤ a.expiresAt →
    ⟨a.capToken, a.expiresAt⟩ ∈ c.treasury.store.admin.usedCap.rows
  judged : Judged c.consumed

namespace Sound

variable {c c' : g.Config}

theorem init (clock : ℤ) : Sound (g.init clock) where
  reached := ⟨clock, [], rfl⟩
  le_clock := le_rfl
  checked _ hr := absurd hr List.not_mem_nil
  consumed _ ha := absurd ha List.not_mem_nil
  rows _ hrow := absurd hrow List.not_mem_nil
  spent _ ha := absurd ha List.not_mem_nil
  judged pre a hpre := by
    have hnil := List.prefix_nil.mp hpre
    simp at hnil

theorem reached_step {treasury : Actor.Config g.faucet.treasury} {i : Actor.Input g.faucet.treasury}
    (h : Sound c) (hstep : g.faucet.treasury.step c.treasury i = some treasury) :
    g.faucet.Reached treasury := by
  obtain ⟨start, is, hexec⟩ := h.reached
  refine ⟨start, is ++ [i], ?_⟩
  rw [Actor.exec_append, hexec, Option.bind_some, Actor.exec_cons, hstep]
  rfl

/-- Verifying takes time at most. -/
theorem verify (h : Sound c) {capToken : String} {t : ℤ}
    (hstep : g.step c (.verify capToken t) = some c') : Sound c' := by
  unfold step at hstep
  dsimp only at hstep
  split at hstep
  · next hle =>
    -- time has passed, so fewer tokens are alive
    have hspent : ∀ a ∈ c.consumed, t ≤ a.expiresAt →
        ⟨a.capToken, a.expiresAt⟩ ∈ c.treasury.store.admin.usedCap.rows :=
      fun a ha hlive => h.spent a ha (hle.trans hlive)
    split at hstep
    · next check hcheck =>
      cases hstep
      refine ⟨h.reached, h.le_clock.trans hle, fun r hr => ?_, h.consumed, h.rows, hspent, h.judged⟩
      rcases List.mem_append.mp hr with hr | hr
      · exact h.checked r hr
      · rw [List.mem_singleton.mp hr]
        exact ⟨t, check, hcheck, rfl⟩
    · cases hstep
      exact ⟨h.reached, h.le_clock.trans hle, h.checked, h.consumed, h.rows, hspent, h.judged⟩
  · cases hstep

/-- The rest of the Treasury only lets the spent-set age. -/
theorem other (h : Sound c) {i : Actor.Input g.faucet.treasury}
    (hstep : g.step c (.other i) = some c') : Sound c' := by
  unfold step at hstep
  dsimp only at hstep
  split at hstep
  · next hother =>
    obtain ⟨treasury, htreasury, heq⟩ := Option.bind_eq_some_iff.mp hstep
    cases heq
    obtain ⟨-, haged⟩ := h.reached.aged htreasury fun token expiresAt t hi => by
      rw [hi] at hother
      exact Bool.false_ne_true hother.1.symm
    refine ⟨h.reached_step htreasury, le_max_right _ _, h.checked, h.consumed,
      fun row hrow => h.rows row (haged.old row hrow), fun a ha hlive => ?_, h.judged⟩
    have hrow := h.spent a ha ((le_max_left _ _).trans hlive)
    exact haged.kept _ hrow ((le_max_right _ _).trans hlive)
  · cases hstep

/-- **Spending.** A token that was spent before is still known, unless it has expired. -/
theorem fresh_iff (h : Sound c) {r : Checked} (hr : r ∈ c.checked) {t : ℤ} (hle : c.clock ≤ t) :
    (c.treasury.store.admin.consumeCapToken r.capToken r.expiresAt t).1 = true ↔
      (∀ b ∈ c.consumed, b.capToken ≠ r.capToken) ∨ r.expiresAt < t := by
  have hproves := h.checked r hr
  rw [Admin.consumeCapToken_fresh]
  constructor
  · intro hnew
    by_contra hold
    rw [not_or, not_lt] at hold
    obtain ⟨hseen, hlive⟩ := hold
    apply hseen
    intro b hb htoken
    -- a token proves one expiry only
    have hexp : b.expiresAt = r.expiresAt := (h.consumed b hb).unique hproves htoken
    have hrow := h.spent b hb (hle.trans (hexp ▸ hlive))
    have hexpired := hnew _ hrow htoken
    exact absurd hlive (not_le.mpr (hexp ▸ hexpired))
  · intro hwhy row hrow htoken
    obtain ⟨a, ha, htoken', hexp⟩ := h.rows row hrow
    rw [htoken] at htoken'
    rcases hwhy with hnew | hexpired
    · exact absurd htoken' (hnew a ha)
    · rw [← hexp, (h.consumed a ha).unique hproves htoken']
      exact hexpired

theorem consume (h : Sound c) {r : Checked} {t : ℤ}
    (hstep : g.step c (.consume r t) = some c') : Sound c' := by
  unfold step at hstep
  dsimp only at hstep
  split at hstep
  · next hcan =>
    obtain ⟨hle, hr⟩ := hcan
    obtain ⟨treasury, htreasury, heq⟩ := Option.bind_eq_some_iff.mp hstep
    cases heq
    have hproves := h.checked r hr
    -- what the request had checked is what the call spends
    have hreached := h.reached_step htreasury
    rw [Actor.step, if_pos (h.le_clock.trans hle)] at htreasury
    cases htreasury
    have hfresh := h.fresh_iff hr hle
    refine ⟨hreached, le_rfl, fun r' hr' => h.checked r' (List.mem_of_mem_erase hr'), ?_, ?_, ?_,
      ?_⟩
    -- the consumed tokens prove their hashes: the call's own was checked
    · intro a ha
      rcases List.mem_append.mp ha with ha | ha
      · exact h.consumed a ha
      · rw [List.mem_singleton.mp ha]
        exact hproves
    -- a row is an old one or the call's own
    · intro row hrow
      rcases Admin.mem_consumeCapToken.mp hrow with ⟨hrow, -⟩ | ⟨-, rfl⟩
      · obtain ⟨a, ha, heq⟩ := h.rows row hrow
        exact ⟨a, List.mem_append_left _ ha, heq⟩
      · exact ⟨_, List.mem_append_right _ List.mem_cons_self, rfl, rfl⟩
    -- a live token has its row: a call purges only rows that have expired
    · intro a ha hlive
      change t ≤ a.expiresAt at hlive
      apply Admin.mem_consumeCapToken.mpr
      have hold : ∀ b ∈ c.consumed, t ≤ b.expiresAt →
          ⟨b.capToken, b.expiresAt⟩ ∈ c.treasury.store.admin.usedCap.rows :=
        fun b hb hlive => h.spent b hb (hle.trans hlive)
      rcases List.mem_append.mp ha with ha | ha
      · exact .inl ⟨hold a ha hlive, hlive⟩
      · -- the call's own token is new, or was spent before
        rw [List.mem_singleton.mp ha] at hlive ⊢
        by_cases hnew : ∀ b ∈ c.consumed, b.capToken ≠ r.capToken
        · exact .inr ⟨hfresh.mpr (.inl hnew), rfl⟩
        · simp only [not_forall, not_not] at hnew
          obtain ⟨b, hb, htoken⟩ := hnew
          have hexp : b.expiresAt = r.expiresAt := (h.consumed b hb).unique hproves htoken
          have hrow := hold b hb (hexp ▸ hlive)
          rw [htoken, hexp] at hrow
          exact .inl ⟨hrow, hlive⟩
    -- the judgements so far stand; the last one is the call's answer
    · intro pre a hpre
      rcases List.prefix_concat_iff.mp hpre with heq | hpre
      · obtain ⟨rfl, rfl⟩ := List.append_inj' heq rfl |>.imp id List.singleton_inj.mp
        exact hfresh
      · exact h.judged pre a hpre
  · cases hstep

end Sound

theorem sound_step {c c' : g.Config} {i : g.Input} (h : Sound c) (hstep : g.step c i = some c') :
    Sound c' := by
  cases i with
  | verify capToken t => exact h.verify hstep
  | consume r t => exact h.consume hstep
  | other i => exact h.other hstep

theorem sound_exec {c c' : g.Config} {is : List g.Input} (h : Sound c)
    (hexec : g.exec c is = some c') : Sound c' := by
  induction is generalizing c with
  | nil =>
    cases hexec
    exact h
  | cons i is ih =>
    obtain ⟨c₂, hstep, hrest⟩ := Option.bind_eq_some_iff.mp hexec
    exact ih (sound_step h hstep) hrest

/-! ### Passes -/

theorem Judged.snoc {l : List Consumed} {a : Consumed} (h : Judged (l ++ [a])) :
    Judged l ∧ (a.fresh = true ↔
      (∀ b ∈ l, b.capToken ≠ a.capToken) ∨ a.expiresAt < a.calledAt) :=
  ⟨fun pre b hpre => h pre b (hpre.trans (List.prefix_append l [a])), h l a List.prefix_rfl⟩

/-- The first call of a token passes. -/
theorem passes_ne_nil {l : List Consumed} (h : Judged l) {token : String}
    (htoken : ∃ a ∈ l, a.capToken = token) : passes token l ≠ [] := by
  induction l using List.reverseRecOn with
  | nil =>
    obtain ⟨a, ha, -⟩ := htoken
    exact absurd ha List.not_mem_nil
  | append_singleton l a ih =>
    obtain ⟨hl, ha⟩ := h.snoc
    rw [passes, List.filter_append]
    by_cases hbefore : ∃ b ∈ l, b.capToken = token
    · exact List.append_ne_nil_of_left_ne_nil (ih hl hbefore) _
    · obtain ⟨b, hb, heq⟩ := htoken
      have hfirst : b = a := by
        rcases List.mem_append.mp hb with hb | hb
        · exact absurd ⟨b, hb, heq⟩ hbefore
        · exact List.mem_singleton.mp hb
      subst hfirst
      -- the first one to be consumed was fresh
      have hfresh : b.fresh = true :=
        ha.mpr (.inl fun b' hb' heq' => hbefore ⟨b', hb', heq'.trans heq⟩)
      apply List.append_ne_nil_of_right_ne_nil
      rw [List.filter_cons, if_pos (decide_eq_true ⟨heq, hfresh⟩)]
      exact List.cons_ne_nil _ _

/-- **Counting.** A token passes once if every call of it but the first comes before it expires. -/
theorem length_passes_le_one {l : List Consumed} (h : Judged l) (token : String) :
    (passes token l).length ≤ 1 ↔
      l.Pairwise fun a b => a.capToken = token → b.capToken = token → b.calledAt ≤ b.expiresAt := by
  induction l using List.reverseRecOn with
  | nil => exact iff_of_true (Nat.zero_le 1) List.Pairwise.nil
  | append_singleton l a ih =>
    obtain ⟨hl, ha⟩ := h.snoc
    have hpasses : passes token (l ++ [a]) =
        passes token l ++ if a.capToken = token ∧ a.fresh = true then [a] else [] := by
      rw [passes, List.filter_append, List.filter_singleton]
      by_cases hpass : a.capToken = token ∧ a.fresh = true <;> simp [passes, hpass]
    rw [hpasses, List.length_append, List.pairwise_append, ← ih hl]
    -- only a call with this token can pass, and only if it is the first or late
    by_cases htoken : a.capToken = token
    · by_cases hbefore : ∃ b ∈ l, b.capToken = token
      · -- a later call passes if it is late
        have hpos := List.length_pos_iff.mpr (passes_ne_nil hl hbefore)
        obtain ⟨b, hb, heq⟩ := hbefore
        have hlate : a.fresh = true ↔ a.expiresAt < a.calledAt :=
          ha.trans (or_iff_right fun hnew => hnew b hb (heq.trans htoken.symm))
        constructor
        · intro hle
          have hnot : ¬(a.capToken = token ∧ a.fresh = true) := by
            intro hpass
            rw [if_pos hpass, List.length_singleton] at hle
            omega
          have hintime : a.calledAt ≤ a.expiresAt :=
            not_lt.mp fun hlt => hnot ⟨htoken, hlate.mpr hlt⟩
          refine ⟨le_trans (Nat.le_add_right _ _) hle, List.pairwise_singleton _ _, ?_⟩
          intro b' _ a' ha' _ _
          rw [List.mem_singleton.mp ha']
          exact hintime
        · rintro ⟨hle, -, hlast⟩
          have hintime := hlast b hb a List.mem_cons_self heq htoken
          rw [if_neg fun hpass => absurd hintime (not_le.mpr (hlate.mp hpass.2))]
          exact hle
      · -- nothing passed before the first call
        have hnone : passes token l = [] := by
          apply List.filter_eq_nil_iff.mpr
          intro b hb hpass
          exact hbefore ⟨b, hb, (of_decide_eq_true hpass).1⟩
        refine iff_of_true ?_ ⟨?_, List.pairwise_singleton _ _, ?_⟩
        · rw [hnone]
          split <;> simp
        · rw [hnone]
          exact Nat.zero_le 1
        · intro b hb a' _ heq _
          exact absurd ⟨b, hb, heq⟩ hbefore
    · rw [if_neg fun hpass => htoken hpass.1, List.length_nil, Nat.add_zero]
      refine ⟨fun hle => ⟨hle, List.pairwise_singleton _ _, fun b _ a' ha' _ heq => ?_⟩, And.left⟩
      rw [List.mem_singleton.mp ha'] at heq
      exact absurd heq htoken

/-- **When a capToken buys one pass.** In every run, at most one request passes with a token if and
only if every call for it but the first reaches the Treasury no later than the token's expiry. -/
theorem passes_once {c : g.Config} (h : g.Reached c) (token : String) :
    (passes token c.consumed).length ≤ 1 ↔
      c.consumed.Pairwise fun a b =>
        a.capToken = token → b.capToken = token → b.calledAt ≤ b.expiresAt := by
  obtain ⟨clock, is, hexec⟩ := h
  exact length_passes_le_one (sound_exec (.init clock) hexec).judged token

/-! ### One token

A token good until 1700001200000, with its two tags under the secret `cap secret`. -/

def smallHmac (_key message : List ℕ) : List ℕ :=
  if message.length = 30 then
    [86, 97, 44, 26, 96, 242, 42, 255, 194, 18, 197, 165, 18, 84, 189, 152, 117, 56, 173, 40, 8,
      169, 103, 210, 69, 101, 85, 142, 207, 42, 154, 145]
  else
    [51, 120, 147, 12, 103, 213, 161, 198, 85, 40, 43, 144, 23, 16, 198, 227, 94, 44, 245, 181, 90,
      229, 116, 75, 136, 83, 183, 68, 252, 0, 206, 56]

def small : Captcha := ⟨.small, smallHmac, "cap secret"⟩

def smallToken : String :=
  "018bcfee8fc0311f040102030405060756612c1a60f22affc2" ++
    "3378930c67d5a1c655282b901710c6e35e2cf5b55ae5744b8853b744fc00ce38"

/-- Two requests verify the token a second before it expires, and spend it at `t` and `t'`. -/
def smallRun (t t' : ℤ) : Option small.Config :=
  small.exec (small.init 0)
    [.verify smallToken 1700001199000, .verify smallToken 1700001199000,
      .consume ⟨smallToken, 1700001200000⟩ t, .consume ⟨smallToken, 1700001200000⟩ t']

/-- With both calls in time, the second request is turned away. -/
theorem passes_once_in_time : ∃ c, small.Reached c ∧ c.consumed.map Consumed.calledAt =
    [1700001199500, 1700001200000] ∧ (passes smallToken c.consumed).length ≤ 1 := by
  have hrun : (smallRun 1700001199500 1700001200000).map (fun c =>
      decide (c.consumed.map Consumed.calledAt = [1700001199500, 1700001200000] ∧
        c.consumed.Pairwise fun a b =>
          a.capToken = smallToken → b.capToken = smallToken → b.calledAt ≤ b.expiresAt)) =
        some true := by decide +kernel
  obtain ⟨c, hc, hdecide⟩ := Option.map_eq_some_iff.mp hrun
  obtain ⟨hcalls, hintime⟩ := of_decide_eq_true hdecide
  have hreached : small.Reached c := ⟨0, _, hc⟩
  exact ⟨c, hreached, hcalls, (passes_once hreached smallToken).mpr hintime⟩

/-- **A capToken buys two passes.** Both requests verify it in time; one spends it in its last
millisecond, the other in the next, when the Treasury has forgotten it. -/
theorem passes_twice : ∃ c, small.Reached c ∧ ¬(passes smallToken c.consumed).length ≤ 1 := by
  have hrun : (smallRun 1700001200000 1700001200001).map (fun c =>
      (passes smallToken c.consumed).length) = some 2 := by decide +kernel
  obtain ⟨c, hc, hpasses⟩ := Option.map_eq_some_iff.mp hrun
  exact ⟨c, ⟨0, _, hc⟩, by rw [hpasses]; decide⟩

end Captcha

end DashFaucet
