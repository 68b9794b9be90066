import DashFaucet.Cap
import DashFaucet.Data.Reader
import DashFaucet.Treasury.State

/-!
# The captcha's configuration

The part of `config.ts` that reads and checks the two challenge shapes, and grades a token by its
work. `Number` of a string is a parameter: what matters is only which strings are non-negative
integers.
-/

namespace DashFaucet

/-- Aggregate work cap for the soft tier. -/
def softMaxWork : ℕ := 64000000

/-- Aggregate work cap for the hard tier. -/
def hardMaxWork : ℕ := 1000000000

/-- The variables of one challenge shape. -/
structure RawCapParams where
  c : Option String
  s : Option String
  d : Option String

/-- The captcha's variables of the environment. -/
structure CapEnv where
  cap : RawCapParams
  capHard : RawCapParams

/-- The captcha's part of the resolved configuration. -/
structure CapConfig where
  capParams : CapParams
  hardCapParams : CapParams

section

variable (number : String → Option ℕ)

/-- A numeric variable: `number raw` is `Number(raw)` when that is a non-negative integer. -/
def int (name : String) (raw : Option String) (fallback : Option ℕ) : Except String ℕ :=
  match raw.filter (· ≠ ""), fallback with
  | none, some n => .ok n
  | none, none => .error s!"missing required numeric config: {name}"
  | some raw, _ =>
    match number raw with
    | some n => .ok n
    | none => .error s!"config {name} must be a non-negative integer, got {raw}"

/-- Read and validate one challenge shape. -/
def capParams (pre : String) (raw : RawCapParams) (fallback : CapParams) (maxWork : ℕ) :
    Except String CapParams := do
  let c ← int number (pre ++ "_C") raw.c (some fallback.c)
  let s ← int number (pre ++ "_S") raw.s (some fallback.s)
  let d ← int number (pre ++ "_D") raw.d (some fallback.d)
  let inRange := fun n lo hi : ℕ => decide (lo ≤ n) && decide (n ≤ hi)
  if !inRange c 1 256 || !inRange s 1 256 || !inRange d 1 6 then
    .error (s!"{pre}_C/{pre}_S must be 1..256 and {pre}_D 1..6, got c={c} s={s} d={d}")
  else
    let params : CapParams := ⟨c, s, d⟩
    let work := capWork params
    -- in range each, but too much together
    if work > maxWork then
      .error (s!"cap challenge too expensive: c={c} d={d} is {work} expected hashes > {maxWork}")
    else .ok params

/-- The captcha's part of `resolveConfig`: the hard shape must cost more than the soft one. -/
def resolveCapConfig (env : CapEnv) : Except String CapConfig := do
  let soft ← capParams number "CAP" env.cap ⟨100, 32, 4⟩ softMaxWork
  let hard ← capParams number "CAP_HARD" env.capHard ⟨50, 32, 6⟩ hardMaxWork
  let softWork := capWork soft
  let hardWork := capWork hard
  if hardWork ≤ softWork then
    .error (s!"CAP_HARD_* must cost more work than CAP_*: {hardWork} <= {softWork} expected hashes")
  else .ok ⟨soft, hard⟩

end

/-- Which tier a capToken with this challenge shape buys. -/
def capTier (cfg : CapConfig) (params : CapParams) : ProofTier :=
  if capWork params ≥ capWork cfg.hardCapParams then .hard else .soft

/-! ### What a configuration promises -/

/-- The bounds of the protocol on a challenge shape. -/
structure CapParams.InBounds (params : CapParams) : Prop where
  c : 1 ≤ params.c ∧ params.c ≤ 256
  s : 1 ≤ params.s ∧ params.s ≤ 256
  d : params.d ≤ 255

variable {number : String → Option ℕ}

theorem capParams_ok {pre : String} {raw : RawCapParams} {fallback params : CapParams} {maxWork : ℕ}
    (h : capParams number pre raw fallback maxWork = .ok params) :
    params.InBounds ∧ capWork params ≤ maxWork := by
  obtain ⟨c, -, h⟩ := Except.of_bind_ok h
  obtain ⟨s, -, h⟩ := Except.of_bind_ok h
  obtain ⟨d, -, h⟩ := Except.of_bind_ok h
  dsimp only at h
  split at h
  · cases h
  next hrange =>
    split at h
    · cases h
    next hwork =>
      cases h
      simp only [Bool.or_eq_true, Bool.not_eq_true', Bool.and_eq_false_iff, decide_eq_false_iff_not,
        not_or, not_not] at hrange
      obtain ⟨⟨hc, hs⟩, hd⟩ := hrange
      exact ⟨⟨hc, hs, hd.2.trans (by decide)⟩, not_lt.mp hwork⟩

/-- An accepted configuration has two shapes within bounds, the hard one costing more. -/
theorem resolveCapConfig_ok {env : CapEnv} {cfg : CapConfig}
    (h : resolveCapConfig number env = .ok cfg) :
    cfg.capParams.InBounds ∧ cfg.hardCapParams.InBounds ∧
      capWork cfg.capParams < capWork cfg.hardCapParams := by
  obtain ⟨soft, hsoft, h⟩ := Except.of_bind_ok h
  obtain ⟨hard, hhard, h⟩ := Except.of_bind_ok h
  dsimp only at h
  split at h
  · cases h
  next hwork =>
    cases h
    exact ⟨(capParams_ok hsoft).1, (capParams_ok hhard).1, not_le.mp hwork⟩

end DashFaucet
