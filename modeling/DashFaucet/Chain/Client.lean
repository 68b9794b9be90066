import Mathlib.Data.List.Sort
import Mathlib.Data.Int.Order.Basic
import DashFaucet.Async.Program
import DashFaucet.Chain.Types

/-!
# The chain client

`ChainClient` (`chain/index.ts`) fans reads out over the configured explorers and relays a
transaction through every relay at once. Sampled evonodes take part, but none of them is the
authority for a decision about money.

The directory's bench list only steers which evonodes the next sample draws. Samples are answers
of the outside world here, so benching leaves no trace in the model.
-/

namespace DashFaucet

open Async

/-- Programs that may use the network; the store stays abstract. -/
abbrev Net (σ α : Type) := Async Query Answer σ Thrown α

/-- A provider further behind the best tip than this is not trusted for reads. -/
def maxLagBlocks : JsNumber := 10

/-- Evonodes asked per operation. -/
def evonodeSample : ℕ := 3

structure ProviderStatus where
  name : String
  ok : Bool
  height : Option JsNumber
  error : Option String
  deriving DecidableEq, Repr

structure UtxoSnapshot where
  utxos : List Utxo
  /-- Provider the coins came from. -/
  source : String
  /-- Best height seen across all providers. -/
  tipHeight : JsNumber
  statuses : List ProviderStatus
  deriving DecidableEq, Repr

structure BroadcastResult where
  txid : String
  /-- Providers that accepted, or reported the transaction as already known. -/
  accepted : List String
  /-- Providers that definitively rejected it. -/
  rejected : List String
  /-- Providers whose outcome is unknown. -/
  ambiguous : List String
  deriving DecidableEq, Repr

/-- The configured providers. Each is a class and a URL; `fallback` ones are only asked when no
primary could answer. `urlHostname` is `new URL(origin).hostname`, `none` where the URL parser
throws, and `sort` is how the heights of evonodes are sorted. -/
structure ChainClient where
  primarySpecs : List (ProviderKind × String)
  fallbackSpecs : List (ProviderKind × String)
  evonodes : Bool
  urlHostname : String → Option String
  sort : JsNumber.Sorting

namespace ChainClient

variable {σ : Type} (cc : ChainClient)

/-- Fixed providers asked on every operation. -/
def primary : List Provider := cc.primarySpecs.map fun s => .configured s.1 s.2

/-- Asked only when no primary source answered. -/
def fallback : List Provider := cc.fallbackSpecs.map fun s => .configured s.1 s.2

/-- The name a DAPI provider takes from its host: the address itself for a bare IPv4 host, the
first label otherwise. -/
def dapiName (origin : String) : String :=
  let host := (cc.urlHostname origin).getD ""
  if host ≠ "" ∧ host.toList.all (fun c => c.isDigit || c == '.') then "dapi:" ++ host
  else "dapi:" ++ String.ofList (host.toList.takeWhile (· != '.'))

def name : Provider → String
  | .configured .hyphen _ => "hyphen"
  | .configured .insight _ => "insight"
  | .configured .dashrpc _ => "dashrpc"
  | .configured .dapi url => cc.dapiName url
  | .evonode origin => cc.dapiName origin

/-- The fixed primaries plus a fresh random sample of evonodes. Building a provider for an origin
that is no URL throws. -/
def active : Net σ (List Provider) :=
  if cc.evonodes then do
    let origins : List String ← ask (Query.sample evonodeSample)
    if origins.all fun o => (cc.urlHostname o).isSome then
      pure (cc.primary ++ origins.map Provider.evonode)
    else .throw (.error "Invalid URL string.")
  else pure cc.primary

/-! ### Reads -/

/-- The best-known tip: configured providers count individually, several sampled evonodes by
their median, and a lone one by at most the lag allowance above the configured ones. -/
def tipHeight (providers : List Provider) (statuses : List ProviderStatus) : Option JsNumber :=
  let answers := (providers.zip statuses).filterMap fun (p, s) => s.height.map fun h => (p, h)
  let trusted := (answers.filter fun a => !a.1.isEvonode).map Prod.snd
  let sampled := (answers.filter fun a => a.1.isEvonode).map Prod.snd
  -- the sampled evonodes cast one vote, their median
  let vote : List JsNumber :=
    match sampled with
    | [] => []
    -- a lone answer is not a median: it may lead by the lag allowance at most
    | [only] =>
      if trusted.length > 0 then [JsNumber.min only (JsNumber.maximum trusted + maxLagBlocks)]
      else [only]
    | _ =>
      let sorted := cc.sort.sort sampled
      (sorted[(sorted.length - 1) / 2]?).toList
  let candidates := trusted ++ vote
  if candidates.length > 0 then some (JsNumber.maximum candidates) else none

def heights (providers : List Provider) : Net σ (List ProviderStatus) := do
  let answers : ℕ → Except String JsNumber ← ask (Query.heights providers)
  pure <| providers.zipIdx.map fun (p, i) =>
    match answers i with
    | .ok h => ⟨cc.name p, true, some h, none⟩
    | .error e => ⟨cc.name p, false, none, some e⟩

/-- Heights from the active providers, plus the fallbacks when no DAPI source answered. -/
def surveyWith : Net σ (List Provider × List ProviderStatus) := do
  let providers ← cc.active
  let statuses ← cc.heights providers
  let dapiAnswered := (providers.zip statuses).any fun (p, s) => p.isDapi && s.ok
  if dapiAnswered || cc.fallback.isEmpty then pure (providers, statuses)
  else do
    let more ← cc.heights cc.fallback
    pure (providers ++ cc.fallback, statuses ++ more)

/-- Why a provider that can list coins is not asked to. -/
def ineligible (tip : JsNumber) (p : Provider) (s : ProviderStatus) : Option String :=
  match s.ok, s.height with
  | true, some h =>
    let lag := tip - h
    if lag > maxLagBlocks then some s!"{cc.name p}: {lag.text} blocks behind tip" else none
  | _, _ => some s!"{cc.name p}: unreachable"

/-- Ask the eligible providers in order. A quick failure earns one provider, once, a second try;
a failure at the deadline does not. -/
def listFrom (address : String) :
    Bool → List Provider → List String → Net σ (Provider × List Utxo)
  | _, [], errors => .throw (.allProvidersFailed "getUtxos" errors)
  | retried, p :: rest, errors => do
    let first : Except (String × Bool) (List Utxo) ← ask (Query.listing p address)
    match first with
    | .ok utxos => pure (p, utxos)
    | .error (e, aborted) =>
      -- a quick failure earns that provider one more try, once; a timeout does not
      if !retried && !aborted then do
        let second : Except (String × Bool) (List Utxo) ← ask (Query.listing p address)
        match second with
        | .ok utxos => pure (p, utxos)
        | .error (e', _) => listFrom address true rest (errors ++ [e, e'])
      else listFrom address retried rest (errors ++ [e])

/-- Confirmed coins of `address`, from the first healthy provider that is not lagging. -/
def getUtxos (address : String) : Net σ UtxoSnapshot := do
  let (providers, statuses) ← cc.surveyWith
  match cc.tipHeight providers statuses with
  | none =>
    .throw (.allProvidersFailed "getHeight" (statuses.map fun s => s.error.getD "unknown"))
  | some tip =>
    -- `statuses` is index-aligned with `providers`
    let readers := (providers.zip statuses).filter fun (p, _) => p.canReadUtxos
    let errors := readers.filterMap fun (p, s) => cc.ineligible tip p s
    let eligible := (readers.filter fun (p, s) => (cc.ineligible tip p s).isNone).map Prod.fst
    let (source, utxos) ← listFrom address false eligible errors
    pure ⟨utxos, cc.name source, tip, statuses⟩

/-! ### Broadcast -/

/-- What one relay's outcome says. `unvouched` is an evonode's acceptance, which counts only next
to a configured relay's. -/
inductive Verdict where
  | accepted
  | unvouched
  | rejected (text : String)
  | ambiguous (text : String)
  deriving DecidableEq, Repr

/-- The reading of one relay's outcome. -/
def verdict (expectedTxid : String) (p : Provider) : Except String String → Verdict
  | .ok txid =>
    -- a node could answer with another txid
    if p.isEvonode ∧ toLowerCase txid ≠ toLowerCase expectedTxid then
      .ambiguous s!"{cc.name p}: answered with txid {txid}"
    else if p.isEvonode then .unvouched
    else .accepted
  | .error message =>
    -- known already: as good as accepted, whatever the message looks like
    if isAlreadyKnown message then
      if p.isEvonode then .unvouched else .accepted
    else
      match classifyBroadcastError message with
      | .rejected => .rejected s!"{cc.name p}: {message}"
      | .ambiguous => .ambiguous s!"{cc.name p}: {message}"

/-- The lists `relay` fills: the result and the unvouched acceptances. -/
structure Tally where
  accepted : List String
  rejected : List String
  ambiguous : List String
  unvouched : List String
  deriving DecidableEq, Repr

/-- Add one relay's verdict. -/
def Tally.push (t : Tally) (name : String) : Verdict → Tally
  | .accepted => { t with accepted := t.accepted ++ [name] }
  | .unvouched => { t with unvouched := t.unvouched ++ [name] }
  | .rejected text => { t with rejected := t.rejected ++ [text] }
  | .ambiguous text => { t with ambiguous := t.ambiguous ++ [text] }

/-- Broadcast through `relays` at once and add their verdicts. -/
def relay (relays : List Provider) (rawHex expectedTxid : String) (t : Tally) : Net σ Tally := do
  let settled : ℕ → Except String String ← ask (Query.relay relays rawHex)
  pure <| relays.zipIdx.foldl
    (fun t (p, i) => t.push (cc.name p) (cc.verdict expectedTxid p (settled i))) t

/-- Merge the unvouched acceptances: alone they prove nothing, so they are ambiguous. -/
def Tally.result (t : Tally) (txid : String) : BroadcastResult :=
  if t.accepted ≠ [] then
    ⟨txid, t.accepted ++ t.unvouched, t.rejected, t.ambiguous⟩
  else
    ⟨txid, t.accepted, t.rejected,
      t.ambiguous ++ t.unvouched.map (· ++ ": accepted, unvouched by a configured relay")⟩

/-- Broadcast to every relay at once, and to the fallbacks when no configured relay took it. -/
def broadcast (rawHex expectedTxid : String) : Net σ BroadcastResult := do
  let active ← cc.active
  let relays := active.filter (·.canBroadcast)
  if relays.isEmpty && cc.fallback.isEmpty then
    .throw (.error "no broadcast-capable providers configured")
  else do
    let first ← cc.relay relays rawHex expectedTxid ⟨[], [], [], []⟩
    let t ←
      -- the fallbacks come in when nobody has taken it
      if first.accepted.isEmpty then
        cc.relay (cc.fallback.filter (·.canBroadcast)) rawHex expectedTxid first
      else pure first
    pure (t.result expectedTxid)

/-! ### Lookups -/

/-- Whether any of `providers` knows the transaction: `some true` on a configured provider's yes,
`some false` when at least one said no, `none` when nobody could answer. -/
def knowsTx (providers : List Provider) (txid : String) : Net σ (Option Bool) := do
  let settled : ℕ → Except String Bool ← ask (Query.hasTx providers txid)
  let answers := providers.zipIdx.map fun (p, i) => (p, settled i)
  pure <|
    if answers.any fun (p, a) => !p.isEvonode && a matches .ok true then some true
    else if answers.any fun (_, a) => a matches .ok false then some false
    else none

def anyKnowsTx (txid : String) : Net σ (Option Bool) := do
  let first ← knowsTx (← cc.active) txid
  if first.isSome || cc.fallback.isEmpty then pure first
  else knowsTx cc.fallback txid

/-- Ask providers in turn until one answers. -/
def firstAnswer {α : Type} (operation none? : String) (q : Provider → Net σ (Except String α)) :
    List Provider → List String → Net σ α
  | [], errors =>
    .throw (.allProvidersFailed operation (if errors.isEmpty then [none?] else errors))
  | p :: rest, errors => do
    match ← q p with
    | .ok a => pure a
    | .error e => firstAnswer operation none? q rest (errors ++ [e])

/-- Coinbase or not, from the first provider that can answer; sampled evonodes come last. -/
def isCoinbase (txid : String) : Net σ Bool := do
  let sampled := (← cc.active).filter (·.isEvonode)
  let capable := (cc.primary ++ cc.fallback ++ sampled).filter (·.kind.hasIsCoinbase)
  firstAnswer "isCoinbase" "no provider can look up transactions"
    (fun p => ask (Query.isCoinbase p txid)) capable []

/-- ChainLock status from the first configured Core source that can answer. -/
def getChainLockStatus (txid : String) : Net σ ChainLockStatus :=
  let capable := (cc.primary ++ cc.fallback).filter (·.kind.hasChainLockStatus)
  firstAnswer "getChainLockStatus" "no Core RPC provider configured"
    (fun p => ask (Query.chainLock p txid)) capable []

end ChainClient

end DashFaucet
