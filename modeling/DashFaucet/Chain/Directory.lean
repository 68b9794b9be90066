import DashFaucet.Data.Arrays
import DashFaucet.Data.Json
import DashFaucet.Data.Text
import Mathlib.Data.List.Basic

/-!
# The directory of evonodes

Where the faucet finds evonodes to talk DAPI to (`chain/evonodes.ts`): the addresses it accepts, the
two lists it reads, and the samples it draws.

The directory holds its list by reference (`Heap`), as a sample is shuffled in place. What `fetch`
makes of a URL is a parameter, and so is `String` of a JSON value, which may throw. Discovery runs
in the background: it is started by a refresh, and changes the directory only at its end.
-/

namespace DashFaucet

inductive NetworkName where
  | testnet
  | mainnet
  deriving DecidableEq, Repr

namespace Evonodes

/-- Re-read the lists this often. -/
def refreshMs : ℕ := 60 * 60000

/-- Retry discovery sooner after it failed. -/
def retryMs : ℕ := 5 * 60000

/-- A node that failed a call is skipped for this long. -/
def benchMs : ℕ := 10 * 60000

/-- Fewer than this from a source is a broken or hostile list, not a network. -/
def minListed : ℕ := 10

/-- The URLs of the quorum service and of Platform Explorer's list. -/
def sources : NetworkName → String × String
  | .testnet => ("https://quorums.testnet.networks.dash.org/masternodes",
      "https://testnet.platform-explorer.pshenmic.dev/validators?limit=100&isActive=true")
  | .mainnet => ("https://quorums.mainnet.networks.dash.org/masternodes",
      "https://platform-explorer.pshenmic.dev/validators?limit=100&isActive=true")

/-- Healthy `platform_https` addresses, compiled in. -/
def bootstrap : NetworkName → List String
  | .testnet =>
    ["206.245.167.63:1443", "68.67.122.10:1443", "68.67.122.11:1443", "68.67.122.12:1443",
      "68.67.122.13:1443", "68.67.122.14:1443", "68.67.122.15:1443", "68.67.122.16:1443",
      "68.67.122.17:1443", "68.67.122.18:1443", "68.67.122.19:1443", "68.67.122.1:1443",
      "68.67.122.20:1443", "68.67.122.21:1443", "68.67.122.23:1443", "68.67.122.24:1443",
      "68.67.122.25:1443", "68.67.122.26:1443", "68.67.122.27:1443", "68.67.122.28:1443",
      "68.67.122.29:1443", "68.67.122.2:1443", "68.67.122.3:1443", "68.67.122.4:1443",
      "68.67.122.5:1443", "68.67.122.6:1443", "68.67.122.7:1443", "68.67.122.8:1443",
      "68.67.122.9:1443", "85.209.243.10:1443", "85.209.243.1:1443", "85.209.243.2:1443",
      "85.209.243.3:1443", "85.209.243.4:1443", "85.209.243.5:1443", "85.209.243.6:1443",
      "85.209.243.7:1443", "85.209.243.8:1443", "85.209.243.9:1443", "87.229.22.126:1443"]
  | .mainnet =>
    ["109.199.105.14:443", "109.199.108.234:443", "109.199.109.39:443", "109.199.124.135:443",
      "109.199.124.30:443", "130.162.233.186:443", "130.185.118.3:443", "132.243.197.250:443",
      "132.243.197.252:443", "132.243.197.38:443", "139.84.236.208:443", "144.91.121.81:443",
      "15.235.102.215:443", "161.97.159.172:443", "161.97.173.67:443", "161.97.180.182:443",
      "161.97.85.159:443", "178.18.254.136:443", "207.180.213.141:443", "213.199.54.171:443",
      "31.220.91.60:443", "34.210.238.67:443", "37.27.83.17:443", "44.240.99.214:443",
      "46.62.250.247:443", "5.161.103.48:443", "5.189.151.7:443", "5.199.166.218:443",
      "5.78.73.117:443", "51.68.3.29:443", "62.171.168.4:443", "62.171.171.253:443",
      "64.176.10.71:443", "84.32.22.199:443", "84.32.22.20:443", "85.190.243.3:443",
      "88.216.191.115:443", "89.35.131.39:443", "93.115.172.38:443", "95.111.232.18:443"]

/-! ### Addresses -/

/-- `\d{1,max}` at the front of a text, and what follows it. In front of a character that is no
digit it can only be all the digits there are. -/
def digitRun (max : ℕ) (text : List Char) : Option (List Char × List Char) :=
  let run := text.takeWhile Char.isDigit
  if 1 ≤ run.length ∧ run.length ≤ max then some (run, text.drop run.length) else none

/-- What follows the character `c` at the front of a text. -/
def after (c : Char) : List Char → Option (List Char)
  | d :: rest => if d = c then some rest else none
  | [] => none

/-- `IPV4_PORT.exec`: four dotted parts, and a port. -/
def ipv4Port (address : List Char) : Option (List (List Char) × List Char) := do
  let (a, rest) ← digitRun 3 address
  let rest ← after '.' rest
  let (b, rest) ← digitRun 3 rest
  let rest ← after '.' rest
  let (c, rest) ← digitRun 3 rest
  let rest ← after '.' rest
  let (d, rest) ← digitRun 3 rest
  let rest ← after ':' rest
  let (port, rest) ← digitRun 5 rest
  -- `$`: nothing behind the port
  if rest = [] then some ([a, b, c, d], port) else none

/-- False for placeholder, private, shared, link-local, documentation, benchmark and multicast
space. -/
def isPublicIpv4 (octets : List ℕ) : Bool :=
  let a := octets.getD 0 0
  let b := octets.getD 1 0
  let c := octets.getD 2 0
  !(a == 0 || a == 10 || a == 127 || decide (a ≥ 224) ||
    -- shared, link-local, private, documentation and benchmark space
    (a == 100 && decide (b ≥ 64) && decide (b ≤ 127)) ||
    (a == 169 && b == 254) ||
    (a == 172 && decide (b ≥ 16) && decide (b ≤ 31)) ||
    (a == 192 && b == 168) ||
    (a == 192 && b == 0 && (c == 0 || c == 2)) ||
    (a == 198 && (b == 18 || b == 19)) ||
    (a == 198 && b == 51 && c == 100) ||
    (a == 203 && b == 0 && c == 113))

/-- `https://ip:port` for a public IPv4 `ip:port`, or `none` for anything else. -/
def evonodeOrigin (address : String) : Option String :=
  match ipv4Port address.toList with
  | none => none
  | some (parts, portText) =>
    let octets := parts.map Text.decimal
    let port := Text.decimal portText
    if octets.any (fun o => decide (o > 255)) || decide (port < 1) || decide (port > 65535) then
      none
    else if isPublicIpv4 octets then some ("https://" ++ address) else none

/-- The origins of a list, each once. -/
def origins (addresses : List String) : List String :=
  (addresses.filterMap evonodeOrigin).eraseDups

/-! ### The lists -/

/-- `value?.name`, where `undefined` is `none`. -/
def optional (name : String) : Option Json → Option Json
  | some (.obj fields) => fields.lookup name
  | _ => none

def isStr (s : String) : Option Json → Bool
  | some (.str t) => t = s
  | _ => false

/-- Whether a condition holds of it. -/
def truthy : Option Json → Bool
  | none => false
  | some .null => false
  | some (.bool b) => b
  | some (.num n) => decide (n ≠ Number.ofInt 0)
  | some (.str s) => s ≠ ""
  | some (.arr _) => true
  | some (.obj _) => true

/-- What `flatMap` makes of `value ?? []`. -/
def spread : Option Json → List Json
  | none => []
  | some .null => []
  | some (.arr items) => items
  | some value => [value]

def isNull : Json → Bool
  | .null => true
  | _ => false

def parseQuorumService (body : Json) : Except String (List Json) :=
  match optional "data" (some body) with
  | some (.arr data) =>
    -- a property of `null` is not to be had
    if data.any isNull then .error "TypeError"
    else .ok ((data.filter fun m => isStr "ENABLED" (optional "status" (some m)) &&
      isStr "success" (optional "versionCheck" (some m))).flatMap fun m =>
        spread (optional "platform_https" (optional "addresses" (some m))))
  | _ => .error "quorum service: no data array"

/-- `value ?? -1` is `-1`. -/
def isMinusOne : Option Json → Bool
  | none => true
  | some .null => true
  | some (.num n) => n = Number.ofInt (-1)
  | _ => false

def parseExplorer (body : Json) : Except String (List Json) :=
  match optional "resultSet" (some body) with
  | some (.arr rows) =>
    if rows.any isNull then .error "TypeError"
    else
      let state := fun v => optional "state" (optional "proTxInfo" (some v))
      .ok ((rows.filter fun v => truthy (optional "isActive" (some v)) &&
        isMinusOne (optional "PoSeBanHeight" (state v))).flatMap fun v =>
          spread (optional "platform_https" (optional "addresses" (state v))))
  | _ => .error "platform explorer: no resultSet"

/-- One attempt at a list: the reply of a URL, what is found in it, and whether that is a list. -/
def attempt (string : Json → Except String String) (parse : Json → Except String (List Json))
    (reply : Except String Json) : Except String (List String) := do
  let body ← reply
  let listed ← parse body
  let addresses ← listed.mapM string
  let found := origins addresses
  if found.length < minListed then .error s!"only {found.length} usable evonodes" else .ok found

end Evonodes

/-! ### The directory -/

open Evonodes

/-- The random choices of one sample: `Math.floor(Math.random() * (i + 1))` for each place `i`. -/
structure Draw where
  choice : ℕ → ℕ
  choice_le : ∀ i, choice i ≤ i

structure EvonodeDirectory where
  network : NetworkName
  heap : Heap String
  /-- The array of the current list. -/
  nodes : ℕ
  /-- Where it came from. -/
  source : String
  nextRefresh : ℕ
  /-- Discovery is running. -/
  refreshing : Bool
  /-- Until when an origin is benched. -/
  benched : List (String × ℕ)
  nodes_lt : nodes < heap.size

namespace EvonodeDirectory

variable (directory : EvonodeDirectory)

/-- The current list. -/
def stored : List String := directory.heap.read directory.nodes

/-- A new list takes the place of the current one. -/
def relist (found : List String) : EvonodeDirectory :=
  { directory with
    heap := (directory.heap.alloc found).2
    nodes := (directory.heap.alloc found).1
    nodes_lt := by
      rw [Heap.size_alloc]
      exact Nat.lt_succ_self _ }

/-- `new EvonodeDirectory(network)`. -/
def init (network : NetworkName) : EvonodeDirectory where
  network := network
  heap := ⟨[origins (bootstrap network)]⟩
  nodes := 0
  source := "bootstrap"
  nextRefresh := 0
  refreshing := false
  benched := []
  nodes_lt := Nat.zero_lt_one

/-- A due refresh starts discovery, unless it is running. -/
def refresh (now : ℕ) : EvonodeDirectory :=
  if now < directory.nextRefresh then directory else { directory with refreshing := true }

def bench (origin : String) (now : ℕ) : EvonodeDirectory :=
  { directory with
    benched := (origin, now + benchMs) :: directory.benched.filter fun entry => entry.1 ≠ origin }

def isLive (now : ℕ) (origin : String) : Bool :=
  decide ((directory.benched.lookup origin).getD 0 ≤ now)

/-- The array that a sample is drawn from, and the heap with it: the live ones, or with everything
benched a copy of the list. -/
def pool (now : ℕ) : ℕ × Heap String :=
  let (live, heap) := directory.heap.alloc (directory.stored.filter (directory.isLive now))
  if (heap.read live).length > 0 then (live, heap) else heap.alloc (heap.read directory.nodes)

/-- Up to `n` distinct origins, at random. The clock is read by the refresh, and again. -/
def sample (asked now n : ℕ) (draw : Draw) : List String × EvonodeDirectory :=
  let started := directory.refresh asked
  -- the array that is shuffled may be the directory's own or a filtered copy
  let drawn := started.pool now
  let heap := Heap.shuffle draw.choice drawn.1 ((drawn.2.read drawn.1).length - 1) drawn.2
  ((heap.read drawn.1).take n, { started with
    heap := heap
    nodes_lt := by
      have hlt := started.nodes_lt
      simp only [heap, Heap.size_shuffle, drawn, pool]
      split
      · rw [Heap.size_alloc]
        exact Nat.lt_succ_of_lt hlt
      · rw [Heap.size_alloc, Heap.size_alloc]
        exact Nat.lt_succ_of_lt (Nat.lt_succ_of_lt hlt) })

/-- The end of discovery: the first list that is one takes the place of the current list. -/
def discovered (string : Json → Except String String) (replies : String → Except String Json)
    (now : ℕ) : EvonodeDirectory :=
  let (quorums, explorer) := sources directory.network
  let attempts := [("quorums", quorums, parseQuorumService), ("explorer", explorer, parseExplorer)]
  let found := attempts.findSome? fun (name, url, parse) =>
    (attempt string parse (replies url)).toOption.map fun found => (name, found)
  match found with
  | some (name, found) =>
    { directory.relist found with
      source := name, nextRefresh := now + refreshMs, refreshing := false }
  -- neither source listed anything: the old list stays
  | none => { directory with nextRefresh := now + retryMs, refreshing := false }

/-! ### Runs -/

inductive Event where
  | sample (asked now n : ℕ) (draw : Draw)
  | bench (origin : String) (now : ℕ)
  | refresh (now : ℕ)
  | discovered (replies : String → Except String Json) (now : ℕ)

/-- What an event makes of the directory; discovery ends only where it is running. -/
def step (string : Json → Except String String) : Event → Option EvonodeDirectory
  | .sample asked now n draw => some (directory.sample asked now n draw).2
  | .bench origin now => some (directory.bench origin now)
  | .refresh now => some (directory.refresh now)
  | .discovered replies now =>
    if directory.refreshing then some (directory.discovered string replies now) else none

/-- One event after the other. -/
def exec (string : Json → Except String String) :
    List Event → EvonodeDirectory → Option EvonodeDirectory
  | [], directory => some directory
  | event :: events, directory => (directory.step string event).bind (exec string events)

end EvonodeDirectory

end DashFaucet
