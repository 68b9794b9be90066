import Mathlib.Data.Int.Notation
import Mathlib.Data.Nat.Notation
import DashFaucet.Data.JsNumber

/-!
# Chain types

The types every provider shares (`chain/types.ts`), the reading of relay errors, and the queries
the faucet puts to the outside world.

* `Utxo`, `Outpoint`, `ChainLockStatus`.
* `isAlreadyKnown`, `classifyBroadcastError`: what the text of a failed broadcast says about the
  transaction.
* `Provider`: a configured provider or a sampled evonode. The source tells them apart by object
  identity (`providers.get(origin) === provider`); only sampled ones are ever put in that map.
* `Query`, `Answer`: one query for every await that leaves the actor.
* `Thrown`: the errors the code throws.
-/

namespace DashFaucet

/-- A transaction output by transaction id and position. The source's `outpointKey` joins the two
as `txid:vout`, which determines both. -/
structure Outpoint where
  txid : String
  outputIndex : ℕ
  deriving DecidableEq, Repr

/-- An unspent output as a provider lists it. `height` is `none` when unknown or unconfirmed. -/
structure Utxo where
  txid : String
  outputIndex : ℕ
  satoshis : ℕ
  script : String
  height : Option JsNumber
  deriving DecidableEq, Repr

/-- The outpoint of a coin. -/
def Utxo.outpoint (u : Utxo) : Outpoint := ⟨u.txid, u.outputIndex⟩

structure ChainLockStatus where
  known : Bool
  height : Option ℤ
  chainLocked : Bool
  deriving DecidableEq, Repr

/-! ### Broadcast errors -/

/-- `toLowerCase` as far as ASCII text can tell: besides `A`–`Z`, the Kelvin sign and the dotted
capital I have an ASCII letter in their lower case. -/
def toLowerCase (s : String) : List Char :=
  s.toList.flatMap fun c =>
    if c = '\u212A' then ['k'] else if c = '\u0130' then ['i', '\u0307'] else [c.toLower]

/-- What is left of `text` after `pattern`, a list of character classes, when it starts there. -/
def afterMatch : List (Char → Bool) → List Char → Option (List Char)
  | [], text => some text
  | _ :: _, [] => none
  | p :: ps, c :: cs => if p c then afterMatch ps cs else none

/-- Whether `pattern` matches somewhere in the text with `edge` true of what follows it. -/
def hasMatch (pattern : List (Char → Bool)) (edge : List Char → Bool) : List Char → Bool
  | [] => (afterMatch pattern []).any edge
  | c :: cs => (afterMatch pattern (c :: cs)).any edge || hasMatch pattern edge cs

/-- The class of the characters in `s`. -/
def oneOf (s : String) : Char → Bool := fun c => s.toList.contains c

/-- The pattern that matches `s` itself. -/
def literal (s : String) : List (Char → Bool) := s.toList.map fun c d => d == c

/-- `text.includes(needle)`. -/
def includes (needle : String) (text : List Char) : Bool :=
  hasMatch (literal needle) (fun _ => true) text

/-- The word boundary `\b` after a digit. -/
def wordEnd : List Char → Bool
  | [] => true
  | c :: _ => !(c.isAlphanum || c == '_')

/-- The wordings of "your transaction is fine, stop asking". -/
def alreadyKnown : List String :=
  ["already in block chain", "already in chain", "already in the mempool", "already known",
    "txn-already-known", "txn-already-in-mempool", "-27"]

def isAlreadyKnown (message : String) : Bool :=
  let m := toLowerCase message
  alreadyKnown.any fun needle => includes needle m

/-- The literal patterns of an explicit rejection. -/
def rejectedLiterals : List String :=
  ["bad-txns", "missing inputs", "inputs-missingorspent", "mandatory-script-verify",
    "non-mandatory-script-verify", "min relay fee", "absurdly-high-fee", "dust",
    "tx decode failed", "txn-mempool-conflict"]

/-- The texts of an explicit rejection: the literals, Core's codes -22 to -26 as whole numbers,
and the grpc statuses 3 and 9. -/
def matchesRejected (m : List Char) : Bool :=
  (rejectedLiterals.any fun needle => includes needle m) ||
    hasMatch (literal "-2" ++ [oneOf "23456"]) wordEnd m ||
    hasMatch (literal "(grpc " ++ [oneOf "39"] ++ literal ")") (fun _ => true) m

/-- The transport failures, whose body could contain anything. -/
def matchesTransport (m : List Char) : Bool :=
  (["timeout", "timed out", "aborted", "abort", "network", "socket", "econn",
    "fetch failed"].any fun needle => includes needle m) ||
    hasMatch (literal "http 5" ++ [Char.isDigit, Char.isDigit]) (fun _ => true) m

inductive BroadcastFailure where
  | rejected
  | ambiguous
  deriving DecidableEq, Repr

def classifyBroadcastError (message : String) : BroadcastFailure :=
  let m := toLowerCase message
  if matchesTransport m then .ambiguous
  else if matchesRejected m then .rejected
  else .ambiguous

/-! ### Providers -/

inductive ProviderKind where
  | hyphen
  | insight
  | dashrpc
  | dapi
  deriving DecidableEq, Repr

/-- Hyphen has no broadcast route. -/
def ProviderKind.canBroadcast : ProviderKind → Bool
  | .hyphen => false
  | _ => true

/-- DAPI has no address index. -/
def ProviderKind.canReadUtxos : ProviderKind → Bool
  | .dapi => false
  | _ => true

/-- Whether the provider class has an `isCoinbase` method. -/
def ProviderKind.hasIsCoinbase : ProviderKind → Bool
  | .hyphen => false
  | _ => true

/-- Whether the provider class has a `getChainLockStatus` method. -/
def ProviderKind.hasChainLockStatus : ProviderKind → Bool
  | .dashrpc | .dapi => true
  | _ => false

/-- A provider the deployment configured, or an evonode drawn from the directory. -/
inductive Provider where
  | configured (kind : ProviderKind) (url : String)
  | evonode (origin : String)
  deriving DecidableEq, Repr

namespace Provider

def kind : Provider → ProviderKind
  | configured kind _ => kind
  | evonode _ => .dapi

def isEvonode : Provider → Bool
  | configured .. => false
  | evonode _ => true

def canBroadcast (p : Provider) : Bool := p.kind.canBroadcast

def canReadUtxos (p : Provider) : Bool := p.kind.canReadUtxos

def isDapi (p : Provider) : Bool := p.kind = .dapi

end Provider

/-! ### Queries to the outside world -/

structure EncryptedSecret where
  cipherHex : String
  ivHex : String
  deriving DecidableEq, Repr

structure VoucherKey where
  wif : String
  publicKeyHash : String
  deriving DecidableEq, Repr

/-- What the faucet waits for. -/
inductive Query where
  /-- Draw evonode origins from the directory. -/
  | sample (n : ℕ)
  /-- `getHeight` of several providers at once. -/
  | heights (providers : List Provider)
  /-- One provider's `getUtxos`. -/
  | listing (provider : Provider) (address : String)
  /-- `broadcast` to several relays at once. -/
  | relay (relays : List Provider) (rawHex : String)
  /-- `hasTx` of several providers at once. -/
  | hasTx (providers : List Provider) (txid : String)
  | isCoinbase (provider : Provider) (txid : String)
  | chainLock (provider : Provider) (txid : String)
  /-- `platformIdentityExists`. -/
  | identity (identityId : String)
  /-- Load the faucet's signing key. -/
  | loadKey
  /-- Sign: the signer draws entropy. -/
  | entropy
  | voucherKey
  | encryptWif (wif : String)
  | decryptWif (secret : EncryptedSecret)
  | randomUUID
  /-- Book the next maintenance pass. -/
  | bookAlarm (delayMs : ℤ)
  deriving DecidableEq, Repr

/-- The answers to a query. A query to several providers is answered position by position; a
failure carries its message, and a failed listing whether its deadline had passed. -/
@[reducible] def Answer : Query → Type
  | .sample _ => List String
  | .heights _ => ℕ → Except String JsNumber
  | .listing .. => Except (String × Bool) (List Utxo)
  | .relay .. => ℕ → Except String String
  | .hasTx .. => ℕ → Except String Bool
  | .isCoinbase .. => Except String Bool
  | .chainLock .. => Except String ChainLockStatus
  | .identity _ => Option Bool
  | .loadKey => Unit
  | .entropy => ℕ
  | .voucherKey => VoucherKey
  | .encryptWif _ => EncryptedSecret
  | .decryptWif _ => Except String String
  | .randomUUID => String
  | .bookAlarm _ => Unit

/-- The errors the code throws. -/
inductive Thrown where
  | insufficientFunds (available required : ℕ)
  | tooFragmented (inputs maxInputs : ℕ)
  | unconfirmedFunds (confirmed required : ℕ)
  | selfPay
  | allProvidersFailed (operation : String) (errors : List String)
  | error (message : String)
  deriving DecidableEq, Repr

def describeError : Thrown → String
  | .insufficientFunds available required =>
    s!"insufficient funds: {available} duffs available, {required} required"
  | .tooFragmented inputs maxInputs =>
    s!"payout needs {inputs} inputs; at most {maxInputs} are allowed per payout"
  | .unconfirmedFunds confirmed required =>
    s!"{required} duffs needed; only {confirmed} are confirmed, the rest is still confirming"
  | .selfPay => "refusing to pay the faucet's own address"
  | .allProvidersFailed operation errors =>
    s!"all providers failed for {operation}: " ++ " | ".intercalate errors
  | .error message => message

example : classifyBroadcastError "[insight] HTTP 400: bad-txns-inputs-missingorspent. Code:-25" =
    .rejected := by decide

example : classifyBroadcastError "HTTP 503: min relay fee" = .ambiguous := by decide

end DashFaucet
