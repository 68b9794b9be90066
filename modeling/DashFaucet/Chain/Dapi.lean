import DashFaucet.Chain.Http
import DashFaucet.Data.Double
import DashFaucet.Data.Reader
import DashFaucet.Invitation

/-!
# DAPI over grpc-web

The provider every evonode runs (`chain/dapi.ts`): its requests, and how a reply is read. A reply is
frames in a row, and its message is protobuf fields in a row. Both are read by a `Reader`: the
source's index is the length of what has been read.

Bytes are naturals below 256, numbers are doubles. `hostname` of a URL and `String` of a number are
parameters.
-/

namespace DashFaucet

namespace Dapi

/-! ### Protobuf -/

/-- The value of a field: a number, or bytes. -/
inductive Value where
  | number (n : Double)
  | bytes (data : List ℕ)
  deriving DecidableEq, Repr

/-- First value of each field, by field number. -/
abbrev Fields := List (ℕ × Value)

def uint32Be (value : ℕ) : List ℕ := (uint32Le value).reverse

def getUint32 (bytes : List ℕ) : ℕ := bytes.foldl (fun n byte => 256 * n + byte) 0

/-- A message in one frame, which is no trailer. -/
def frame (message : List ℕ) : List ℕ := 0 :: (uint32Be message.length ++ message)

def varint (n : ℕ) : List ℕ :=
  if 0x80 ≤ n then (n % 0x80 ||| 0x80) :: varint (n / 0x80) else [n]

/-- What a request has to say. -/
inductive Content where
  | text (s : List Char)
  | bytes (data : List ℕ)

def Content.data : Content → List ℕ
  | .text s => Utf8.encode s
  | .bytes data => data

/-- One length-delimited protobuf field. Every request here is a single one. -/
def field (number : ℕ) (value : Content) : List ℕ :=
  varint (number * 8 + 2) ++ varint value.data.length ++ value.data

/-- `readVarint` from where it has `result`, and the next byte counts `scale` times. -/
def readVarintFrom (result scale : Double) : List ℕ → Except String (Double × List ℕ)
  | [] => .error "truncated protobuf varint"
  | byte :: buf =>
    let result := result + .finite (byte &&& 0x7f) * scale
    let scale := scale * .finite 128
    if byte &&& 0x80 ≠ 0 then readVarintFrom result scale buf else .ok (result, buf)

def readVarint : List ℕ → Except String (Double × List ℕ) :=
  readVarintFrom (.finite 0) (.finite 1)

/-- One round of the loop of `decode`: a field by its number, or one that is skipped. -/
def readField (buf : List ℕ) : Except String (Option (ℕ × Value) × List ℕ) := do
  let (key, buf) ← readVarint buf
  match key with
  | .finite key =>
    let number := key / 8
    match key % 8 with
    | 0 => do
      let (value, buf) ← readVarint buf
      .ok (some (number, .number value), buf)
    | 2 => do
      let (length, buf) ← readVarint buf
      match length with
      | .finite length =>
        if buf.length < length then .error "truncated protobuf field"
        else .ok (some (number, .bytes (buf.take length)), buf.drop length)
      | .infinity => .error "truncated protobuf field"
      -- no comparison holds of what is no number: the field is empty, and the loop ends
      | .nan => .ok (some (number, .bytes []), [])
    -- fixed64 / fixed32: none of the fields read here
    | 1 => .ok (none, buf.drop 8)
    | 5 => .ok (none, buf.drop 4)
    | wireType => .error ("unsupported protobuf wire type " ++ toString wireType)
  | _ => .error "unsupported protobuf wire type NaN"

/-- The first value of a number stays. -/
def setField (fields : Fields) : Option (ℕ × Value) → Fields
  | some (number, value) =>
    if (fields.lookup number).isSome then fields else fields ++ [(number, value)]
  | none => fields

theorem readVarintFrom_taken {result scale n : Double} {input rest : List ℕ}
    (h : readVarintFrom result scale input = .ok (n, rest)) :
    ∃ chunk, chunk ≠ [] ∧ input = chunk ++ rest := by
  induction input generalizing result scale with
  | nil => cases h
  | cons byte buf ih =>
    rw [readVarintFrom] at h
    split at h
    · obtain ⟨chunk, -, rfl⟩ := ih h
      exact ⟨byte :: chunk, List.cons_ne_nil _ _, rfl⟩
    · cases h
      exact ⟨[byte], List.cons_ne_nil _ _, rfl⟩

/-- What is done with a varint is done with what is behind it. -/
theorem readVarint_bind {α : Type} {input : List ℕ} {f : Double × List ℕ → Except String α} {a : α}
    (h : readVarint input >>= f = .ok a) :
    ∃ n chunk rest, chunk ≠ [] ∧ input = chunk ++ rest ∧ f (n, rest) = .ok a := by
  cases hread : readVarint input with
  | error reason =>
    rw [hread] at h
    cases h
  | ok result =>
    obtain ⟨n, rest⟩ := result
    obtain ⟨chunk, hne, hinput⟩ := readVarintFrom_taken hread
    rw [hread] at h
    exact ⟨n, chunk, rest, hne, hinput, h⟩

theorem readField_taken {input rest : List ℕ} {item : Option (ℕ × Value)}
    (h : readField input = .ok (item, rest)) : ∃ chunk, chunk ≠ [] ∧ input = chunk ++ rest := by
  obtain ⟨key, chunk, buf, hne, rfl, hbehind⟩ := readVarint_bind h
  -- the key is something, and what is left is a suffix of what follows it
  suffices hrest : rest <:+ buf by
    obtain ⟨more, rfl⟩ := hrest
    exact ⟨chunk ++ more, List.append_ne_nil_of_left_ne_nil hne _, (List.append_assoc _ _ _).symm⟩
  dsimp only at hbehind
  split at hbehind
  · split at hbehind
    · -- a number is all there is
      obtain ⟨value, more, buf, -, rfl, hvalue⟩ := readVarint_bind hbehind
      cases hvalue
      exact List.suffix_append _ _
    · -- behind a length there are the bytes
      obtain ⟨length, more, buf, -, rfl, hdata⟩ := readVarint_bind hbehind
      refine List.IsSuffix.trans ?_ (List.suffix_append more buf)
      dsimp only at hdata
      split at hdata
      · split at hdata
        · cases hdata
        · cases hdata
          exact List.drop_suffix _ _
      · cases hdata
      · cases hdata
        exact List.nil_suffix
    · cases hbehind
      exact List.drop_suffix _ _
    · cases hbehind
      exact List.drop_suffix _ _
    · cases hbehind
  · cases hbehind

/-- The fields of a message, one at a time. -/
def fieldReader : Reader String ℕ (Option (ℕ × Value)) := ⟨readField, readField_taken⟩

def decode (buf : List ℕ) : Except String Fields := fieldReader.fold setField [] buf

/-! ### Frames -/

structure Frame where
  flag : ℕ
  payload : List ℕ

def Frame.isTrailer (frame : Frame) : Bool := frame.flag &&& 0x80 != 0

/-- One round of the loop over the frames. -/
def readFrame : List ℕ → Except String (Frame × List ℕ)
  | [] => .error "truncated grpc-web frame"
  | flag :: body =>
    if body.length < 4 then .error "truncated grpc-web frame"
    else
      let length := getUint32 (body.take 4)
      let body := body.drop 4
      if body.length < length then .error "truncated grpc-web frame"
      else .ok (⟨flag, body.take length⟩, body.drop length)

theorem readFrame_taken {input rest : List ℕ} {item : Frame}
    (h : readFrame input = .ok (item, rest)) : ∃ chunk, chunk ≠ [] ∧ input = chunk ++ rest := by
  cases input with
  | nil => cases h
  | cons flag body =>
    rw [readFrame] at h
    split at h
    · cases h
    dsimp only at h
    split at h
    · cases h
    · cases h
      refine ⟨flag :: (body.take 4 ++ (body.drop 4).take (getUint32 (body.take 4))),
        List.cons_ne_nil _ _, ?_⟩
      rw [List.cons_append, List.append_assoc, List.take_append_drop, List.take_append_drop]

def frameReader : Reader String ℕ Frame := ⟨readFrame, readFrame_taken⟩

/-- What the loop over the frames gathers. -/
structure Reply where
  message : Option (List ℕ)
  trailers : List (List Char)

def Reply.add (reply : Reply) (frame : Frame) : Reply :=
  if frame.isTrailer then { reply with trailers := reply.trailers ++ [Utf8.decode frame.payload] }
  else { reply with message := reply.message.or (some frame.payload) }

/-- What a line says of `name`. -/
def headerLine (name : String) (line : List Char) : Option (List Char) :=
  match Text.cut ':' line with
  | some (before, after) =>
    if before ≠ [] ∧ toLowerCase (String.ofList (Text.trim before)) = name.toList then
      some (Text.trim after)
    else none
  | none => none

def header (block : List Char) (name : String) : Option (List Char) :=
  (Text.splitCrlf block).findSome? (headerLine name)

/-! ### Calls -/

/-- The bytes of a text in which some are written as `%` and two digits. -/
def percentBytes : List Char → Option (List ℕ)
  | [] => some []
  | '%' :: h :: l :: rest => do
    let high ← hexValue h
    let low ← hexValue l
    let bytes ← percentBytes rest
    some ((16 * high + low) :: bytes)
  | '%' :: _ => none
  | c :: rest => (percentBytes rest).map (Utf8.encode [c] ++ ·)

/-- `decodeURIComponent`, or `none` where it throws. -/
def decodeURIComponent (text : List Char) : Option (List Char) := do
  let bytes ← percentBytes text
  let decoded := Utf8.scan none bytes
  if Utf8.encode decoded = bytes then some decoded else none

/-- What a call throws: a `ProviderError`, the same with a grpc status, or an `Error` of the
transport or the decoder. -/
inductive Failure where
  | provider (message : String)
  | grpc (code : Double) (message : String)
  | error (message : String)
  deriving DecidableEq, Repr

end Dapi

open Dapi

/-- A request over HTTP. -/
structure HttpRequest where
  url : String
  method : String
  headers : List (String × String)
  body : List ℕ

structure DapiProvider where
  origin : String
  /-- `new URL(origin).hostname`. -/
  host : List Char

namespace DapiProvider

def service : String := "org.dash.platform.dapi.v0.Core"

def userAgent : String := "dash-faucet/1.0 (+https://github.com/PastaPastaPasta/dash-faucet)"

def name (provider : DapiProvider) : String :=
  "dapi:" ++ String.ofList
    (if provider.host ≠ [] ∧ provider.host.all fun c => c.isDigit || c == '.' then provider.host
    else provider.host.takeWhile (· ≠ '.'))

/-- The text of a `ProviderError`. -/
def errorText (provider : DapiProvider) (message : String) : String :=
  "[" ++ provider.name ++ "] " ++ message

def request (provider : DapiProvider) (method : String) (message : List ℕ) : HttpRequest where
  url := provider.origin ++ "/" ++ service ++ "/" ++ method
  method := "POST"
  headers := [("content-type", "application/grpc-web+proto"), ("x-grpc-web", "1"),
    ("User-Agent", userAgent)]
  body := frame message

section

variable (string : Double → String) (provider : DapiProvider)

/-- What `call` makes of a response. -/
def readReply (method : String) (res : HttpResponse) : Except Failure Fields :=
  if res.ok = false then
    .error (.provider (provider.errorText ("HTTP " ++ toString res.status ++ " for " ++ method)))
  else if ¬"application/grpc-web".toList <+: (res.headers.get "content-type").getD [] then
    .error (.provider (provider.errorText ("non-grpc-web response for " ++ method)))
  else
    match frameReader.fold Reply.add ⟨none, []⟩ (res.body.getD []) with
    | .error reason => .error (.provider (provider.errorText reason))
    | .ok reply =>
      let block := ['\r', '\n'].intercalate reply.trailers
      -- a "trailers-only" reply carries the status in the HTTP headers instead
      match (header block "grpc-status").or (res.headers.get "grpc-status") with
      | none => .error (.provider (provider.errorText (method ++ " returned no grpc-status")))
      | some status =>
        if Text.isDecimal status = false then
          .error (.provider (provider.errorText (method ++ " returned no grpc-status")))
        else
          let code := Double.round (Text.decimal status)
          if code ≠ .finite 0 then
            let raw := ((header block "grpc-message").or (res.headers.get "grpc-message")).getD []
            let text := (decodeURIComponent raw).getD raw
            .error (.grpc code (provider.errorText
              (method ++ " failed (grpc " ++ string code ++ "): " ++ String.ofList text)))
          else
            match reply.message with
            | none => .error (.provider (provider.errorText (method ++ " returned no message")))
            | some message => (decode message).mapError .error

/-- One call: a request, and its reply. -/
def call (transport : HttpRequest → Except String HttpResponse) (method : String)
    (message : List ℕ) : Except Failure Fields :=
  match transport (provider.request method message) with
  | .error reason => .error (.error reason)
  | .ok res => provider.readReply string method res

def getHeight (transport : HttpRequest → Except String HttpResponse) : Except Failure Double := do
  let fields ← provider.call string transport "getBestBlockHeight" []
  let missing := Failure.provider (provider.errorText "getBestBlockHeight returned no height")
  match fields.lookup 1 with
  | some (.number height) => if height = .finite 0 then .error missing else .ok height
  | _ => .error missing

end

end DapiProvider

end DashFaucet
