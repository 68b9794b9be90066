import DashFaucet.Chain.Http
import DashFaucet.Invitation

/-!
# HTTP over a socket

Reading a whole HTTP/1 response from the reads of a socket (`chain/socket.ts`). `Number` of a string
is a parameter: what matters is only which strings are integers, and which.
-/

namespace DashFaucet.Socket

def maxHead : ℕ := 64 * 1024

def maxBody : ℕ := 1024 * 1024

def crlf : List ℕ := [13, 10]

/-- The first place from `start` on where `needle` stands, if any. -/
def indexOf (haystack needle : List ℕ) (start : ℕ) : Option ℕ :=
  (List.range' start (haystack.length + 1 - needle.length - start)).find? fun i =>
    needle.isPrefixOf (haystack.drop i)

/-- Read until the stream is done. A read may throw, also when the caller gave up. -/
def readParts : ℕ → List (Except String (List ℕ)) → Except String (List (List ℕ))
  | _, [] => .ok []
  | _, .error reason :: _ => .error reason
  | total, .ok value :: reads =>
    let total := total + value.length
    if total > maxHead + maxBody then .error "HTTP response too large"
    else (readParts total reads).map (value :: ·)

/-- `/^[0-9a-f]+$/i.test(text)`. -/
def isHex (text : List Char) : Bool := !text.isEmpty && text.all fun c => (hexValue c).isSome

/-- `parseInt(text, 16)`. -/
def parseHex (text : List Char) : ℕ := Text.digitsValue 16 (fun c => (hexValue c).getD 0) text

/-- The chunks from `pos` on, put together. -/
def dechunk (data : List ℕ) (pos : ℕ) : Except String (List ℕ) :=
  match _ : indexOf data crlf pos with
  | none => .error "truncated chunked body"
  | some lineEnd =>
    let line := Utf8.decode ((data.drop pos).take (lineEnd - pos))
    let sizeText := Text.trim (line.takeWhile (· ≠ ';'))
    if isHex sizeText = false then .error ("malformed chunk size: " ++ String.ofList line)
    else
      let size := parseHex sizeText
      let start := lineEnd + 2
      if size = 0 then .ok []
      else if start + size > data.length then .error "truncated chunked body"
      -- past the chunk and the line break after it, which is not looked at
      else (dechunk data (start + size + 2)).map ((data.drop start).take size ++ ·)
termination_by data.length + 1 - pos
decreasing_by
  have hmem := List.mem_range'_1.mp (List.mem_of_find?_eq_some ‹_›)
  omega

/-- One line of the head. A line without a name is skipped. -/
def addHeader (headers : Headers) (line : List Char) : Except String Headers :=
  match Text.cut ':' line with
  | some (name, value) =>
    if name = [] then .ok headers else headers.append (Text.trim name) (Text.trim value)
  | none => .ok headers

section

variable (number : List Char → Option ℤ)

/-- The status and the headers. `number` is `Number` where that is an integer. -/
def parseHead (head : List ℕ) : Except String (ℤ × Headers) :=
  match Text.splitCrlf (Utf8.decode head) with
  | [] => .error "malformed status line"
  | statusLine :: lines =>
    let words := statusLine.splitOn ' '
    match words.head?, (words[1]?).bind number with
    | some version, some status =>
      -- the status may be any number
      if version = "HTTP/1.0".toList ∨ version = "HTTP/1.1".toList then do
        let headers ← lines.foldlM addHeader []
        .ok (status, headers)
      else .error ("malformed status line: " ++ String.ofList statusLine)
    | _, _ => .error ("malformed status line: " ++ String.ofList statusLine)

/-- `/chunked/i.test(value)`. -/
def isChunked (value : List Char) : Bool := includes "chunked" (value.map Char.toLower)

/-- The body, as the headers say it is delimited, and the headers that are left. -/
def readBody (headers : Headers) (rest : List ℕ) : Except String (List ℕ × Headers) :=
  if isChunked ((headers.get "transfer-encoding").getD []) then
    (dechunk rest 0).map fun body => (body, headers.delete "transfer-encoding")
  else
    match headers.get "content-length" with
    | none => .ok (rest, headers)
    | some value =>
      if Text.isDecimal value = false then
        .error ("malformed content-length: " ++ String.ofList value)
      else
        match number value with
        -- digits that are no integer are too many
        | none => .error "truncated HTTP body"
        | some length =>
          if rest.length < length then .error "truncated HTTP body"
          else .ok (rest.take length.toNat, headers)

/-- Read a complete HTTP/1.x response: delimited by its length, in chunks, or by the end of the
connection. -/
def readResponse (reads : List (Except String (List ℕ))) : Except String HttpResponse := do
  let parts ← readParts 0 reads
  let raw := parts.flatten
  match indexOf raw (crlf ++ crlf) 0 with
  | none =>
    .error (if raw.length > maxHead then "HTTP response head too large"
      else "truncated HTTP response")
  | some headEnd => do
    let (status, headers) ← parseHead number (raw.take headEnd)
    let (body, headers) ← readBody number headers (raw.drop (headEnd + 4))
    -- these must not carry a body
    let empty := status = 204 ∨ status = 304 ∨ status < 200
    HttpResponse.make status headers (if empty then none else some body)

end

end DashFaucet.Socket
