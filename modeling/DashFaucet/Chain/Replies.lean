import Mathlib.Tactic.Ring
import DashFaucet.Chain.Dapi

/-!
# DAPI replies are read back

What `call` returns is what the reply says, and it returns something only for a success.

* `Digits`, `IsVarint`: the ways to write a number, padding included. `IsVarint.read` says that
  doubles lose nothing of a number below `2 ^ 53`.
* `WireField`, `Frame.Encodes`: fields and frames, and their bytes.
* `Succeeds`: a response that is a success.
* `readReply_eq_ok_iff`: when a reply is read, and as what.
* `call_exact`: replies are read back, only successes are, and requests are what they should be.
-/

namespace DashFaucet.Dapi

/-! ### Numbers -/

/-- The digits of a number to the base 128, the last digit first. All but the last have their high
bit set, and there may be zeros at the end. -/
inductive Digits : ℕ → List ℕ → Prop
  | last {b : ℕ} (h : b < 128) : Digits b [b]
  | more {b n : ℕ} {bytes : List ℕ} (h : b < 128) (rest : Digits n bytes) :
      Digits (b + 128 * n) ((128 + b) :: bytes)

/-- A varint of a number that is a double. The format allows ten bytes. -/
structure IsVarint (n : ℕ) (bytes : List ℕ) : Prop where
  digits : Digits n bytes
  lt : n < 2 ^ 53
  length_le : bytes.length ≤ 10

/-- What the two masks say of a byte. -/
theorem and_masks : ∀ b < 128, b &&& 0x7f = b ∧ b &&& 0x80 = 0 ∧
    (128 + b) &&& 0x7f = b ∧ (128 + b) &&& 0x80 = 0x80 := by
  decide

theorem readVarintFrom_last {b : ℕ} (hb : b < 128) (result scale : Double) (rest : List ℕ) :
    readVarintFrom result scale (b :: rest) = .ok (result + .finite b * scale, rest) := by
  obtain ⟨hlow, hhigh, -, -⟩ := and_masks b hb
  rw [readVarintFrom, hlow, hhigh, if_neg (by decide)]

theorem readVarintFrom_more {b : ℕ} (hb : b < 128) (result scale : Double) (rest : List ℕ) :
    readVarintFrom result scale ((128 + b) :: rest) =
      readVarintFrom (result + .finite b * scale) (scale * .finite 128) rest := by
  obtain ⟨-, -, hlow, hhigh⟩ := and_masks b hb
  rw [readVarintFrom, hlow, hhigh, if_pos (by decide)]

theorem Digits.length_pos {n : ℕ} {bytes : List ℕ} (h : Digits n bytes) : 0 < bytes.length := by
  cases h <;> exact Nat.succ_pos _

/-- **Digits are added up without a loss** if the sum is a double, and the weights are. -/
theorem Digits.read {n : ℕ} {bytes : List ℕ} (h : Digits n bytes) (result j : ℕ) (rest : List ℕ)
    (hlt : result < 2 ^ (7 * j)) (hsum : Double.IsDouble (result + n * 2 ^ (7 * j)))
    (hlen : j + bytes.length ≤ 147) :
    readVarintFrom (.finite result) (.finite (2 ^ (7 * j))) (bytes ++ rest) =
      .ok (.finite (result + n * 2 ^ (7 * j)), rest) := by
  -- over the digits: each one read weighs 128 times the one before
  induction h generalizing result j with
  | @last b hb =>
    have hweighed : Double.IsDouble (b * 2 ^ (7 * j)) := hsum.mul_two_pow (by omega)
    rw [List.cons_append, readVarintFrom_last hb, Double.mul_finite hweighed,
      Double.add_finite hsum]
    rfl
  | @more b n bytes hb hrest ih =>
    have hpos := hrest.length_pos
    rw [List.length_cons] at hlen
    have hweight : 2 ^ (7 * (j + 1)) = 128 * 2 ^ (7 * j) := by
      rw [Nat.mul_add, Nat.pow_add, Nat.mul_comm]
    have htotal : result + (b + 128 * n) * 2 ^ (7 * j) =
        result + b * 2 ^ (7 * j) + n * 2 ^ (7 * (j + 1)) := by
      rw [hweight]
      ring
    have hscale : Double.finite (2 ^ (7 * j)) * .finite 128 = .finite (2 ^ (7 * (j + 1))) :=
      Double.mul_two_pow (show 7 * j + 7 < 1024 by omega)
    have hnext : result + b * 2 ^ (7 * j) < 2 ^ (7 * (j + 1)) := by
      have hle : (b + 1) * 2 ^ (7 * j) ≤ 128 * 2 ^ (7 * j) := Nat.mul_le_mul_right _ hb
      rw [Nat.add_mul, Nat.one_mul] at hle
      rw [hweight]
      omega
    -- the sum so far is the low digits of the whole, so it is a double too
    have hsofar : Double.IsDouble (result + b * 2 ^ (7 * j)) := by
      have hmod := hsum.mod (7 * (j + 1))
      rwa [htotal, Nat.add_mul_mod_self_right, Nat.mod_eq_of_lt hnext] at hmod
    have hweighed : Double.IsDouble (b * 2 ^ (7 * j)) := hsofar.mul_two_pow (by omega)
    rw [htotal] at hsum ⊢
    rw [List.cons_append, readVarintFrom_more hb, Double.mul_finite hweighed,
      Double.add_finite hsofar, hscale]
    exact ih _ _ hnext hsum (by omega)

/-- **A varint reads as its number**, whatever follows. -/
theorem IsVarint.read {n : ℕ} {bytes : List ℕ} (h : IsVarint n bytes) (rest : List ℕ) :
    readVarint (bytes ++ rest) = .ok (.finite n, rest) := by
  have hlen := h.length_le
  have hone : 0 + n * 2 ^ (7 * 0) = n := by
    rw [Nat.zero_add, Nat.mul_zero, Nat.pow_zero, Nat.mul_one]
  have hread := h.digits.read 0 0 rest (by decide) (by
    rw [hone]
    exact Double.isDouble_of_lt h.lt) (by omega)
  rwa [hone] at hread

/-- `varint` writes digits. -/
theorem digits_varint (n : ℕ) : Digits n (varint n) := by
  induction n using varint.induct with
  | case1 n hn ih =>
    have hbyte : n % 0x80 ||| 0x80 = 128 + n % 128 := by
      rw [Nat.or_comm]
      exact (Nat.two_pow_add_eq_or_of_lt (i := 7) (Nat.mod_lt _ (by decide)) 1).symm
    have hsplit : n % 128 + 128 * (n / 128) = n := Nat.mod_add_div n 128
    rw [varint, if_pos hn, hbyte]
    have hmore := Digits.more (Nat.mod_lt n (by decide)) ih
    rwa [hsplit] at hmore
  | case2 n hn =>
    rw [varint, if_neg hn]
    exact .last (not_le.mp hn)

theorem length_varint_le (k n : ℕ) (h : n < 128 ^ (k + 1)) : (varint n).length ≤ k + 1 := by
  induction k generalizing n with
  | zero =>
    rw [varint, if_neg (by omega)]
    exact le_rfl
  | succ k ih =>
    rw [varint]
    split
    · have hdiv : n / 0x80 < 128 ^ (k + 1) := by
        rw [Nat.div_lt_iff_lt_mul (by decide)]
        exact h
      exact Nat.succ_le_succ (ih _ hdiv)
    · exact Nat.succ_le_succ (Nat.zero_le _)

theorem isVarint_varint {n : ℕ} (h : n < 2 ^ 53) : IsVarint n (varint n) where
  digits := digits_varint n
  lt := h
  length_le := length_varint_le 9 n (h.trans (by decide))

/-! ### Fields -/

/-- A field as it is written. -/
inductive WireField where
  | varint (number value : ℕ)
  | fixed64 (number : ℕ) (data : List ℕ)
  | bytes (number : ℕ) (data : List ℕ)
  | fixed32 (number : ℕ) (data : List ℕ)

namespace WireField

/-- Its key tells its number and its wire type. -/
inductive Encodes : WireField → List ℕ → Prop
  | varint {number value : ℕ} {key chunk : List ℕ} (hkey : IsVarint (number * 8 + 0) key)
      (hvalue : IsVarint value chunk) : Encodes (.varint number value) (key ++ chunk)
  | fixed64 {number : ℕ} {key data : List ℕ} (hkey : IsVarint (number * 8 + 1) key)
      (hdata : data.length = 8) : Encodes (.fixed64 number data) (key ++ data)
  | bytes {number : ℕ} {key length data : List ℕ} (hkey : IsVarint (number * 8 + 2) key)
      (hlength : IsVarint data.length length) : Encodes (.bytes number data) (key ++ length ++ data)
  | fixed32 {number : ℕ} {key data : List ℕ} (hkey : IsVarint (number * 8 + 5) key)
      (hdata : data.length = 4) : Encodes (.fixed32 number data) (key ++ data)

/-- What there is to know of it. -/
def item : WireField → Option (ℕ × Value)
  | .varint number value => some (number, .number (.finite value))
  | .bytes number data => some (number, .bytes data)
  | .fixed64 _ _ => none
  | .fixed32 _ _ => none

/-- Its value, if it is the field `number` and not one of fixed width. -/
def value? (number : ℕ) (f : WireField) : Option Value :=
  f.item.bind fun entry => if entry.1 = number then some entry.2 else none

/-- **A field reads as what it says**, whatever follows. -/
theorem Encodes.reads {f : WireField} {chunk : List ℕ} (h : Encodes f chunk) :
    fieldReader.Reads chunk f.item := by
  intro rest
  show readField (chunk ++ rest) = .ok (f.item, rest)
  cases h with
  -- for each wire type the key says which branch is taken
  | @varint number value key chunk hkey hvalue =>
    have hnumber : (number * 8 + 0) / 8 = number := by omega
    have htype : (number * 8 + 0) % 8 = 0 := by omega
    rw [List.append_assoc, readField, hkey.read]
    simp only [bind, Except.bind, htype, hnumber, hvalue.read]
    rfl
  | @fixed64 number key data hkey hdata =>
    have htype : (number * 8 + 1) % 8 = 1 := by omega
    have hskip : (data ++ rest).drop 8 = rest := by rw [← hdata, List.drop_left]
    rw [List.append_assoc, readField, hkey.read]
    simp only [bind, Except.bind, htype, hskip]
    rfl
  | @bytes number key length data hkey hlength =>
    have hnumber : (number * 8 + 2) / 8 = number := by omega
    have htype : (number * 8 + 2) % 8 = 2 := by omega
    have hfits : ¬(data ++ rest).length < data.length := by
      rw [List.length_append]
      omega
    rw [List.append_assoc, List.append_assoc, readField, hkey.read]
    simp only [bind, Except.bind, htype, hnumber, hlength.read, if_neg hfits, List.take_left,
      List.drop_left]
    rfl
  | @fixed32 number key data hkey hdata =>
    have htype : (number * 8 + 5) % 8 = 5 := by omega
    have hskip : (data ++ rest).drop 4 = rest := by rw [← hdata, List.drop_left]
    rw [List.append_assoc, readField, hkey.read]
    simp only [bind, Except.bind, htype, hskip]
    rfl

end WireField

/-- The first value of the field `number`. -/
def firstValue (fields : List WireField) (number : ℕ) : Option Value :=
  fields.findSome? (WireField.value? number)

theorem lookup_setField (fields : Fields) (item : Option (ℕ × Value)) (number : ℕ) :
    (setField fields item).lookup number =
      (fields.lookup number).or
        (item.bind fun entry => if entry.1 = number then some entry.2 else none) := by
  cases item with
  | none => exact Option.or_none.symm
  | some entry =>
    obtain ⟨n, value⟩ := entry
    rw [setField, Option.bind_some]
    by_cases hn : n = number
    · -- only the first value of a number is kept
      have hone : List.lookup number [(number, value)] = some value := List.lookup_cons_self
      rw [if_pos hn, hn]
      cases hlookup : fields.lookup number with
      | none =>
        rw [Option.isSome_none, if_neg Bool.false_ne_true, List.lookup_append, hlookup, hone]
      | some first =>
        rw [Option.isSome_some, if_pos rfl, hlookup]
        rfl
    · have hother : List.lookup number [(n, value)] = none :=
        List.lookup_eq_none_iff.mpr fun entry hentry => by
          rw [List.mem_singleton.mp hentry]
          exact bne_iff_ne.mpr fun heq => hn heq.symm
      rw [if_neg hn, Option.or_none]
      split
      · rfl
      · rw [List.lookup_append, hother, Option.or_none]

theorem firstValue_cons (f : WireField) (fields : List WireField) (number : ℕ) :
    firstValue (f :: fields) number = (f.value? number).or (firstValue fields number) := by
  rw [firstValue, List.findSome?_cons]
  cases f.value? number with
  | none => rfl
  | some value => rfl

/-- **The fields of a message come out with their first values.** -/
theorem lookup_foldl (fields : List WireField) (acc : Fields) (number : ℕ) :
    ((fields.map WireField.item).foldl setField acc).lookup number =
      (acc.lookup number).or (firstValue fields number) := by
  -- what is there already comes before what the rest says
  induction fields generalizing acc with
  | nil => exact Option.or_none.symm
  | cons f fields ih =>
    rw [List.map_cons, List.foldl_cons, ih, lookup_setField, Option.or_assoc, firstValue_cons,
      WireField.value?]

theorem decode_fields {fields : List WireField} {chunks : List (List ℕ)}
    (h : List.Forall₂ WireField.Encodes fields chunks) :
    decode chunks.flatten = .ok ((fields.map WireField.item).foldl setField []) := by
  refine Reader.fold_flatten setField ?_ []
  rw [List.forall₂_map_right_iff]
  exact (List.Forall₂.flip (R := flip WireField.Encodes) h).imp fun _ _ hf => hf.reads

/-- **A request is its field.** -/
theorem decode_field {number : ℕ} {value : Content} (hnumber : number * 8 + 2 < 2 ^ 53)
    (hvalue : value.data.length < 2 ^ 53) :
    decode (field number value) = .ok [(number, .bytes value.data)] := by
  have hencodes : WireField.Encodes (.bytes number value.data) (field number value) :=
    .bytes (isVarint_varint hnumber) (isVarint_varint hvalue)
  have hdecode := decode_fields (.cons hencodes .nil)
  rwa [List.flatten_singleton] at hdecode

/-! ### Frames -/

/-- A flag, the length of the payload in four bytes, and the payload. -/
def Frame.Encodes (frame : Frame) (chunk : List ℕ) : Prop :=
  ∃ size : List ℕ, size.length = 4 ∧ getUint32 size = frame.payload.length ∧
    chunk = frame.flag :: (size ++ frame.payload)

theorem Frame.Encodes.reads {frame : Frame} {chunk : List ℕ} (h : frame.Encodes chunk) :
    frameReader.Reads chunk frame := by
  intro rest
  obtain ⟨size, hsize, hlength, rfl⟩ := h
  have htake : (size ++ (frame.payload ++ rest)).take 4 = size := by rw [← hsize, List.take_left]
  have hdrop : (size ++ (frame.payload ++ rest)).drop 4 = frame.payload ++ rest := by
    rw [← hsize, List.drop_left]
  show readFrame (frame.flag :: (size ++ frame.payload) ++ rest) = .ok (frame, rest)
  -- the four bytes and the payload are there, whatever is behind them
  rw [List.cons_append, List.append_assoc, readFrame, htake, hdrop, hlength, if_neg, if_neg,
    List.take_left, List.drop_left]
  · rw [List.length_append]
    omega
  · rw [List.length_append]
    omega

theorem Frame.encodes_of_takes {frame : Frame} {chunk : List ℕ}
    (h : frameReader.Takes chunk frame) : frame.Encodes chunk := by
  obtain ⟨rest, hread⟩ := h
  replace hread : readFrame (chunk ++ rest) = .ok (frame, rest) := hread
  cases hinput : chunk ++ rest with
  | nil =>
    rw [hinput] at hread
    cases hread
  | cons flag body =>
    rw [hinput, readFrame] at hread
    split at hread
    · cases hread
    next hhead =>
    dsimp only at hread
    split at hread
    · cases hread
    next hfits =>
      obtain ⟨hframe, hrest⟩ := Prod.mk.inj (Except.ok.inj hread)
      subst hframe
      refine ⟨body.take 4, ?_, ?_, ?_⟩
      · rw [List.length_take]
        omega
      · rw [List.length_take]
        omega
      · -- what is not the rest is the chunk
        have hwhole : chunk ++ rest = flag :: (body.take 4 ++
            (body.drop 4).take (getUint32 (body.take 4))) ++ rest := by
          rw [hinput, ← hrest, List.cons_append, List.append_assoc, List.take_append_drop,
            List.take_append_drop]
        exact List.append_cancel_right hwhole

/-- A body in frames. -/
def IsFrames (body : List ℕ) (frames : List Frame) : Prop :=
  ∃ chunks : List (List ℕ), body = chunks.flatten ∧ List.Forall₂ Frame.Encodes frames chunks

/-- The payload of the first data frame. -/
def firstData (frames : List Frame) : Option (List ℕ) :=
  (frames.find? fun frame => !frame.isTrailer).map Frame.payload

/-- The texts of the trailer frames. -/
def trailers (frames : List Frame) : List (List Char) :=
  (frames.filter Frame.isTrailer).map fun frame => Utf8.decode frame.payload

theorem foldl_add (frames : List Frame) (reply : Reply) : frames.foldl Reply.add reply =
    ⟨reply.message.or (firstData frames), reply.trailers ++ trailers frames⟩ := by
  induction frames generalizing reply with
  | nil =>
    show reply = ⟨reply.message.or none, reply.trailers ++ []⟩
    rw [Option.or_none, List.append_nil]
  | cons frame frames ih =>
    rw [List.foldl_cons, ih, Reply.add, firstData, firstData, trailers, trailers]
    -- a trailer leaves the message alone, a data frame the trailers
    cases htrailer : frame.isTrailer with
    | true =>
      rw [if_pos rfl, List.find?_cons_of_neg (by rw [htrailer]; exact Bool.false_ne_true),
        List.filter_cons_of_pos htrailer, List.map_cons, List.append_assoc]
      rfl
    | false =>
      rw [if_neg Bool.false_ne_true, List.find?_cons_of_pos (by rw [htrailer]; rfl),
        List.filter_cons_of_neg (by rw [htrailer]; exact Bool.false_ne_true)]
      cases reply.message with
      | none => rfl
      | some message => rfl

/-- **The loop over the frames accepts frames, and gathers what is in them.** -/
theorem fold_add_eq_ok_iff {body : List ℕ} {reply : Reply} :
    frameReader.fold Reply.add ⟨none, []⟩ body = .ok reply ↔
      ∃ frames, IsFrames body frames ∧ reply = ⟨firstData frames, trailers frames⟩ := by
  constructor
  · intro h
    obtain ⟨chunks, frames, rfl, hframes, rfl⟩ := Reader.fold_ok _ h
    refine ⟨frames, ⟨chunks, rfl, ?_⟩, foldl_add frames _⟩
    exact .flip (hframes.imp fun chunk frame => Frame.encodes_of_takes)
  · rintro ⟨frames, ⟨chunks, rfl, hframes⟩, rfl⟩
    rw [Reader.fold_flatten _ (List.Forall₂.flip (hframes.imp fun frame chunk hf => hf.reads)),
      foldl_add]
    rfl

/-- A request is one frame, and no trailer. -/
theorem encodes_frame {message : List ℕ} (h : message.length < 2 ^ 32) :
    Frame.Encodes ⟨0, message⟩ (frame message) := by
  refine ⟨uint32Be message.length, rfl, ?_, rfl⟩
  show 256 * (256 * (256 * (256 * 0 + message.length / 256 ^ 3 % 256) +
    message.length / 256 ^ 2 % 256) + message.length / 256 ^ 1 % 256) +
      message.length / 256 ^ 0 % 256 = message.length
  omega

/-! ### Statuses -/

/-- What the frames say of `name`, or else the HTTP headers. -/
def effective (frames : List Frame) (headers : Headers) (name : String) : Option (List Char) :=
  (((trailers frames).flatMap Text.splitCrlf).findSome? (headerLine name)).or (headers.get name)

/-- The trailers are put together and cut into their lines. -/
theorem header_intercalate (texts : List (List Char)) (name : String) :
    header (['\r', '\n'].intercalate texts) name =
      (texts.flatMap Text.splitCrlf).findSome? (headerLine name) := by
  induction texts with
  | nil => rfl
  | cons text texts ih =>
    -- a line break between two texts separates their lines
    cases texts with
    | nil => rw [List.intercalate_singleton, List.flatMap_singleton, header]
    | cons text' texts =>
      rw [header] at ih
      rw [List.intercalate_cons_cons, header, List.append_assoc, List.flatMap_cons,
        List.findSome?_append, ← ih, ← List.findSome?_append]
      exact congrArg _ (Text.splitCrlf_append _ _)

/-- A response that is a success: grpc-web, frames and nothing else, a message, and the status 0. -/
structure Succeeds (res : HttpResponse) (frames : List Frame) : Prop where
  ok : res.ok = true
  contentType : "application/grpc-web".toList <+: (res.headers.get "content-type").getD []
  body : IsFrames (res.body.getD []) frames
  data : (firstData frames).isSome = true
  status : ∃ status, effective frames res.headers "grpc-status" = some status ∧
    Text.isDecimal status = true ∧ Text.decimal status = 0

section

variable {string : Double → String} {provider : DapiProvider} {method : String}
  {res : HttpResponse} {fields : Fields}

/-- **When a reply is read, and as what.** -/
theorem readReply_eq_ok_iff : provider.readReply string method res = .ok fields ↔
    ∃ frames message, Succeeds res frames ∧ firstData frames = some message ∧
      decode message = .ok fields := by
  constructor
  · intro h
    rw [DapiProvider.readReply] at h
    -- check by check: only the last branch returns anything
    split at h
    · cases h
    next hok =>
    split at h
    · cases h
    next htype =>
    split at h
    · cases h
    next reply hreply =>
    obtain ⟨frames, hframes, rfl⟩ := fold_add_eq_ok_iff.mp hreply
    dsimp only at h
    rw [header_intercalate] at h
    -- there is a status, it is digits, and it is zero
    split at h
    · cases h
    next status hstatus =>
    split at h
    · cases h
    next hdecimal =>
    split at h
    · cases h
    next hcode =>
    split at h
    · cases h
    next message hmessage =>
    refine ⟨frames, message, ⟨by simpa using hok, not_not.mp htype, hframes, ?_, status, hstatus,
      by simpa using hdecimal, Double.round_eq_zero.mp (not_not.mp hcode)⟩, hmessage, ?_⟩
    · rw [hmessage]
      rfl
    · cases hdecode : decode message with
      | error reason =>
        rw [hdecode] at h
        cases h
      | ok fields' =>
        rw [hdecode] at h
        cases h
        rfl
  · rintro ⟨frames, message, hsucceeds, hmessage, hdecode⟩
    obtain ⟨hok, htype, hframes, -, status, hstatus, hdecimal, hzero⟩ := hsucceeds
    rw [DapiProvider.readReply, hok, if_neg (by decide), if_neg (not_not.mpr htype),
      fold_add_eq_ok_iff.mpr ⟨frames, hframes, rfl⟩]
    dsimp only
    rw [header_intercalate]
    rw [effective] at hstatus
    rw [hstatus]
    dsimp only
    rw [hdecimal, if_neg (by decide), Double.round_eq_zero.mpr hzero, if_neg (fun h => h rfl),
      hmessage]
    dsimp only
    rw [hdecode]
    rfl

end

/-- **Replies are read back exactly, and only real successes are successes.** -/
theorem call_exact (string : Double → String) (provider : DapiProvider)
    (transport : HttpRequest → Except String HttpResponse) (method : String) (message : List ℕ) :
    (∀ (res : HttpResponse) (frames : List Frame) (fields : List WireField)
        (chunks : List (List ℕ)), transport (provider.request method message) = .ok res →
      Succeeds res frames → List.Forall₂ WireField.Encodes fields chunks →
      firstData frames = some chunks.flatten →
      ∃ result, provider.call string transport method message = .ok result ∧
        ∀ number, result.lookup number = firstValue fields number) ∧
    (∀ result, provider.call string transport method message = .ok result →
      ∃ res frames, transport (provider.request method message) = .ok res ∧
        Succeeds res frames) ∧
    (∀ number value, number * 8 + 2 < 2 ^ 53 → value.data.length < 2 ^ 53 →
      decode (field number value) = .ok [(number, .bytes value.data)]) := by
  refine ⟨?_, ?_, fun number value => decode_field⟩
  · intro res frames fields chunks hres hsucceeds hfields hdata
    refine ⟨_, ?_, fun number => lookup_foldl fields [] number⟩
    rw [DapiProvider.call, hres]
    exact readReply_eq_ok_iff.mpr ⟨frames, _, hsucceeds, hdata, decode_fields hfields⟩
  · -- a call that returns has seen a success
    intro result h
    rw [DapiProvider.call] at h
    cases hres : transport (provider.request method message) with
    | error reason =>
      rw [hres] at h
      cases h
    | ok res =>
      rw [hres] at h
      obtain ⟨frames, payload, hsucceeds, -, -⟩ := readReply_eq_ok_iff.mp h
      exact ⟨res, frames, rfl, hsucceeds⟩

/-- A height behind fields of fixed width, and the status in a trailer behind it. -/
theorem call_exact_height :
    ∃ result, DapiProvider.call (fun _ => "") ⟨"https://68.67.122.1:1443", "68.67.122.1".toList⟩
        (fun _ => .ok ⟨200, [("content-type".toList, "application/grpc-web+proto".toList)],
          some ([0, 0, 0, 0, 16, 0x11, 1, 2, 3, 4, 5, 6, 7, 8, 0x1d, 1, 2, 3, 4, 0x08, 42] ++
            [0x80, 0, 0, 0, 16] ++ Utf8.encode "grpc-status: 0\r\n".toList)⟩)
        "getBestBlockHeight" [] = .ok result ∧
      ∀ number, result.lookup number = firstValue
        [.fixed64 2 [1, 2, 3, 4, 5, 6, 7, 8], .fixed32 3 [1, 2, 3, 4], .varint 1 42] number := by
  refine (call_exact _ _ _ _ _).1 _
    [⟨0, [0x11, 1, 2, 3, 4, 5, 6, 7, 8, 0x1d, 1, 2, 3, 4, 0x08, 42]⟩,
      ⟨0x80, Utf8.encode "grpc-status: 0\r\n".toList⟩] _
    [[0x11] ++ [1, 2, 3, 4, 5, 6, 7, 8], [0x1d] ++ [1, 2, 3, 4], [0x08] ++ [42]] rfl ?_ ?_ rfl
  · -- a data frame, a trailer with status 0
    refine ⟨by decide, by decide, ⟨[[0, 0, 0, 0, 16, 0x11, 1, 2, 3, 4, 5, 6, 7, 8, 0x1d, 1, 2, 3, 4,
      0x08, 42], [0x80, 0, 0, 0, 16] ++ Utf8.encode "grpc-status: 0\r\n".toList], by decide, ?_⟩,
      rfl, "0".toList, by decide, by decide, by decide⟩
    exact .cons ⟨[0, 0, 0, 16], rfl, rfl, rfl⟩ (.cons ⟨[0, 0, 0, 16], rfl, by decide, rfl⟩ .nil)
  · refine .cons (.fixed64 ⟨.last (by decide), by decide, by decide⟩ rfl)
      (.cons (.fixed32 ⟨.last (by decide), by decide, by decide⟩ rfl)
        (.cons (.varint ⟨.last (by decide), by decide, by decide⟩
          ⟨.last (by decide), by decide, by decide⟩) .nil))

end DashFaucet.Dapi
