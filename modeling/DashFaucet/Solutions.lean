import Mathlib.Tactic.IntervalCases
import DashFaucet.CapTokens
import DashFaucet.Data.Json
import DashFaucet.Prng

/-!
# Redeeming solutions

The client half of a challenge comes back as a token and a list of nonces, both of them JSON of the
client's choosing. `verifySolutions` (`cap.ts`) grades them against the shape the token commits to.
SHA-256 is a third-party function and stays a parameter, from bytes to bytes.

* `Solves`: what a nonce has to do, on the whole digest.
* `digestHasPrefix_iff`: the part of the digest that is rendered decides as much.
* `checkAll_iff`: the loop.
* `verifySolutions_iff`: what is accepted is the solved challenges.
-/

namespace DashFaucet

structure SubChallenge where
  salt : String
  target : String

/-- The salt and target of sub-challenge `i`, which counts from one. -/
def subChallenge (token : String) (i : ℕ) (params : CapParams) : SubChallenge where
  salt := prng (charCodes (token ++ toString i)) params.s
  target := prng (charCodes (token ++ toString i ++ "d")) params.d

/-- The first `n` bytes of a digest in hexadecimal. There is nothing to render past its end, where
the loop throws. -/
def renderBytes : ℕ → List ℕ → Except Thrown (List Char)
  | 0, _ => .ok []
  | _ + 1, [] => .error (.error "Cannot read properties of undefined (reading 'toString')")
  | n + 1, byte :: digest => (DashTx.byteHex byte ++ ·) <$> renderBytes n digest

/-- Whether the hexadecimal of a digest starts with `target`. -/
def digestHasPrefix (digest : List ℕ) (target : String) : Except Thrown Bool :=
  (target.toList.isPrefixOf ·) <$> renderBytes ((target.length + 1) / 2) digest

/-- What redeeming a solved challenge gives. -/
structure Redeemed where
  capToken : String
  expiresAt : ℤ
  deriving DecidableEq, Repr

/-- A solution that can be a nonce: a safe integer that is not negative. -/
def nonce? : Json → Option ℤ
  | .num n => n.safeInteger?.filter fun nonce => ¬nonce < 0
  | _ => none

section

variable (hmac : List ℕ → List ℕ → List ℕ) (sha256 : List ℕ → List ℕ)

/-- Does salt and nonce hash to something that starts with the target? -/
def checkSolution (salt target : String) (nonce : ℤ) : Except Thrown Bool :=
  digestHasPrefix (sha256 (encodeUtf8 (salt ++ toString nonce))) target

/-- The loop over the sub-challenges `i`: why the first bad solution is refused, if one is. -/
def checkAll (token : String) (params : CapParams) (solutions : List Json) :
    List ℕ → Except Thrown (Option String)
  | [] => .ok none
  | i :: rest =>
    match solutions[i - 1]?.bind nonce? with
    | none => .ok (some "Invalid captcha solutions")
    | some nonce => do
      -- each solution has a challenge of its own, so no two can be swapped
      let challenge := subChallenge token i params
      if ← checkSolution sha256 challenge.salt challenge.target nonce then
        checkAll token params solutions rest
      else .ok (some "Captcha solution rejected")

/-- Verify a full set of solutions against the shape the token itself commits to. -/
def verifySolutions (secret : String) (token solutions : Json) (now : ℤ) :
    Except Thrown (Except String Redeemed) :=
  match token with
  | .str token =>
    match parseToken hmac secret token with
    | .error reason => .ok (.error reason)
    | .ok parsed =>
      if now > parsed.expires then .ok (.error "Captcha challenge expired")
      else
        match solutions with
        | .arr items =>
          -- exactly as many as the challenge has
          if items.length ≠ parsed.params.c then .ok (.error "Invalid captcha solutions")
          else do
            match ← checkAll sha256 token parsed.params items (List.range' 1 parsed.params.c) with
            | some reason => .ok (.error reason)
            | none =>
              .ok (.ok ⟨deriveCapToken hmac secret token, parsed.expires + capTokenGraceMs⟩)
        | _ => .ok (.error "Invalid captcha solutions")
  | _ => .ok (.error "Invalid captcha token")

/-- A nonce solves a sub-challenge when the digest of salt and nonce starts with the target. -/
def Solves (token : String) (params : CapParams) (i nonce : ℕ) : Prop :=
  (subChallenge token i params).target.toList <+:
    (toHex (sha256 (encodeUtf8 ((subChallenge token i params).salt ++ toString nonce)))).toList

end

/-! ### One solution -/

theorem nonce?_eq_some {value : Json} {nonce : ℤ} : nonce? value = some nonce ↔
    value = .num (Number.ofInt nonce) ∧ 0 ≤ nonce ∧ nonce ≤ 2 ^ 53 - 1 := by
  cases value with
  | num n =>
    rw [nonce?, Option.filter_eq_some_iff, Number.safeInteger?_eq_some, decide_eq_true_eq, not_lt,
      Json.num.injEq, and_assoc]
    refine and_congr_right fun _ => ⟨fun ⟨hsafe, hpos⟩ => ?_, fun ⟨hpos, hsafe⟩ => ?_⟩
    · exact ⟨hpos, (le_abs_self nonce).trans hsafe⟩
    · exact ⟨(abs_of_nonneg hpos).trans_le hsafe, hpos⟩
  | _ => exact iff_of_false (fun h => by cases h) fun ⟨h, _⟩ => by cases h

theorem renderBytes_eq {n : ℕ} {digest : List ℕ} (h : n ≤ digest.length) :
    renderBytes n digest = .ok ((digest.take n).flatMap DashTx.byteHex) := by
  induction n generalizing digest with
  | zero => rfl
  | succ n ih =>
    cases digest with
    | nil => exact absurd h (by simp)
    | cons byte digest =>
      rw [renderBytes, ih (Nat.le_of_succ_le_succ h)]
      rfl

/-- The digits of the first bytes are the first digits of the bytes. -/
theorem take_bytes (n : ℕ) (bytes : List ℕ) :
    (bytes.take n).flatMap DashTx.byteHex = (bytes.flatMap DashTx.byteHex).take (2 * n) := by
  induction n generalizing bytes with
  | zero => rfl
  | succ n ih =>
    cases bytes with
    | nil => rfl
    | cons byte bytes =>
      rw [List.take_succ_cons, List.flatMap_cons, List.flatMap_cons, ih, Nat.mul_succ]
      rfl

/-- **A prefix test on the rendered part decides the test on the whole digest**, for targets of even
and of odd length, as long as the digest is long enough. -/
theorem digestHasPrefix_iff {digest : List ℕ} {target : String}
    (h : target.length ≤ 2 * digest.length) :
    ∃ b, digestHasPrefix digest target = .ok b ∧
      (b = true ↔ target.toList <+: (toHex digest).toList) := by
  refine ⟨_, by rw [digestHasPrefix, renderBytes_eq (by omega)]; rfl, ?_⟩
  have hshort : target.toList.length ≤ 2 * ((target.length + 1) / 2) := by
    rw [String.length_toList]
    omega
  rw [List.isPrefixOf_iff_prefix, take_bytes, List.prefix_take_iff, and_iff_left hshort, toHex,
    String.toList_ofList]

section

variable {sha256 : List ℕ → List ℕ} (token : String) {params : CapParams}
  (hsha256 : ∀ message, (sha256 message).length = 32) (hdepth : params.d ≤ 6)

include hsha256 hdepth

theorem checkSolution_iff (i nonce : ℕ) :
    ∃ b, checkSolution sha256 (subChallenge token i params).salt
        (subChallenge token i params).target nonce = .ok b ∧
      (b = true ↔ Solves sha256 token params i nonce) := by
  have hlength : (subChallenge token i params).target.length ≤ 6 := by
    rw [subChallenge, length_prng]
    exact hdepth
  apply digestHasPrefix_iff
  rw [hsha256]
  omega

/-- **The loop** goes to its end exactly when every sub-challenge is solved, and never throws. -/
theorem checkAll_iff (solutions : List Json) (is : List ℕ) :
    ∃ r, checkAll sha256 token params solutions is = .ok r ∧
      (r = none ↔ ∀ i ∈ is, ∃ nonce : ℕ, solutions[i - 1]? = some (.num (Number.ofInt nonce)) ∧
        nonce ≤ 2 ^ 53 - 1 ∧ Solves sha256 token params i nonce) := by
  induction is with
  | nil => exact ⟨none, rfl, iff_of_true rfl (List.forall_mem_nil _)⟩
  | cons i rest ih =>
    obtain ⟨r, hr, hrest⟩ := ih
    rw [List.forall_mem_cons, ← hrest, checkAll]
    cases hnonce : solutions[i - 1]?.bind nonce? with
    | none =>
      -- no entry, or one that is no nonce, solves nothing
      refine ⟨_, rfl, iff_of_false (fun h => by cases h) ?_⟩
      rintro ⟨⟨nonce, hvalue, hsafe, -⟩, -⟩
      have hread : nonce? (.num (Number.ofInt nonce)) = some (nonce : ℤ) :=
        nonce?_eq_some.mpr ⟨rfl, by omega, by omega⟩
      rw [hvalue, Option.bind_some, hread] at hnonce
      cases hnonce
    | some nonce =>
      obtain ⟨value, hvalue, hread⟩ := Option.bind_eq_some_iff.mp hnonce
      obtain ⟨rfl, hpos, hsafe⟩ := nonce?_eq_some.mp hread
      obtain ⟨nonce, rfl⟩ := Int.eq_ofNat_of_zero_le hpos
      obtain ⟨b, hb, hsolves⟩ := checkSolution_iff token hsha256 hdepth i nonce
      -- the entry names its nonce
      have hentry : (∃ nonce' : ℕ, solutions[i - 1]? = some (.num (Number.ofInt nonce')) ∧
          nonce' ≤ 2 ^ 53 - 1 ∧ Solves sha256 token params i nonce') ↔ b = true := by
        rw [hsolves, hvalue]
        constructor
        · rintro ⟨nonce', hsame, -, h⟩
          have hsame : ((nonce : ℤ) : ℚ) = ((nonce' : ℤ) : ℚ) := by
            injection hsame with hsame
            injection hsame with hsame
            exact WithTop.coe_inj.mp (WithBot.coe_inj.mp hsame)
          rw [Int.cast_inj, Nat.cast_inj] at hsame
          rw [hsame]
          exact h
        · intro h
          exact ⟨nonce, rfl, by omega, h⟩
      rw [hentry]
      dsimp only
      rw [hb]
      cases b with
      | true => exact ⟨r, hr, (and_iff_right rfl).symm⟩
      | false => exact ⟨_, rfl, iff_of_false (fun h => by cases h) fun h => by cases h.1⟩

end

/-! ### The whole request -/

/-- **A solved challenge**: an authentic token that has not expired, and one nonce for each of its
sub-challenges that solves it. -/
structure Solved (hmac : List ℕ → List ℕ → List ℕ) (sha256 : List ℕ → List ℕ) (secret : String)
    (payload : Payload) (token solutions : Json) (now : ℤ) : Prop where
  authentic : token = .str (payload.token hmac secret)
  live : now ≤ payload.parse.expires
  solved : ∃ items, solutions = .arr items ∧ items.length = payload.parse.params.c ∧
    ∀ i, 1 ≤ i → i ≤ payload.parse.params.c → ∃ nonce : ℕ,
      items[i - 1]? = some (.num (Number.ofInt nonce)) ∧ nonce ≤ 2 ^ 53 - 1 ∧
        Solves sha256 (payload.token hmac secret) payload.parse.params i nonce

section

variable {hmac : List ℕ → List ℕ → List ℕ} (sha256 : List ℕ → List ℕ) {secret : String}
  (solutions : Json) (now : ℤ)
  (hdigest : ∀ key message, (hmac key message).length = 32)

include hdigest

/-- A token that carries no payload is refused. -/
theorem verifySolutions_forged {token : Json}
    (h : ∀ payload : Payload, token ≠ .str (payload.token hmac secret)) :
    ∃ reason, verifySolutions hmac sha256 secret token solutions now = .ok (.error reason) := by
  cases token with
  | str token =>
    rw [verifySolutions]
    cases hparsed : parseToken hmac secret token with
    | error reason => exact ⟨reason, rfl⟩
    | ok parsed =>
      obtain ⟨payload, rfl, -⟩ := (parseToken_iff hdigest).mp hparsed
      exact absurd rfl (h payload)
  | _ => exact ⟨_, rfl⟩

/-- A token that carries a payload is graded against it. -/
theorem verifySolutions_authentic (hsha256 : ∀ message, (sha256 message).length = 32)
    {payload : Payload} (hdepth : payload.parse.params.d ≤ 6) :
    ∃ r, verifySolutions hmac sha256 secret (.str (payload.token hmac secret)) solutions now =
        .ok r ∧
      ((∃ reason, r = .error reason) ∧
          ¬Solved hmac sha256 secret payload (.str (payload.token hmac secret)) solutions now ∨
        r = .ok ⟨deriveCapToken hmac secret (payload.token hmac secret),
          payload.parse.expires + capTokenGraceMs⟩ ∧
          Solved hmac sha256 secret payload (.str (payload.token hmac secret)) solutions now) := by
  have hparsed : parseToken hmac secret (payload.token hmac secret) = .ok payload.parse :=
    (parseToken_iff hdigest).mpr ⟨payload, rfl, rfl⟩
  rw [verifySolutions, hparsed]
  dsimp only
  -- the checks of the source, in its order: expiry, shape, number, then each nonce
  by_cases hlive : now > payload.parse.expires
  · rw [if_pos hlive]
    exact ⟨_, rfl, .inl ⟨⟨_, rfl⟩, fun h => absurd h.live (not_le.mpr hlive)⟩⟩
  rw [if_neg hlive]
  cases solutions with
  | arr items =>
    dsimp only
    by_cases hcount : items.length ≠ payload.parse.params.c
    · rw [if_pos hcount]
      refine ⟨_, rfl, .inl ⟨⟨_, rfl⟩, fun h => ?_⟩⟩
      obtain ⟨_, hitems, hlength, -⟩ := h.solved
      cases hitems
      exact hcount hlength
    rw [if_neg hcount]
    obtain ⟨r, hr, hnone⟩ := checkAll_iff (payload.token hmac secret) hsha256 hdepth
      items (List.range' 1 payload.parse.params.c)
    rw [hr]
    cases r with
    | some reason =>
      refine ⟨_, rfl, .inl ⟨⟨reason, rfl⟩, fun h => ?_⟩⟩
      obtain ⟨_, hitems, -, hall⟩ := h.solved
      cases hitems
      refine absurd (hnone.mpr fun i hi => ?_) (by simp)
      obtain ⟨hfirst, hlast⟩ := List.mem_range'_1.mp hi
      exact hall i hfirst (by omega)
    | none =>
      refine ⟨_, rfl, .inr ⟨rfl, rfl, not_lt.mp hlive, items, rfl, not_not.mp hcount, ?_⟩⟩
      intro i hfirst hlast
      exact hnone.mp rfl i (List.mem_range'_1.mpr ⟨hfirst, by omega⟩)
  | _ =>
    refine ⟨_, rfl, .inl ⟨⟨_, rfl⟩, fun h => ?_⟩⟩
    obtain ⟨_, h, -⟩ := h.solved
    cases h

/-- **Exactly the solved challenges are redeemed.** Whatever JSON is sent as token and solutions,
the answer is a capToken if and only if these solve a challenge that is authentic and alive, and a
refusal otherwise; nothing is thrown. The capToken is the one derived from the token, and is
accepted until the time that comes with it. -/
theorem verifySolutions_iff (hsha256 : ∀ message, (sha256 message).length = 32) (token : Json)
    (hdepth : ∀ payload : Payload, token = .str (payload.token hmac secret) →
      payload.parse.params.d ≤ 6) :
    ∃ r, verifySolutions hmac sha256 secret token solutions now = .ok r ∧
      ∀ redeemed, r = .ok redeemed ↔
        ∃ payload : Payload, Solved hmac sha256 secret payload token solutions now ∧
          redeemed.capToken = deriveCapToken hmac secret (payload.token hmac secret) ∧
          redeemed.expiresAt = payload.parse.expires + capTokenGraceMs ∧
          ∀ t check, verifyCapToken hmac secret redeemed.capToken t = .ok check ↔
            t ≤ redeemed.expiresAt ∧ check = ⟨redeemed.expiresAt, payload.parse.params⟩ := by
  by_cases hforged : ∀ payload : Payload, token ≠ .str (payload.token hmac secret)
  · obtain ⟨reason, h⟩ := verifySolutions_forged sha256 solutions now hdigest hforged
    refine ⟨_, h, fun redeemed => iff_of_false (fun h => by cases h) ?_⟩
    rintro ⟨payload, hsolved, -⟩
    exact hforged payload hsolved.authentic
  · simp only [not_forall, not_not] at hforged
    obtain ⟨payload, rfl⟩ := hforged
    obtain ⟨r, hr, hcases⟩ := verifySolutions_authentic sha256 solutions now hdigest hsha256
      (hdepth payload rfl)
    refine ⟨r, hr, fun redeemed => ⟨?_, ?_⟩⟩
    · rintro rfl
      obtain ⟨⟨_, h⟩, -⟩ | ⟨h, hsolved⟩ := hcases
      · cases h
      · cases h
        refine ⟨payload, hsolved, rfl, rfl, fun t check => ?_⟩
        exact verifyCapToken_payload hdigest payload
    · rintro ⟨payload', hsolved, hcap, hexpires, -⟩
      -- a token carries one payload only
      obtain rfl : payload = payload' := by
        have h := hsolved.authentic
        exact Payload.token_injective (Json.str.inj h)
      obtain ⟨-, hnot⟩ | ⟨rfl, -⟩ := hcases
      · exact absurd hsolved hnot
      · rw [← hcap, ← hexpires]

end

/-! ### An exchange -/

namespace Exchange

/-- A function that is known at the messages of a table. -/
def tabulated (table : List (List ℕ × List ℕ)) (message : List ℕ) : List ℕ :=
  (table.lookup message).getD (List.replicate 32 0)

theorem length_tabulated {table : List (List ℕ × List ℕ)}
    (h : ∀ entry ∈ table, entry.2.length = 32) (message : List ℕ) :
    (tabulated table message).length = 32 := by
  rw [tabulated]
  cases hfound : table.lookup message with
  | none => exact List.length_replicate
  | some digest =>
    obtain ⟨before, after, rfl, -⟩ := List.lookup_eq_some_iff.mp hfound
    exact h (message, digest) (by simp)

/-- A challenge of two sub-challenges, with salts of four digits and targets of one. -/
def payload : Payload where
  bytes := [1, 139, 207, 238, 143, 192, 1, 3, 1, 1, 2, 3, 4, 5, 6, 7]
  length_eq := rfl
  byte_lt := List.all_iff_forall_prop.mp (by decide)

def token : String := "018bcfee8fc001030101020304050607dba9ec87d719160684"

/-- HMAC-SHA-256 under the secret of the tests, on the two messages of the exchange. -/
def hmacTable : List (List ℕ × List ℕ) :=
  [(encodeUtf8 "cap-challenge:" ++ payload.bytes,
      [219, 169, 236, 135, 215, 25, 22, 6, 132, 115, 108, 146, 6, 16, 136, 221, 108, 223, 121, 102,
        16, 134, 87, 69, 172, 219, 157, 36, 110, 40, 180, 196]),
    (encodeUtf8 ("cap-redeem:" ++ token),
      [139, 58, 143, 36, 23, 17, 116, 44, 146, 68, 156, 87, 224, 118, 129, 80, 129, 95, 83, 153,
        101, 67, 172, 201, 74, 168, 51, 187, 135, 42, 93, 20])]

/-- SHA-256 on the salts with their nonces. -/
def sha256Table : List (List ℕ × List ℕ) :=
  [(encodeUtf8 "38c90",
      [195, 33, 10, 136, 4, 51, 202, 27, 156, 255, 231, 239, 58, 88, 112, 39, 148, 198, 175, 8, 111,
        191, 14, 42, 143, 73, 203, 159, 8, 121, 154, 56]),
    (encodeUtf8 "134b43",
      [158, 74, 249, 98, 204, 227, 253, 22, 181, 141, 57, 123, 56, 44, 3, 105, 244, 39, 170, 107,
        199, 216, 33, 45, 175, 217, 115, 241, 160, 30, 172, 181])]

def hmac : List ℕ → List ℕ → List ℕ := fun _ => tabulated hmacTable

def sha256 : List ℕ → List ℕ := tabulated sha256Table

end Exchange

open Exchange in
/-- The nonces 0 and 43 solve the challenge, ten minutes before it expires. -/
theorem verifySolutions_iff_exchange :
    verifySolutions Exchange.hmac Exchange.sha256 "test-cap-secret-do-not-use" (.str token)
        (.arr [.num (Number.ofInt 0), .num (Number.ofInt 43)]) 1700000000000 =
      .ok (.ok ⟨token ++ "8b3a8f241711742c92449c57e0768150815f53996543acc94aa833bb872a5d14",
        1700001200000⟩) := by
  have hdigest : ∀ key message, (Exchange.hmac key message).length = 32 := fun _ =>
    length_tabulated (List.all_iff_forall_prop.mp (by decide))
  have hsha256 : ∀ message, (Exchange.sha256 message).length = 32 :=
    length_tabulated (List.all_iff_forall_prop.mp (by decide))
  have htoken : payload.token Exchange.hmac "test-cap-secret-do-not-use" = token := by
    decide +kernel
  have hexpires : payload.parse.expires = 1700000600000 := by decide +kernel
  -- both solutions of the recorded exchange do solve it
  have hfirst : Solves Exchange.sha256 token payload.parse.params 1 0 := by
    simp only [Solves, subChallenge, prng_eq]
    decide +kernel
  have hsecond : Solves Exchange.sha256 token payload.parse.params 2 43 := by
    simp only [Solves, subChallenge, prng_eq]
    decide +kernel
  obtain ⟨r, hr, hredeemed⟩ := verifySolutions_iff Exchange.sha256
    (.arr [.num (Number.ofInt 0), .num (Number.ofInt 43)]) 1700000000000 hdigest hsha256
    (.str token) fun payload' h => by
      rw [← htoken, Json.str.injEq] at h
      rw [← Payload.token_injective h]
      decide
  rw [hr, (hredeemed _).mpr]
  refine ⟨payload, ⟨?_, ?_, _, rfl, rfl, fun i hone htwo => ?_⟩, ?_, ?_, fun t check => ?_⟩
  · rw [htoken]
  · rw [hexpires]
    decide
  · have htwo : i ≤ 2 := htwo
    rw [htoken]
    interval_cases i
    · exact ⟨0, rfl, by decide, hfirst⟩
    · exact ⟨43, rfl, by decide, hsecond⟩
  · rw [htoken]
    decide +kernel
  · rw [hexpires]
    rfl
  · have hcap : token ++ "8b3a8f241711742c92449c57e0768150815f53996543acc94aa833bb872a5d14" =
        deriveCapToken Exchange.hmac "test-cap-secret-do-not-use"
          (payload.token Exchange.hmac "test-cap-secret-do-not-use") := by
      rw [htoken]
      decide +kernel
    rw [hcap, verifyCapToken_payload hdigest, Payload.check, hexpires]
    rfl

end DashFaucet
