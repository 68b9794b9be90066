import DashFaucet.Chain.Types
import DashFaucet.Data.Text
import DashFaucet.Data.Utf8

/-!
# What `fetch` returns

`Headers` and `Response` of the Fetch standard, as far as the chain's transports use them. A text is
its characters, bytes are naturals below 256.
-/

namespace DashFaucet

/-- The lines of a `Headers` object, by name in lower case. -/
abbrev Headers := List (List Char × List Char)

namespace Headers

/-- A character of a field name. -/
def isToken (c : Char) : Bool := c.isAlphanum || oneOf "!#$%&'*+-.^_`|~" c

/-- A character of a field value: one byte, and no NUL or line break. -/
def isValue (c : Char) : Bool := c.toNat ≤ 0xFF && c != '\x00' && c != '\r' && c != '\n'

/-- `append`, which throws on what is no field. -/
def append (headers : Headers) (name value : List Char) : Except String Headers :=
  if name ≠ [] ∧ name.all isToken = true ∧ value.all isValue = true then
    .ok (headers ++ [(name.map Char.toLower, value)])
  else .error "TypeError"

/-- The values of one name. -/
def values (headers : Headers) (name : String) : List (List Char) :=
  (headers.filter fun h => h.1 = name.toList).map Prod.snd

/-- `get`: the values of one name joined, or `none`. -/
def get (headers : Headers) (name : String) : Option (List Char) :=
  match headers.values name with
  | [] => none
  | values => some (", ".toList.intercalate values)

def delete (headers : Headers) (name : String) : Headers :=
  headers.filter fun h => h.1 ≠ name.toList

theorem append_eq {headers : Headers} {name value : List Char} (hne : name ≠ [])
    (hname : ∀ c ∈ name, isToken c = true) (hvalue : ∀ c ∈ value, isValue c = true) :
    headers.append name value = .ok (headers ++ [(name.map Char.toLower, value)]) :=
  if_pos ⟨hne, List.all_eq_true.mpr hname, List.all_eq_true.mpr hvalue⟩

/-- There is nothing to delete where there is nothing. -/
theorem delete_of_get_none {headers : Headers} {name : String} (h : headers.get name = none) :
    headers.delete name = headers := by
  have hvalues : headers.values name = [] := by
    rw [get] at h
    split at h
    · assumption
    · cases h
  rw [values, List.map_eq_nil_iff, List.filter_eq_nil_iff] at hvalues
  rw [delete, List.filter_eq_self]
  intro header hmem
  exact decide_eq_true fun heq => hvalues header hmem (decide_eq_true heq)

end Headers

structure HttpResponse where
  status : ℕ
  headers : Headers
  /-- `none` where there is no body at all. -/
  body : Option (List ℕ)
  deriving DecidableEq, Repr

namespace HttpResponse

/-- `new Response(body, { status, headers })`, which refuses a status out of range, and a body where
there must be none. -/
def make (status : ℤ) (headers : Headers) (body : Option (List ℕ)) : Except String HttpResponse :=
  if status < 200 ∨ 599 < status then .error "RangeError"
  else if body.isSome ∧ (status = 204 ∨ status = 205 ∨ status = 304) then .error "TypeError"
  else .ok ⟨status.toNat, headers, body⟩

/-- `res.ok`. -/
def ok (res : HttpResponse) : Bool := decide (200 ≤ res.status) && decide (res.status ≤ 299)

end HttpResponse

end DashFaucet
