import Mathlib.Data.List.Nodup

/-!
# Tables with unique columns

A table is a list of rows, in the order they were inserted, that agree in neither of two unique
columns: the primary key and, where there is one, a second `UNIQUE` column. The statements of SQL
that a program uses on such a table are functions that keep the uniqueness, so a value of
`Table ρ` with two rows of one key cannot be built.
-/

/-- The unique columns of a row type: its primary key, and a second one. A row type with only a
primary key repeats it as `alt`. -/
class Keyed (ρ : Type) (κ κ' : outParam Type) where
  key : ρ → κ
  alt : ρ → κ'

export Keyed (key alt)

/-- Rows with distinct keys and distinct values of the second unique column. -/
structure Table (ρ : Type) {κ κ' : Type} [Keyed ρ κ κ'] where
  rows : List ρ
  key_nodup : (rows.map key).Nodup
  alt_nodup : (rows.map alt).Nodup

namespace Table

variable {ρ κ κ' : Type} [Keyed ρ κ κ']

/-- The table without rows. -/
def empty : Table ρ := ⟨[], List.nodup_nil, List.nodup_nil⟩

@[simp] theorem rows_empty : (empty : Table ρ).rows = [] := rfl

/-- A table is its rows. -/
@[ext] theorem ext {t t' : Table ρ} (h : t.rows = t'.rows) : t = t' := by
  cases t
  cases t'
  cases h
  rfl

/-- Two rows of one table with the same key are the same row. -/
theorem eq_of_key {t : Table ρ} {r r' : ρ} (hr : r ∈ t.rows) (hr' : r' ∈ t.rows)
    (h : key r = key r') : r = r' :=
  List.inj_on_of_nodup_map t.key_nodup hr hr' h

theorem eq_of_alt {t : Table ρ} {r r' : ρ} (hr : r ∈ t.rows) (hr' : r' ∈ t.rows)
    (h : alt r = alt r') : r = r' :=
  List.inj_on_of_nodup_map t.alt_nodup hr hr' h

/-! ### Statements -/

/-- `DELETE … WHERE p`. -/
def deleteWhere (t : Table ρ) (p : ρ → Bool) : Table ρ where
  rows := t.rows.filter fun r => !p r
  key_nodup := t.key_nodup.sublist (List.filter_sublist.map _)
  alt_nodup := t.alt_nodup.sublist (List.filter_sublist.map _)

@[simp] theorem mem_deleteWhere {t : Table ρ} {p : ρ → Bool} {r : ρ} :
    r ∈ (t.deleteWhere p).rows ↔ r ∈ t.rows ∧ p r = false := by
  simp [deleteWhere]

/-- `UPDATE … SET f WHERE p`, for an `f` that leaves the unique columns alone. -/
def update (t : Table ρ) (p : ρ → Bool) (f : ρ → ρ)
    (hkey : ∀ r, key (f r) = key r := by intro r; rfl)
    (halt : ∀ r, alt (f r) = alt r := by intro r; rfl) : Table ρ where
  rows := t.rows.map fun r => if p r then f r else r
  key_nodup := by
    have h : (key ∘ fun r => if p r then f r else r) = (key : ρ → κ) := by
      funext r
      by_cases hp : p r <;> simp [hp, hkey]
    rw [List.map_map, h]
    exact t.key_nodup
  alt_nodup := by
    have h : (alt ∘ fun r => if p r then f r else r) = (alt : ρ → κ') := by
      funext r
      by_cases hp : p r <;> simp [hp, halt]
    rw [List.map_map, h]
    exact t.alt_nodup

theorem mem_update {t : Table ρ} {p : ρ → Bool} {f : ρ → ρ} {hkey halt} {r : ρ} :
    r ∈ (t.update p f hkey halt).rows ↔ ∃ r₀ ∈ t.rows, (if p r₀ then f r₀ else r₀) = r := by
  simp [update]

/-- What becomes of a row under `UPDATE`. -/
theorem mem_update_of_mem {t : Table ρ} {p : ρ → Bool} {f : ρ → ρ} (hkey halt) {r : ρ}
    (h : r ∈ t.rows) : (if p r then f r else r) ∈ (t.update p f hkey halt).rows :=
  mem_update.mpr ⟨r, h, rfl⟩

/-- An `UPDATE` that no row matches changes nothing. -/
theorem update_eq_self {t : Table ρ} {p : ρ → Bool} {f : ρ → ρ} (hkey halt)
    (h : ∀ r ∈ t.rows, p r = false) : t.update p f hkey halt = t := by
  apply Table.ext
  show t.rows.map (fun r => if p r then f r else r) = t.rows
  calc t.rows.map (fun r => if p r then f r else r) = t.rows.map id :=
        List.map_congr_left fun r hr => by rw [h r hr]; rfl
    _ = t.rows := List.map_id _

section DecidableKeys

variable [DecidableEq κ]

/-- `SELECT … WHERE key = k`. -/
def find? (t : Table ρ) (k : κ) : Option ρ := t.rows.find? fun r => key r = k

theorem find?_eq_some {t : Table ρ} {k : κ} {r : ρ} :
    t.find? k = some r ↔ r ∈ t.rows ∧ key r = k := by
  constructor
  · intro h
    exact ⟨List.mem_of_find?_eq_some h, by simpa using List.find?_some h⟩
  · rintro ⟨hr, rfl⟩
    cases h : t.find? (key r) with
    | none => exact absurd (List.find?_eq_none.mp h r hr) (by simp)
    | some r' =>
      have hr' : r' ∈ t.rows := List.mem_of_find?_eq_some h
      have hk : key r' = key r := by simpa using List.find?_some h
      rw [eq_of_key hr' hr hk]

theorem find?_eq_none {t : Table ρ} {k : κ} :
    t.find? k = none ↔ ∀ r ∈ t.rows, key r ≠ k := by
  simp [find?, List.find?_eq_none]

variable [DecidableEq κ']

/-- Whether a row clashes with `r` in a unique column. -/
def clashes (r r' : ρ) : Bool := decide (key r' = key r) || decide (alt r' = alt r)

omit [DecidableEq κ] [DecidableEq κ'] in
private theorem nodup_snoc {τ : Type} (f : ρ → τ) {l : List ρ} (r : ρ) (h : (l.map f).Nodup)
    (hr : ∀ r' ∈ l, f r' ≠ f r) : ((l ++ [r]).map f).Nodup := by
  rw [List.map_append, List.nodup_append]
  refine ⟨h, List.nodup_singleton _, fun a ha b hb => ?_⟩
  obtain ⟨r', hr', rfl⟩ := List.mem_map.mp ha
  obtain rfl : b = f r := by simpa using hb
  exact hr r' hr'

/-- `INSERT OR REPLACE`: the rows that clash with `r` go, and `r` is appended. -/
def insertOrReplace (t : Table ρ) (r : ρ) : Table ρ where
  rows := (t.deleteWhere (clashes r)).rows ++ [r]
  key_nodup := nodup_snoc key r (t.deleteWhere (clashes r)).key_nodup fun r' hr' h => by
    simp [clashes, h] at hr'
  alt_nodup := nodup_snoc alt r (t.deleteWhere (clashes r)).alt_nodup fun r' hr' h => by
    simp [clashes, h] at hr'

@[simp] theorem mem_insertOrReplace {t : Table ρ} {r r' : ρ} :
    r' ∈ (t.insertOrReplace r).rows ↔
      (r' ∈ t.rows ∧ key r' ≠ key r ∧ alt r' ≠ alt r) ∨ r' = r := by
  simp [insertOrReplace, clashes]

/-- `INSERT`, or `none` where SQL raises a `UNIQUE` violation. -/
def insert? (t : Table ρ) (r : ρ) : Option (Table ρ) :=
  if h : ∀ r' ∈ t.rows, key r' ≠ key r ∧ alt r' ≠ alt r then
    some { rows := t.rows ++ [r]
           key_nodup := nodup_snoc key r t.key_nodup fun r' hr' => (h r' hr').1
           alt_nodup := nodup_snoc alt r t.alt_nodup fun r' hr' => (h r' hr').2 }
  else none

theorem insert?_eq_some {t t' : Table ρ} {r : ρ} (h : t.insert? r = some t') :
    t'.rows = t.rows ++ [r] ∧ ∀ r' ∈ t.rows, key r' ≠ key r ∧ alt r' ≠ alt r := by
  unfold insert? at h
  split at h
  · next hfresh =>
    cases h
    exact ⟨rfl, hfresh⟩
  · cases h

/-- `INSERT OR IGNORE`. -/
def insertOrIgnore (t : Table ρ) (r : ρ) : Table ρ := (t.insert? r).getD t

theorem insertOrIgnore_eq (t : Table ρ) (r : ρ) :
    (t.insertOrIgnore r = t ∧ ∃ r' ∈ t.rows, key r' = key r ∨ alt r' = alt r) ∨
      ((t.insertOrIgnore r).rows = t.rows ++ [r] ∧
        ∀ r' ∈ t.rows, key r' ≠ key r ∧ alt r' ≠ alt r) := by
  unfold insertOrIgnore
  cases h : t.insert? r with
  | some t' => exact Or.inr (insert?_eq_some h)
  | none =>
    refine Or.inl ⟨rfl, ?_⟩
    unfold insert? at h
    split at h
    · cases h
    · next hfresh =>
      simp only [not_forall] at hfresh
      obtain ⟨r', hr', hclash⟩ := hfresh
      exact ⟨r', hr', by tauto⟩

theorem mem_insertOrIgnore_of_mem {t : Table ρ} {r r' : ρ} (h : r' ∈ t.rows) :
    r' ∈ (t.insertOrIgnore r).rows := by
  rcases t.insertOrIgnore_eq r with ⟨heq, -⟩ | ⟨heq, -⟩
  · rw [heq]
    exact h
  · rw [heq]
    exact List.mem_append_left _ h

theorem of_mem_insertOrIgnore {t : Table ρ} {r r' : ρ} (h : r' ∈ (t.insertOrIgnore r).rows) :
    r' ∈ t.rows ∨ r' = r := by
  rcases t.insertOrIgnore_eq r with ⟨heq, -⟩ | ⟨heq, -⟩
  · rw [heq] at h
    exact .inl h
  · rw [heq] at h
    exact (List.mem_append.mp h).imp_right List.mem_singleton.mp

end DecidableKeys

end Table
