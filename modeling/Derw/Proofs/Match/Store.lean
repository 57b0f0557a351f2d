import Derw.Script.ListMatch

/-!
# Proofs/Match/Store — what the conditions and declarations of a match mean

A match runs in a `Store`: the variables that are in scope, the one declared last in front, so that
it hides an earlier one of the same name. A variable holds a value, a list of values, or a position
in the subject. What a value is stays open: a match only asks whether it passes a test and takes
fields from it (`Values`). A test is one of the value alone here; for templates, which read the
names in scope, see `Proofs/Match/Blocks`.

Meanings are partial. `none` stands for reading a variable that is not in scope, or an element past
the end of the subject; a match that does either is at fault, which is not the same as a match that
fails.
-/

namespace Derw.Script

/-- A variable of a match. The counters of a search are kept apart from the names of a pattern. -/
inductive Var
  | name (n : String)
  /-- Where a search found its element. -/
  | found (id : Nat)
  /-- Where a search is looking. -/
  | loop (id : Nat)
  deriving DecidableEq, Repr

/-- The name of a variable in the program. -/
def Var.text : Var → String
  | .name n => n
  | .found id => foundName id
  | .loop id => loopName id

/-- What a variable holds. -/
inductive Held (V : Type)
  | one (v : V)
  | many (vs : List V)
  | position (n : Int)
  deriving DecidableEq, Repr

/-- What a match can see of a value. -/
structure Values (V : Type) where
  passes : Test → V → Bool
  /-- The names that a destructuring text declares, each with what it takes from a value. -/
  fields : String → List (String × (V → V))

/-- The names that a destructuring text declares. -/
def Values.fieldNames {V : Type} (m : Values V) (pattern : String) : List String :=
  (m.fields pattern).map (·.1)

/-- The variables in scope, the last one first. -/
abbrev Store (V : Type) := List (Var × Held V)

variable {V : Type}

/-! ## Reading -/

namespace Held

/-- The elements of a list. -/
def elements? : Held V → Option (List V)
  | many vs => some vs
  | one _ | position _ => none

@[simp] theorem elements?_many (vs : List V) : (many vs).elements? = some vs := rfl

/-- Whether what is held passes a test. A list has no tag and is no text. -/
def test (m : Values V) (t : Test) : Held V → Option Bool
  | one v => some (m.passes t v)
  | many vs => some (t == .empty && vs.isEmpty)
  | position _ => none

/-- The declarations of the fields of a value. -/
def fields (m : Values V) (pattern : String) : Held V → Option (List (String × Held V))
  | one v => some ((m.fields pattern).map fun f => (f.1, one (f.2 v)))
  | many _ | position _ => none

end Held

def Place.value (subject : Held V) (σ : Store V) : Place → Option (Held V)
  | .subject => some subject
  | .name n => σ.lookup (.name n)

/-- The position that an index names. -/
def Index.value (σ : Store V) (i : Index) : Option Nat :=
  match i.base with
  | none => some i.offset
  | some id =>
    match σ.lookup (.found id) with
    | some (.position (.ofNat n)) => some (n + i.offset)
    | _ => none

/-- Whether a condition holds. What is not a list has no length, and no comparison with it holds. -/
def Cond.holds (m : Values V) (subject : Held V) (σ : Store V) : Cond → Option Bool
  | .lengthAtLeast n => some (subject.elements?.any (n ≤ ·.length))
  | .lengthOver i => (i.value σ).map fun k => subject.elements?.any (k < ·.length)
  | .lengthIs i => (i.value σ).map fun k => subject.elements?.any (·.length == k)
  | .passes place test => (place.value subject σ).bind (Held.test m test)

/-! ## Declaring -/

/-- What a declaration declares, in its order. -/
def Bind.entries (m : Values V) (subject : Held V) (σ : Store V) :
    Bind → Option (List (String × Held V))
  | .fields pattern source => (source.value subject σ).bind (Held.fields m pattern)
  | .element name position => do
    let xs ← subject.elements?
    let k ← position.value σ
    let v ← xs[k]?
    return [(name, .one v)]
  | .slice name start stop => do
    let xs ← subject.elements?
    let k ← start.value σ
    let j ← stop.elim (some xs.length) (·.value σ)
    return [(name, .many ((xs.take j).drop k))]
  | .elements names rest => do
    let xs ← subject.elements?
    if names.length ≤ xs.length then
      return names.zip (xs.map .one) ++ (rest.map fun r => (r, .many (xs.drop names.length))).toList
    else none

namespace Bind

variable {m : Values V} {σ : Store V} {xs : List V} {j k : Nat}

theorem entries_element (n : String) {i : Index} {v : V} (hi : i.value σ = some k)
    (hv : xs[k]? = some v) : (element n i).entries m (.many xs) σ = some [(n, .one v)] := by
  simp [entries, hi, hv]

theorem entries_slice (n : String) {start stop : Index} (hk : start.value σ = some k)
    (hj : stop.value σ = some j) :
    (slice n start (some stop)).entries m (.many xs) σ
      = some [(n, .many ((xs.take j).drop k))] := by
  simp [entries, hk, hj]

theorem entries_sliceFrom (n : String) {start : Index} (hk : start.value σ = some k) :
    (slice n start none).entries m (.many xs) σ = some [(n, .many (xs.drop k))] := by
  simp [entries, hk]

end Bind

namespace Store

/-- Declares names, one after the other. -/
def declare (σ : Store V) (entries : List (String × Held V)) : Store V :=
  (entries.map fun e => (Var.name e.1, e.2)).reverse ++ σ

/-- What the store holds under names, without the counters of searches. -/
def names (σ : Store V) : List (String × Held V) :=
  σ.filterMap fun
    | (.name n, h) => some (n, h)
    | _ => none

@[simp] theorem names_nil : names ([] : Store V) = [] := rfl

@[simp] theorem names_found (id : Nat) (h : Held V) (σ : Store V) :
    names ((.found id, h) :: σ) = names σ := rfl

@[simp] theorem declare_nil (σ : Store V) : σ.declare [] = σ := rfl

theorem declare_append (σ : Store V) (es fs : List (String × Held V)) :
    σ.declare (es ++ fs) = (σ.declare es).declare fs := by
  simp [declare]

@[simp] theorem names_declare (σ : Store V) (entries : List (String × Held V)) :
    (σ.declare entries).names = entries.reverse ++ σ.names := by
  rw [names, declare, List.filterMap_append, ← List.map_reverse, List.filterMap_map]
  exact congrArg (· ++ σ.names) List.filterMap_some

/-- A name is looked up among the names. -/
theorem lookup_name (σ : Store V) (n : String) : σ.lookup (.name n) = σ.names.lookup n := by
  induction σ with
  | nil => rfl
  | cons e σ ih =>
    obtain ⟨v, h⟩ := e
    cases v with
    | name k =>
      have hb : ((Var.name n) == .name k) = (n == k) := by
        rw [Bool.eq_iff_iff, beq_iff_eq, beq_iff_eq, Var.name.injEq]
      change List.lookup (.name n) ((.name k, h) :: σ) = List.lookup n ((k, h) :: names σ)
      rw [List.lookup_cons, List.lookup_cons, hb, ih]
    | found | loop => exact ih

theorem lookup_name_declare (σ : Store V) (entries : List (String × Held V)) (n : String) :
    (σ.declare entries).lookup (.name n) = (entries.reverse.lookup n).or (σ.lookup (.name n)) := by
  rw [lookup_name, lookup_name, names_declare, List.lookup_append]

/-- A variable of another name is not hidden. -/
theorem lookup_declare_of_ne (σ : Store V) {entries : List (String × Held V)} {v : Var}
    (h : ∀ e ∈ entries, v ≠ .name e.1) : (σ.declare entries).lookup v = σ.lookup v := by
  rw [declare, List.lookup_append]
  have hnone : ((entries.map fun e => (Var.name e.1, e.2)).reverse).lookup v = none := by
    refine List.lookup_eq_none_iff.mpr fun e he => bne_iff_ne.mpr ?_
    obtain ⟨f, hf, rfl⟩ := List.mem_map.mp (List.mem_reverse.mp he)
    exact h f hf
  rw [hnone, Option.none_or]

/-- Names do not hide the counters of searches. -/
@[simp] theorem lookup_found_declare (σ : Store V) (entries : List (String × Held V)) (id : Nat) :
    (σ.declare entries).lookup (.found id) = σ.lookup (.found id) :=
  σ.lookup_declare_of_ne fun _ _ h => by cases h

end Store

namespace Index

/-- Declarations leave indices as they are. -/
@[simp] theorem value_declare (σ : Store V) (entries : List (String × Held V)) (i : Index) :
    i.value (σ.declare entries) = i.value σ := by
  simp [Index.value]

/-- Another search's counter does not move an index. -/
theorem value_found (σ : Store V) {i : Index} {id : Nat} (h : Held V) (hi : i.base ≠ some id) :
    i.value ((.found id, h) :: σ) = i.value σ := by
  cases hb : i.base with
  | none => simp [Index.value, hb]
  | some id' =>
    have hne : ((Var.found id') == .found id) = false := by
      simpa using fun h => hi (hb.trans (congrArg some h))
    simp [Index.value, hb, List.lookup_cons, hne]

/-- The next index is one further. -/
theorem value_next (σ : Store V) (i : Index) : i.next.value σ = (i.value σ).map (· + 1) := by
  rcases i with ⟨_ | id, k⟩
  · rfl
  · simp only [Index.value, Index.next]
    split <;> rfl

end Index

end Derw.Script
