import Derw.Proofs.Match.Code
import Derw.Proofs.Match.Plan

/-!
# Proofs/Match/Nesting — nested statements do what the plan says

`Nest.ofSteps` keeps back the checks of a plan until a declaration or a search comes, writes them as
one guard, and goes on inside it. So the body ends up in the innermost block, and control gets there
just when all the steps go through: `arrival_ofSteps`, by induction on the steps, with the checks
kept back as part of the statement. A search is the one step that is not a statement of its own;
`loop_searchBody` says what its loop leaves in its counter.

Blocks close again, so a statement could read a variable that is out of scope. `Code.Scoped` says
that none does. Plans are scoped because a part reads its own element only, which has just been
declared, and the counter of the search before it (`Step.scoped_planFrom`).
-/

namespace Derw.Script

variable {V : Type}

/-! ## Scopes -/

/-- The counter that an index counts from, if it does. -/
def Index.reads (i : Index) : List Var := i.base.toList.map .found

def Place.reads : Place → List Var
  | .subject => []
  | .name n => [.name n]

def Cond.reads : Cond → List Var
  | .lengthAtLeast _ => []
  | .lengthOver i | .lengthIs i => i.reads
  | .passes place _ => place.reads

/-- The variables that a declaration looks at. -/
def Bind.reads : Bind → List Var
  | .fields _ source => source.reads
  | .element _ position => position.reads
  | .slice _ start stop => start.reads ++ stop.elim [] Index.reads
  | .elements .. => []

/-- The names that a declaration declares, other than those of a destructuring text. -/
def Bind.declares : Bind → List Var
  | .fields .. => []
  | .element n _ | .slice n .. => [.name n]
  | .elements names rest => (names ++ rest.toList).map .name

/-- The names that a declaration declares, where `fields` reads destructuring texts. -/
def Bind.names (fields : String → List String) : Bind → List String
  | .fields text _ => fields text
  | .element n _ | .slice n _ _ => [n]
  | .elements ns rest => ns ++ rest.toList

theorem Bind.exists_name_of_mem_declares {b : Bind} {v : Var} (h : v ∈ b.declares)
    (fields : String → List String) : ∃ n ∈ b.names fields, v = .name n := by
  cases b with
  | fields => cases h
  | element n | slice n => exact ⟨n, List.mem_singleton_self n, List.mem_singleton.mp h⟩
  | elements ns rest =>
    obtain ⟨n, hn, rfl⟩ := List.mem_map.mp h
    exact ⟨n, hn, rfl⟩

/-- The variables that a guard looks at. -/
def Guard.reads : Guard → List Var
  | .cond c => c.reads
  | .hit id _ => [.loop id]
  | .isFound id => [.found id]

/-- Every statement reads only variables that are declared before it, in its block or in one around
it, and no search takes the counter of another one. `bound` are the variables declared so far. -/
def Code.Scoped (bound : List Var) : Code → Prop
  | .done => True
  | .hole rest | .exit rest => rest.Scoped bound
  | .const b rest => b.reads ⊆ bound ∧ rest.Scoped (b.declares ++ bound)
  | .letFound id rest => .found id ∉ bound ∧ rest.Scoped (.found id :: bound)
  | .setFound id rest => [.found id, .loop id] ⊆ bound ∧ rest.Scoped bound
  | .when guards inner rest =>
    (∀ g ∈ guards, g.reads ⊆ bound) ∧ inner.Scoped bound ∧ rest.Scoped bound
  | .each id start inner rest =>
    start.reads ⊆ bound ∧ inner.Scoped (.loop id :: bound) ∧ rest.Scoped bound
  | .block inner rest => inner.Scoped bound ∧ rest.Scoped bound

/-- The same of the steps of a plan. -/
def Step.Scoped (bound : List Var) : List Step → Prop
  | [] => True
  | .check c :: ss => c.reads ⊆ bound ∧ Scoped bound ss
  | .bind b :: ss => b.reads ⊆ bound ∧ Scoped (b.declares ++ bound) ss
  | .scan id start _ :: ss =>
    start.reads ⊆ bound ∧ .found id ∉ bound ∧ Scoped (.found id :: bound) ss

/-- How often the body stands in the statements. -/
def Code.holes : Code → Nat
  | .done => 0
  | .hole rest => rest.holes + 1
  | .const _ rest | .letFound _ rest | .setFound _ rest | .exit rest => rest.holes
  | .when _ inner rest | .each _ _ inner rest | .block inner rest => inner.holes + rest.holes

/-- A match has one place for its body. -/
theorem Nest.holes_code (n : Nest) : n.code.holes = 1 := by
  induction n with
  | body => rfl
  | bind b rest ih => exact ih
  | guard conditions rest ih | search id start test rest ih | scope rest ih =>
    simpa [Nest.code, Code.holes] using ih

namespace Step

variable {bound : List Var} {ss : List Step}

/-- Checks declare nothing. -/
theorem scoped_checks {cs : List Cond} :
    Scoped bound (cs.map .check ++ ss) ↔ (∀ c ∈ cs, c.reads ⊆ bound) ∧ Scoped bound ss := by
  induction cs with
  | nil => simp
  | cons c cs ih => simp [Scoped, ih, and_assoc]

end Step

theorem Nest.scoped_guarded {bound : List Var} {cs : List Cond} {n : Nest}
    (hcs : ∀ c ∈ cs, c.reads ⊆ bound) (hn : n.code.Scoped bound) :
    (Nest.guarded cs n).code.Scoped bound := by
  cases cs with
  | nil => exact hn
  | cons c cs =>
    refine ⟨fun g hg => ?_, hn, trivial⟩
    obtain ⟨c', hc', rfl⟩ := List.mem_map.mp hg
    exact hcs c' hc'

/-- Nested steps read what the steps have declared. -/
theorem Nest.scoped_ofSteps {bound : List Var} {pending : List Cond} {ss : List Step}
    (h : Step.Scoped bound (pending.map .check ++ ss)) :
    (Nest.ofSteps pending ss).code.Scoped bound := by
  induction ss generalizing pending bound with
  | nil => exact scoped_guarded (Step.scoped_checks.mp h).1 trivial
  | cons s ss ih =>
    obtain ⟨hpending, hs⟩ := Step.scoped_checks.mp h
    cases s with
    | check c => exact ih (by simpa using h)
    | bind b => exact scoped_guarded hpending ⟨hs.1, ih hs.2⟩
    | scan id start test =>
      obtain ⟨hstart, hid, hss⟩ := hs
      refine scoped_guarded hpending ⟨hid, ?_, ⟨?_, ?_, trivial⟩, ?_, ih hss, trivial⟩
      · exact fun v hv => List.mem_cons_of_mem _ (hstart hv)
      · simp [Guard.reads]
      · simp [Code.Scoped]
      · simp [Guard.reads]

/-! ## Where a match arrives -/

namespace Outcome

variable {S : Type}

/-- What is in scope in the body, if control arrives there. -/
def arrival : Outcome S → Except Halt S
  | entered s => .ok s
  | ended _ => .error .mismatch
  | exited _ | fault => .error .fault

/-- A body is entered in the store that control arrives with. -/
theorem entered_iff_arrival {o : Outcome S} {s : S} :
    o = .entered s ↔ o.arrival = .ok s := by
  cases o <;> simp [arrival]

end Outcome

section

variable {m : Values V} {subject : Held V} {σ : Store V}

/-- Conditions that share a guard are checks one after the other. -/
theorem runAll_checks (cs : List Cond) (ss : List Step) :
    Step.runAll m subject σ (cs.map .check ++ ss)
      = match Guard.allHold m subject σ (cs.map .cond) with
        | some true => Step.runAll m subject σ ss
        | some false => .error .mismatch
        | none => .error .fault := by
  induction cs with
  | nil => rfl
  | cons c cs ih =>
    rw [List.map_cons, List.cons_append, Step.runAll, Step.run, List.map_cons, Guard.allHold,
      Guard.holds]
    rcases c.holds m subject σ with _ | _ | _
    · rfl
    · rfl
    · exact ih

/-- An `if` at the end of its block. -/
theorem arrival_when (gs : List Guard) (inner : Code) :
    ((Code.when gs inner .done).run m subject σ).arrival
      = match Guard.allHold m subject σ gs with
        | some true => (inner.run m subject σ).arrival
        | some false => .error .mismatch
        | none => .error .fault := by
  rw [Code.run]
  rcases Guard.allHold m subject σ gs with _ | _ | _
  · rfl
  · rfl
  · cases inner.run m subject σ <;> rfl

/-- A guard stops control, or lets it in. -/
theorem arrival_guarded (cs : List Cond) (n : Nest) :
    ((Nest.guarded cs n).code.run m subject σ).arrival
      = match Guard.allHold m subject σ (cs.map .cond) with
        | some true => (n.code.run m subject σ).arrival
        | some false => .error .mismatch
        | none => .error .fault := by
  cases cs with
  | nil => rfl
  | cons c cs => exact arrival_when _ _

end

/-! ## Searches -/

/-- The statements that a search runs at each element. -/
def searchBody (m : Values V) (xs : List V) (id : Nat) (test : Test) (i : Nat) (τ : Store V) :
    Outcome (Store V) :=
  (Code.run m (.many xs) (.when [.hit id test] (.setFound id (.exit .done)) .done)
    ((.loop id, .position (.ofNat i)) :: τ)).leave τ.length

/-- Where a search ends that starts at element `k`. -/
def foundAt (m : Values V) (test : Test) (k : Nat) (ys : List V) : Held V :=
  .position ((ys.findIdx? (m.passes test)).elim (-1) fun j => .ofNat (k + j))

section

variable {m : Values V} {xs : List V} {σ : Store V} {test : Test}

/-- At an element that passes, the search notes its position and leaves the loop. -/
theorem searchBody_found (id : Nat) {i : Nat} {v : V} {h : Held V} (hv : xs[i]? = some v) :
    searchBody m xs id test i ((.found id, h) :: σ)
      = if m.passes test v then .exited ((.found id, .position (.ofNat i)) :: σ)
        else .ended ((.found id, h) :: σ) := by
  have hg : Guard.allHold m (.many xs)
      ((.loop id, .position (.ofNat i)) :: (.found id, h) :: σ) [.hit id test]
      = some (m.passes test v) := by
    cases hp : m.passes test v <;> simp [Guard.allHold, Guard.holds, hv, hp]
  rw [searchBody, Code.run, hg]
  cases m.passes test v with
  | false => simp [Code.run, Outcome.leave, Outcome.close]
  | true => simp [Code.run, Outcome.leave, Outcome.close, Outcome.andThen, Store.assign]

/-- A search looks at one element after the other. -/
theorem foundAt_cons (test : Test) (k : Nat) (v : V) (ys : List V) :
    foundAt m test k (v :: ys)
      = if m.passes test v then .position (.ofNat k) else foundAt m test (k + 1) ys := by
  rw [foundAt, foundAt, List.findIdx?_cons]
  cases m.passes test v with
  | true => rfl
  | false =>
    cases ys.findIdx? (m.passes test) with
    | none => rfl
    | some j => exact congrArg (Held.position ∘ Int.ofNat) (Nat.add_right_comm k j 1)

/-- The loop of a search leaves the first hit in its counter, by induction on the elements left. -/
theorem loop_searchBody (id : Nat) (ys : List V) {k : Nat} (hx : xs.drop k = ys) :
    Code.loop (searchBody m xs id test) ys.length k ((.found id, .position (-1)) :: σ)
      = .ended ((.found id, foundAt m test k ys) :: σ) := by
  induction ys generalizing k with
  | nil => rfl
  | cons v ys ih =>
    obtain ⟨-, hv, hrest⟩ := getElem?_of_drop hx
    rw [List.length_cons, Code.loop, searchBody_found id hv, foundAt_cons]
    by_cases hp : m.passes test v = true
    · rw [if_pos hp, if_pos hp]
    · rw [if_neg hp, if_neg hp]
      exact ih hrest

end

/-- A search goes on where its step does. -/
theorem arrival_search {m : Values V} {subject : Held V} {σ : Store V} {id : Nat} {start : Index}
    {test : Test} {n : Nest} {ss : List Step} (hfresh : start.base ≠ some id)
    (h : ∀ σ, (n.code.run m subject σ).arrival = Step.runAll m subject σ ss) :
    ((Nest.search id start test n).code.run m subject σ).arrival
      = Step.runAll m subject σ (.scan id start test :: ss) := by
  rw [Nest.code, Code.run, Code.run, Index.value_found σ _ hfresh, Step.runAll, Step.run]
  cases subject with
  | one | position => rfl
  | many xs =>
    cases start.value σ with
    | none => rfl
    | some k =>
      simp only [Held.elements?_many]
      change ((Code.loop (searchBody m xs id test) (xs.length - k) k _).andThen _).arrival = _
      rw [← List.length_drop, loop_searchBody id _ rfl, Outcome.andThen, arrival_when, h,
        Guard.allHold, Guard.holds, List.lookup_cons_self, foundAt]
      cases (xs.drop k).findIdx? (m.passes test) <;> rfl

/-- Nested steps arrive where the steps do, after the checks that are kept back. -/
theorem arrival_ofSteps {m : Values V} {subject : Held V} {σ : Store V} {bound : List Var}
    (pending : List Cond) {ss : List Step} (hs : Step.Scoped bound ss) :
    ((Nest.ofSteps pending ss).code.run m subject σ).arrival
      = Step.runAll m subject σ (pending.map .check ++ ss) := by
  induction ss generalizing pending σ bound with
  | nil =>
    rw [Nest.ofSteps, arrival_guarded, runAll_checks]
    rfl
  | cons s ss ih =>
    cases s with
    | check c =>
      rw [Nest.ofSteps, ih _ hs.2, List.map_append, List.append_assoc]
      rfl
    | bind b =>
      have hb : ((Nest.bind b (.ofSteps [] ss)).code.run m subject σ).arrival
          = Step.runAll m subject σ (.bind b :: ss) := by
        rw [Nest.code, Code.run, Step.runAll, Step.run]
        cases b.entries m subject σ with
        | none => rfl
        | some es => exact ih [] hs.2
      rw [Nest.ofSteps, arrival_guarded, runAll_checks, hb]
    | scan id start test =>
      obtain ⟨hstart, hid, hss⟩ := hs
      have hfresh : start.base ≠ some id := fun hb => hid (hstart (by simp [Index.reads, hb]))
      rw [Nest.ofSteps, arrival_guarded, runAll_checks,
        arrival_search hfresh fun σ => ih [] hss]
      rfl

/-! ## Plans -/

namespace Step

variable {bound : List Var} {ss : List Step} {i : Index}

theorem scoped_fieldBinds {n : String} (s : Shape) (hn : .name n ∈ bound) (hss : Scoped bound ss) :
    Scoped bound ((fieldBinds (.name n) s).map .bind ++ ss) := by
  cases s with
  | tag name fields =>
    cases hf : fieldsText? fields with
    | none => simpa [fieldBinds, hf] using hss
    | some p => simpa [fieldBinds, hf, Scoped, Bind.reads, Place.reads, Bind.declares, hn] using hss
  | text | format | empty => exact hss

/-- A part reads the element that it has just declared. -/
theorem scoped_elementSteps (p : Nat) (s : Shape) (check : Bool) (hi : i.reads ⊆ bound)
    (hss : Scoped (.name (placeholder p) :: bound) ss) :
    Scoped bound (elementSteps p s i check ++ ss) := by
  have hfields := scoped_fieldBinds s List.mem_cons_self hss
  rw [elementSteps, List.append_assoc]
  refine ⟨hi, ?_⟩
  cases check with
  | false => exact hfields
  | true => exact ⟨by simp [Cond.reads, Place.reads, Bind.declares], hfields⟩

/-- Plans read nothing that is not declared. A search's counter is numbered from `scans` on. -/
theorem scoped_planFrom {p scans : Nat} {parts : List Part} (hi : i.reads ⊆ bound)
    (hb : ∀ id, .found id ∈ bound → id < scans) : Scoped bound (planFrom p scans i parts) := by
  fun_induction planFrom p scans i parts generalizing bound with
  | case1 => trivial
  | case2 p scans i n => exact ⟨by simpa [Bind.reads] using hi, trivial⟩
  | case3 p scans i => exact ⟨hi, trivial⟩
  | case4 p scans i n s ps hg found =>
    rename_i ih
    refine ⟨hi, fun h => absurd (hb scans h) (Nat.lt_irrefl _), ?_,
      scoped_elementSteps _ s false ?_ (ih ?_ fun id h => ?_)⟩
    · exact List.append_subset.mpr
        ⟨fun v hv => List.mem_cons_of_mem _ (hi hv), by simp [found, Index.reads]⟩
    · simp [found, Index.reads]
    · simp [found, Index.reads, Index.next]
    · rcases (by simpa [Bind.declares] using h : id = scans ∨ .found id ∈ bound) with rfl | h
      · exact Nat.lt_succ_self _
      · exact Nat.lt_succ_of_lt (hb id h)
  | case5 p scans i n s ps hg ih | case6 p scans i n n' ps ih =>
    exact ⟨hi, hi,
      ih (fun v hv => List.mem_cons_of_mem _ (hi hv)) (by simpa [Bind.declares] using hb)⟩
  | case7 p scans i s ps hne ih =>
    exact ⟨hi, scoped_elementSteps _ s true hi
      (ih (fun v hv => List.mem_cons_of_mem _ (hi hv)) (by simpa using hb))⟩

end Step

end Derw.Script
