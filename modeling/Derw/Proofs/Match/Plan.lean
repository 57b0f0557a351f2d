import Derw.Proofs.Match.Decomposition

/-!
# Proofs/Match/Plan — a plan finds the decomposition

`runAll` runs the steps of a plan one after the other. A plan searches forward only and never goes
back, and after a search it counts every position from the element found. `runAll_planFrom` is what
holds at each place of a plan: at part `p` of the pattern, with a cursor that stands at element `k`,
the steps that are left match if the rest of the parts take the rest of the list apart, and declare
what these parts hold.
-/

namespace Derw.Script

variable {V : Type}

/-! ## Running steps -/

/-- Why a run of steps stops before its end. -/
inductive Halt
  /-- The subject does not match. -/
  | mismatch
  /-- A step reads what is not there. -/
  | fault
  deriving DecidableEq, Repr

namespace Step

def run (m : Values V) (subject : Held V) (σ : Store V) : Step → Except Halt (Store V)
  | .check c =>
    match c.holds m subject σ with
    | some true => .ok σ
    | some false => .error .mismatch
    | none => .error .fault
  | .bind b =>
    match b.entries m subject σ with
    | some entries => .ok (σ.declare entries)
    | none => .error .fault
  | .scan id start test =>
    match subject.elements?, start.value σ with
    | some xs, some k =>
      match (xs.drop k).findIdx? (m.passes test) with
      | some j => .ok ((.found id, .position (k + j : Nat)) :: σ)
      | none => .error .mismatch
    | _, _ => .error .fault

/-- Runs steps in order. -/
def runAll (m : Values V) (subject : Held V) (σ : Store V) : List Step → Except Halt (Store V)
  | [] => .ok σ
  | s :: ss => (s.run m subject σ).bind fun τ => runAll m subject τ ss

variable {m : Values V} {subject : Held V} {σ : Store V} {ss : List Step}

@[simp] theorem runAll_nil : runAll m subject σ [] = .ok σ := rfl

theorem runAll_check {c : Cond} {b : Bool} (h : c.holds m subject σ = some b) :
    runAll m subject σ (.check c :: ss)
      = if b then runAll m subject σ ss else .error .mismatch := by
  cases b <;> simp [runAll, run, h, Except.bind]

theorem runAll_bind {b : Bind} {entries : List (String × Held V)}
    (h : b.entries m subject σ = some entries) :
    runAll m subject σ (.bind b :: ss) = runAll m subject (σ.declare entries) ss := by
  simp [runAll, run, h, Except.bind]

end Step

namespace Step

variable {m : Values V} {σ : Store V} {xs : List V} {k : Nat} {v : V} {i : Index}

/-- The fields of an element that is in the store. -/
theorem runAll_fieldBinds {subject : Held V} {n : String} (s : Shape) (ss : List Step)
    (h : σ.lookup (.name n) = some (.one v)) :
    runAll m subject σ ((fieldBinds (.name n) s).map .bind ++ ss)
      = runAll m subject (σ.declare (fieldsHeld m v s)) ss := by
  cases s with
  | tag name fields =>
    cases hf : fieldsText? fields with
    | none => simp [fieldBinds, fieldsHeld, hf]
    | some p =>
      have he : (Bind.fields p (.name n)).entries m subject σ
          = some ((m.fields p).map fun f => (f.1, .one (f.2 v))) := by
        simp [Bind.entries, Place.value, h, Held.fields]
      simp only [fieldBinds, fieldsHeld, hf, Option.map_some, Option.toList_some,
        List.map_cons, List.map_nil, List.singleton_append, Option.elim_some]
      exact runAll_bind he
  | text | format | empty => rfl

/-- The element of a shape is bound and tested, unless a search has done so, and then its fields are
bound. -/
theorem runAll_elementSteps (p : Nat) (s : Shape) (check : Bool) (ss : List Step)
    (hi : i.value σ = some k) (hv : xs[k]? = some v) :
    runAll m (.many xs) σ (elementSteps p s i check ++ ss)
      = if !check || m.passes (testOf s) v then
          runAll m (.many xs) (σ.declare ((placeholder p, .one v) :: fieldsHeld m v s)) ss
        else .error .mismatch := by
  set τ := σ.declare [(placeholder p, .one v)] with hτ
  have hl : τ.lookup (.name (placeholder p)) = some (.one v) := by simp [hτ, Store.declare]
  have hfields : runAll m (.many xs) τ ((fieldBinds (.name (placeholder p)) s).map .bind ++ ss)
      = runAll m (.many xs) (σ.declare ((placeholder p, .one v) :: fieldsHeld m v s)) ss := by
    rw [runAll_fieldBinds s ss hl, hτ, ← Store.declare_append, List.singleton_append]
  rw [elementSteps, List.append_assoc, List.cons_append,
    runAll_bind (Bind.entries_element _ hi hv), ← hτ]
  cases check with
  | false => simpa using hfields
  | true =>
    have hc : (Cond.passes (.name (placeholder p)) (testOf s)).holds m (.many xs) τ
        = some (m.passes (testOf s) v) := by
      simp [Cond.holds, Place.value, hl, Held.test]
    rw [if_pos rfl, List.singleton_append, runAll_check hc, hfields]
    simp

/-- A search stops at the first element that passes. -/
theorem runAll_scan {start : Index} {test : Test} {run rest : List V} (id : Nat) (ss : List Step)
    (hi : start.value σ = some k) (hx : xs.drop k = run ++ v :: rest)
    (hrun : ∀ u ∈ run, m.passes test u = false) (hv : m.passes test v = true) :
    runAll m (.many xs) σ (.scan id start test :: ss)
      = runAll m (.many xs) ((.found id, .position (k + run.length : Nat)) :: σ) ss := by
  have hf : (xs.drop k).findIdx? (m.passes test) = some run.length := by
    rw [hx, List.findIdx?_append, List.findIdx?_eq_none_iff.mpr hrun]
    simp [List.findIdx?_cons, hv]
  simp [runAll, Step.run, hi, hf, Except.bind]

/-- Without a hit the plan does not match. -/
theorem runAll_scan_mismatch {start : Index} {test : Test} (id : Nat) (ss : List Step)
    (hi : start.value σ = some k) (hx : ∀ u ∈ xs.drop k, m.passes test u = false) :
    runAll m (.many xs) σ (.scan id start test :: ss) = .error .mismatch := by
  simp [runAll, Step.run, hi, List.findIdx?_eq_none_iff.mpr hx, Except.bind]

end Step

/-- How a match ends that has declared `before` and goes on to declare `entries`, if it goes on. -/
def ending (before : List (String × Held V)) :
    Option (List (String × Held V)) → Except Halt (List (String × Held V))
  | some entries => .ok (entries.reverse ++ before)
  | none => .error .mismatch

/-- What was there before stays behind. -/
theorem ending_append (before es : List (String × Held V)) (o : Option (List (String × Held V))) :
    ending (es.reverse ++ before) o = ending before (o.map (es ++ ·)) := by
  cases o <;> simp [ending]

/-- An index counts from the start of the subject or from one of the first `scans` searches, and
names the element `k`. -/
structure Index.StandsAt (i : Index) (σ : Store V) (scans k : Nat) : Prop where
  value : i.value σ = some k
  base_lt : ∀ id, i.base = some id → id < scans

namespace Index.StandsAt

variable {i : Index} {σ : Store V} {scans k : Nat}

theorem declare (h : i.StandsAt σ scans k) (entries : List (String × Held V)) :
    i.StandsAt (σ.declare entries) scans k :=
  ⟨by rw [value_declare, h.value], h.base_lt⟩

theorem next (h : i.StandsAt σ scans k) : i.next.StandsAt σ scans (k + 1) :=
  ⟨by rw [value_next, h.value]; rfl, h.base_lt⟩

/-- The next search does not move an index. -/
theorem value_scan (h : i.StandsAt σ scans k) (held : Held V) :
    i.value ((.found scans, held) :: σ) = some k := by
  rw [value_found, h.value]
  exact fun hb => absurd (h.base_lt scans hb) (Nat.lt_irrefl _)

/-- What a search has found. -/
theorem found (σ : Store V) (scans k : Nat) :
    Index.StandsAt { base := some scans } ((.found scans, .position k) :: σ) (scans + 1) k :=
  ⟨by simp [Index.value], fun id h => by cases h; exact Nat.lt_succ_self _⟩

end Index.StandsAt

theorem getElem?_of_drop {xs rest : List V} {k : Nat} {v : V} (h : xs.drop k = v :: rest) :
    k + 1 ≤ xs.length ∧ xs[k]? = some v ∧ xs.drop (k + 1) = rest := by
  refine ⟨?_, ?_, ?_⟩
  · have := congrArg List.length h
    simp only [List.length_drop, List.length_cons] at this
    omega
  · rw [← List.head?_drop, h, List.head?_cons]
  · rw [← List.drop_drop, h, List.drop_one, List.tail_cons]

/-- A list ends at a position of it if nothing is left there. -/
theorem length_beq_eq_isEmpty_drop {xs : List V} {k : Nat} (h : k ≤ xs.length) :
    (xs.length == k) = (xs.drop k).isEmpty := by
  rw [Bool.eq_iff_iff, beq_iff_eq, List.isEmpty_iff, List.drop_eq_nil_iff]
  exact ⟨Nat.le_of_eq, fun hle => Nat.le_antisymm hle h⟩

namespace Step

variable {m : Values V} {σ : Store V} {xs : List V} {scans k : Nat} {i : Index}

/-- A part that takes one element asks for it first. -/
theorem runAll_lengthOver (ss : List Step) (hi : i.value σ = some k) :
    runAll m (.many xs) σ (.check (.lengthOver i) :: ss)
      = if xs.drop k = [] then .error .mismatch else runAll m (.many xs) σ ss := by
  have hc : (Cond.lengthOver i).holds m (.many xs) σ = some (decide (k < xs.length)) := by
    simp [Cond.holds, hi]
  rw [runAll_check hc]
  by_cases h : k < xs.length
  · rw [if_pos (by simpa using h), if_neg (by simpa using h)]
  · rw [if_neg (by simpa using h), if_pos (by simpa using h)]

/-- A gap holds what its search passes over, and the part after it what the search has found. -/
theorem runAll_gap (p : Nat) (n : String) {s : Shape} {run rest : List V} {v : V} (ss : List Step)
    (hi : i.StandsAt σ scans k) (hx : xs.drop k = run ++ v :: rest)
    (hrun : ∀ u ∈ run, m.passes (testOf s) u = false) (hv : m.passes (testOf s) v = true) :
    runAll m (.many xs) σ (.scan scans i (testOf s)
        :: .bind (.slice n i (some { base := some scans }))
        :: (elementSteps p s { base := some scans } false ++ ss))
      = runAll m (.many xs)
          (Store.declare ((.found scans, .position (k + run.length : Nat)) :: σ)
            ((n, .many run) :: (placeholder p, .one v) :: fieldsHeld m v s)) ss := by
  have hf := Index.StandsAt.found σ scans (k + run.length)
  have hrest : xs.drop (k + run.length) = v :: rest := by rw [← List.drop_drop, hx, List.drop_left]
  have hslice : (xs.take (k + run.length)).drop k = run := by
    rw [List.drop_take, hx, Nat.add_sub_cancel_left, List.take_left]
  rw [runAll_scan _ _ hi.value hx hrun hv,
    runAll_bind (Bind.entries_slice n (hi.value_scan _) hf.value), hslice,
    runAll_elementSteps _ _ _ _ (hf.declare _).value (getElem?_of_drop hrest).2.1,
    ← Store.declare_append]
  rfl

/-- A binder that takes one element, before a plan that is right for the rest. -/
theorem runAll_planFrom_binder {p : Nat} {n : String} {next : Part} {ps : List Part}
    (hi : i.StandsAt σ scans k) (hg : startsGap p (.binder n :: next :: ps) = false)
    (ih : ∀ {τ : Store V} {k : Nat}, k ≤ xs.length → i.next.StandsAt τ scans k →
      (runAll m (.many xs) τ (planFrom (p + 1) scans i.next (next :: ps))).map Store.names
        = ending τ.names (held? m (p + 1) (next :: ps) (xs.drop k))) :
    (runAll m (.many xs) σ (.check (.lengthOver i) :: .bind (.element n i)
        :: planFrom (p + 1) scans i.next (next :: ps))).map Store.names
      = ending σ.names (held? m p (.binder n :: next :: ps) (xs.drop k)) := by
  rw [runAll_lengthOver _ hi.value, held?_one hg rfl]
  cases hx : xs.drop k with
  | nil => rfl
  | cons v rest =>
    obtain ⟨hlt, hv, hrest⟩ := getElem?_of_drop hx
    rw [if_neg (List.cons_ne_nil _ _), runAll_bind (Bind.entries_element n hi.value hv),
      ih hlt (hi.next.declare _), Store.names_declare, ending_append, hrest]
    simp [accepts, pieceHeld, hg]

/-- From position `k` on the plan declares what its parts hold, by the recursion of the plan. -/
theorem runAll_planFrom (m : Values V) (xs : List V) {p : Nat} {parts : List Part}
    (hk : k ≤ xs.length) (hi : i.StandsAt σ scans k) :
    (runAll m (.many xs) σ (planFrom p scans i parts)).map Store.names
      = ending σ.names (held? m p parts (xs.drop k)) := by
  fun_induction planFrom p scans i parts generalizing σ k with
  | case1 => simp [held?, split?, partsHeld, ending, Except.map]
  | case2 p scans i n =>
    rw [runAll_bind (Bind.entries_sliceFrom n hi.value)]
    simp [held?, split?, partsHeld, pieceHeld, ending, Except.map]
  | case3 p scans i =>
    have hc : (Cond.lengthIs i).holds m (.many xs) σ = some (xs.drop k).isEmpty := by
      simp [Cond.holds, hi.value, length_beq_eq_isEmpty_drop hk]
    rw [runAll_check hc, held?, split?]
    cases (xs.drop k).isEmpty <;> simp [partsHeld, pieceHeld, ending, Except.map]
  | case4 p scans i n s ps hg found =>
    rename_i ih
    have hs : s ≠ .empty := by rintro rfl; simp [searchable] at hg
    have hg : startsGap p (.binder n :: .shape s :: ps) = true := hg
    rcases search_cases (m.passes (testOf s)) (xs.drop k) with
      hx | ⟨run, v, rest, hx, hrun, hv⟩
    · rw [List.cons_append, runAll_scan_mismatch _ _ hi.value hx, held?_gap_none hg hs hx]
      rfl
    · have hf := Index.StandsAt.found σ scans (k + run.length)
      have hlast : xs.drop (k + run.length) = v :: rest := by
        rw [← List.drop_drop, hx, List.drop_left]
      obtain ⟨hlt, -, hrest⟩ := getElem?_of_drop hlast
      rw [List.cons_append, List.cons_append, runAll_gap _ _ _ hi hx hrun hv,
        ih hlt (hf.next.declare _), Store.names_declare, Store.names_found, ending_append, hx,
        held?_gap hg hs hrun hv, hrest]
  | case5 p scans i n s ps hg ih =>
    have hg : startsGap p (.binder n :: .shape s :: ps) = false := by simpa [startsGap] using hg
    exact runAll_planFrom_binder hi hg ih
  | case6 p scans i n n' ps ih =>
    exact runAll_planFrom_binder hi (by simp [startsGap, searchable]) ih
  | case7 p scans i s ps hne ih =>
    rw [List.cons_append, runAll_lengthOver _ hi.value, held?_one rfl (isEnd_shape hne)]
    cases hx : xs.drop k with
    | nil => rfl
    | cons v rest =>
      obtain ⟨hlt, hv, hrest⟩ := getElem?_of_drop hx
      rw [if_neg (List.cons_ne_nil _ _), runAll_elementSteps _ _ _ _ hi.value hv]
      by_cases hp : m.passes (testOf s) v = true
      · simp only [hp, Bool.or_true, if_true, accepts]
        rw [ih hlt (hi.next.declare _), Store.names_declare, ending_append, hrest]
        simp [pieceHeld]
      · simp [hp, accepts, ending, Except.map]

/-- A plan from its start. -/
theorem runAll_plan (m : Values V) (parts : List Part) (xs : List V) :
    (runAll m (.many xs) [] (plan parts)).map Store.names = ending [] (held? m 0 parts xs) :=
  runAll_planFrom m xs (Nat.zero_le _) ⟨rfl, fun _ h => by cases h⟩

end Step

/-- **A plan matches just the lists that its pattern takes apart, and every name it binds stands for
what its part takes.** There is one way to take a list apart at most, and running the plan never
reads what is not there. -/
theorem runAll_plan_iff_splits (m : Values V) (parts : List Part) (xs : List V) :
    (∀ pieces pieces', Splits m 0 parts xs pieces → Splits m 0 parts xs pieces' →
      pieces = pieces') ∧
    ((∃ σ, Step.runAll m (.many xs) [] (plan parts) = .ok σ) ↔
      ∃ pieces, Splits m 0 parts xs pieces) ∧
    (∀ σ pieces, Step.runAll m (.many xs) [] (plan parts) = .ok σ →
      Splits m 0 parts xs pieces → σ.names.reverse = partsHeld m 0 parts pieces) ∧
    Step.runAll m (.many xs) [] (plan parts) ≠ .error .fault := by
  have hrun := Step.runAll_plan m parts xs
  refine ⟨fun _ _ => Splits.unique, ⟨?_, ?_⟩, ?_, ?_⟩
  · rintro ⟨σ, hσ⟩
    cases hs : split? m 0 parts xs with
    | none => simp [hσ, held?, hs, ending, Except.map] at hrun
    | some pieces => exact ⟨pieces, .of_split? hs⟩
  · rintro ⟨pieces, h⟩
    cases hσ : Step.runAll m (.many xs) [] (plan parts) with
    | ok σ => exact ⟨σ, rfl⟩
    | error e => simp [hσ, held?, h.split?_eq, ending, Except.map] at hrun
  · intro σ pieces hσ h
    have hnames : σ.names = (partsHeld m 0 parts pieces).reverse := by
      simpa [hσ, held?, h.split?_eq, ending, Except.map] using hrun
    rw [hnames, List.reverse_reverse]
  · intro hσ
    cases hs : split? m 0 parts xs <;> simp [hσ, held?, hs, ending, Except.map] at hrun

end Derw.Script
