import Derw.Proofs.Match.Leftmost

/-!
# Proofs/Match/Bounds — a plan reads only what is there

An element that is bound before the first gap stands behind a length check, and one behind a gap
stands where a search has stopped, so no step of a plan reads past the end of the subject
(`Step.InRange`). What carries this through the plan is its cursor (`Index.Ready`): it counts from
the start or from a search that has found its element, and it never passes the end. A length check
or a search that succeeds lets it move on by one.

The steps fall into groups, one for each part, or for a gap and the part behind it together
(`Handles`).
-/

namespace Derw.Script

variable {V : Type}

/-! ## What a step that succeeds has done -/

namespace Step

/-- The numbers of the searches. -/
def searches (steps : List Step) : List Nat :=
  steps.filterMap fun
    | .scan id .. => some id
    | .check _ | .bind _ => none

@[simp] theorem searches_append (ss ts : List Step) :
    searches (ss ++ ts) = searches ss ++ searches ts := List.filterMap_append

@[simp] theorem searches_elementSteps (p : Nat) (sh : Shape) (i : Index) (check : Bool) :
    searches (elementSteps p sh i check) = [] := by
  refine List.filterMap_eq_nil_iff.mpr fun t ht => ?_
  cases t with
  | check | bind => rfl
  | scan => cases check <;> simp [elementSteps] at ht

variable {m : Values V} {xs : List V} {ss : List Step} {σ τ : Store V} {s : Step}

/-- A check that holds changes nothing. -/
theorem run_check_eq_ok {c : Cond} :
    (Step.check c).run m (.many xs) σ = .ok τ ↔ c.holds m (.many xs) σ = some true ∧ τ = σ := by
  rw [run]
  rcases c.holds m (.many xs) σ with _ | _ | _ <;> simp [eq_comm]

/-- A declaration that succeeds declares its entries. -/
theorem run_bind_eq_ok {b : Bind} :
    (Step.bind b).run m (.many xs) σ = .ok τ ↔
      ∃ entries, b.entries m (.many xs) σ = some entries ∧ τ = σ.declare entries := by
  rw [run]
  cases b.entries m (.many xs) σ <;> simp [eq_comm]

/-- A scan that succeeds notes the first hit from its start on. -/
theorem run_scan_eq_ok {id : Nat} {start : Index} {test : Test} :
    (Step.scan id start test).run m (.many xs) σ = .ok τ ↔
      ∃ k j, start.value σ = some k ∧ (xs.drop k).findIdx? (m.passes test) = some j ∧
        τ = (.found id, .position (k + j : Nat)) :: σ := by
  rw [run, Held.elements?_many]
  cases start.value σ with
  | none => simp
  | some k => cases hj : (xs.drop k).findIdx? (m.passes test) <;> simp [hj, eq_comm]

theorem runAll_cons_eq_ok :
    runAll m (.many xs) σ (s :: ss) = .ok τ ↔
      ∃ ρ, s.run m (.many xs) σ = .ok ρ ∧ runAll m (.many xs) ρ ss = .ok τ := by
  rw [runAll]
  cases s.run m (.many xs) σ <;> simp [Except.bind]

theorem runAll_singleton : runAll m (.many xs) σ [s] = s.run m (.many xs) σ := by
  rw [runAll]
  cases s.run m (.many xs) σ <;> rfl

/-- Only a search of this number moves its counter. -/
theorem lookup_found_of_run {id : Nat} (h : s.run m (.many xs) σ = .ok τ)
    (hid : id ∉ searches [s]) : τ.lookup (.found id) = σ.lookup (.found id) := by
  cases s with
  | check c =>
    obtain ⟨-, rfl⟩ := run_check_eq_ok.mp h
    rfl
  | bind b =>
    obtain ⟨entries, -, rfl⟩ := run_bind_eq_ok.mp h
    exact σ.lookup_found_declare entries id
  | scan id' start test =>
    obtain ⟨k, j, -, -, rfl⟩ := run_scan_eq_ok.mp h
    have hne : (Var.found id == .found id') = false := by simpa [searches] using hid
    rw [List.lookup_cons, hne]

/-- Only a scan changes its counter. -/
theorem lookup_found_of_runAll {id : Nat} (h : runAll m (.many xs) σ ss = .ok τ)
    (hid : id ∉ searches ss) : τ.lookup (.found id) = σ.lookup (.found id) := by
  induction ss generalizing σ with
  | nil => cases h; rfl
  | cons s ss ih =>
    obtain ⟨ρ, hs, hss⟩ := runAll_cons_eq_ok.mp h
    rw [← List.singleton_append, searches_append, List.mem_append, not_or] at hid
    rw [ih hss hid.2, lookup_found_of_run hs hid.1]

end Step

/-! ## Steps in range -/

/-- Search number `id` is among the steps that are done, and has found an element that passes its
test. -/
def HasFound (m : Values V) (xs : List V) (done : List Step) (σ : Store V) (id : Nat) : Prop :=
  ∃ start test k v, Step.scan id start test ∈ done ∧
    σ.lookup (.found id) = some (.position (k : Nat)) ∧ xs[k]? = some v ∧ m.passes test v = true

/-- One of the steps that are done has bound the name to an element. -/
def HasBound (done : List Step) (σ : Store V) (n : String) : Prop :=
  ∃ i v, Step.bind (.element n i) ∈ done ∧ σ.lookup (.name n) = some (.one v)

/-- An index counts from the start, or from a search that has found its element. -/
def Index.Grounded (m : Values V) (xs : List V) (done : List Step) (σ : Store V) (i : Index) :
    Prop :=
  ∀ id, i.base = some id → HasFound m xs done σ id

namespace Step

/-- After the steps that are `done`, with the store that they have left, a step reads only elements
that are there, counts only from what has been found, and looks only at what has been bound. A plan
makes no other checks and declarations. -/
def InRange (m : Values V) (xs : List V) (done : List Step) (σ : Store V) : Step → Prop
  | .check (.lengthOver i) | .check (.lengthIs i) => i.Grounded m xs done σ
  | .check (.passes (.name n) _) => HasBound done σ n
  | .bind (.fields _ (.name n)) => HasBound done σ n
  | .bind (.element _ i) => i.Grounded m xs done σ ∧ ∃ k, i.value σ = some k ∧ k < xs.length
  | .bind (.slice _ start stop) =>
    start.Grounded m xs done σ ∧ (∀ i ∈ stop, i.Grounded m xs done σ) ∧
      ∃ k l, start.value σ = some k ∧ stop.elim (some xs.length) (·.value σ) = some l ∧
        k ≤ l ∧ l ≤ xs.length
  | .scan _ start _ =>
    start.Grounded m xs done σ ∧ ∃ k, start.value σ = some k ∧ k ≤ xs.length
  | .check (.lengthAtLeast _) | .check (.passes .subject _) => False
  | .bind (.fields _ .subject) | .bind (.elements ..) => False

/-- Each step is in range when the run comes to it, if it comes so far. -/
def AllInRange (m : Values V) (xs : List V) : List Step → Store V → List Step → Prop
  | _, _, [] => True
  | done, σ, s :: ss =>
    s.InRange m xs done σ ∧
      ∀ τ, s.run m (.many xs) σ = .ok τ → AllInRange m xs (done ++ [s]) τ ss

variable {m : Values V} {xs : List V} {done ss ts : List Step} {σ : Store V} {s : Step}

/-- In range up to a point, and from there on with all the steps done so far. -/
theorem allInRange_append :
    AllInRange m xs done σ (ss ++ ts) ↔
      AllInRange m xs done σ ss ∧
        ∀ τ, runAll m (.many xs) σ ss = .ok τ → AllInRange m xs (done ++ ss) τ ts := by
  induction ss generalizing done σ with
  | nil => simp [AllInRange]
  | cons s ss ih =>
    simp only [List.cons_append, AllInRange, ih, runAll_cons_eq_ok, List.append_assoc]
    constructor
    · rintro ⟨hs, hrest⟩
      exact ⟨⟨hs, fun ρ hρ => (hrest ρ hρ).1⟩, fun τ ⟨ρ, hρ, hτ⟩ => (hrest ρ hρ).2 τ hτ⟩
    · rintro ⟨⟨hs, hss⟩, hts⟩
      exact ⟨hs, fun ρ hρ => ⟨hss ρ hρ, fun τ hτ => hts τ ⟨ρ, hρ, hτ⟩⟩⟩

/-- The step that a run has come to is in range. -/
theorem AllInRange.inRange (h : AllInRange m xs [] [] (done ++ s :: ss))
    (hrun : runAll m (.many xs) [] done = .ok σ) : s.InRange m xs done σ :=
  ((allInRange_append.mp h).2 σ hrun).1

end Step

/-! ## The cursor -/

/-- The cursor of a plan: it names a position of the subject or its end, and counts from the start
or from one of the first `scans` searches, which has found its element. -/
structure Index.Ready (m : Values V) (xs : List V) (done : List Step) (σ : Store V) (scans : Nat)
    (i : Index) (k : Nat) : Prop extends i.StandsAt σ scans k where
  grounded : i.Grounded m xs done σ
  le_length : k ≤ xs.length

section

variable {m : Values V} {xs : List V} {done ss : List Step} {σ τ : Store V} {s : Step}
  {scans k : Nat} {i : Index}

/-- An index depends on its counter alone. -/
theorem Index.value_congr
    (h : ∀ id, i.base = some id → τ.lookup (.found id) = σ.lookup (.found id)) :
    i.value τ = i.value σ := by
  rcases i with ⟨_ | id, offset⟩
  · rfl
  · simp only [Index.value, h id rfl]

/-- What a search has found stays found. -/
theorem HasFound.runAll {id : Nat} (h : HasFound m xs done σ id)
    (hrun : Step.runAll m (.many xs) σ ss = .ok τ) (hid : id ∉ Step.searches ss) :
    HasFound m xs (done ++ ss) τ id := by
  obtain ⟨start, test, k, v, hmem, hfound, hv, hpass⟩ := h
  refine ⟨start, test, k, v, List.mem_append_left _ hmem, ?_, hv, hpass⟩
  rw [Step.lookup_found_of_runAll hrun hid, hfound]

namespace Index.Ready

/-- Steps that search under higher numbers only leave the cursor where it is. -/
theorem runAll (h : i.Ready m xs done σ scans k) (hrun : Step.runAll m (.many xs) σ ss = .ok τ)
    (hnew : ∀ id ∈ Step.searches ss, scans ≤ id) : i.Ready m xs (done ++ ss) τ scans k := by
  have hold : ∀ id, i.base = some id → id ∉ Step.searches ss := fun id hb hmem =>
    absurd (h.base_lt id hb) (Nat.not_lt.mpr (hnew id hmem))
  refine ⟨⟨?_, h.base_lt⟩, fun id hb => (h.grounded id hb).runAll hrun (hold id hb), h.le_length⟩
  rw [value_congr fun id hb => Step.lookup_found_of_runAll hrun (hold id hb), h.value]

theorem run (h : i.Ready m xs done σ scans k) (hrun : s.run m (.many xs) σ = .ok τ)
    (hnew : ∀ id ∈ Step.searches [s], scans ≤ id) : i.Ready m xs (done ++ [s]) τ scans k :=
  h.runAll (Step.runAll_singleton.trans hrun) hnew

/-- The next index, behind an element that is there. -/
theorem next (h : i.Ready m xs done σ scans k) (hk : k < xs.length) :
    i.next.Ready m xs done σ scans (k + 1) :=
  ⟨h.toStandsAt.next, h.grounded, hk⟩

/-- A search that succeeds has found an element at the cursor or behind it. -/
theorem scan {test : Test} (h : i.Ready m xs done σ scans k)
    (hrun : (Step.scan scans i test).run m (.many xs) σ = .ok τ) :
    ∃ l, k ≤ l ∧ l < xs.length ∧
      Index.Ready m xs (done ++ [.scan scans i test]) τ (scans + 1) { base := some scans } l := by
  obtain ⟨k', j, hk', hj, rfl⟩ := Step.run_scan_eq_ok.mp hrun
  obtain rfl : k = k' := Option.some.inj (h.value.symm.trans hk')
  obtain ⟨hlt, hpass, -⟩ := List.findIdx?_eq_some_iff_getElem.mp hj
  rw [List.getElem_drop] at hpass
  have hlt : k + j < xs.length := by
    rw [List.length_drop] at hlt
    omega
  refine ⟨k + j, Nat.le_add_right k j, hlt, Index.StandsAt.found σ scans (k + j), ?_, hlt.le⟩
  rintro id hb
  cases hb
  exact ⟨i, test, k + j, _, List.mem_append_right _ List.mem_cons_self, by simp,
    List.getElem?_eq_getElem hlt, hpass⟩

end Index.Ready

/-! ## Groups of steps in range -/

/-- An element that has been taken is bound. -/
theorem HasBound.of_run {n : String}
    (hrun : (Step.bind (.element n i)).run m (.many xs) σ = .ok τ) :
    HasBound (done ++ [.bind (.element n i)]) τ n := by
  obtain ⟨entries, hentries, rfl⟩ := Step.run_bind_eq_ok.mp hrun
  simp only [Bind.entries, Option.bind_eq_bind, Option.bind_eq_some_iff] at hentries
  obtain ⟨_, -, _, -, v, -, hv⟩ := hentries
  cases hv
  exact ⟨i, v, List.mem_append_right _ List.mem_cons_self, by simp [Store.declare]⟩

/-- A check keeps what is bound. -/
theorem HasBound.check {n : String} {c : Cond} (h : HasBound done σ n)
    (hrun : (Step.check c).run m (.many xs) σ = .ok τ) : HasBound (done ++ [.check c]) τ n := by
  obtain ⟨-, rfl⟩ := Step.run_check_eq_ok.mp hrun
  obtain ⟨i, v, hmem, hv⟩ := h
  exact ⟨i, v, List.mem_append_left _ hmem, hv⟩

namespace Step

/-- Where there is more than the index, the index is in range. -/
theorem lt_of_run_lengthOver (hi : i.value σ = some k)
    (hrun : (Step.check (.lengthOver i)).run m (.many xs) σ = .ok τ) : k < xs.length := by
  have hholds := (run_check_eq_ok.mp hrun).1
  simpa [Cond.holds, hi] using hholds

theorem allInRange_fieldBinds {n : String} (h : HasBound done σ n) (sh : Shape) :
    AllInRange m xs done σ ((fieldBinds (.name n) sh).map .bind) := by
  cases sh with
  | tag name fields =>
    cases hf : fieldsText? fields with
    | none => simp [fieldBinds, hf, AllInRange]
    | some text => simpa [fieldBinds, hf, AllInRange, InRange] using h
  | text | format | empty => trivial

/-- The element at the cursor is there, and is bound before it is looked at. -/
theorem allInRange_elementSteps (p : Nat) (sh : Shape) (check : Bool)
    (h : i.Ready m xs done σ scans k) (hk : k < xs.length) :
    AllInRange m xs done σ (elementSteps p sh i check) := by
  refine ⟨⟨h.grounded, k, h.value, hk⟩, fun τ hτ => ?_⟩
  have hbound : HasBound (done ++ [.bind (.element (placeholder p) i)]) τ (placeholder p) :=
    .of_run hτ
  cases check with
  | false => exact allInRange_fieldBinds hbound sh
  | true => exact ⟨hbound, fun ρ hρ => allInRange_fieldBinds (hbound.check hρ) sh⟩

/-- Behind a length check that succeeds the cursor stands at an element. -/
theorem allInRange_lengthOver (h : i.Ready m xs done σ scans k)
    (hrest : ∀ done τ, i.Ready m xs done τ scans k → k < xs.length → AllInRange m xs done τ ss) :
    AllInRange m xs done σ (.check (.lengthOver i) :: ss) := by
  refine ⟨h.grounded, fun τ hτ => ?_⟩
  exact hrest _ τ (h.run hτ (by simp [searches])) (lt_of_run_lengthOver h.value hτ)

/-- A binder takes the element that its check has asked for. -/
theorem allInRange_binder {n : String} (h : i.Ready m xs done σ scans k)
    (hrest : ∀ done τ, i.next.Ready m xs done τ scans (k + 1) → AllInRange m xs done τ ss) :
    AllInRange m xs done σ (.check (.lengthOver i) :: .bind (.element n i) :: ss) := by
  refine allInRange_lengthOver h fun done τ hτ hk => ⟨⟨hτ.grounded, k, hτ.value, hk⟩, ?_⟩
  exact fun ρ hρ => hrest _ ρ ((hτ.run hρ (by simp [searches])).next hk)

/-- By induction on the parts, with the index ready for the next one. -/
theorem allInRange_planFrom {p : Nat} {parts : List Part} (h : i.Ready m xs done σ scans k) :
    AllInRange m xs done σ (planFrom p scans i parts) := by
  fun_induction planFrom p scans i parts generalizing done σ k with
  | case1 => trivial
  | case2 p scans i n =>
    exact ⟨⟨h.grounded, by simp, k, xs.length, h.value, rfl, h.le_length, le_rfl⟩,
      fun _ _ => trivial⟩
  | case3 p scans i => exact ⟨h.grounded, fun _ _ => trivial⟩
  | case4 p scans i n s ps hg found =>
    rename_i ih
    refine ⟨⟨h.grounded, k, h.value, h.le_length⟩, fun τ hτ => ?_⟩
    -- the old cursor and the element found are the two ends of the slice
    obtain ⟨l, hkl, hl, hfound⟩ := h.scan hτ
    have hcursor := h.run hτ (by simp [searches])
    refine ⟨⟨hcursor.grounded, ?_, k, l, hcursor.value, hfound.value, hkl, hl.le⟩, fun ρ hρ => ?_⟩
    · rintro _ ⟨⟩
      exact hfound.grounded
    · have hfound := hfound.run hρ (by simp [searches])
      refine allInRange_append.mpr ⟨allInRange_elementSteps _ _ _ hfound hl, fun υ hυ => ?_⟩
      exact ih ((hfound.runAll hυ (by simp)).next hl)
  | case5 p scans i n s ps hg ih => exact allInRange_binder h fun _ _ hτ => ih hτ
  | case6 p scans i n n' ps ih => exact allInRange_binder h fun _ _ hτ => ih hτ
  | case7 p scans i s ps hne ih =>
    refine allInRange_lengthOver h fun done τ hτ hk => ?_
    refine allInRange_append.mpr ⟨allInRange_elementSteps _ _ _ hτ hk, fun ρ hρ => ?_⟩
    exact ih ((hτ.runAll hρ (by simp)).next hk)

/-- The numbers of the searches go up from the first that is free. -/
theorem searches_planFrom (p scans : Nat) (i : Index) (parts : List Part) :
    ∃ n, searches (planFrom p scans i parts) = List.range' scans n := by
  fun_induction planFrom p scans i parts with
  | case1 | case2 | case3 => exact ⟨0, rfl⟩
  | case4 p scans i n s ps hg found ih =>
    obtain ⟨n, hn⟩ := ih
    refine ⟨n + 1, ?_⟩
    change scans :: searches (elementSteps (p + 1) s found false ++ _) = _
    rw [searches_append, searches_elementSteps, List.nil_append, hn, List.range'_succ]
  | case5 p scans i n s ps hg ih => exact ih
  | case6 p scans i n n' ps ih => exact ih
  | case7 p scans i s ps hne ih =>
    obtain ⟨n, hn⟩ := ih
    refine ⟨n, ?_⟩
    change searches (elementSteps p s i true ++ _) = _
    rw [searches_append, searches_elementSteps, List.nil_append, hn]

/-- The searches of a plan are numbered in their order. -/
theorem searches_of_prefix {parts : List Part} (h : done <+: plan parts) :
    searches done = List.range (searches done).length := by
  obtain ⟨n, hn⟩ := searches_planFrom 0 0 {} parts
  have hprefix : searches done <+: List.range n := by
    rw [List.range_eq_range', ← hn]
    exact h.filterMap _
  rw [List.prefix_iff_eq_take.mp hprefix, List.take_range]
  simp

end Step

end

/-! ## One group a part -/

/-- The steps that are there for these parts of a pattern, given by their positions: for one that
takes one element or all that remain, for `[]` at the end, or for a gap and the part behind it. -/
inductive Handles (parts : List Part) : List Nat → List Step → Prop
  | rest {p n i} : parts[p]? = some (.binder n) → p + 1 = parts.length →
    Handles parts [p] [.bind (.slice n i none)]
  | stop {p i} : parts[p]? = some (.shape .empty) → p + 1 = parts.length →
    Handles parts [p] [.check (.lengthIs i)]
  | binder {p n i} : parts[p]? = some (.binder n) → p + 1 < parts.length →
    isGapAt 0 parts p = false →
    Handles parts [p] [.check (.lengthOver i), .bind (.element n i)]
  | shape {p s i} : parts[p]? = some (.shape s) → (s = .empty → p + 1 < parts.length) →
    Handles parts [p] (.check (.lengthOver i) :: .bind (.element (placeholder p) i)
      :: .check (.passes (.name (placeholder p)) (testOf s))
      :: (fieldBinds (.name (placeholder p)) s).map .bind)
  | gap {p n s id i} : parts[p]? = some (.binder n) → parts[p + 1]? = some (.shape s) →
    isGapAt 0 parts p = true →
    Handles parts [p, p + 1] (.scan id i (testOf s) :: .bind (.slice n i (some { base := some id }))
      :: .bind (.element (placeholder (p + 1)) { base := some id })
      :: (fieldBinds (.name (placeholder (p + 1))) s).map .bind)

/-- The steps fall into groups for so many parts from position `p` on, in order and each part
once. -/
def Grouped (parts : List Part) (p count : Nat) (steps : List Step) : Prop :=
  ∃ groups : List (List Nat × List Step),
    (groups.map Prod.snd).flatten = steps ∧
    (groups.map Prod.fst).flatten = List.range' p count ∧
    ∀ g ∈ groups, Handles parts g.1 g.2

theorem Grouped.nil (parts : List Part) (p : Nat) : Grouped parts p 0 [] := ⟨[], by simp⟩

theorem Grouped.cons {parts : List Part} {p count : Nat} {positions : List Nat}
    {group ss : List Step} (h : Handles parts positions group)
    (hpositions : positions = List.range' p positions.length)
    (hss : Grouped parts (p + positions.length) count ss) :
    Grouped parts p (count + positions.length) (group ++ ss) := by
  obtain ⟨groups, rfl, hrest, hgroups⟩ := hss
  refine ⟨(positions, group) :: groups, rfl, ?_, List.forall_mem_cons.mpr ⟨h, hgroups⟩⟩
  rw [List.map_cons, List.flatten_cons, hrest, Nat.add_comm count, ← List.range'_append_1,
    ← hpositions]

theorem isGapAt_zero {all parts : List Part} {p : Nat} (h : all.drop p = parts) :
    isGapAt 0 all p = startsGap p parts := by
  rw [isGapAt, h, Nat.zero_add]

/-- Each part, or gap, has its group of steps. -/
theorem grouped_planFrom {all parts : List Part} {p : Nat} (scans : Nat) (i : Index)
    (h : all.drop p = parts) : Grouped all p parts.length (planFrom p scans i parts) := by
  fun_induction planFrom p scans i parts with
  | case1 p => exact .nil all p
  | case2 =>
    obtain ⟨hlt, hp, hend⟩ := getElem?_of_drop h
    have hlast := Nat.le_antisymm hlt (List.drop_eq_nil_iff.mp hend)
    exact .cons (.rest hp hlast) rfl (.nil all _)
  | case3 =>
    obtain ⟨hlt, hp, hend⟩ := getElem?_of_drop h
    have hlast := Nat.le_antisymm hlt (List.drop_eq_nil_iff.mp hend)
    exact .cons (.stop hp hlast) rfl (.nil all _)
  | case4 p scans i n s ps hg found ih =>
    obtain ⟨-, hp, hnext⟩ := getElem?_of_drop h
    obtain ⟨-, hp', hrest⟩ := getElem?_of_drop hnext
    exact .cons (.gap hp hp' ((isGapAt_zero h).trans hg)) rfl (ih hrest)
  | case5 p scans i n s ps hg ih =>
    obtain ⟨-, hp, hnext⟩ := getElem?_of_drop h
    have hgap : startsGap p (.binder n :: .shape s :: ps) = false := by simpa [startsGap] using hg
    exact .cons (.binder hp (getElem?_of_drop hnext).1 ((isGapAt_zero h).trans hgap)) rfl (ih hnext)
  | case6 p scans i n n' ps ih =>
    obtain ⟨-, hp, hnext⟩ := getElem?_of_drop h
    have hgap : startsGap p (.binder n :: .binder n' :: ps) = false := by
      simp [startsGap, searchable]
    exact .cons (.binder hp (getElem?_of_drop hnext).1 ((isGapAt_zero h).trans hgap)) rfl (ih hnext)
  | case7 p scans i s ps hne ih =>
    obtain ⟨-, hp, hnext⟩ := getElem?_of_drop h
    refine .cons (.shape hp fun hs => ?_) rfl (ih hnext)
    obtain ⟨next, ps, rfl⟩ := List.exists_cons_of_ne_nil fun hps => hne hps hs
    exact (getElem?_of_drop hnext).1

/-- **A plan never reads past its subject.** The step that a run has come to reads only elements
that are there, counts only from searches that have found theirs and looks only at names that are
bound; the searches are numbered in order; and every part of the pattern has one group of steps. -/
theorem plan_inRange (m : Values V) (parts : List Part) (xs : List V) :
    (∀ done s rest σ, plan parts = done ++ s :: rest →
      Step.runAll m (.many xs) [] done = .ok σ → s.InRange m xs done σ) ∧
    (∀ done, done <+: plan parts →
      Step.searches done = List.range (Step.searches done).length) ∧
    Grouped parts 0 parts.length (plan parts) := by
  refine ⟨fun done s rest σ hplan hrun => ?_, fun _ => Step.searches_of_prefix,
    grouped_planFrom 0 {} rfl⟩
  have hready : Index.Ready m xs [] [] 0 {} 0 := ⟨⟨rfl, nofun⟩, nofun, Nat.zero_le _⟩
  have hall : Step.AllInRange m xs [] [] (plan parts) := Step.allInRange_planFrom hready
  rw [hplan] at hall
  exact hall.inRange hrun

/-- Behind a gap: `x` stands next to the 2 that the search has found, at the last position. -/
theorem plan_inRange_behind_gap :
    let m : Values Nat :=
      ⟨fun t v => [(.tag "A", 1), (.tag "B", 2)].contains (t, v), fun _ => []⟩
    let parts : List Part := [.shape (.tag "A" ""), .binder "middle", .shape (.tag "B" ""),
      .binder "x", .binder "tail"]
    let σ : Store Nat := [(.name "_2", .one 2), (.name "middle", .many [5, 6]),
      (.found 0, .position 3), (.name "_0", .one 1)]
    hasGap parts = true ∧
      Step.runAll m (.many [1, 5, 6, 2, 7]) [] ((plan parts).take 7) = .ok σ ∧
      Step.InRange m [1, 5, 6, 2, 7] ((plan parts).take 7) σ
        (.bind (.element "x" { base := some 0, offset := 1 })) := by
  intro m parts σ
  have hrun : Step.runAll m (.many [1, 5, 6, 2, 7]) [] ((plan parts).take 7) = .ok σ := by rfl
  exact ⟨rfl, hrun, (plan_inRange m parts _).1 _ _ ((plan parts).drop 8) σ rfl hrun⟩

end Derw.Script
