import Derw.Proofs.Match.Arrival
import Derw.Proofs.Match.Gapless

/-!
# Proofs/Match/Agreement — a pattern without gaps as statements and as a plan

The statements of a pattern without gaps are nested steps too (`fixedNest_eq`), so they arrive where
these steps do. The steps differ from those of the plan in their order only: all elements are
declared before the first test, and all fields after the last one. A test that reads a name sees the
difference if the name is a field of an earlier part, or an element of a later one. If no test does
(`TestsApart`), then every test sees, in both runs, what it would see where all elements are
declared (`Step.ReadsAs`), and tests that see the same are tests of values alone. For these the two
agree (`matchAlike_gapless`).

A template that reads a field of an earlier part is refused or read outside by the statements:
`start_gapless_field`.
-/

namespace Derw.Script

variable {V : Type}

/-! ## Tests that see the same -/

/-- What values mean where every template is read in the same scope. One that cannot be read is
equal to nothing. -/
def Meaning.frozen (M : Meaning V) (ρ : Env V) : Values V where
  passes t v := (t.settle M ρ).any fun t => M.passes t v
  fields := M.fields

section

variable {M : Meaning V} {outer ρ : Env V} {xs : List V} {σ τ : Store V} {ss : List Step}

/-- A template that is read in `ρ` is compared as the text it stands for there. -/
theorem Held.test_frozen (h : Held V) (t : Test) :
    h.test (M.frozen ρ) t = some true ↔
      ∃ u, t.settle M ρ = some u ∧ h.test M.toValues u = some true := by
  cases h with
  | one v => simp [Held.test, Meaning.frozen, Option.any_eq_true]
  | many vs => cases t <;> simp [Held.test, Test.settle]
  | position => simp [Held.test]

theorem Cond.holds_frozen (c : Cond) :
    c.holds (M.frozen ρ) (.many xs) σ = some true ↔
      ∃ d, c.settle M ρ = some d ∧ d.holds M.toValues (.many xs) σ = some true := by
  cases c with
  | lengthAtLeast | lengthOver | lengthIs => simp [settle, holds]
  | passes place t =>
    cases hp : place.value (.many xs) σ with
    | none => simp [settle, holds, hp]
    | some h => simp [settle, holds, hp, Held.test_frozen]

namespace Step

/-- A step whose test sees what it would see in `ρ`. -/
theorem runIn_eq_ok_iff {s : Step} (h : s.settle M (σ.env outer) = s.settle M ρ) :
    s.runIn M outer (.many xs) σ = .ok τ ↔ s.run (M.frozen ρ) (.many xs) σ = .ok τ := by
  rw [runIn, h]
  cases s with
  | check c =>
    rw [run_check_eq_ok, Cond.holds_frozen, settle]
    cases c.settle M ρ with
    | none => simp
    | some d => simp [run_check_eq_ok]
  | bind b => rfl
  | scan id start t =>
    rw [run_scan_eq_ok, settle]
    have hpasses : (M.frozen ρ).passes t = fun v => (t.settle M ρ).any fun u => M.passes u v := rfl
    cases ht : t.settle M ρ with
    | none =>
      have hnone : ∀ ys : List V, ys.findIdx? (fun _ => false) = none := fun ys =>
        List.findIdx?_eq_none_iff.mpr fun _ _ => rfl
      simp [hpasses, ht, hnone]
    | some u => simp [hpasses, ht, run_scan_eq_ok]

variable (M outer ρ xs) in
/-- Every test sees what it would see in `ρ`, all along a run of these steps. -/
def ReadsAs (σ : Store V) : List Step → Prop
  | [] => True
  | s :: ss => s.settle M (σ.env outer) = s.settle M ρ ∧
    ∀ τ, s.run (M.frozen ρ) (.many xs) σ = .ok τ → ReadsAs τ ss

/-- Tests that see the same decide the same, so the run is one of values alone. -/
theorem runAllIn_eq_ok_iff (h : ReadsAs M outer ρ xs σ ss) :
    runAllIn M outer (.many xs) σ ss = .ok τ ↔ runAll (M.frozen ρ) (.many xs) σ ss = .ok τ := by
  induction ss generalizing σ with
  | nil => rfl
  | cons s ss ih =>
    obtain ⟨hs, hss⟩ := h
    have hcons : runAllIn M outer (.many xs) σ (s :: ss) = .ok τ ↔
        ∃ υ, s.runIn M outer (.many xs) σ = .ok υ ∧ runAllIn M outer (.many xs) υ ss = .ok τ := by
      rw [runAllIn]
      cases s.runIn M outer (.many xs) σ <;> simp [Except.bind]
    rw [hcons, runAll_cons_eq_ok]
    refine exists_congr fun υ => ?_
    rw [runIn_eq_ok_iff hs]
    exact and_congr_right fun hυ => ih (hss υ hυ)

/-! ### Runs whose tests see the same -/

/-- A check of the length reads no names. -/
theorem readsAs_lengthCheck {c : Cond} (hc : ∀ ρ : Env V, c.settle M ρ = some c)
    (h : ReadsAs M outer ρ xs σ ss) : ReadsAs M outer ρ xs σ (.check c :: ss) := by
  refine ⟨by rw [settle, settle, hc, hc], fun τ hτ => ?_⟩
  obtain ⟨-, rfl⟩ := run_check_eq_ok.mp hτ
  exact h

/-- A declaration, whatever it declares. -/
theorem readsAs_bind {b : Bind}
    (h : ∀ entries, b.entries (M.frozen ρ) (.many xs) σ = some entries →
      ReadsAs M outer ρ xs (σ.declare entries) ss) :
    ReadsAs M outer ρ xs σ (.bind b :: ss) := by
  refine ⟨rfl, fun τ hτ => ?_⟩
  obtain ⟨entries, hentries, rfl⟩ := run_bind_eq_ok.mp hτ
  exact h entries hentries

/-- A test that sees the same, and then the others. -/
theorem readsAs_check {place : Place} {t : Test}
    (ht : t.settle M (σ.env outer) = t.settle M ρ) (h : ReadsAs M outer ρ xs σ ss) :
    ReadsAs M outer ρ xs σ (.check (.passes place t) :: ss) := by
  refine ⟨congrArg (fun t : Option Test => (t.map (Cond.passes place)).map check) ht,
    fun τ hτ => ?_⟩
  obtain ⟨-, rfl⟩ := run_check_eq_ok.mp hτ
  exact h

/-- Declarations make no tests. -/
theorem readsAs_binds (bs : List Bind) : ReadsAs M outer ρ xs σ (bs.map .bind) := by
  induction bs generalizing σ with
  | nil => trivial
  | cons b bs ih => exact readsAs_bind fun _ _ => ih

/-- Checks where the scope is `ρ`. -/
theorem readsAs_checks (hσ : σ.env outer = ρ) (cs : List Cond) (h : ReadsAs M outer ρ xs σ ss) :
    ReadsAs M outer ρ xs σ (cs.map .check ++ ss) := by
  induction cs with
  | nil => exact h
  | cons c cs ih =>
    refine ⟨by rw [hσ], fun τ hτ => ?_⟩
    obtain ⟨-, rfl⟩ := run_check_eq_ok.mp hτ
    exact ih

end Step

end

/-! ## The statements as steps -/

/-- The match of parts that take one element each, step by step. -/
def fixedSteps (fixed : List Part) (length : Cond) (rest : Option String) : List Step :=
  .check length ::
    ((if (fixed.mapIdx elementName).isEmpty && rest.isNone then []
      else [.bind (.elements (fixed.mapIdx elementName) rest)])
    ++ ((fixed.mapIdx elementChecks).flatten.map .check
      ++ (fixed.mapIdx elementFields).flatten.map .bind))

/-- Declarations behind the guard. -/
theorem Nest.ofSteps_binds (cs : List Cond) (bs : List Bind) :
    Nest.ofSteps cs (bs.map .bind) = .guarded cs (.binds bs .body) := by
  induction bs generalizing cs with
  | nil => rfl
  | cons b bs ih => exact congrArg (fun n => Nest.guarded cs (.bind b n)) (ih [])

/-- Checks join the guard. -/
theorem Nest.ofSteps_checks (pending cs : List Cond) (ss : List Step) :
    Nest.ofSteps pending (cs.map .check ++ ss) = Nest.ofSteps (pending ++ cs) ss := by
  induction cs generalizing pending with
  | nil => rw [List.append_nil]; rfl
  | cons c cs ih =>
    rw [List.append_cons, ← ih]
    rfl

theorem fixedNest_eq (fixed : List Part) (length : Cond) (rest : Option String) :
    fixedNest fixed length rest = .ofSteps [] (fixedSteps fixed length rest) := by
  rw [fixedNest, fixedSteps]
  by_cases hempty : ((fixed.mapIdx elementName).isEmpty && rest.isNone) = true
  · obtain rfl : fixed = [] := by
      obtain ⟨hnames, -⟩ := Bool.and_eq_true_iff.mp hempty
      simpa using hnames
    rw [if_pos hempty, if_pos hempty]
    rfl
  · rw [if_neg hempty, if_neg hempty]
    have hinner := Nest.ofSteps_checks [] (fixed.mapIdx elementChecks).flatten
      ((fixed.mapIdx elementFields).flatten.map .bind)
    rw [Nest.ofSteps_binds, List.nil_append] at hinner
    rw [← hinner]
    rfl

section

variable {M : Meaning V} {s : String} {fixed : List Part} {length : Cond} {rest : Option String}

theorem names_elementFields (m : Values V) (p : Nat) (part : Part) :
    (elementFields p part).flatMap (Bind.names m.fieldNames) = partFieldNames m part := by
  cases part with
  | binder n => rfl
  | shape s =>
    cases s with
    | tag name written =>
      cases hf : fieldsText? written <;>
        simp [elementFields, fieldBinds, partFieldNames, Bind.names, hf]
    | text | format | empty => rfl

theorem names_allFields (m : Values V) (p : Nat) (fixed : List Part) :
    (fixed.mapIdx fun i => elementFields (p + i)).flatten.flatMap (Bind.names m.fieldNames)
      = fixed.flatMap (partFieldNames m) := by
  induction fixed generalizing p with
  | nil => rfl
  | cons part ps ih =>
    rw [mapIdx_cons_add elementFields, List.flatten_cons, List.flatMap_append, ih,
      names_elementFields, List.flatMap_cons]

/-- The names of the steps: the elements with the rest, and then the fields. -/
theorem Step.names_fixedSteps (m : Values V) :
    Step.names m.fieldNames (fixedSteps fixed length rest)
      = fixed.mapIdx elementName ++ rest.toList ++ fixed.flatMap (partFieldNames m) := by
  have hfields := names_allFields m 0 fixed
  simp only [Nat.zero_add] at hfields
  have hchecks : ∀ cs : List Cond, Step.names m.fieldNames (cs.map .check) = [] := by
    simp [Step.names, List.flatMap_map]
  have hbinds : ∀ bs : List Bind,
      Step.names m.fieldNames (bs.map .bind) = bs.flatMap (Bind.names m.fieldNames) := by
    simp [Step.names, List.flatMap_map]
  have hsplit : ∀ ss ts : List Step, Step.names m.fieldNames (ss ++ ts)
      = Step.names m.fieldNames ss ++ Step.names m.fieldNames ts := fun _ _ => List.flatMap_append
  have helements : Step.names m.fieldNames
      (if (fixed.mapIdx elementName).isEmpty && rest.isNone then []
        else [.bind (.elements (fixed.mapIdx elementName) rest)])
      = fixed.mapIdx elementName ++ rest.toList := by
    split
    next hempty =>
      obtain ⟨hnames, hrest⟩ := Bool.and_eq_true_iff.mp hempty
      rw [List.isEmpty_iff.mp hnames, Option.isNone_iff_eq_none.mp hrest]
      rfl
    next => exact List.append_nil _
  rw [fixedSteps, ← List.singleton_append, hsplit, hsplit, hsplit, helements, hchecks, hbinds,
    hfields]
  rfl

theorem Step.scoped_binds {bound : List Var} {bs : List Bind}
    (h : ∀ b ∈ bs, b.reads ⊆ bound ∧ b.declares = []) : Step.Scoped bound (bs.map .bind) := by
  induction bs with
  | nil => trivial
  | cons b bs ih =>
    obtain ⟨⟨hreads, hdeclares⟩, hbs⟩ := List.forall_mem_cons.mp h
    exact ⟨hreads, hdeclares ▸ ih hbs⟩

/-- Tests and fields read elements only, which the destructuring declares. -/
theorem Step.scoped_fixedSteps (hlength : length.reads = []) :
    Step.Scoped [] (fixedSteps fixed length rest) := by
  have hinner : ∀ bound : List Var,
      (∀ i s, fixed[i]? = some (.shape s) → .name (placeholder i) ∈ bound) →
      Step.Scoped bound ((fixed.mapIdx elementChecks).flatten.map .check
        ++ (fixed.mapIdx elementFields).flatten.map .bind) := by
    refine fun bound hbound => Step.scoped_checks.mpr
      ⟨fun c hc => ?_, Step.scoped_binds fun b hb => ?_⟩
    · obtain ⟨i, s, hs, hc⟩ := exists_shape_of_mem (fun _ _ => rfl) hc
      obtain rfl := List.mem_singleton.mp hc
      exact List.cons_subset.mpr ⟨hbound i s hs, List.nil_subset _⟩
    · obtain ⟨i, s, hs, hb⟩ := exists_shape_of_mem (fun _ _ => rfl) hb
      obtain ⟨text, rfl⟩ := exists_fields_of_mem hb
      exact ⟨List.cons_subset.mpr ⟨hbound i s hs, List.nil_subset _⟩, rfl⟩
  refine ⟨by simp [hlength], ?_⟩
  split
  next hempty =>
    obtain ⟨hnames, -⟩ := Bool.and_eq_true_iff.mp hempty
    obtain rfl : fixed = [] := by simpa using hnames
    trivial
  next =>
    refine ⟨List.nil_subset _, hinner _ fun i s hs => ?_⟩
    obtain ⟨hi, hpart⟩ := List.getElem?_eq_some_iff.mp hs
    refine List.mem_append_left _ (List.mem_map_of_mem (List.mem_append_left _ ?_))
    exact List.mem_mapIdx.mpr ⟨i, hi, by rw [hpart]; rfl⟩

/-- No part is searched for. -/
theorem Step.searches_fixedSteps : Step.searches (fixedSteps fixed length rest) = [] := by
  refine List.filterMap_eq_nil_iff.mpr fun t ht => ?_
  cases t with
  | check | bind => rfl
  | scan id start test =>
    rw [fixedSteps] at ht
    split at ht <;> simp at ht

theorem Step.counters_fixedSteps : Step.counters (fixedSteps fixed length rest) = [] := by
  rw [Step.counters, Step.searches_fixedSteps, List.flatMap_nil]

/-- Under distinct names the steps are distinct, with no counters among them. -/
theorem Step.distinct_fixedSteps
    (h : (s :: (fixed.mapIdx elementName ++ rest.toList
      ++ fixed.flatMap (partFieldNames M.toValues))).Nodup) :
    Step.Distinct M s (fixedSteps fixed length rest) where
  names := Step.names_fixedSteps M.toValues ▸ h
  loops := by simp [Step.searches_fixedSteps]
  tests t _ ρ τ hρ := by
    rw [Step.counters_fixedSteps] at hρ
    rw [funext fun n => hρ n List.not_mem_nil]

end

/-! ## The tests of a pattern -/

/-- What a part asks of its element. -/
def partTests : Part → List Test
  | .binder _ => []
  | .shape s => [testOf s]

/-- The tests of these parts read neither the names `fields`, nor the fields of a part before, nor
the element of a part behind. -/
def TestsApart (M : Meaning V) (fields : List String) (position : Nat) : List Part → Prop
  | [] => True
  | part :: ps =>
    (∀ t ∈ partTests part,
      t.Avoids M (fields ++ ps.mapIdx fun i => elementName (position + 1 + i))) ∧
    TestsApart M (fields ++ partFieldNames M.toValues part) (position + 1) ps

namespace Step

variable {M : Meaning V} {outer ρ : Env V} {xs : List V} {ss : List Step} {σ : Store V}

/-- Declarations change what their names hold, and nothing else. -/
theorem readsAs_binds_append (bs : List Bind)
    (h : ∀ τ : Store V,
      (∀ n ∉ bs.flatMap (Bind.names M.fieldNames), τ.env outer n = σ.env outer n) →
        ReadsAs M outer ρ xs τ ss) : ReadsAs M outer ρ xs σ (bs.map .bind ++ ss) := by
  induction bs generalizing σ with
  | nil => exact h σ fun _ _ => rfl
  | cons b bs ih =>
    refine readsAs_bind fun entries hentries => ih fun τ hτ => h τ fun n hn => ?_
    rw [List.flatMap_cons, List.mem_append, not_or] at hn
    have hkeys : entries.map (·.1) = b.names M.fieldNames := Bind.map_fst_entries hentries
    rw [hτ n hn.2, Store.env_declare, Env.declare_of_not_mem (hkeys ▸ hn.1)]

/-- The element of a part is bound: its name holds now what it holds in `ρ`. -/
theorem readsAs_element {p : Nat} (part : Part) {ps : List Part} {fields : List String}
    {i : Index} (hi : i = { offset := p })
    (hσ : ∀ n ∉ fields ++ (part :: ps).mapIdx fun i => elementName (p + i), σ.env outer n = ρ n)
    (hρ : ∀ v, xs[p]? = some v → ρ (elementName p part) = some (.one v))
    (h : ∀ τ : Store V,
      (∀ n ∉ fields ++ ps.mapIdx fun i => elementName (p + 1 + i), τ.env outer n = ρ n) →
        ReadsAs M outer ρ xs τ ss) :
    ReadsAs M outer ρ xs σ
      (.check (.lengthOver i) :: .bind (.element (elementName p part) i) :: ss) := by
  subst hi
  refine readsAs_lengthCheck (fun _ => rfl) ?_
  refine readsAs_bind fun entries hentries => h _ fun n hn => ?_
  simp only [Bind.entries, Held.elements?_many, Index.value, Option.bind_eq_bind, Option.bind_some,
    Option.bind_eq_some_iff] at hentries
  obtain ⟨v, hv, hentries⟩ := hentries
  obtain rfl := Option.some.inj hentries
  rw [Store.env_declare]
  by_cases hname : n = elementName p part
  · rw [hname, Env.declare_self, hρ v (by simpa using hv)]
  · rw [Env.declare_of_ne hname]
    refine hσ n ?_
    rw [mapIdx_cons_add elementName, List.perm_middle.mem_iff, List.mem_cons, not_or]
    exact ⟨hname, hn⟩

end Step

/-- The elements that parts take one by one are in scope, as far as there are any. -/
def Takes (ρ : Env V) (xs : List V) (position : Nat) : List Part → Prop
  | [] => True
  | part :: ps =>
    (isEnd (part :: ps) = false → ∀ v, xs[position]? = some v →
      ρ (elementName position part) = some (.one v)) ∧ Takes ρ xs (position + 1) ps

namespace Step

variable {M : Meaning V} {outer ρ : Env V} {xs : List V}

/-- The tests of a plan, where `ρ` has all elements but no fields. -/
theorem readsAs_planFrom {p scans : Nat} {i : Index} {parts : List Part} {fields : List String}
    {σ : Store V} (hi : i = { offset := p }) (hgap : hasGapFrom p parts = false)
    (htests : TestsApart M fields p parts) (hρ : Takes ρ xs p parts)
    (hσ : ∀ n ∉ fields ++ parts.mapIdx fun i => elementName (p + i), σ.env outer n = ρ n) :
    ReadsAs M outer ρ xs σ (planFrom p scans i parts) := by
  fun_induction planFrom p scans i parts generalizing σ fields with
  | case1 => trivial
  | case2 => exact readsAs_bind fun _ _ => trivial
  | case3 => exact readsAs_lengthCheck (fun _ => rfl) trivial
  | case4 p scans i n s ps hg found =>
    rw [hasGapFrom, hg] at hgap
    cases hgap
  | case5 p scans i n s ps hg ih =>
    rw [hasGapFrom, Bool.or_eq_false_iff] at hgap
    refine readsAs_element (.binder n) hi hσ (hρ.1 rfl) fun τ hτ => ?_
    exact ih (by rw [hi]; rfl) hgap.2 htests.2 hρ.2 (by simpa [partFieldNames] using hτ)
  | case6 p scans i n n' ps ih =>
    rw [hasGapFrom, Bool.or_eq_false_iff] at hgap
    refine readsAs_element (.binder n) hi hσ (hρ.1 rfl) fun τ hτ => ?_
    exact ih (by rw [hi]; rfl) hgap.2 htests.2 hρ.2 (by simpa [partFieldNames] using hτ)
  | case7 p scans i s ps hne ih =>
    have hgap : hasGapFrom (p + 1) ps = false := by cases ps <;> exact hgap
    have hsteps : .check (.lengthOver i) :: elementSteps p s i true
          ++ planFrom (p + 1) scans i.next ps
        = .check (.lengthOver i) :: .bind (.element (placeholder p) i)
          :: .check (.passes (.name (placeholder p)) (testOf s))
          :: ((elementFields p (.shape s)).map .bind ++ planFrom (p + 1) scans i.next ps) := rfl
    rw [hsteps]
    refine readsAs_element (.shape s) hi hσ (hρ.1 (isEnd_shape hne)) fun τ hτ => ?_
    refine readsAs_check (htests.1 _ (List.mem_singleton_self _) _ _ hτ) ?_
    refine readsAs_binds_append _ fun υ hυ => ih (by rw [hi]; rfl) hgap htests.2 hρ.2 fun n hn => ?_
    rw [names_elementFields] at hυ
    simp only [List.mem_append, not_or] at hn
    rw [hυ n hn.1.2, hτ n (by simp [hn.1.1, hn.2])]

end Step

/-! ## Agreement -/

@[simp] theorem Store.env_nil (outer : Env V) : Store.env [] outer = outer := rfl

section

variable {M : Meaning V} {s : String} {outer ρ : Env V} {xs : List V} {fixed tail : List Part}
  {length : Cond} {rest : Option String}

/-- After the destructuring the tests of the statements see all elements. -/
theorem readsAs_fixedSteps (hlength : ∀ ρ : Env V, length.settle M ρ = some length) :
    Step.ReadsAs M outer
      (outer.declare (elementsHeld 0 fixed xs ++ restHeld fixed.length xs rest)) xs []
      (fixedSteps fixed length rest) := by
  refine Step.readsAs_lengthCheck hlength ?_
  split
  next hempty =>
    obtain ⟨hnames, -⟩ := Bool.and_eq_true_iff.mp hempty
    obtain rfl : fixed = [] := by simpa using hnames
    trivial
  next =>
    rw [List.singleton_append]
    refine Step.readsAs_bind fun entries hentries => ?_
    simp only [Bind.entries, Held.elements?_many, Option.bind_eq_bind, Option.bind_some] at hentries
    split at hentries
    next =>
      have hzip := zip_elementName 0 fixed xs
      simp only [Nat.zero_add] at hzip
      obtain rfl := Option.some.inj hentries
      rw [hzip, List.length_mapIdx]
      exact Step.readsAs_checks (Store.env_declare [] _ outer) _ (Step.readsAs_binds _)
    next => cases hentries

/-- Each element that is there has its part's name. -/
theorem sublist_elementName (p : Nat) (fixed : List Part) (vs : List V) :
    ((elementsHeld p fixed vs).map Prod.fst).Sublist
      (fixed.mapIdx fun i => elementName (p + i)) := by
  induction fixed generalizing p vs with
  | nil => exact .slnil
  | cons part ps ih =>
    cases vs with
    | nil => exact List.nil_sublist _
    | cons v vs =>
      rw [mapIdx_cons_add elementName]
      exact (ih (p + 1) vs).cons_cons _

/-- The elements of the parts in front are taken; so are those behind. -/
theorem takes_append {p : Nat} (hρ : ∀ e ∈ elementsHeld p fixed (xs.drop p), ρ e.1 = some e.2)
    (htail : Takes ρ xs (p + fixed.length) tail) : Takes ρ xs p (fixed ++ tail) := by
  induction fixed generalizing p with
  | nil => exact htail
  | cons part ps ih =>
    rw [List.length_cons, Nat.add_comm ps.length, ← Nat.add_assoc] at htail
    cases hx : xs.drop p with
    | nil =>
      have hlen : xs.length ≤ p := List.drop_eq_nil_iff.mp hx
      refine ⟨fun _ v hv => ?_, ih (fun e he => ?_) htail⟩
      · rw [List.getElem?_eq_none hlen] at hv
        cases hv
      · rw [List.drop_eq_nil_of_le (Nat.le_succ_of_le hlen)] at he
        cases ps <;> cases he
    | cons v vs =>
      obtain ⟨-, hv, hrest⟩ := getElem?_of_drop hx
      rw [hx, elementsHeld, List.forall_mem_cons] at hρ
      refine ⟨fun _ w hw => ?_, ih (hrest ▸ hρ.2) htail⟩
      obtain rfl := Option.some.inj (hv.symm.trans hw)
      exact hρ.1

/-- The plan declares the same names in another order. -/
theorem perm_partNames (m : Values V) (p : Nat) (fixed : List Part) :
    ((fixed.mapIdx fun i => partNames m (p + i)).flatten).Perm
      ((fixed.mapIdx fun i => elementName (p + i)) ++ fixed.flatMap (partFieldNames m)) := by
  induction fixed generalizing p with
  | nil => exact .refl _
  | cons part ps ih =>
    rw [mapIdx_cons_add (partNames m), mapIdx_cons_add elementName]
    exact .cons _ (((ih (p + 1)).append_left _).trans (List.perm_append_comm_assoc _ _ _))

end

/-- What stands behind the `n` parts that take one element each, with the check of the length and
the name of the rest that it makes. -/
inductive Tail (n : Nat) : List Part → Cond → Option String → Prop
  | rest (r : String) : Tail n [.binder r] (.lengthAtLeast n) (some r)
  | stop : Tail n [.shape .empty] (.lengthIs { offset := n }) none
  | any : Tail n [] (.lengthAtLeast n) none

/-- Every pattern ends with a binder, with `[]`, or with neither. -/
theorem exists_tail (parts : List Part) :
    ∃ fixed tail length rest, parts = fixed ++ tail ∧ gapless parts = fixedNest fixed length rest ∧
      Tail fixed.length tail length rest := by
  rcases ending_cases parts with ⟨fixed, r, rfl⟩ | ⟨fixed, rfl⟩ | hlast
  · exact ⟨fixed, _, _, _, rfl, gapless_rest fixed r, .rest r⟩
  · exact ⟨fixed, _, _, _, rfl, gapless_stop fixed, .stop⟩
  · exact ⟨parts, [], _, _, (List.append_nil _).symm, gapless_open hlast, .any⟩

namespace Tail

variable {M : Meaning V} {ρ : Env V} {xs : List V} {n : Nat} {fixed tail : List Part}
  {length : Cond} {rest : Option String}

/-- The length is checked without reading a variable. -/
theorem reads_length (h : Tail n tail length rest) : length.reads = [] := by cases h <;> rfl

theorem settle_length (h : Tail n tail length rest) (ρ : Env V) :
    length.settle M ρ = some length := by cases h <;> rfl

theorem takes (h : Tail n tail length rest) (p : Nat) : Takes ρ xs p tail := by
  cases h with
  | rest | stop => exact ⟨nofun, trivial⟩
  | any => trivial

/-- What is declared for the tail is among the names of the pattern's parts. -/
theorem sublist_names (h : Tail fixed.length tail length rest) :
    (fixed.mapIdx elementName ++ rest.toList).Sublist ((fixed ++ tail).mapIdx elementName) := by
  rw [List.mapIdx_append]
  refine (List.Sublist.refl _).append ?_
  cases h with
  | rest => exact .refl _
  | stop | any => exact List.nil_sublist _

end Tail

section

variable {M : Meaning V} {s : String} {outer : Env V} {xs : List V} {fixed tail : List Part}
  {length : Cond} {rest : Option String}

/-- The statements arrive where they would if all templates were read after the destructuring. -/
theorem alike_fixedNest (hs : outer s = some (.many xs))
    (htail : Tail fixed.length tail length rest)
    (hnames : (s :: (fixed.mapIdx elementName ++ rest.toList
      ++ fixed.flatMap (partFieldNames M.toValues))).Nodup) :
    Alike (Same outer []) ((fixedNest fixed length rest).code.start M s outer)
      ((fixedNest fixed length rest).code.run
        (M.frozen (outer.declare (elementsHeld 0 fixed xs ++ restHeld fixed.length xs rest)))
        (.many xs) []).arrival := by
  have hscoped : Step.Scoped [] (fixedSteps fixed length rest) :=
    Step.scoped_fixedSteps htail.reads_length
  have halike := alike_start hs hscoped (Step.distinct_fixedSteps hnames)
  rw [Step.counters_fixedSteps, ← fixedNest_eq] at halike
  refine halike.congr fun σ => ?_
  rw [Step.runAllIn_eq_ok_iff (readsAs_fixedSteps htail.settle_length), fixedNest_eq,
    arrival_ofSteps [] hscoped]
  rfl

/-- The destructuring declares elements of the pattern, under their names. -/
theorem Tail.sublist_keys (htail : Tail fixed.length tail length rest) (xs : List V) :
    ((elementsHeld 0 fixed xs ++ restHeld fixed.length xs rest).map Prod.fst).Sublist
      ((fixed ++ tail).mapIdx elementName) := by
  have hfixed := sublist_elementName 0 fixed xs
  simp only [Nat.zero_add] at hfixed
  refine List.Sublist.trans ?_ htail.sublist_names
  rw [List.map_append]
  exact hfixed.append (by cases rest <;> exact .refl _)

/-- The tests of the plan see what they would see after the destructuring, if they read names apart
from those that only one of the two has declared. -/
theorem readsAs_plan (htail : Tail fixed.length tail length rest)
    (hgap : hasGap (fixed ++ tail) = false)
    (hnames : ((fixed ++ tail).mapIdx elementName).Nodup)
    (htests : TestsApart M [] 0 (fixed ++ tail)) :
    Step.ReadsAs M outer
      (outer.declare (elementsHeld 0 fixed xs ++ restHeld fixed.length xs rest)) xs []
      (plan (fixed ++ tail)) := by
  have hkeys := htail.sublist_keys xs
  refine Step.readsAs_planFrom rfl hgap htests (takes_append (fun e he => ?_) (htail.takes _))
    fun n hn => ?_
  · rw [← Store.env_nil outer, ← Store.env_declare, Store.env,
      Store.lookup_declare_nil (hnames.sublist hkeys) (List.mem_append_left _ he), Option.some_or]
  · simp only [Nat.zero_add, List.nil_append] at hn
    exact (Env.declare_of_not_mem fun hmem => hn (hkeys.subset hmem)).symm

end

/-- **The statements of a pattern without gaps do what its plan does**, if its names are distinct
and no test reads a name that only one of the two has declared before it. -/
theorem start_gapless_iff (M : Meaning V) (s : String) (outer : Env V) (parts : List Part)
    (xs : List V) (hs : outer s = some (.many xs)) (hgap : hasGap parts = false)
    (hnames : (s :: patternNames M.toValues parts).Nodup) (htests : TestsApart M [] 0 parts) :
    let code := (gapless parts).code
    let run := Step.runAllIn M outer (.many xs) [] (plan parts)
    ((∃ ρ, code.start M s outer = .entered ρ) ↔ ∃ σ, run = .ok σ) ∧
      ∀ ρ σ, code.start M s outer = .entered ρ → run = .ok σ → ∀ n, ρ n = σ.env outer n := by
  intro code run
  obtain ⟨fixed, tail, length, rest, rfl, hnest, htail⟩ := exists_tail parts
  set ρ := outer.declare (elementsHeld 0 fixed xs ++ restHeld fixed.length xs rest)
  have hperm := perm_partNames M.toValues 0 (fixed ++ tail)
  simp only [Nat.zero_add] at hperm
  have hnodup := (hperm.cons s).nodup_iff.mp hnames
  have hreads : Step.ReadsAs M outer ρ xs [] (plan (fixed ++ tail)) :=
    readsAs_plan htail hgap (List.nodup_append.mp (List.nodup_cons.mp hnodup).2).1 htests
  have halike : Alike (Same outer []) (code.start M s outer)
      ((gapless (fixed ++ tail)).code.run (M.frozen ρ) (.many xs) []).arrival := by
    rw [List.flatMap_append, ← List.append_assoc] at hnodup
    have hsub := htail.sublist_names.append (.refl (fixed.flatMap (partFieldNames M.toValues)))
    have h := alike_fixedNest hs htail
      (hnodup.sublist ((hsub.trans (List.sublist_append_left _ _)).cons_cons s))
    rwa [← hnest] at h
  obtain ⟨hmatch, hvalues⟩ := matchAlike_gapless (M.frozen ρ) (fixed ++ tail) xs hgap
    (List.nodup_cons.mp hnames).2
  have hok : ∀ τ, run = .ok τ ↔
      Step.runAll (M.frozen ρ) (.many xs) [] (plan (fixed ++ tail)) = .ok τ :=
    fun τ => Step.runAllIn_eq_ok_iff hreads
  refine ⟨?_, fun ρ' τ hρ' hτ name => ?_⟩
  · rw [halike.entered_iff]
    simp only [← Outcome.entered_iff_arrival, hmatch, hok]
  · rw [hρ'] at halike
    obtain ⟨σ, hσ⟩ := hmatch.mpr ⟨τ, (hok τ).mp hτ⟩
    rw [Outcome.entered_iff_arrival.mp hσ] at halike
    rw [halike.holds.env name List.not_mem_nil, Store.env, Store.env,
      hvalues σ τ hσ ((hok τ).mp hτ) name]

/-- In `[ x, `${x}`, Just { value }, ...rest ]` the template reads the element before it, which both
have declared by then. -/
theorem start_gapless_repeat :
    let M : Meaning Nat :=
      { passes := fun t v => t == .tag "Just" && v == 7 || t == .text (toString v)
        fields := fun _ => [("value", (· + 10))]
        template := fun _ ρ => match ρ "x" with
          | some (.one v) => some (toString v)
          | _ => none }
    let parts : List Part := [.binder "x", .shape (.format "$\x7bx\x7d"),
      .shape (.tag "Just" "\x7b value \x7d"), .binder "rest"]
    let outer : Env Nat := fun n => if n = "_res" then some (.many [5, 5, 7, 1]) else none
    hasGap parts = false ∧ ("_res" :: patternNames M.toValues parts).Nodup ∧
      TestsApart M [] 0 parts ∧ ∃ ρ, (gapless parts).code.start M "_res" outer = .entered ρ := by
  intro M parts outer
  have hnames : ("_res" :: patternNames M.toValues parts).Nodup := by decide +kernel
  have htests : TestsApart M [] 0 parts := by
    refine ⟨nofun, List.forall_mem_singleton.mpr fun ρ τ h => ?_,
      List.forall_mem_singleton.mpr fun _ _ _ => rfl, nofun, trivial⟩
    have hx : ρ "x" = τ "x" := h "x" (by decide +kernel)
    simp only [Test.settle, M, hx]
  obtain ⟨harrives, -⟩ := start_gapless_iff M "_res" outer parts [5, 5, 7, 1] rfl
    (by decide +kernel) hnames htests
  exact ⟨by decide +kernel, hnames, htests, harrives.mpr ⟨_, by rfl⟩⟩

/-- In `[ A { value }, `${value}`, ...rest ]` the template reads a field of the part before it. The
plan has declared the field by then, the statements have not. -/
theorem start_gapless_field :
    let M : Meaning Nat :=
      { passes := fun t v => t == .tag "A" && v == 1 || t == .text (toString v)
        fields := fun _ => [("value", (· + 10))]
        template := fun _ ρ => match ρ "value" with
          | some (.one v) => some (toString v)
          | _ => none }
    let parts : List Part := [.shape (.tag "A" "\x7b value \x7d"),
      .shape (.format "$\x7bvalue\x7d"), .binder "rest"]
    let outer : Env Nat := fun n => if n = "_res" then some (.many [1, 11, 5]) else none
    hasGap parts = false ∧ ("_res" :: patternNames M.toValues parts).Nodup ∧
      (∃ σ, Step.runAllIn M outer (.many [1, 11, 5]) [] (plan parts) = .ok σ) ∧
      ∀ ρ, (gapless parts).code.start M "_res" outer ≠ .entered ρ := by
  intro M parts outer
  refine ⟨by decide +kernel, by decide +kernel, ⟨_, by rfl⟩, fun ρ h => ?_⟩
  have hfault : (gapless parts).code.start M "_res" outer = .fault := by rfl
  rw [hfault] at h
  cases h

end Derw.Script
