import Derw.Proofs.Match.Nesting
import Mathlib.Data.List.Nodup
import Mathlib.Data.List.Perm.Basic

/-!
# Proofs/Match/Gapless — one destructuring, or one step a part

A pattern without gaps needs no searches: `gapless` checks the length of the subject once, takes it
apart in one declaration, and then makes all the tests and declares all the fields. A plan of the
same pattern goes from part to part, and checks, declares and tests at each.

Both come down to the same three lists, of which the parts are read from left to right: the elements
(`elementsHeld`), the rest (`restHeld`) and the fields (`allFields`). The statements declare them
list by list, the plan interleaves them (`fixedHeld`), and under distinct names the order in which
a store was filled does not show (`lookup_perm`). Patterns differ in their endings only: a binder,
`[]`, or neither.
-/

namespace Derw.Script

variable {V : Type}

/-! ## Stores with distinct names -/

section

variable {β : Type}

/-- Under distinct names, what is looked up is what there is. -/
theorem lookup_iff_mem {l : List (String × β)} (h : (l.map Prod.fst).Nodup) {n : String}
    {b : β} : l.lookup n = some b ↔ (n, b) ∈ l := by
  induction l with
  | nil => simp
  | cons e l ih =>
    obtain ⟨k, c⟩ := e
    obtain ⟨hk, hl⟩ := List.nodup_cons.mp h
    by_cases hn : n = k
    · subst hn
      rw [List.lookup_cons_self, List.mem_cons, Option.some_inj]
      constructor
      · rintro rfl
        exact Or.inl rfl
      · rintro (he | hb)
        · exact (congrArg Prod.snd he).symm
        · exact absurd (List.mem_map_of_mem hb) hk
    · have hne : (n == k) = false := beq_eq_false_iff_ne.mpr hn
      rw [List.lookup_cons, hne, List.mem_cons, ih hl]
      simp [hn]

/-- So the order does not matter. -/
theorem lookup_perm {l l' : List (String × β)} (h : l.Perm l') (hl : (l.map Prod.fst).Nodup)
    (n : String) : l.lookup n = l'.lookup n := by
  have hl' : (l'.map Prod.fst).Nodup := (h.map Prod.fst).nodup_iff.mp hl
  refine Option.ext fun b => ?_
  rw [lookup_iff_mem hl, lookup_iff_mem hl', h.mem_iff]

end

namespace Store

/-- A store of distinct names holds what was declared. -/
theorem lookup_declare_nil {es : List (String × Held V)} (h : (es.map Prod.fst).Nodup) {n : String}
    {x : Held V} (hx : (n, x) ∈ es) : (declare [] es).lookup (.name n) = some x := by
  rw [lookup_name, names_declare, names_nil, List.append_nil]
  exact (lookup_iff_mem (by simpa [List.map_reverse] using h)).mpr (List.mem_reverse.mpr hx)

end Store

/-! ## The parts that take one element -/

/-- The fields that a part takes from its element. -/
def partFields (m : Values V) (v : V) : Part → List (String × Held V)
  | .binder _ => []
  | .shape s => fieldsHeld m v s

/-- The elements that parts take one by one, by name. -/
def elementsHeld (position : Nat) : List Part → List V → List (String × Held V)
  | part :: ps, v :: vs => (elementName position part, .one v) :: elementsHeld (position + 1) ps vs
  | _, _ => []

/-- The fields that parts take from these elements. -/
def allFields (m : Values V) : List Part → List V → List (String × Held V)
  | part :: ps, v :: vs => partFields m v part ++ allFields m ps vs
  | _, _ => []

/-- Whether there is an element for each part and it suits the part. -/
def allAccept (m : Values V) : List Part → List V → Bool
  | part :: ps, v :: vs => accepts m part v && allAccept m ps vs
  | [], _ => true
  | _ :: _, [] => false

/-- Positions count on along a list. -/
theorem mapIdx_cons_add {α β : Type} (f : Nat → α → β) (p : Nat) (a : α) (l : List α) :
    (a :: l).mapIdx (fun i => f (p + i)) = f p a :: l.mapIdx (fun i => f (p + 1 + i)) := by
  rw [List.mapIdx_cons, Nat.add_zero]
  simp only [Nat.add_assoc, Nat.add_comm 1]

/-- All that a shape declares are fields of its source. -/
theorem exists_fields_of_mem {source : Place} {s : Shape} {b : Bind}
    (hb : b ∈ fieldBinds source s) : ∃ text, b = .fields text source := by
  cases s with
  | tag name written =>
    obtain ⟨text, -, rfl⟩ := Option.map_eq_some_iff.mp (Option.mem_toList.mp hb)
    exact ⟨text, rfl⟩
  | text | format | empty => cases hb

/-- What comes of shapes only comes of a shape at some position. -/
theorem exists_shape_of_mem {α : Type} {f : Nat → Part → List α} {fixed : List Part} {a : α}
    (hf : ∀ i name, f i (.binder name) = []) (ha : a ∈ (fixed.mapIdx f).flatten) :
    ∃ i s, fixed[i]? = some (.shape s) ∧ a ∈ f i (.shape s) := by
  obtain ⟨as, has, ha⟩ := List.mem_flatten.mp ha
  obtain ⟨i, hi, rfl⟩ := List.mem_mapIdx.mp has
  cases hpart : fixed[i] with
  | binder name =>
    rw [hpart, hf] at ha
    cases ha
  | shape s => exact ⟨i, s, by rw [List.getElem?_eq_getElem hi, hpart], hpart ▸ ha⟩

section

variable {m : Values V} {subject : Held V} {σ : Store V}

/-- A store that holds the elements passes the checks if they suit. -/
theorem allHold_elementChecks {p : Nat} {fixed : List Part} {vs : List V}
    (hlen : fixed.length ≤ vs.length)
    (hσ : ∀ e ∈ elementsHeld p fixed vs, σ.lookup (.name e.1) = some e.2) :
    Guard.allHold m subject σ
        (((fixed.mapIdx fun i => elementChecks (p + i)).flatten).map .cond)
      = some (allAccept m fixed vs) := by
  induction fixed generalizing p vs with
  | nil => simp [Guard.allHold, allAccept]
  | cons part ps ih =>
    cases vs with
    | nil => simp at hlen
    | cons v vs =>
      rw [elementsHeld, List.forall_mem_cons] at hσ
      obtain ⟨hv, hσ⟩ := hσ
      have ih := ih (Nat.le_of_succ_le_succ hlen) hσ
      rw [mapIdx_cons_add elementChecks, List.flatten_cons, List.map_append, allAccept]
      cases part with
      | binder n => simpa [elementChecks, accepts] using ih
      | shape s =>
        have hc : (Guard.cond (.passes (.name (placeholder p)) (testOf s))).holds m subject σ
            = some (m.passes (testOf s) v) := by
          have hv : σ.lookup (.name (placeholder p)) = some (.one v) := hv
          simp [Guard.holds, Cond.holds, Place.value, hv, Held.test]
        simp only [elementChecks, List.map_cons, List.map_nil, List.singleton_append,
          Guard.allHold, hc, accepts]
        cases m.passes (testOf s) v with
        | false => rfl
        | true => exact ih

/-- The fields of one element. -/
theorem run_elementFields {p : Nat} {part : Part} {v : V} (n : Nest)
    (hv : σ.lookup (.name (elementName p part)) = some (.one v)) :
    (Nest.binds (elementFields p part) n).code.run m subject σ
      = n.code.run m subject (σ.declare (partFields m v part)) := by
  cases part with
  | binder => rfl
  | shape s =>
    cases s with
    | text | format | empty => rfl
    | tag name fields =>
      cases hf : fieldsText? fields with
      | none => simp [elementFields, fieldBinds, partFields, fieldsHeld, hf, Nest.binds]
      | some q =>
        have he : (Bind.fields q (.name (placeholder p))).entries m subject σ
            = some (partFields m v (.shape (.tag name fields))) := by
          have hv : σ.lookup (.name (placeholder p)) = some (.one v) := hv
          simp [Bind.entries, Place.value, hv, Held.fields, partFields, fieldsHeld, hf]
        simp [elementFields, fieldBinds, hf, Nest.binds, Nest.code, Code.run, he]

/-- …and the declarations of fields go through if no name hides another one. -/
theorem run_allFields {p : Nat} {fixed : List Part} {vs : List V} {es : List (String × Held V)}
    (hlen : fixed.length ≤ vs.length) (hmem : elementsHeld p fixed vs ⊆ es)
    (hnodup : ((es ++ allFields m fixed vs).map Prod.fst).Nodup) :
    (Nest.binds ((fixed.mapIdx fun i => elementFields (p + i)).flatten) .body).code.run m subject
        (Store.declare [] es)
      = .entered (Store.declare [] (es ++ allFields m fixed vs)) := by
  induction fixed generalizing p vs es with
  | nil => simp [Nest.binds, Nest.code, Code.run, allFields]
  | cons part ps ih =>
    cases vs with
    | nil => simp at hlen
    | cons v vs =>
      rw [elementsHeld, List.cons_subset] at hmem
      rw [allFields, ← List.append_assoc] at hnodup ⊢
      have hes : (es.map Prod.fst).Nodup := by
        rw [List.append_assoc, List.map_append] at hnodup
        exact hnodup.of_append_left
      rw [mapIdx_cons_add elementFields, List.flatten_cons, Nest.binds, List.foldr_append,
        ← Nest.binds, ← Nest.binds, run_elementFields _ (Store.lookup_declare_nil hes hmem.1),
        ← Store.declare_append]
      exact ih (Nat.le_of_succ_le_succ hlen)
        (fun e he => List.mem_append_left _ (hmem.2 he)) hnodup

end

/-! ## The nest of a pattern without gaps -/

/-- The match of parts that take one element each, after a condition on the length. -/
def fixedNest (fixed : List Part) (length : Cond) (rest : Option String) : Nest :=
  .guard [length] <|
    let inner := Nest.guarded (fixed.mapIdx elementChecks).flatten
      (.binds (fixed.mapIdx elementFields).flatten .body)
    if (fixed.mapIdx elementName).isEmpty && rest.isNone then inner
    else .bind (.elements (fixed.mapIdx elementName) rest) inner

/-- With a binder at the end, it takes the rest. -/
theorem gapless_rest (fixed : List Part) (r : String) :
    gapless (fixed ++ [.binder r]) = fixedNest fixed (.lengthAtLeast fixed.length) (some r) := by
  simp [gapless, fixedNest, requiredLength]

/-- With `[]` at the end, there is no rest. -/
theorem gapless_stop (fixed : List Part) :
    gapless (fixed ++ [.shape .empty])
      = fixedNest fixed (.lengthIs { offset := fixed.length }) none := by
  simp [gapless, fixedNest, requiredLength]

/-- Otherwise the rest is left alone. -/
theorem gapless_open {fixed : List Part}
    (h : ∀ part, fixed.getLast? = some part → isEnd [part] = false) :
    gapless fixed = fixedNest fixed (.lengthAtLeast fixed.length) none := by
  have hn : requiredLength fixed = fixed.length := by
    rw [requiredLength]
    split <;> simp_all [isEnd]
  simp [gapless, fixedNest, hn]

/-- Elements and their names, side by side. -/
theorem zip_elementName (p : Nat) (fixed : List Part) (vs : List V) :
    (fixed.mapIdx fun i => elementName (p + i)).zip (vs.map .one) = elementsHeld p fixed vs := by
  induction fixed generalizing p vs with
  | nil => rfl
  | cons part ps ih =>
    cases vs with
    | nil => simp [elementsHeld]
    | cons v vs =>
      rw [mapIdx_cons_add elementName, List.map_cons, List.zip_cons_cons, ih, elementsHeld]

/-- What the destructuring of a list holds after `n` elements. -/
def restHeld (n : Nat) (xs : List V) (rest : Option String) : List (String × Held V) :=
  (rest.map fun r => (r, .many (xs.drop n))).toList

section

variable {m : Values V} {xs : List V} {fixed : List Part} {rest : Option String}

/-- What the nest declares once the length is right. -/
theorem arrival_fixedNest {length : Cond} {b : Bool} (hb : length.holds m (.many xs) [] = some b)
    (hlen : b = true → fixed.length ≤ xs.length)
    (hnodup : ((elementsHeld 0 fixed xs ++ restHeld fixed.length xs rest
      ++ allFields m fixed xs).map Prod.fst).Nodup) :
    ((fixedNest fixed length rest).code.run m (.many xs) []).arrival
      = if b && allAccept m fixed xs then
          .ok (Store.declare [] (elementsHeld 0 fixed xs ++ restHeld fixed.length xs rest
            ++ allFields m fixed xs))
        else .error .mismatch := by
  rw [fixedNest, Nest.code, arrival_when]
  have hg : Guard.allHold m (.many xs) ([] : Store V) ([length].map .cond) = some b := by
    cases b <;> simp [Guard.allHold, Guard.holds, hb]
  rw [hg]
  cases b with
  | false => rfl
  | true =>
    have hlen := hlen rfl
    set es := elementsHeld 0 fixed xs ++ restHeld fixed.length xs rest with hes
    have hnames : (fixed.mapIdx elementName).zip (xs.map .one) = elementsHeld 0 fixed xs := by
      simpa using zip_elementName 0 fixed xs
    have hnodup' : (es.map Prod.fst).Nodup := by
      rw [List.map_append] at hnodup
      exact hnodup.of_append_left
    have hchecks : Guard.allHold m (.many xs) (Store.declare [] es)
        ((fixed.mapIdx elementChecks).flatten.map .cond) = some (allAccept m fixed xs) := by
      simpa using allHold_elementChecks (p := 0) hlen fun e he =>
        Store.lookup_declare_nil hnodup' (List.mem_append_left _ he)
    have hfields : (Nest.binds (fixed.mapIdx elementFields).flatten .body).code.run m (.many xs)
        (Store.declare [] es) = .entered (Store.declare [] (es ++ allFields m fixed xs)) := by
      have h := @run_allFields _ m (.many xs) 0 fixed xs es hlen
        (List.subset_append_left _ _) hnodup
      simpa only [Nat.zero_add] using h
    -- what stands inside the destructuring
    have hinner : ((Nest.guarded (fixed.mapIdx elementChecks).flatten
          (.binds (fixed.mapIdx elementFields).flatten .body)).code.run m (.many xs)
            (Store.declare [] es)).arrival
        = if allAccept m fixed xs then .ok (Store.declare [] (es ++ allFields m fixed xs))
          else .error .mismatch := by
      rw [arrival_guarded, hchecks, hfields]
      cases allAccept m fixed xs <;> rfl
    have hbind : (Bind.elements (fixed.mapIdx elementName) rest).entries m (.many xs) ([] : Store V)
        = some es := by
      simp [Bind.entries, hlen, hnames, hes, restHeld]
    rw [Bool.true_and, ← hinner]
    by_cases hempty : ((fixed.mapIdx elementName).isEmpty && rest.isNone) = true
    · have hnil : es = [] := by
        simp only [Bool.and_eq_true, List.isEmpty_iff, List.mapIdx_eq_nil_iff,
          Option.isNone_iff_eq_none] at hempty
        rw [hes, hempty.1, hempty.2]
        rfl
      simp only [hempty, if_true, hnil]
      rfl
    · simp only [hempty, Bool.false_eq_true, if_false, Nest.code, Code.run, hbind]

end

/-! ## …and its plan -/

/-- What parts that take one element each hold, part by part. -/
def fixedHeld (m : Values V) (position : Nat) : List Part → List V → List (String × Held V)
  | part :: ps, v :: vs =>
    (elementName position part, .one v) :: partFields m v part ++ fixedHeld m (position + 1) ps vs
  | _, _ => []

/-- A gap is at the first part, or behind it. -/
theorem hasGapFrom_cons (p : Nat) (part : Part) (ps : List Part) :
    hasGapFrom p (part :: ps) = (startsGap p (part :: ps) || hasGapFrom (p + 1) ps) := by
  cases part with
  | shape s => cases ps <;> rfl
  | binder n =>
    cases ps with
    | nil => rfl
    | cons next ps => rfl

/-- A part that starts no gap takes one element. -/
theorem pieceHeld_one {m : Values V} {p : Nat} {part : Part} {ps : List Part}
    (hg : startsGap p (part :: ps) = false) (he : isEnd (part :: ps) = false) (v : V) :
    pieceHeld m p (part :: ps) [v] = (elementName p part, .one v) :: partFields m v part := by
  cases part with
  | shape s => simp [pieceHeld, elementName, partFields]
  | binder n =>
    cases ps with
    | nil => simp [isEnd] at he
    | cons next ps => simp [pieceHeld, hg, elementName, partFields]

section

variable {m : Values V}

/-- Without gaps, every part in front of the tail takes one element, and its test decides. -/
theorem held?_append {p : Nat} {fixed tail : List Part} {xs : List V}
    (hg : hasGapFrom p (fixed ++ tail) = false)
    (he : ∀ part ps, part :: ps <:+ fixed → isEnd (part :: ps ++ tail) = false) :
    held? m p (fixed ++ tail) xs
      = if allAccept m fixed xs then
          (held? m (p + fixed.length) tail (xs.drop fixed.length)).map (fixedHeld m p fixed xs ++ ·)
        else none := by
  induction fixed generalizing p xs with
  | nil => simp [allAccept, fixedHeld]
  | cons part ps ih =>
    rw [List.cons_append, hasGapFrom_cons, Bool.or_eq_false_iff] at hg
    have hend : isEnd (part :: (ps ++ tail)) = false := he part ps (List.suffix_refl _)
    rw [List.cons_append, held?_one hg.1 hend]
    cases xs with
    | nil => rfl
    | cons v xs =>
      have ih := @ih (p + 1) xs hg.2 fun q qs h => he q qs (h.trans (List.suffix_cons _ _))
      simp only [ih, pieceHeld_one hg.1 hend, allAccept, fixedHeld]
      by_cases hv : accepts m part v = true <;> by_cases hvs : allAccept m ps xs = true <;>
        simp [hv, hvs, Function.comp_def, Nat.add_assoc, Nat.add_comm 1]

/-- Part by part or list by list, the same entries. -/
theorem perm_fixedHeld (p : Nat) (fixed : List Part) (vs : List V) :
    (fixedHeld m p fixed vs).Perm (elementsHeld p fixed vs ++ allFields m fixed vs) := by
  induction fixed generalizing p vs with
  | nil => exact .refl _
  | cons part ps ih =>
    cases vs with
    | nil => exact .refl _
    | cons v vs =>
      rw [fixedHeld, elementsHeld, allFields]
      exact .cons _ (((ih (p + 1) vs).append_left _).trans (List.perm_append_comm_assoc _ _ _))

/-- The names of the fields that a part takes. -/
def partFieldNames (m : Values V) : Part → List String
  | .shape (.tag _ fields) => (fieldsText? fields).elim [] m.fieldNames
  | _ => []

/-- The names that a part declares: that of its element and those of the fields it takes. -/
def partNames (m : Values V) (position : Nat) (part : Part) : List String :=
  elementName position part :: partFieldNames m part

/-- The names that a pattern declares, with those it makes up for elements without a name. -/
def patternNames (m : Values V) (parts : List Part) : List String :=
  (parts.mapIdx (partNames m)).flatten

theorem partNames_eq (m : Values V) (p : Nat) (part : Part) (v : V) :
    partNames m p part = elementName p part :: (partFields m v part).map Prod.fst := by
  cases part with
  | binder n => rfl
  | shape s =>
    cases s with
    | text | format | empty => rfl
    | tag name fields =>
      cases hf : fieldsText? fields <;>
        simp [partNames, partFieldNames, partFields, fieldsHeld, Values.fieldNames, hf,
          Function.comp_def]

/-- Every entry has a name of its part. -/
theorem sublist_partNames (p : Nat) (fixed : List Part) (vs : List V) :
    ((fixedHeld m p fixed vs).map Prod.fst).Sublist
      (fixed.mapIdx fun i => partNames m (p + i)).flatten := by
  induction fixed generalizing p vs with
  | nil => exact .slnil
  | cons part ps ih =>
    cases vs with
    | nil => exact List.nil_sublist _
    | cons v vs =>
      rw [mapIdx_cons_add (partNames m), List.flatten_cons, partNames_eq m p part v, fixedHeld,
        List.map_append, List.map_cons]
      exact (List.Sublist.refl _).append (ih (p + 1) vs)

/-- What all parts accept has an element for each. -/
theorem length_le_of_allAccept {fixed : List Part} {xs : List V}
    (h : allAccept m fixed xs = true) : fixed.length ≤ xs.length := by
  fun_induction allAccept m fixed xs with
  | case1 part ps v vs ih =>
    rw [Bool.and_eq_true] at h
    exact Nat.succ_le_succ (ih h.2)
  | case2 => exact Nat.zero_le _
  | case3 => cases h

/-- A nest and a plan match alike: they match the same list, and every name stands for the same. -/
def MatchAlike (m : Values V) (xs : List V) (n : Nest) (ss : List Step) : Prop :=
  ((∃ σ, n.code.run m (.many xs) [] = .entered σ) ↔ ∃ τ, Step.runAll m (.many xs) [] ss = .ok τ) ∧
    ∀ σ τ, n.code.run m (.many xs) [] = .entered σ → Step.runAll m (.many xs) [] ss = .ok τ →
      ∀ name, σ.lookup (.name name) = τ.lookup (.name name)

/-- A run that ends with these entries is one that succeeds. -/
theorem ok_of_ending {r : Except Halt (Store V)} {es : List (String × Held V)}
    (h : r.map Store.names = ending [] (some es)) :
    ∃ τ, r = .ok τ ∧ τ.names = es.reverse := by
  cases r with
  | error e => cases h
  | ok τ => exact ⟨τ, rfl, by simpa [ending, Except.map] using h⟩

/-- The parts that take one element each, before an ending for which the length is checked. -/
theorem matchAlike_fixedNest {fixed tail : List Part} {xs : List V} {length : Cond}
    {rest : Option String} {b : Bool} (hg : hasGapFrom 0 (fixed ++ tail) = false)
    (he : ∀ part ps, part :: ps <:+ fixed → isEnd (part :: ps ++ tail) = false)
    (hb : length.holds m (.many xs) [] = some b) (hlen : b = true → fixed.length ≤ xs.length)
    (htail : fixed.length ≤ xs.length → held? m fixed.length tail (xs.drop fixed.length)
      = if b then some (restHeld fixed.length xs rest) else none)
    (hnodup : ((fixedHeld m 0 fixed xs ++ restHeld fixed.length xs rest).map Prod.fst).Nodup) :
    MatchAlike m xs (fixedNest fixed length rest) (plan (fixed ++ tail)) := by
  have hperm : (fixedHeld m 0 fixed xs ++ restHeld fixed.length xs rest).Perm
      (elementsHeld 0 fixed xs ++ restHeld fixed.length xs rest ++ allFields m fixed xs) := by
    refine ((perm_fixedHeld 0 fixed xs).append_right _).trans ?_
    rw [List.append_assoc, List.append_assoc]
    exact List.perm_append_comm.append_left _
  have hnodup' := (hperm.map Prod.fst).nodup_iff.mp hnodup
  have hcode := arrival_fixedNest hb hlen hnodup'
  have hplan := Step.runAll_plan m (fixed ++ tail) xs
  rw [held?_append hg he, Nat.zero_add] at hplan
  by_cases hok : (b && allAccept m fixed xs) = true
  · obtain ⟨rfl, hacc⟩ := Bool.and_eq_true_iff.mp hok
    rw [if_pos hok, ← Outcome.entered_iff_arrival] at hcode
    rw [if_pos hacc, htail (length_le_of_allAccept hacc)] at hplan
    obtain ⟨τ, hτ, hnames⟩ := ok_of_ending hplan
    refine ⟨⟨fun _ => ⟨τ, hτ⟩, fun _ => ⟨_, hcode⟩⟩, fun σ τ' hσ hτ' name => ?_⟩
    obtain rfl : τ = τ' := Except.ok.inj (hτ.symm.trans hτ')
    obtain rfl := Outcome.entered.inj (hcode.symm.trans hσ)
    rw [Store.lookup_name, Store.lookup_name, hnames, Store.names_declare, Store.names_nil,
      List.append_nil]
    exact lookup_perm ((List.reverse_perm _).trans (hperm.symm.trans (List.reverse_perm _).symm))
      (by simpa only [List.map_reverse, List.nodup_reverse] using hnodup') name
  · rw [if_neg hok] at hcode
    have hnone : (if allAccept m fixed xs then
        (held? m fixed.length tail (xs.drop fixed.length)).map (fixedHeld m 0 fixed xs ++ ·)
        else none) = none := by
      split
      next hacc =>
        rw [htail (length_le_of_allAccept hacc), if_neg (fun hb => hok (by rw [hb, hacc]; rfl))]
        rfl
      next => rfl
    rw [hnone] at hplan
    have hσ : ¬ ∃ σ, (fixedNest fixed length rest).code.run m (.many xs) [] = .entered σ := by
      rintro ⟨σ, hσ⟩
      rw [Outcome.entered_iff_arrival, hcode] at hσ
      cases hσ
    have hτ : ¬ ∃ τ, Step.runAll m (.many xs) [] (plan (fixed ++ tail)) = .ok τ := by
      rintro ⟨τ, hτ⟩
      rw [hτ] at hplan
      cases hplan
    exact ⟨iff_of_false hσ hτ, fun σ _ h => absurd ⟨σ, h⟩ hσ⟩

end

/-! ## Endings -/

theorem isEnd_cons_append (part last : Part) (ps : List Part) :
    isEnd (part :: ps ++ [last]) = false := by
  cases part with
  | binder => cases ps <;> rfl
  | shape s => exact isEnd_shape fun h => absurd h (by simp)

/-- A pattern ends in a binder, in `[]`, or in a part that takes one element. -/
theorem ending_cases (parts : List Part) :
    (∃ fixed r, parts = fixed ++ [.binder r]) ∨ (∃ fixed, parts = fixed ++ [.shape .empty]) ∨
      ∀ part, parts.getLast? = some part → isEnd [part] = false := by
  rcases List.eq_nil_or_concat parts with rfl | ⟨fixed, last, rfl⟩
  · exact Or.inr (Or.inr fun _ h => by cases h)
  · cases last with
    | binder r => exact Or.inl ⟨fixed, r, by simp⟩
    | shape s =>
      by_cases hs : s = .empty
      · subst hs
        exact Or.inr (Or.inl ⟨fixed, by simp⟩)
      · refine Or.inr (Or.inr fun part h => ?_)
        obtain rfl : Part.shape s = part := by simpa using h
        exact isEnd_shape fun _ => hs

/-- No suffix of such a pattern is its end. -/
theorem isEnd_of_suffix {parts : List Part}
    (h : ∀ part, parts.getLast? = some part → isEnd [part] = false) (part : Part) (ps : List Part)
    (hs : part :: ps <:+ parts) : isEnd (part :: ps ++ []) = false := by
  rw [List.append_nil]
  rcases List.eq_nil_or_concat ps with rfl | ⟨qs, last, rfl⟩
  · obtain ⟨before, rfl⟩ := hs
    exact h part (by simp)
  · simpa using isEnd_cons_append part last qs

theorem patternNames_concat (m : Values V) (fixed : List Part) (last : Part) :
    patternNames m (fixed ++ [last]) = patternNames m fixed ++ partNames m fixed.length last := by
  simp [patternNames]

/-- What is declared for the elements and the rest has names of the pattern. -/
theorem nodup_held (m : Values V) (fixed : List Part) (xs : List V) (rest : Option String)
    (h : (patternNames m fixed ++ rest.toList).Nodup) :
    ((fixedHeld m 0 fixed xs ++ restHeld fixed.length xs rest).map Prod.fst).Nodup := by
  have hfixed := sublist_partNames (m := m) 0 fixed xs
  simp only [Nat.zero_add] at hfixed
  have hrest : (restHeld fixed.length xs rest).map Prod.fst = rest.toList := by
    cases rest <;> rfl
  rw [List.map_append, hrest]
  exact h.sublist (hfixed.append (.refl _))

/-- **A pattern without gaps matches alike in both ways.** Its names have to be distinct: one of the
two declares all elements before any field, so that another name would be hidden. -/
theorem matchAlike_gapless (m : Values V) (parts : List Part) (xs : List V)
    (hgap : hasGap parts = false) (hnames : (patternNames m parts).Nodup) :
    MatchAlike m xs (gapless parts) (plan parts) := by
  rcases ending_cases parts with ⟨fixed, r, rfl⟩ | ⟨fixed, rfl⟩ | hlast
  · rw [patternNames_concat] at hnames
    rw [gapless_rest]
    refine matchAlike_fixedNest hgap (fun _ ps _ => isEnd_cons_append _ _ ps) rfl (by simp) ?_
      (nodup_held m fixed xs (some r) hnames)
    intro hlen
    simp [held?, split?, partsHeld, pieceHeld, restHeld, hlen]
  · rw [patternNames_concat] at hnames
    have hnames : (patternNames m fixed ++ []).Nodup := by
      rw [List.append_nil]
      exact hnames.of_append_left
    rw [gapless_stop]
    refine matchAlike_fixedNest hgap (fun _ ps _ => isEnd_cons_append _ _ ps) rfl ?_ ?_
      (nodup_held m fixed xs none hnames)
    · intro hlen
      have hlen : xs.length = fixed.length := by simpa using hlen
      exact Nat.le_of_eq hlen.symm
    · intro hlen
      simp only [held?, split?, Held.elements?_many, Option.any_some,
        length_beq_eq_isEmpty_drop hlen]
      cases (xs.drop fixed.length).isEmpty <;> rfl
  · rw [← List.append_nil parts] at hgap
    have h : MatchAlike m xs (fixedNest parts (.lengthAtLeast parts.length) none)
        (plan (parts ++ [])) := by
      refine matchAlike_fixedNest hgap (isEnd_of_suffix hlast) rfl (by simp) ?_
        (nodup_held m parts xs none (by simpa using hnames))
      intro hlen
      simp [held?, split?, partsHeld, restHeld, hlen]
    rw [gapless_open hlast]
    rwa [List.append_nil] at h

end Derw.Script
