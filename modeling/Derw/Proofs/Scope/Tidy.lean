import Derw.Proofs.Case.Visits
import Derw.Proofs.Scope.Basic

/-!
# Proofs/Scope/Tidy — when temporaries get to their declarations

A program makes up names: for the subjects of its cases, for elements that a pattern leaves
nameless, and for its searches. These temporaries are reused from one place to the next, so it takes
an argument that a mention of one never gets to the declaration of another (`Scope.Sound`).

`Scope.Tidy` is that argument as a check which goes through a scope once. It keeps the temporaries
that are known, with their sites. A block forgets those that it declares anew, a declaration adds
its own, and a mention must find the site it is meant for. What is tidy is sound wherever the known
temporaries stand for what they are known as (`Scope.Tidy.sound`).
-/

namespace Derw.Script

/-! ## Temporaries -/

/-- Whether a name is a stem with a number. -/
def isNumbered (stem name : String) : Bool :=
  let digits := name.toList.drop stem.toList.length
  name == stem ++ String.ofList digits && !digits.isEmpty && digits.all Char.isDigit

/-- Whether a name is of the kind that only the generated program uses. -/
def isTemporary (name : String) : Bool :=
  name == "_res" || ["_res", "_", "_found", "_i"].any (isNumbered · name)

/-- A name that is made of a stem and a number. -/
theorem isNumbered_append (stem : String) (k : Nat) :
    isNumbered stem (stem ++ toString k) = true := by
  have hdigits : (stem ++ toString k).toList.drop stem.toList.length = Nat.toDigits 10 k := by
    rw [String.toList_append, List.drop_left, Nat.toString_eq_ofList_toDigits,
      String.toList_ofList]
  have hall : (Nat.toDigits 10 k).all Char.isDigit = true :=
    List.all_eq_true.mpr fun c hc => Nat.isDigit_of_mem_toDigits (by decide) (by decide) hc
  simp only [isNumbered, hdigits, hall, ← Nat.toString_eq_ofList_toDigits]
  simp [Nat.toDigits_ne_nil]

/-- Every numbered name of these stems is a temporary. -/
theorem isTemporary_numbered {stem : String} (h : stem ∈ ["_res", "_", "_found", "_i"]) (k : Nat) :
    isTemporary (stem ++ toString k) = true := by
  rw [isTemporary, Bool.or_eq_true, List.any_eq_true]
  exact .inr ⟨stem, h, isNumbered_append stem k⟩

/-- The outermost subject has no number. -/
@[simp] theorem isTemporary_subjectName (depth : Nat) : isTemporary (subjectName depth) = true := by
  unfold subjectName
  split
  next => rfl
  next => exact isTemporary_numbered (by simp) depth

@[simp] theorem isTemporary_placeholder (position : Nat) :
    isTemporary (placeholder position) = true := isTemporary_numbered (by simp) position

@[simp] theorem isTemporary_foundName (id : Nat) : isTemporary (foundName id) = true :=
  isTemporary_numbered (by simp) id

@[simp] theorem isTemporary_loopName (id : Nat) : isTemporary (loopName id) = true :=
  isTemporary_numbered (by simp) id

/-- Elements at different positions have different names. -/
theorem placeholder_injective {a b : Nat} (h : placeholder a = placeholder b) : a = b :=
  toString_injective ((String.append_right_inj _).mp h)

/-- So have different searches. -/
theorem foundName_injective {a b : Nat} (h : foundName a = foundName b) : a = b :=
  toString_injective ((String.append_right_inj _).mp h)

/-! ### Temporaries of different kinds

They differ in their second letter. -/

/-- The letter after the first one. -/
def secondLetter? (name : String) : Option Char := name.toList[1]?

@[simp] theorem secondLetter?_subjectName (depth : Nat) :
    secondLetter? (subjectName depth) = some 'r' := by
  unfold subjectName
  split <;> simp [secondLetter?]

@[simp] theorem secondLetter?_foundName (id : Nat) : secondLetter? (foundName id) = some 'f' := by
  simp [secondLetter?, foundName]

@[simp] theorem secondLetter?_loopName (id : Nat) : secondLetter? (loopName id) = some 'i' := by
  simp [secondLetter?, loopName]

/-- The placeholder of an element has a digit where the others have a letter. -/
theorem secondLetter?_placeholder (position : Nat) :
    ∃ d, secondLetter? (placeholder position) = some d ∧ d.isDigit = true := by
  obtain ⟨d, ds, hd⟩ := List.exists_cons_of_ne_nil (Nat.toDigits_ne_nil (n := position) (b := 10))
  refine ⟨d, ?_, Nat.isDigit_of_mem_toDigits (b := 10) (n := position) (by decide) (by decide)
    (by simp [hd])⟩
  simp [secondLetter?, placeholder, hd]

/-- Names that differ in their second letters differ. -/
theorem ne_of_secondLetter? {a b : String} {c d : Char} (ha : secondLetter? a = some c)
    (hb : secondLetter? b = some d) (h : c ≠ d) : a ≠ b := by
  rintro rfl
  exact h (Option.some.inj (ha.symm.trans hb))

/-- The placeholder of an element is no temporary of another kind. -/
theorem placeholder_ne {name : String} {c : Char} (hname : secondLetter? name = some c)
    (hc : c.isDigit = false) (position : Nat) : placeholder position ≠ name := by
  obtain ⟨d, hd, hdigit⟩ := secondLetter?_placeholder position
  refine ne_of_secondLetter? hd hname ?_
  rintro rfl
  rw [hc] at hdigit
  cases hdigit

/-- In particular it is no subject. -/
theorem placeholder_ne_subjectName (position depth : Nat) :
    placeholder position ≠ subjectName depth :=
  placeholder_ne (secondLetter?_subjectName depth) (by decide) position

/-! ## Sound scopes -/

namespace Scope

variable {s : Scope} {known : List (String × Site)}

/-- Every mention that the program has made up gets to the site it is meant for, and no block
declares a temporary twice. -/
structure Sound (here : OpenBlock) (outer : List OpenBlock) (s : Scope) : Prop where
  resolved : ∀ o ∈ s.occurrences here outer, ∀ site ∈ o.owner,
    resolve o.name o.around = some site
  once : ∀ ns ∈ s.locals :: s.blocks, (ns.filter isTemporary).Nodup

/-- Mentions that are meant for known sites, or for none. -/
def AllKnown (known : List (String × Site)) (mentions : List Mention) : Prop :=
  ∀ m ∈ mentions, ∀ site ∈ m.2, (m.1, site) ∈ known

/-- The check, where the temporaries `known` are known. -/
def Tidy (known : List (String × Site)) : Scope → Prop
  | done => True
  | declare n site rest =>
    (isTemporary n = true → n ∉ rest.locals) ∧
      rest.Tidy (if isTemporary n then (n, site) :: known else known)
  | mention n owner rest => (∀ site ∈ owner, (n, site) ∈ known) ∧ rest.Tidy known
  | block inner rest =>
    inner.Tidy (known.filter (·.1 ∉ inner.locals)) ∧ rest.Tidy known

/-- A tidy block declares no temporary twice. -/
theorem Tidy.nodup (h : s.Tidy known) : (s.locals.filter isTemporary).Nodup := by
  induction s generalizing known with
  | done => exact List.nodup_nil
  | declare n site rest ih =>
    obtain ⟨hn, hrest⟩ := h
    change ((n :: rest.locals).filter isTemporary).Nodup
    rw [List.filter_cons]
    split
    next htemp =>
      exact List.nodup_cons.mpr ⟨fun hmem => hn htemp (List.mem_filter.mp hmem).1, ih hrest⟩
    next => exact ih hrest
  | mention n owner rest ih => exact ih h.2
  | block inner rest _ ih => exact ih h.2

/-- Nor does a block inside it. -/
theorem Tidy.nodup_blocks (h : s.Tidy known) : ∀ ns ∈ s.blocks, (ns.filter isTemporary).Nodup := by
  induction s generalizing known with
  | done => simp [blocks]
  | declare n site rest ih => exact ih h.2
  | mention n owner rest ih => exact ih h.2
  | block inner rest ihInner ih =>
    intro ns hns
    rcases List.mem_cons.mp hns with rfl | hns
    · exact h.1.nodup
    · exact (List.mem_append.mp hns).elim (ihInner h.1 ns) (ih h.2 ns)

end Scope

/-! ## Tidy scopes are sound -/

section

variable {s : Scope} {known : List (String × Site)} {here : OpenBlock} {outer : List OpenBlock}

/-- The temporaries that the rest `s` of a block declares are still to come, each of them once. -/
def OpenBlock.Awaits (here : OpenBlock) (s : Scope) : Prop :=
  ∀ n ∈ s.locals, isTemporary n = true → here.locals.count n = 1 ∧ n ∉ here.before.map (·.1)

/-- A block awaits all of its own declarations at its start. -/
theorem OpenBlock.awaits_enter (h : (s.locals.filter isTemporary).Nodup) :
    (OpenBlock.enter s).Awaits s := by
  intro n hn htemp
  refine ⟨?_, List.not_mem_nil⟩
  rw [OpenBlock.locals_enter, ← List.count_filter htemp]
  exact List.count_eq_one_of_mem h (List.mem_filter.mpr ⟨hn, htemp⟩)

/-- Behind one of them it awaits the others. -/
theorem OpenBlock.Awaits.rest {n : String} {site : Site} (h : here.Awaits (.declare n site s))
    (hn : isTemporary n = true → n ∉ s.locals) : (here.after [(n, site)]).Awaits s := by
  intro m hm htemp
  obtain ⟨hcount, hbefore⟩ := h m (List.mem_cons_of_mem _ hm) htemp
  have hne : m ≠ n := by
    rintro rfl
    exact hn htemp hm
  refine ⟨hcount, ?_⟩
  simpa [OpenBlock.after, hne] using hbefore

/-- What is known is so. -/
def Known (known : List (String × Site)) (around : List OpenBlock) : Prop :=
  ∀ k ∈ known, resolve k.1 around = some k.2

/-- What is known stays known behind further declarations. -/
theorem Known.after (h : Known known (here :: outer)) (ds : List (String × Site)) :
    Known known (here.after ds :: outer) :=
  fun k hk => resolve_after ds (h k hk)

/-- Inside a block, what the block does not declare itself is known. -/
theorem Known.enter (h : Known known outer) (s : Scope) :
    Known (known.filter (·.1 ∉ s.locals)) (.enter s :: outer) := by
  intro k hk
  obtain ⟨hk, hnot⟩ := List.mem_filter.mp hk
  rw [resolve_cons_of_not_mem (by simpa using hnot)]
  exact h k hk

/-- **In a tidy scope every mention gets to its own declaration.** By induction on the scope, with
the blocks around it as far as they matter. -/
theorem Scope.Tidy.resolved (h : s.Tidy known) (hawaits : here.Awaits s)
    (hknown : Known known (here :: outer)) :
    ∀ o ∈ s.occurrences here outer, ∀ site ∈ o.owner, resolve o.name o.around = some site := by
  induction s generalizing known here outer with
  | done => simp [Scope.occurrences]
  | declare n site rest ih =>
    obtain ⟨hn, hrest⟩ := h
    refine ih hrest (hawaits.rest hn) ?_
    split
    -- Of names of the module nothing is known, since a block may well declare them twice.
    next htemp =>
      obtain ⟨hcount, hbefore⟩ := hawaits n List.mem_cons_self htemp
      refine List.forall_mem_cons.mpr ⟨?_, hknown.after _⟩
      exact resolve_declared hcount hbefore (List.lookup_cons_self)
    next => exact hknown.after _
  | mention n owner rest ih =>
    obtain ⟨howner, hrest⟩ := h
    refine List.forall_mem_cons.mpr ⟨fun site hsite => ?_, ih hrest hawaits hknown⟩
    exact hknown _ (howner site hsite)
  | block inner rest ihInner ih =>
    obtain ⟨hinner, hrest⟩ := h
    refine List.forall_mem_append.mpr ⟨?_, ih hrest hawaits hknown⟩
    exact ihInner hinner (OpenBlock.awaits_enter hinner.nodup) (hknown.enter inner)

/-- **Temporaries of a tidy scope get to their declarations.** -/
theorem Scope.Tidy.sound (h : s.Tidy known) (hawaits : here.Awaits s)
    (hknown : Known known (here :: outer)) : s.Sound here outer :=
  ⟨h.resolved hawaits hknown, List.forall_mem_cons.mpr ⟨h.nodup, h.nodup_blocks⟩⟩

end

/-! ## Putting tidy scopes together -/

namespace Scope

variable {s t : Scope} {known more : List (String × Site)} {site : Site} {names : List String}
  {mentions : List Mention}

/-- It does not hurt to know more. -/
theorem Tidy.mono (h : s.Tidy known) (hsub : known ⊆ more) : s.Tidy more := by
  induction s generalizing known more with
  | done => trivial
  | declare n site rest ih =>
    refine ⟨h.1, ih h.2 ?_⟩
    split
    next => exact List.cons_subset_cons _ hsub
    next => exact hsub
  | mention n owner rest ih => exact ⟨fun site hsite => hsub (h.1 site hsite), ih h.2 hsub⟩
  | block inner rest ihInner ih =>
    exact ⟨ihInner h.1 (List.filter_subset _ hsub), ih h.2 hsub⟩

/-- Tidy statements one after the other, if the later ones declare none of the temporaries again. -/
theorem Tidy.append (hs : s.Tidy known) (ht : t.Tidy known)
    (hapart : ∀ n ∈ s.locals, isTemporary n = true → n ∉ t.locals) : (s ++ t).Tidy known := by
  induction s generalizing known with
  | done => exact ht
  | declare n site rest ih =>
    obtain ⟨hn, hapart⟩ := List.forall_mem_cons.mp hapart
    refine ⟨fun htemp => ?_, ih hs.2 (ht.mono ?_) hapart⟩
    · change n ∉ (rest ++ t).locals
      rw [locals_append, List.mem_append, not_or]
      exact ⟨hs.1 htemp, hn htemp⟩
    · split
      next => exact List.subset_cons_self _ _
      next => exact List.Subset.refl _
  | mention n owner rest ih => exact ⟨hs.1, ih hs.2 ht hapart⟩
  | block inner rest _ ih => exact ⟨hs.1, ih hs.2 ht hapart⟩

/-- More mentions of what is known. -/
theorem AllKnown.append {ms : List Mention} (h : AllKnown known mentions)
    (hms : AllKnown known ms) : AllKnown known (mentions ++ ms) :=
  List.forall_mem_append.mpr ⟨h, hms⟩

/-- Mentions of what is known do not matter to what comes behind them. -/
theorem tidy_mentionAll (hmentions : AllKnown known mentions) (h : s.Tidy known) :
    (mentionAll mentions s).Tidy known := by
  induction mentions with
  | nil => exact h
  | cons m ms ih =>
    obtain ⟨hm, hms⟩ := List.forall_mem_cons.mp hmentions
    exact ⟨hm, ih hms⟩

/-- Declarations of different temporaries, which are known from there on. -/
theorem tidy_declareAll (hnodup : (names.filter isTemporary).Nodup)
    (hapart : ∀ n ∈ names, isTemporary n = true → n ∉ s.locals)
    (h : s.Tidy ((names.filter isTemporary).map (·, site) ++ known)) :
    (declareAll site names s).Tidy known := by
  induction names generalizing known with
  | nil => exact h
  | cons n ns ih =>
    obtain ⟨hn, hapart⟩ := List.forall_mem_cons.mp hapart
    cases htemp : isTemporary n with
    | false =>
      rw [List.filter_cons_of_neg (by simp [htemp])] at hnodup h
      refine ⟨by simp [htemp], ?_⟩
      rw [if_neg (by simp [htemp])]
      exact ih hnodup hapart h
    | true =>
      rw [List.filter_cons_of_pos htemp] at hnodup h
      obtain ⟨hnot, hnodup⟩ := List.nodup_cons.mp hnodup
      refine ⟨fun _ => ?_, ?_⟩
      · change n ∉ (declareAll site ns s).locals
        rw [locals_declareAll, List.mem_append, not_or]
        exact ⟨fun hmem => hnot (List.mem_filter.mpr ⟨hmem, htemp⟩), hn htemp⟩
      · rw [if_pos htemp]
        refine ih hnodup hapart (h.mono fun k hk => ?_)
        simpa [or_left_comm] using hk

/-- Names of the module are no temporaries. -/
theorem tidy_declareAll_names (hnames : ∀ n ∈ names, isTemporary n = false) (h : s.Tidy known) :
    (declareAll site names s).Tidy known := by
  have hnone : names.filter isTemporary = [] := List.filter_eq_nil_iff.mpr (by simpa using hnames)
  refine tidy_declareAll (by simp [hnone]) (fun n hn htemp => ?_) (by simpa [hnone] using h)
  rw [hnames n hn] at htemp
  cases htemp

end Scope

end Derw.Script
