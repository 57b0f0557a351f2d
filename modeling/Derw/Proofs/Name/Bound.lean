import Derw.Proofs.Case.Visits
import Derw.Proofs.Match.Gapless
import Derw.Proofs.Name.Destructuring

/-!
# Proofs/Name/Bound — a branch declares what its pattern binds

The checker of names asks a pattern what it binds (`patternNames`). The generated program declares
names before the body of a branch: the fields of a tag, the elements of a list in one destructuring,
or what the steps of a plan declare. The two agree as long as field texts are flat and no binder
looks like a placeholder, the name the program makes up for an element that has none.

A plan goes from part to part and declares the names in their order (`declared?_plan`). One
destructuring declares all elements before any field, so there they agree up to a permutation.
-/

namespace Derw

open Script (FlatText)

/-! ## Flat patterns -/

/-- Whether a name is of the kind that the program makes up for elements: `_` and digits. -/
def Script.isPlaceholder (name : String) : Bool :=
  match name.toList with
  | '_' :: d :: ds => (d :: ds).all Char.isDigit
  | _ => false

/-- A shape with a destructuring text that is flat, if it has one. -/
def Shape.Flat : Shape → Prop
  | .tag _ fields => ∃ names, FlatText fields.toList names
  | .text _ | .format _ | .empty => True

/-- A binder whose name is not of the kind that the program makes up. -/
def Part.Flat : Part → Prop
  | .binder name => Script.isPlaceholder name = false
  | .shape s => s.Flat

/-- A pattern of flat parts. -/
def Pattern.Flat : Pattern → Prop
  | .shape s => s.Flat
  | .list parts => ∀ part ∈ parts, part.Flat
  | .anything => True

/-! ## What the parts of a pattern bind -/

/-- What a shape binds. -/
def Shape.names : Shape → List String
  | .tag _ fields => Name.destructuredNames fields
  | .text _ | .format _ | .empty => []

/-- What a part binds. -/
def Part.names : Part → List String
  | .binder name => [name]
  | .shape s => s.names

/-- A shape binds the names of its destructuring text. -/
theorem Name.patternNames_shape (s : Shape) : patternNames (.shape s) = s.names := by
  cases s <;> rfl

/-- A list pattern binds part by part. -/
theorem Name.patternNames_list (parts : List Part) :
    patternNames (.list parts) = parts.flatMap Part.names := by
  refine congrArg (parts.flatMap ·) (funext fun part => ?_)
  cases part with
  | binder => rfl
  | shape s => cases s <;> rfl

end Derw

namespace Derw.Script

/-! ## What declarations declare -/

/-- The names that a declaration declares, placeholders apart, if the target can read it. -/
def Bind.declared? : Bind → Option (List String)
  | .fields text _ => fieldNames? text
  | .element name _ | .slice name _ _ => some ([name].filter (!isPlaceholder ·))
  | .elements names rest => some ((names ++ rest.toList).filter (!isPlaceholder ·))

/-- What declarations declare together, if all of them can be told. -/
def declared? : List Bind → Option (List String)
  | [] => some []
  | b :: bs => b.declared?.bind fun ns => (declared? bs).map (ns ++ ·)

/-- The declarations declare these names, each as often. -/
def Declares (bs : List Bind) (names : List String) : Prop :=
  ∃ ns, declared? bs = some ns ∧ ns.Perm names

/-- One declaration in front. -/
theorem declared?_cons {b : Bind} {bs : List Bind} {ns ms : List String}
    (hb : b.declared? = some ns) (hbs : declared? bs = some ms) :
    declared? (b :: bs) = some (ns ++ ms) := by
  rw [declared?, hb, hbs]
  rfl

/-- Declarations one after the other. -/
theorem declared?_append {bs cs : List Bind} {ns ms : List String}
    (hbs : declared? bs = some ns) (hcs : declared? cs = some ms) :
    declared? (bs ++ cs) = some (ns ++ ms) := by
  induction bs generalizing ns with
  | nil =>
    obtain rfl := Option.some.inj hbs
    exact hcs
  | cons b bs ih =>
    obtain ⟨ks, hb, htail⟩ := Option.bind_eq_some_iff.mp hbs
    obtain ⟨ls, hls, rfl⟩ := Option.map_eq_some_iff.mp htail
    rw [List.cons_append, List.append_assoc]
    exact declared?_cons hb (ih hls)

/-! ## Names that are left out -/

/-- A made up name is spelled like one. -/
theorem isPlaceholder_placeholder (position : Nat) :
    isPlaceholder (placeholder position) = true := by
  have htext : (placeholder position).toList = '_' :: Nat.toDigits 10 position := by
    rw [placeholder, String.toList_append]
    simp
  obtain ⟨d, ds, hd⟩ := List.exists_cons_of_ne_nil (Nat.toDigits_ne_nil (n := position) (b := 10))
  rw [isPlaceholder, htext, hd]
  simp only
  rw [← hd, List.all_eq_true]
  exact fun c hc => Nat.isDigit_of_mem_toDigits (by decide) (by decide) hc

/-- So it is left out. -/
theorem filter_placeholder (position : Nat) :
    [placeholder position].filter (!isPlaceholder ·) = [] := by
  simp [isPlaceholder_placeholder]

/-- The name of a binder is not. -/
theorem filter_binder {name : String} (h : (Part.binder name).Flat) :
    [name].filter (!isPlaceholder ·) = [name] := by
  have h : isPlaceholder name = false := h
  simp [h]

/-- The element of a shape has no name of its own. -/
theorem Bind.declared?_placeholder (position : Nat) (i : Index) :
    (Bind.element (placeholder position) i).declared? = some [] :=
  congrArg some (filter_placeholder position)

section

variable {name : String} (h : (Part.binder name).Flat) (i : Index)

include h

/-- The element of a binder has. -/
theorem Bind.declared?_element : (Bind.element name i).declared? = some [name] :=
  congrArg some (filter_binder h)

/-- So has the run of elements that a gap takes. -/
theorem Bind.declared?_slice (j : Option Index) : (Bind.slice name i j).declared? = some [name] :=
  congrArg some (filter_binder h)

end

/-! ## Fields -/

/-- The fields of a shape are declared under the names that the pattern binds. -/
theorem declared?_fieldBinds (source : Place) {s : Shape} (h : s.Flat) :
    declared? (fieldBinds source s) = some s.names := by
  cases s with
  | text | format | empty => rfl
  | tag name fields =>
    obtain ⟨names, hflat⟩ := h
    rw [Shape.names, destructuredNames_of_flat hflat, ← fieldNames?_of_flat hflat]
    cases hf : fieldsText? fields with
    | none => simp [fieldBinds, hf, declared?]
    | some q =>
      simp only [fieldBinds, hf, Option.map_some, Option.toList_some, declared?, Bind.declared?,
        Option.elim_some, List.append_nil]
      cases fieldNames? q <;> rfl

/-! ## Plans -/

/-- The declaration that a step makes, if it makes one. -/
def Step.bind? : Step → Option Bind
  | .bind b => some b
  | .check _ | .scan .. => none

/-- The declarations of a plan. -/
def bindsOf (ss : List Step) : List Bind := ss.filterMap Step.bind?

@[simp] theorem bindsOf_check (c : Cond) (ss : List Step) : bindsOf (.check c :: ss) = bindsOf ss :=
  rfl

@[simp] theorem bindsOf_bind (b : Bind) (ss : List Step) :
    bindsOf (.bind b :: ss) = b :: bindsOf ss := rfl

@[simp] theorem bindsOf_scan (id : Nat) (start : Index) (test : Test) (ss : List Step) :
    bindsOf (.scan id start test :: ss) = bindsOf ss := rfl

@[simp] theorem bindsOf_append (ss ts : List Step) :
    bindsOf (ss ++ ts) = bindsOf ss ++ bindsOf ts := List.filterMap_append

/-- A shape declares its element, and then the fields. -/
theorem bindsOf_elementSteps (position : Nat) (s : Shape) (index : Index) (check : Bool) :
    bindsOf (elementSteps position s index check)
      = .element (placeholder position) index :: fieldBinds (.name (placeholder position)) s := by
  have hfields : bindsOf ((fieldBinds (.name (placeholder position)) s).map .bind)
      = fieldBinds (.name (placeholder position)) s := by
    rw [bindsOf, List.filterMap_map]
    exact List.filterMap_some
  cases check <;> simp [elementSteps, hfields]

/-- Of these, only the fields have names. -/
theorem declared?_elementSteps (position : Nat) {s : Shape} (h : s.Flat) (index : Index)
    (check : Bool) : declared? (bindsOf (elementSteps position s index check)) = some s.names := by
  rw [bindsOf_elementSteps]
  exact declared?_cons (Bind.declared?_placeholder _ _) (declared?_fieldBinds _ h)

/-- **A plan declares what the parts bind**, part by part. By induction along the plan. -/
theorem declared?_planFrom (position scans : Nat) (cursor : Index) {parts : List Part}
    (h : ∀ part ∈ parts, part.Flat) :
    declared? (bindsOf (planFrom position scans cursor parts))
      = some (parts.flatMap Part.names) := by
  fun_induction planFrom position scans cursor parts with
  | case1 | case3 => rfl
  | case2 position scans cursor name =>
    exact declared?_cons (Bind.declared?_slice (h _ (by simp)) _ _) rfl
  | case4 position scans cursor name s ps hgap found ih =>
    obtain ⟨hname, h⟩ := List.forall_mem_cons.mp h
    obtain ⟨hs, h⟩ := List.forall_mem_cons.mp h
    simp only [bindsOf_scan, bindsOf_bind, bindsOf_append, List.cons_append, List.flatMap_cons]
    exact declared?_cons (Bind.declared?_slice hname _ _)
      (declared?_append (declared?_elementSteps _ hs _ _) (ih h))
  | case5 position scans cursor name s ps hgap ih =>
    obtain ⟨hname, h⟩ := List.forall_mem_cons.mp h
    exact declared?_cons (Bind.declared?_element hname _) (ih h)
  | case6 position scans cursor name other ps ih =>
    obtain ⟨hname, h⟩ := List.forall_mem_cons.mp h
    exact declared?_cons (Bind.declared?_element hname _) (ih h)
  | case7 position scans cursor s ps _ ih =>
    obtain ⟨hs, h⟩ := List.forall_mem_cons.mp h
    simp only [List.cons_append, bindsOf_check, bindsOf_append, List.flatMap_cons]
    exact declared?_append (declared?_elementSteps _ hs _ _) (ih h)

/-- **The steps of a plan declare the names of the pattern, in order.** -/
theorem declared?_plan {parts : List Part} (h : (Pattern.list parts).Flat) :
    declared? (bindsOf (plan parts)) = some (Name.patternNames (.list parts)) := by
  rw [Name.patternNames_list]
  exact declared?_planFrom 0 0 {} h

/-! ## Nests -/

/-- The declarations before the innermost place. The names of a search, where it looks and where it
found its element, are the program's own and not among them. -/
def Nest.declarations : Nest → List Bind
  | .body => []
  | .bind b rest => b :: rest.declarations
  | .guard _ rest | .search _ _ _ rest | .scope rest => rest.declarations

/-- Guards declare nothing. -/
theorem Nest.declarations_guarded (cs : List Cond) (n : Nest) :
    (Nest.guarded cs n).declarations = n.declarations := by
  unfold Nest.guarded
  split <;> rfl

/-- Declarations in front of a match. -/
theorem Nest.declarations_binds (bs : List Bind) (n : Nest) :
    (Nest.binds bs n).declarations = bs ++ n.declarations := by
  induction bs with
  | nil => rfl
  | cons b bs ih => exact congrArg (b :: ·) ih

/-- Nested steps declare what the steps declare, in the same order. -/
theorem Nest.declarations_ofSteps (pending : List Cond) (ss : List Step) :
    (Nest.ofSteps pending ss).declarations = bindsOf ss := by
  fun_induction Nest.ofSteps pending ss with
  | case1 => exact declarations_guarded _ _
  | case2 pending c ss ih => exact ih
  | case3 pending b ss ih =>
    rw [declarations_guarded, bindsOf_bind, ← ih]
    rfl
  | case4 pending id start test ss ih =>
    rw [declarations_guarded, bindsOf_scan, ← ih]
    rfl

/-! ## One destructuring -/

/-- The name a part gives to the element it takes. -/
def ownName : Part → List String
  | .binder name => [name]
  | .shape _ => []

/-- The names a part gives to fields of the element it takes. -/
def fieldNamesOf : Part → List String
  | .binder _ => []
  | .shape s => s.names

/-- A part binds its own name or those of its fields, never both. -/
theorem ownName_append_fieldNamesOf (part : Part) :
    ownName part ++ fieldNamesOf part = part.names := by
  cases part <;> rfl

/-- Of the names in a destructuring, those of binders remain. -/
theorem filter_elementName (position : Nat) {parts : List Part} (h : ∀ part ∈ parts, part.Flat) :
    (parts.mapIdx fun i => elementName (position + i)).filter (!isPlaceholder ·)
      = parts.flatMap ownName := by
  induction parts generalizing position with
  | nil => rfl
  | cons part ps ih =>
    obtain ⟨hpart, h⟩ := List.forall_mem_cons.mp h
    rw [mapIdx_cons_add elementName, ← List.singleton_append, List.filter_append, ih _ h,
      List.flatMap_cons]
    congr 1
    cases part with
    | binder name => exact filter_binder hpart
    | shape s => exact filter_placeholder position

/-- The fields of all parts, behind the destructuring. -/
theorem declared?_elementFields (position : Nat) {parts : List Part}
    (h : ∀ part ∈ parts, part.Flat) :
    declared? (parts.mapIdx fun i => elementFields (position + i)).flatten
      = some (parts.flatMap fieldNamesOf) := by
  induction parts generalizing position with
  | nil => rfl
  | cons part ps ih =>
    obtain ⟨hpart, h⟩ := List.forall_mem_cons.mp h
    rw [mapIdx_cons_add elementFields, List.flatten_cons, List.flatMap_cons]
    refine declared?_append ?_ (ih _ h)
    cases part with
    | binder name => rfl
    | shape s => exact declared?_fieldBinds _ hpart

/-- The three lists of a pattern without gaps: elements, the rest, fields. -/
theorem declared?_fixedNest (length : Cond) {fixed : List Part} {rest : Option String}
    (h : ∀ part ∈ fixed, part.Flat) (hrest : ∀ r ∈ rest, (Part.binder r).Flat) :
    declared? (fixedNest fixed length rest).declarations
      = some (fixed.flatMap ownName ++ rest.toList ++ fixed.flatMap fieldNamesOf) := by
  have hnames : (fixed.mapIdx elementName ++ rest.toList).filter (!isPlaceholder ·)
      = fixed.flatMap ownName ++ rest.toList := by
    have hfixed := filter_elementName 0 h
    simp only [Nat.zero_add] at hfixed
    rw [List.filter_append, hfixed]
    cases rest with
    | none => rfl
    | some r => exact congrArg _ (filter_binder (hrest r rfl))
  have hfields := declared?_elementFields 0 h
  simp only [Nat.zero_add] at hfields
  have hinner : (Nest.guarded (fixed.mapIdx elementChecks).flatten
      (.binds (fixed.mapIdx elementFields).flatten .body)).declarations
      = (fixed.mapIdx elementFields).flatten := by
    rw [Nest.declarations_guarded, Nest.declarations_binds]
    exact List.append_nil _
  simp only [fixedNest, Nest.declarations]
  split
  next hempty =>
    obtain ⟨hfixed, hrest⟩ := Bool.and_eq_true_iff.mp hempty
    obtain rfl : fixed = [] := by simpa using hfixed
    obtain rfl : rest = none := by simpa using hrest
    rfl
  next =>
    rw [Nest.declarations, hinner]
    exact declared?_cons (congrArg some hnames) hfields

/-- The order in which elements and fields are declared is all that differs. -/
theorem perm_names (fixed : List Part) (rest : Option String) :
    (fixed.flatMap ownName ++ rest.toList ++ fixed.flatMap fieldNamesOf).Perm
      (fixed.flatMap Part.names ++ rest.toList) := by
  have hperm := List.flatMap_append_perm fixed ownName fieldNamesOf
  simp only [ownName_append_fieldNamesOf] at hperm
  rw [List.append_assoc]
  refine (List.perm_append_comm.append_left _).trans ?_
  rw [← List.append_assoc]
  exact hperm.append_right _

/-- A pattern without gaps declares each name of the pattern, if not in its order. -/
theorem declares_gapless {parts : List Part} (h : ∀ part ∈ parts, part.Flat) :
    Declares (gapless parts).declarations (parts.flatMap Part.names) := by
  rcases ending_cases parts with ⟨fixed, r, rfl⟩ | ⟨fixed, rfl⟩ | hlast
  · obtain ⟨hfixed, hr⟩ := List.forall_mem_append.mp h
    rw [gapless_rest, List.flatMap_append]
    refine ⟨_, declared?_fixedNest _ hfixed ?_, perm_names fixed (some r)⟩
    rintro _ ⟨⟩
    exact hr _ List.mem_cons_self
  · obtain ⟨hfixed, -⟩ := List.forall_mem_append.mp h
    rw [gapless_stop, List.flatMap_append]
    exact ⟨_, declared?_fixedNest _ hfixed (by simp), perm_names fixed none⟩
  · rw [gapless_open hlast, ← List.append_nil (parts.flatMap Part.names)]
    exact ⟨_, declared?_fixedNest _ h (by simp), perm_names parts none⟩

/-! ## Branches -/

/-- What a pattern becomes declares what the pattern binds. -/
theorem declares_branchMatch {p : Pattern} (h : p.Flat) :
    Declares (branchMatch p).declarations (Name.patternNames p) := by
  match p with
  | .anything => exact ⟨[], rfl, .refl _⟩
  | .shape s =>
    refine ⟨s.names, ?_, by rw [Name.patternNames_shape]⟩
    rw [branchMatch, Nest.declarations, Nest.declarations_binds, Nest.declarations, List.append_nil]
    exact declared?_fieldBinds _ h
  | .list parts =>
    rw [branchMatch, listMatch]
    split
    next hempty =>
      obtain rfl := List.isEmpty_iff.mp hempty
      exact ⟨[], rfl, .refl _⟩
    next =>
      split
      next =>
        rw [Nest.declarations_ofSteps]
        exact ⟨_, declared?_plan h, .refl _⟩
      next =>
        rw [Name.patternNames_list]
        exact declares_gapless h

/-- The declarations before the body of each branch, for a statement that has branches. -/
def Stmt.branchDeclarations : Stmt → List (List Bind)
  | .switch _ arms => arms.map fun | .mk _ binds _ => binds
  | .branch _ nest _ => [nest.declarations]
  | _ => []

/-- In a case by tag, a branch has fields to declare or nothing at all. -/
theorem declares_fieldsOf {p : Pattern} (htag : (Label.ofTag p.tag?).Of p) (h : p.Flat) :
    Declares (fieldsOf p) (Name.patternNames p) := by
  match p with
  | .anything => exact ⟨[], rfl, .refl _⟩
  | .shape s =>
    rw [Name.patternNames_shape]
    exact ⟨_, declared?_fieldBinds _ h, .refl _⟩
  | .list parts => cases htag

/-- **Every branch of a case declares what its pattern binds**, and a pattern with gaps declares it
in the same order. -/
theorem case_declares (subject : String) (value : Term) (branches : List (Pattern × List Stmt))
    (h : ∀ b ∈ branches, b.1.Flat) :
    List.Forall₂ (fun bs b => Declares bs (Name.patternNames b.1))
        ((caseStmts subject value branches).flatMap Stmt.branchDeclarations) branches ∧
      ∀ parts body, (.list parts, body) ∈ branches → hasGap parts = true →
        declared? (bindsOf (plan parts)) = some (Name.patternNames (.list parts)) := by
  refine ⟨?_, fun parts body hmem _ => declared?_plan (h _ hmem)⟩
  have hguarded : List.Forall₂ (fun bs b => Declares bs (Name.patternNames b.1))
      ((branches.map fun b => Stmt.branch subject (branchMatch b.1) b.2).flatMap
        Stmt.branchDeclarations) branches := by
    simp only [List.flatMap_map, Stmt.branchDeclarations]
    rw [← List.map_eq_flatMap, List.forall₂_map_left_iff, List.forall₂_same]
    exact fun b hb => declares_branchMatch (h b hb)
  rw [caseStmts, List.flatMap_cons]
  cases hdispatch : dispatchOf (branches.map (·.1)) with
  | byTag =>
    simp only [Stmt.branchDeclarations, List.flatMap_cons, List.flatMap_nil, List.append_nil,
      List.nil_append, List.map_map]
    rw [List.forall₂_map_left_iff, List.forall₂_same]
    intro b hb
    rw [Function.comp_apply, armOf_eq]
    exact declares_fieldsOf (of_tag? hdispatch (List.mem_map_of_mem hb)) (h b hb)
  | byLength => exact hguarded
  | byValue => exact hguarded

/-- `first :: middle :: Close { at, id: n } :: rest`, and a list of one element. -/
theorem case_declares_close :
    let gapped : List Part := [.binder "first", .binder "middle",
      .shape (.tag "Close" "\x7b at, id: n \x7d"), .binder "rest"]
    let branches : List (Pattern × List Stmt) :=
      [(.list gapped, []), (.list [.binder "only", .shape .empty], []), (.anything, [])]
    hasGap gapped = true ∧
      Name.patternNames (.list gapped) = ["first", "middle", "at", "n", "rest"] ∧
      declared? (bindsOf (plan gapped)) = some ["first", "middle", "at", "n", "rest"] ∧
      List.Forall₂ (fun bs b => Declares bs (Name.patternNames b.1))
        ((caseStmts "_res" (.raw "xs") branches).flatMap Stmt.branchDeclarations) branches := by
  intro gapped branches
  have hspace : isSpacing ' ' = true := by decide +kernel
  have hspaced : ∀ (name : String) (cs : List Char), Reader.isName name = true →
      (∀ c ∈ cs, isSpacing c = true) → Spaced (' ' :: (name.toList ++ cs)) name :=
    fun name cs hname hcs => ⟨hname, [' '], cs, rfl, List.forall_mem_singleton.mpr hspace, hcs⟩
  have hat := hspaced "at" [] (by decide +kernel) (by simp)
  have hid := hspaced "id" [] (by decide +kernel) (by simp)
  have hn := hspaced "n" [' '] (by decide +kernel) (List.forall_mem_singleton.mpr hspace)
  have hfields : FlatText "\x7b at, id: n \x7d".toList ["at", "n"] :=
    @FlatText.entries [] [] _ _ (by simp) (by simp)
      (.cons (.short hat) (.cons (.renamed hid hn) .nil)) (by simp)
  have hbinder : ∀ name, isPlaceholder name = false → (Part.binder name).Flat := fun _ h => h
  have hgapped : (Pattern.list gapped).Flat := List.forall_mem_cons.mpr ⟨hbinder _ (by decide),
    List.forall_mem_cons.mpr ⟨hbinder _ (by decide), List.forall_mem_cons.mpr ⟨⟨_, hfields⟩,
      List.forall_mem_singleton.mpr (hbinder _ (by decide))⟩⟩⟩
  have hsingle : (Pattern.list [.binder "only", .shape .empty]).Flat :=
    List.forall_mem_cons.mpr ⟨hbinder _ (by decide), List.forall_mem_singleton.mpr trivial⟩
  have hflat : ∀ b ∈ branches, b.1.Flat := List.forall_mem_cons.mpr ⟨hgapped,
    List.forall_mem_cons.mpr ⟨hsingle, List.forall_mem_singleton.mpr trivial⟩⟩
  have hnames : Name.patternNames (.list gapped) = ["first", "middle", "at", "n", "rest"] := by
    decide +kernel
  obtain ⟨hall, horder⟩ := case_declares "_res" (.raw "xs") branches hflat
  exact ⟨by decide, hnames, hnames ▸ horder gapped [] List.mem_cons_self (by decide), hall⟩

end Derw.Script
