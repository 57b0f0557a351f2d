import Derw.Name.Missing
import Derw.Proofs.Text.Distinct
import Derw.Script.Program
import Mathlib.Data.List.Basic

/-!
# Proofs/Program/Bindings — the names that a program binds at top level

The items of a program bind names: an import the module as a whole or the names it exposes, a
constructor its tag or its alias, a statement the function or the constant it declares. Each of them
stands in the text at the start of a line, after the words that declare it
(`declaredIn_programText`).

The checker of names has a list of its own of what is visible throughout a module. The two agree but
for one kind of import: one that only exposes names is not bound as a whole, while its name is
visible all the same.
-/

namespace Derw.Script

/-! ## What items bind -/

/-- What a name is bound to at top level. -/
inductive BindingKind
  /-- An imported module as a whole. -/
  | module
  /-- The constructor of a tag. -/
  | tag
  /-- An exposed name, the constructor of an alias, a function or a constant. -/
  | value

/-- The names that an import line binds. -/
def ImportLine.bound : BindingKind → ImportLine → List String
  | .module, .module name _ => [name]
  | .value, .names exposed _ => exposed
  | _, _ => []

/-- The name that a statement declares in its block. -/
def Stmt.declared : Stmt → List String
  | .const name .. | .hold name _ | .function name .. => [name]
  | .return _ | .ifElse .. | .switch .. | .branch .. => []

/-- The names of one kind that an item binds. -/
def Item.bound : BindingKind → Item → List String
  | k, .imports lines => lines.flatMap (ImportLine.bound k)
  | .tag, .constructor head true _ | .value, .constructor head false _ => [head.name]
  | .value, .statement s => s.declared
  | _, _ => []

/-- All names that an item binds. -/
def Item.bindings (i : Item) : List String := i.bound .module ++ i.bound .tag ++ i.bound .value

theorem Item.mem_bindings {i : Item} {name : String} :
    name ∈ i.bindings ↔ ∃ k, name ∈ i.bound k := by
  rw [bindings, List.mem_append, List.mem_append]
  constructor
  · rintro ((h | h) | h) <;> exact ⟨_, h⟩
  · rintro ⟨k, h⟩
    cases k with
    | module => exact .inl (.inl h)
    | tag => exact .inl (.inr h)
    | value => exact .inr h

/-- The items that are written of a program. -/
def programItems (s : Style) (body : List Decl) : List Item :=
  body.flatMap fun d => (itemsOf d).filter fun i => s.typed || !i.isType

end Derw.Script

namespace Derw.Module

open Script

/-- The items of the program that a module becomes. -/
def items (m : Module) (target : Target) : List Item := programItems (styleFor target m.body) m.body

/-- The names bound at top level of the program that a module becomes. -/
def bindings (m : Module) (target : Target) : List String := (m.items target).flatMap Item.bindings

/-- Those of one kind. -/
def bound (m : Module) (target : Target) (k : BindingKind) : List String :=
  (m.items target).flatMap (Item.bound k)

end Derw.Module

namespace Derw.Script

/-! ## Bindings in the text -/

/-- The words that declare a name. -/
inductive Declaration (name : String) : String → Prop
  | function : Declaration name ("function " ++ name ++ "(")
  | const : Declaration name ("const " ++ name ++ " = ")
  | module : Declaration name ("import * as " ++ name ++ " from \"")
  | exposed {names : List String} (h : name ∈ names) :
    Declaration name ("import \x7b " ++ Text.join ", " names ++ " \x7d from \"")

/-- A text after which a line starts. -/
def EndsLine (before : String) : Prop := before = "" ∨ ∃ t, before = t ++ "\n"

/-- A line of the text starts with a declaration of the name. -/
def DeclaredIn (text name : String) : Prop :=
  ∃ before words after, text = before ++ words ++ after ∧ EndsLine before ∧ Declaration name words

theorem EndsLine.append {s t : String} (hs : EndsLine s) (ht : EndsLine t) : EndsLine (s ++ t) := by
  obtain rfl | ⟨t, rfl⟩ := ht
  · rwa [String.append_empty]
  · exact .inr ⟨s ++ t, String.append_assoc.symm⟩

section

variable {name words text : String}

theorem Declaration.ne_empty (h : Declaration name words) : words ≠ "" := by
  rintro rfl
  generalize hw : "" = words at h
  cases h <;> simp [← String.toList_inj] at hw

theorem Declaration.declaredIn (h : Declaration name words) (after : String) :
    DeclaredIn (words ++ after) name := ⟨"", words, after, rfl, .inl rfl, h⟩

theorem DeclaredIn.ne_empty (h : DeclaredIn text name) : text ≠ "" := by
  obtain ⟨before, words, after, rfl, -, hwords⟩ := h
  simp [hwords.ne_empty]

theorem DeclaredIn.append_right (h : DeclaredIn text name) (s : String) :
    DeclaredIn (text ++ s) name := by
  obtain ⟨before, words, after, rfl, hbefore, hwords⟩ := h
  exact ⟨before, words, after ++ s, String.append_assoc, hbefore, hwords⟩

theorem DeclaredIn.append_left {s : String} (hs : EndsLine s) (h : DeclaredIn text name) :
    DeclaredIn (s ++ text) name := by
  obtain ⟨before, words, after, rfl, hbefore, hwords⟩ := h
  exact ⟨s ++ before, words, after, by simp only [String.append_assoc], hs.append hbefore, hwords⟩

theorem join_cons_cons (sep s t : String) (ts : List String) :
    Text.join sep (s :: t :: ts) = s ++ sep ++ Text.join sep (t :: ts) := rfl

/-- A declaration in one of several texts stands in all of them together. -/
theorem DeclaredIn.join {ts : List String} (h : DeclaredIn text name) (ht : text ∈ ts) :
    DeclaredIn (Text.join "\n" ts) name := by
  induction ts with
  | nil => cases ht
  | cons t ts ih =>
    cases ts with
    | nil =>
      obtain rfl := List.mem_singleton.mp ht
      exact h
    | cons u us =>
      rw [join_cons_cons]
      obtain rfl | ht := List.mem_cons.mp ht
      · exact (h.append_right _).append_right _
      · exact (ih ht).append_left (.inr ⟨t, rfl⟩)

theorem line_zero (text : String) : line 0 text = text ++ "\n" := by
  rw [line, show indentation 0 = "" from rfl, String.empty_append]

theorem Declaration.declaredIn_line (h : Declaration name words) (after : String) :
    DeclaredIn (line 0 (words ++ after)) name := by
  rw [line_zero, String.append_assoc]
  exact h.declaredIn _

theorem Declaration.declaredIn_braces (h : Declaration name words) (after inner tail : String) :
    DeclaredIn (braces 0 (words ++ after) inner tail) name := by
  have hhead : ¬(words ++ after).isEmpty = true := by
    rw [String.isEmpty_iff]
    simp [h.ne_empty]
  have hopened : words ++ after ++ " \x7b" = words ++ (after ++ " \x7b") := String.append_assoc
  rw [braces, if_neg hhead, hopened]
  exact ((h.declaredIn_line _).append_right _).append_right _

end

theorem endsLine_join {ts : List String} (h : ∀ t ∈ ts, EndsLine t) :
    EndsLine (String.join ts) := by
  induction ts with
  | nil => exact .inl rfl
  | cons t ts ih =>
    rw [List.forall_mem_cons] at h
    rw [String.join_cons]
    exact h.1.append (ih h.2)

section

variable {name : String} {k : BindingKind}

theorem ImportLine.declaredIn_print {l : ImportLine} (h : name ∈ l.bound k) :
    DeclaredIn (line 0 l.print) name := by
  unfold ImportLine.bound at h
  split at h
  next bound source =>
    obtain rfl := List.mem_singleton.mp h
    rw [print, String.append_assoc]
    exact Declaration.module.declaredIn_line _
  next exposed source =>
    rw [print, String.append_assoc]
    exact (Declaration.exposed h).declaredIn_line _
  next => cases h

theorem declaredIn_imports {lines : List ImportLine} (h : name ∈ lines.flatMap (ImportLine.bound k))
    (s : Style) : DeclaredIn (Item.print s (.imports lines)) name := by
  obtain ⟨l, hl, hname⟩ := List.mem_flatMap.mp h
  obtain ⟨before, after, rfl⟩ := List.append_of_mem hl
  have hbefore : ∀ t ∈ before.map fun l => line 0 l.print, EndsLine t := by
    intro t ht
    obtain ⟨l, -, rfl⟩ := List.mem_map.mp ht
    exact .inr ⟨_, rfl⟩
  rw [Item.print, List.map_append, List.map_cons, String.join_append, String.join_cons]
  exact ((ImportLine.declaredIn_print hname).append_right _).append_left (endsLine_join hbefore)

variable {s : Style} (hs : s.typed = false)

include hs

theorem Stmt.declaredIn_print {t : Stmt} (h : name ∈ t.declared) :
    DeclaredIn (t.print s 0) name := by
  cases t with
  | const bound type value =>
    obtain rfl := List.mem_singleton.mp h
    rw [print, Style.annotated, if_neg (by simp [hs]), String.append_assoc]
    exact Declaration.const.declaredIn_line _
  | hold bound value =>
    obtain rfl := List.mem_singleton.mp h
    rw [print, String.append_assoc]
    exact Declaration.const.declaredIn_line _
  | function bound params result body =>
    obtain rfl := List.mem_singleton.mp h
    rw [print, Style.functionHead]
    simp only [hs, Bool.false_eq_true, if_false, String.append_empty]
    rw [String.append_assoc]
    exact Declaration.function.declaredIn_braces _ _ _
  | «return» | ifElse | switch | branch => cases h

theorem declaredIn_constructor (head : TypeName) (tagged : Bool) (fields : List TypedName) :
    DeclaredIn (Item.print s (.constructor head tagged fields)) head.name := by
  have hhead : s.constructorHead head fields = "function " ++ head.name ++ "(" ++ "args)" := by
    have hargs : "(args)" = "(" ++ "args)" := rfl
    rw [Style.constructorHead, if_neg (by simp [hs]), hargs, ← String.append_assoc]
  rw [Item.print, hhead]
  exact Declaration.function.declaredIn_braces _ _ _

theorem Item.declaredIn_print {i : Item} (h : name ∈ i.bound k) : DeclaredIn (i.print s) name := by
  unfold Item.bound at h
  split at h
  next lines => exact declaredIn_imports h s
  next head fields =>
    obtain rfl := List.mem_singleton.mp h
    exact declaredIn_constructor hs head true fields
  next head fields =>
    obtain rfl := List.mem_singleton.mp h
    exact declaredIn_constructor hs head false fields
  next t => exact Stmt.declaredIn_print hs h
  next => cases h

/-- **What an item binds is declared in the text**, at the start of a line. -/
theorem declaredIn_programText {body : List Decl}
    (h : name ∈ (programItems s body).flatMap Item.bindings) :
    DeclaredIn (programText s body) name := by
  obtain ⟨i, hi, hname⟩ := List.mem_flatMap.mp h
  obtain ⟨k, hname⟩ := Item.mem_bindings.mp hname
  obtain ⟨d, hd, hi⟩ := List.mem_flatMap.mp hi
  have hdecl : DeclaredIn (declText s d) name :=
    (Item.declaredIn_print hs hname).join (List.mem_map_of_mem hi)
  refine hdecl.join (List.mem_filter.mpr ⟨List.mem_map_of_mem hd, ?_⟩)
  simp [hdecl.ne_empty]

end

end Derw.Script

namespace Derw

open Script

/-! ## What declarations come to bind -/

/-- The names of one kind that a declaration comes to bind in the program. -/
def Decl.bound : BindingKind → Decl → List String
  | .module, .imports modules => (modules.filter Import.bindsModule).map Import.bindingName
  | .value, .imports modules => modules.flatMap Import.exposing
  | .tag, .union _ tags => tags.map Tag.name
  | .value, .function name .. | .value, .const name .. => [name]
  | .value, .typeAlias head _ => [head.name]
  | _, _ => []

theorem bound_importLines (k : BindingKind) (m : Import) :
    (importLines m).flatMap (ImportLine.bound k) = (Decl.imports [m]).bound k := by
  cases k <;> cases h : m.bindsModule <;> cases he : m.exposing <;>
    simp [importLines, h, he, ImportLine.bound, Decl.bound]

theorem Decl.bound_imports (k : BindingKind) (modules : List Import) :
    (Decl.imports modules).bound k = modules.flatMap fun m => (Decl.imports [m]).bound k := by
  cases k with
  | module =>
    induction modules with
    | nil => rfl
    | cons m ms ih =>
      rw [List.flatMap_cons, ← ih, bound, bound, bound, ← List.map_append, ← List.filter_append]
      rfl
  | tag => simp [bound]
  | value => simp [bound]

/-- **A declaration binds through its items what it comes to bind.** -/
theorem bound_itemsOf (k : BindingKind) (d : Decl) :
    (itemsOf d).flatMap (Item.bound k) = d.bound k := by
  cases d with
  | imports modules =>
    -- An import without lines has no item, and binds nothing.
    have hitems : (itemsOf (.imports modules)).flatMap (Item.bound k)
        = (modules.flatMap importLines).flatMap (ImportLine.bound k) := by
      rw [itemsOf]
      split
      next h => rw [List.isEmpty_iff.mp h]; rfl
      next => cases k <;> exact List.append_nil _
    rw [hitems, List.flatMap_assoc, Decl.bound_imports]
    exact congrArg (modules.flatMap ·) (funext (bound_importLines k))
  | union head tags =>
    rw [itemsOf, List.flatMap_append, List.flatMap_assoc]
    cases k with
    | module | value => simp [Item.bound, Decl.bound]
    | tag => simp [Item.bound, Decl.bound, tagType, ← List.map_eq_flatMap]
  | exports names =>
    rw [itemsOf]
    cases k <;> split <;> rfl
  | typeAlias | comment | multilineComment | function | const => cases k <;> rfl

theorem bound_of_isType (k : BindingKind) {i : Item} (h : i.isType = true) : i.bound k = [] := by
  cases i with
  | objectType | unionType => cases k <;> rfl
  | imports | exports | constructor | statement | comment | multilineComment => cases h

/-- Types are not written in every program, but they bind nothing. -/
theorem bound_programItems (s : Style) (body : List Decl) (k : BindingKind) :
    (programItems s body).flatMap (Item.bound k) = body.flatMap (Decl.bound k) := by
  rw [programItems, List.flatMap_assoc]
  refine congrArg (body.flatMap ·) (funext fun d => ?_)
  rw [← bound_itemsOf]
  induction itemsOf d with
  | nil => rfl
  | cons i is ih =>
    rw [List.filter_cons]
    split
    next => rw [List.flatMap_cons, List.flatMap_cons, ih]
    next hleft =>
      have htype : i.isType = true := by
        rw [Bool.or_eq_true, not_or, Bool.not_eq_true', Bool.not_eq_false] at hleft
        exact hleft.2
      rw [List.flatMap_cons, bound_of_isType k htype, ih, List.nil_append]

theorem Module.mem_bindings {m : Module} {target : Target} {name : String} :
    name ∈ m.bindings target ↔ ∃ d ∈ m.body, ∃ k, name ∈ d.bound k := by
  have hkind : ∀ k, name ∈ (m.items target).flatMap (Item.bound k) ↔
      ∃ d ∈ m.body, name ∈ d.bound k := fun k => by
    rw [items, bound_programItems, List.mem_flatMap]
  simp only [bindings, List.mem_flatMap, Item.mem_bindings] at hkind ⊢
  constructor
  · rintro ⟨i, hi, k, hname⟩
    obtain ⟨d, hd, hname⟩ := (hkind k).mp ⟨i, hi, hname⟩
    exact ⟨d, hd, k, hname⟩
  · rintro ⟨d, hd, k, hname⟩
    obtain ⟨i, hi, hname⟩ := (hkind k).mpr ⟨d, hd, hname⟩
    exact ⟨i, hi, k, hname⟩

/-! ## Visible names -/

/-- A declaration makes visible what it binds, and the name of each module that it imports only to
expose names. -/
theorem mem_visibleNames {d : Decl} {name : String} :
    name ∈ Name.visibleNames d ↔ (∃ k, name ∈ d.bound k) ∨
      ∃ i ∈ importsOf [d], i.bindsModule = false ∧ i.bindingName = name := by
  have hkinds : (∃ k, name ∈ d.bound k) ↔
      name ∈ d.bound .module ∨ name ∈ d.bound .tag ∨ name ∈ d.bound .value := by
    constructor
    · rintro ⟨k, h⟩
      cases k <;> simp [h]
    · rintro (h | h | h) <;> exact ⟨_, h⟩
  rw [hkinds]
  cases d with
  | imports modules =>
    have himports : importsOf [Decl.imports modules] = modules := List.append_nil _
    rw [himports]
    simp only [Name.visibleNames, Decl.bound, List.mem_flatMap, List.mem_cons, List.mem_map,
      List.mem_filter, List.not_mem_nil, false_or]
    constructor
    · rintro ⟨i, hi, rfl | hname⟩
      · cases hb : i.bindsModule with
        | true => exact .inl (.inl ⟨i, ⟨hi, hb⟩, rfl⟩)
        | false => exact .inr ⟨i, hi, hb, rfl⟩
      · exact .inl (.inr ⟨i, hi, hname⟩)
    · rintro ((⟨i, ⟨hi, -⟩, rfl⟩ | ⟨i, hi, hname⟩) | ⟨i, hi, -, rfl⟩)
      · exact ⟨i, hi, .inl rfl⟩
      · exact ⟨i, hi, .inr hname⟩
      · exact ⟨i, hi, .inl rfl⟩
  | exports | union | typeAlias | function | const | comment | multilineComment =>
    simp [Name.visibleNames, Decl.bound, importsOf]

/-- **The names visible throughout a module are those that its program binds**, and next to them the
names of modules that are imported only to expose names; and each name that the program binds is
declared in its text. -/
theorem topLevelNames_bound (m : Module) (name : String) :
    (name ∈ Name.topLevelNames m.body ↔ name ∈ m.bindings .javaScript ∨
      ∃ i ∈ importsOf m.body, i.bindsModule = false ∧ i.bindingName = name) ∧
      (name ∈ m.bindings .javaScript → DeclaredIn (m.compile .javaScript) name) := by
  refine ⟨?_, declaredIn_programText rfl⟩
  have hexposing : (∃ i ∈ importsOf m.body, i.bindsModule = false ∧ i.bindingName = name) ↔
      ∃ d ∈ m.body, ∃ i ∈ importsOf [d], i.bindsModule = false ∧ i.bindingName = name := by
    simp only [importsOf, List.mem_flatMap, List.mem_singleton, exists_eq_left]
    constructor
    · rintro ⟨i, ⟨d, hd, hi⟩, h⟩
      exact ⟨d, hd, i, hi, h⟩
    · rintro ⟨d, hd, i, hi, h⟩
      exact ⟨i, ⟨d, hd, hi⟩, h⟩
  rw [Name.topLevelNames, Text.mem_distinct, List.mem_flatMap, Module.mem_bindings, hexposing]
  simp only [mem_visibleNames, and_or_left, exists_or]

/-- `import "./Maybe" exposing (Just)` makes `Maybe` visible, so the call of `Maybe.withDefault` is
accepted; but the program binds `Just` alone. -/
theorem topLevelNames_unbound :
    let m : Module :=
      { name := "Main"
        body := [.imports [{ name := "\"./Maybe\"", exposing := ["Just"] }],
          .const "one" .absent [] (.qualified ["Maybe"] (.call "withDefault" [.value "1"]))]
        errors := [] }
    "Maybe" ∈ Name.topLevelNames m.body ∧ ({} : Name.Checker).freshMessages m = [] ∧
      m.bindings .javaScript = ["Just", "one"] ∧
      m.compile .javaScript =
        "import \x7b Just \x7d from \"./Maybe\";\n\nconst one = Maybe.withDefault(1);\n" := by
  decide +kernel

end Derw
