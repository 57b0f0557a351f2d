import Derw.Proofs.Type.Grammar
import Derw.Script.Type

/-!
# Proofs/Type/Rendered — the text of a type is read as that type

The renderer writes brackets in one place only, around a function type that is the item of a list.
No other place needs them: an argument ends at a comma or at the bracket that closes the list, and
the result of a function type goes as far as the text does. `Ty.tree` is what a type stands for, and
`Ty.spells_render` says that its text has this reading and no other.

The proof follows the type. `TypeText` and `OperandText` are texts that stand for a type wherever
they are put, as long as no word goes on behind them, and each way of putting types together has its
lemma.
-/

namespace Derw

open Script.Reader

/-- The types whose names are all names of the target. -/
inductive Ty.Spelled : Ty → Prop
  | absent : Spelled .absent
  | generic {name : String} (h : isName name = true) : Spelled (.generic name)
  | fixed {name : String} {args : List Ty} (h : isName name = true)
    (hargs : ∀ t ∈ args, Spelled t) : Spelled (.fixed name args)
  | function {args : List Ty} (hargs : ∀ t ∈ args, Spelled t) : Spelled (.function args)

/-! ## What a type stands for -/

/-- Where a named type is found, as seen through the imports. -/
def typePath (imports : List Import) (name : String) : List String :=
  if imports.any fun m => m.bindsModule && m.bindingName == name then [name, name] else [name]

/-- The function type from all but the last of some types to the last. -/
def arrowTree (types : List TypeTree) : TypeTree :=
  match types.getLast? with
  | none => .arrow [] (.named ["void"] [])
  | some result => .arrow (types.dropLast.mapIdx fun i t => ("arg" ++ toString i, t)) result

mutual

/-- What a type stands for. -/
def Ty.tree (imports : List Import) : Ty → TypeTree
  | .absent => .named ["any"] []
  | .generic name => .named [name] []
  | .fixed "String" _ => .named ["string"] []
  | .fixed "Number" _ => .named ["number"] []
  | .fixed "Bool" _ => .named ["boolean"] []
  | .fixed "List" [item] => .array (item.tree imports)
  | .fixed "List" _ => .array (.named ["any"] [])
  | .fixed name args => .named (typePath imports name) (typeTreesOf imports args)
  | .function args => arrowTree (typeTreesOf imports args)

/-- The trees of a list of types, in its order. -/
def typeTreesOf (imports : List Import) : List Ty → List TypeTree
  | [] => []
  | t :: ts => t.tree imports :: typeTreesOf imports ts

end

/-- The list is rendered type by type. -/
theorem renderTypes_eq_map (imports : List Import) (types : List Ty) :
    renderTypes imports types = types.map (Ty.render imports) := by
  induction types with
  | nil => rfl
  | cons t types ih => rw [renderTypes, ih, List.map_cons]

/-- Its trees are those of its types. -/
theorem typeTreesOf_eq_map (imports : List Import) (types : List Ty) :
    typeTreesOf imports types = types.map (Ty.tree imports) := by
  induction types with
  | nil => rfl
  | cons t types ih => rw [typeTreesOf, ih, List.map_cons]

/-! ## Texts and their tokens -/

/-- The text falls into the tokens, wherever no word goes on behind it. -/
def FallsInto (text : String) (ts : List Token) : Prop :=
  ∀ rest : List Char, (∀ c ∈ rest.head?, continuesWord c = false) →
    lexType (text.toList ++ rest) = ts ++ lexType rest

/-- A name is one word, also before a character no word goes on with. -/
theorem fallsInto_word {w : String} (h : isName w = true) : FallsInto w [.word w] :=
  fun _ hr => lexType_word h hr

theorem fallsInto_empty : FallsInto "" [] := fun _ _ => rfl

namespace FallsInto

variable {m s t : String} {ts us : List Token}

/-- A mark is a token of its own, whatever the text behind it. -/
theorem behind_mark (hm : m ∈ typeMarks) (h : FallsInto s ts) :
    FallsInto (m ++ s) (.mark m :: ts) := by
  intro rest hr
  rw [String.toList_append, List.append_assoc, lexType_mark hm, h rest hr, List.cons_append]

/-- A blank before a text is no token. -/
theorem behind_blank (h : FallsInto s ts) : FallsInto (" " ++ s) ts := by
  intro rest hr
  rw [String.toList_append, List.append_assoc, ← h rest hr]
  exact lexType_blank _

/-- A blank or a mark ends the word before it. -/
theorem append (hm : m ∈ " " :: typeMarks) (hs : FallsInto s ts) (ht : FallsInto (m ++ t) us) :
    FallsInto (s ++ (m ++ t)) (ts ++ us) := by
  have hall : ∀ m ∈ " " :: typeMarks, m.toList.head?.any (!continuesWord ·) = true := by
    decide +kernel
  obtain ⟨d, hhead, hd⟩ := (Option.any_eq_true _ _).mp (hall m hm)
  obtain ⟨ds, hds⟩ := List.head?_eq_some_iff.mp hhead
  intro rest hr
  have hstop : ∀ c ∈ ((m ++ t).toList ++ rest).head?, continuesWord c = false := by
    intro c hc
    rw [String.toList_append, hds] at hc
    obtain rfl : d = c := Option.some.inj hc
    simpa using hd
  rw [String.toList_append, List.append_assoc, hs _ hstop, ht rest hr, List.append_assoc]

/-- A mark between two texts keeps their tokens apart, so each side can be read alone. -/
theorem append_mark (hm : m ∈ typeMarks) (hs : FallsInto s ts) (ht : FallsInto t us) :
    FallsInto (s ++ (m ++ t)) (ts ++ .mark m :: us) :=
  hs.append (List.mem_cons_of_mem _ hm) (ht.behind_mark hm)

theorem before_mark (hm : m ∈ typeMarks) (hs : FallsInto s ts) :
    FallsInto (s ++ m) (ts ++ [.mark m]) := by
  have h := hs.append_mark hm fallsInto_empty
  rwa [String.append_empty] at h

/-- Two texts with a comma between them. -/
theorem comma (hs : FallsInto s ts) (ht : FallsInto t us) :
    FallsInto (s ++ ", " ++ t) (ts ++ .mark "," :: us) := by
  have htext : s ++ ", " ++ t = s ++ ("," ++ (" " ++ t)) := by
    rw [show ", " = "," ++ " " by decide]
    simp only [String.append_assoc]
  rw [htext]
  exact hs.append_mark (by decide) ht.behind_blank

theorem brackets (hs : FallsInto s ts) :
    FallsInto (s ++ "[]") (ts ++ [.mark "[", .mark "]"]) := by
  rw [show "[]" = "[" ++ "]" by decide, ← String.append_assoc]
  simpa using (hs.before_mark (m := "[") (by decide)).before_mark (m := "]") (by decide)

theorem parameter {w : String} (hw : isName w = true) (hs : FallsInto s ts) :
    FallsInto (w ++ ": " ++ s) (.word w :: .mark ":" :: ts) := by
  have htext : w ++ ": " ++ s = w ++ (":" ++ (" " ++ s)) := by
    rw [show ": " = ":" ++ " " by decide]
    simp only [String.append_assoc]
  rw [htext]
  exact (fallsInto_word hw).append_mark (by decide) hs.behind_blank

/-- An arrow from the text of its parameters, read up to the closing bracket, and that of its
result. -/
theorem arrow (hs : FallsInto (s ++ ")") ts) (ht : FallsInto t us) :
    FallsInto ("(" ++ s ++ ") => " ++ t) (.mark "(" :: ts ++ .mark "=>" :: us) := by
  have htext : "(" ++ s ++ ") => " ++ t = "(" ++ ((s ++ ")") ++ (" " ++ ("=>" ++ (" " ++ t)))) := by
    rw [show ") => " = ")" ++ (" " ++ ("=>" ++ " ")) by decide]
    simp only [String.append_assoc]
  rw [htext]
  refine behind_mark (by decide) (hs.append (by decide) ?_)
  exact (ht.behind_blank.behind_mark (by decide)).behind_blank

end FallsInto

/-! ## Texts that stand for a type -/

/-- The text falls into tokens that spell the type. -/
def TypeText (text : String) (t : TypeTree) : Prop := ∃ ts, FallsInto text ts ∧ SpellsType ts t

/-- The text stands for a type, also if `[]` follows. -/
def OperandText (text : String) (t : TypeTree) : Prop :=
  ∃ ts, FallsInto text ts ∧ SpellsOperand ts t

/-- On its own, with nothing behind it, it spells that type. -/
theorem TypeText.spells {text : String} {t : TypeTree} (h : TypeText text t) : Spells text t := by
  obtain ⟨ts, hts, ht⟩ := h
  have hlex := hts [] (by simp)
  rw [List.append_nil, lexType, List.append_nil] at hlex
  rwa [Spells, hlex]

/-- An operand is a type without brackets around it. -/
theorem OperandText.typeText {text : String} {t : TypeTree} (h : OperandText text t) :
    TypeText text t := by
  obtain ⟨ts, hts, ht⟩ := h
  exact ⟨ts, hts, .operand ht⟩

theorem operandText_name {w : String} (h : isName w = true) : OperandText w (.named [w] []) :=
  ⟨_, fallsInto_word h, .name w []⟩

theorem OperandText.array {text : String} {t : TypeTree} (h : OperandText text t) :
    OperandText (text ++ "[]") (.array t) := by
  obtain ⟨ts, hts, ht⟩ := h
  exact ⟨_, hts.brackets, .array ht⟩

/-- Any type in brackets is an operand. -/
theorem TypeText.group {text : String} {t : TypeTree} (h : TypeText text t) :
    OperandText ("(" ++ text ++ ")") t := by
  obtain ⟨ts, hts, ht⟩ := h
  exact ⟨_, (hts.behind_mark (by decide)).before_mark (by decide), .group ht⟩

section

variable {α : Type} {f : α → String} {g : α → TypeTree} {items : List α}

/-- Types between the angle brackets, with commas: one token list for all of them. -/
theorem exists_fallsInto_args (hne : items ≠ []) (h : ∀ a ∈ items, TypeText (f a) (g a)) :
    ∃ ts, FallsInto (Text.join ", " (items.map f) ++ ">") ts ∧ SpellsArgs ts (items.map g) := by
  induction items with
  | nil => exact absurd rfl hne
  | cons a items ih =>
    obtain ⟨ts, hts, ht⟩ := h a List.mem_cons_self
    cases items with
    | nil => exact ⟨_, hts.before_mark (by decide), .last ht⟩
    | cons b items =>
      obtain ⟨us, hus, hargs⟩ := ih (List.cons_ne_nil b items)
        fun c hc => h c (List.mem_cons_of_mem a hc)
      refine ⟨_, ?_, .more ht hargs⟩
      show FallsInto (f a ++ ", " ++ Text.join ", " ((b :: items).map f) ++ ">") _
      rw [String.append_assoc]
      exact hts.comma hus

/-- Parameters with their types and the closing bracket, in the same way. -/
theorem exists_fallsInto_params {n : α → String} (hn : ∀ a ∈ items, isName (n a) = true)
    (h : ∀ a ∈ items, TypeText (f a) (g a)) :
    ∃ ts, FallsInto (Text.join ", " (items.map fun a => n a ++ ": " ++ f a) ++ ")") ts ∧
      SpellsParams ts (items.map fun a => (n a, g a)) := by
  induction items with
  | nil => exact ⟨_, fallsInto_empty.before_mark (by decide), .none⟩
  | cons a items ih =>
    obtain ⟨ts, hts, ht⟩ := h a List.mem_cons_self
    have hparam := hts.parameter (hn a List.mem_cons_self)
    cases items with
    | nil => exact ⟨_, hparam.before_mark (by decide), .last (n a) ht⟩
    | cons b items =>
      obtain ⟨us, hus, hparams⟩ := ih (fun c hc => hn c (List.mem_cons_of_mem a hc))
        fun c hc => h c (List.mem_cons_of_mem a hc)
      refine ⟨_, ?_, .more (n a) ht hparams⟩
      show FallsInto (n a ++ ": " ++ f a ++ ", "
        ++ Text.join ", " ((b :: items).map fun a => n a ++ ": " ++ f a) ++ ")") _
      rw [String.append_assoc]
      exact hparam.comma hus

/-- The arrow of such parameters and of a result is a type's text. -/
theorem TypeText.arrow {n : α → String} (hn : ∀ a ∈ items, isName (n a) = true)
    (h : ∀ a ∈ items, TypeText (f a) (g a)) {s : String} {r : TypeTree} (hresult : TypeText s r) :
    TypeText ("(" ++ Text.join ", " (items.map fun a => n a ++ ": " ++ f a) ++ ") => " ++ s)
      (.arrow (items.map fun a => (n a, g a)) r) := by
  obtain ⟨ps, hps, hparams⟩ := exists_fallsInto_params hn h
  obtain ⟨ts, hts, hr⟩ := hresult
  exact ⟨_, hps.arrow hts, .arrow hparams hr⟩

end

/-! ## Types -/

/-- The path of a type falls into its names, with dots between them. -/
theorem exists_fallsInto_path (imports : List Import) {name : String} (h : isName name = true) :
    ∃ ws, typePath imports name = name :: ws ∧
      FallsInto (qualifiedType imports name) (.word name :: memberTokens ws) := by
  unfold typePath qualifiedType
  split
  · refine ⟨[name], rfl, ?_⟩
    rw [String.append_assoc]
    exact (fallsInto_word h).append_mark (by decide) (fallsInto_word h)
  · exact ⟨[], rfl, fallsInto_word h⟩

/-- A type with a name of its own is its path, with the arguments that it has in angle brackets. -/
theorem operandText_fixed (imports : List Import) {name : String} {args : List Ty}
    (h : isName name = true)
    (hargs : ∀ t ∈ args, TypeText (t.render imports) (t.tree imports)) :
    OperandText (qualifiedType imports name ++ typeParams (renderTypes imports args))
      (.named (typePath imports name) (typeTreesOf imports args)) := by
  obtain ⟨ws, hpath, hname⟩ := exists_fallsInto_path imports h
  rw [hpath, renderTypes_eq_map, typeTreesOf_eq_map, typeParams]
  cases args with
  | nil =>
    refine ⟨_, ?_, .name name ws⟩
    simpa using hname
  | cons t args =>
    obtain ⟨ts, hts, ht⟩ := exists_fallsInto_args (List.cons_ne_nil t args) hargs
    refine ⟨_, ?_, .applied name ws ht⟩
    rw [if_neg (by simp), String.append_assoc]
    exact hname.append_mark (by decide) hts

/-- The names the printer gives to the parameters of a function type are names. -/
theorem isName_argument (i : Nat) : isName ("arg" ++ toString i) = true := by
  have harg : startsWord 'a' = true ∧ continuesWord 'r' = true ∧ continuesWord 'g' = true := by
    decide +kernel
  have hdigits : (Nat.toDigits 10 i).all continuesWord = true := by
    rw [List.all_eq_true]
    exact fun c hc =>
      continuesWord_of_isDigit (Nat.isDigit_of_mem_toDigits (by decide) (by decide) hc)
  simp [isName, harg, hdigits]

/-- A function type is the arrow of its last argument, the others being the parameters. -/
theorem typeText_function (imports : List Import) {args : List Ty}
    (hargs : ∀ t ∈ args, TypeText (t.render imports) (t.tree imports)) :
    TypeText (arrowType (renderTypes imports args)) (arrowTree (typeTreesOf imports args)) := by
  rw [renderTypes_eq_map, typeTreesOf_eq_map]
  rcases List.eq_nil_or_concat args with rfl | ⟨init, last, rfl⟩
  · have htext : "() => void" = "(" ++ "" ++ ") => " ++ "void" := by decide
    obtain ⟨ts, hts, ht⟩ := (operandText_name (w := "void") (by decide +kernel)).typeText
    refine ⟨_, ?_, .arrow .none ht⟩
    show FallsInto "() => void" _
    rw [htext]
    exact FallsInto.arrow (fallsInto_empty.before_mark (by decide)) hts
  · rw [List.concat_eq_append] at hargs ⊢
    have harrow := TypeText.arrow
      (fun (p : Ty × Nat) (_ : p ∈ init.zipIdx) => isName_argument p.2)
      (fun p hp => hargs p.1 (List.mem_append_left _ (List.fst_mem_of_mem_zipIdx hp)))
      (hargs last (by simp))
    simpa [arrowType, arrowTree, List.mapIdx_eq_zipIdx_map, List.zipIdx_map, Function.comp_def]
      using harrow

/-- The text of a type stands for the type, and can be an operand unless the type is a function
type. -/
structure Ty.Rendered (imports : List Import) (t : Ty) : Prop where
  type : TypeText (t.render imports) (t.tree imports)
  operand : t.isFunction = false → OperandText (t.render imports) (t.tree imports)

section

variable {imports : List Import} {t : Ty}

/-- What holds of an operand gives both places a type stands in: alone, and before brackets. -/
theorem Ty.Rendered.of_operand (h : OperandText (t.render imports) (t.tree imports)) :
    t.Rendered imports :=
  ⟨h.typeText, fun _ => h⟩

/-- The one place with brackets. -/
theorem Ty.Rendered.list (h : t.Rendered imports) :
    OperandText
      ((if t.isFunction then "(" ++ t.render imports ++ ")" else t.render imports) ++ "[]")
      (.array (t.tree imports)) := by
  refine .array ?_
  split
  next => exact h.type.group
  next hf => exact h.operand (by simpa using hf)

/-- Every type of identifier names is rendered as its tree, by induction on the type. -/
theorem Ty.Spelled.rendered (h : t.Spelled) : t.Rendered imports := by
  induction h with
  | absent => exact .of_operand (operandText_name (w := "any") (by decide +kernel))
  | generic h => exact .of_operand (operandText_name h)
  | @fixed name args h _ ih =>
    -- no name stands for a function type; the cases are those of the renderer
    refine .of_operand ?_
    generalize ht : Ty.fixed name args = t
    fun_cases Ty.render imports t
    case case3 => exact operandText_name (by decide +kernel)
    case case4 => exact operandText_name (by decide +kernel)
    case case5 => exact operandText_name (by decide +kernel)
    case case6 item _ =>
      cases ht
      rw [Ty.tree]
      exact (ih item List.mem_cons_self).list
    case case7 hne =>
      rw [Ty.tree]
      · exact (operandText_name (w := "any") (by decide +kernel)).array
      · exact hne
    case case8 =>
      cases ht
      rw [Ty.tree]
      · exact operandText_fixed imports h fun t ht => (ih t ht).type
      all_goals assumption
    all_goals cases ht
  | function _ ih => exact ⟨typeText_function imports fun t ht => (ih t ht).type, by rintro ⟨⟩⟩

end

/-- **The text of a type is read as that type**, and has no other reading. -/
theorem Ty.spells_render (imports : List Import) {t : Ty} (h : t.Spelled) :
    readTypeText? (t.render imports) = some (t.tree imports) ∧
      ∀ u, Spells (t.render imports) u ↔ u = t.tree imports := by
  have hspells : Spells (t.render imports) (t.tree imports) := h.rendered.type.spells
  refine ⟨hspells.readTypeText?, fun u => ⟨fun hu => hu.unique hspells, ?_⟩⟩
  rintro rfl
  exact hspells

/-- A list of functions from a qualified type to lists. -/
theorem Ty.spells_render_nested :
    let maybe : Import := { name := "\"./Maybe\"", asName := "Maybe" }
    let t : Ty := .fixed "List"
      [.function [.fixed "Maybe" [.fixed "Maybe" [.generic "a"]], .fixed "List" [.generic "b"]]]
    t.render [maybe] = "((arg0: Maybe.Maybe<Maybe.Maybe<a>>) => b[])[]" ∧
      ∀ u, Spells "((arg0: Maybe.Maybe<Maybe.Maybe<a>>) => b[])[]" u ↔
        u = .array (.arrow
          [("arg0", .named ["Maybe", "Maybe"] [.named ["Maybe", "Maybe"] [.named ["a"] []]])]
          (.array (.named ["b"] []))) := by
  intro maybe t
  have htext : t.render [maybe] = "((arg0: Maybe.Maybe<Maybe.Maybe<a>>) => b[])[]" := by
    decide +kernel
  have hname : ∀ w ∈ ["List", "Maybe", "a", "b"], isName w = true := by decide +kernel
  have hspelled : t.Spelled := by
    refine .fixed (hname _ (by decide)) (List.forall_mem_singleton.mpr (.function ?_))
    refine List.forall_mem_cons.mpr ⟨?_, List.forall_mem_singleton.mpr ?_⟩
    · refine .fixed (hname _ (by decide)) (List.forall_mem_singleton.mpr ?_)
      refine .fixed (hname _ (by decide)) (List.forall_mem_singleton.mpr ?_)
      exact .generic (hname _ (by decide))
    · refine .fixed (hname _ (by decide)) (List.forall_mem_singleton.mpr ?_)
      exact .generic (hname _ (by decide))
  refine ⟨htext, ?_⟩
  have h := (spells_render [maybe] hspelled).2
  rw [htext] at h
  exact h

end Derw
