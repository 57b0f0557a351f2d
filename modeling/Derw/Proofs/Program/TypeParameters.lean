import Derw.Proofs.Program.Bindings
import Derw.Proofs.Type.Harvest

/-!
# Proofs/Program/TypeParameters — where type parameters are introduced

The text of a typed program is made of pieces (`Item.pieces`). Some introduce type parameters, some
use one, and the rest is plain. An item is closed if it introduces what it uses (`Closed`), apart
from the names of concrete types.

A function harvests its parameters from all types of its head, and so does a tag from its fields. A
union and an alias have those of the declared head, which is enough if that lists what the fields
use. A constant introduces nothing, so a type parameter in its type stays free.
-/

namespace Derw.Script

/-! ## Pieces -/

/-- A piece of the text of an item. -/
inductive Piece
  | plain (text : String)
  /-- The list `<a, b>` behind the name that an item declares. -/
  | introduces (names : List String)
  | uses (name : String)
  deriving DecidableEq

/-- The text of a piece, whether it is plain, a use or a parameter list. -/
def Piece.print : Piece → String
  | plain text => text
  | introduces names => typeParams names
  | uses name => name

/-- The text that pieces make up. -/
def textOf (ps : List Piece) : String := String.join (ps.map Piece.print)

/-- Pieces with a text between them. -/
def separated (sep : String) : List (List Piece) → List Piece
  | [] => []
  | [ps] => ps
  | ps :: pss => ps ++ .plain sep :: separated sep pss

/-- The type parameters that the pieces use are introduced in them. -/
def Closed (ps : List Piece) : Prop :=
  ∀ name, .uses name ∈ ps → name ∉ builtinTypeNames →
    ∃ names, .introduces names ∈ ps ∧ name ∈ names

/-- The pieces introduce nothing, and use only the type parameters given. -/
def UsesOnly (names : List String) (ps : List Piece) : Prop :=
  ∀ p ∈ ps, (∃ text, p = .plain text) ∨ ∃ name ∈ names, p = .uses name

theorem textOf_cons (p : Piece) (ps : List Piece) : textOf (p :: ps) = p.print ++ textOf ps := by
  rw [textOf, List.map_cons, String.join_cons]
  rfl

theorem textOf_append (ps qs : List Piece) : textOf (ps ++ qs) = textOf ps ++ textOf qs := by
  rw [textOf, List.map_append, String.join_append]
  rfl

theorem textOf_singleton (p : Piece) : textOf [p] = p.print := by
  rw [textOf_cons]
  exact String.append_empty

/-- The text of pieces is that of one list after another. -/
theorem textOf_flatMap {α : Type} (f : α → List Piece) (xs : List α) :
    textOf (xs.flatMap f) = String.join (xs.map fun x => textOf (f x)) := by
  induction xs with
  | nil => rfl
  | cons x xs ih => rw [List.flatMap_cons, textOf_append, ih, List.map_cons, String.join_cons]

theorem textOf_separated (sep : String) (pss : List (List Piece)) :
    textOf (separated sep pss) = Text.join sep (pss.map textOf) := by
  induction pss with
  | nil => rfl
  | cons ps pss ih =>
    cases pss with
    | nil => rfl
    | cons qs pss =>
      rw [separated, textOf_append, textOf_cons, ih, ← String.append_assoc]
      · rfl
      · simp

namespace UsesOnly

variable {names : List String} {ps qs : List Piece}

theorem nil : UsesOnly names [] := nofun

theorem plain (text : String) (h : UsesOnly names ps) : UsesOnly names (.plain text :: ps) :=
  List.forall_mem_cons.mpr ⟨.inl ⟨text, rfl⟩, h⟩

theorem uses {name : String} (h : name ∈ names) : UsesOnly names [.uses name] :=
  List.forall_mem_singleton.mpr (.inr ⟨name, h, rfl⟩)

theorem append (hps : UsesOnly names ps) (hqs : UsesOnly names qs) : UsesOnly names (ps ++ qs) :=
  List.forall_mem_append.mpr ⟨hps, hqs⟩

/-- More names allow more uses. -/
theorem mono {more : List String} (h : UsesOnly names ps) (hmore : names ⊆ more) :
    UsesOnly more ps := by
  intro p hp
  obtain htext | ⟨name, hname, rfl⟩ := h p hp
  · exact .inl htext
  · exact .inr ⟨name, hmore hname, rfl⟩

theorem separated (sep : String) {pss : List (List Piece)} (h : ∀ ps ∈ pss, UsesOnly names ps) :
    UsesOnly names (separated sep pss) := by
  induction pss with
  | nil => exact nil
  | cons ps pss ih =>
    obtain ⟨hps, hpss⟩ := List.forall_mem_cons.mp h
    cases pss with
    | nil => exact hps
    | cons qs pss => exact hps.append ((ih hpss).plain sep)

theorem mem (h : UsesOnly names ps) {name : String} (hname : .uses name ∈ ps) : name ∈ names := by
  obtain ⟨text, heq⟩ | ⟨name', hmem, heq⟩ := h _ hname
  · cases heq
  · cases heq
    exact hmem

/-- Pieces that use names only introduce none. -/
theorem not_introduces (h : UsesOnly names ps) (list : List String) : .introduces list ∉ ps := by
  intro hlist
  obtain ⟨text, heq⟩ | ⟨name, -, heq⟩ := h _ hlist <;> cases heq

/-- An item introduces a list of type parameters and uses no others, but for concrete types. -/
theorem closed {list : List String} (h : UsesOnly (list ++ builtinTypeNames) ps) (text : String) :
    Closed (.plain text :: .introduces list :: ps) := by
  intro name hname hbuiltin
  have hps : .uses name ∈ ps := by simpa using hname
  exact ⟨list, by simp, (List.mem_append.mp (h.mem hps)).resolve_right hbuiltin⟩

end UsesOnly

/-! ## Types -/

/-- Arguments in angle brackets. -/
def appliedPieces (pss : List (List Piece)) : List Piece :=
  if pss.isEmpty then [] else .plain "<" :: separated ", " pss ++ [.plain ">"]

/-- A function type with the given argument and result types. -/
def arrowPieces (pss : List (List Piece)) : List Piece :=
  match pss.getLast? with
  | none => [.plain "() => void"]
  | some result =>
    let params := pss.dropLast.mapIdx fun i ps => .plain ("arg" ++ toString i ++ ": ") :: ps
    .plain "(" :: separated ", " params ++ .plain ") => " :: result

mutual

/-- The pieces of the text of a type. Arguments that are not written are not used. -/
def typePieces (imports : List Import) : Ty → List Piece
  | .absent => [.plain "any"]
  | .generic name => [.uses name]
  | .fixed "String" _ => [.plain "string"]
  | .fixed "Number" _ => [.plain "number"]
  | .fixed "Bool" _ => [.plain "boolean"]
  | .fixed "List" [item] =>
    let inner := typePieces imports item
    (if item.isFunction then .plain "(" :: inner ++ [.plain ")"] else inner) ++ [.plain "[]"]
  | .fixed "List" _ => [.plain "any[]"]
  | .fixed name args =>
    .plain (qualifiedType imports name) :: appliedPieces (typePiecesOf imports args)
  | .function args => arrowPieces (typePiecesOf imports args)

/-- The pieces of each type of a list. -/
def typePiecesOf (imports : List Import) : List Ty → List (List Piece)
  | [] => []
  | t :: ts => typePieces imports t :: typePiecesOf imports ts

end

/-- Arguments in angle brackets, if there are any. -/
theorem textOf_appliedPieces (pss : List (List Piece)) :
    textOf (appliedPieces pss) = typeParams (pss.map textOf) := by
  rw [appliedPieces, typeParams, List.isEmpty_map]
  split
  · rfl
  · rw [List.cons_append, textOf_cons, textOf_append, textOf_separated, textOf_singleton,
      String.append_assoc]
    rfl

theorem textOf_arrowPieces (pss : List (List Piece)) :
    textOf (arrowPieces pss) = arrowType (pss.map textOf) := by
  rw [arrowPieces, arrowType, List.getLast?_map]
  cases pss.getLast? with
  | none => rfl
  | some result =>
    simp [textOf_cons, textOf_append, textOf_separated, Piece.print, String.append_assoc,
      ← List.map_dropLast, List.mapIdx_eq_zipIdx_map, List.zipIdx_map, Function.comp_def]

mutual

/-- The pieces of a type print as the type, by recursion on it. -/
theorem textOf_typePieces (imports : List Import) :
    ∀ t : Ty, textOf (typePieces imports t) = t.render imports
  | .absent | .generic _ => textOf_singleton _
  | .function args => by
    rw [typePieces, Ty.render, textOf_arrowPieces, map_textOf_typePiecesOf imports args]
  | .fixed name args => by
    -- the cases are those of the renderer
    have ih := map_textOf_typePiecesOf imports args
    generalize ht : Ty.fixed name args = t
    fun_cases typePieces imports t
    case case6 item inner =>
      cases ht
      have hitem : textOf inner = item.render imports := (List.cons.inj ih).1
      rw [Ty.render, ← hitem, textOf_append, textOf_singleton]
      split
      · rw [List.cons_append, textOf_cons, textOf_append, textOf_singleton, ← String.append_assoc]
        rfl
      · rfl
    case case7 hne =>
      rw [Ty.render]
      · exact textOf_singleton _
      · exact hne
    case case8 =>
      cases ht
      rw [Ty.render, textOf_cons, textOf_appliedPieces, ih]
      · rfl
      all_goals assumption
    case case3 | case4 | case5 => exact textOf_singleton _
    all_goals cases ht

theorem map_textOf_typePiecesOf (imports : List Import) :
    ∀ ts : List Ty, (typePiecesOf imports ts).map textOf = renderTypes imports ts
  | [] => rfl
  | t :: ts => by
    rw [typePiecesOf, renderTypes, List.map_cons, textOf_typePieces imports t,
      map_textOf_typePiecesOf imports ts]

end

section

variable {names : List String} {pss : List (List Piece)}

/-- The arguments of a type use what they use alone. -/
theorem UsesOnly.applied (h : ∀ ps ∈ pss, UsesOnly names ps) :
    UsesOnly names (appliedPieces pss) := by
  rw [appliedPieces]
  split
  · exact .nil
  · exact ((UsesOnly.separated ", " h).append (.plain ">" .nil)).plain "<"

theorem UsesOnly.arrow (h : ∀ ps ∈ pss, UsesOnly names ps) : UsesOnly names (arrowPieces pss) := by
  rw [arrowPieces]
  split
  next => exact .plain _ .nil
  next result hresult =>
    have hparams : UsesOnly names (Script.separated ", " (pss.dropLast.mapIdx fun i ps =>
        .plain ("arg" ++ toString i ++ ": ") :: ps)) := by
      refine .separated _ fun ps hps => ?_
      obtain ⟨i, hi, rfl⟩ := List.mem_mapIdx.mp hps
      exact .plain _ (h _ ((List.dropLast_sublist pss).subset (List.getElem_mem hi)))
    exact (hparams.append (.plain _ (h result (List.mem_of_getLast? hresult)))).plain "("

end

mutual

/-- The text of a type uses the type parameters of the type. -/
theorem usesOnly_typePieces (imports : List Import) :
    ∀ t : Ty, UsesOnly t.generics (typePieces imports t)
  | .absent => .plain _ .nil
  | .generic _ => .uses List.mem_cons_self
  | .function args => by
    rw [typePieces]
    exact .arrow (usesOnly_typePiecesOf imports args)
  | .fixed name args => by
    have ih := usesOnly_typePiecesOf imports args
    generalize ht : Ty.fixed name args = t
    fun_cases typePieces imports t
    case case6 item inner =>
      cases ht
      have hitem : UsesOnly (genericsOfAll [item]) inner := ih _ List.mem_cons_self
      refine .append ?_ (.plain _ .nil)
      split
      · exact (hitem.append (.plain _ .nil)).plain _
      · exact hitem
    case case8 =>
      cases ht
      exact .plain _ (.applied ih)
    case case3 | case4 | case5 | case7 => exact .plain _ .nil
    all_goals cases ht

/-- A list of types uses the generics of all its types. -/
theorem usesOnly_typePiecesOf (imports : List Import) :
    ∀ ts : List Ty, ∀ ps ∈ typePiecesOf imports ts, UsesOnly (genericsOfAll ts) ps
  | [], _, h => nomatch h
  | t :: ts, ps, h => by
    obtain rfl | hps := List.mem_cons.mp h
    · exact (usesOnly_typePieces imports t).mono (List.subset_append_left ..)
    · exact (usesOnly_typePiecesOf imports ts ps hps).mono (List.subset_append_right ..)

end

/-! ## Items -/

/-- A name with its type. -/
def typedPieces (imports : List Import) (name : String) (t : Ty) : List Piece :=
  .plain (name ++ ": ") :: typePieces imports t

/-- The type of an object with the given fields. -/
def objectPieces (imports : List Import) (fields : List TypedName) : List Piece :=
  if fields.isEmpty then [.plain "\x7b\x7d"]
  else
    .plain "\x7b " :: separated ", " (fields.map fun f => typedPieces imports f.name f.type)
      ++ [.plain " \x7d"]

/-- A declared type, applied to its type parameters. -/
def TypeName.pieces (t : TypeName) : List Piece :=
  .plain t.name :: appliedPieces (t.generics.map fun name => [.uses name])

/-- The alternatives of a union. -/
def memberPieces (members : List TypeName) : List Piece :=
  if (Text.join " | " (members.map (·.text))).isEmpty then [.plain "never"]
  else separated " | " (members.map (·.pieces))

/-- The pieces of an item, in a program with types. -/
def Item.pieces (s : Style) : Item → List Piece
  | .objectType head tagged fields =>
    .plain ("type " ++ head.name) :: .introduces head.generics
      :: .plain (" = \x7b\n" ++ kindField 1 head tagged ";")
      :: (fields.flatMap fun f =>
        .plain (indentation 1) :: typedPieces s.imports f.name f.type ++ [.plain ";\n"])
      ++ [.plain "\x7d;\n"]
  | .unionType head members =>
    .plain ("type " ++ head.name) :: .introduces head.generics :: .plain " = "
      :: memberPieces members ++ [.plain ";\n"]
  | .constructor head tagged fields =>
    .plain ("function " ++ head.name) :: .introduces head.generics :: .plain "(args: "
      :: objectPieces s.imports fields ++ .plain "): " :: head.pieces ++ [.plain (" \x7b\n" ++
        braces 1 "return" (kindField 2 head tagged "," ++ line 2 "...args,") ";" ++ "\x7d\n")]
  | .statement (.function name params result body) =>
    .plain ("function " ++ name) :: .introduces (genericNames (params.map (·.type) ++ [result]))
      :: .plain "(" :: separated ", " (params.map fun p => typedPieces s.imports p.name p.type)
      ++ .plain "): " :: typePieces s.imports result
      ++ [.plain (" \x7b\n" ++ printStmts s 1 body ++ "\x7d\n")]
  | .statement (.const name type value) =>
    .plain "const " :: typedPieces s.imports name type
      ++ [.plain (" = " ++ value.print s 0 lowest false ++ ";\n")]
  | i => [.plain (i.print s)]

section

variable (imports : List Import)

/-- A typed name prints as the name, a colon and its type. -/
theorem textOf_typedPieces (name : String) (t : Ty) :
    textOf (typedPieces imports name t) = name ++ ": " ++ t.render imports := by
  rw [typedPieces, textOf_cons, textOf_typePieces]
  rfl

/-- The fields of a record, in braces. -/
theorem textOf_objectPieces (fields : List TypedName) :
    textOf (objectPieces imports fields)
      = objectText (fields.map fun f => f.name ++ ": " ++ f.type.render imports) := by
  rw [objectPieces, objectText, List.isEmpty_map]
  split
  · exact textOf_singleton _
  · simp only [List.cons_append, textOf_cons, textOf_append, textOf_separated, List.map_map,
      Function.comp_def, textOf_typedPieces, String.append_assoc]
    rfl

theorem textOf_typeName (t : TypeName) : textOf t.pieces = t.text := by
  rw [TypeName.pieces, textOf_cons, textOf_appliedPieces, List.map_map]
  have hnames : t.generics.map (textOf ∘ fun name => [Piece.uses name]) = t.generics := by
    simp [textOf_singleton, Piece.print, Function.comp_def]
  rw [hnames]
  rfl

/-- The members of a union, with bars between them. -/
theorem textOf_memberPieces (members : List TypeName) :
    textOf (memberPieces members)
      = let union := Text.join " | " (members.map (·.text))
        if union.isEmpty then "never" else union := by
  rw [memberPieces]
  dsimp only
  split
  · exact textOf_singleton _
  · simp only [textOf_separated, List.map_map, Function.comp_def, textOf_typeName]

end

/-- An item begins with the words that declare it, so there are some before the brace. -/
theorem braces_zero {head : String} (h : head ≠ "") (inner tail : String) :
    braces 0 head inner tail = head ++ " \x7b\n" ++ inner ++ "\x7d" ++ tail ++ "\n" := by
  rw [braces, if_neg (by rwa [String.isEmpty_iff]), line_zero, line_zero]
  simp only [String.append_assoc]
  rfl

/-- The pieces of an item make up its text. -/
theorem Item.textOf_pieces {s : Style} (hs : s.typed = true) (i : Item) :
    textOf (i.pieces s) = i.print s := by
  fun_cases Item.pieces s i
  case case1 head tagged fields =>
    rw [Item.print, braces_zero (by simp), Style.fieldTexts, List.map_map]
    simp only [List.cons_append, textOf_cons, textOf_append, textOf_flatMap, textOf_typedPieces,
      Piece.print, TypeName.text, line, Function.comp_def, String.append_assoc]
    rfl
  case case2 head members =>
    rw [Item.print, line_zero, ← textOf_memberPieces]
    simp only [List.cons_append, textOf_cons, textOf_append, Piece.print, TypeName.text,
      String.append_assoc]
    rfl
  case case3 head tagged fields =>
    rw [Item.print, Style.constructorHead, if_pos hs, braces_zero (by simp), Style.fieldTexts,
      ← textOf_objectPieces]
    simp only [List.cons_append, textOf_cons, textOf_append, textOf_typeName, Piece.print,
      TypeName.text, String.append_assoc]
    rfl
  case case4 name params result body =>
    rw [Item.print, Stmt.print, Style.functionHead, if_pos hs, if_pos hs, braces_zero (by simp)]
    simp only [List.cons_append, textOf_cons, textOf_append, textOf_separated, textOf_typePieces,
      textOf_typedPieces, Piece.print, Style.annotated, if_pos hs, List.map_map,
      Function.comp_def, String.append_assoc]
    rfl
  case case5 name type value =>
    rw [Item.print, Stmt.print, Style.annotated, if_pos hs, line_zero, ← textOf_typedPieces]
    simp only [List.cons_append, textOf_cons, textOf_append, Piece.print, String.append_assoc]
    rfl
  case case6 => exact textOf_singleton _

/-! ## Closed items -/

section

variable (imports : List Import)

/-- A field uses generics of its own type, which is one of the item's. -/
theorem usesOnly_typedPieces (name : String) {t : Ty} {ts : List Ty} (h : t ∈ ts) :
    UsesOnly (genericsOfAll ts) (typedPieces imports name t) :=
  ((usesOnly_typePieces imports t).mono fun _ hg => mem_genericsOfAll.mpr ⟨t, h, hg⟩).plain _

theorem usesOnly_objectPieces (fields : List TypedName) :
    UsesOnly (genericsOfAll (fields.map (·.type))) (objectPieces imports fields) := by
  rw [objectPieces]
  split
  · exact .plain _ .nil
  · refine .plain _ (.append (.separated _ ?_) (.plain _ .nil))
    rw [List.forall_mem_map]
    exact fun f hf => usesOnly_typedPieces imports f.name (List.mem_map_of_mem hf)

/-- A type's name uses the generics in it. -/
theorem usesOnly_typeName (t : TypeName) : UsesOnly t.generics t.pieces := by
  refine .plain _ (.applied ?_)
  rw [List.forall_mem_map]
  exact fun _ h => .uses h

end

/-- The harvest of some types leaves out concrete types only. -/
theorem genericsOfAll_subset {ts : List Ty} {list : List String} (h : genericNames ts ⊆ list) :
    genericsOfAll ts ⊆ list ++ builtinTypeNames := by
  intro name hname
  rw [List.mem_append]
  by_cases hbuiltin : name ∈ builtinTypeNames
  · exact .inr hbuiltin
  · exact .inl (h (mem_genericNames.mpr ⟨hname, hbuiltin⟩))

section

variable (s : Style) {head : TypeName} (tagged : Bool) {fields : List TypedName}
  (h : genericNames (fields.map (·.type)) ⊆ head.generics)

include h

/-- A record type introduces what its fields use. -/
theorem closed_objectType : Closed ((Item.objectType head tagged fields).pieces s) := by
  have hfields : UsesOnly (head.generics ++ builtinTypeNames) (fields.flatMap fun f =>
      .plain (indentation 1) :: typedPieces s.imports f.name f.type ++ [.plain ";\n"]) := by
    intro p hp
    obtain ⟨f, hf, hp⟩ := List.mem_flatMap.mp hp
    have hfield := (usesOnly_typedPieces s.imports f.name (List.mem_map_of_mem hf)).mono
      (genericsOfAll_subset h)
    exact (hfield.append (.plain _ .nil)).plain _ p hp
  exact ((hfields.append (.plain _ .nil)).plain _).closed _

/-- A constructor is a function with a parameter list of its own. -/
theorem closed_constructor : Closed ((Item.constructor head tagged fields).pieces s) := by
  have hargs := (usesOnly_objectPieces s.imports fields).mono (genericsOfAll_subset h)
  have hresult := (usesOnly_typeName head).mono (List.subset_append_left _ builtinTypeNames)
  exact (((hargs.append (hresult.plain _)).append (.plain _ .nil)).plain _).closed _

end

/-- A union is closed if its head has the parameters of its members. -/
theorem closed_unionType (s : Style) {head : TypeName} {members : List TypeName}
    (h : ∀ t ∈ members, t.generics ⊆ head.generics) :
    Closed ((Item.unionType head members).pieces s) := by
  have hmembers : UsesOnly (head.generics ++ builtinTypeNames) (memberPieces members) := by
    rw [memberPieces]
    split
    · exact .plain _ .nil
    · refine .separated _ ?_
      rw [List.forall_mem_map]
      exact fun t ht => (usesOnly_typeName t).mono (List.subset_append_of_subset_left _ (h t ht))
  exact ((hmembers.append (.plain _ .nil)).plain _).closed _

/-- A function introduces the generics of its parameters and its result. -/
theorem closed_function (s : Style) (name : String) (params : List Parameter) (result : Ty)
    (body : List Stmt) :
    Closed ((Item.statement (.function name params result body)).pieces s) := by
  have hbound := genericsOfAll_subset
    (List.Subset.refl (genericNames (params.map (·.type) ++ [result])))
  have hparams : ∀ p ∈ params, UsesOnly _ (typedPieces s.imports p.name p.type) := fun p hp =>
    (usesOnly_typedPieces s.imports p.name
      (List.mem_append_left _ (List.mem_map_of_mem hp))).mono hbound
  have hresult := (usesOnly_typePieces s.imports result).mono fun name hname =>
    hbound (mem_genericsOfAll.mpr ⟨result, by simp, hname⟩)
  have hhead := (UsesOnly.separated ", " (List.forall_mem_map.mpr hparams)).append
    (hresult.plain "): ")
  exact ((hhead.append (.plain _ .nil)).plain "(").closed _

/-- Plain text uses nothing. -/
theorem closed_plain (text : String) : Closed [.plain text] := by
  simp [Closed]

/-- A constant introduces nothing. -/
theorem closed_const_iff (s : Style) (name : String) (type : Ty) (value : Term) :
    Closed ((Item.statement (.const name type value)).pieces s) ↔
      ∀ g, .uses g ∈ typePieces s.imports type → g ∈ builtinTypeNames := by
  have huses : ∀ g, .uses g ∈ (Item.statement (.const name type value)).pieces s ↔
      .uses g ∈ typePieces s.imports type := by
    simp [Item.pieces, typedPieces]
  have hnone : ∀ names, .introduces names ∉ (Item.statement (.const name type value)).pieces s := by
    simpa [Item.pieces, typedPieces] using (usesOnly_typePieces s.imports type).not_introduces
  simp [Closed, huses, hnone]

end Derw.Script

namespace Derw

open Script

/-! ## Declarations -/

/-- The head of a type declaration lists the type parameters that the fields use. -/
def TypeHead.Lists (head : TypeHead) (fields : List TypedName) : Prop :=
  ∀ f ∈ fields, f.type.generics ⊆ head.toTy.generics ++ builtinTypeNames

namespace Decl

/-- A type declaration lists the type parameters that it uses; the other declarations need not. -/
def ListsParameters : Decl → Prop
  | union head tags => ∀ t ∈ tags, head.Lists t.fields
  | typeAlias head properties => head.Lists properties
  | _ => True

/-- The pieces of each item of a declaration. -/
def pieces (s : Style) (d : Decl) : List (List Piece) := (itemsOf d).map (Item.pieces s)

/-- The pieces of a declaration print as the declaration, where types are printed. -/
theorem textOf_pieces {s : Style} (hs : s.typed = true) (d : Decl) :
    Text.join "\n" ((d.pieces s).map textOf) = declText s d := by
  have hitem : textOf ∘ Item.pieces s = Item.print s := funext (Item.textOf_pieces hs)
  have hall : (itemsOf d).filter (fun i => s.typed || !i.isType) = itemsOf d := by simp [hs]
  rw [pieces, List.map_map, hitem, declText, hall]

end Decl

/-- What is harvested from the fields is then listed by the head. -/
theorem TypeHead.Lists.subset {head : TypeHead} {fields : List TypedName} (h : head.Lists fields) :
    genericNames (fields.map (·.type)) ⊆ (headType head).generics := by
  intro name hname
  obtain ⟨hused, hbuiltin⟩ := mem_genericNames.mp hname
  obtain ⟨t, ht, hused⟩ := mem_genericsOfAll.mp hused
  obtain ⟨f, hf, rfl⟩ := List.mem_map.mp ht
  have hlisted := (List.mem_append.mp (h f hf hused)).resolve_right hbuiltin
  have hhead : name ∈ genericsOfAll [head.toTy] :=
    mem_genericsOfAll.mpr ⟨_, List.mem_singleton_self _, hlisted⟩
  exact mem_genericNames.mpr ⟨hhead, hbuiltin⟩

namespace Decl

variable (s : Style)

/-- A union's tags may use what its head lists. -/
theorem closed_pieces_union {head : TypeHead} {tags : List Tag}
    (h : ∀ t ∈ tags, head.Lists t.fields) : ∀ ps ∈ (union head tags).pieces s, Closed ps := by
  rw [pieces, List.forall_mem_map, itemsOf, List.forall_mem_append, List.forall_mem_singleton,
    List.forall_mem_flatMap]
  refine ⟨fun t _ => ?_, ?_⟩
  · -- a tag harvests from its own fields
    rw [List.forall_mem_cons, List.forall_mem_singleton]
    exact ⟨closed_objectType s true (List.Subset.refl _),
      closed_constructor s true (List.Subset.refl _)⟩
  · refine closed_unionType s ?_
    rw [List.forall_mem_map]
    exact fun t ht => (h t ht).subset

/-- An alias may use what its head lists. -/
theorem closed_pieces_typeAlias {head : TypeHead} {properties : List TypedName}
    (h : head.Lists properties) : ∀ ps ∈ (typeAlias head properties).pieces s, Closed ps := by
  rw [pieces, List.forall_mem_map, itemsOf, List.forall_mem_cons, List.forall_mem_singleton]
  exact ⟨closed_objectType s false h.subset, closed_constructor s false h.subset⟩

/-- A function needs no such condition. -/
theorem closed_pieces_function (name : String) (params : List Param) (result : Ty)
    (lets : List Decl) (body : Expr) :
    ∀ ps ∈ (function name params result lets body).pieces s, Closed ps := by
  have hitems : itemsOf (function name params result lets body)
      = (lowerDecl 0 (function name params result lets body)).map .statement := rfl
  rw [pieces, List.forall_mem_map, hitems, lowerDecl, List.map_singleton,
    List.forall_mem_singleton]
  exact closed_function s name _ result _

/-- A constant has no parameter list: it is closed only without generics in its type. -/
theorem closed_pieces_const_iff (name : String) (type : Ty) (lets : List Decl) (value : Expr) :
    (∀ ps ∈ (const name type lets value).pieces s, Closed ps) ↔
      ∀ g, .uses g ∈ typePieces s.imports type → g ∈ builtinTypeNames := by
  have hitems : itemsOf (const name type lets value)
      = (lowerDecl 0 (const name type lets value)).map .statement := rfl
  rw [pieces, List.forall_mem_map, hitems, lowerDecl, List.map_singleton,
    List.forall_mem_singleton, closed_const_iff]

/-- The items of a declaration are closed, unless it is a constant with a type parameter. -/
theorem closed_pieces_iff {d : Decl} (h : d.ListsParameters) :
    (∀ ps ∈ d.pieces s, Closed ps) ↔
      ∀ name type lets value, d = const name type lets value →
        ∀ g, .uses g ∈ typePieces s.imports type → g ∈ builtinTypeNames := by
  cases d with
  | const name type lets value =>
    rw [closed_pieces_const_iff]
    exact ⟨fun h _ _ _ _ heq => by cases heq; exact h, fun h => h _ _ _ _ rfl⟩
  | union head tags => exact iff_of_true (closed_pieces_union s h) (by rintro _ _ _ _ ⟨⟩)
  | typeAlias head properties =>
    exact iff_of_true (closed_pieces_typeAlias s h) (by rintro _ _ _ _ ⟨⟩)
  | function name params result lets body =>
    exact iff_of_true (closed_pieces_function s name params result lets body)
      (by rintro _ _ _ _ ⟨⟩)
  | imports _ | exports _ =>
    refine iff_of_true ?_ (by rintro _ _ _ _ ⟨⟩)
    rw [pieces, List.forall_mem_map, itemsOf]
    split
    · exact List.forall_mem_nil _
    · exact List.forall_mem_singleton.mpr (closed_plain _)
  | comment _ | multilineComment _ =>
    exact iff_of_true (List.forall_mem_singleton.mpr (closed_plain _)) (by rintro _ _ _ _ ⟨⟩)

end Decl

/-! ## Programs -/

namespace Module

/-- **Type parameters are introduced where they are used.** If all heads of type declarations list
what their fields use, then each item of the program introduces the type parameters that it uses,
but for the constants: of these, exactly those are closed whose type uses none. -/
theorem closed_compile_iff (m : Module) (h : ∀ d ∈ m.body, d.ListsParameters) :
    let s := styleFor .typeScript m.body
    m.compile .typeScript = Text.join "\n"
        ((m.body.map fun d => Text.join "\n" ((d.pieces s).map textOf)).filter (!·.isEmpty)) ∧
      ∀ d ∈ m.body, (∀ ps ∈ d.pieces s, Closed ps) ↔
        ∀ name type lets value, d = .const name type lets value →
          ∀ g, .uses g ∈ typePieces s.imports type → g ∈ builtinTypeNames := by
  intro s
  refine ⟨?_, fun d hd => d.closed_pieces_iff s (h d hd)⟩
  rw [funext (Decl.textOf_pieces (s := s) rfl)]
  rfl

/-- A union, an alias and a function, each with a type parameter, and a constant without one. -/
theorem closed_compile_maybe :
    let a : Ty := .generic "a"
    let maybe : Decl := .union ⟨"Maybe", [a]⟩ [⟨"Just", [⟨"value", a⟩]⟩, ⟨"Nothing", []⟩]
    let pair : Decl := .typeAlias ⟨"Pair", [a, .generic "b"]⟩
      [⟨"first", a⟩, ⟨"rest", .fixed "List" [.generic "b"]⟩]
    let wrap : Decl := .function "wrap" [⟨some "x", a⟩] (.fixed "Maybe" [a]) [] (.value "x")
    let names : Decl := .const "names" (.fixed "List" [.generic "string"]) [] (.list [])
    let m : Module := ⟨"Main", [maybe, pair, wrap, names], []⟩
    (∀ d ∈ m.body, d.ListsParameters) ∧
      ∀ d ∈ m.body, ∀ ps ∈ d.pieces (styleFor .typeScript m.body), Closed ps := by
  intro a maybe pair wrap names m
  have h : ∀ d ∈ m.body, d.ListsParameters := by
    simp [m, maybe, pair, wrap, names, a, Decl.ListsParameters, TypeHead.Lists, TypeHead.toTy,
      Ty.generics, genericsOfAll]
  refine ⟨h, fun d hd => ((closed_compile_iff m h).2 d hd).mpr ?_⟩
  rintro name type lets value rfl g hg
  obtain ⟨-, rfl, -, -⟩ : _ ∧ type = .fixed "List" [.generic "string"] ∧ _ ∧ _ := by
    simpa [m, maybe, pair, wrap, names] using hd
  have hstring : g = "string" := by
    simpa [Ty.generics, genericsOfAll] using (usesOnly_typePieces _ _).mem hg
  rw [hstring]
  decide

/-- A constant with a type parameter: nothing introduces `a`. -/
theorem not_closed_compile_const :
    let empty : Decl := .const "empty" (.fixed "List" [.generic "a"]) [] (.list [])
    let m : Module := ⟨"Main", [empty], []⟩
    m.compile .typeScript = "const empty: a[] = [ ];\n" ∧
      (∀ d ∈ m.body, d.ListsParameters) ∧
      ¬ ∀ d ∈ m.body, ∀ ps ∈ d.pieces (styleFor .typeScript m.body), Closed ps := by
  intro empty m
  refine ⟨by decide +kernel, List.forall_mem_singleton.mpr trivial, fun h => ?_⟩
  have hbuiltin := (Decl.closed_pieces_const_iff ..).mp (h empty List.mem_cons_self) "a" (by decide)
  exact absurd hbuiltin (by decide)

end Module

end Derw
