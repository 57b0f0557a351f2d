import Derw.Proofs.Block.Joining
import Derw.Proofs.Block.Signature

/-!
# Proofs/Block/Declaration — a declaration is one block

A declaration is written as a signature, a line that starts its definition, and lines that go on
indented. The signature starts a block and the other lines belong to it: the definition has a blank
after its name, so that two words stand before any colon in it and it is no signature of its own
(`Word.signature?_eq_none_of_blank`).

This holds for every name but those that start with `import` or `exposing`. Nothing has to follow
these two keywords, unlike `type`, so each of the first two lines of such a declaration starts a
block of imports or exports.
-/

namespace Derw

namespace Line

/-! ## Definitions -/

theorem eq_of_cutColon {depth : Nat} {cs before after : List Char}
    (h : cutColon depth cs = some (before, after)) : cs = before ++ ':' :: after := by
  induction cs generalizing depth before with
  | nil => cases h
  | cons c cs ih =>
    rw [cutColon] at h
    split at h
    next hc =>
      cases h
      simp_all
    next =>
      obtain ⟨⟨inner, rest⟩, hinner, heq⟩ := Option.map_eq_some_iff.mp h
      cases heq
      rw [ih hinner, List.cons_append]

theorem Word.one_lt_length_words {name : List Char} (hname : Word name) {c : Char}
    (hblank : Text.isBlank c = false) (rest : List Char) :
    1 < (Text.words (name ++ ' ' :: c :: rest)).length := by
  have hsplit : Text.words (name ++ ' ' :: c :: rest)
      = Text.words name ++ Text.words (c :: rest) :=
    Text.wordsWhere_append_separator (by decide) name (c :: rest)
  have hsecond : 0 < (Text.words (c :: rest)).length := by
    obtain ⟨w, ws, hw⟩ := List.exists_cons_of_ne_nil (Text.splitWhere_ne_nil Text.isBlank rest)
    simp [Text.words, Text.wordsWhere, Text.splitWhere, hblank, hw]
  rw [hsplit, hname.words_eq, List.length_append, List.length_singleton]
  omega

/-- There are two words before the first colon. -/
theorem Word.signature?_eq_none_of_blank {name rest : List Char} {c : Char} (hname : Word name)
    (hblank : Text.isBlank c = false) (hcolon : c ≠ ':') :
    signature? (name ++ ' ' :: c :: rest) = none := by
  cases hcut : cutColon 0 (name ++ ' ' :: c :: rest) with
  | none => simp [signature?, hcut]
  | some r =>
    obtain ⟨before, after⟩ := r
    have hstart : name ++ [' ', c] <+: before ++ ':' :: after :=
      ⟨rest, by rw [← eq_of_cutColon hcut]; simp⟩
    have hno : ':' ∉ name ++ [' ', c] := by
      intro hmem
      rcases List.mem_append.mp hmem with hmem | hmem
      · exact (hname.plain _ hmem).2.1 rfl
      · simp [Ne.symm hcolon] at hmem
    obtain ⟨more, rfl⟩ := prefix_of_prefix_append_cons hstart hno
    have hwords := hname.one_lt_length_words hblank more
    simp only [signature?, hcut, Option.bind_eq_bind, Option.bind_some, List.append_assoc,
      List.cons_append, List.nil_append]
    rw [if_neg]
    simp [Nat.ne_of_gt hwords]

/-- The line that starts a definition: a name, its arguments, and a blank before `=`. -/
def definition (name : String) (args : List String) (value : String) : String :=
  name ++ String.join (args.map (" " ++ ·)) ++ " =" ++ value

/-- An argument starts with a character that is neither blank nor a colon. -/
def Argument (arg : String) : Prop := ∃ c ∈ arg.toList.head?, Text.isBlank c = false ∧ c ≠ ':'

theorem exists_toList_definition (name : String) {args : List String} (value : String)
    (hargs : ∀ a ∈ args, Argument a) :
    ∃ c rest, (definition name args value).toList = name.toList ++ ' ' :: c :: rest ∧
      Text.isBlank c = false ∧ c ≠ ':' ∧ '=' ∈ c :: rest := by
  cases args with
  | nil => exact ⟨'=', value.toList, by simp [definition], by decide, by decide, by simp⟩
  | cons a args =>
    obtain ⟨c, hc, hblank, hcolon⟩ := hargs a List.mem_cons_self
    obtain ⟨cs, hcs⟩ := List.head?_eq_some_iff.mp hc
    refine ⟨c, cs ++ (String.join (args.map (" " ++ ·))).toList ++ ' ' :: '=' :: value.toList, ?_,
      hblank, hcolon, by simp⟩
    simp [definition, hcs]

/-! ## Keywords -/

/-- The kind of block that a line starts by the keyword it starts with, if that is one that nothing
has to follow. -/
def keyword? (line : List Char) : Option BlockKind :=
  if "import".toList <+: line then some .imports
  else if "exposing".toList <+: line then some .exports
  else none

theorem not_prefix_of_keyword? {line : List Char} (h : keyword? line = none) :
    ¬"import".toList <+: line ∧ ¬"exposing".toList <+: line := by
  rw [keyword?] at h
  split at h
  next => cases h
  next himport =>
    split at h
    next => cases h
    next hexposing => exact ⟨himport, hexposing⟩

end Line

/-- A line keeps the keyword that its first word starts with. -/
theorem classify_of_keyword {line : String} {name rest : List Char} {k : BlockKind}
    (h : Line.keyword? name = some k) (hline : line.toList = name ++ rest) :
    classify line = some (.starts k) ∧ k ≠ .multilineComment := by
  rw [Line.keyword?] at h
  rw [classify, hline]
  split at h
  next himport =>
    cases h
    obtain ⟨more, rfl⟩ := himport
    exact ⟨rfl, by rintro ⟨⟩⟩
  next =>
    split at h
    next hexposing =>
      cases h
      obtain ⟨more, rfl⟩ := hexposing
      exact ⟨rfl, by rintro ⟨⟩⟩
    next => cases h

theorem classify_of_indented {line : String}
    (h : " ".toList <+: line.toList ∨ "\t".toList <+: line.toList) :
    classify line = some .indent := by
  rcases h with ⟨rest, hrest⟩ | ⟨rest, hrest⟩ <;>
  · rw [classify, ← hrest]
    rfl

/-! ## Blocks -/

theorem squeeze_eq_self {ls : List String} (h : ∀ l ∈ ls, Text.isBlankLine l = false) :
    squeeze ls = ls := by
  induction ls with
  | nil => rfl
  | cons l ls ih =>
    obtain ⟨hl, hls⟩ := List.forall_mem_cons.mp h
    rw [squeeze_cons_of_not_blank hl, ih hls]

/-- A line that starts a block, and lines that belong to it, none of them blank. -/
theorem Block.fills_of_transient {first : String} {body rest : List String} {k : BlockKind}
    {n : Int} (hfirst : Text.isBlankLine first = false) (hk : classify first = some (.starts k))
    (hne : k ≠ .multilineComment)
    (hbody : ∀ l ∈ body, Text.isBlankLine l = false ∧ Transient l) :
    Block.Fills ⟨k, n, first :: body⟩ first body rest where
  first_not_blank := hfirst
  kind_of_starts k' hk' := by
    rw [hk] at hk'
    cases hk'
    rfl
  kind_of_transient h := by
    rcases h with h | h | h <;> rw [hk] at h <;> cases h
  comment h := absurd h hne
  other _ := by
    have hall : ∀ l ∈ first :: body, Text.isBlankLine l = false :=
      List.forall_mem_cons.mpr ⟨hfirst, fun l hl => (hbody l hl).1⟩
    exact ⟨(squeeze_eq_self hall).symm, fun l hl => hall l (List.mem_of_getLast? hl),
      fun l hl _ => (hbody l hl).2⟩

theorem Line.Word.isBlankLine_eq {name rest : List Char} {line : String} (hname : Word name)
    (hline : line.toList = name ++ rest) : Text.isBlankLine line = false := by
  obtain ⟨c, cs, rfl⟩ := List.exists_cons_of_ne_nil hname.ne_nil
  simp [Text.isBlankLine, hline, (hname.plain c List.mem_cons_self).1]

/-- A line that starts a block takes its place before the blocks of the rest. -/
theorem Segmented.cons {n : Nat} {before : Option Block} {first : String} {body rest : List String}
    {k : BlockKind} {bs : List Block} (hfirst : Text.isBlankLine first = false)
    (hk : classify first = some (.starts k)) (hne : k ≠ .multilineComment)
    (hbody : ∀ l ∈ body, Text.isBlankLine l = false ∧ Transient l)
    (hrest : Segmented (n + (body.length + 1)) (some ⟨k, n, first :: body⟩) rest bs) :
    Segmented n before (first :: (body ++ rest)) (⟨k, n, first :: body⟩ :: bs) := by
  have hstart : ∀ p ∈ before, Transient first → p.IsClosedComment := by
    rintro p - (h | h) <;> rw [hk] at h <;> cases h
  show Segmented n before ([] ++ first :: (body ++ rest)) _
  exact .block (fun l hl => absurd hl List.not_mem_nil) rfl
    (Block.fills_of_transient hfirst hk hne hbody) hstart hrest

/-- The last block. -/
theorem segmented_singleton (n : Nat) (before : Option Block) {first : String} {body : List String}
    {k : BlockKind} (hfirst : Text.isBlankLine first = false)
    (hk : classify first = some (.starts k)) (hne : k ≠ .multilineComment)
    (hbody : ∀ l ∈ body, Text.isBlankLine l = false ∧ Transient l) :
    Segmented n before (first :: body) [⟨k, n, first :: body⟩] := by
  have h : Segmented n before (first :: (body ++ [])) [⟨k, n, first :: body⟩] :=
    .cons hfirst hk hne hbody (.done fun _ hl => absurd hl List.not_mem_nil)
  rwa [List.append_nil] at h

/-! ## Declarations -/

section

variable {name type value : String} {args : List String} (hname : Line.Word name.toList)
  (hkey : Line.keyword? name.toList = none)
include hname hkey

theorem classify_typed (htype : Line.Grouped type.toList) :
    classify (name ++ ": " ++ type)
      = some (.starts (if "->".toList <:+: type.toList then .function else .const)) := by
  obtain ⟨himport, hexposing⟩ := Line.not_prefix_of_keyword? hkey
  have hline : (name ++ ": " ++ type).toList = name.toList ++ ':' :: ' ' :: type.toList := by simp
  have hsig : Line.signature? (name ++ ": " ++ type).toList = some (' ' :: type.toList) := by
    rw [hline, hname.signature?_eq (.char rfl rfl (by decide) htype)]
  have harrow : "->".toList <:+: ' ' :: type.toList ↔ "->".toList <:+: type.toList := by
    rw [List.infix_cons_iff, or_iff_right]
    exact fun h => absurd (List.cons_prefix_cons.mp h).1 (by decide)
  rw [classify_of_signature hname himport hexposing (.inl rfl) hline hsig,
    if_congr harrow rfl rfl]

theorem classify_definition (hne : name ≠ "type") (hargs : ∀ a ∈ args, Line.Argument a) :
    classify (Line.definition name args value) = some .definition := by
  obtain ⟨himport, hexposing⟩ := Line.not_prefix_of_keyword? hkey
  obtain ⟨c, rest, hline, hblank, hcolon, heq⟩ := Line.exists_toList_definition name value hargs
  have hsig : Line.signature? (Line.definition name args value).toList = none := by
    rw [hline, hname.signature?_eq_none_of_blank hblank hcolon]
  have hparts : Line.Parts name.toList ' ' := .inr ⟨rfl, fun h => hne (String.toList_inj.mp h)⟩
  rw [classify_of_no_signature hname himport hexposing hparts hline hsig, if_pos]
  rw [hline]
  exact List.mem_append_right _ (List.mem_cons_of_mem _ heq)

end

/-- **A declaration is one block**, that of a function if its type has an arrow and that of a
constant otherwise, unless its name starts with a keyword that nothing has to follow; its first two
lines are in different blocks then. -/
theorem blocksOf_declaration (text name type value : String) (args more : List String)
    (hname : Line.Word name.toList) (hne : name ≠ "type") (htype : Line.Grouped type.toList)
    (hargs : ∀ a ∈ args, Line.Argument a)
    (hmore : ∀ l ∈ more, Text.isBlankLine l = false ∧
      (" ".toList <+: l.toList ∨ "\t".toList <+: l.toList))
    (htext : linesOf text = (name ++ ": " ++ type) :: Line.definition name args value :: more) :
    blocksOf text = match Line.keyword? name.toList with
      | none => [⟨if "->".toList <:+: type.toList then .function else .const, 0,
          (name ++ ": " ++ type) :: Line.definition name args value :: more⟩]
      | some k => [⟨k, 0, [name ++ ": " ++ type]⟩,
          ⟨k, 1, Line.definition name args value :: more⟩] := by
  have hsig : (name ++ ": " ++ type).toList = name.toList ++ (": ".toList ++ type.toList) := by simp
  obtain ⟨c, rest, hdef, -⟩ := Line.exists_toList_definition name value hargs
  have hbelow : ∀ l ∈ more, Text.isBlankLine l = false ∧ Transient l := fun l hl =>
    ⟨(hmore l hl).1, .inl (classify_of_indented (hmore l hl).2)⟩
  rw [eq_comm, ← segmented_iff, htext]
  cases hkey : Line.keyword? name.toList with
  | none =>
    have hbody := List.forall_mem_cons.mpr ⟨⟨hname.isBlankLine_eq hdef,
      .inr (classify_definition hname hkey hne hargs)⟩, hbelow⟩
    exact segmented_singleton 0 none (hname.isBlankLine_eq hsig) (classify_typed hname hkey htype)
      (by split <;> rintro ⟨⟩) hbody
  | some k =>
    obtain ⟨hfirst, hk⟩ := classify_of_keyword hkey hsig
    obtain ⟨hsecond, -⟩ := classify_of_keyword hkey hdef
    exact .cons (hname.isBlankLine_eq hsig) hfirst hk (fun _ hl => absurd hl List.not_mem_nil)
      (segmented_singleton 1 _ (hname.isBlankLine_eq hdef) hsecond hk hbelow)

/-- A name that starts like a keyword, colons in the type and in the value, and lines that end in a
carriage return. -/
theorem blocksOf_declaration_typed :
    blocksOf "typed: \x7b a: b \x7d -> c\r\ntyped x y = x : y\r\n\t: 2"
      = [⟨.function, 0, ["typed: \x7b a: b \x7d -> c", "typed x y = x : y", "\t: 2"]⟩] := by
  have hname : Line.Word "typed".toList := by decide +kernel
  have hargs : ∀ a ∈ ["x", "y"], Line.Argument a := by
    simp only [List.forall_mem_cons]
    exact ⟨⟨'x', rfl, by decide, by decide⟩, ⟨'y', rfl, by decide, by decide⟩, by simp⟩
  exact blocksOf_declaration _ "typed" "\x7b a: b \x7d -> c" " x : y" ["x", "y"] ["\t: 2"] hname
    (by decide) (by decide +kernel) hargs (by decide +kernel) (by decide +kernel)

/-- `importance` is not a keyword, but its declaration falls apart into two blocks of imports. -/
theorem blocksOf_declaration_importance :
    Line.Word "importance".toList ∧ "importance" ∉ ["type", "import", "exposing"] ∧
      linesOf "importance: number\nimportance =\n    1"
        = ["importance: number", Line.definition "importance" [] "", "    1"] ∧
      blocksOf "importance: number\nimportance =\n    1"
        = [⟨.imports, 0, ["importance: number"]⟩, ⟨.imports, 1, ["importance =", "    1"]⟩] ∧
      blocksOf "importance: number\nimportance =\n    1"
        ≠ [⟨.const, 0, ["importance: number", "importance =", "    1"]⟩] := by
  decide +kernel

end Derw
