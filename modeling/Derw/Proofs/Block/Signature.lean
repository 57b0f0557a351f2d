import Derw.Block.Line
import Derw.Proofs.Text.Cut
import Mathlib.Data.List.Infix

/-!
# Proofs/Block/Signature — signature lines, and the brackets in them

A signature is a word, a colon and a type. A colon in brackets is part of the type, whatever the
brackets hold, so the colon that counts is found by a scanner that counts open brackets. `Grouped`
says which texts have no colon for it: those made of characters and of groups, a group being any
text in which the brackets are balanced. The scanner passes over such a text and is left at the
depth it had (`Passes`), by induction on how the text is made.

What else a line may be is told by how it starts (`openings`), and a word followed by a colon or a
blank starts like none of these unless it starts with a keyword (`Word.no_opening`).
-/

namespace Derw.Line

/-! ## Groups -/

/-- A text in which each bracket has its partner. All brackets are of one kind. -/
inductive Balanced : List Char → Prop
  | nil : Balanced []
  | char {c : Char} {cs : List Char} (ho : opens c = false) (hc : closes c = false)
    (h : Balanced cs) : Balanced (c :: cs)
  | group {o c : Char} {inner cs : List Char} (ho : opens o = true) (hinner : Balanced inner)
    (hc : closes c = true) (h : Balanced cs) : Balanced (o :: (inner ++ c :: cs))

/-- A text of characters other than brackets and colons, and of balanced texts in brackets. -/
inductive Grouped : List Char → Prop
  | nil : Grouped []
  | char {c : Char} {cs : List Char} (ho : opens c = false) (hc : closes c = false)
    (hcolon : c ≠ ':') (h : Grouped cs) : Grouped (c :: cs)
  | group {o c : Char} {inner cs : List Char} (ho : opens o = true) (hinner : Balanced inner)
    (hc : closes c = true) (h : Grouped cs) : Grouped (o :: (inner ++ c :: cs))

/-- No character both opens and closes. -/
theorem opens_eq_false_of_closes {c : Char} (h : closes c = true) : opens c = false := by
  simp only [closes, Bool.or_eq_true, beq_iff_eq] at h
  rcases h with (rfl | rfl) | rfl <;> rfl

theorem depthAfter_of_opens {c : Char} (h : opens c = true) (depth : Nat) :
    depthAfter depth c = depth + 1 :=
  if_pos h

theorem depthAfter_of_closes {c : Char} (h : closes c = true) (depth : Nat) :
    depthAfter (depth + 1) c = depth := by
  rw [depthAfter, opens_eq_false_of_closes h, if_neg Bool.false_ne_true, if_pos h,
    Nat.add_sub_cancel]

/-- Every other character leaves the depth as it is. -/
theorem depthAfter_of_other {c : Char} (ho : opens c = false) (hc : closes c = false)
    (depth : Nat) : depthAfter depth c = depth := by
  rw [depthAfter, ho, hc, if_neg Bool.false_ne_true, if_neg Bool.false_ne_true]

theorem ne_colon_of_opens {c : Char} (h : opens c = true) : c ≠ ':' := by
  rintro rfl
  exact absurd h (by decide)

theorem ne_colon_of_closes {c : Char} (h : closes c = true) : c ≠ ':' := by
  rintro rfl
  exact absurd h (by decide)

/-- A colon that is not found is passed over. -/
theorem cutColon_cons {depth : Nat} {c : Char} (h : c ≠ ':' ∨ depth ≠ 0) (cs : List Char) :
    cutColon depth (c :: cs)
      = (cutColon (depthAfter depth c) cs).map fun r => (c :: r.1, r.2) := by
  rw [cutColon, if_neg]
  simpa [← not_and_or] using h

/-- The scanner passes over the text and comes out at the same depth. -/
def Passes (depth : Nat) (cs : List Char) : Prop :=
  ∀ rest, cutColon depth (cs ++ rest) = (cutColon depth rest).map fun r => (cs ++ r.1, r.2)

namespace Passes

variable {depth : Nat} {c o : Char} {cs inner : List Char}

theorem nil : Passes depth [] := fun rest => by simp

theorem char (ho : opens c = false) (hc : closes c = false) (hcolon : c ≠ ':' ∨ depth ≠ 0)
    (h : Passes depth cs) : Passes depth (c :: cs) := by
  intro rest
  rw [List.cons_append, cutColon_cons hcolon, depthAfter_of_other ho hc, h rest, Option.map_map]
  rfl

/-- A group passes at every depth, its inner characters one deeper. -/
theorem group (ho : opens o = true) (hinner : Passes (depth + 1) inner) (hc : closes c = true)
    (h : Passes depth cs) : Passes depth (o :: (inner ++ c :: cs)) := by
  intro rest
  rw [List.cons_append, cutColon_cons (.inl (ne_colon_of_opens ho)), depthAfter_of_opens ho,
    List.append_assoc, hinner, List.cons_append, cutColon_cons (.inl (ne_colon_of_closes hc)),
    depthAfter_of_closes hc, h rest, Option.map_map, Option.map_map, Option.map_map]
  congr 1
  funext r
  simp

end Passes

/-- Between brackets everything balanced is passed, colons included. -/
theorem Balanced.passes {cs : List Char} (h : Balanced cs) (depth : Nat) :
    Passes (depth + 1) cs := by
  induction h generalizing depth with
  | nil => exact .nil
  | char ho hc _ ih => exact (ih depth).char ho hc (.inr depth.succ_ne_zero)
  | group ho _ hc _ ihinner ih => exact .group ho (ihinner (depth + 1)) hc (ih depth)

/-- Outside of brackets, grouped characters are passed. -/
theorem Grouped.passes {cs : List Char} (h : Grouped cs) : Passes 0 cs := by
  induction h with
  | nil => exact .nil
  | char ho hc hcolon _ ih => exact ih.char ho hc (.inl hcolon)
  | group ho hinner hc _ ih => exact .group ho (hinner.passes 0) hc ih

/-- Grouped characters have no colon to cut at. -/
theorem Grouped.cutColon_eq_none {cs : List Char} (h : Grouped cs) : cutColon 0 cs = none := by
  have hend := h.passes []
  rwa [List.append_nil] at hend

/-- The first colon behind grouped characters is where they are cut. -/
theorem Grouped.cutColon_append {cs : List Char} (h : Grouped cs) (rest : List Char) :
    cutColon 0 (cs ++ ':' :: rest) = some (cs, rest) := by
  rw [h.passes, cutColon, if_pos (by decide), Option.map_some, List.append_nil]

/-! ## Groups by counting -/

/-- Whether the text closes `depth` open brackets and is made of characters and groups otherwise. -/
def isGrouped (depth : Nat) : List Char → Bool
  | [] => depth == 0
  | c :: cs =>
    if opens c then isGrouped (depth + 1) cs
    else if closes c then depth != 0 && isGrouped (depth - 1) cs
    else (c != ':' || depth != 0) && isGrouped depth cs

theorem isGrouped_of_opens {c : Char} (h : opens c = true) (depth : Nat) (cs : List Char) :
    isGrouped depth (c :: cs) = isGrouped (depth + 1) cs := by
  rw [isGrouped, if_pos h]

theorem isGrouped_of_closes {c : Char} (h : closes c = true) (depth : Nat) (cs : List Char) :
    isGrouped depth (c :: cs) = (depth != 0 && isGrouped (depth - 1) cs) := by
  rw [isGrouped, opens_eq_false_of_closes h, if_neg Bool.false_ne_true, if_pos h]

theorem isGrouped_of_other {c : Char} (ho : opens c = false) (hc : closes c = false) (depth : Nat)
    (cs : List Char) :
    isGrouped depth (c :: cs) = ((c != ':' || depth != 0) && isGrouped depth cs) := by
  rw [isGrouped, ho, hc, if_neg Bool.false_ne_true, if_neg Bool.false_ne_true]

/-- Balanced characters bring the count back to where it started. -/
theorem Balanced.isGrouped_append {cs : List Char} (h : Balanced cs) (depth : Nat)
    (rest : List Char) : isGrouped (depth + 1) (cs ++ rest) = isGrouped (depth + 1) rest := by
  induction h generalizing depth rest with
  | nil => rfl
  | char ho hc _ ih => simp [isGrouped_of_other ho hc, ih]
  | group ho _ hc _ ihinner ih =>
    simp [isGrouped_of_opens ho, ihinner, isGrouped_of_closes hc, ih]

/-- One half of `grouped_iff`, by induction on the groups. -/
theorem Grouped.isGrouped_eq {cs : List Char} (h : Grouped cs) : isGrouped 0 cs = true := by
  induction h with
  | nil => rfl
  | char ho hc hcolon _ ih => simp [isGrouped_of_other ho hc, hcolon, ih]
  | group ho hinner hc _ ih =>
    simp [isGrouped_of_opens ho, hinner.isGrouped_append, isGrouped_of_closes hc, ih]

/-- Inside a bracket, the text is balanced up to the bracket that closes it. -/
theorem exists_balanced {depth : Nat} {cs : List Char} (h : isGrouped (depth + 1) cs = true) :
    ∃ inner c rest, cs = inner ++ c :: rest ∧ Balanced inner ∧ closes c = true ∧
      isGrouped depth rest = true := by
  induction hlen : cs.length using Nat.strong_induction_on generalizing depth cs with
  | _ length ih =>
    cases cs with
    | nil => simp [isGrouped] at h
    | cons c cs =>
      rw [List.length_cons] at hlen
      cases ho : opens c with
      | true =>
        -- the bracket that `c` opens is closed first, and then the one it stands in
        rw [isGrouped_of_opens ho] at h
        obtain ⟨inner, d, rest, rfl, hinner, hd, hrest⟩ := ih _ (by omega) h rfl
        rw [List.length_append, List.length_cons] at hlen
        obtain ⟨more, e, rest, rfl, hmore, he, hrest⟩ := ih _ (by omega) hrest rfl
        exact ⟨c :: (inner ++ d :: more), e, rest, by simp, .group ho hinner hd hmore, he, hrest⟩
      | false =>
        cases hc : closes c with
        | true =>
          rw [isGrouped_of_closes hc, Bool.and_eq_true] at h
          exact ⟨[], c, cs, rfl, .nil, hc, h.2⟩
        | false =>
          rw [isGrouped_of_other ho hc, Bool.and_eq_true] at h
          obtain ⟨inner, d, rest, rfl, hinner, hd, hrest⟩ := ih _ (by omega) h.2 rfl
          exact ⟨c :: inner, d, rest, rfl, .char ho hc hinner, hd, hrest⟩

/-- **Groups can be told by counting**, with one counter for all brackets. -/
theorem grouped_iff {cs : List Char} : Grouped cs ↔ isGrouped 0 cs = true := by
  refine ⟨Grouped.isGrouped_eq, fun h => ?_⟩
  induction hlen : cs.length using Nat.strong_induction_on generalizing cs with
  | _ length ih =>
    cases cs with
    | nil => exact .nil
    | cons c cs =>
      rw [List.length_cons] at hlen
      cases ho : opens c with
      | true =>
        rw [isGrouped_of_opens ho] at h
        obtain ⟨inner, d, rest, rfl, hinner, hd, hrest⟩ := exists_balanced h
        rw [List.length_append, List.length_cons] at hlen
        exact .group ho hinner hd (ih _ (by omega) hrest rfl)
      | false =>
        cases hc : closes c with
        | true => simp [isGrouped_of_closes hc] at h
        | false =>
          rw [isGrouped_of_other ho hc, Bool.and_eq_true] at h
          exact .char ho hc (by simpa using h.1) (ih _ (by omega) h.2 rfl)

instance (cs : List Char) : Decidable (Grouped cs) := decidable_of_iff _ grouped_iff.symm

/-! ## Words -/

/-- What may stand before the colon of a signature, as every identifier may: no blank, colon or
bracket, and not the start of a comment. -/
structure Word (name : List Char) : Prop where
  ne_nil : name ≠ []
  plain : ∀ c ∈ name, Text.isBlank c = false ∧ c ≠ ':' ∧ opens c = false ∧ closes c = false
  not_comment : ¬"--".toList <+: name

instance {name : List Char} : Decidable (Word name) :=
  decidable_of_iff (name ≠ [] ∧
      name.all (fun c => !Text.isBlank c && (c != ':' && (!opens c && !closes c))) = true ∧
        ¬"--".toList <+: name)
    ⟨fun h => ⟨h.1, by simpa using h.2.1, h.2.2⟩,
      fun h => ⟨h.ne_nil, by simpa using h.plain, h.not_comment⟩⟩

theorem grouped_of_plain {cs : List Char}
    (h : ∀ c ∈ cs, c ≠ ':' ∧ opens c = false ∧ closes c = false) : Grouped cs := by
  induction cs with
  | nil => exact .nil
  | cons c cs ih =>
    obtain ⟨⟨hcolon, ho, hc⟩, hcs⟩ := List.forall_mem_cons.mp h
    exact .char ho hc hcolon (ih hcs)

/-- A word has nothing to group. -/
theorem Word.grouped {name : List Char} (h : Word name) : Grouped name :=
  grouped_of_plain fun c hc => (h.plain c hc).2

/-- A word is its only word. -/
theorem Word.words_eq {name : List Char} (h : Word name) : Text.words name = [name] := by
  rw [Text.words, Text.wordsWhere, Text.splitWhere_of_not fun c hc => (h.plain c hc).1,
    List.filter_singleton, List.isEmpty_eq_false_iff.mpr h.ne_nil]
  rfl

/-- A name and a colon, and what is behind the colon is the type. -/
theorem Word.signature?_eq {name sig : List Char} (hname : Word name) (hsig : Grouped sig) :
    signature? (name ++ ':' :: sig) = some sig := by
  simp [signature?, hname.grouped.cutColon_append, hsig.cutColon_eq_none, hname.words_eq]

/-- A second colon leaves no signature, whatever stands behind it. -/
theorem Word.signature?_eq_none {name sig : List Char} (hname : Word name) (hsig : Grouped sig)
    (rest : List Char) : signature? (name ++ ':' :: (sig ++ ':' :: rest)) = none := by
  simp [signature?, hname.grouped.cutColon_append, hsig.cutColon_append]

/-! ## How lines start -/

/-- The texts that tell what a line is by standing at its start. -/
def openings : List String :=
  ["--", "\x7b-", "type alias", "type ", " ", "\t", "\x7d", "import", "exposing"]

/-- A prefix without the character ends before its first occurrence. -/
theorem prefix_of_prefix_append_cons {α : Type} {xs ys zs : List α} {a : α}
    (h : xs <+: ys ++ a :: zs) (ha : a ∉ xs) : xs <+: ys := by
  rcases List.prefix_or_prefix_of_prefix h (List.prefix_append ys (a :: zs)) with hys | ⟨t, rfl⟩
  · exact hys
  · cases t with
    | nil => rw [List.append_nil]
    | cons b t =>
      obtain ⟨rfl, -⟩ := List.cons_prefix_cons.mp ((List.prefix_append_right_inj ys).mp h)
      exact absurd (List.mem_append_right ys List.mem_cons_self) ha

/-- A word is followed by a colon, or by a blank unless it is the keyword that a blank follows. -/
def Parts (name : List Char) (c : Char) : Prop := c = ':' ∨ c = ' ' ∧ name ≠ "type".toList

section

variable {name rest : List Char} {c : Char}

/-- A word that is written on is no keyword with a blank behind it. -/
theorem Word.not_prefix_type (h : Word name) (hc : Parts name c) :
    ¬"type ".toList <+: name ++ c :: rest := by
  intro htype
  have hblank : ' ' ∉ name := fun hmem => absurd (h.plain _ hmem).1 (by decide)
  have hword : "type".toList <+: name ++ c :: rest := .trans (by decide) htype
  have hsplit : c ∉ "type".toList := by rcases hc with rfl | ⟨rfl, -⟩ <;> decide
  obtain ⟨t, rfl⟩ := prefix_of_prefix_append_cons hword hsplit
  rw [List.append_assoc] at htype
  have hnext : [' '] <+: t ++ c :: rest := (List.prefix_append_right_inj "type".toList).mp htype
  cases t with
  | nil =>
    obtain ⟨rfl, -⟩ := List.cons_prefix_cons.mp hnext
    rcases hc with hcolon | ⟨-, hne⟩
    · exact absurd hcolon (by decide)
    · exact hne (List.append_nil _)
  | cons b t =>
    obtain ⟨rfl, -⟩ := List.cons_prefix_cons.mp hnext
    exact hblank (by simp)

/-- A word starts a line like nothing else, unless it starts with a keyword itself. -/
theorem Word.no_opening (h : Word name) (himport : ¬"import".toList <+: name)
    (hexposing : ¬"exposing".toList <+: name) (hc : Parts name c) {line : String}
    (hline : line.toList = name ++ c :: rest) : ∀ s ∈ openings, ¬s.toList <+: line.toList := by
  rw [hline]
  have hkeep : ∀ {s : List Char}, ':' ∉ s → ' ' ∉ s → ¬s <+: name → ¬s <+: name ++ c :: rest := by
    intro s hcolon hblank hs hprefix
    refine hs (prefix_of_prefix_append_cons hprefix ?_)
    rcases hc with rfl | ⟨rfl, -⟩
    · exact hcolon
    · exact hblank
  -- nothing that starts with a blank or a bracket
  have hfirst : ∀ {d : Char} {s : List Char},
      Text.isBlank d = true ∨ opens d = true ∨ closes d = true → ¬d :: s <+: name ++ c :: rest := by
    intro d s hd hprefix
    obtain ⟨a, as, rfl⟩ := List.exists_cons_of_ne_nil h.ne_nil
    obtain ⟨rfl, -⟩ := List.cons_prefix_cons.mp hprefix
    obtain ⟨hblank, -, ho, hcl⟩ := h.plain d List.mem_cons_self
    simp [hblank, ho, hcl] at hd
  have htype : ¬"type ".toList <+: name ++ c :: rest := h.not_prefix_type hc
  simp only [openings, List.forall_mem_cons]
  refine ⟨hkeep (by decide) (by decide) h.not_comment, hfirst (by decide), ?_, htype,
    hfirst (by decide), hfirst (by decide), hfirst (by decide),
    hkeep (by decide) (by decide) himport, hkeep (by decide) (by decide) hexposing, by simp⟩
  exact fun halias => htype (.trans (by decide) halias)

end

end Line

/-! ## Reading lines -/

/-- A line that starts like no other kind of block is a signature, a definition, or nothing. -/
theorem classify_of_no_opening {line : String}
    (h : ∀ s ∈ Line.openings, ¬s.toList <+: line.toList) :
    classify line = match Line.signature? line.toList with
      | some type => some (.starts (if Line.isFunctionType type then .function else .const))
      | none => if line.toList.contains '=' then some .definition else none := by
  have hfalse : ∀ s ∈ Line.openings, s.toList.isPrefixOf line.toList = false := by
    intro s hs
    rw [← Bool.not_eq_true, List.isPrefixOf_iff_prefix]
    exact h s hs
  obtain ⟨h₁, h₂, h₃, h₄, h₅, h₆, h₇, h₈, h₉, -⟩ := by
    simpa only [Line.openings, List.forall_mem_cons] using hfalse
  cases hsig : Line.signature? line.toList with
  | none =>
    simp only [classify, hsig, h₁, h₂, h₃, h₄, h₅, h₆, h₇, h₈, h₉, Bool.or_false,
      Bool.false_eq_true, if_false]
  | some type =>
    simp only [classify, hsig, h₁, h₂, h₃, h₄, h₅, h₆, h₇, h₈, h₉, Bool.or_false,
      Bool.false_eq_true, if_false]

section

variable {name rest : List Char} {c : Char} {line : String} (hname : Line.Word name)
  (himport : ¬"import".toList <+: name) (hexposing : ¬"exposing".toList <+: name)
  (hc : Line.Parts name c) (hline : line.toList = name ++ c :: rest)
include hname himport hexposing hc hline

/-- A signature is that of a function if there is an arrow in its type. -/
theorem classify_of_signature {type : List Char} (h : Line.signature? line.toList = some type) :
    classify line = some (.starts (if "->".toList <:+: type then .function else .const)) := by
  rw [classify_of_no_opening (hname.no_opening himport hexposing hc hline), h]
  simp only [Line.isFunctionType, Text.occurs_iff]

/-- Without a signature, an equals sign makes a definition. -/
theorem classify_of_no_signature (h : Line.signature? line.toList = none) :
    classify line = if '=' ∈ line.toList then some .definition else none := by
  rw [classify_of_no_opening (hname.no_opening himport hexposing hc hline), h]
  simp only [List.contains_iff_mem]

end

/-- **Signatures are recognised through brackets.** A word, a colon and a type, which may have any
text in its brackets, is the signature of a function if an arrow occurs in the type, and that of a
constant otherwise. With another colon outside the brackets, the line is no signature: it is a
definition or it is not recognised. -/
theorem classify_signature (name sig : String) (hname : Line.Word name.toList)
    (himport : ¬"import".toList <+: name.toList) (hexposing : ¬"exposing".toList <+: name.toList)
    (hsig : Line.Grouped sig.toList) :
    classify (name ++ ":" ++ sig)
        = some (.starts (if "->".toList <:+: sig.toList then .function else .const)) ∧
      ∀ rest, classify (name ++ ":" ++ sig ++ ":" ++ rest)
        = if '=' ∈ (name ++ ":" ++ sig ++ ":" ++ rest).toList then some .definition else none := by
  constructor
  · have hline : (name ++ ":" ++ sig).toList = name.toList ++ ':' :: sig.toList := by simp
    refine classify_of_signature hname himport hexposing (.inl rfl) hline ?_
    rw [hline, hname.signature?_eq hsig]
  · intro rest
    have hline : (name ++ ":" ++ sig ++ ":" ++ rest).toList
        = name.toList ++ ':' :: (sig.toList ++ ':' :: rest.toList) := by simp
    refine classify_of_no_signature hname himport hexposing (.inl rfl) hline ?_
    rw [hline, hname.signature?_eq_none hsig]

/-- Brackets of several kinds, with colons and an arrow in them. -/
theorem classify_signature_record :
    classify "render: \x7b f: (a -> b], c: d \x7d e" = some (.starts .function) ∧
      classify "render: \x7b f: a \x7d : b" = none ∧
      classify "render: \x7b f: a \x7d : b = c" = some .definition := by
  have hname : Line.Word "render".toList := by decide +kernel
  have hnested := classify_signature "render" " \x7b f: (a -> b], c: d \x7d e" hname (by decide)
    (by decide) (by decide +kernel)
  have hrecord := (classify_signature "render" " \x7b f: a \x7d " hname (by decide) (by decide)
    (by decide +kernel)).2
  exact ⟨hnested.1, hrecord " b", hrecord " b = c"⟩

end Derw
