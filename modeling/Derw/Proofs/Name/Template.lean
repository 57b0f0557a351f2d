import Derw.Name.Usage
import Derw.Proofs.Text.Cut
import Mathlib.Data.List.Forall2
import Mathlib.Data.List.Infix

/-!
# Proofs/Name/Template — a template is read segment by segment

A template is a literal, then interpolations with a literal behind each (`template`). Its names are
found by looking for `${` in what is left of the text, and then for a closing brace. This lines up
with the segments however many stray `$`, `{` and `}` the literals hold, and also where an
interpolation holds a `${` of its own: a literal that ends in `$` and the `${` behind it make no
earlier `${`, and inside an interpolation only the brace counts.

An interpolation reads its words, the longest runs of characters that may stand in a name or a path
(`Words`), each by the name it starts with.
-/

namespace Derw.Text

/-! ## Words -/

/-- The words of a text with separators `p`, in order: each ends at a separator or at the end of the
text, and all between them are separators. -/
inductive Words (p : Char → Bool) : List Char → List (List Char) → Prop
  | none {gap} : (∀ c ∈ gap, p c = true) → Words p gap []
  | word {gap w rest ws} : (∀ c ∈ gap, p c = true) → w ≠ [] → (∀ c ∈ w, p c = false) →
    (∀ c ∈ rest.head?, p c = true) → Words p rest ws → Words p (gap ++ (w ++ rest)) (w :: ws)

section

variable {p : Char → Bool} {cs gap w rest : List Char} {ws : List (List Char)}

/-- Separators in front of a text are no word. -/
theorem wordsWhere_separators (h : ∀ c ∈ gap, p c = true) (cs : List Char) :
    wordsWhere p (gap ++ cs) = wordsWhere p cs := by
  induction gap with
  | nil => rfl
  | cons c gap ih =>
    obtain ⟨hc, hgap⟩ := List.forall_mem_cons.mp h
    have hcut := wordsWhere_append_separator hc [] (gap ++ cs)
    exact hcut.trans (ih hgap)

/-- A word ends at the next separator or at the end. -/
theorem wordsWhere_word (hne : w ≠ []) (hw : ∀ c ∈ w, p c = false)
    (hrest : ∀ c ∈ rest.head?, p c = true) : wordsWhere p (w ++ rest) = w :: wordsWhere p rest := by
  have hone : wordsWhere p w = [w] := by simp [wordsWhere, splitWhere_of_not hw, hne]
  cases rest with
  | nil => rw [List.append_nil, hone]; rfl
  | cons d rest =>
    have hd : p d = true := hrest d rfl
    rw [wordsWhere_append_separator hd, hone]
    exact congrArg (w :: ·) (wordsWhere_separators (List.forall_mem_singleton.mpr hd) rest).symm

/-- The words of a text are what cutting at separators gives. -/
theorem Words.wordsWhere_eq (h : Words p cs ws) : wordsWhere p cs = ws := by
  induction h with
  | @none gap hgap =>
    rw [← List.append_nil gap, wordsWhere_separators hgap]
    rfl
  | word hgap hne hw hrest _ ih =>
    rw [wordsWhere_separators hgap, wordsWhere_word hne hw hrest, ih]

theorem exists_words (p : Char → Bool) (cs : List Char) : ∃ ws, Words p cs ws := by
  induction cs with
  | nil => exact ⟨[], .none nofun⟩
  | cons c cs ih =>
    obtain ⟨ws, h⟩ := ih
    cases hc : p c with
    | true =>
      have hcons : ∀ {gap}, (∀ d ∈ gap, p d = true) → ∀ d ∈ c :: gap, p d = true :=
        fun hgap => List.forall_mem_cons.mpr ⟨hc, hgap⟩
      cases h with
      | none hgap => exact ⟨[], .none (hcons hgap)⟩
      | word hgap hne hw hrest hws => exact ⟨_, .word (hcons hgap) hne hw hrest hws⟩
    | false =>
      -- the character starts a word of its own, unless a word follows at once
      have hnew : (∀ d ∈ cs.head?, p d = true) → ∃ ws, Words p (c :: cs) ws := fun hrest =>
        ⟨_, @Words.word p [] [c] cs ws nofun (List.cons_ne_nil c [])
          (List.forall_mem_singleton.mpr hc) hrest h⟩
      cases h with
      | none hgap => exact hnew fun d hd => hgap d (List.mem_of_mem_head? hd)
      | @word gap w rest ws hgap hne hw hrest hws =>
        cases gap with
        | nil =>
          exact ⟨_, @Words.word p [] (c :: w) rest ws nofun (List.cons_ne_nil c w)
            (List.forall_mem_cons.mpr ⟨hc, hw⟩) hrest hws⟩
        | cons d gap => exact hnew fun e he => hgap e (by simp_all)

/-- A text has one list of words. -/
theorem words_iff : Words p cs ws ↔ wordsWhere p cs = ws := by
  refine ⟨Words.wordsWhere_eq, ?_⟩
  rintro rfl
  obtain ⟨ws, h⟩ := exists_words p cs
  rwa [h.wordsWhere_eq]

end

end Derw.Text

namespace Derw.Name

open Text (Words wordsWhere words_iff)

/-! ## Templates -/

/-- A literal holds no `${`. -/
def IsLiteral (text : String) : Prop := ¬['$', '\x7b'] <:+: text.toList

instance (text : String) : Decidable (IsLiteral text) := inferInstanceAs (Decidable ¬_)

/-- A literal, then interpolations, each with the literal behind it. -/
def template (literal : String) : List (String × String) → String
  | [] => literal
  | (inner, next) :: segments =>
    literal ++ ("$\x7b" ++ (inner ++ ("\x7d" ++ template next segments)))

/-- The words of an interpolation that may be names or paths. -/
def NameTokens (inner : String) (tokens : List String) : Prop :=
  Words separatesNames inner.toList (tokens.map String.toList)

section

variable {c : Char} {cs inner after : List Char}

/-! ## The reader, one character at a time -/

/-- A brace ends the interpolation. -/
theorem interpolations_closing (acc cs : List Char) :
    interpolations (some acc) ('\x7d' :: cs) = acc.reverse :: interpolations none cs := by
  simp [interpolations]

/-- Before it, characters are gathered. -/
theorem interpolations_inside (hc : c ≠ '\x7d') (acc cs : List Char) :
    interpolations (some acc) (c :: cs) = interpolations (some (c :: acc)) cs := by
  simp [interpolations, hc]

/-- A dollar sign and a brace start an interpolation. -/
theorem interpolations_opening (cs : List Char) :
    interpolations none ('$' :: '\x7b' :: cs) = interpolations (some []) cs := by
  simp [interpolations]

/-- Any other character outside of one is passed. -/
theorem interpolations_outside (h : ¬['$', '\x7b'] <+: c :: cs) :
    interpolations none (c :: cs) = interpolations none cs := by
  cases cs with
  | nil => simp [interpolations]
  | cons d ds =>
    by_cases hc : c = '$'
    · have hd : d ≠ '\x7b' := by
        rintro rfl
        exact h ⟨ds, by rw [hc]; rfl⟩
      simp [interpolations, hd]
    · simp [interpolations, hc]

/-- A `${` that is put behind a text makes no other one before it. -/
theorem not_opening_append {rest : List Char} (h : ¬['$', '\x7b'] <+: c :: cs) :
    ¬['$', '\x7b'] <+: c :: (cs ++ '$' :: rest) := by
  cases cs with
  | nil => simp
  | cons d ds => simpa using h

/-! ## Segments -/

/-- An interpolation up to its brace. -/
theorem interpolations_segment (h : '\x7d' ∉ inner) (acc rest : List Char) :
    interpolations (some acc) (inner ++ '\x7d' :: rest)
      = (acc.reverse ++ inner) :: interpolations none rest := by
  induction inner generalizing acc with
  | nil => rw [List.nil_append, interpolations_closing, List.append_nil]
  | cons c inner ih =>
    rw [List.mem_cons, not_or] at h
    rw [List.cons_append, interpolations_inside (Ne.symm h.1), ih h.2, List.reverse_cons,
      List.append_assoc, List.singleton_append]

/-- Without one there is no interpolation. -/
theorem interpolations_unclosed (h : '\x7d' ∉ after) (acc : List Char) :
    interpolations (some acc) after = [] := by
  induction after generalizing acc with
  | nil => rfl
  | cons c after ih =>
    rw [List.mem_cons, not_or] at h
    rw [interpolations_inside (Ne.symm h.1), ih h.2]

/-- In a literal text there are none. -/
theorem interpolations_literal (h : ¬['$', '\x7b'] <:+: cs) : interpolations none cs = [] := by
  induction cs with
  | nil => rfl
  | cons c cs ih =>
    rw [List.infix_cons_iff, not_or] at h
    rw [interpolations_outside h.1, ih h.2]

/-- A literal is passed over. -/
theorem interpolations_literal_append (h : ¬['$', '\x7b'] <:+: cs) (rest : List Char) :
    interpolations none (cs ++ '$' :: '\x7b' :: rest) = interpolations (some []) rest := by
  induction cs with
  | nil => exact interpolations_opening rest
  | cons c cs ih =>
    rw [List.infix_cons_iff, not_or] at h
    rw [List.cons_append, interpolations_outside (not_opening_append h.1), ih h.2]

/-- An interpolation that is not closed adds nothing, whatever stands before it. -/
theorem interpolations_append_unclosed (h : '\x7d' ∉ after) (state : Option (List Char))
    (cs : List Char) :
    interpolations state (cs ++ '$' :: '\x7b' :: after) = interpolations state cs := by
  fun_induction interpolations state cs with
  | case1 state =>
    cases state with
    | some acc => exact interpolations_unclosed (by simpa using h) acc
    | none => exact (interpolations_opening after).trans (interpolations_unclosed h [])
  | case2 c cs acc hc ih =>
    obtain rfl : c = '\x7d' := by simpa using hc
    rw [List.cons_append, interpolations_closing, ih]
  | case3 c cs acc hc ih => rw [List.cons_append, interpolations_inside (by simpa using hc), ih]
  | case4 c hc d ds hd ih =>
    obtain rfl : c = '$' := by simpa using hc
    obtain rfl : d = '\x7b' := by simpa using hd
    exact (interpolations_opening _).trans ih
  | case5 c hc d ds hd ih =>
    have hopen : ¬['$', '\x7b'] <+: c :: d :: ds := fun hp => by
      obtain ⟨heq, -⟩ := List.cons_prefix_cons.mp (List.cons_prefix_cons.mp hp).2
      exact hd (beq_iff_eq.mpr heq.symm)
    rw [List.cons_append, interpolations_outside (not_opening_append hopen), ih]
  | case6 c hc =>
    rw [List.singleton_append, interpolations_outside (by simp), interpolations_opening,
      interpolations_unclosed h]
  | case7 c cs hc ih =>
    have hopen : ¬['$', '\x7b'] <+: c :: cs := fun hp =>
      hc (beq_iff_eq.mpr (List.cons_prefix_cons.mp hp).1.symm)
    rw [List.cons_append, interpolations_outside (not_opening_append hopen), ih]

/-- The interpolations of a template are those of its segments, by induction on them. -/
theorem interpolations_template {literal : String} {segments : List (String × String)}
    (hliteral : IsLiteral literal)
    (hsegments : ∀ s ∈ segments, '\x7d' ∉ s.1.toList ∧ IsLiteral s.2) :
    interpolations none (template literal segments).toList = segments.map (·.1.toList) := by
  induction segments generalizing literal with
  | nil => exact interpolations_literal hliteral
  | cons s segments ih =>
    obtain ⟨⟨hinner, hnext⟩, hrest⟩ := List.forall_mem_cons.mp hsegments
    have htext : (template literal (s :: segments)).toList = literal.toList ++ '$' :: '\x7b'
        :: (s.1.toList ++ '\x7d' :: (template s.2 segments).toList) := by
      simp [template]
    rw [htext, interpolations_literal_append hliteral, interpolations_segment hinner,
      ih hnext hrest]
    rfl

end

/-! ## Names -/

/-- The words of an interpolation. -/
def nameTokens (inner : String) : List String :=
  (wordsWhere separatesNames inner.toList).map String.ofList

/-- The tokens of a segment, as the reader takes them. -/
theorem nameTokens_iff {inner : String} {tokens : List String} :
    NameTokens inner tokens ↔ nameTokens inner = tokens := by
  rw [NameTokens, words_iff, nameTokens]
  constructor
  · intro h
    simp [h, Function.comp_def]
  · rintro rfl
    simp [Function.comp_def]

theorem forall₂_nameTokens_iff (segments : List (String × String)) (tokens : List (List String)) :
    List.Forall₂ (fun s ts => NameTokens s.1 ts) segments tokens ↔
      tokens = segments.map (nameTokens ·.1) := by
  rw [eq_comm, ← List.forall₂_eq_eq_eq, List.forall₂_map_left_iff]
  simp only [nameTokens_iff]

/-- The names are those of the tokens that name a value. -/
theorem interpolatedNames_eq (body : String) :
    interpolatedNames body
      = ((interpolations none body.toList).flatMap fun inner =>
          nameTokens (String.ofList inner)).filterMap valueName := by
  simp [interpolatedNames, nameTokens, List.filterMap_flatMap, List.filterMap_map]

/-- **The names of a template are those of its interpolations, in order.** Each interpolation falls
into its words in one way, and each word reads the name it starts with, if any. An interpolation
that is not closed adds no name to those of the text before it. -/
theorem interpolatedNames_template {literal : String} {segments : List (String × String)}
    (hliteral : IsLiteral literal)
    (hsegments : ∀ s ∈ segments, '\x7d' ∉ s.1.toList ∧ IsLiteral s.2) :
    (∃ tokens : List (List String),
      (∀ ts, List.Forall₂ (fun s ts => NameTokens s.1 ts) segments ts ↔ ts = tokens) ∧
      interpolatedNames (template literal segments) = tokens.flatten.filterMap valueName) ∧
    ∀ text after : String, '\x7d' ∉ after.toList →
      interpolatedNames (text ++ ("$\x7b" ++ after)) = interpolatedNames text := by
  refine ⟨⟨_, forall₂_nameTokens_iff segments, ?_⟩, fun text after hafter => ?_⟩
  · rw [interpolatedNames_eq, interpolations_template hliteral hsegments, List.flatMap_map,
      ← List.flatMap_def]
    simp
  · have htext : (text ++ ("$\x7b" ++ after)).toList
        = text.toList ++ '$' :: '\x7b' :: after.toList := by simp
    rw [interpolatedNames, htext, interpolations_append_unclosed hafter, ← interpolatedNames]

/-- A literal that ends in `$`, an interpolation with a `${` inside, and a stray pair of braces. -/
theorem interpolatedNames_template_nested :
    let segments := [("user.name + $\x7b 2", " \x7d\x7b $"), ("nan, b", "")]
    IsLiteral "Hi $" ∧ (∀ s ∈ segments, '\x7d' ∉ s.1.toList ∧ IsLiteral s.2) ∧
      interpolatedNames (template "Hi $" segments) = ["user", "$", "b"] := by
  intro segments
  have hliteral : IsLiteral "Hi $" := by decide +kernel
  have hsegments : ∀ s ∈ segments, '\x7d' ∉ s.1.toList ∧ IsLiteral s.2 := by decide +kernel
  refine ⟨hliteral, hsegments, ?_⟩
  obtain ⟨⟨tokens, htokens, hnames⟩, -⟩ := interpolatedNames_template hliteral hsegments
  obtain rfl : [["user.name", "$", "2"], ["nan", "b"]] = tokens := by
    refine (htokens _).mp (.cons ?_ (.cons ?_ .nil)) <;> rw [nameTokens_iff] <;> decide +kernel
  rw [hnames]
  decide +kernel

end Derw.Name
