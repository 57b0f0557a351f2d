import Derw.Name.Usage
import Derw.Proofs.Text.Cut
import Mathlib.Data.List.Infix
import Mathlib.Data.List.TakeWhile

/-!
# Proofs/Name/Interpolation — the names in the texts of a program

A value and a callee are written into the program as they are spelled, and start with a name unless
they are literals (`leadingName`). A template reads the names between each `${` and the next closing
brace (`templateNames`).

The checker of names takes such texts apart in its own way: it takes a few more words for numbers
(`numberName`), and it goes through a template from left to right, one interpolation after the
other. But for those words it finds every name all the same.
-/

namespace Derw.Name

open Text (wordsWhere)

/-! ## The name a text starts with -/

/-- The name that the text of a value or a callee starts with: what stands before its first dot,
unless that is a literal. -/
def leadingName (text : String) : Option String :=
  let head := (Text.trimmed text.toList).takeWhile (· != '.')
  match head with
  | [] => none
  | c :: _ =>
    if startsName c && head != "true".toList && head != "false".toList then
      some (String.ofList head)
    else none

/-- The name that a text starts with, where the checker takes the text for a number. -/
def numberName (text : String) : Option String :=
  (leadingName text).filter fun _ => isNumberWord (Text.trimmed text.toList)

theorem leadingName_eq_some {text name : String} (h : leadingName text = some name) :
    ∃ c tail, (Text.trimmed text.toList).takeWhile (· != '.') = c :: tail ∧
      name = String.ofList (c :: tail) ∧ startsName c = true ∧
      c :: tail ≠ "true".toList ∧ c :: tail ≠ "false".toList := by
  unfold leadingName at h
  simp only at h
  split at h
  next => cases h
  next c tail hhead =>
    split at h
    next hname =>
      simp only [Bool.and_eq_true, bne_iff_ne, hhead] at hname
      obtain ⟨⟨hstart, htrue⟩, hfalse⟩ := hname
      rw [hhead] at h
      exact ⟨c, tail, hhead, (Option.some.inj h).symm, hstart, htrue, hfalse⟩
    next => cases h

/-- **The checker reads the name that a text starts with**, unless it takes the text for a
number. -/
theorem mem_valueName {text name : String} (h : name ∈ leadingName text) :
    name ∈ valueName text ∨ name ∈ numberName text := by
  cases hword : isNumberWord (Text.trimmed text.toList) with
  | true => exact .inr (Option.mem_filter_iff.mpr ⟨h, hword⟩)
  | false =>
    obtain ⟨c, tail, hhead, rfl, hstart, htrue, hfalse⟩ := leadingName_eq_some h
    refine .inl ?_
    unfold valueName
    simp only
    generalize Text.trimmed text.toList = cs at hhead hword ⊢
    have hliteral : ¬(cs == "true".toList || cs == "false".toList || isNumberWord cs) := by
      simp only [hword, Bool.or_false, Bool.or_eq_true, beq_iff_eq]
      rintro (rfl | rfl)
      · exact htrue hhead.symm
      · exact hfalse hhead.symm
    obtain ⟨rest, rfl⟩ : ∃ rest, cs = c :: rest := by
      refine ⟨tail ++ cs.dropWhile (· != '.'), ?_⟩
      rw [← List.cons_append, ← hhead, List.takeWhile_append_dropWhile]
    rw [if_neg hliteral]
    simp [hstart, hhead]

/-! ## The names in a template -/

/-- The text between `${` and the next closing brace, if a text starts so. -/
def inside? : List Char → Option (List Char)
  | '$' :: '\x7b' :: cs => if '\x7d' ∈ cs then some (cs.takeWhile (· != '\x7d')) else none
  | _ => none

/-- The texts between each `${` and the next closing brace. -/
def insides (cs : List Char) : List (List Char) := cs.tails.filterMap inside?

/-- What `f` finds in the words between each `${` and the next closing brace. -/
def inTemplate (f : String → Option String) (body : String) : List String :=
  (insides body.toList).flatMap fun inner =>
    (wordsWhere separatesNames inner).filterMap fun w => f (String.ofList w)

/-- The names that a template reads. -/
def templateNames (body : String) : List String := inTemplate leadingName body

theorem inside?_eq_some {cs inner : List Char} (h : inside? cs = some inner) :
    ∃ rest, cs = '$' :: '\x7b' :: rest ∧ '\x7d' ∈ rest ∧ rest.takeWhile (· != '\x7d') = inner := by
  unfold inside? at h
  split at h
  next rest =>
    split at h
    next hclosed => exact ⟨rest, rfl, hclosed, Option.some.inj h⟩
    next => cases h
  next => cases h

theorem mem_insides_cons {c : Char} {cs inner : List Char} :
    inner ∈ insides (c :: cs) ↔ inside? (c :: cs) = some inner ∨ inner ∈ insides cs := by
  rw [insides, List.tails_cons, List.mem_filterMap, List.exists_mem_cons_iff, insides,
    List.mem_filterMap]

/-- An interpolation that is closed is read up to its end. -/
theorem mem_interpolations_some {cs : List Char} (h : '\x7d' ∈ cs) (acc : List Char) :
    acc.reverse ++ cs.takeWhile (· != '\x7d') ∈ interpolations (some acc) cs := by
  induction cs generalizing acc with
  | nil => cases h
  | cons c cs ih =>
    rw [interpolations]
    split
    next hc =>
      obtain rfl : c = '\x7d' := by simpa using hc
      simp
    next hc =>
      have hc : c ≠ '\x7d' := by simpa using hc
      have hmem := ih ((List.mem_cons.mp h).resolve_left (Ne.symm hc)) (c :: acc)
      simpa [hc] using hmem

/-- Each inside is an interpolation, or stands at the end of one after a brace. -/
theorem exists_interpolation (state : Option (List Char)) {cs inner : List Char}
    (h : inner ∈ insides cs) : ∃ seg ∈ interpolations state cs,
      seg = inner ∨ ∃ before, seg = before ++ '\x7b' :: inner := by
  fun_induction interpolations state cs with
  | case1 => cases h
  | case2 c cs acc hc ih =>
    obtain hin | hlater := mem_insides_cons.mp h
    · obtain ⟨rest, hcs, -, -⟩ := inside?_eq_some hin
      cases hcs
      cases hc
    · obtain ⟨seg, hseg, hinner⟩ := ih hlater
      exact ⟨seg, List.mem_cons_of_mem _ hseg, hinner⟩
  | case3 c cs acc hc ih =>
    obtain hin | hlater := mem_insides_cons.mp h
    · obtain ⟨rest, hcs, hclosed, rfl⟩ := inside?_eq_some hin
      cases hcs
      have hmem := mem_interpolations_some (List.mem_cons_of_mem '\x7b' hclosed) ('$' :: acc)
      exact ⟨_, hmem, .inr ⟨_, rfl⟩⟩
    · exact ih hlater
  | case4 c hc d ds hd ih =>
    obtain rfl : d = '\x7b' := by simpa using hd
    obtain hin | hlater := mem_insides_cons.mp h
    · obtain ⟨rest, hcs, hclosed, rfl⟩ := inside?_eq_some hin
      cases hcs
      exact ⟨_, mem_interpolations_some hclosed [], .inl rfl⟩
    · obtain hin | hlater := mem_insides_cons.mp hlater
      · obtain ⟨rest, hcs, -, -⟩ := inside?_eq_some hin
        cases hcs
      · exact ih hlater
  | case5 c hc d ds hd ih =>
    obtain hin | hlater := mem_insides_cons.mp h
    · obtain ⟨rest, hcs, -, -⟩ := inside?_eq_some hin
      cases hcs
      cases hd rfl
    · exact ih hlater
  | case6 c hc =>
    obtain hin | hlater := mem_insides_cons.mp h
    · obtain ⟨rest, hcs, -, -⟩ := inside?_eq_some hin
      cases hcs
    · cases hlater
  | case7 c cs hc ih =>
    obtain hin | hlater := mem_insides_cons.mp h
    · obtain ⟨rest, hcs, -, -⟩ := inside?_eq_some hin
      cases hcs
      cases hc rfl
    · exact ih hlater

/-- **The checker finds the names that a template reads**, those apart that it takes for
numbers. -/
theorem mem_interpolatedNames {body name : String} (h : name ∈ templateNames body) :
    name ∈ interpolatedNames body ∨ name ∈ inTemplate numberName body := by
  obtain ⟨inner, hinner, hname⟩ := List.mem_flatMap.mp h
  obtain ⟨w, hw, hname⟩ := List.mem_filterMap.mp hname
  obtain hname | hname := mem_valueName hname
  · obtain ⟨seg, hseg, hend⟩ := exists_interpolation none hinner
    refine .inl (List.mem_flatMap.mpr ⟨seg, hseg, List.mem_filterMap.mpr ⟨w, ?_, hname⟩⟩)
    obtain rfl | ⟨before, rfl⟩ := hend
    · exact hw
    · have hbrace : separatesNames '\x7b' = true := by decide +kernel
      rw [Text.wordsWhere_append_separator hbrace]
      exact List.mem_append_right _ hw
  · exact .inr (List.mem_flatMap.mpr ⟨inner, hinner, List.mem_filterMap.mpr ⟨w, hw, hname⟩⟩)

end Derw.Name
