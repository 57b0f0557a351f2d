import Derw.Proofs.Reader.Element
import Derw.Script.Program

/-!
# Proofs/Reader/Unary — when an operator in front runs into its operand

A unary operator is written right in front of its operand, so the two are read apart only if the
first character of the operand does not lengthen the operator. Which character that is can be told
from the expression (`Expr.opensWithMinus`): the printer goes down on the left, and what it comes to
there is a word, an opening bracket, a quote, or an operator without brackets (`opens_print`).
Nothing starts with `=`, so `!` always stands apart. But brackets are put by binding strength alone,
and neither a negation nor a signed number has any inside another negation. So a minus may come to
stand before a minus, and the two are read as one mark.
-/

namespace Derw

open Script Reader

/-! ## The front of an expression -/

namespace Expr

/-- The unary operators of the language. -/
def unaryOperators : List String := ["-", "!", "not"]

/-- Whether a text starts like a name. -/
def startsLikeName (text : String) : Bool := text.toList.head?.any startsWord

/-- Whether a text starts like a name, or like a number that may have a sign. -/
def startsLikeValue (text : String) : Bool :=
  text.toList.head?.any fun c => startsWord c || c.isDigit || c == '.' || c == '-'

/-- Whether the words that an expression may start with are spelled as they should be: values as
names or numbers, with or without a sign, and all others as names. -/
def isSpelled : Expr → Bool
  | .value body => startsLikeValue body
  | .construct name | .constructWith name _ _ | .call name _ => startsLikeName name
  | .qualified path _ => path.head?.all startsLikeName
  | .unary op _ => unaryOperators.contains op
  | .binary _ left _ => left.isSpelled
  | .leftPipe _ right => right.isSpelled
  | .rightPipe target _ => target.isSpelled
  | .absent | .text _ | .format _ | .list _ | .range .. | .object .. | .ifElse .. | .caseOf ..
  | .lambda .. | .lambdaCall .. => true

/-- Whether a binary operator binds so tightly that no brackets are put around it as an operand. -/
def bindsTightly (op : String) : Bool :=
  op == "++" || (op != "::" && strength (targetOperator op) == tightest)

/-- Whether the text of an expression starts with a minus sign where it is the operand of a unary
operator or, if it is `tight`, the left operand of an operator that binds more tightly. -/
def opensWithMinus (tight : Bool) : Expr → Bool
  | .value body => body.toList.head? == some '-'
  | .unary op _ => !tight && op == "-"
  | .binary op left _ => bindsTightly op && left.opensWithMinus true
  | .leftPipe _ right => right.opensWithMinus tight
  | .rightPipe target _ => target.opensWithMinus tight
  | _ => false

end Expr

/-! ## The first character of a text -/

namespace Script

theorem startsWord_equals : startsWord '=' = false :=
  startsWord_eq_false (by decide) (by decide) (by decide)

/-- A text that starts with some character other than `=`; whether it is a minus sign is told. -/
def Opens (minus : Bool) (text : String) : Prop :=
  ∃ c ∈ text.toList.head?, c ≠ '=' ∧ (c == '-') = minus

namespace Opens

variable {minus : Bool} {text : String}

theorem literal (h : text.toList.head?.any (fun c => c != '=' && c != '-') = true) :
    Opens false text := by
  obtain ⟨c, hc, hne⟩ := (Option.any_eq_true _ _).mp h
  simp only [Bool.and_eq_true, bne_iff_ne] at hne
  exact ⟨c, hc, hne.1, beq_eq_false_iff_ne.mpr hne.2⟩

theorem append (h : Opens minus text) (more : String) : Opens minus (text ++ more) := by
  obtain ⟨c, hc, hne⟩ := h
  refine ⟨c, ?_, hne⟩
  rw [String.toList_append, List.head?_append, Option.mem_def.mp hc]
  rfl

theorem bracket (text : String) : Opens false (bracketed true text) := by
  have hopen : Opens false "(" := .literal (by decide)
  exact (hopen.append _).append _

theorem name (h : Expr.startsLikeName text = true) : Opens false text := by
  obtain ⟨c, hc, hword⟩ := (Option.any_eq_true _ _).mp h
  refine ⟨c, hc, ?_, ?_⟩
  · rintro rfl
    rw [startsWord_equals] at hword
    cases hword
  · rw [beq_eq_false_iff_ne]
    rintro rfl
    rw [startsWord_eq_false (by decide) (by decide) (by decide)] at hword
    cases hword

theorem value (h : Expr.startsLikeValue text = true) :
    Opens (text.toList.head? == some '-') text := by
  obtain ⟨c, hc, hstart⟩ := (Option.any_eq_true _ _).mp h
  refine ⟨c, hc, ?_, by rw [Option.mem_def.mp hc]; rfl⟩
  rintro rfl
  rw [startsWord_equals] at hstart
  cases hstart

end Opens

/-- What the strength is of the operator around an operand. -/
def strengthAround (tight : Bool) : Nat := if tight then tightest else unaryStrength

variable (s : Style) (d : Nat)

theorem opens_listText (items : List String) : Opens false (listText items) := by
  have hopen : Opens false "[ " := .literal (by decide)
  rw [listText]
  split
  · exact .literal (by decide)
  · exact (hopen.append _).append _

theorem opens_objectText (entries : List String) : Opens false (objectText entries) := by
  have hopen : Opens false "\x7b " := .literal (by decide)
  rw [objectText]
  split
  · exact .literal (by decide)
  · exact (hopen.append _).append _

theorem opens_call {name : String} (h : Expr.startsLikeName name = true) (args : List Term)
    (parent : Nat) (right : Bool) : Opens false ((Term.call name args).print s d parent right) :=
  (((Opens.name h).append _).append _).append _

theorem opens_invoked (body : List Stmt) (parent : Nat) (right : Bool) :
    Opens false ((Term.invoked body).print s d parent right) := by
  have hopen : Opens false
      (if s.typed then "(function (): any \x7b\n" else "(function () \x7b\n") := by
    split <;> exact .literal (by decide)
  exact ((hopen.append _).append _).append _

theorem opens_arrowCall (params : List String) (body : Term) (args : List Term) (parent : Nat)
    (right : Bool) : Opens false ((Term.arrowCall params body args).print s d parent right) := by
  have hopen : Opens false "(" := .literal (by decide)
  exact ((((hopen.append _).append _).append _).append _).append _

theorem opens_qualified {path : List String} (h : path.head?.all Expr.startsLikeName = true)
    (value : Term) (parent : Nat) (right : Bool) :
    Opens false ((Term.qualified path value).print s d parent right) := by
  have hpath : Opens false (Text.join "." path ++ ".") := by
    cases path with
    | nil => exact .literal (by decide)
    | cons first rest =>
      rw [Text.join_cons]
      exact ((Opens.name h).append _).append _
  exact hpath.append _

/-- An operator of the table binds less tightly than a unary operator; all others need no
brackets. -/
theorem strength_cases (op : String) : strength op = tightest ∨ strength op < unaryStrength := by
  unfold strength
  split <;> decide

theorem opens_lowerBinary {minus : Bool} {left : Term}
    (h : Opens minus (left.print s d tightest false)) (op : String) (right : Term) (tight : Bool) :
    Opens (Expr.bindsTightly op && minus)
      ((lowerBinary op left right).print s d (strengthAround tight) (!tight)) := by
  unfold lowerBinary
  split
  next => exact ((h.append _).append _).append _
  next =>
    have hopen : Opens false "[ " := .literal (by decide)
    exact (((hopen.append _).append _).append _).append _
  next hconcat hcons =>
    have hbinds : Expr.bindsTightly op = (strength (targetOperator op) == tightest) := by
      rw [Expr.bindsTightly, beq_false_of_ne hconcat, bne_iff_ne.mpr hcons, Bool.false_or,
        Bool.true_and]
    rw [print_binary, hbinds]
    rcases strength_cases (targetOperator op) with hown | hown
    · have hbare : needsBrackets tightest (strengthAround tight) (!tight) = false := by
        cases tight <;> decide
      rw [hown, hbare]
      exact (((h.append _).append _).append _).append _
    · have hloose : (strength (targetOperator op) == tightest) = false :=
        beq_eq_false_iff_ne.mpr fun heq => absurd (heq ▸ hown) (by decide)
      have hbrackets :
          needsBrackets (strength (targetOperator op)) (strengthAround tight) (!tight) = true := by
        have hle : unaryStrength ≤ strengthAround tight := by cases tight <;> decide
        simp [needsBrackets, hown.trans_le hle]
      rw [hloose, hbrackets]
      exact .bracket _

theorem opens_unary {op : String} (h : Expr.unaryOperators.contains op = true) (operand : Term)
    (tight : Bool) :
    Opens (!tight && op == "-") ((Term.unary (if op == "not" then "!" else op) operand).print s d
      (strengthAround tight) (!tight)) := by
  cases tight with
  | true => exact .bracket _
  | false =>
    have hop : Opens (op == "-") (if op == "not" then "!" else op) := by
      simp only [Expr.unaryOperators, List.contains_iff_mem, List.mem_cons, List.not_mem_nil,
        or_false] at h
      rcases h with rfl | rfl | rfl
      · exact ⟨'-', rfl, by decide⟩
      · exact .literal (by decide)
      · exact .literal (by decide)
    exact hop.append _

theorem opens_print (e : Expr) (he : e.isSpelled = true) (depth : Nat) (inflow : Inflow)
    (tight : Bool) :
    Opens (e.opensWithMinus tight)
      ((lower depth inflow e).term.print s d (strengthAround tight) (!tight)) := by
  match e with
  | .absent =>
    have hword : Opens false "undefined" := .literal (by decide)
    exact hword
  | .value body =>
    have hbody : Opens (Expr.opensWithMinus tight (.value body)) body := .value he
    cases inflow with
    | nothing => exact hbody
    | argument a | chain a => exact ((hbody.append _).append _).append _
  | .text body =>
    have hquote : Opens false "\"" := .literal (by decide)
    exact (hquote.append _).append _
  | .format body =>
    have hquote : Opens false "\x60" := .literal (by decide)
    exact (hquote.append _).append _
  | .list items => exact opens_listText _
  | .range start stop =>
    have harray : Opens false "Array.from(\x7b length: " := .literal (by decide)
    exact (((((harray.append _).append _).append _).append _).append _).append _
  | .object base fields => exact opens_objectText _
  | .construct name => exact opens_call s d he _ _ _
  | .constructWith name base fields => exact opens_call s d he _ _ _
  | .ifElse c yesLets yes noLets no =>
    change Opens false (Term.print s d (strengthAround tight) (!tight)
      (if yesLets.isEmpty && noLets.isEmpty then .ternary _ _ _ else .invoked _))
    split
    · cases tight <;> exact .bracket _
    · exact opens_invoked s d _ _ _
  | .caseOf subject branches => exact opens_invoked s d _ _ _
  | .binary op left right =>
    exact opens_lowerBinary s d (opens_print left he depth .nothing true) op _ tight
  | .unary op operand => exact opens_unary s d he _ tight
  | .leftPipe left right => exact opens_print right he _ _ tight
  | .rightPipe target value => exact opens_print target he _ _ tight
  | .qualified path value => exact opens_qualified s d he _ _ _
  | .call name args => exact opens_call s d he _ _ _
  | .lambda params body =>
    cases inflow with
    | nothing => cases tight <;> exact .bracket _
    | argument a | chain a => exact opens_arrowCall s d _ _ _ _ _
  | .lambdaCall params body args => exact opens_arrowCall s d _ _ _ _ _
termination_by sizeOf e

/-! ## An operator and its operand -/

section

variable {holes : List Nat} {c : Char} {cs : List Char}

theorem elements_bang (h : c ≠ '=') :
    elements holes ('!' :: c :: cs) = .mark "!" :: elements holes (c :: cs) := by
  refine elements_mark ?_ (by decide) (by decide)
  have hc : ('=' == c) = false := beq_eq_false_iff_ne.mpr h.symm
  simp [marks, List.isPrefixOf, hc]

theorem elements_minus (h : c ≠ '=') (hminus : c ≠ '-') :
    elements holes ('-' :: c :: cs) = .mark "-" :: elements holes (c :: cs) := by
  refine elements_mark ?_ (by decide) (by decide)
  have hc : ('=' == c) = false := beq_eq_false_iff_ne.mpr h.symm
  have hc' : ('-' == c) = false := beq_eq_false_iff_ne.mpr hminus.symm
  simp [marks, List.isPrefixOf, hc, hc']

/-- **Two minus signs are one mark.** -/
theorem elements_minus_minus :
    elements holes ('-' :: '-' :: cs) = .mark "--" :: elements holes cs :=
  elements_mark rfl (by decide) (by decide)

end

theorem elements_bracket (holes : List Nat) (cs : List Char) :
    elements holes ('(' :: cs) = .mark "(" :: elements holes cs :=
  elements_mark rfl (by decide) (by decide)

/-- The spelling of a unary operator in the target. -/
def targetUnary (op : String) : String := if op == "not" then "!" else op

theorem elements_operator {op : String} (hop : op ∈ Expr.unaryOperators) {minus : Bool}
    {text : String} (h : Opens minus text) (holes : List Nat) (rest : List Char) :
    elements holes ((targetUnary op ++ text).toList ++ rest)
      = if op == "-" && minus then .mark "--" :: elements holes (text.toList.tail ++ rest)
        else .mark (targetUnary op) :: elements holes (text.toList ++ rest) := by
  obtain ⟨c, hc, hne, rfl⟩ := h
  obtain ⟨cs, hcs⟩ := List.head?_eq_some_iff.mp hc
  rw [String.toList_append, hcs]
  simp only [Expr.unaryOperators, List.mem_cons, List.not_mem_nil, or_false] at hop
  rcases hop with rfl | rfl | rfl
  · by_cases hminus : c = '-'
    · subst hminus
      exact elements_minus_minus
    · have hc' : (c == '-') = false := beq_eq_false_iff_ne.mpr hminus
      rw [hc']
      exact elements_minus hne hminus
  · exact elements_bang hne
  · exact elements_bang hne

end Script

namespace Expr

/-- **An operator in front is read apart from its operand, except a minus before a minus.** Wherever
a unary operator is written, its text falls into the mark of the operator and the elements of the
operand, in brackets if it stands in any; but if the operator is a minus and the operand opens with
one, the two are read as the mark `--`. -/
theorem elements_unary {op : String} (hop : op ∈ unaryOperators) {e : Expr}
    (he : e.isSpelled = true) (s : Style) (d depth parent : Nat) (right : Bool) (inflow : Inflow)
    (holes : List Nat) (rest : List Char) :
    let operand := ((lower depth .nothing e).term.print s d unaryStrength true).toList
    let behind := (if unaryStrength < parent then [')'] else []) ++ rest
    elements holes (((lower depth inflow (.unary op e)).term.print s d parent right).toList ++ rest)
      = (if unaryStrength < parent then [.mark "("] else []) ++
        if op == "-" && e.opensWithMinus false then
          .mark "--" :: elements holes (operand.tail ++ behind)
        else .mark (targetUnary op) :: elements holes (operand ++ behind) := by
  intro operand behind
  let written := targetUnary op ++ (lower depth .nothing e).term.print s d unaryStrength true
  have hread : elements holes (written.toList ++ behind)
      = if op == "-" && e.opensWithMinus false then
          .mark "--" :: elements holes (operand.tail ++ behind)
        else .mark (targetUnary op) :: elements holes (operand ++ behind) :=
    elements_operator hop (opens_print s d e he depth .nothing false) holes behind
  change elements holes ((bracketed (unaryStrength < parent) written).toList ++ rest) = _
  by_cases hparent : unaryStrength < parent
  · have htext : (bracketed (unaryStrength < parent) written).toList ++ rest
        = '(' :: (written.toList ++ behind) := by
      simp [bracketed, behind, hparent]
    rw [htext, elements_bracket, hread, if_pos hparent]
    rfl
  · have htext : (bracketed (unaryStrength < parent) written).toList ++ rest
        = written.toList ++ behind := by
      simp [bracketed, behind, hparent]
    rw [htext, hread, if_neg hparent]
    rfl

/-- The sign of a number in brackets does not reach the operator: `-(-5 + x)`. -/
theorem elements_unary_sum :
    (unary "-" (.binary "+" (.value "-5") (.value "x"))).compile .javaScript = "-(-5 + x)" ∧
      elements [] "-(-5 + x)".toList = .mark "-" :: elements [] "(-5 + x)".toList := by
  have hread := @elements_unary "-" (by decide) (.binary "+" (.value "-5") (.value "x"))
    (by simp [isSpelled, startsLikeValue]) (styleFor .javaScript []) 0 0 lowest false .nothing [] []
  exact ⟨rfl, hread⟩

/-- A negation that is negated is written as a decrement. -/
theorem elements_unary_twice :
    (unary "-" (.value "x")).compile .javaScript = "-x" ∧
      (unary "-" (.unary "-" (.value "x"))).compile .javaScript = "--x" ∧
      elements [] "--x".toList = .mark "--" :: elements [] "x".toList ∧
      elements [] "--x".toList ≠ .mark "-" :: elements [] "-x".toList := by
  have hread : elements [] "--x".toList = .mark "--" :: elements [] "x".toList :=
    elements_minus_minus
  refine ⟨rfl, rfl, hread, ?_⟩
  rw [hread]
  intro h
  exact absurd (List.cons.inj h).1 (by decide)

end Expr

end Derw
