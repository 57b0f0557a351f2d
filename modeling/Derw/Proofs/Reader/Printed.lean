import Derw.Proofs.Reader.Tree
import Derw.Script.Print

/-!
# Proofs/Reader/Printed — the tokens of a printed term

A term is printed for a place, of which the printer knows how tightly the operator around it binds
and whether it is on its right. `Term.tokens` lists the tokens of a plain term there, and the text
falls into exactly these (`lex_print`): blanks and brackets keep neighbours apart. There is one
exception. Behind a whole number the dot of `.concat` goes to the number (`dotted`).
-/

namespace Derw.Script

open Reader

/-- The binary operators that terms are made with. -/
def binaryOperators : List String :=
  ["||", "&&", "===", "!==", "<", ">", "<=", ">=", "+", "-", "*", "/", "%"]

/-- Names, numbers, lists, calls, operators and conditionals, and what is made of them. -/
inductive Term.Plain : Term → Prop
  | name {w : String} (hw : isName w = true) (hk : keywords.contains w = false) : Plain (.raw w)
  | number (n : Numeral) : Plain (.raw (String.ofList n.text))
  | list {items : List Term} (h : ∀ t ∈ items, Plain t) : Plain (.list items)
  | call {f : String} {args : List Term} (hf : isName f = true) (hk : keywords.contains f = false)
    (h : ∀ t ∈ args, Plain t) : Plain (.call f args)
  | binary {op : String} {l r : Term} (hop : op ∈ binaryOperators) (hl : Plain l) (hr : Plain r) :
    Plain (.binary op l r)
  | not {t : Term} (h : Plain t) : Plain (.unary "!" t)
  | concat {l r : Term} (hl : Plain l) (hr : Plain r) : Plain (.concat l r)
  | cons {l r : Term} (hl : Plain l) (hr : Plain r) : Plain (.cons l r)
  | ternary {c y n : Term} (hc : Plain c) (hy : Plain y) (hn : Plain n) : Plain (.ternary c y n)

/-! ## Tokens and trees -/

/-- The token of a name or a number. -/
def atomToken (text : String) : Token := if isName text then .word text else .number text

/-- Whether a text is digits only. -/
def isInteger (text : String) : Bool := !text.toList.isEmpty && text.toList.all Char.isDigit

def bracket (b : Bool) (ts : List Token) : List Token :=
  if b then .mark "(" :: ts ++ [.mark ")"] else ts

/-- The tokens of a term, which are given, and of a dot behind it. -/
def dotted (ts : List Token) : Term → List Token
  | .raw text => if isInteger text then [.malformed (text ++ ".")] else ts ++ [.mark "."]
  | _ => ts ++ [.mark "."]

mutual

/-- The tokens of a plain term at a place. -/
def Term.tokens (parent : Nat) (right : Bool) : Term → List Token
  | .raw text => [atomToken text]
  | .list items => .mark "[" :: commas (tokensOf items) ++ [.mark "]"]
  | .call f args => .word f :: .mark "(" :: commas (tokensOf args) ++ [.mark ")"]
  | .binary op l r =>
    bracket (needsBrackets (strength op) parent right)
      (l.tokens (strength op) false ++ .mark op :: r.tokens (strength op) true)
  | .unary op t => bracket (unaryStrength < parent) (.mark op :: t.tokens unaryStrength true)
  | .concat l r =>
    dotted (l.tokens tightest false) l
      ++ .word "concat" :: .mark "(" :: (r.tokens lowest false ++ [.mark ")"])
  | .cons l r =>
    .mark "[" :: (l.tokens lowest false
      ++ .mark "," :: .mark "..." :: (r.tokens tightest false ++ [.mark "]"]))
  | .ternary c y n =>
    bracket (lowest < parent) (c.tokens armStrength false
      ++ .mark "?" :: (y.tokens armStrength false ++ .mark ":" :: n.tokens armStrength false))
  | _ => []

def tokensOf : List Term → List (List Token)
  | [] => []
  | t :: ts => t.tokens lowest false :: tokensOf ts

end

mutual

/-- What a plain term stands for. -/
def Term.tree : Term → Tree
  | .raw text => .atom text
  | .list items => .array (treesOf items)
  | .call f args => .call (.atom f) (treesOf args)
  | .binary op l r => .binary op l.tree r.tree
  | .unary _ t => .not t.tree
  | .concat l r => .call (.member l.tree "concat") [r.tree]
  | .cons l r => .array [l.tree, .spread r.tree]
  | .ternary c y n => .conditional c.tree y.tree n.tree
  | _ => .atom "undefined"

def treesOf : List Term → List Tree
  | [] => []
  | t :: ts => t.tree :: treesOf ts

end

/-! ## The text of a term falls into its tokens -/

/-- The characters that continue no token. -/
def stopChars : List Char := [' ', ')', ']', ',']

/-- The end, or a character that continues no token. -/
def Stops (rest : List Char) : Prop := ∀ c ∈ rest.head?, c ∈ stopChars

namespace Stops

variable {rest : List Char}

theorem text {s : String} (h : s.toList.head?.any stopChars.contains = true) (rest : List Char) :
    Stops (s.toList ++ rest) := by
  obtain ⟨c, hc, hmem⟩ := (Option.any_eq_true _ _).mp h
  obtain ⟨cs, hs⟩ := List.head?_eq_some_iff.mp hc
  intro d hd
  rw [hs] at hd
  obtain rfl : c = d := Option.some.inj hd
  exact List.contains_iff_mem.mp hmem

theorem not_continues (h : Stops rest) : ∀ c ∈ rest.head?, continuesWord c = false := by
  have hall : stopChars.all (fun c => !continuesWord c) = true := by decide +kernel
  exact fun c hc => by simpa using List.all_eq_true.mp hall c (h c hc)

theorem ne_dot (h : Stops rest) : rest.head? ≠ some '.' :=
  fun hd => absurd (h '.' hd) (by decide)

end Stops

/-- A bracket opens after a name. -/
theorem not_continues_open (rest : List Char) :
    ∀ c ∈ ("(".toList ++ rest).head?, continuesWord c = false := by
  intro c hc
  obtain rfl : '(' = c := by simpa using hc
  decide +kernel

theorem lex_blank (rest : List Char) : lex (' ' :: rest) = lex rest :=
  lex_space (by decide +kernel) _

theorem lex_comma (rest : List Char) : lex (", ".toList ++ rest) = .mark "," :: lex rest := by
  rw [← lex_blank rest]
  exact lex_closedMark (m := ",") (by decide) _

theorem lex_openList (rest : List Char) : lex ("[ ".toList ++ rest) = .mark "[" :: lex rest := by
  rw [← lex_blank rest]
  exact lex_closedMark (m := "[") (by decide) _

theorem lex_closeList (rest : List Char) : lex (" ]".toList ++ rest) = .mark "]" :: lex rest := by
  rw [← lex_closedMark (by decide)]
  exact lex_blank _

/-- An operator between blanks. -/
theorem lex_operator {op : String} (h : op ∈ spacedMarks) (rest : List Char) :
    lex (" ".toList ++ (op.toList ++ (" ".toList ++ rest))) = .mark op :: lex rest := by
  rw [← lex_spacedMark h]
  exact lex_blank _

/-- What may follow the text of a term: after a name or a number something that stops it, and after
a bracket anything. -/
def Term.Ends (t : Term) (parent : Nat) (rest : List Char) : Prop :=
  Stops rest ∨ parent = tightest ∧ ∀ text, t ≠ .raw text

theorem lex_bracketed {text : String} {ts : List Token} {b : Bool} {rest : List Char}
    (h : ∀ rest, Stops rest → lex (text.toList ++ rest) = ts ++ lex rest)
    (hb : b = true ∨ Stops rest) :
    lex ((bracketed b text).toList ++ rest) = bracket b ts ++ lex rest := by
  cases b with
  | false => exact h rest (hb.resolve_left Bool.false_ne_true)
  | true =>
    rw [bracketed, bracket, if_pos rfl, if_pos rfl, String.toList_append, String.toList_append,
      List.append_assoc, List.append_assoc, lex_closedMark (by decide), h _ (.text (by decide) _),
      lex_closedMark (by decide)]
    simp

/-- Texts with commas and blanks between them. -/
theorem lex_join {texts : List String} {tss : List (List Token)}
    (h : List.Forall₂ (fun text ts => ∀ rest, Stops rest →
      lex (text.toList ++ rest) = ts ++ lex rest) texts tss) {rest : List Char} (hr : Stops rest) :
    lex ((Text.join ", " texts).toList ++ rest) = commas tss ++ lex rest := by
  induction h with
  | nil => rfl
  | @cons text ts texts tss hts hrest ih =>
    cases hrest with
    | nil => exact hts rest hr
    | cons hts' hrest =>
      rw [Text.join, commas, String.toList_append, String.toList_append, List.append_assoc,
        List.append_assoc, hts _ (.text (by decide) _), lex_comma, ih, List.append_assoc,
        List.cons_append]
      · simp
      · simp

/-! ### Names and numbers -/

theorem isName_numeral (n : Numeral) : isName (String.ofList n.text) = false := by
  obtain ⟨c, cs, hcs, -, -, hc⟩ := n.exists_startsNumeral []
  rw [List.append_nil] at hcs
  simp [isName, hcs, hc]

/-- A numeral is a whole number if it has neither a fraction nor an exponent. -/
theorem isInteger_numeral (n : Numeral) :
    isInteger (String.ofList n.text) = true ↔ n.frac = [] ∧ n.exp = [] := by
  have hne : n.text ≠ [] := by
    obtain ⟨c, cs, hcs, -⟩ := n.exists_startsNumeral []
    rw [List.append_nil] at hcs
    simp [hcs]
  have hwhole : n.whole.all Char.isDigit = true := List.all_eq_true.mpr n.whole_digits
  have hint : isInteger (String.ofList n.text) = n.text.all Char.isDigit := by
    simp [isInteger, hne]
  rw [hint, Numeral.text, List.all_append, List.all_append, hwhole, Bool.true_and,
    Bool.and_eq_true]
  refine and_congr ⟨fun h => ?_, fun h => by rw [h]; rfl⟩ ⟨fun h => ?_, fun h => by rw [h]; rfl⟩
  · rcases n.frac_shape with hf | ⟨ds, hf, -⟩
    · exact hf
    · rw [hf, List.all_cons] at h
      cases h
  · rcases n.exp_shape with he | ⟨e, sign, d, ds, he, hletter, -, -⟩
    · exact he
    · rw [he, List.all_cons, Bool.and_eq_true] at h
      rcases (by simpa [isExponentLetter] using hletter : e = 'e' ∨ e = 'E') with rfl | rfl <;>
        exact absurd h.1 (by decide)

theorem isInteger_name {w : String} (hw : isName w = true) : isInteger w = false := by
  obtain ⟨c, cs, hcs, hc, -⟩ := exists_cons_of_isName hw
  simp [isInteger, hcs, isDigit_of_startsWord hc]

theorem lex_atom {text : String} (h : (Term.raw text).Plain) {rest : List Char} (hr : Stops rest) :
    lex (text.toList ++ rest) = [atomToken text] ++ lex rest := by
  cases h with
  | name hw =>
    rw [lex_word hw hr.not_continues, atomToken, if_pos hw]
    rfl
  | number n =>
    rw [String.toList_ofList, lex_number hr.not_continues fun _ _ => hr.ne_dot, atomToken,
      isName_numeral]
    rfl

/-- The dot behind a name or a number, before a word. -/
theorem lex_atom_dot {text : String} (h : (Term.raw text).Plain) {c : Char}
    (hc : startsWord c = true) (he : isExponentLetter c = false) (cs : List Char) :
    lex (text.toList ++ '.' :: c :: cs)
      = dotted [atomToken text] (.raw text) ++ lex (c :: cs) := by
  have hdot : ∀ d ∈ ('.' :: c :: cs).head?, continuesWord d = false := by
    intro d hd
    obtain rfl : '.' = d := by simpa using hd
    decide +kernel
  cases h with
  | name hw =>
    rw [lex_word hw hdot, lex_dot hc, dotted, isInteger_name hw, atomToken, if_pos hw]
    rfl
  | number n =>
    by_cases hint : isInteger (String.ofList n.text) = true
    · obtain ⟨hf, hx⟩ := (isInteger_numeral n).mp hint
      rw [String.toList_ofList, lex_integer_dot hf hx hc he, dotted, if_pos hint]
      simp
    · have hnot : n.frac = [] → n.exp = [] → False := fun hf hx =>
        hint ((isInteger_numeral n).mpr ⟨hf, hx⟩)
      rw [String.toList_ofList, lex_number hdot fun hf hx => (hnot hf hx).elim, lex_dot hc, dotted,
        if_neg hint, atomToken, isName_numeral]
      rfl

/-! ### Terms -/

/-- At the tightest place every operator has brackets. -/
theorem needsBrackets_tightest {op : String} (hop : op ∈ binaryOperators) (right : Bool) :
    needsBrackets (strength op) tightest right = true := by
  revert op right
  decide

theorem forall₂_printTerms {s : Style} {d : Nat} {items : List Term}
    (h : ∀ t ∈ items, ∀ rest, Stops rest →
      lex ((t.print s d lowest false).toList ++ rest) = t.tokens lowest false ++ lex rest) :
    List.Forall₂ (fun text ts => ∀ rest, Stops rest → lex (text.toList ++ rest) = ts ++ lex rest)
      (printTerms s d items) (tokensOf items) := by
  induction items with
  | nil => exact .nil
  | cons t ts ih =>
    exact .cons (h t List.mem_cons_self) (ih fun u hu => h u (List.mem_cons_of_mem _ hu))

/-- A list in square brackets. -/
theorem lex_listText {texts : List String} {tss : List (List Token)}
    (h : List.Forall₂ (fun text ts => ∀ rest, Stops rest →
      lex (text.toList ++ rest) = ts ++ lex rest) texts tss) (rest : List Char) :
    lex ((listText texts).toList ++ rest) = .mark "[" :: commas tss ++ [.mark "]"] ++ lex rest := by
  cases h with
  | nil =>
    change lex ("[ ".toList ++ ("]".toList ++ rest)) = _
    rw [lex_openList, lex_closedMark (by decide)]
    rfl
  | cons hts hrest =>
    rw [listText, if_neg (by simp), String.toList_append, String.toList_append, List.append_assoc,
      List.append_assoc, lex_openList, lex_join (.cons hts hrest) (.text (by decide) _),
      lex_closeList]
    simp

section

variable {parent : Nat} {right : Bool} {rest : List Char} {l r t : Term}

theorem Term.Ends.bracketed_binary {op : String} (hop : op ∈ binaryOperators)
    (h : (Term.binary op l r).Ends parent rest) :
    needsBrackets (strength op) parent right = true ∨ Stops rest := by
  rcases h with h | ⟨rfl, -⟩
  · exact Or.inr h
  · exact Or.inl (needsBrackets_tightest hop right)

theorem Term.Ends.bracketed_of_lt {own : Nat} (hown : own < tightest) (h : t.Ends parent rest) :
    decide (own < parent) = true ∨ Stops rest := by
  rcases h with h | ⟨rfl, -⟩
  · exact Or.inr h
  · exact Or.inl (decide_eq_true hown)

end

/-- A text that does not make another mark of the `!` before it. -/
def StartsOperand (text : String) : Prop := ∃ c ∈ text.toList.head?, c ≠ '='

theorem StartsOperand.append {text : String} (h : StartsOperand text) (more : String) :
    StartsOperand (text ++ more) := by
  obtain ⟨c, hc, hne⟩ := h
  refine ⟨c, ?_, hne⟩
  rw [String.toList_append, List.head?_append, Option.mem_def.mp hc]
  rfl

theorem StartsOperand.bracketed {text : String} (h : StartsOperand text) (b : Bool) :
    StartsOperand (bracketed b text) := by
  cases b with
  | false => exact h
  | true =>
    have hopen : StartsOperand "(" := ⟨'(', rfl, by decide⟩
    exact (hopen.append _).append _

theorem startsOperand_name {w : String} (hw : isName w = true) : StartsOperand w := by
  obtain ⟨c, cs, hcs, hc, -⟩ := exists_cons_of_isName hw
  refine ⟨c, by rw [hcs]; rfl, ?_⟩
  rintro rfl
  exact absurd hc (by decide +kernel)

theorem Term.Plain.startsOperand (s : Style) (d : Nat) {t : Term} (h : t.Plain) :
    ∀ parent right, StartsOperand (t.print s d parent right) := by
  have hopen : StartsOperand "[ " := ⟨'[', rfl, by decide⟩
  induction h with
  | name hw =>
    intro parent right
    rw [print_raw]
    exact startsOperand_name hw
  | number n =>
    intro parent right
    obtain ⟨c, cs, hcs, hc, -⟩ := n.exists_startsNumeral []
    rw [List.append_nil] at hcs
    rw [print_raw]
    refine ⟨c, by simp [hcs], ?_⟩
    rintro rfl
    simp [startsNumeral] at hc
  | list =>
    intro parent right
    rw [print_list, listText]
    split
    · exact ⟨'[', rfl, by decide⟩
    · exact (hopen.append _).append _
  | call hf =>
    intro parent right
    rw [print_call]
    exact (((startsOperand_name hf).append _).append _).append _
  | binary _ _ _ ihl =>
    intro parent right
    rw [print_binary]
    exact (((((ihl _ _).append _).append _).append _).append _).bracketed _
  | not =>
    intro parent right
    have hbang : StartsOperand "!" := ⟨'!', rfl, by decide⟩
    rw [print_unary]
    exact (hbang.append _).bracketed _
  | concat _ _ ihl =>
    intro parent right
    rw [print_concat]
    exact (((ihl _ _).append _).append _).append _
  | cons =>
    intro parent right
    rw [print_cons]
    exact (((hopen.append _).append _).append _).append _
  | ternary _ _ _ ihc =>
    intro parent right
    rw [print_ternary]
    exact (((((ihc _ _).append _).append _).append _).append _).bracketed _

theorem mem_spacedMarks : ∀ op ∈ binaryOperators, op ∈ spacedMarks := by decide

/-- The dot that calls a method of a term at the tightest place. -/
theorem lex_concat_dot {s : Style} {d : Nat} {t : Term} (h : t.Plain)
    (ih : ∀ rest, t.Ends tightest rest →
      lex ((t.print s d tightest false).toList ++ rest) = t.tokens tightest false ++ lex rest)
    (rest : List Char) :
    lex ((t.print s d tightest false).toList ++ (".concat(".toList ++ rest))
      = dotted (t.tokens tightest false) t ++ .word "concat" :: .mark "(" :: lex rest := by
  have hword : lex ("concat(".toList ++ rest) = .word "concat" :: .mark "(" :: lex rest := by
    have hcall : "concat(".toList ++ rest = "concat".toList ++ ("(".toList ++ rest) := rfl
    rw [hcall, lex_word (by decide +kernel) (not_continues_open rest), lex_closedMark (by decide)]
  rw [← hword]
  cases t with
  | raw text =>
    rw [print_raw]
    exact lex_atom_dot h (by decide +kernel) (by decide) _
  | _ =>
    rw [ih _ (.inr ⟨rfl, by simp⟩), dotted, List.append_assoc]
    · exact congrArg _ (lex_dot (by decide +kernel) _)
    · simp

/-- **The text of a plain term falls into its tokens.** -/
theorem lex_print (s : Style) (d : Nat) {t : Term} (h : t.Plain) :
    ∀ (parent : Nat) (right : Bool) (rest : List Char), t.Ends parent rest →
      lex ((t.print s d parent right).toList ++ rest) = t.tokens parent right ++ lex rest := by
  induction h with
  | @name w hw hk =>
    intro parent right rest hr
    rw [print_raw, Term.tokens]
    exact lex_atom (.name hw hk) (hr.resolve_right fun h => h.2 w rfl)
  | number n =>
    intro parent right rest hr
    rw [print_raw, Term.tokens]
    exact lex_atom (.number n) (hr.resolve_right fun h => h.2 _ rfl)
  | list h ih =>
    intro parent right rest _
    rw [print_list, Term.tokens]
    exact lex_listText (forall₂_printTerms fun t ht rest hrest => ih t ht _ _ _ (.inl hrest)) rest
  | call hf hk h ih =>
    intro parent right rest _
    have hargs := forall₂_printTerms (s := s) (d := d) fun t ht rest hrest =>
      ih t ht lowest false rest (.inl hrest)
    rw [print_call, Term.tokens, String.toList_append, String.toList_append, String.toList_append,
      List.append_assoc, List.append_assoc, List.append_assoc, lex_word hf (not_continues_open _),
      lex_closedMark (by decide), lex_join hargs (.text (by decide) _), lex_closedMark (by decide)]
    simp
  | @binary op l r hop hl hr ihl ihr =>
    intro parent right rest hends
    rw [print_binary, Term.tokens]
    refine lex_bracketed (fun rest hrest => ?_) (hends.bracketed_binary hop)
    simp only [String.toList_append, List.append_assoc]
    rw [ihl _ _ _ (.inl (.text (by decide) _)), lex_operator (mem_spacedMarks op hop),
      ihr _ _ _ (.inl hrest), List.cons_append]
  | @not t h ih =>
    intro parent right rest hends
    rw [print_unary, Term.tokens]
    refine lex_bracketed (fun rest hrest => ?_) (hends.bracketed_of_lt (by decide))
    obtain ⟨c, hc, hne⟩ := h.startsOperand s d unaryStrength true
    rw [String.toList_append, List.append_assoc]
    have hbang : ((t.print s d unaryStrength true).toList ++ rest).head? ≠ some '=' := by
      rw [List.head?_append, Option.mem_def.mp hc]
      simpa using hne
    rw [List.cons_append, ← ih _ _ _ (.inl hrest)]
    exact lex_bang hbang
  | @concat l r hl hr ihl ihr =>
    intro parent right rest _
    rw [print_concat, Term.tokens]
    simp only [String.toList_append, List.append_assoc]
    rw [lex_concat_dot hl (ihl _ _), ihr _ _ _ (.inl (.text (by decide) _)),
      lex_closedMark (by decide)]
    simp
  | cons hl hr ihl ihr =>
    intro parent right rest _
    have hcomma : ", ...".toList = ", ".toList ++ "...".toList := rfl
    rw [print_cons, Term.tokens]
    simp only [String.toList_append, List.append_assoc, hcomma]
    rw [lex_openList, ihl _ _ _ (.inl (.text (by decide) _)), lex_comma, lex_spread,
      ihr _ _ _ (.inl (.text (by decide) _)), lex_closeList]
    simp
  | ternary hc hy hn ihc ihy ihn =>
    intro parent right rest hends
    rw [print_ternary, Term.tokens]
    refine lex_bracketed (fun rest hrest => ?_) (hends.bracketed_of_lt (by decide))
    have hq : " ? ".toList = " ".toList ++ ("?".toList ++ " ".toList) := rfl
    have hcolon : " : ".toList = " ".toList ++ (":".toList ++ " ".toList) := rfl
    simp only [String.toList_append, List.append_assoc, hq, hcolon]
    rw [ihc _ _ _ (.inl (.text (by decide) _)), lex_operator (by decide),
      ihy _ _ _ (.inl (.text (by decide) _)), lex_operator (by decide), ihn _ _ _ (.inl hrest)]
    simp

end Derw.Script
