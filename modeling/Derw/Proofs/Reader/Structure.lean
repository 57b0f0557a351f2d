import Derw.Proofs.Reader.Printed
import Derw.Script.Program

/-!
# Proofs/Reader/Structure — a printed expression keeps its structure

    expression ──lower──▸ term ──print──▸ text ──lex──▸ tokens ──read──▸ tree

The printer knows of a place only how tightly the operator around it binds, and whether the place is
on its right. That is enough: what it prints there without brackets is not taken apart by the frames
in front of it (`Fits`), and the frames inside are settled by whatever comes behind. So the text of
an expression is read as the tree it stands for (`parse?_compile`), unless a whole number stands
before `++`: in `1.concat(xs)` the dot belongs to the number, and the text is not read at all.
-/

namespace Derw.Script

open Reader

/-! ## Strengths and tiers -/

/-- The strengths that the printer distinguishes. -/
def strengths : List Nat := [1, 2, 3, 4, 7, 8, unaryStrength, tightest]

/-- The level at which the reader settles what was printed with a strength. -/
def rank (strength : Nat) : Nat := strengths.countP (· ≤ strength)

/-- Stronger operators have a higher rank. -/
theorem rank_mono {p q : Nat} (h : p ≤ q) : rank p ≤ rank q :=
  List.countP_mono_left fun _ _ hp => decide_eq_true ((of_decide_eq_true hp).trans h)

theorem rank_le_callLevel (p : Nat) : rank p ≤ callLevel := List.countP_le_length

/-- The tier an operator is read at is the rank of its strength. -/
theorem level?_eq_rank : ∀ op ∈ binaryOperators, level? op = some (rank (strength op)) := by decide

/-- Operators of different strength are read at different tiers. -/
theorem rank_lt_rank : ∀ op ∈ binaryOperators, ∀ op' ∈ binaryOperators,
    strength op < strength op' → rank (strength op) < rank (strength op') := by decide

/-- A minus sign or a negation is stronger than every operator between two terms. -/
theorem strength_lt_unaryStrength : ∀ op ∈ binaryOperators, strength op < unaryStrength := by decide

/-- What is printed without brackets at this place is not taken apart by the frames before it. -/
def Fits (parent : Nat) (right : Bool) (fs : List Frame) : Prop :=
  ∀ op ∈ binaryOperators, needsBrackets (strength op) parent right = false →
    Clear (rank (strength op)) fs

section

variable {fs : List Frame} {parent : Nat} {right : Bool}

/-- Without brackets a term is at least as strong as what it stands in. -/
theorem le_of_needsBrackets {own : Nat} (h : needsBrackets own parent right = false) :
    parent ≤ own := by
  simp only [needsBrackets, Bool.or_eq_false_iff, decide_eq_false_iff_not, not_lt] at h
  exact h.1

theorem fits_of_clear (h : Clear (rank parent) fs) : Fits parent false fs :=
  fun _ _ hb => h.mono (rank_mono (le_of_needsBrackets hb))

/-- On the right of an operator stands only what binds tighter. -/
theorem fits_right {op : String} (hop : op ∈ binaryOperators) (left : Tree) :
    Fits (strength op) true (.right op left :: fs) := by
  intro op' hop' hb
  have hlt : strength op < strength op' := by
    simp only [needsBrackets, Bool.and_true, Bool.or_eq_false_iff, decide_eq_false_iff_not,
      beq_eq_false_iff_ne] at hb
    omega
  refine clear_cons fun k hk => ?_
  obtain rfl : rank (strength op) = k := Option.some.inj ((level?_eq_rank op hop).symm.trans hk)
  exact rank_lt_rank op hop op' hop' hlt

/-- Where no operator stands without brackets. -/
theorem fits_of_unaryStrength_le (h : unaryStrength ≤ parent) : Fits parent right fs := by
  intro op hop hb
  have := strength_lt_unaryStrength op hop
  have := le_of_needsBrackets hb
  omega

/-- A frame that has no tier stops nothing. -/
theorem fits_of_none {f : Frame} (h : f.level? = none) : Fits parent false (f :: fs) :=
  fits_of_clear (clear_of_none h)

/-- A conditional is printed without brackets only where nothing takes it apart. -/
theorem Fits.clear_one (h : Fits lowest right fs) : Clear 1 fs :=
  h "||" (by decide) (by cases right <;> decide)

end

/-! ## Reading a term -/

/-- Brackets are left out only if what is printed fits. -/
theorem yields_bracket {own parent c : Nat} {b : Bool} {fs : List Frame} {ts : List Token}
    {t : Tree} (h : ∀ gs, Clear c gs → Yields (rank own) gs ts t)
    (hb : b = false → parent ≤ own ∧ Clear c fs) : Yields (rank parent) fs (bracket b ts) t := by
  cases b with
  | false =>
    obtain ⟨hle, hclear⟩ := hb rfl
    exact (h fs hclear).mono (rank_mono hle)
  | true =>
    have hgroup : Yields (rank own) (.group :: fs) ts t := h _ (clear_of_none rfl)
    exact (hgroup.mono (Nat.zero_le _)).group.mono (rank_le_callLevel parent)

theorem not_mem_of_binaryOperator : ∀ op ∈ binaryOperators, op ∉ [".", "(", "?"] := by decide

/-- Brackets do not spoil what they enclose. -/
theorem any_bracket (b : Bool) (ts : List Token) :
    (bracket b ts).any Token.isMalformed = ts.any Token.isMalformed := by
  cases b <;> simp [bracket, Token.isMalformed]

/-- Whether the term prints as digits only. -/
def Term.isWholeNumber : Term → Bool
  | .raw body => isInteger body
  | _ => false

/-- A dot goes behind any other term. -/
theorem dotted_eq {t : Term} (h : t.isWholeNumber = false) (ts : List Token) :
    dotted ts t = ts ++ [.mark "."] := by
  unfold dotted
  split
  next body =>
    have hint : isInteger body = false := h
    rw [hint]
    rfl
  next => rfl

/-- Behind a whole number the dot makes a malformed token, and behind nothing else. -/
theorem any_dotted (ts : List Token) (t : Term) :
    (dotted ts t).any Token.isMalformed = (t.isWholeNumber || ts.any Token.isMalformed) := by
  cases h : t.isWholeNumber with
  | false =>
    rw [dotted_eq h, List.any_append]
    exact Bool.or_false _
  | true =>
    unfold Term.isWholeNumber at h
    split at h
    · rw [dotted, if_pos h]
      rfl
    · cases h

theorem tokensOf_eq_map (items : List Term) :
    tokensOf items = items.map (·.tokens lowest false) := by
  induction items with
  | nil => rfl
  | cons t ts ih => rw [tokensOf, ih, List.map_cons]

theorem treesOf_eq_map (items : List Term) : treesOf items = items.map Term.tree := by
  induction items with
  | nil => rfl
  | cons t ts ih => rw [treesOf, ih, List.map_cons]

/-- Items between commas, each read after a frame that takes nothing apart. -/
theorem forall₂_yields {items : List Term} {frame : List Tree → Frame}
    (hf : ∀ before, (frame before).level? = none) {fs : List Frame}
    (hm : (commas (tokensOf items)).any Token.isMalformed = false)
    (h : ∀ t ∈ items, ∀ gs, (t.tokens lowest false).any Token.isMalformed = false →
      Fits lowest false gs → Yields (rank lowest) gs (t.tokens lowest false) t.tree) :
    List.Forall₂ (fun ts t => ∀ before, Yields 0 (frame before :: fs) ts t) (tokensOf items)
      (treesOf items) := by
  rw [tokensOf_eq_map] at hm ⊢
  rw [any_commas rfl, List.any_map, List.any_eq_false] at hm
  rw [treesOf_eq_map, List.forall₂_map_left_iff, List.forall₂_map_right_iff, List.forall₂_same]
  intro t ht before
  exact h t ht _ (by simpa using hm t ht) (fits_of_none (hf before))

/-- **The tokens of a plain term are read as its tree**, if none is malformed. -/
theorem Term.Plain.yields {t : Term} (h : t.Plain) :
    ∀ parent right fs, (t.tokens parent right).any Token.isMalformed = false →
      Fits parent right fs → Yields (rank parent) fs (t.tokens parent right) t.tree := by
  induction h with
  | @name w hw hk =>
    intro parent right fs _ _
    rw [Term.tokens, Term.tree, atomToken, if_pos hw]
    exact (yields_word hk).mono (rank_le_callLevel parent)
  | number n =>
    intro parent right fs _ _
    rw [Term.tokens, Term.tree, atomToken, isName_numeral]
    exact (yields_number _).mono (rank_le_callLevel parent)
  | list h ih =>
    intro parent right fs hm _
    rw [Term.tokens] at hm ⊢
    simp only [List.cons_append, List.any_cons, List.any_append, Bool.or_eq_false_iff] at hm
    rw [Term.tree]
    refine (yields_array ?_).mono (rank_le_callLevel parent)
    exact forall₂_yields (fun _ => rfl) hm.2.1 fun t ht gs => ih t ht _ _ gs
  | call hf hk h ih =>
    intro parent right fs hm _
    rw [Term.tokens] at hm ⊢
    simp only [List.cons_append, List.any_cons, List.any_append, Bool.or_eq_false_iff] at hm
    rw [Term.tree]
    refine (yields_call hk ?_).mono (rank_le_callLevel parent)
    exact forall₂_yields (fun _ => rfl) hm.2.2.1 fun t ht gs => ih t ht _ _ gs
  | @binary op l r hop hl hr ihl ihr =>
    intro parent right fs hm hfits
    have hmark : op ∉ [".", "(", "?"] := not_mem_of_binaryOperator op hop
    rw [Term.tokens] at hm ⊢
    rw [any_bracket, List.any_append, List.any_cons, Bool.or_eq_false_iff,
      Bool.or_eq_false_iff] at hm
    have hinner : ∀ gs, Clear (rank (strength op)) gs → Yields (rank (strength op)) gs
        (l.tokens (strength op) false ++ .mark op :: r.tokens (strength op) true)
        (.binary op l.tree r.tree) := by
      intro gs hclear
      have hleft := ihl (strength op) false gs hm.1 (fits_of_clear hclear)
      have hright := ihr (strength op) true (.right op l.tree :: gs) hm.2.2 (fits_right hop _)
      exact .binary (level?_eq_rank op hop) hmark hclear hleft hright
    rw [Term.tree]
    exact yields_bracket hinner fun hb => ⟨le_of_needsBrackets hb, hfits op hop hb⟩
  | @not t h ih =>
    intro parent right fs hm hfits
    rw [Term.tokens] at hm ⊢
    rw [any_bracket, List.any_cons, Bool.or_eq_false_iff] at hm
    have hinner : ∀ gs, Clear callLevel gs → Yields (rank unaryStrength) gs
        (.mark "!" :: t.tokens unaryStrength true) (.not t.tree) := fun gs _ =>
      .not (ih unaryStrength true (.not :: gs) hm.2 (fits_of_unaryStrength_le (Nat.le_refl _)))
    rw [Term.tree]
    exact yields_bracket hinner fun hb =>
      ⟨by simpa using hb, fun _ _ _ hk => Frame.lt_callLevel hk⟩
  | @concat l r hl hr ihl ihr =>
    intro parent right fs hm _
    rw [Term.tokens] at hm ⊢
    rw [List.any_append, Bool.or_eq_false_iff] at hm
    obtain ⟨hdot, hrest⟩ := hm
    rw [any_dotted, Bool.or_eq_false_iff] at hdot
    simp only [List.any_cons, List.any_append, Bool.or_eq_false_iff] at hrest
    have hleft := ihl tightest false fs hdot.2 (fits_of_unaryStrength_le (by decide))
    have hright : ∀ before, Yields 0 (.arg (.member l.tree "concat") before :: fs)
        (r.tokens lowest false) r.tree := fun before =>
      ihr lowest false _ hrest.2.2.1 (fits_of_none rfl)
    rw [dotted_eq hdot.1, Term.tree, List.append_assoc, List.singleton_append]
    exact (hleft.callMember "concat" hright).mono (rank_le_callLevel parent)
  | @cons l r hl hr ihl ihr =>
    intro parent right fs hm _
    rw [Term.tokens] at hm ⊢
    simp only [List.any_cons, List.any_append, Bool.or_eq_false_iff] at hm
    have hhead := ihl lowest false (.item [] :: fs) hm.2.1 (fits_of_none rfl)
    have htail := ihr tightest false (.spread [l.tree] :: fs) hm.2.2.2.2.1 (fits_of_none rfl)
    rw [Term.tree]
    exact (yields_spread hhead (htail.mono (Nat.zero_le _))).mono (rank_le_callLevel parent)
  | @ternary c y n hc hy hn ihc ihy ihn =>
    intro parent right fs hm hfits
    rw [Term.tokens] at hm ⊢
    simp only [any_bracket, List.any_cons, List.any_append, Bool.or_eq_false_iff] at hm
    have hinner : ∀ gs, Clear 1 gs → Yields (rank lowest) gs (c.tokens armStrength false
        ++ .mark "?" :: (y.tokens armStrength false ++ .mark ":" :: n.tokens armStrength false))
        (.conditional c.tree y.tree n.tree) := by
      intro gs hclear
      have hno : Clear 1 (.no c.tree y.tree :: gs) := clear_cons fun k hk => by cases hk; decide
      have hcond := ihc armStrength false gs hm.1 (fits_of_clear hclear)
      have hyes := ihy armStrength false (.yes c.tree :: gs) hm.2.2.1 (fits_of_none rfl)
      have hno := ihn armStrength false _ hm.2.2.2.2 (fits_of_clear hno)
      exact hcond.conditional hclear (hyes.mono (Nat.zero_le _)) (hno.mono (Nat.zero_le _))
    rw [Term.tree]
    refine yields_bracket hinner fun hb => ?_
    obtain rfl : parent = lowest := Nat.le_zero.mp (Nat.not_lt.mp (of_decide_eq_false hb))
    exact ⟨Nat.le_refl _, hfits.clear_one⟩

/-- Tokens that yield one tree are read as that tree. -/
theorem parse?_of_yields {text : String} {t : Tree} (h : Yields 0 [] (lex text.toList) t) :
    parse? text = some t := by
  obtain ⟨fs, t', hread, hsettle⟩ := h
  rw [parse?, hread, Option.bind_some, State.result?, hsettle]
  rfl

/-- A plain term is printed as its tokens. -/
theorem Term.Plain.lex_toText {t : Term} (h : t.Plain) (s : Style) :
    lex (t.toText s).toList = t.tokens lowest false := by
  have hprint := lex_print s 0 h lowest false [] (.inl fun c hc => by cases hc)
  rwa [List.append_nil, lex, List.append_nil] at hprint

/-- What the text of a plain term is read as. -/
theorem Term.Plain.parse?_toText {t : Term} (h : t.Plain) (s : Style) :
    parse? (t.toText s)
      = if (t.tokens lowest false).any Token.isMalformed then none else some t.tree := by
  split
  next hm =>
    rw [parse?, h.lex_toText, readAll_of_malformed hm]
    rfl
  next hm =>
    refine parse?_of_yields ?_
    rw [h.lex_toText]
    exact h.yields lowest false [] (by simpa using hm) (fits_of_clear clear_nil)

end Derw.Script

/-! ## Expressions -/

namespace Derw.Expr

open Script Reader

/-- The documented binary operators. -/
def operators : List String :=
  ["+", "-", "*", "/", "%", "==", "!=", "<", "<=", ">", ">=", "&&", "||", "and", "or", "++", "::"]

/-- Names, unsigned numbers, lists, calls, operators and conditionals without declarations. -/
inductive Plain : Expr → Prop
  | name {w : String} (hw : isName w = true) (hk : keywords.contains w = false) : Plain (.value w)
  | number (n : Numeral) : Plain (.value (String.ofList n.text))
  | list {items : List Expr} (h : ∀ e ∈ items, Plain e) : Plain (.list items)
  | call {f : String} {args : List Expr} (hf : isName f = true) (hk : keywords.contains f = false)
    (h : ∀ e ∈ args, Plain e) : Plain (.call f args)
  | binary {op : String} {l r : Expr} (hop : op ∈ operators) (hl : Plain l) (hr : Plain r) :
    Plain (.binary op l r)
  | not {op : String} {e : Expr} (hop : op ∈ ["!", "not"]) (h : Plain e) : Plain (.unary op e)
  | ifElse {c y n : Expr} (hc : Plain c) (hy : Plain y) (hn : Plain n) :
    Plain (.ifElse c [] y [] n)

/-- What a binary operator stands for in the target. -/
def operatorTree (op : String) (l r : Tree) : Tree :=
  match op with
  | "==" => .binary "===" l r
  | "!=" => .binary "!==" l r
  | "and" => .binary "&&" l r
  | "or" => .binary "||" l r
  | "++" => .call (.member l "concat") [r]
  | "::" => .array [l, .spread r]
  | _ => .binary op l r

mutual

/-- What a plain expression stands for in the target. -/
def tree : Expr → Tree
  | .value body => .atom body
  | .list items => .array (treesOf items)
  | .call f args => .call (.atom f) (treesOf args)
  | .binary op l r => operatorTree op l.tree r.tree
  | .unary _ e => .not e.tree
  | .ifElse c _ y _ n => .conditional c.tree y.tree n.tree
  | _ => .atom "undefined"

/-- The trees of a list of expressions. -/
def treesOf : List Expr → List Tree
  | [] => []
  | e :: es => e.tree :: treesOf es

end

/-- Whether the expression prints as digits only. -/
def isWholeNumber : Expr → Bool
  | .value body => isInteger body
  | _ => false

mutual

/-- Whether somewhere in a plain expression a whole number stands before `++`. -/
def appendsToNumber : Expr → Bool
  | .list items => anyAppendsToNumber items
  | .call _ args => anyAppendsToNumber args
  | .binary op l r =>
    (op == "++" && l.isWholeNumber) || l.appendsToNumber || r.appendsToNumber
  | .unary _ e => e.appendsToNumber
  | .ifElse c _ y _ n => c.appendsToNumber || y.appendsToNumber || n.appendsToNumber
  | _ => false

/-- Whether any of the expressions appends to a whole number. -/
def anyAppendsToNumber : List Expr → Bool
  | [] => false
  | e :: es => e.appendsToNumber || anyAppendsToNumber es

end

/-- An operator appends to a number itself, or one of its sides does. -/
theorem appendsToNumber_binary (op : String) (l r : Expr) : (binary op l r).appendsToNumber
    = ((op == "++" && l.isWholeNumber) || l.appendsToNumber || r.appendsToNumber) := rfl

/-- A term that stands for an expression. -/
structure Stands (t : Term) (e : Expr) : Prop where
  plain : t.Plain
  tree : t.tree = e.tree
  whole : t.isWholeNumber = e.isWholeNumber
  malformed : ∀ parent right, (t.tokens parent right).any Token.isMalformed = e.appendsToNumber

theorem treesOf_eq_map (es : List Expr) : treesOf es = es.map tree := by
  induction es with
  | nil => rfl
  | cons e es ih => rw [treesOf, ih, List.map_cons]

theorem anyAppendsToNumber_eq_any (es : List Expr) :
    anyAppendsToNumber es = es.any appendsToNumber := by
  induction es with
  | nil => rfl
  | cons e es ih => rw [anyAppendsToNumber, ih, List.any_cons]

theorem lowerAll_eq_map (d : Nat) (es : List Expr) :
    lowerAll d es = es.map fun e => (lower d .nothing e).term := by
  induction es with
  | nil => rfl
  | cons e es ih => rw [lowerAll, ih, List.map_cons]

section

variable {d : Nat} {es : List Expr} (h : ∀ e ∈ es, Stands (lower d .nothing e).term e)

include h

/-- The terms have the trees of the expressions. -/
theorem treesOf_lowerAll : Script.treesOf (lowerAll d es) = treesOf es := by
  rw [lowerAll_eq_map, treesOf_eq_map, Script.treesOf_eq_map, List.map_map]
  exact List.map_congr_left fun e he => (h e he).tree

/-- Their tokens are malformed where an expression appends to a number. -/
theorem any_tokensOf_lowerAll :
    (commas (tokensOf (lowerAll d es))).any Token.isMalformed = anyAppendsToNumber es := by
  have hmap : es.map (fun e => ((lower d .nothing e).term.tokens lowest false).any
      Token.isMalformed) = es.map appendsToNumber :=
    List.map_congr_left fun e he => (h e he).malformed lowest false
  rw [any_commas rfl, tokensOf_eq_map, lowerAll_eq_map, anyAppendsToNumber_eq_any]
  simpa [List.any_map, Function.comp_def] using congrArg (List.any · id) hmap

theorem plain_lowerAll : ∀ t ∈ lowerAll d es, t.Plain := by
  rw [lowerAll_eq_map]
  exact List.forall_mem_map.mpr fun e he => (h e he).plain

end

/-- A plain word stands for itself. -/
theorem stands_value {w : String} (h : (Term.raw w).Plain) : Stands (.raw w) (.value w) where
  plain := h
  tree := rfl
  whole := rfl
  malformed _ _ := by
    rw [Term.tokens, atomToken]
    split <;> rfl

/-- A list stands for a list of what its items stand for. -/
theorem stands_list {d : Nat} {es : List Expr}
    (h : ∀ e ∈ es, Stands (lower d .nothing e).term e) :
    Stands (.list (lowerAll d es)) (.list es) where
  plain := .list (plain_lowerAll h)
  tree := by rw [Term.tree, treesOf_lowerAll h]; rfl
  whole := rfl
  malformed parent right := by
    change _ = anyAppendsToNumber es
    rw [Term.tokens, List.cons_append, List.any_cons, List.any_append, any_tokensOf_lowerAll h]
    simp [Token.isMalformed]

/-- A call does so for its arguments. -/
theorem stands_call {d : Nat} {f : String} {es : List Expr} (hf : isName f = true)
    (hk : keywords.contains f = false) (h : ∀ e ∈ es, Stands (lower d .nothing e).term e) :
    Stands (lower d .nothing (.call f es)).term (.call f es) := by
  have hterm : (lower d .nothing (.call f es)).term = .call f (lowerAll d es) := by
    rw [lower.eq_def]
    exact congrArg _ (List.append_nil _)
  rw [hterm]
  refine ⟨.call hf hk (plain_lowerAll h), ?_, rfl, fun parent right => ?_⟩
  · rw [Term.tree, treesOf_lowerAll h]; rfl
  · change _ = anyAppendsToNumber es
    rw [Term.tokens, List.cons_append, List.cons_append, List.any_cons, List.any_cons,
      List.any_append, any_tokensOf_lowerAll h]
    simp [Token.isMalformed]

/-- An operator that prints as one, between what its sides stand for. -/
theorem Stands.binary {op op' : String} {l r : Term} {a b : Expr} (hop : op' ∈ binaryOperators)
    (htree : operatorTree op a.tree b.tree = .binary op' a.tree b.tree) (hne : op ≠ "++")
    (hl : Stands l a) (hr : Stands r b) : Stands (.binary op' l r) (.binary op a b) where
  plain := .binary hop hl.plain hr.plain
  tree := by rw [Term.tree, hl.tree, hr.tree]; exact htree.symm
  whole := rfl
  malformed parent right := by
    rw [Term.tokens, any_bracket, List.any_append, List.any_cons, hl.malformed, hr.malformed,
      appendsToNumber_binary, beq_false_of_ne hne]
    rfl

/-- Appending is a call on the left side, behind a dot. -/
theorem Stands.append {l r : Term} {a b : Expr} (hl : Stands l a) (hr : Stands r b) :
    Stands (.concat l r) (.binary "++" a b) where
  plain := .concat hl.plain hr.plain
  tree := by rw [Term.tree, hl.tree, hr.tree]; rfl
  whole := rfl
  malformed parent right := by
    rw [Term.tokens, List.any_append, any_dotted, List.any_cons, List.any_cons, List.any_append,
      hl.malformed, hr.malformed, hl.whole, appendsToNumber_binary]
    simp [Token.isMalformed]

/-- Prepending is a list that spreads the right side. -/
theorem Stands.cons {l r : Term} {a b : Expr} (hl : Stands l a) (hr : Stands r b) :
    Stands (.cons l r) (.binary "::" a b) where
  plain := .cons hl.plain hr.plain
  tree := by rw [Term.tree, hl.tree, hr.tree]; rfl
  whole := rfl
  malformed parent right := by
    rw [Term.tokens, List.any_cons, List.any_append, List.any_cons, List.any_cons, List.any_append,
      hl.malformed, hr.malformed, appendsToNumber_binary]
    simp [Token.isMalformed]

/-- Each operator of the source prints as one of the three. -/
theorem stands_lowerBinary {op : String} (hop : op ∈ operators) {l r : Term} {a b : Expr}
    (hl : Stands l a) (hr : Stands r b) : Stands (lowerBinary op l r) (.binary op a b) := by
  simp only [operators, List.mem_cons, List.not_mem_nil, or_false] at hop
  rcases hop with rfl | rfl | rfl | rfl | rfl | rfl | rfl | rfl | rfl | rfl | rfl | rfl | rfl |
    rfl | rfl | rfl | rfl <;>
    first
      | exact hl.append hr
      | exact hl.cons hr
      | exact hl.binary (by decide) rfl (by decide) hr

/-- A condition is a ternary term. -/
theorem Stands.conditional {c y n : Term} {e f g : Expr} (hc : Stands c e) (hy : Stands y f)
    (hn : Stands n g) : Stands (.ternary c y n) (.ifElse e [] f [] g) where
  plain := .ternary hc.plain hy.plain hn.plain
  tree := by rw [Term.tree, hc.tree, hy.tree, hn.tree]; rfl
  whole := rfl
  malformed parent right := by
    change _ = (e.appendsToNumber || f.appendsToNumber || g.appendsToNumber)
    rw [Term.tokens, any_bracket, List.any_append, List.any_cons, List.any_append, List.any_cons,
      hc.malformed, hy.malformed, hn.malformed]
    simp [Token.isMalformed, Bool.or_assoc]

/-- A negation stands in front of its operand. -/
theorem Stands.not {op : String} {t : Term} {e : Expr} (h : Stands t e) :
    Stands (.unary "!" t) (.unary op e) where
  plain := .not h.plain
  tree := by rw [Term.tree, h.tree]; rfl
  whole := rfl
  malformed parent right := by
    rw [Term.tokens, any_bracket, List.any_cons, h.malformed]
    rfl

/-- Lowering keeps what an expression stands for. -/
theorem Plain.stands {e : Expr} (h : e.Plain) (d : Nat) : Stands (lower d .nothing e).term e := by
  induction h with
  | name hw hk => exact stands_value (.name hw hk)
  | number n => exact stands_value (.number n)
  | list _ ih => exact stands_list ih
  | call hf hk _ ih => exact stands_call hf hk ih
  | binary hop _ _ ihl ihr => exact stands_lowerBinary hop ihl ihr
  | not hop _ ih =>
    simp only [List.mem_cons, List.not_mem_nil, or_false] at hop
    rcases hop with rfl | rfl <;> exact ih.not
  | ifElse _ _ _ ihc ihy ihn => exact ihc.conditional ihy ihn

/-- The numeral `1`. -/
def one : Numeral where
  whole := ['1']
  frac := []
  exp := []
  whole_digits := List.forall_mem_singleton.mpr rfl
  frac_shape := .inl rfl
  exp_shape := .inl rfl
  starts := .inl (by decide)
  no_leading_zero := rfl

/-- **Printing keeps the structure of an expression**: its text is read as the tree it stands for,
unless a whole number stands before `++`, and then it is not read. -/
theorem parse?_compile {e : Expr} (h : e.Plain) (target : Target) :
    parse? (e.compile target) = if e.appendsToNumber then none else some e.tree := by
  have hstands : Stands (termOf e) e := h.stands 0
  rw [compile, hstands.plain.parse?_toText, hstands.malformed, hstands.tree]

/-- Brackets where they are needed: `!(a === b) ? (1 + x) * f(y) : [ x ].concat([ y, ...ys ])`. -/
theorem parse?_compile_brackets :
    parse? ((ifElse (.unary "not" (.binary "==" (.value "a") (.value "b"))) []
        (.binary "*" (.binary "+" (.value "1") (.value "x")) (.call "f" [.value "y"])) []
        (.binary "++" (.list [.value "x"]) (.binary "::" (.value "y") (.value "ys")))).compile
          .typeScript)
      = some (.conditional (.not (.binary "===" (.atom "a") (.atom "b")))
        (.binary "*" (.binary "+" (.atom "1") (.atom "x")) (.call (.atom "f") [.atom "y"]))
        (.call (.member (.array [.atom "x"]) "concat")
          [.array [.atom "y", .spread (.atom "ys")]])) := by
  have hname : ∀ w ∈ ["a", "b", "x", "y", "ys"], (value w).Plain := by
    have hall : ∀ w ∈ ["a", "b", "x", "y", "ys"],
        isName w = true ∧ keywords.contains w = false := by decide +kernel
    exact fun w hw => .name (hall w hw).1 (hall w hw).2
  refine parse?_compile (.ifElse ?_ ?_ ?_) .typeScript
  · exact .not (by decide) (.binary (by decide) (hname _ (by decide)) (hname _ (by decide)))
  · refine .binary (by decide) (.binary (by decide) (.number one) (hname _ (by decide))) ?_
    exact .call (by decide +kernel) (by decide)
      (List.forall_mem_singleton.mpr (hname _ (by decide)))
  · refine .binary (by decide) (.list (List.forall_mem_singleton.mpr (hname _ (by decide)))) ?_
    exact .binary (by decide) (hname _ (by decide)) (hname _ (by decide))

/-- A whole number takes the dot behind it. -/
theorem parse?_compile_number_append :
    (binary "++" (.value "1") (.value "xs")).Plain ∧
      (binary "++" (.value "1") (.value "xs")).compile .javaScript = "1.concat(xs)" ∧
      parse? "1.concat(xs)" = none := by
  have hplain : (binary "++" (.value "1") (.value "xs")).Plain :=
    .binary (by decide) (.number one) (.name (by decide +kernel) (by decide))
  have htext : (binary "++" (.value "1") (.value "xs")).compile .javaScript = "1.concat(xs)" := rfl
  refine ⟨hplain, htext, ?_⟩
  have hstands := hplain.stands 0
  rw [← htext, compile, termOf, hstands.plain.parse?_toText, hstands.malformed]
  rfl

end Derw.Expr
