import Derw.Proofs.Reader.Token
import Mathlib.Data.List.Forall2

/-!
# Proofs/Reader/Tree — how tokens are read as an expression

The second step of reading the target: the tokens of an expression, from left to right, once. What
has been begun and not ended is kept as a stack of `Frame`s, each waiting for one operand, and an
operand that has been read is given to the frames that bind it tighter than what comes next
(`settle`). So the precedence of the operators stands in one place, `tiers`, and left operands are
taken before right ones because a frame yields to an operator of its own tier.

`Yields` says that some tokens are read as a tree, up to the operands that wait for what follows;
there is one lemma for each form of expression.
-/

namespace Derw.Script.Reader

/-- Expressions as the target reads them. -/
inductive Tree
  /-- A name or a number. -/
  | atom (text : String)
  | array (items : List Tree)
  /-- The items of another array, among those of an array. -/
  | spread (array : Tree)
  | member (object : Tree) (name : String)
  | call (callee : Tree) (args : List Tree)
  | not (operand : Tree)
  | binary (operator : String) (left right : Tree)
  | conditional (condition yes no : Tree)

/-- The binary operators, those that bind least first. -/
def tiers : List (List String) :=
  [["||"], ["&&"], ["==", "!=", "===", "!=="], ["<", ">", "<=", ">="], ["+", "-"], ["*", "/", "%"]]

/-- The tier of an operator, counted from one: below all of them are conditionals. -/
def level? (operator : String) : Option Nat := (tiers.findIdx? (·.contains operator)).map (· + 1)

/-- How tightly `!` binds: tighter than every binary operator. -/
def notLevel : Nat := tiers.length + 1

/-- How tightly calls and members bind. -/
def callLevel : Nat := tiers.length + 2

/-- The words that are no names. -/
def keywords : List String :=
  ["await", "break", "case", "catch", "class", "const", "continue", "debugger", "default", "delete",
    "do", "else", "enum", "export", "extends", "finally", "for", "function", "if", "import", "in",
    "instanceof", "let", "new", "return", "static", "super", "switch", "throw", "try", "typeof",
    "var", "void", "while", "with", "yield"]

/-! ## The machine -/

/-- What waits for an operand. -/
inductive Frame
  /-- The right side of an operator. -/
  | right (operator : String) (left : Tree)
  | not
  | yes (condition : Tree)
  | no (condition onTrue : Tree)
  | group
  | item (before : List Tree)
  | spread (before : List Tree)
  | arg (callee : Tree) (before : List Tree)

/-- How tightly a frame binds its operand; a bracket keeps all that is inside it. -/
def Frame.level? : Frame → Option Nat
  | right operator _ => Reader.level? operator
  | not => some notLevel
  | no .. => some 0
  | yes _ | group | item _ | spread _ | arg .. => none

/-- The expression that a frame with an operand makes, if the operand ends it. -/
def Frame.fill (operand : Tree) : Frame → Tree
  | right operator left => .binary operator left operand
  | not => .not operand
  | no condition y => .conditional condition y operand
  | yes _ | group | item _ | spread _ | arg .. => operand

/-- Gives an operand to the frames that bind it at least as tightly as `level`. -/
def settle (level : Nat) : List Frame → Tree → List Frame × Tree
  | [], t => ([], t)
  | f :: fs, t => if f.level?.any (level ≤ ·) then settle level fs (f.fill t) else (f :: fs, t)

inductive State
  /-- An operand comes next. -/
  | wants (frames : List Frame)
  /-- An operand has been read. -/
  | holds (frames : List Frame) (operand : Tree)
  /-- A dot has been read after an operand. -/
  | names (frames : List Frame) (object : Tree)

/-- A mark where an operand is wanted. -/
def start? (frames : List Frame) : String → Option State
  | "!" => some (.wants (.not :: frames))
  | "(" => some (.wants (.group :: frames))
  | "[" => some (.wants (.item [] :: frames))
  | "..." =>
    match frames with
    | .item before :: fs => some (.wants (.spread before :: fs))
    | _ => none
  | "]" =>
    match frames with
    | .item before :: fs => some (.holds fs (.array before))
    | _ => none
  | ")" =>
    match frames with
    | .arg callee before :: fs => some (.holds fs (.call callee before))
    | _ => none
  | _ => none

/-- A mark that ends an operand in brackets or between the arms of a conditional. -/
def close? : List Frame × Tree → String → Option State
  | (.yes condition :: fs, t), ":" => some (.wants (.no condition t :: fs))
  | (.item before :: fs, t), "," => some (.wants (.item (before ++ [t]) :: fs))
  | (.spread before :: fs, t), "," => some (.wants (.item (before ++ [.spread t]) :: fs))
  | (.arg callee before :: fs, t), "," => some (.wants (.arg callee (before ++ [t]) :: fs))
  | (.item before :: fs, t), "]" => some (.holds fs (.array (before ++ [t])))
  | (.spread before :: fs, t), "]" => some (.holds fs (.array (before ++ [.spread t])))
  | (.arg callee before :: fs, t), ")" => some (.holds fs (.call callee (before ++ [t])))
  | (.group :: fs, t), ")" => some (.holds fs t)
  | _, _ => none

/-- A mark after an operand. -/
def extend? (frames : List Frame) (operand : Tree) (mark : String) : Option State :=
  match mark with
  | "." => some (.names frames operand)
  | "(" => some (.wants (.arg operand [] :: frames))
  | "?" =>
    let s := settle 1 frames operand
    some (.wants (.yes s.2 :: s.1))
  | _ =>
    match level? mark with
    | some l =>
      let s := settle l frames operand
      some (.wants (.right mark s.2 :: s.1))
    | none => close? (settle 0 frames operand) mark

/-- Reads one token. -/
def read? : State → Token → Option State
  | .wants fs, .word w => if keywords.contains w then none else some (.holds fs (.atom w))
  | .wants fs, .number n => some (.holds fs (.atom n))
  | .wants fs, .mark m => start? fs m
  | .holds fs t, .mark m => extend? fs t m
  | .names fs t, .word w => some (.holds fs (.member t w))
  | _, _ => none

/-- Reads tokens one after the other. -/
def readAll (s : State) (ts : List Token) : Option State := ts.foldlM read? s

/-- The expression that has been read, if it is complete. -/
def State.result? : State → Option Tree
  | holds fs t =>
    match settle 0 fs t with
    | ([], t) => some t
    | _ => none
  | wants _ | names .. => none

/-- The expression that a text is read as. -/
def parse? (text : String) : Option Tree :=
  (readAll (.wants []) (lex text.toList)).bind State.result?

/-! ## Settling -/

theorem level?_bounds {op : String} {l : Nat} (h : level? op = some l) :
    1 ≤ l ∧ l < notLevel := by
  obtain ⟨i, hi, rfl⟩ := Option.map_eq_some_iff.mp h
  obtain ⟨hlt, -⟩ := List.findIdx?_eq_some_iff_getElem.mp hi
  exact ⟨Nat.le_add_left _ _, Nat.succ_lt_succ hlt⟩

theorem Frame.lt_callLevel {f : Frame} {k : Nat} (h : f.level? = some k) : k < callLevel := by
  cases f with
  | right op left => exact Nat.lt_succ_of_lt (level?_bounds h).2
  | not => cases h; exact Nat.lt_succ_self _
  | no => cases h; exact Nat.succ_pos _
  | yes | group | item | spread | arg => cases h

/-- The last frame does not bind an operand as tightly as `level`. -/
def Clear (level : Nat) (fs : List Frame) : Prop :=
  ∀ f ∈ fs.head?, ∀ k, f.level? = some k → k < level

section

variable {fs : List Frame} {l l' : Nat}

theorem Clear.mono (h : Clear l fs) (hle : l ≤ l') : Clear l' fs :=
  fun f hf k hk => (h f hf k hk).trans_le hle

theorem clear_nil : Clear l [] := fun _ hf => by cases hf

theorem clear_cons {f : Frame} (h : ∀ k, f.level? = some k → k < l) : Clear l (f :: fs) := by
  rintro f' hf
  obtain rfl : f = f' := by simpa using hf
  exact h

theorem clear_of_none {f : Frame} (h : f.level? = none) : Clear l (f :: fs) :=
  clear_cons fun k hk => by rw [h] at hk; cases hk

theorem settle_of_clear (h : Clear l fs) (t : Tree) : settle l fs t = (fs, t) := by
  cases fs with
  | nil => rfl
  | cons f fs =>
    have hf : f.level?.any (l ≤ ·) = false := by
      cases hk : f.level? with
      | none => rfl
      | some k => simpa using h f rfl k hk
    rw [settle, hf]
    rfl

theorem settle_callLevel (fs : List Frame) (t : Tree) : settle callLevel fs t = (fs, t) :=
  settle_of_clear (fun _ _ _ hk => Frame.lt_callLevel hk) t

theorem settle_cons {f : Frame} {k : Nat} (hf : f.level? = some k) (h : l ≤ k) (t : Tree) :
    settle l (f :: fs) t = settle l fs (f.fill t) := by
  rw [settle, hf, Option.any_some, if_pos (by simpa using h)]

/-- What is settled for a tight operator can be settled further for a loose one. -/
theorem settle_settle (h : l ≤ l') (fs : List Frame) (t : Tree) :
    settle l (settle l' fs t).1 (settle l' fs t).2 = settle l fs t := by
  induction fs generalizing t with
  | nil => rfl
  | cons f fs ih =>
    rw [settle]
    split
    next hf =>
      rw [ih]
      cases hk : f.level? with
      | none => simp [hk] at hf
      | some k =>
        have hk' : l' ≤ k := by simpa [hk] using hf
        rw [settle_cons hk (h.trans hk')]
    next => rfl

end

/-! ## What tokens yield -/

theorem readAll_append (s : State) (ts us : List Token) :
    readAll s (ts ++ us) = (readAll s ts).bind (readAll · us) := List.foldlM_append

theorem readAll_cons (s : State) (t : Token) (ts : List Token) :
    readAll s (t :: ts) = (read? s t).bind (readAll · ts) := List.foldlM_cons

/-- Nothing is read past a malformed token. -/
theorem readAll_of_malformed {ts : List Token} (h : ts.any Token.isMalformed = true) (s : State) :
    readAll s ts = none := by
  induction ts generalizing s with
  | nil => cases h
  | cons t ts ih =>
    rw [readAll_cons]
    rw [List.any_cons, Bool.or_eq_true] at h
    rcases h with h | h
    · cases t with
      | malformed => cases s <;> rfl
      | word | number | mark => cases h
    · cases read? s t with
      | none => rfl
      | some s' => exact ih h s'

/-- Where an operand is wanted, the tokens are read as the tree `t`, except that frames which bind
tighter than `level` may still wait for what follows. -/
def Yields (level : Nat) (fs : List Frame) (ts : List Token) (t : Tree) : Prop :=
  ∃ fs' t', readAll (.wants fs) ts = some (.holds fs' t') ∧ settle level fs' t' = settle level fs t

section

variable {fs : List Frame} {ts us : List Token} {t u : Tree} {l l' : Nat}

theorem Yields.mono (h : Yields l' fs ts t) (hle : l ≤ l') : Yields l fs ts t := by
  obtain ⟨fs', t', hread, hsettle⟩ := h
  refine ⟨fs', t', hread, ?_⟩
  rw [← settle_settle hle fs' t', hsettle, settle_settle hle]

/-- At the level of calls nothing waits. -/
theorem yields_callLevel :
    Yields callLevel fs ts t ↔ readAll (.wants fs) ts = some (.holds fs t) := by
  simp only [Yields, settle_callLevel, Prod.mk.injEq]
  constructor
  · rintro ⟨fs', t', hread, rfl, rfl⟩
    exact hread
  · exact fun hread => ⟨fs, t, hread, rfl, rfl⟩

/-- The mark after an operand that ends it sees the operand settled. -/
theorem Yields.readAll_concat (h : Yields 0 fs ts t) {m : String} (hm : level? m = none)
    (hm' : m ∉ [".", "(", "?"]) :
    readAll (.wants fs) (ts ++ [.mark m]) = close? (settle 0 fs t) m := by
  obtain ⟨fs', t', hread, hsettle⟩ := h
  simp only [List.mem_cons, List.not_mem_nil, or_false, not_or] at hm'
  obtain ⟨h1, h2, h3⟩ := hm'
  rw [readAll_append, hread, Option.bind_some, readAll_cons]
  simp only [read?, extend?, hm, hsettle]
  cases close? (settle 0 fs t) m <;> rfl

theorem yields_word {w : String} (hw : keywords.contains w = false) :
    Yields callLevel fs [.word w] (.atom w) := by
  rw [yields_callLevel, readAll_cons, read?, hw]
  rfl

theorem yields_number (n : String) : Yields callLevel fs [.number n] (.atom n) :=
  yields_callLevel.mpr rfl

/-- Brackets make a tree of any level one that nothing can take apart. -/
theorem Yields.group (h : Yields 0 (.group :: fs) ts t) :
    Yields callLevel fs (.mark "(" :: ts ++ [.mark ")"]) t := by
  rw [yields_callLevel, List.cons_append, readAll_cons]
  change readAll (.wants (.group :: fs)) (ts ++ [.mark ")"]) = _
  rw [h.readAll_concat (by decide) (by decide),
    settle_of_clear (clear_of_none rfl)]
  rfl

theorem Yields.not (h : Yields notLevel (.not :: fs) ts t) :
    Yields notLevel fs (.mark "!" :: ts) (.not t) := by
  obtain ⟨fs', t', hread, hsettle⟩ := h
  refine ⟨fs', t', by rw [readAll_cons]; exact hread, ?_⟩
  rw [hsettle, settle_cons rfl (Nat.le_refl _)]
  rfl

/-- An operator takes what is on its left up to its own tier, and on its right above it. -/
theorem Yields.binary {op : String} (hop : level? op = some l) (hmark : op ∉ [".", "(", "?"])
    (hclear : Clear l fs) (hleft : Yields l fs ts t) (hright : Yields l (.right op t :: fs) us u) :
    Yields l fs (ts ++ .mark op :: us) (.binary op t u) := by
  obtain ⟨fs₁, t₁, hread₁, hsettle₁⟩ := hleft
  obtain ⟨fs₂, t₂, hread₂, hsettle₂⟩ := hright
  simp only [List.mem_cons, List.not_mem_nil, or_false, not_or] at hmark
  obtain ⟨h1, h2, h3⟩ := hmark
  refine ⟨fs₂, t₂, ?_, ?_⟩
  · rw [readAll_append, hread₁, Option.bind_some, readAll_cons]
    have hop' : read? (.holds fs₁ t₁) (.mark op) = some (.wants (.right op t :: fs)) := by
      simp only [read?, extend?, hop, hsettle₁, settle_of_clear hclear]
    rw [hop', Option.bind_some, hread₂]
  · rw [hsettle₂, settle_cons (f := .right op t) hop (Nat.le_refl _)]
    rfl

theorem Yields.conditional {vs : List Token} {v : Tree} (hclear : Clear 1 fs)
    (hc : Yields 1 fs ts t) (hyes : Yields 0 (.yes t :: fs) us u)
    (hno : Yields 0 (.no t u :: fs) vs v) :
    Yields 0 fs (ts ++ .mark "?" :: (us ++ .mark ":" :: vs)) (.conditional t u v) := by
  obtain ⟨fs₁, t₁, hread₁, hsettle₁⟩ := hc
  obtain ⟨fs₃, t₃, hread₃, hsettle₃⟩ := hno
  refine ⟨fs₃, t₃, ?_, ?_⟩
  · have hq : read? (.holds fs₁ t₁) (.mark "?") = some (.wants (.yes t :: fs)) := by
      simp only [read?, extend?, hsettle₁, settle_of_clear hclear]
    have hcolon : readAll (.wants (.yes t :: fs)) (us ++ [.mark ":"])
        = some (.wants (.no t u :: fs)) := by
      rw [hyes.readAll_concat (by decide) (by decide),
        settle_of_clear (clear_of_none rfl)]
      rfl
    rw [readAll_append, hread₁, Option.bind_some, readAll_cons, hq, Option.bind_some,
      List.append_cons, readAll_append, hcolon, Option.bind_some, hread₃]
  · rw [hsettle₃, settle_cons rfl (Nat.le_refl _)]
    rfl

end

/-! ## Lists in brackets -/

/-- Token lists with commas between them. -/
def commas : List (List Token) → List Token
  | [] => []
  | [ts] => ts
  | ts :: tss => ts ++ .mark "," :: commas tss

theorem any_commas {p : Token → Bool} (hp : p (.mark ",") = false) (tss : List (List Token)) :
    (commas tss).any p = tss.any (·.any p) := by
  induction tss with
  | nil => rfl
  | cons ts tss ih =>
    cases tss with
    | nil => simp [commas]
    | cons us tss =>
      rw [commas, List.any_append, List.any_cons, hp, Bool.false_or, ih, List.any_cons]
      · rw [List.any_cons, List.any_cons]
      · rintro ⟨⟩

/-- A frame that collects what stands between commas until `close`. -/
structure Collects (frame : List Tree → Frame) (close : String) (done : List Tree → Tree) :
    Prop where
  level : ∀ before, (frame before).level? = none
  next : ∀ before fs t,
    close? (frame before :: fs, t) "," = some (.wants (frame (before ++ [t]) :: fs))
  last : ∀ before fs t,
    close? (frame before :: fs, t) close = some (.holds fs (done (before ++ [t])))
  none : ∀ before fs, start? (frame before :: fs) close = some (.holds fs (done before))
  close_level : level? close = Option.none
  close_mark : close ∉ [".", "(", "?"]

theorem collects_items : Collects .item "]" .array where
  level _ := rfl
  next _ _ _ := rfl
  last _ _ _ := rfl
  none _ _ := rfl
  close_level := by decide
  close_mark := by decide

theorem collects_args (callee : Tree) : Collects (.arg callee) ")" (.call callee) where
  level _ := rfl
  next _ _ _ := rfl
  last _ _ _ := rfl
  none _ _ := rfl
  close_level := by decide
  close_mark := by decide

theorem Collects.readAll_commas {frame : List Tree → Frame} {close : String}
    {done : List Tree → Tree} (h : Collects frame close done) {fs : List Frame}
    {tss : List (List Token)} {trees : List Tree}
    (hy : List.Forall₂ (fun ts t => ∀ before, Yields 0 (frame before :: fs) ts t) tss trees)
    (before : List Tree) :
    readAll (.wants (frame before :: fs)) (commas tss ++ [.mark close])
      = some (.holds fs (done (before ++ trees))) := by
  induction hy generalizing before with
  | nil =>
    rw [List.append_nil, commas, List.nil_append, readAll_cons, read?, h.none]
    rfl
  | @cons ts t tss trees hts hrest ih =>
    have hclear : Clear 0 (frame before :: fs) := clear_of_none (h.level before)
    cases hrest with
    | nil =>
      rw [commas, (hts before).readAll_concat h.close_level h.close_mark, settle_of_clear hclear,
        h.last]
    | cons hts' hrest =>
      rw [commas, List.append_assoc, List.cons_append, List.append_cons, readAll_append,
        (hts before).readAll_concat (by decide) (by decide), settle_of_clear hclear, h.next,
        Option.bind_some, ih, List.append_assoc, List.singleton_append]
      simp

section

variable {fs : List Frame} {ts us : List Token} {t u : Tree} {tss : List (List Token)}
  {trees : List Tree}

theorem yields_array
    (h : List.Forall₂ (fun ts t => ∀ before, Yields 0 (.item before :: fs) ts t) tss trees) :
    Yields callLevel fs (.mark "[" :: commas tss ++ [.mark "]"]) (.array trees) := by
  rw [yields_callLevel, List.cons_append, readAll_cons]
  exact collects_items.readAll_commas h []

theorem yields_call {f : String} (hf : keywords.contains f = false)
    (h : List.Forall₂ (fun ts t => ∀ before, Yields 0 (.arg (.atom f) before :: fs) ts t) tss
      trees) :
    Yields callLevel fs (.word f :: .mark "(" :: commas tss ++ [.mark ")"])
      (.call (.atom f) trees) := by
  rw [yields_callLevel, List.cons_append, List.cons_append, readAll_cons, read?, hf]
  exact (collects_args (.atom f)).readAll_commas h []

/-- A method called with one argument. -/
theorem Yields.callMember (h : Yields callLevel fs ts t) (name : String)
    (hu : ∀ before, Yields 0 (.arg (.member t name) before :: fs) us u) :
    Yields callLevel fs (ts ++ .mark "." :: .word name :: .mark "(" :: (us ++ [.mark ")"]))
      (.call (.member t name) [u]) := by
  have hargs := (collects_args (.member t name)).readAll_commas (.cons hu .nil) []
  rw [yields_callLevel] at h ⊢
  rw [readAll_append, h]
  exact hargs

/-- An item in front of the items of another array. -/
theorem yields_spread (ht : Yields 0 (.item [] :: fs) ts t)
    (hu : Yields 0 (.spread [t] :: fs) us u) :
    Yields callLevel fs (.mark "[" :: (ts ++ .mark "," :: .mark "..." :: (us ++ [.mark "]"])))
      (.array [t, .spread u]) := by
  have hcomma : readAll (.wants (.item [] :: fs)) (ts ++ [.mark ","])
      = some (.wants (.item [t] :: fs)) := by
    rw [ht.readAll_concat (by decide) (by decide),
      settle_of_clear (clear_of_none rfl)]
    rfl
  have hclose : readAll (.wants (.spread [t] :: fs)) (us ++ [.mark "]"])
      = some (.holds fs (.array [t, .spread u])) := by
    rw [hu.readAll_concat (by decide) (by decide),
      settle_of_clear (clear_of_none rfl)]
    rfl
  rw [yields_callLevel, readAll_cons]
  change readAll (.wants (.item [] :: fs)) _ = _
  rw [List.append_cons, readAll_append, hcomma]
  exact hclose

end

end Derw.Script.Reader
