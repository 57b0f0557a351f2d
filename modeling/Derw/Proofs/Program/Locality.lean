import Derw.Proofs.Program.Emission
import Derw.Proofs.Text.Cut
import Mathlib.Data.List.Forall2

/-!
# Proofs/Program/Locality — one pen writes what each declaration writes on its own

`Emits depth a text` says what is wanted of everything that writes: inside of `depth` cases it puts
`text` behind what is there, and leaves the indentation and the number of cases as it found them.
It is kept by putting one after the other and by blocks, so the emission of an expression writes the
printed form of the lowered expression, by one induction over expressions (`emits_emission`).

Since a declaration leaves nothing behind but its text, the program is the texts of its
declarations, each from a fresh pen, and they see nothing of each other but the imports.
-/

namespace Derw

namespace Script

namespace Emit

/-! ## What writes, and leaves the pen as it was -/

/-- Inside of `depth` cases, `a` writes the text that belongs to the indentation. -/
def Emits (depth : Nat) (a : Emit) (text : Nat → String) : Prop :=
  ∀ p : Pen, p.depth = depth → a p = ((), { p with text := p.text ++ text p.indent })

variable {d : Nat} {a b : Emit} {f g : Nat → String}

/-- The same text, written down in another way. -/
theorem Emits.of_eq (h : Emits d a f) (hfg : ∀ i, f i = g i) : Emits d a g := by
  rw [← funext hfg]
  exact h

/-- Writing nothing. -/
theorem emits_pure : Emits d (pure ()) fun _ => "" := fun p _ => by
  rw [String.append_empty]
  rfl

/-- Writing a text that does not depend on the indentation. -/
theorem emits_write (text : String) : Emits d (write text) fun _ => text := fun _ _ => rfl

/-- Writing the indentation itself. -/
theorem emits_margin : Emits d margin indentation := fun _ _ => rfl

/-- **One after the other.** What the first leaves is what the second finds. -/
theorem Emits.seq (ha : Emits d a f) (hb : Emits d b g) :
    Emits d (do a; b) fun i => f i ++ g i := fun p hp => by
  change b (a p).2 = _
  rw [ha p hp, ← String.append_assoc]
  exact hb { p with text := p.text ++ f p.indent } hp

/-- Between two changes of the indentation that undo each other. -/
theorem Emits.indented (ha : Emits d a f) : Emits d (do indent; a; dedent) fun i => f (i + 1) :=
  fun p hp => by
    change dedent (a { p with indent := p.indent + 1 }).2 = _
    rw [ha { p with indent := p.indent + 1 } hp]
    rfl

/-- Between the opening and the closing of a case. -/
theorem Emits.inCase (ha : Emits (d + 1) a f) : Emits d (do openCase; a; closeCase) f :=
  fun p hp => by
    change closeCase (a { p with depth := p.depth + 1 }).2 = _
    rw [ha _ (congrArg (· + 1) hp)]
    rfl

/-- A line of its own. -/
theorem emits_writeLine (text : String) : Emits d (writeLine text) fun i => line i text :=
  (emits_margin.seq (emits_write _)).of_eq fun i => by rw [line, String.append_assoc]

/-- Several lines. -/
theorem emits_writeLines (ls : List String) :
    Emits d (writeLines ls) fun i => String.join (ls.map (line i)) := by
  induction ls with
  | nil => exact emits_pure
  | cons l ls ih =>
    exact ((emits_writeLine l).seq ih).of_eq fun i => by rw [List.map_cons, String.join_cons]

/-- A block: its head, what is in it one level further in, and its tail. -/
theorem Emits.block (ha : Emits d a f) (head tail : String) :
    Emits d (block head a tail) fun i => braces i head (f (i + 1)) tail :=
  ((emits_writeLine _).seq (ha.indented.seq (emits_writeLine _))).of_eq fun i => by
    rw [braces, String.append_assoc]

/-- A statement around an expression. -/
theorem Emits.statement (ha : Emits d a f) (head tail : String) :
    Emits d (statement head a tail) fun i => line i (head ++ f i ++ tail) :=
  (emits_margin.seq ((emits_write _).seq (ha.seq (emits_write _)))).of_eq fun i => by
    simp only [line, String.append_assoc]

/-- Brackets, if they are needed. -/
theorem Emits.bracketed (ha : Emits d a f) (b : Bool) :
    Emits d (Emit.bracketed b a) fun i => Script.bracketed b (f i) := by
  cases b with
  | false => exact ha
  | true =>
    exact ((emits_write _).seq (ha.seq (emits_write _))).of_eq fun i =>
      (String.append_assoc ..).symm

/-- A function that is called at once, around its statements. -/
theorem Emits.invoked (s : Style) {ts : List Stmt} (ha : Emits d a fun i => printStmts s i ts)
    (parent : Nat) (right : Bool) :
    Emits d (invoked s a) fun i => (Term.invoked ts).print s i parent right :=
  ((emits_write _).seq (ha.indented.seq (emits_margin.seq (emits_write _)))).of_eq fun i => by
    rw [print_invoked]
    simp only [String.append_assoc]

/-! ## Several, one after the other -/

/-- The emissions write the texts, one by one. -/
inductive EmitsAll (depth : Nat) : List Emit → (Nat → List String) → Prop
  | nil : EmitsAll depth [] fun _ => []
  | cons {a : Emit} {as : List Emit} {f : Nat → String} {fs : Nat → List String}
    (h : Emits depth a f) (hs : EmitsAll depth as fs) :
    EmitsAll depth (a :: as) fun i => f i :: fs i

variable {as bs : List Emit} {fs gs : Nat → List String}

/-- The same texts, written down in another way. -/
theorem EmitsAll.of_eq (h : EmitsAll d as fs) (hfg : ∀ i, fs i = gs i) : EmitsAll d as gs := by
  rw [← funext hfg]
  exact h

/-- More of them behind these. -/
theorem EmitsAll.append (ha : EmitsAll d as fs) (hb : EmitsAll d bs gs) :
    EmitsAll d (as ++ bs) fun i => fs i ++ gs i := by
  induction ha with
  | nil => exact hb
  | cons h _ ih => exact .cons h ih

/-- A single one. -/
theorem EmitsAll.singleton (h : Emits d a f) : EmitsAll d [a] fun i => [f i] := .cons h .nil

/-- There are as many texts as there are that write. -/
theorem EmitsAll.isEmpty (h : EmitsAll d as fs) (i : Nat) : (fs i).isEmpty = as.isEmpty := by
  cases h <;> rfl

/-- With commas between them. -/
theorem EmitsAll.separated (h : EmitsAll d as fs) :
    Emits d (separated as) fun i => Text.join ", " (fs i) := by
  induction h with
  | nil => exact emits_pure
  | cons h hs ih =>
    cases hs with
    | nil => exact h
    | cons =>
      exact (h.seq ((emits_write _).seq ih)).of_eq fun i => (String.append_assoc ..).symm

/-- The items of a list. -/
theorem EmitsAll.list (h : EmitsAll d as fs) : Emits d (list as) fun i => listText (fs i) := by
  rw [Emit.list]
  split
  next hempty =>
    exact (emits_write _).of_eq fun i => by rw [listText, h.isEmpty, if_pos hempty]
  next hempty =>
    refine ((emits_write _).seq (h.separated.seq (emits_write _))).of_eq fun i => ?_
    rw [listText, h.isEmpty, if_neg hempty, String.append_assoc]

/-- The entries of an object. -/
theorem EmitsAll.object (h : EmitsAll d as fs) :
    Emits d (object as) fun i => objectText (fs i) := by
  rw [Emit.object]
  split
  next hempty =>
    exact (emits_write _).of_eq fun i => by rw [objectText, h.isEmpty, if_pos hempty]
  next hempty =>
    refine ((emits_write _).seq (h.separated.seq (emits_write _))).of_eq fun i => ?_
    rw [objectText, h.isEmpty, if_neg hempty, String.append_assoc]

/-- A call: the function, and its arguments in brackets. -/
theorem EmitsAll.call (h : EmitsAll d as fs) (ha : Emits d a f) :
    Emits d (call a as) fun i => f i ++ "(" ++ Text.join ", " (fs i) ++ ")" :=
  (ha.seq ((emits_write _).seq (h.separated.seq (emits_write _)))).of_eq fun i => by
    simp only [String.append_assoc]

end Emit

open Emit

variable {s : Style} {d : Nat}

/-! ## Cases -/

/-- A match around a body, step for step as it is printed. -/
theorem Nest.emits_emit (subject : String) {body : Emit} {f : Nat → String} (h : Emits d body f)
    (nest : Nest) : Emits d (nest.emit subject body) fun i => nest.print subject f i := by
  induction nest with
  | body => exact h
  | bind b rest ih => exact (emits_writeLine _).seq ih
  | guard conditions rest ih => exact ih.block _ _
  | search id start test rest ih =>
    refine ((emits_writeLine _).seq
      ((((emits_writeLines _).block _ _).block _ _).seq (ih.block _ _))).of_eq fun i => ?_
    simp only [Nest.print, List.map_cons, List.map_nil, String.join_cons, String.join_nil,
      String.append_empty, String.append_assoc]
  | scope rest ih => exact ih.block _ _

/-- Branches of the same patterns, whose bodies write the statements. -/
def EmitsBranches (s : Style) (depth : Nat) (bs : List (Pattern × Emit))
    (cs : List (Pattern × List Stmt)) : Prop :=
  List.Forall₂ (fun b c => b.1 = c.1 ∧ Emits depth b.2 fun i => printStmts s i c.2) bs cs

variable {bs : List (Pattern × Emit)} {cs : List (Pattern × List Stmt)}

/-- Which form a case takes depends on the patterns alone. -/
theorem EmitsBranches.patterns (h : EmitsBranches s d bs cs) : bs.map (·.1) = cs.map (·.1) := by
  induction h with
  | nil => rfl
  | cons hb _ ih => rw [List.map_cons, List.map_cons, hb.1, ih]

/-- An arm: its label or `default`, then its block. -/
theorem printArms_mk (subject : String) (depth : Nat) (tag : Option String) (binds : List Bind)
    (ts : List Stmt) : printArms s subject depth [.mk tag binds ts]
      = braces depth (match tag with
          | some t => "case \"" ++ t ++ "\":"
          | none => "default:")
        (String.join (binds.map fun b => line (depth + 1) (b.print subject)) ++
          printStmts s (depth + 1) ts) "" := by
  cases tag <;> rw [printArms, printArms, String.append_empty]

/-- Arms are written one after the other. -/
theorem printArms_cons (subject : String) (depth : Nat) (a : Arm) (as : List Arm) :
    printArms s subject depth (a :: as)
      = printArms s subject depth [a] ++ printArms s subject depth as := by
  obtain ⟨tag, binds, body⟩ := a
  cases tag <;> rw [printArms, printArms, printArms, String.append_empty]

/-- The arm of a branch, with the fields that it declares. -/
theorem emits_emitArm (subject : String) (pattern : Pattern) {body : Emit} {ts : List Stmt}
    (h : Emits d body fun i => printStmts s i ts) :
    Emits d (emitArm subject (pattern, body)) fun i =>
      printArms s subject i [armOf (pattern, ts)] := by
  have hdefault : Emits d (block "default:" body "") fun i =>
      printArms s subject i [.mk none [] ts] := (h.block _ _).of_eq fun i => by
    rw [printArms_mk, List.map_nil, String.join_nil, String.empty_append]
  cases pattern with
  | shape shape =>
    cases shape with
    | tag name fields =>
      refine (((emits_writeLines _).seq h).block _ _).of_eq fun i => ?_
      rw [armOf, printArms_mk, List.map_map]
      rfl
    | text | format | empty => exact hdefault
  | list | anything => exact hdefault

/-- All arms of a `switch`. -/
theorem EmitsBranches.arms (h : EmitsBranches s d bs cs) (subject : String) :
    Emits d (emitArms subject bs) fun i => printArms s subject i (cs.map armOf) := by
  induction h with
  | nil => exact emits_pure
  | @cons b c bs cs hb _ ih =>
    obtain ⟨pattern, body⟩ := b
    obtain ⟨rfl, hbody⟩ := hb
    exact ((emits_emitArm subject c.1 hbody).seq ih).of_eq fun i => (printArms_cons ..).symm

/-- Branches that are tried in turn. -/
theorem EmitsBranches.chain (h : EmitsBranches s d bs cs) (subject : String) :
    Emits d (emitChain subject bs) fun i =>
      printStmts s i (cs.map fun c => .branch subject (branchMatch c.1) c.2) := by
  induction h with
  | nil => exact emits_pure
  | @cons b c bs cs hb _ ih =>
    obtain ⟨pattern, body⟩ := b
    obtain ⟨rfl, hbody⟩ := hb
    exact ((Nest.emits_emit subject hbody _).seq ih).of_eq fun i => rfl

/-- What follows the subject of a case, in the form that the patterns ask for. -/
theorem EmitsBranches.branches (h : EmitsBranches s d bs cs) (subject : String) (t : Term) :
    Emits d (emitBranches subject bs) fun i => printStmts s i (caseStmts subject t cs).tail := by
  rw [emitBranches, h.patterns, caseStmts, List.tail_cons]
  cases dispatchOf (cs.map (·.1)) with
  | byTag =>
    exact ((h.arms _).block _ _).of_eq fun i => by
      rw [printStmts, printStmts, String.append_empty, Stmt.print]
  | byLength | byValue => exact h.chain _

/-- A case writes its subject outside and its branches inside. -/
theorem EmitsBranches.emitCase (h : EmitsBranches s (d + 1) bs cs) {value : Emit} {t : Term}
    (hvalue : Emits d value fun i => t.print s i lowest false) :
    Emits d (emitCase value bs) fun i => printStmts s i (caseStmts (subjectName d) t cs) := by
  have hhold := hvalue.statement ("const " ++ subjectName d ++ " = ") ";"
  have hstmts : ∀ i, line i ("const " ++ subjectName d ++ " = " ++ t.print s i lowest false ++ ";")
      ++ printStmts s i (caseStmts (subjectName d) t cs).tail
        = printStmts s i (caseStmts (subjectName d) t cs) := fun i => by
    rw [caseStmts, printStmts, Stmt.print, List.tail_cons]
  have hcase := (hhold.seq (h.branches (subjectName d) t).inCase).of_eq hstmts
  intro p hp
  rw [← hcase p hp, ← hp]
  rfl

/-! ## Expressions -/

/-- The emission writes the lowered expression, in both of its forms. -/
structure Emission.Emits (s : Style) (depth : Nat) (m : Emission) (l : Lowered) : Prop where
  term : ∀ parent right,
    Emit.Emits depth (m.term parent right) fun i => l.term.print s i parent right
  stmts : Emit.Emits depth m.stmts fun i => printStmts s i l.stmts

/-- What is fed to the emission is what flows into the expression. -/
inductive Feed.Emits (s : Style) (depth : Nat) : Feed → Inflow → Prop
  | nothing : Emits s depth .nothing .nothing
  | argument {a : Emit} {t : Term} (h : Emit.Emits depth a fun i => t.print s i lowest false) :
    Emits s depth (.argument a) (.argument t)
  | chain {a : Emit} {t : Term} (h : Emit.Emits depth a fun i => t.print s i lowest false) :
    Emits s depth (.chain a) (.chain t)

/-- What is handed on is written where it arrives. -/
theorem Feed.Emits.values {feed : Feed} {inflow : Inflow} (h : feed.Emits s d inflow) :
    EmitsAll d feed.value?.toList fun i => printTerms s i inflow.value?.toList := by
  cases h with
  | nothing => exact .nil
  | argument h => exact .singleton h
  | chain h => exact .singleton h

/-- A term, and the statement that returns it. -/
theorem emits_ofTerm {term : Nat → Bool → Emit} {t : Term}
    (h : ∀ parent right, Emits d (term parent right) fun i => t.print s i parent right) :
    (Emission.ofTerm term).Emits s d (.ofTerm t) where
  term := h
  stmts := ((h lowest false).statement _ _).of_eq fun i => by
    rw [Lowered.ofTerm, printStmts, printStmts, Stmt.print, String.append_empty]

/-- A call, as a term. -/
theorem emits_call {a : Emit} {as : List Emit} {name : String} {ts : List Term}
    (ha : Emits d a fun _ => name) (h : EmitsAll d as fun i => printTerms s i ts)
    (parent : Nat) (right : Bool) :
    Emits d (call a as) fun i => (Term.call name ts).print s i parent right :=
  (h.call ha).of_eq fun _ => (print_call ..).symm

/-- A name behind a module path. -/
theorem emits_qualified (path : List String) {a : Emit} {t : Term}
    (h : Emits d a fun i => t.print s i tightest false) (parent : Nat) (right : Bool) :
    Emits d (do write (Text.join "." path ++ "."); a) fun i =>
      (Term.qualified path t).print s i parent right :=
  ((emits_write _).seq h).of_eq fun _ => (print_qualified ..).symm

/-- The body of an arrow, which stands in brackets if it is an object. -/
theorem emits_grouped {a : Emit} {t : Term} (h : Emits d a fun i => t.print s i lowest false)
    (b : Bool) : Emits d (Emit.bracketed b a) fun i =>
      (if b then Term.group t else t).print s i lowest false :=
  (h.bracketed b).of_eq fun i => by
    cases b with
    | true => exact (print_group ..).symm
    | false => rfl

/-- An arrow, up to the end of its body. -/
theorem emits_arrow (params : List String) {a : Emit} {t : Term}
    (h : Emits d a fun i => t.print s i lowest false) :
    Emits d (arrow s params a) fun i => s.arrowHead params ++ t.print s i lowest false :=
  (emits_write _).seq h

/-- An arrow that is called on the spot. -/
theorem emits_arrowCall (params : List String) {a : Emit} {t : Term} {as : List Emit}
    {ts : List Term} (ha : Emits d a fun i => t.print s i lowest false)
    (h : EmitsAll d as fun i => printTerms s i ts) (parent : Nat) (right : Bool) :
    Emits d (call (Emit.bracketed true (arrow s params a)) as) fun i =>
      (Term.arrowCall params t ts).print s i parent right :=
  (h.call ((emits_arrow params ha).bracketed true)).of_eq fun i => by
    rw [print_arrowCall, bracketed, if_pos rfl]
    simp only [String.append_assoc]
    rfl

/-- Each way to write an operator. -/
theorem emits_emitBinary (operator : String) {l r : Nat → Bool → Emit} {t u : Term}
    (hl : ∀ parent right, Emits d (l parent right) fun i => t.print s i parent right)
    (hr : ∀ parent right, Emits d (r parent right) fun i => u.print s i parent right)
    (parent : Nat) (right : Bool) :
    Emits d (emitBinary operator l r parent right) fun i =>
      (lowerBinary operator t u).print s i parent right := by
  unfold emitBinary
  split
  next =>
    refine ((hl _ _).seq ((emits_write _).seq ((hr _ _).seq (emits_write _)))).of_eq fun i => ?_
    rw [lowerBinary, print_concat]
    simp only [String.append_assoc]
  next =>
    refine ((emits_write _).seq ((hl _ _).seq ((emits_write _).seq ((hr _ _).seq
      (emits_write _))))).of_eq fun i => ?_
    rw [lowerBinary, print_cons]
    simp only [String.append_assoc]
  next happend hcons =>
    refine (((hl _ _).seq ((emits_write _).seq (hr _ _))).bracketed _).of_eq fun i => ?_
    rw [lowerBinary.eq_3 _ _ _ happend hcons, print_binary]
    simp only [String.append_assoc]

/-- What an object extends, in front of its entries. -/
theorem emits_spread {a : Emit} {t : Term} {as : List Emit} {es : List Entry} (absent : Bool)
    (ha : Emits d a fun i => t.print s i tightest false)
    (h : EmitsAll d as fun i => printEntries s i es) :
    EmitsAll d ((if absent then [] else [do write "..."; a]) ++ as) fun i =>
      printEntries s i (entriesOf (!absent) t es) := by
  cases absent with
  | true => exact h
  | false => exact .cons ((emits_write _).seq ha) h

/-- An object, as a term. -/
theorem emits_object {as : List Emit} {es : List Entry}
    (h : EmitsAll d as fun i => printEntries s i es) (parent : Nat) (right : Bool) :
    Emits d (object as) fun i => (Term.object es).print s i parent right :=
  h.object.of_eq fun _ => (print_object ..).symm

/-- Statements behind statements. -/
theorem emits_stmts_append {a b : Emit} {ts us : List Stmt}
    (ha : Emits d a fun i => printStmts s i ts) (hb : Emits d b fun i => printStmts s i us) :
    Emits d (do a; b) fun i => printStmts s i (ts ++ us) :=
  (ha.seq hb).of_eq fun _ => (printStmts_append ..).symm

/-- The two arms of a conditional; the indentation of the first one is undone before the `else`. -/
theorem emits_ifElse {c y n : Emit} {t : Term} {ts us : List Stmt}
    (hc : Emits d c fun i => t.print s i lowest false) (hy : Emits d y fun i => printStmts s i ts)
    (hn : Emits d n fun i => printStmts s i us) :
    Emits d (conditional c y n) fun i => printStmts s i [.ifElse t ts us] := by
  refine ((hc.statement _ _).seq (hy.indented.seq (hn.block _ _))).of_eq fun i => ?_
  have hbetween : (if "\x7d else".isEmpty then "\x7b" else "\x7d else" ++ " \x7b")
      = "\x7d else \x7b" := by decide
  rw [printStmts, printStmts, Stmt.print, String.append_empty, braces, hbetween,
    String.append_empty]
  simp only [String.append_assoc]

mutual

/-- **An expression writes its lowered form**, with all that a pipe hands on to it. By induction
over expressions; it leaves the pen as it was because its parts do. -/
theorem emits_emission (s : Style) (d : Nat) {feed : Feed} {inflow : Inflow}
    (h : feed.Emits s d inflow) : ∀ e : Expr, (emission s feed e).Emits s d (lower d inflow e)
  | .absent => emits_ofTerm fun _ _ =>
    (emits_write _).of_eq fun _ => (print_undefined ..).symm
  | .value body => emits_ofTerm fun parent right => by
    cases h with
    | nothing => exact (emits_write _).of_eq fun _ => (print_raw ..).symm
    | argument h => exact emits_call (emits_write _) (.singleton h) parent right
    | chain h => exact emits_call (emits_write _) (.singleton h) parent right
  | .text body => emits_ofTerm fun _ _ => (emits_write _).of_eq fun _ => (print_text ..).symm
  | .format body => emits_ofTerm fun _ _ =>
    (emits_write _).of_eq fun _ => (print_template ..).symm
  | .list items => emits_ofTerm fun _ _ =>
    (emitsAll_emissions s d items).list.of_eq fun _ => (print_list ..).symm
  | .range start stop => emits_ofTerm fun _ _ => by
    have hfirst := (emits_emission s d .nothing start).term (strength "-") true
    have hlast := (emits_emission s d .nothing stop).term (strength "-") false
    refine ((emits_write _).seq (hlast.seq ((emits_write _).seq (hfirst.seq ((emits_write _).seq
      (hfirst.seq (emits_write _))))))).of_eq fun i => ?_
    rw [print_range]
    simp only [String.append_assoc]
  | .object base fields => emits_ofTerm <| emits_object <|
    emits_spread _ ((emits_emission s d .nothing base).term tightest false)
      (emitsAll_fieldEmissions s d fields)
  | .construct name => emits_ofTerm <| emits_call (emits_write _) <|
    .singleton (emits_object .nil lowest false)
  | .constructWith name base fields => emits_ofTerm <| emits_call (emits_write _) <|
    .singleton <| emits_object (emits_spread _
      ((emits_emission s d .nothing base).term tightest false)
      (emitsAll_fieldEmissions s d fields)) lowest false
  | .ifElse condition yesLets yes noLets no => by
    have hc := (emits_emission s d .nothing condition).term
    have hy := emits_emission s d .nothing yes
    have hn := emits_emission s d .nothing no
    have hstmts := emits_ifElse (hc lowest false)
      (emits_stmts_append (emits_emitLets s d yesLets) hy.stmts)
      (emits_stmts_append (emits_emitLets s d noLets) hn.stmts)
    refine ⟨fun parent right => ?_, hstmts⟩
    rw [emission, lower]
    dsimp only
    split
    next =>
      refine ((((hc _ _).seq ((emits_write _).seq ((hy.term _ _).seq ((emits_write _).seq
        (hn.term _ _)))))).bracketed _).of_eq fun i => ?_
      rw [print_ternary]
      simp only [String.append_assoc]
    next => exact hstmts.invoked s parent right
  | .caseOf subject branches => by
    have hstmts := (emits_branchEmissions s (d + 1) branches).emitCase
      ((emits_emission s d .nothing subject).term lowest false)
    exact ⟨hstmts.invoked s, hstmts⟩
  | .binary operator left right => emits_ofTerm <|
    emits_emitBinary operator (emits_emission s d .nothing left).term
      (emits_emission s d .nothing right).term
  | .unary operator operand => emits_ofTerm fun _ _ =>
    (((emits_write _).seq ((emits_emission s d .nothing operand).term _ _)).bracketed _).of_eq
      fun _ => (print_unary ..).symm
  | .leftPipe left right => emits_ofTerm <| by
    refine (emits_emission s d (.chain ?_) right).term
    cases h with
    | nothing => exact (emits_emission s d .nothing left).term lowest false
    | argument h => exact (emits_emission s d .nothing left).term lowest false
    | chain h => exact (emits_emission s d (.argument h) left).term lowest false
  | .rightPipe target value => emits_ofTerm <| by
    have hvalue := (emits_emission s d .nothing value).term lowest false
    exact (emits_emission s d (.argument hvalue) target).term
  | .qualified path value => emits_ofTerm fun parent right => by
    refine emits_qualified path ((emits_emission s d ?_ value).term tightest false) parent right
    cases h with
    | nothing => exact .nothing
    | argument h => exact .argument h
    | chain h => exact .argument h
  | .call name args => emits_ofTerm <| emits_call (emits_write _) <|
    ((emitsAll_emissions s d args).append h.values).of_eq fun _ => (printTerms_append ..).symm
  | .lambda params body => emits_ofTerm fun parent right => by
    have hbody := emits_grouped ((emits_emission s d .nothing body).term lowest false)
      (isObject body)
    cases h with
    | nothing => exact ((emits_arrow params hbody).bracketed _).of_eq fun _ => (print_arrow ..).symm
    | argument h => exact emits_arrowCall params hbody (.singleton h) parent right
    | chain h => exact emits_arrowCall params hbody (.singleton h) parent right
  | .lambdaCall params body args => emits_ofTerm <|
    emits_arrowCall params
      (emits_grouped ((emits_emission s d .nothing body).term lowest false) (isObject body))
      (emitsAll_emissions s d args)

/-- Items and arguments. -/
theorem emitsAll_emissions (s : Style) (d : Nat) : ∀ es : List Expr,
    EmitsAll d (emissions s es) fun i => printTerms s i (lowerAll d es)
  | [] => .nil
  | e :: es => .cons ((emits_emission s d .nothing e).term lowest false) (emitsAll_emissions s d es)

/-- The fields of an object. -/
theorem emitsAll_fieldEmissions (s : Style) (d : Nat) : ∀ fs : List Field,
    EmitsAll d (fieldEmissions s fs) fun i => printEntries s i (lowerFields d fs)
  | [] => .nil
  | .mk _ value :: fs =>
    .cons ((emits_write _).seq ((emits_emission s d .nothing value).term lowest false))
      (emitsAll_fieldEmissions s d fs)

/-- The branches of a case. -/
theorem emits_branchEmissions (s : Style) (d : Nat) : ∀ bs : List Branch,
    EmitsBranches s d (branchEmissions s bs) (lowerBranches d bs)
  | [] => .nil
  | .mk _ lets body :: bs =>
    .cons ⟨rfl, emits_stmts_append (emits_emitLets s d lets)
      (emits_emission s d .nothing body).stmts⟩ (emits_branchEmissions s d bs)

/-- Functions and constants. The other declarations write nothing here. -/
theorem emits_emitDecl (s : Style) (d : Nat) : ∀ e : Decl,
    Emits d (emitDecl s e) fun i => printStmts s i (lowerDecl d e)
  | .function name params result lets body => by
    have hbody := emits_stmts_append (emits_emitLets s d lets)
      (emits_emission s d .nothing body).stmts
    refine (hbody.block _ _).of_eq fun i => ?_
    rw [lowerDecl, printStmts, printStmts, Stmt.print, String.append_empty]
  | .const name type lets value => by
    have hvalue := emits_emission s d .nothing value
    have hbody := emits_stmts_append (emits_emitLets s d lets) hvalue.stmts
    rw [emitDecl, lowerDecl]
    split
    next =>
      refine ((hvalue.term lowest false).statement _ _).of_eq fun i => ?_
      rw [printStmts, printStmts, Stmt.print, String.append_empty]
    next =>
      refine ((hbody.invoked s lowest false).statement _ _).of_eq fun i => ?_
      rw [printStmts, printStmts, Stmt.print, String.append_empty]
  | .imports _ | .exports _ | .union .. | .typeAlias .. | .comment _ | .multilineComment _ =>
    emits_pure

/-- The `let`s of a body. -/
theorem emits_emitLets (s : Style) (d : Nat) : ∀ ds : List Decl,
    Emits d (emitLets s ds) fun i => printStmts s i (lowerLets d ds)
  | [] => emits_pure
  | e :: es => emits_stmts_append (emits_emitDecl s d e) (emits_emitLets s d es)

end

/-! ## Declarations -/

/-- What is only written with types, or only sometimes. -/
theorem emits_optional (b : Bool) {a : Emit} {f : Nat → String} (h : Emits d a f) :
    Emits d (optional b a) fun i => if b then f i else "" := by
  cases b with
  | true => exact h
  | false => exact emits_pure

/-- The field that tells the tags of a union apart. -/
theorem emits_emitKind (head : TypeName) (tagged : Bool) (mark : String) :
    Emits d (emitKind head tagged mark) fun i => kindField i head tagged mark :=
  emits_optional tagged (emits_writeLine _)

/-- The type of an object as it is written at an indentation. -/
def objectTypeText (s : Style) (i : Nat) (head : TypeName) (tagged : Bool)
    (fields : List TypedName) : String :=
  braces i ("type " ++ head.text ++ " =")
    (kindField (i + 1) head tagged ";" ++
      String.join (((s.fieldTexts fields).map (· ++ ";")).map (line (i + 1)))) ";"

/-- A constructor as it is written at an indentation. -/
def constructorText (s : Style) (i : Nat) (head : TypeName) (tagged : Bool)
    (fields : List TypedName) : String :=
  braces i (s.constructorHead head fields)
    (braces (i + 1) "return" (kindField (i + 2) head tagged "," ++ line (i + 2) "...args,") ";") ""

/-- The type that an alias or a tag declares. -/
theorem emits_emitObjectType (head : TypeName) (tagged : Bool) (fields : List TypedName) :
    Emits d (emitObjectType s head tagged fields) fun i => objectTypeText s i head tagged fields :=
  ((emits_emitKind head tagged ";").seq (emits_writeLines _)).block _ _

/-- The function that makes a value of it. -/
theorem emits_emitConstructor (head : TypeName) (tagged : Bool) (fields : List TypedName) :
    Emits d (emitConstructor s head tagged fields) fun i =>
      constructorText s i head tagged fields :=
  (((emits_emitKind head tagged ",").seq (emits_writeLine _)).block _ _).block _ _

/-- A type and its constructor; no type if types are not written. -/
def makerTexts (s : Style) (i : Nat) (head : TypeName) (tagged : Bool) (fields : List TypedName) :
    List String :=
  (if s.typed then [objectTypeText s i head tagged fields] else [])
    ++ [constructorText s i head tagged fields]

/-- Both, as far as the style asks for them. -/
theorem emits_emitMaker (head : TypeName) (tagged : Bool) (fields : List TypedName) :
    Emits d (emitMaker s head tagged fields) fun i =>
      Text.join "\n" (makerTexts s i head tagged fields) := by
  refine ((emits_optional s.typed ((emits_emitObjectType head tagged fields).seq
    (emits_write _))).seq (emits_emitConstructor head tagged fields)).of_eq fun i => ?_
  rw [makerTexts]
  cases s.typed with
  | true => rfl
  | false => exact String.empty_append

/-- What the tags of a union write. -/
def tagTexts (s : Style) (i : Nat) (tags : List Tag) : List String :=
  tags.flatMap fun t => makerTexts s i (tagType t) true t.fields

/-- The tags of a union. -/
theorem emits_emitTags (tags : List Tag) :
    Emits d (emitTags s tags) fun i => Text.join "\n" (tagTexts s i tags) := by
  induction tags with
  | nil => exact emits_pure
  | cons t ts ih =>
    cases ts with
    | nil =>
      exact (emits_emitMaker _ _ _).of_eq fun i => by
        rw [tagTexts, List.flatMap_cons, List.flatMap_nil, List.append_nil]
    | cons u us =>
      refine ((emits_emitMaker _ _ _).seq ((emits_write _).seq ih)).of_eq fun i => ?_
      have hrest : tagTexts s i (u :: us) ≠ [] := by simp [tagTexts, makerTexts]
      rw [← String.append_assoc, ← Text.join_append (by simp [makerTexts]) hrest]
      rfl

/-- What a union writes. -/
def unionTexts (s : Style) (i : Nat) (head : TypeHead) (tags : List Tag) : List String :=
  let union := Text.join " | " (tags.map fun t => (tagType t).text)
  tagTexts s i tags ++ if s.typed then
    [line i ("type " ++ (headType head).text ++ " = " ++ (if union.isEmpty then "never" else union)
      ++ ";")] else []

/-- A union with all its tags. -/
theorem emits_emitUnion (head : TypeHead) (tags : List Tag) :
    Emits d (emitUnion s head tags) fun i => Text.join "\n" (unionTexts s i head tags) := by
  have htype : Emits d (emitUnionType head tags) _ := emits_writeLine _
  refine ((emits_emitTags tags).seq (emits_optional s.typed
    ((emits_optional (!tags.isEmpty) (emits_write "\n")).seq htype))).of_eq fun i => ?_
  rw [unionTexts]
  cases s.typed with
  | false => exact String.append_empty.trans (congrArg _ (List.append_nil _).symm)
  | true =>
    cases tags with
    | nil => exact String.empty_append.trans String.empty_append
    | cons t ts =>
      have htags : tagTexts s i (t :: ts) ≠ [] := by simp [tagTexts, makerTexts]
      have hbreak : (!(t :: ts).isEmpty) = true := rfl
      rw [if_pos rfl, if_pos rfl, if_pos hbreak, Text.join_append htags (List.cons_ne_nil _ _)]
      exact String.append_assoc.symm

/-- An alias is one type and the function that makes its values. -/
theorem declText_typeAlias (head : TypeHead) (properties : List TypedName) :
    declText s (.typeAlias head properties)
      = Text.join "\n" (makerTexts s 0 (headType head) false properties) := by
  cases h : s.typed <;>
    simp [declText, itemsOf, makerTexts, Item.isType, Item.print, objectTypeText, constructorText,
      h, Function.comp_def]

/-- A union is its type and, for each tag, another one with its function. -/
theorem declText_union (head : TypeHead) (tags : List Tag) :
    declText s (.union head tags) = Text.join "\n" (unionTexts s 0 head tags) := by
  refine congrArg (Text.join "\n") ?_
  have htags : ((tags.flatMap fun t => [Item.objectType (tagType t) true t.fields,
      .constructor (tagType t) true t.fields]).filter fun i => s.typed || !i.isType).map
        (·.print s) = tagTexts s 0 tags := by
    rw [List.filter_flatMap, List.map_flatMap, tagTexts]
    refine List.flatMap_congr fun t _ => ?_
    cases h : s.typed <;>
      simp [makerTexts, Item.isType, Item.print, objectTypeText, constructorText, h,
        Function.comp_def]
  rw [itemsOf, List.filter_append, List.map_append, htags, unionTexts]
  cases h : s.typed <;> simp [Item.isType, Item.print, Function.comp_def]

/-- A comment keeps its lines apart, without blanks on empty ones. -/
theorem emits_emitCommentLines (ls : List String) :
    Emits d (emitCommentLines ls) fun i =>
      String.join (ls.map fun l => if Text.isBlankLine l then "\n" else line i l) := by
  induction ls with
  | nil => exact emits_pure
  | cons l ls ih =>
    have hline : Emits d (if Text.isBlankLine l then write "\n" else writeLine l) fun i =>
        if Text.isBlankLine l then "\n" else line i l := by
      split
      next => exact emits_write _
      next => exact emits_writeLine _
    exact (hline.seq ih).of_eq fun i => by rw [List.map_cons, String.join_cons]

/-- A declaration writes its text, and leaves the pen where it was. -/
theorem emits_emitTopLevel (s : Style) (d : Nat) (e : Decl) :
    ∃ f, Emits d (emitTopLevel s e) f ∧ (d = 0 → f 0 = declText s e) := by
  cases e with
  | imports modules =>
    refine ⟨_, emits_writeLines _, fun _ => ?_⟩
    rw [declText, itemsOf]
    cases modules.flatMap importLines with
    | nil => rfl
    | cons l ls => simp [Item.isType, Item.print, Text.join, Function.comp_def]
  | exports names =>
    refine ⟨_, emits_optional _ (emits_writeLine _), fun _ => ?_⟩
    cases names with
    | nil => rfl
    | cons => simp [declText, itemsOf, Item.isType, Item.print, Text.join]
  | union head tags =>
    exact ⟨_, emits_emitUnion head tags, fun _ => (declText_union head tags).symm⟩
  | typeAlias head properties =>
    exact ⟨_, emits_emitMaker _ _ _, fun _ => (declText_typeAlias head properties).symm⟩
  | comment body =>
    refine ⟨_, emits_writeLine _, fun _ => ?_⟩
    simp [declText, itemsOf, Item.isType, Item.print, Text.join]
  | multilineComment body =>
    refine ⟨_, (emits_writeLine _).seq ((emits_emitCommentLines _).seq (emits_writeLine _)),
      fun _ => ?_⟩
    simp [declText, itemsOf, Item.isType, Item.print, Text.join, String.append_assoc]
  | function name params result lets body =>
    refine ⟨_, emits_emitDecl s d _, ?_⟩
    rintro rfl
    exact (declText_function ..).symm
  | const name type lets value =>
    refine ⟨_, emits_emitDecl s d _, ?_⟩
    rintro rfl
    exact (declText_const ..).symm

/-! ## Programs -/

/-- The text of a declaration from a fresh pen. -/
def freshText (s : Style) (e : Decl) : String := (emitTopLevel s e {}).2.text

/-- From a fresh pen a declaration writes its text. -/
theorem freshText_eq (s : Style) (e : Decl) : freshText s e = declText s e := by
  obtain ⟨f, hf, htext⟩ := emits_emitTopLevel s 0 e
  rw [freshText, hf {} rfl, ← htext rfl]
  exact String.empty_append

/-- Apart from the rest, a declaration writes what it writes with a fresh pen, and what comes after
it finds the pen as it was. -/
theorem Emit.Emits.afterApart {e : Decl} {next : String → Emit} {f : Nat → String}
    (h : Emits 0 (next (freshText s e)) f) :
    Emits 0 (do next (← apart (emitTopLevel s e))) f := by
  intro p hp
  obtain ⟨g, hg, htext⟩ := emits_emitTopLevel s 0 e
  have happart : apart (emitTopLevel s e) p = (freshText s e, p) := by
    rw [apart, hg { p with text := "", indent := 0 } hp, freshText_eq, ← htext rfl]
    exact Prod.ext String.empty_append rfl
  change (fun r : String × Pen => next r.1 r.2) (apart (emitTopLevel s e) p) = _
  rw [happart]
  exact h p hp

/-- The texts of the declarations that write something, each from a fresh pen. -/
def freshTexts (s : Style) (ds : List Decl) : List String :=
  (ds.map (freshText s)).filter (!·.isEmpty)

/-- Declarations write independently of each other. -/
theorem freshTexts_append (s : Style) (ds es : List Decl) :
    freshTexts s (ds ++ es) = freshTexts s ds ++ freshTexts s es := by
  rw [freshTexts, List.map_append, List.filter_append]
  rfl

/-- The texts behind each other; an empty line stands before each of them but the first one. -/
def spaced (first : Bool) (texts : List String) : String :=
  if first then Text.join "\n" texts else String.join (texts.map ("\n" ++ ·))

/-- A blank line stands before every text but the first. -/
theorem spaced_cons (first : Bool) (text : String) (texts : List String) :
    spaced first (text :: texts)
      = (if !first then "\n" else "") ++ text ++ spaced false texts := by
  cases first with
  | true =>
    rw [spaced, if_pos rfl, Text.join_cons]
    exact congrArg (· ++ spaced false texts) String.empty_append.symm
  | false => exact String.join_cons

/-- **The pen that writes all of the program writes the fresh texts.** -/
theorem emits_emitProgram (s : Style) (ds : List Decl) (first : Bool) :
    Emits 0 (emitProgram s first ds) fun _ => spaced first (freshTexts s ds) := by
  induction ds generalizing first with
  | nil => exact emits_pure.of_eq fun _ => by cases first <;> rfl
  | cons e es ih =>
    have htext : Emits 0 (addText first (freshText s e)) _ := emits_optional _
      ((emits_optional _ (emits_write "\n")).seq (emits_write _))
    refine Emits.afterApart ((htext.seq (ih _)).of_eq fun _ => ?_)
    rw [freshTexts, freshTexts, List.map_cons, List.filter_cons]
    cases (freshText s e).isEmpty with
    | true =>
      rw [Bool.and_true]
      exact String.empty_append
    | false =>
      rw [Bool.and_false]
      exact (spaced_cons ..).symm

/-! ## Nothing is left open -/

/-- Whatever is written, the indentation and the number of open cases are what they were. -/
def Emit.Keeps (a : Emit) : Prop := ∀ p, (a p).2.indent = p.indent ∧ (a p).2.depth = p.depth

theorem Emit.keeps_of_emits {a : Emit} (h : ∀ d, ∃ f, Emits d a f) : a.Keeps := fun p => by
  obtain ⟨f, hf⟩ := h p.depth
  rw [hf p rfl]
  exact ⟨rfl, rfl⟩

/-- Hence nothing that a declaration opens stays open. -/
theorem keeps_emitTopLevel (s : Style) (e : Decl) : (emitTopLevel s e).Keeps :=
  keeps_of_emits fun d => (emits_emitTopLevel s d e).imp fun _ h => h.1

/-- The same of expressions. -/
theorem keeps_term (s : Style) (e : Expr) (parent : Nat) (right : Bool) :
    ((emission s .nothing e).term parent right).Keeps :=
  keeps_of_emits fun d => ⟨_, (emits_emission s d .nothing e).term parent right⟩

/-- The same of bodies. -/
theorem keeps_stmts (s : Style) (e : Expr) : (emission s .nothing e).stmts.Keeps :=
  keeps_of_emits fun d => ⟨_, (emits_emission s d .nothing e).stmts⟩

/-- The same of `let`s. -/
theorem keeps_emitLets (s : Style) (ds : List Decl) : (emitLets s ds).Keeps :=
  keeps_of_emits fun d => ⟨_, emits_emitLets s d ds⟩

end Script

open Script

/-- Imports are collected declaration by declaration. -/
theorem importsOf_append (ds es : List Decl) :
    importsOf (ds ++ es) = importsOf ds ++ importsOf es := List.flatMap_append

namespace Module

/-- A program is the texts of its declarations, each from a fresh pen. -/
theorem compile_eq_freshTexts (m : Module) (target : Target) :
    m.compile target = Text.join "\n" (freshTexts (styleFor target m.body) m.body) := by
  rw [compile, programText, freshTexts, funext (freshText_eq _)]

/-- Declarations with the same imports can stand for each other; no other text changes. -/
theorem compile_replaced (m : Module) (target : Target) {before old new after : List Decl}
    (hbody : m.body = before ++ old ++ after) (himports : importsOf new = importsOf old) :
    Module.compile { m with body := before ++ new ++ after } target =
      Text.join "\n" (freshTexts (styleFor target m.body) before ++
        freshTexts (styleFor target m.body) new ++ freshTexts (styleFor target m.body) after) := by
  have hstyle : styleFor target (before ++ new ++ after) = styleFor target m.body := by
    rw [hbody]
    simp only [styleFor, importsOf_append, himports]
  rw [compile_eq_freshTexts, hstyle, freshTexts_append, freshTexts_append]

/-- **Code generation is local to declarations.** One pen for all of the module writes the texts of
its declarations with a fresh pen, one newline apart. No declaration, no expression in either of its
forms and no `let` leaves an indentation or a case open. So what some declarations are replaced by,
the texts of those before and after are the same, as long as the imports are. -/
theorem compile_local (m : Module) (target : Target) :
    let s := styleFor target m.body
    emitProgram s true m.body {} = ((), { text := m.compile target }) ∧
    m.compile target = Text.join "\n" (freshTexts s m.body) ∧
    (∀ d, (emitTopLevel s d).Keeps) ∧
    (∀ e parent right, ((emission s .nothing e).term parent right).Keeps) ∧
    (∀ e, (emission s .nothing e).stmts.Keeps) ∧
    (∀ ds, (emitLets s ds).Keeps) ∧
    ∀ before old new after, m.body = before ++ old ++ after → importsOf new = importsOf old →
      Module.compile { m with body := before ++ new ++ after } target =
        Text.join "\n" (freshTexts s before ++ freshTexts s new ++ freshTexts s after) := by
  refine ⟨?_, m.compile_eq_freshTexts target, keeps_emitTopLevel _, keeps_term _, keeps_stmts _,
    keeps_emitLets _, fun before old new after => m.compile_replaced target⟩
  rw [emits_emitProgram _ m.body true {} rfl, m.compile_eq_freshTexts]
  exact congrArg (fun text => ((), ({ text } : Pen))) String.empty_append

/-- A function with a case in it is taken out between an import and a constant. -/
theorem compile_local_removed :
    let before : List Decl := [.imports [{ name := "./list" }]]
    let old : List Decl := [.function "get" [⟨some "m", .generic "a"⟩] (.generic "a") []
      (.caseOf (.value "m") [.mk .anything [] (.caseOf (.value "n") [])])]
    let after : List Decl := [.const "x" (.generic "a") [] (.value "1")]
    let s := styleFor .typeScript (before ++ old ++ after)
    importsOf [] = importsOf old ∧
      Module.compile ⟨"Main", before ++ [] ++ after, []⟩ .typeScript =
        Text.join "\n" (freshTexts s before ++ freshTexts s [] ++ freshTexts s after) :=
  ⟨rfl, (compile_local ⟨"Main", _, []⟩ .typeScript).2.2.2.2.2.2 _ _ _ _ rfl rfl⟩

end Module

end Derw
