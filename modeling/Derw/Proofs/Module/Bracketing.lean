import Derw.Proofs.Module.Chain
import Derw.Script.Program

/-!
# Proofs/Module/Bracketing — chains of pipes with brackets anywhere

`a |> f |> g` can be bracketed in many ways, and a program has no brackets to show for it. `Pipes`
are the pipes over a list of expressions with all their brackets, and `Pipes.kept` are the
expressions that end up in the program: all of them, unless a bracket around pipes stands where a
target should be. Such a bracket takes no value, so that the value is dropped together with
whatever it came from, and the chain goes on with what the bracket starts with.

`term_lower_expr` reads the kept expressions off the lowering: a value that flows along a chain is
always the calls of the expressions kept so far.
-/

namespace Derw

/-- Pipes over expressions, with their brackets. -/
inductive Pipes
  | leaf (e : Expr)
  | pipe (left right : Pipes)

namespace Pipes

def expr : Pipes → Expr
  | leaf e => e
  | pipe left right => .leftPipe left.expr right.expr

/-- The expressions from left to right. -/
def leaves : Pipes → List Expr
  | leaf e => [e]
  | pipe left right => left.leaves ++ right.leaves

/-- The expressions that the program shows, if those in `before` have come through so far. Pipes
that stand first in the place of a target take nothing over. -/
def kept (before : List Expr) : Pipes → List Expr
  | leaf e => before ++ [e]
  | pipe (leaf e) right => right.kept (before ++ [e])
  | pipe (pipe left middle) right => right.kept ((pipe left middle).kept [])

/-- Whether targets stand one after the other, with no brackets but those to the right. -/
def isChain : Pipes → Bool
  | leaf _ => true
  | pipe (leaf _) right => right.isChain
  | pipe (pipe ..) _ => false

/-- Whether no pipes in brackets stand in the place of a target, other than as the rest of a
chain. -/
def isStraight : Pipes → Bool
  | leaf _ => true
  | pipe left right => left.isStraight && right.isChain

end Pipes

/-- Each expression applied to the calls of those before it. -/
def Expr.calls : List Expr → Expr
  | [] => .absent
  | e :: ts => ts.foldl applyTo e

theorem Expr.calls_concat {es : List Expr} (h : es ≠ []) (t : Expr) :
    calls (es ++ [t]) = applyTo (calls es) t := by
  obtain ⟨e, ts, rfl⟩ := List.exists_cons_of_ne_nil h
  exact List.foldl_concat applyTo e t ts

namespace Pipes

/-! ## What is kept -/

theorem leaves_ne_nil (p : Pipes) : p.leaves ≠ [] := by
  induction p with
  | leaf e => exact List.cons_ne_nil e []
  | pipe left right hleft _ => exact fun h => hleft (List.append_eq_nil_iff.mp h).1

theorem kept_ne_nil (before : List Expr) (p : Pipes) : p.kept before ≠ [] := by
  fun_induction kept before p with
  | case1 before e => exact fun h => List.cons_ne_nil e [] (List.append_eq_nil_iff.mp h).2
  | case2 before e right ih => exact ih
  | case3 before left middle right _ ih => exact ih

/-- What is dropped stands to the left of what is kept. -/
theorem kept_suffix (before : List Expr) (p : Pipes) : p.kept before <:+ before ++ p.leaves := by
  fun_induction kept before p with
  | case1 before e => exact List.suffix_refl _
  | case2 before e right ih => rwa [leaves, leaves, ← List.append_assoc]
  | case3 before left middle right hinner ih =>
    rw [leaves]
    refine ih.trans ((List.suffix_append_self_iff.mpr hinner).trans ?_)
    exact List.suffix_append before _

theorem kept_of_isChain (before : List Expr) {p : Pipes} (h : p.isChain = true) :
    p.kept before = before ++ p.leaves := by
  fun_induction kept before p with
  | case1 before e => rfl
  | case2 before e right ih => rw [ih h, leaves, leaves, List.append_assoc]
  | case3 => cases h

/-- Brackets in the place of a target drop all that came before. -/
theorem length_kept_lt {before : List Expr} (hne : before ≠ []) {p : Pipes}
    (h : p.isChain = false) : (p.kept before).length < before.length + p.leaves.length := by
  have hpos := List.length_pos_of_ne_nil hne
  fun_induction kept before p with
  | case1 => cases h
  | case2 before e right ih =>
    have hlt := ih (by simp) h (by simp)
    simp only [leaves, List.length_append, List.length_singleton] at hlt ⊢
    omega
  | case3 before left middle right _ _ =>
    have hright := (kept_suffix ((pipe left middle).kept []) right).length_le
    have hinner := (kept_suffix [] (pipe left middle)).length_le
    rw [leaves]
    simp only [List.length_append, List.nil_append] at hright hinner ⊢
    omega

theorem kept_eq_leaves_iff (p : Pipes) : p.kept [] = p.leaves ↔ p.isStraight = true := by
  induction p with
  | leaf e => exact iff_of_true rfl rfl
  | pipe left right hleft _ =>
    have hkept : (pipe left right).kept [] = right.kept (left.kept []) := by cases left <;> rfl
    rw [hkept, isStraight, Bool.and_eq_true, ← hleft, leaves]
    refine ⟨fun h => ?_, fun ⟨hl, hr⟩ => by rw [hl, kept_of_isChain _ hr]⟩
    have hlength := congrArg List.length h
    have hinner : (left.kept []).length ≤ left.leaves.length := (kept_suffix [] left).length_le
    rw [List.length_append] at hlength
    have hchain : right.isChain = true := by
      rw [← Bool.not_eq_false]
      intro hr
      have := length_kept_lt (kept_ne_nil [] left) hr
      omega
    rw [kept_of_isChain _ hchain] at h
    exact ⟨List.append_cancel_right h, hchain⟩

end Pipes

/-! ## What is written -/

namespace Script

theorem lowerAll_append (depth : Nat) (es fs : List Expr) :
    lowerAll depth (es ++ fs) = lowerAll depth es ++ lowerAll depth fs := by
  induction es with
  | nil => rfl
  | cons e es ih => rw [List.cons_append, lowerAll, lowerAll, ih, List.cons_append]

/-- A target that a value flows into is written as the target applied to it. -/
theorem lower_applyTo (depth : Nat) (arg : Expr) {t : Expr} (h : t.takesArgument = true)
    {inflow : Inflow} (hin : inflow.value? = some (lower depth .nothing arg).term) :
    lower depth inflow t = lower depth .nothing (Expr.applyTo arg t) := by
  fun_induction Expr.applyTo arg t generalizing inflow with
  | case1 name args =>
    rw [lower, lower, applied, applied, hin, lowerAll_append, List.append_assoc]
    rfl
  | case2 body =>
    rw [lower, lower, hin]
    rfl
  | case3 path e ih =>
    rw [lower, lower, hin]
    exact congrArg (fun l : Lowered => Lowered.ofTerm (.qualified path l.term)) (ih h rfl)
  | case4 params body =>
    rw [lower, lower, hin]
    rfl
  | case5 t hcall hvalue hqualified hlambda =>
    unfold Expr.takesArgument at h
    split at h
    next body => exact (hvalue body rfl).elim
    next name args => exact (hcall name args rfl).elim
    next params body => exact (hlambda params body rfl).elim
    next path e => exact (hqualified path e rfl).elim
    next => cases h

section

variable (depth : Nat) (left right : Expr) (a : Term)

theorem lower_leftPipe :
    lower depth .nothing (.leftPipe left right)
      = .ofTerm (lower depth (.chain (lower depth .nothing left).term) right).term := rfl

theorem lower_leftPipe_chain :
    lower depth (.chain a) (.leftPipe left right)
      = .ofTerm (lower depth (.chain (lower depth (.argument a) left).term) right).term := rfl

/-- An argument does not get into a pipe, which is written as if it stood alone. -/
theorem lower_leftPipe_argument :
    lower depth (.argument a) (.leftPipe left right)
      = lower depth .nothing (.leftPipe left right) :=
  rfl

end

/-- Pipes are written as the calls of the expressions they keep, both on their own and where a value
flows in. -/
theorem term_lower_expr (depth : Nat) (p : Pipes) :
    ((∀ t ∈ p.leaves.tail, t.takesArgument = true) →
      (lower depth .nothing p.expr).term = (lower depth .nothing (Expr.calls (p.kept []))).term) ∧
    ∀ before, before ≠ [] → (∀ t ∈ p.leaves, t.takesArgument = true) →
      (lower depth (.chain (lower depth .nothing (Expr.calls before)).term) p.expr).term
        = (lower depth .nothing (Expr.calls (p.kept before))).term := by
  induction p with
  | leaf e =>
    refine ⟨fun _ => rfl, fun before hne h => ?_⟩
    rw [Pipes.kept, Expr.calls_concat hne, Pipes.expr,
      lower_applyTo depth _ (h e (List.mem_singleton_self e)) rfl]
  | pipe left right hleft hright =>
    have htail : (Pipes.pipe left right).leaves.tail = left.leaves.tail ++ right.leaves :=
      List.tail_append_of_ne_nil left.leaves_ne_nil
    refine ⟨fun h => ?_, fun before hne h => ?_⟩
    · rw [htail, List.forall_mem_append] at h
      have hkept : (Pipes.pipe left right).kept [] = right.kept (left.kept []) := by
        cases left <;> rfl
      rw [hkept, Pipes.expr, lower_leftPipe, hleft.1 h.1]
      exact hright.2 _ (left.kept_ne_nil []) h.2
    · rw [Pipes.leaves, List.forall_mem_append] at h
      rw [Pipes.expr, lower_leftPipe_chain]
      cases left with
      | leaf e =>
        rw [Pipes.expr, lower_applyTo depth _ (h.1 e (List.mem_singleton_self e)) rfl,
          ← Expr.calls_concat hne]
        exact hright.2 _ (by simp) h.2
      | pipe first second =>
        rw [Pipes.expr, lower_leftPipe_argument]
        have halone := hleft.1 fun t ht => h.1 t (List.mem_of_mem_tail ht)
        rw [Pipes.expr] at halone
        rw [halone]
        exact hright.2 _ (Pipes.kept_ne_nil [] _) h.2

end Script

theorem Expr.compile_eq_calls (p : Pipes) (hts : ∀ t ∈ p.leaves.tail, t.takesArgument = true)
    (target : Script.Target) : p.expr.compile target = (calls (p.kept [])).compile target :=
  congrArg (Script.Term.toText (Script.styleFor target [])) ((Script.term_lower_expr 0 p).1 hts)

/-- **Brackets do not show, unless pipes in brackets stand in the place of a target.** Without such
brackets, pipes are written as the last expression applied to the one before it and so on down to
the first one, in both targets. With them, the same is true of what is left after some of the first
expressions are dropped. -/
theorem compile_pipes (p : Pipes) {e : Expr} {ts : List Expr} (hp : p.leaves = e :: ts)
    (hts : ∀ t ∈ ts, t.takesArgument = true) (target : Script.Target) :
    (p.isStraight = true → p.expr.compile target = (ts.foldl Expr.applyTo e).compile target) ∧
    (p.isStraight = false → ∃ dropped start targets, dropped ≠ [] ∧
      dropped ++ start :: targets = e :: ts ∧
      p.expr.compile target = (targets.foldl Expr.applyTo start).compile target) := by
  have hcalls := Expr.compile_eq_calls p (by rwa [hp]) target
  refine ⟨fun hstraight => ?_, fun hbent => ?_⟩
  · rw [hcalls, p.kept_eq_leaves_iff.mpr hstraight, hp]
    rfl
  · obtain ⟨dropped, hdropped⟩ := p.kept_suffix []
    obtain ⟨start, targets, hkept⟩ := List.exists_cons_of_ne_nil (p.kept_ne_nil [])
    rw [List.nil_append] at hdropped
    refine ⟨dropped, start, targets, fun hnil => ?_, ?_, ?_⟩
    · rw [hnil, List.nil_append, p.kept_eq_leaves_iff, hbent] at hdropped
      cases hdropped
    · rw [← hkept, hdropped, hp]
    · rw [hcalls, hkept]
      rfl

/-- `(a |> f) |> (List.map(g) |> h)`. -/
theorem compile_pipes_straight :
    let f : Expr := .value "f"
    let map : Expr := .qualified ["List"] (.call "map" [.value "g"])
    let h : Expr := .value "h"
    let p : Pipes := .pipe (.pipe (.leaf (.value "a")) (.leaf f)) (.pipe (.leaf map) (.leaf h))
    p.leaves = .value "a" :: [f, map, h] ∧ p.isStraight = true ∧
      (∀ t ∈ [f, map, h], t.takesArgument = true) ∧
      p.expr.compile .javaScript
        = ([f, map, h].foldl Expr.applyTo (.value "a")).compile .javaScript ∧
      p.expr.compile .javaScript = "h(List.map(g, f(a)))" := by
  intro f map h p
  have hts : ∀ t ∈ [f, map, h], t.takesArgument = true := by
    simp [f, map, h, Expr.takesArgument]
  exact ⟨rfl, rfl, hts, (compile_pipes p rfl hts .javaScript).1 rfl, by decide +kernel⟩

/-- `a |> ((f |> g) |> h)`: the brackets take no value, and `a` is dropped. -/
theorem compile_pipes_dropped :
    let value (name : String) : Pipes := .leaf (.value name)
    let p : Pipes := .pipe (value "a") (.pipe (.pipe (value "f") (value "g")) (value "h"))
    let chain : Expr := [.value "f", .value "g", .value "h"].foldl Expr.applyTo (.value "a")
    p.leaves = [.value "a", .value "f", .value "g", .value "h"] ∧ p.isStraight = false ∧
      p.expr.compile .javaScript = "h(g(f))" ∧ chain.compile .javaScript = "h(g(f(a)))" ∧
      p.expr.compile .typeScript = "h(g(f))" ∧ chain.compile .typeScript = "h(g(f(a)))" := by
  intro value p chain
  exact ⟨rfl, rfl, by decide +kernel, by decide +kernel, by decide +kernel, by decide +kernel⟩

end Derw
