import Derw.Proofs.Name.Pipe
import Mathlib.Data.List.Induction

/-!
# Proofs/Module/Chain — a chain of pipes is its targets applied in turn

A chain can be written in two directions: `e |> (t₁ |> (… |> tₙ))` (`pipeline`) and
`tₙ <| (… <| (t₁ <| e))` (`pipelineRight`). Flattening walks the first from its head and the second
back from its end, and both come to the same calls: each target is applied to what the targets
before it have made of `e`.

What the calls look like is told without the function that builds them. An expression that can be
called is read as an `Application`, with the arguments it already has (`target?`), and so is a call
that has been made (`application?`). To take the last application off `n` times (`unapply?`) gives
back the targets, each once and with its own arguments, and at the bottom `e`
(`unapply?_foldl_applyTo`).
-/

namespace Derw

/-- What is called by a call. -/
inductive Callee
  | name (n : String)
  | lambda (params : List String) (body : Expr)

/-- A call: the modules through which its callee is reached, the outermost first, and the
arguments. -/
structure Application where
  modules : List (List String) := []
  callee : Callee
  args : List Expr

namespace Application

def within (path : List String) (a : Application) : Application :=
  { a with modules := path :: a.modules }

/-- The call with a further last argument. -/
def applied (arg : Expr) (a : Application) : Application := { a with args := a.args ++ [arg] }

/-- The call without its last argument. -/
def withoutLast (a : Application) : Application := { a with args := a.args.dropLast }

theorem within_applied (path : List String) (arg : Expr) (a : Application) :
    (a.applied arg).within path = (a.within path).applied arg := rfl

theorem getLast?_args_applied (arg : Expr) (a : Application) :
    (a.applied arg).args.getLast? = some arg :=
  List.getLast?_concat

theorem withoutLast_applied (arg : Expr) (a : Application) : (a.applied arg).withoutLast = a :=
  congrArg (Application.mk a.modules a.callee) List.dropLast_concat

end Application

namespace Expr

/-! ## Reading calls -/

/-- What a pipe can apply, with the arguments it has of its own. -/
def target? : Expr → Option Application
  | .value n => some { callee := .name n, args := [] }
  | .call n args => some { callee := .name n, args }
  | .lambda params body => some { callee := .lambda params body, args := [] }
  | .qualified path e => e.target?.map (·.within path)
  | _ => none

/-- The call that an expression is. -/
def application? : Expr → Option Application
  | .call n args => some { callee := .name n, args }
  | .lambdaCall params body args => some { callee := .lambda params body, args }
  | .qualified path e => e.application?.map (·.within path)
  | _ => none

/-- Takes a number of applications off, each from the last argument of the one before: the calls
without these arguments, the innermost first, and what is left. -/
def unapply? : Nat → Expr → Option (List Application × Expr)
  | 0, e => some ([], e)
  | n + 1, e => do
    let call ← e.application?
    let arg ← call.args.getLast?
    let (earlier, start) ← unapply? n arg
    return (earlier ++ [call.withoutLast], start)

theorem isSome_target? (t : Expr) : t.target?.isSome = t.takesArgument := by
  fun_induction takesArgument t with
  | case1 | case2 | case3 => rfl
  | case4 path e ih => rw [target?, Option.isSome_map, ih]
  | case5 t hvalue hcall hlambda hqualified =>
    unfold target?
    split
    next n => exact (hvalue n rfl).elim
    next n args => exact (hcall n args rfl).elim
    next params body => exact (hlambda params body rfl).elim
    next path e => exact (hqualified path e rfl).elim
    next => rfl

theorem exists_targets {ts : List Expr} (h : ∀ t ∈ ts, t.takesArgument = true) :
    ∃ calls : List Application, ts.map target? = calls.map some := by
  induction ts with
  | nil => exact ⟨[], rfl⟩
  | cons t ts ih =>
    obtain ⟨calls, hcalls⟩ := ih fun other hmem => h other (List.mem_cons_of_mem t hmem)
    obtain ⟨call, hcall⟩ := Option.isSome_iff_exists.mp
      ((isSome_target? t).trans (h t List.mem_cons_self))
    exact ⟨call :: calls, by rw [List.map_cons, hcall, hcalls, List.map_cons]⟩

/-- **A target that is applied keeps its own arguments and receives one more**, behind them. -/
theorem application?_applyTo (arg : Expr) {t : Expr} {a : Application} (h : t.target? = some a) :
    (applyTo arg t).application? = some (a.applied arg) := by
  fun_induction applyTo arg t generalizing a with
  | case1 name args => obtain rfl := Option.some.inj h; rfl
  | case2 body => obtain rfl := Option.some.inj h; rfl
  | case3 path e ih =>
    obtain ⟨inner, hinner, rfl⟩ := Option.map_eq_some_iff.mp h
    rw [application?, ih hinner, Option.map_some, Application.within_applied]
  | case4 params body => obtain rfl := Option.some.inj h; rfl
  | case5 t hcall hvalue hqualified hlambda =>
    unfold target? at h
    split at h
    next n => exact (hvalue n rfl).elim
    next n args => exact (hcall n args rfl).elim
    next params body => exact (hlambda params body rfl).elim
    next path e => exact (hqualified path e rfl).elim
    next => cases h

/-- Taking applications off is the way back from applying targets in turn. -/
theorem unapply?_foldl_applyTo (e : Expr) {ts : List Expr} {calls : List Application}
    (h : ts.map target? = calls.map some) :
    unapply? ts.length (ts.foldl applyTo e) = some (calls, e) := by
  induction ts using List.reverseRecOn generalizing calls with
  | nil =>
    obtain rfl : calls = [] := List.map_eq_nil_iff.mp h.symm
    rfl
  | append_singleton ts t ih =>
    rw [List.map_append, List.map_singleton] at h
    obtain ⟨earlier, last, rfl, hearlier, hlast⟩ := List.map_eq_append_iff.mp h.symm
    obtain ⟨call, rfl, hcall⟩ := List.map_eq_singleton_iff.mp hlast
    rw [List.length_append, List.length_singleton, List.foldl_append, List.foldl_cons,
      List.foldl_nil, unapply?, application?_applyTo _ hcall.symm]
    simp only [Option.bind_eq_bind, Option.bind_some, Application.getLast?_args_applied,
      ih hearlier.symm, Application.withoutLast_applied]
    rfl

/-! ## Chains -/

def isPipe : Expr → Bool
  | .leftPipe .. | .rightPipe .. => true
  | _ => false

/-- The chain `e |> (t₁ |> (… |> tₙ))`. -/
def pipeline (e : Expr) : List Expr → Expr
  | [] => e
  | t :: ts => .leftPipe e (pipeline t ts)

/-- The chain `tₙ <| (… <| (t₁ <| e))`. -/
def pipelineRight (e : Expr) (ts : List Expr) : Expr :=
  ts.foldl (fun value t => .rightPipe t value) e

theorem flatten_of_takesArgument (left : Expr) {t : Expr} (h : t.takesArgument = true) :
    flatten left t = applyTo left t := by
  cases t with
  | leftPipe => cases h
  | _ => rfl

theorem flatten_pipeline (left : Expr) {t : Expr} {ts : List Expr}
    (h : ∀ target ∈ t :: ts, target.takesArgument = true) :
    flatten left (pipeline t ts) = (t :: ts).foldl applyTo left := by
  induction ts generalizing left t with
  | nil => exact flatten_of_takesArgument left (h t List.mem_cons_self)
  | cons next ts ih =>
    exact ih (applyTo left t) fun target ht => h target (List.mem_cons_of_mem t ht)

theorem pipelineRight_concat (e t : Expr) (ts : List Expr) :
    pipelineRight e (ts ++ [t]) = .rightPipe t (pipelineRight e ts) := by
  rw [pipelineRight, List.foldl_append]
  rfl

theorem flattenRight_pipelineRight {e : Expr} (he : e.isPipe = false) (ts : List Expr) :
    flattenRight (pipelineRight e ts) = ts.foldl applyTo e := by
  induction ts using List.reverseRecOn with
  | nil =>
    cases e with
    | rightPipe => cases he
    | _ => rfl
  | append_singleton ts t ih =>
    rw [pipelineRight_concat, flattenRight, ih, List.foldl_append]
    rfl

/-- **A chain of pipes, in either direction, is its targets applied in turn.** In the calls it comes
to, each target stands once, in order, with its own arguments and behind them the call before it,
and the innermost one is applied to what the chain starts with. -/
theorem flattened?_chain {e : Expr} {ts : List Expr} (he : e.isPipe = false) (hne : ts ≠ [])
    (hts : ∀ t ∈ ts, t.takesArgument = true) :
    let result := ts.foldl applyTo e
    (pipeline e ts).flattened? = some result ∧ (pipelineRight e ts).flattened? = some result ∧
      ∃ calls, ts.map target? = calls.map some ∧ unapply? ts.length result = some (calls, e) := by
  intro result
  refine ⟨?_, ?_, ?_⟩
  · obtain ⟨t, ts, rfl⟩ := List.exists_cons_of_ne_nil hne
    exact congrArg some (flatten_pipeline e hts)
  · have hright : flattenRight (pipelineRight e ts) = result := flattenRight_pipelineRight he ts
    obtain ⟨ts, t, rfl⟩ := (List.eq_nil_or_concat' ts).resolve_left hne
    rw [pipelineRight_concat, flattenRight] at hright
    rw [pipelineRight_concat, flattened?, hright]
  · obtain ⟨calls, hcalls⟩ := exists_targets hts
    exact ⟨calls, hcalls, unapply?_foldl_applyTo e hcalls⟩

/-- `numbers |> List.filter isEven |> (x => x.length) |> show`, in both directions. -/
theorem flattened?_chain_length :
    let e : Expr := .value "numbers"
    let filter : Expr := .qualified ["List"] (.call "filter" [.value "isEven"])
    let length : Expr := .lambda ["x"] (.value "x.length")
    let result : Expr := .call "show" [.lambdaCall ["x"] (.value "x.length")
      [.qualified ["List"] (.call "filter" [.value "isEven", .value "numbers"])]]
    let calls : List Application := [⟨[["List"]], .name "filter", [.value "isEven"]⟩,
      ⟨[], .lambda ["x"] (.value "x.length"), []⟩, ⟨[], .name "show", []⟩]
    (Expr.leftPipe e (.leftPipe filter (.leftPipe length (.value "show")))).flattened?
        = some result ∧
      (Expr.rightPipe (.value "show") (.rightPipe length (.rightPipe filter e))).flattened?
        = some result ∧
      unapply? 3 result = some (calls, e) := by
  intro e filter length result calls
  have hts : ∀ t ∈ [filter, length, .value "show"], t.takesArgument = true := by
    simp [filter, length, takesArgument]
  obtain ⟨hleft, hright, read, hread, hunapply⟩ :=
    flattened?_chain (e := e) rfl (List.cons_ne_nil _ _) hts
  have hcalls : read = calls := List.map_injective_iff.mpr (fun _ _ => Option.some.inj) hread.symm
  exact ⟨hleft, hright, hcalls ▸ hunapply⟩

end Expr

end Derw
