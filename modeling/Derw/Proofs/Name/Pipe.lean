import Derw.Module.Pipe
import Derw.Name.Usage
import Mathlib.Data.List.Perm.Subperm

/-!
# Proofs/Name/Pipe — a pipe uses the names of the calls it stands for

The checker of names walks through a pipe as it stands, and the program is made of the calls that
the pipe is flattened to. Both use the same names. A target takes the value as one more argument,
which moves the names of the value behind those of the target (`usage_applyTo`); and if it takes no
argument, the names of the value are gone. So flattening never brings in a name, and it loses none
as long as each target of the chain takes its argument.
-/

namespace Derw

namespace Name.Usage

@[simp] theorem defined_append (u v : Usage) : (u ++ v).defined = u.defined ++ v.defined := rfl

@[simp] theorem read_append (u v : Usage) : (u ++ v).read = u.read ++ v.read := rfl

@[simp] theorem append_empty (u : Usage) : u ++ ({} : Usage) = u := by
  cases u
  exact congrArg₂ Usage.mk (List.append_nil _) (List.append_nil _)

@[simp] theorem empty_append (u : Usage) : ({} : Usage) ++ u = u := rfl

theorem append_assoc (u v w : Usage) : u ++ v ++ w = u ++ (v ++ w) :=
  congrArg₂ Usage.mk (List.append_assoc ..) (List.append_assoc ..)

/-! ## Comparing usages up to order -/

/-- No name is defined or read more often than in the other usage. -/
structure Within (u v : Usage) : Prop where
  defined : u.defined.Subperm v.defined
  read : u.read.Subperm v.read

/-- The same names are defined and read, each as often. -/
structure Same (u v : Usage) : Prop where
  defined : u.defined.Perm v.defined
  read : u.read.Perm v.read

variable {u v w : Usage}

theorem Same.trans (huv : u.Same v) (hvw : v.Same w) : u.Same w :=
  ⟨huv.defined.trans hvw.defined, huv.read.trans hvw.read⟩

theorem Same.append_left (w : Usage) (h : u.Same v) : (w ++ u).Same (w ++ v) :=
  ⟨h.defined.append_left _, h.read.append_left _⟩

theorem Same.append_right (w : Usage) (h : u.Same v) : (u ++ w).Same (v ++ w) :=
  ⟨h.defined.append_right _, h.read.append_right _⟩

/-- The order of two usages does not matter to what they have. -/
theorem same_append_comm (u v : Usage) : (u ++ v).Same (v ++ u) :=
  ⟨List.perm_append_comm, List.perm_append_comm⟩

/-- A part has no more than the whole. -/
theorem within_append_left (u v : Usage) : v.Within (u ++ v) :=
  ⟨(List.sublist_append_right _ _).subperm, (List.sublist_append_right _ _).subperm⟩

/-- What a comparison of usages needs to go along a chain. -/
structure Comparison (R : Usage → Usage → Prop) : Prop where
  of_same : ∀ {u v}, u.Same v → R u v
  trans : ∀ {u v w}, R u v → R v w → R u w
  append_right : ∀ {u v} (w : Usage), R u v → R (u ++ w) (v ++ w)

/-- Having the same is a comparison. -/
theorem comparison_same : Comparison Same := ⟨id, Same.trans, Same.append_right⟩

/-- So is having less. -/
theorem comparison_within : Comparison Within where
  of_same h := ⟨h.defined.subperm, h.read.subperm⟩
  trans huv hvw := ⟨huv.defined.trans hvw.defined, huv.read.trans hvw.read⟩
  append_right _ h :=
    ⟨(List.subperm_append_right _).mpr h.defined, (List.subperm_append_right _).mpr h.read⟩

end Name.Usage

open Name (Usage)

theorem usageOfExprs_append (es fs : List Expr) :
    usageOfExprs (es ++ fs) = usageOfExprs es ++ usageOfExprs fs := by
  induction es with
  | nil => rfl
  | cons e es ih => rw [List.cons_append, usageOfExprs, usageOfExprs, ih, Usage.append_assoc]

theorem usageOfExprs_singleton (e : Expr) : usageOfExprs [e] = e.usage false :=
  Usage.append_empty _

namespace Expr

/-! ## One target -/

/-- Whether a pipe can hand a value to the target: a name, a call or a lambda, also as a value of an
imported module. -/
def takesArgument : Expr → Bool
  | .value _ | .call .. | .lambda .. => true
  | .qualified _ e => e.takesArgument
  | _ => false

/-- A target that takes an argument uses its own names and those of the argument. -/
theorem usage_applyTo (arg : Expr) {target : Expr} (h : target.takesArgument = true)
    (foreign : Bool) :
    ((applyTo arg target).usage foreign).Same (arg.usage false ++ target.usage foreign) := by
  fun_induction applyTo arg target generalizing foreign with
  | case1 name args =>
    rw [usage, usage, usageOfExprs_append, usageOfExprs_singleton, ← Usage.append_assoc]
    exact Usage.same_append_comm _ _
  | case2 body =>
    rw [usage, usage, usageOfExprs_singleton]
    exact Usage.same_append_comm _ _
  | case3 path e ih =>
    rw [usage, usage]
    refine ((ih h true).append_left _).trans ?_
    rw [← Usage.append_assoc, ← Usage.append_assoc]
    exact (Usage.same_append_comm _ _).append_right _
  | case4 params body =>
    rw [usage, usage, usageOfExprs_singleton]
    exact Usage.same_append_comm _ _
  | case5 target hcall hvalue hqualified hlambda =>
    unfold takesArgument at h
    split at h
    next body => exact (hvalue body rfl).elim
    next name args => exact (hcall name args rfl).elim
    next params body => exact (hlambda params body rfl).elim
    next path e => exact (hqualified path e rfl).elim
    next => cases h

/-- A target that takes none stays as it is. -/
theorem applyTo_eq_self (arg : Expr) {target : Expr} (h : target.takesArgument = false) :
    applyTo arg target = target := by
  fun_induction applyTo arg target with
  | case1 | case2 | case4 => cases h
  | case3 path e ih => rw [ih h]
  | case5 => rfl

/-- Applied to a value, a target has no more than the two of them. -/
theorem usage_applyTo_within (arg target : Expr) (foreign : Bool) :
    ((applyTo arg target).usage foreign).Within (arg.usage false ++ target.usage foreign) := by
  cases h : target.takesArgument with
  | true => exact Usage.comparison_within.of_same (usage_applyTo arg h foreign)
  | false =>
    rw [applyTo_eq_self arg h]
    exact Usage.within_append_left _ _

/-! ## Chains -/

/-- The targets on the right side of a chain `left |> right`, in the order in which the value goes
through them. -/
def targetsAfter : Expr → List Expr
  | .leftPipe target right => target :: targetsAfter right
  | target => [target]

/-- The targets of a chain `target <| value`, the last one that the value goes through first. -/
def targetsBefore : Expr → List Expr
  | .rightPipe target e => target :: targetsBefore e
  | _ => []

/-- The targets of a pipe. -/
def targets : Expr → List Expr
  | .leftPipe _ right => targetsAfter right
  | e => targetsBefore e

section

variable {R : Usage → Usage → Prop} (hR : Usage.Comparison R)

include hR

/-- Left to right: the value goes through the targets one by one. -/
theorem usage_flatten {left right : Expr}
    (h : ∀ t ∈ right.targetsAfter, ∀ arg : Expr,
      R ((applyTo arg t).usage false) (arg.usage false ++ t.usage false)) :
    R ((flatten left right).usage false) (left.usage false ++ right.usage false) := by
  fun_induction flatten left right with
  | case1 left target right ih =>
    rw [targetsAfter, List.forall_mem_cons] at h
    refine hR.trans (ih h.2) ?_
    rw [usage, ← Usage.append_assoc]
    exact hR.append_right _ (h.1 left)
  | case2 left target hpipe =>
    refine h target ?_ left
    unfold targetsAfter
    split
    next t r => exact (hpipe t r rfl).elim
    next => exact List.mem_singleton_self _

/-- Right to left: the last target comes first. -/
theorem usage_flattenRight {e : Expr}
    (h : ∀ t ∈ e.targetsBefore, ∀ arg : Expr,
      R ((applyTo arg t).usage false) (arg.usage false ++ t.usage false)) :
    R ((flattenRight e).usage false) (e.usage false) := by
  fun_induction flattenRight e with
  | case1 target e ih =>
    rw [targetsBefore, List.forall_mem_cons] at h
    refine hR.trans (h.1 _) (hR.trans (hR.append_right _ (ih h.2)) ?_)
    rw [usage]
    exact hR.of_same (Usage.same_append_comm _ _)
  | case2 e => exact hR.of_same ⟨.refl _, .refl _⟩

/-- What each target of a pipe does to the names, the whole pipe does. -/
theorem usage_flattened? {p e : Expr} (hp : p.flattened? = some e)
    (h : ∀ t ∈ p.targets, ∀ arg : Expr,
      R ((applyTo arg t).usage false) (arg.usage false ++ t.usage false)) :
    R (e.usage false) (p.usage false) := by
  unfold flattened? at hp
  split at hp
  next left right =>
    obtain rfl := Option.some.inj hp
    exact usage_flatten hR h
  next target value =>
    obtain rfl := Option.some.inj hp
    exact usage_flattenRight hR (e := .rightPipe target value) h
  next => cases hp

end

/-- **A pipe and its calls use the same names**, if each target of the pipe takes its argument; and
in any case the calls use no other names. -/
theorem usage_flattened {p e : Expr} (h : p.flattened? = some e) :
    (e.usage false).Within (p.usage false) ∧
      ((∀ t ∈ p.targets, t.takesArgument = true) → (e.usage false).Same (p.usage false)) :=
  ⟨usage_flattened? Usage.comparison_within h fun t _ arg => usage_applyTo_within arg t false,
    fun htargets => usage_flattened? Usage.comparison_same h fun t ht arg =>
      usage_applyTo arg (htargets t ht) false⟩

/-- `total |> List.map f |> (x => x.sum)` calls the lambda on `List.map(f, total)`. -/
theorem usage_flattened_map :
    let p : Expr := .leftPipe (.value "total")
      (.leftPipe (.qualified ["List"] (.call "map" [.value "f"])) (.lambda ["x"] (.value "x.sum")))
    let e : Expr := .lambdaCall ["x"] (.value "x.sum")
      [.qualified ["List"] (.call "map" [.value "f", .value "total"])]
    p.flattened? = some e ∧ (∀ t ∈ p.targets, t.takesArgument = true) ∧
      (e.usage false).read = ["x", "List", "f", "total"] ∧
      (p.usage false).read = ["total", "List", "f", "x"] ∧ (e.usage false).Same (p.usage false) :=
  have h : ∀ t ∈ Expr.targets _, t.takesArgument = true := by
    simp [targets, targetsAfter, takesArgument]
  ⟨rfl, h, by decide +kernel, by decide +kernel, (usage_flattened rfl).2 h⟩

end Expr

end Derw
