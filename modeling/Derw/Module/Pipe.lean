import Derw.Module.Basic

/-!
# Module/Pipe — pipes as nested calls

`a |> f |> g` and `g <| f <| a` both mean `g(f(a))`. A chain is taken apart at its outermost pipes
only, and each target gets the value so far as its last argument (`applyTo`). A target that takes no
arguments stays as it is, and the value is dropped.
-/

namespace Derw.Expr

/-- The target with `arg` as a further last argument. -/
def applyTo (arg : Expr) : Expr → Expr
  | .call name args => .call name (args ++ [arg])
  | .value body => .call body [arg]
  | .qualified path e => .qualified path (applyTo arg e)
  | .lambda params body => .lambdaCall params body [arg]
  | target => target

/-- Passes `left` through the targets of a chain `left |> right`. -/
def flatten (left : Expr) : Expr → Expr
  | .leftPipe target right => flatten (applyTo left target) right
  | target => applyTo left target

/-- The value of the right side of a chain `target <| value`. -/
def flattenRight : Expr → Expr
  | .rightPipe target e => applyTo (flattenRight e) target
  | e => e

/-- The calls that a pipe stands for; none for other expressions. -/
def flattened? : Expr → Option Expr
  | .leftPipe left right => some (flatten left right)
  | .rightPipe target e => some (applyTo (flattenRight e) target)
  | _ => none

end Derw.Expr
