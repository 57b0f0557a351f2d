import Derw.Module.Basic
import Derw.Name.Usage
import Derw.Script.ListMatch
import Derw.Script.Syntax

/-!
# Script/Lower — from modules to the generated program

An expression has two forms in the generated program: as a term, and as the statements that return
its value (`Lowered`). Conditionals and cases read better as statements, so the second form is used
wherever a body ends. Pipes disappear on the way: the value that flows into an expression is handed
down to it as its `Inflow`.
-/

namespace Derw.Script

/-- What a pipe hands to an expression. -/
inductive Inflow
  | nothing
  /-- The last argument of the expression. -/
  | argument (value : Term)
  /-- The value that goes through the expression, which may be a chain of targets. -/
  | chain (value : Term)

/-- What flows into an expression that is no chain. -/
def Inflow.value? : Inflow → Option Term
  | nothing => none
  | argument a | chain a => some a

/-- An expression as a term and as statements that return its value. -/
structure Lowered where
  term : Term
  stmts : List Stmt

def Lowered.ofTerm (t : Term) : Lowered := ⟨t, [.return t]⟩

/-- The spelling of an operator in the target. -/
def targetOperator : String → String
  | "==" => "==="
  | "!=" => "!=="
  | "and" => "&&"
  | "or" => "||"
  | op => op

def lowerBinary (operator : String) (left right : Term) : Term :=
  match operator with
  | "++" => .concat left right
  | "::" => .cons left right
  | op => .binary (targetOperator op) left right

/-- A call of an expression with what flows into it. -/
def applied (name : String) (args : List Term) (inflow : Inflow) : Term :=
  .call name (args ++ inflow.value?.toList)

def isAbsent : Derw.Expr → Bool
  | .absent => true
  | _ => false

def isObject : Derw.Expr → Bool
  | .object .. => true
  | _ => false

/-- The entries of an object on top of another one, unless that is absent. -/
def entriesOf (hasBase : Bool) (base : Term) (fields : List Entry) : List Entry :=
  if hasBase then .spread base :: fields else fields

/-- How the branches of a case are told apart. -/
inductive Dispatch
  | byTag
  | byLength
  | byValue
  deriving DecidableEq, Repr

/-- By value if some branch compares texts, else by length if some branch takes a list apart. -/
def dispatchOf (patterns : List Pattern) : Dispatch :=
  if patterns.any (fun | .shape (.text _) | .shape (.format _) => true | _ => false) then .byValue
  else if patterns.any (fun | .shape .empty | .list _ => true | _ => false) then .byLength
  else .byTag

/-- The match of one branch, in a case that tries its branches in order. -/
def branchMatch : Pattern → Nest
  | .shape s => .guard [.passes .subject (testOf s)] (.binds (fieldBinds .subject s) .body)
  | .list parts => listMatch parts
  | .anything => .scope .body

/-- The arm of one branch, in a case that chooses by the tag. -/
def armOf (branch : Pattern × List Stmt) : Arm :=
  match branch.1 with
  | .shape (.tag name fields) => .mk (some name) (fieldBinds .subject (.tag name fields)) branch.2
  | _ => .mk none [] branch.2

/-- The statements of a case, which keeps its subject under the name `subject`. -/
def caseStmts (subject : String) (value : Term) (branches : List (Pattern × List Stmt)) :
    List Stmt :=
  .hold subject value ::
    match dispatchOf (branches.map (·.1)) with
    | .byTag => [.switch subject (branches.map armOf)]
    | .byLength | .byValue => branches.map fun b => .branch subject (branchMatch b.1) b.2

def parametersOf (params : List Param) : List Parameter :=
  params.mapIdx fun i p => ⟨Name.paramName i p, p.type⟩

mutual

/-- Lowers an expression that stands inside `depth` cases. -/
def lower (depth : Nat) (inflow : Inflow) : Derw.Expr → Lowered
  | .absent => .ofTerm .undefined
  | .value body =>
    .ofTerm (match inflow.value? with
      | some a => .call body [a]
      | none => .raw body)
  | .text body => .ofTerm (.text body)
  | .format body => .ofTerm (.template body)
  | .list items => .ofTerm (.list (lowerAll depth items))
  | .range start stop =>
    .ofTerm (.range (lower depth .nothing start).term (lower depth .nothing stop).term)
  | .object base fields =>
    .ofTerm (.object (entriesOf (!isAbsent base) (lower depth .nothing base).term
      (lowerFields depth fields)))
  | .construct name => .ofTerm (.call name [.object []])
  | .constructWith name base fields =>
    .ofTerm (.call name [.object (entriesOf (!isAbsent base) (lower depth .nothing base).term
      (lowerFields depth fields))])
  | .ifElse condition yesLets yes noLets no =>
    let c := (lower depth .nothing condition).term
    let y := lower depth .nothing yes
    let n := lower depth .nothing no
    let stmts :=
      [.ifElse c (lowerLets depth yesLets ++ y.stmts) (lowerLets depth noLets ++ n.stmts)]
    ⟨if yesLets.isEmpty && noLets.isEmpty then .ternary c y.term n.term else .invoked stmts, stmts⟩
  | .caseOf subject branches =>
    let stmts := caseStmts (subjectName depth) (lower depth .nothing subject).term
      (lowerBranches (depth + 1) branches)
    ⟨.invoked stmts, stmts⟩
  | .binary operator left right =>
    .ofTerm
      (lowerBinary operator (lower depth .nothing left).term (lower depth .nothing right).term)
  | .unary operator operand =>
    .ofTerm
      (.unary (if operator == "not" then "!" else operator) (lower depth .nothing operand).term)
  | .leftPipe left right =>
    let through := match inflow with
      | .chain a => lower depth (.argument a) left
      | _ => lower depth .nothing left
    .ofTerm (lower depth (.chain through.term) right).term
  | .rightPipe target value =>
    .ofTerm (lower depth (.argument (lower depth .nothing value).term) target).term
  | .qualified path value =>
    let into := match inflow.value? with
      | some a => .argument a
      | none => .nothing
    .ofTerm (.qualified path (lower depth into value).term)
  | .call name args => .ofTerm (applied name (lowerAll depth args) inflow)
  | .lambda params body =>
    let b := (lower depth .nothing body).term
    let b := if isObject body then .group b else b
    .ofTerm (match inflow.value? with
      | some a => .arrowCall params b [a]
      | none => .arrow params b)
  | .lambdaCall params body args =>
    let b := (lower depth .nothing body).term
    .ofTerm (.arrowCall params (if isObject body then .group b else b) (lowerAll depth args))

def lowerAll (depth : Nat) : List Derw.Expr → List Term
  | [] => []
  | e :: es => (lower depth .nothing e).term :: lowerAll depth es

def lowerFields (depth : Nat) : List Derw.Field → List Entry
  | [] => []
  | .mk name value :: fs => .field name (lower depth .nothing value).term :: lowerFields depth fs

/-- Each branch with the statements of its body. -/
def lowerBranches (depth : Nat) : List Derw.Branch → List (Pattern × List Stmt)
  | [] => []
  | .mk pattern lets body :: bs =>
    (pattern, lowerLets depth lets ++ (lower depth .nothing body).stmts) :: lowerBranches depth bs

/-- A function or constant; other declarations have no statement. -/
def lowerDecl (depth : Nat) : Derw.Decl → List Stmt
  | .function name params result lets body =>
    [.function name (parametersOf params) result
      (lowerLets depth lets ++ (lower depth .nothing body).stmts)]
  | .const name type lets value =>
    let v := lower depth .nothing value
    [.const name type
      (if lets.isEmpty then v.term else .invoked (lowerLets depth lets ++ v.stmts))]
  | .imports _ | .exports _ | .union .. | .typeAlias .. | .comment _ | .multilineComment _ => []

def lowerLets (depth : Nat) : List Derw.Decl → List Stmt
  | [] => []
  | d :: ds => lowerDecl depth d ++ lowerLets depth ds

end

/-- The term of a single expression. -/
def termOf (e : Derw.Expr) : Term := (lower 0 .nothing e).term

end Derw.Script
