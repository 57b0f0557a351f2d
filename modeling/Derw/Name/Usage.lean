import Derw.Module.Basic
import Derw.Text.Blank
import Derw.Text.Letter

/-!
# Name/Usage — the names a declaration defines and the names it reads

`Decl.usage` walks through a declaration and lists, in the order of the source, the names defined
inside it (parameters, `let` declarations and what patterns bind) and the names it reads. A value
reads the first name of its path (`valueName`), a format reads the names inside its interpolations.
Behind a module path the callee is the module's, so only its arguments are read here.
-/

namespace Derw.Name

/-- The words that are numbers although they start like names. -/
def numberWords : List String := ["inf", "infinity", "nan"]

def isNumberWord (cs : List Char) : Bool :=
  numberWords.contains (String.ofList (cs.map Char.toLower))

/-- The characters a name may start with. -/
def startsName (c : Char) : Bool := Text.isLetter c || c == '_' || c == '$'

/-- The name a value reads: the first part of a path; a literal reads none. -/
def valueName (body : String) : Option String :=
  let cs := Text.trimmed body.toList
  if cs == "true".toList || cs == "false".toList || isNumberWord cs then none
  else match cs with
    | [] => none
    | c :: _ =>
      if startsName c then
        let head := cs.takeWhile (· != '.')
        if head.isEmpty then none else some (String.ofList head)
      else none

/-- The texts between `${` and `}`; `inside` is what has been read of the current one, latest
first. -/
def interpolations (inside : Option (List Char)) : List Char → List (List Char)
  | [] => []
  | c :: cs =>
    match inside with
    | some acc =>
      if c == '\x7d' then acc.reverse :: interpolations none cs
      else interpolations (some (c :: acc)) cs
    | none =>
      if c == '$' then
        match cs with
        | d :: ds =>
          if d == '\x7b' then interpolations (some []) ds else interpolations none (d :: ds)
        | [] => []
      else interpolations none cs

/-- The characters that do not belong to a name or a path inside an interpolation. -/
def separatesNames (c : Char) : Bool :=
  !(Text.isLetter c || Text.isDigit c || c == '_' || c == '.' || c == '$')

/-- The names that a format text reads. -/
def interpolatedNames (body : String) : List String :=
  (interpolations none body.toList).flatMap fun inner =>
    (Text.wordsWhere separatesNames inner).filterMap fun w => valueName (String.ofList w)

/-- The names bound by a destructuring text `{ a, b: c }`: `a` and `c`. -/
def destructuredNames (fields : String) : List String :=
  let inner := Text.withoutTail ['\x7d'] (Text.withoutHead ['\x7b'] (Text.trimmed fields.toList))
  (Text.splitWhere (· == ',') inner).filterMap fun field =>
    let bound := match Text.cutAt [':'] field with
      | some (_, renamed) => renamed
      | none => field
    let name := Text.trimmed bound
    if name.isEmpty then none else some (String.ofList name)

/-- The names a pattern binds. -/
def patternNames : Pattern → List String
  | .shape (.tag _ fields) => destructuredNames fields
  | .list parts =>
    parts.flatMap fun
      | .binder name => [name]
      | .shape (.tag _ fields) => destructuredNames fields
      | .shape _ => []
  | .shape _ | .anything => []

/-- The name of the parameter at `position`. -/
def paramName (position : Nat) (p : Param) : String := p.name.getD ("_" ++ toString position)

def paramNames (params : List Param) : List String := params.mapIdx paramName

/-- Names defined and names read, each in the order of the source. -/
structure Usage where
  defined : List String := []
  read : List String := []
  deriving DecidableEq, Repr

namespace Usage

def append (u v : Usage) : Usage := ⟨u.defined ++ v.defined, u.read ++ v.read⟩

instance : Append Usage := ⟨append⟩

def defines (names : List String) : Usage := ⟨names, []⟩

/-- The name is read, unless it is empty. -/
def reads (name : String) : Usage := ⟨[], if name.isEmpty then [] else [name]⟩

def readsAll (names : List String) : Usage := ⟨[], names⟩

end Usage

end Derw.Name

namespace Derw

open Name (Usage)

mutual

/-- The usage of an expression. Behind a module path (`foreign`) the callee belongs to the
module. -/
def Expr.usage (foreign : Bool) : Expr → Usage
  | .absent => {}
  | .value body => if foreign then {} else .readsAll (Name.valueName body).toList
  | .text _ => {}
  | .format body => .readsAll (Name.interpolatedNames body)
  | .list items => usageOfExprs items
  | .range start stop => start.usage false ++ stop.usage false
  | .object base fields => base.usage false ++ usageOfFields fields
  | .construct _ => {}
  | .constructWith _ base fields => base.usage false ++ usageOfFields fields
  | .ifElse condition yesLets yes noLets no =>
    condition.usage false ++ usageOfLets yesLets ++ yes.usage false ++ usageOfLets noLets
      ++ no.usage false
  | .caseOf subject branches => subject.usage false ++ usageOfBranches branches
  | .binary _ left right => left.usage false ++ right.usage false
  | .unary _ operand => operand.usage false
  | .leftPipe left right => left.usage false ++ right.usage false
  | .rightPipe left right => left.usage false ++ right.usage false
  | .qualified path value => .reads (Text.join "." path) ++ value.usage true
  | .call name args =>
    (if foreign then {} else .readsAll (Name.valueName name).toList) ++ usageOfExprs args
  | .lambda _ body => body.usage false
  | .lambdaCall _ body args => body.usage false ++ usageOfExprs args

def usageOfExprs : List Expr → Usage
  | [] => {}
  | e :: es => e.usage false ++ usageOfExprs es

def usageOfFields : List Field → Usage
  | [] => {}
  | .mk _ value :: fs => value.usage false ++ usageOfFields fs

def usageOfBranches : List Branch → Usage
  | [] => {}
  | .mk pattern lets body :: bs =>
    .defines (Name.patternNames pattern) ++ usageOfLets lets ++ body.usage false
      ++ usageOfBranches bs

/-- The usage of a declaration; `bound` tells whether it stands in a `let`, where it defines its own
name. -/
def Decl.usage (bound : Bool) : Decl → Usage
  | .function name params _ lets body =>
    .defines (if bound then [name] else []) ++ .defines (Name.paramNames params)
      ++ usageOfLets lets ++ body.usage false
  | .const name _ lets value =>
    .defines (if bound then [name] else []) ++ usageOfLets lets ++ value.usage false
  | .imports _ | .exports _ | .union .. | .typeAlias .. | .comment _ | .multilineComment _ => {}

def usageOfLets : List Decl → Usage
  | [] => {}
  | d :: ds => d.usage true ++ usageOfLets ds

end

end Derw
