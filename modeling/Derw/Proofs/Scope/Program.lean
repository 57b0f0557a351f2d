import Derw.Proofs.Match.Nesting
import Derw.Proofs.Program.Reads
import Derw.Proofs.Scope.Basic

/-!
# Proofs/Scope/Program — the blocks of a program and the names in them

The scope of each form of the program, as it is written: which blocks it opens, what it declares in
them, and which names it mentions. A function and an arrow open a block for their parameters and
body; a loop opens one for its counter; an `if`, an arm, and the `switch` around the arms open one
each. Names in the initial value of a declaration are mentioned before it declares. A function is
declared where it stands; that the target lets it be called before is of no matter here.

A case holds its subject in one statement and looks at it in those that follow in the same block.
So the statement that held a subject last is the one that a `switch` or a branch is meant for. The
names of a match (elements, counters) are meant for the match they stand in.

Which names a destructuring text declares is the target's affair: it is the parameter `fields`.
-/

namespace Derw.Script

open Name (leadingName templateNames)

/-! ## Matches -/

/-- Variables of the match at `site`. -/
def ownMentions (site : Site) (vs : List Var) : List Mention := vs.map fun v => (v.text, some site)

/-- Names of the module. -/
def readMentions (names : List String) : List Mention := names.map (·, none)

/-- Whether the subject is mentioned where a value is looked at. -/
def Place.isSubject : Place → Bool
  | .subject => true
  | .name _ => false

/-- Whether a condition looks at the subject: at its length, or at the value itself. -/
def Cond.looksAtSubject : Cond → Bool
  | .lengthAtLeast _ | .lengthOver _ | .lengthIs _ => true
  | .passes place _ => place.isSubject

/-- Whether a binding takes something from the subject. -/
def Bind.looksAtSubject : Bind → Bool
  | .fields _ source => source.isSubject
  | .element .. | .slice .. | .elements .. => true

/-- What a condition mentions, in its order. -/
def Cond.mentions (subject : Mention) (site : Site) (c : Cond) : List Mention :=
  (if c.looksAtSubject then [subject] else []) ++ ownMentions site c.reads
    ++ readMentions c.formatNames

/-- What a binding mentions. -/
def Bind.mentions (subject : Mention) (site : Site) (b : Bind) : List Mention :=
  (if b.looksAtSubject then [subject] else []) ++ ownMentions site b.reads

/-- What a guard mentions. A hit looks at one element of the subject after the other. -/
def Guard.mentions (subject : Mention) (site : Site) : Guard → List Mention
  | .cond c => c.mentions subject site
  | .hit id test => subject :: ownMentions site [.loop id] ++ readMentions test.formatNames
  | .isFound id => ownMentions site [.found id]

variable (fields : String → List String)

/-- Declarations, one after the other. -/
def bindsScope (subject : Mention) (site : Site) (binds : List Bind) (rest : Scope) : Scope :=
  binds.foldr
    (fun b s => .mentionAll (b.mentions subject site) (.declareAll site (b.names fields) s)) rest

/-- The scope of a match at `site`, with the body in its place. -/
def Code.scopes (subject : Mention) (site : Site) (body : Scope) : Code → Scope
  | .done => .done
  | .hole rest => body ++ rest.scopes subject site body
  | .const b rest => bindsScope fields subject site [b] (rest.scopes subject site body)
  | .letFound id rest => .declare (foundName id) site (rest.scopes subject site body)
  | .setFound id rest =>
    .mentionAll (ownMentions site [.found id, .loop id]) (rest.scopes subject site body)
  | .exit rest => rest.scopes subject site body
  | .when guards inner rest =>
    .mentionAll (guards.flatMap (Guard.mentions subject site))
      (.block (inner.scopes subject site body) (rest.scopes subject site body))
  | .each id start inner rest =>
    .block
      (.mentionAll (ownMentions site start.reads) <|
        .declare (loopName id) site <|
        .mentionAll (ownMentions site [.loop id] ++ subject :: ownMentions site [.loop id]) <|
        .block (inner.scopes subject site body) .done)
      (rest.scopes subject site body)
  | .block inner rest =>
    .block (inner.scopes subject site body) (rest.scopes subject site body)

/-- The scope of a match is that of its code. -/
def Nest.scopes (subject : Mention) (site : Site) (body : Scope) (n : Nest) : Scope :=
  n.code.scopes fields subject site body

/-! ## Terms and statements -/

/-- The name that a text starts with. Behind a module path (`foreign`) it is not one of the
module. -/
def calleeMentions (foreign : Bool) (text : String) : List Mention :=
  readMentions (if foreign then [] else (leadingName text).toList)

/-- The statement that holds the subject for the statements after this one. -/
def Stmt.holder (held site : Site) : Stmt → Site
  | .hold .. => site
  | _ => held

mutual

/-- The scope of a term: the names in it, with blocks for the functions and the statements inside.
-/
def Term.scopes (foreign : Bool) (site : Site) : Term → Scope
  | .undefined | .text _ => .done
  | .raw text => .mentionAll (calleeMentions foreign text) .done
  | .template body => .mentionAll (readMentions (templateNames body)) .done
  | .list items => scopeOfTerms site items
  | .range start stop =>
    -- The start is written twice, the second time in an arrow, whose parameters are ordinary names.
    stop.scopes false (0 :: site) ++ start.scopes false (1 :: site)
      ++ .block (.declareAll site ["_v", "_i"] <| .mention "_i" none <|
          start.scopes false (2 :: site)) .done
  | .object entries => scopeOfEntries site entries
  | .ternary condition yes no =>
    condition.scopes false (0 :: site) ++ yes.scopes false (1 :: site)
      ++ no.scopes false (2 :: site)
  | .invoked body => .block (scopeOfStmts site site body) .done
  | .binary _ left right => left.scopes false (0 :: site) ++ right.scopes false (1 :: site)
  | .unary _ operand => operand.scopes false (0 :: site)
  | .concat left right => left.scopes false (0 :: site) ++ right.scopes false (1 :: site)
  | .cons head tail => head.scopes false (0 :: site) ++ tail.scopes false (1 :: site)
  | .qualified path value =>
    .mentionAll (calleeMentions false (Text.join "." path)) (value.scopes true (0 :: site))
  | .call name args => .mentionAll (calleeMentions foreign name) (scopeOfTerms site args)
  | .arrow params body => .block (.declareAll site params (body.scopes false (0 :: site))) .done
  | .arrowCall params body args =>
    .block (.declareAll site params (body.scopes false (0 :: site))) (scopeOfTerms (1 :: site) args)
  | .group inner => inner.scopes false (0 :: site)

def scopeOfTerms (site : Site) : List Term → Scope
  | [] => .done
  | t :: ts => t.scopes false (0 :: site) ++ scopeOfTerms (1 :: site) ts

def scopeOfEntries (site : Site) : List Entry → Scope
  | [] => .done
  | .spread value :: es | .field _ value :: es =>
    value.scopes false (0 :: site) ++ scopeOfEntries (1 :: site) es

/-- The scope of a statement in a block where the statement at `held` has held a subject last. -/
def Stmt.scopes (held site : Site) : Stmt → Scope
  | .return value => value.scopes false (0 :: site)
  | .const name _ value | .hold name value =>
    value.scopes false (0 :: site) ++ .declare name site .done
  | .function name params _ body =>
    .declare name site <|
      .block (.declareAll site (params.map (·.name)) (scopeOfStmts site (0 :: site) body)) .done
  | .ifElse condition yes no =>
    condition.scopes false (0 :: site) ++
      .block (scopeOfStmts site (1 :: site) yes) (.block (scopeOfStmts site (2 :: site) no) .done)
  | .switch subject arms =>
    .mention subject (some held) (.block (scopeOfArms (subject, some held) (0 :: site) arms) .done)
  | .branch subject nest body =>
    nest.scopes fields (subject, some held) site (scopeOfStmts site (0 :: site) body)

def scopeOfArms (subject : Mention) (site : Site) : List Arm → Scope
  | [] => .done
  | .mk _ binds body :: as =>
    .block (bindsScope fields subject (0 :: site) binds (scopeOfStmts site (0 :: site) body))
      (scopeOfArms subject (1 :: site) as)

/-- Statements share a block; the statements behind a holder know the subject from there. -/
def scopeOfStmts (held site : Site) : List Stmt → Scope
  | [] => .done
  | t :: ts => t.scopes held (0 :: site) ++ scopeOfStmts (t.holder held (0 :: site)) (1 :: site) ts

end

end Derw.Script
