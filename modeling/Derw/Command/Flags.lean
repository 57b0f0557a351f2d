import Derw.Text.Quoted

/-!
# Command/Flags — options on the command line

Options come before everything else, with one dash or two, and end at the first word that is none or
behind `--`. A switch may be given a truth value behind `=`; a setting takes its value from behind
`=` or from the next word.
-/

namespace Derw.Command

inductive FlagKind
  | switch
  | setting
  deriving DecidableEq, Repr

/-- Why a command line is not understood. -/
inductive FlagError
  | badFormat (word : String)
  | undefined (name : String)
  | needsValue (name : String)
  | notBool (value name : String)
  deriving DecidableEq, Repr

def FlagError.message : FlagError → String
  | badFormat word => "bad flag syntax: " ++ word
  | undefined name => "flag provided but not defined: -" ++ name
  | needsValue name => "flag needs an argument: -" ++ name
  | notBool value name =>
    "invalid boolean value " ++ Text.quoted value ++ " for -" ++ name ++ ": parse error"

/-- The options that were given, in order, and the words behind them. -/
structure Flags where
  given : List (String × String) := []
  rest : List String := []
  deriving DecidableEq, Repr

def trueWords : List String := ["1", "t", "T", "true", "TRUE", "True"]

def falseWords : List String := ["0", "f", "F", "false", "FALSE", "False"]

/-- A word that starts with a dash, as a name and the value behind its `=`. -/
def cutFlag (cs : List Char) : Option (String × Option String) :=
  match cs with
  | [] => none
  | c :: _ =>
    if c == '-' || c == '=' then none
    else
      let name := cs.takeWhile (· != '=')
      let value := match cs.drop name.length with
        | [] => none
        | _ :: v => some (String.ofList v)
      some (String.ofList name, value)

/-- The words behind the dashes, if there are any. -/
def withoutDashes : List Char → Option (List Char)
  | '-' :: '-' :: cs => some cs
  | '-' :: c :: cs => some (c :: cs)
  | _ => none

/-- Reads the options at the start of the words. -/
def readFlags (defined : List (String × FlagKind)) (given : List (String × String)) :
    List String → Except FlagError Flags
  | [] => .ok { given }
  | word :: words =>
    match withoutDashes word.toList with
    | none => .ok { given, rest := word :: words }
    | some cs =>
      if word == "--" then .ok { given, rest := words }
      else match cutFlag cs with
        | none => .error (.badFormat word)
        | some (name, value) =>
          match defined.lookup name, value with
          | none, _ => .error (.undefined name)
          | some .switch, none => readFlags defined (given ++ [(name, "true")]) words
          | some .switch, some v =>
            if trueWords.contains v then readFlags defined (given ++ [(name, "true")]) words
            else if falseWords.contains v then readFlags defined (given ++ [(name, "false")]) words
            else .error (.notBool v name)
          | some .setting, some v => readFlags defined (given ++ [(name, v)]) words
          | some .setting, none =>
            match words with
            | v :: more => readFlags defined (given ++ [(name, v)]) more
            | [] => .error (.needsValue name)

namespace Flags

/-- The value given last. -/
def value? (f : Flags) (name : String) : Option String := f.given.reverse.lookup name

def setting (f : Flags) (name : String) : String := (f.value? name).getD ""

/-- Whether a switch is on, under one of its names. -/
def isOn (f : Flags) (names : List String) : Bool := names.any fun n => f.value? n == some "true"

end Flags

end Derw.Command
