import Derw.Diagnostic
import Derw.File.Disk
import Derw.Glob.Compile
import Derw.Text.Blank
import Derw.Text.Casing
import Derw.Text.Quoted

/-!
# Config/Basic — the configuration of a project

A configuration file may leave any setting out; `withDefaults` fills in what is left out, and
`validate` finds the first setting that cannot be used.
-/

namespace Derw

structure Config where
  /-- The language to compile to. -/
  target : String := ""
  /-- Patterns of names that are known without a declaration. -/
  knownGlobals : List String := []
  /-- The greatest distance of a suggested name. -/
  suggestionDistance : Int := 0
  /-- Whether names declared twice are reported. -/
  reportCollisions : Option Bool := none
  /-- How many files are worked on at once. -/
  workers : Int := 0
  deriving DecidableEq, Repr

/-- Why a configuration cannot be used. -/
inductive ConfigFault
  | unreadable (e : FileError)
  | malformed
  | unknownTarget (target : String)
  | negativeDistance
  | negativeWorkers
  | emptyPattern (index : Nat)
  | badPattern (index : Nat)
  deriving DecidableEq, Repr

/-- What is said about a target that does not exist. -/
def unknownTargetMessage (target : String) : String :=
  "unknown target " ++ Text.quoted target ++ " (want \"ts\" or \"js\")"

/-- What is said about the configuration file at `path`. -/
def ConfigFault.message (path : String) : ConfigFault → String
  | unreadable e => "reading config " ++ path ++ ": " ++ e.message
  | malformed => "parsing " ++ path ++ ": " ++ Diagnostic.unexplained
  | unknownTarget target => path ++ ": " ++ unknownTargetMessage target
  | negativeDistance => path ++ ": suggestion_distance must not be negative"
  | negativeWorkers => path ++ ": workers must not be negative"
  | emptyPattern i => path ++ ": known_globals[" ++ toString i ++ "]: empty pattern"
  | badPattern i => path ++ ": known_globals[" ++ toString i ++ "]: " ++ Diagnostic.unexplained

namespace Config

def targets : List String := ["ts", "js"]

def defaultDistance : Int := 3

/-- Whether names declared twice are reported, which they are unless that is switched off. -/
def reportsCollisions (c : Config) : Bool := c.reportCollisions.getD true

/-- Fills in what is left out. A machine has a worker for each of its processors. -/
def withDefaults (processors : Processors) (c : Config) : Config :=
  let target := Text.toLower (Text.trim c.target)
  { c with
    target := if target.isEmpty then "ts" else target
    suggestionDistance := if c.suggestionDistance = 0 then defaultDistance else c.suggestionDistance
    workers := if c.workers = 0 then processors.val else c.workers }

/-- The configuration of a project without a configuration file. -/
def default (processors : Processors := .usual) : Config := withDefaults processors {}

/-- The first pattern that cannot be used, counting from `index`. -/
def patternFault? (index : Nat) : List String → Option ConfigFault
  | [] => none
  | p :: ps =>
    if Text.isBlankLine p then some (.emptyPattern index)
    else if (Glob.compile? p).isNone then some (.badPattern index)
    else patternFault? (index + 1) ps

def validate (c : Config) : Except ConfigFault Config :=
  if !targets.contains c.target then .error (.unknownTarget c.target)
  else if c.suggestionDistance < 0 then .error .negativeDistance
  else if c.workers < 0 then .error .negativeWorkers
  else match patternFault? 0 c.knownGlobals with
    | some fault => .error fault
    | none => .ok c

end Config

end Derw
