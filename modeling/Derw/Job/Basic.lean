import Derw.Block.Segment
import Derw.Config.Basic
import Derw.Name.Missing
import Derw.Name.Seen
import Derw.Script.Program

/-!
# Job/Basic — one file on its way through the stages

A job starts with the source of a file. Each `Stage` reads what earlier stages have left and adds
what it finds: blocks, a module, collisions, messages on the module, the compiled program. A stage
that finds nothing to work on leaves the job as it is, so stages can be run in any order and
repeated.
-/

namespace Derw

/-- Makes a module of that name from blocks, or tells why it cannot. -/
abbrev Parser := String → List Block → Except String Module

/-- A file, and what the stages have found in it so far. -/
structure Job where
  file : String
  source : String
  config : Config := .default
  blocks : List Block := []
  module : Option Module := none
  collisions : List Name.Seen := []
  output : String := ""
  /-- What went wrong in the stages; findings about the module are messages on it. -/
  errors : List Diagnostic := []

/-- What can be done with a job. -/
inductive Stage
  /-- Splits the source into blocks. -/
  | classify
  /-- Reports unknown blocks and parses the others, if there is a parser. -/
  | parse (parser : Option Parser)
  /-- Reads the source as a module document. -/
  | decode
  | collisions
  | names
  /-- Compiles the module; no target means the configured one. -/
  | compile (target : String)

namespace Job

/-- The name of the module in the job's file. -/
def moduleName (j : Job) : String := Text.Path.stem j.file

/-- Adds an error found in the job's file. -/
def report (j : Job) (ds : List Diagnostic) : Job :=
  { j with errors := j.errors ++ ds.map (·.inFile j.file) }

/-- Whether any stage has found something wrong. -/
def hasFindings (j : Job) : Bool := !j.errors.isEmpty || j.module.any (!·.errors.isEmpty)

/-- Cuts the source into blocks. -/
def classify (j : Job) : Job :=
  if j.source.isEmpty then j else { j with blocks := blocksOf j.source }

/-! ## Blocks -/

def unknownBlock? (b : Block) : Option Diagnostic :=
  if b.kind = .unknown then
    some
      { code := Diagnostic.blockCode
        line := b.lineStart + 1
        message :=
          "unrecognised block starting with " ++ Text.quoted (Text.trim (b.lines.headD "")) }
  else none

/-- Whether a parser, if there is one, gets to see the blocks. -/
def wantsParser (j : Job) : Bool := j.module.isNone && !j.blocks.isEmpty

/-- Reports the unknown blocks, and makes a module of all of them if it is asked to and there is
none. -/
def parse (parser : Option Parser) (j : Job) : Job :=
  let j := j.report (j.blocks.filterMap unknownBlock?)
  match parser with
  | none => j
  | some p =>
    if j.wantsParser then
      match p j.moduleName j.blocks with
      | .ok m => { j with module := some m }
      | .error text =>
        j.report [{ code := Diagnostic.blockCode, message := "parsing blocks", cause := some text }]
    else j

/-! ## Modules -/

/-- Reads the source as a document, unless there is a module already. -/
def decode (j : Job) : Job :=
  if j.module.isSome || j.source.isEmpty then j
  else match Module.ofDocument j.source with
    | .ok m =>
      { j with module := some (if m.name.isEmpty then { m with name := j.moduleName } else m) }
    | .error fault => j.report [fault.diagnostic]

/-- The messages about collisions that the module does not have yet. -/
def collisionMessages (m : Module) : List String :=
  (Text.distinct ((Name.collisions m.body).map Name.collisionMessage)).filter fun text =>
    !m.errors.contains text

/-- Looks for collisions, which become messages if the configuration wants them. -/
def findCollisions (j : Job) : Job :=
  match j.module with
  | none => j
  | some m =>
    let j := { j with collisions := Name.collisions m.body }
    if j.config.reportsCollisions then
      { j with module := some (m.withErrors (collisionMessages m)) }
    else j

/-- Looks for names that nothing introduces. A bad pattern in the configuration is an error. -/
def checkNames (j : Job) : Job :=
  match j.module with
  | none => j
  | some m =>
    match Name.Checker.ofPatterns j.config.suggestionDistance j.config.knownGlobals with
    | .ok checker => { j with module := some (checker.check m) }
    | .error pattern =>
      j.report
        [{ code := Diagnostic.configCode
           message := "invalid known_globals"
           cause := some (Name.Checker.badPatternMessage pattern Diagnostic.unexplained) }]

/-- Prints the module for a target. -/
def compile (target : String) (j : Job) : Job :=
  match j.module with
  | none => j
  | some m =>
    { j with output := m.compile (.ofName (if target.isEmpty then j.config.target else target)) }

/-! ## Running -/

/-- One stage. -/
def step (j : Job) : Stage → Job
  | .classify => j.classify
  | .parse parser => j.parse parser
  | .decode => j.decode
  | .collisions => j.findCollisions
  | .names => j.checkNames
  | .compile target => j.compile target

/-- The job after the stages. What one stage finds does not stop the next. -/
def run (j : Job) (stages : List Stage) : Job := stages.foldl step j

end Job

end Derw
