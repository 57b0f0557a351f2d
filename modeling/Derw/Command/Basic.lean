import Derw.Block.Document
import Derw.Command.Flags
import Derw.Config.Find
import Derw.Job.Basic

/-!
# Command/Basic — the commands

`blocks` splits source files and prints their blocks, `check` reports what is wrong with module
documents, and `compile` also prints the programs of the modules with which nothing is wrong, or
writes them into a folder. A command reads everything first, then works on each file by itself, and
then acts (`actions`).
-/

namespace Derw.Command

def version : String := "0.1.0"

def programName : String := "derwc"

inductive Task
  | blocks
  | check
  /-- An empty target is the configured one, an empty folder is none. -/
  | compile (target folder : String)
  deriving DecidableEq, Repr

def Task.name : Task → String
  | blocks => "blocks"
  | check => "check"
  | compile .. => "compile"

structure Invocation where
  task : Task
  /-- The configuration file, empty if it is to be searched for. -/
  config : String
  files : List String
  deriving DecidableEq, Repr

/-- What a command line asks for. -/
inductive Request
  | showVersion
  | help
  | run (i : Invocation)
  | unknownTask (name : String)
  | notUnderstood (e : FlagError)
  deriving DecidableEq, Repr

/-! ## Command lines -/

def globalFlags : List (String × FlagKind) :=
  [("config", .setting), ("verbose", .switch), ("version", .switch), ("v", .switch),
    ("help", .switch), ("h", .switch)]

def helpFlags : List (String × FlagKind) := [("help", .switch), ("h", .switch)]

def compileFlags : List (String × FlagKind) :=
  [("target", .setting), ("out", .setting)] ++ helpFlags

/-- The task of a name, with its options and files. -/
def readTask (config name : String) (words : List String) : Request :=
  let read (defined : List (String × FlagKind)) (task : Flags → Task) : Request :=
    match readFlags defined [] words with
    | .error e => .notUnderstood e
    | .ok f => if f.isOn ["help", "h"] then .help else .run ⟨task f, config, f.rest⟩
  match name with
  | "blocks" => read helpFlags fun _ => .blocks
  | "check" => read helpFlags fun _ => .check
  | "compile" => read compileFlags fun f => .compile (f.setting "target") (f.setting "out")
  | _ => if name == "help" || name == "h" then .help else .unknownTask name

def readRequest (words : List String) : Request :=
  match readFlags globalFlags [] words with
  | .error e => .notUnderstood e
  | .ok f =>
    if f.isOn ["help", "h"] then .help
    else if f.isOn ["version", "v"] then .showVersion
    else match f.rest with
      | [] => .help
      | name :: words => readTask (f.setting "config") name words

/-! ## Work -/

/-- The stages a task runs. -/
def stagesOf : Task → List Stage
  | .blocks => [.classify, .parse none]
  | .check => [.decode, .collisions, .names]
  | .compile target _ => [.decode, .collisions, .names, .compile target]

/-- The job of one file. -/
def jobOf (task : Task) (config : Config) (file : String × String) : Job :=
  Job.run { file := file.1, source := file.2, config } (stagesOf task)

/-- The lines that report what is wrong with a file. -/
def reportLines (j : Job) : List String :=
  let messages := (j.module.map (·.errors)).getD []
  (j.errors.map (·.text) ++ messages.map fun text => j.file ++ ": " ++ text).map ("error: " ++ ·)

inductive Action
  | print (text : String)
  | write (path content : String)
  deriving DecidableEq, Repr

/-- The program of a module with which nothing is wrong. -/
def program? (j : Job) : Option (Module × String) :=
  if j.hasFindings then none else j.module.map (·, j.output)

/-- What is done once all files have been worked on; `target` is the extension of what is
written. -/
def actions (task : Task) (target : String) (jobs : List Job) : List Action :=
  match task with
  | .check => []
  | .blocks =>
    jobs.map fun j =>
      .print ((if 1 < jobs.length then "# " ++ j.file ++ "\n" else "") ++ blocksDocument j.blocks)
  | .compile _ folder =>
    (jobs.filterMap program?).map fun (m, output) =>
      if folder.isEmpty then .print output
      else .write (Text.Path.join folder (m.name ++ "." ++ target)) output

/-! ## Running -/

/-- What a command has said, and its exit status. -/
structure Outcome where
  out : String := ""
  err : String := ""
  status : Nat := 0
  deriving DecidableEq, Repr

/-- A failure that ends the command. -/
def Outcome.failed (o : Outcome) (message : String) (status : Nat := 1) : Outcome :=
  { o with err := o.err ++ message ++ "\n", status }

variable {m : Type → Type} [Monad m]

/-- The configuration in the file at a path, or the default if there is no path. -/
def configAt (disk : Disk m) : Option String → m (Except String Config)
  | none => return .ok (.default (← disk.processors))
  | some p => do
    match ← Config.load disk p with
    | .ok c => return .ok c
    | .error fault =>
      let d : Diagnostic :=
        { code := Diagnostic.configCode, message := "loading config",
          cause := some (fault.message p) }
      return .error d.text

/-- The configuration that a command line names, or the nearest one, or the default. -/
def loadConfig (disk : Disk m) (path : String) : m (Except String Config) :=
  if path.isEmpty then do configAt disk (← Config.find disk ".") else configAt disk (some path)

/-- The sources of the files, or why the first that cannot be read cannot. -/
def readSources (disk : Disk m) : List String → m (Except String (List (String × String)))
  | [] => return .ok []
  | file :: files => do
    match ← disk.read file with
    | .error e => return .error ("reading " ++ file ++ ": " ++ e.message)
    | .ok source =>
      match ← readSources disk files with
      | .error text => return .error text
      | .ok rest => return .ok ((file, source) :: rest)

/-- Writes a file and makes the folders on the way to it. -/
def writeOutput (disk : Disk m) (path content : String) : m (Except String Unit) := do
  match ← disk.makeFolders (Text.Path.parent path) with
  | .error e => return .error ("creating output directory: " ++ e.message)
  | .ok _ =>
    match ← disk.write path content with
    | .error e => return .error ("writing " ++ path ++ ": " ++ e.message)
    | .ok _ => return .ok ()

/-- Acts, up to the first action that fails. -/
def perform (disk : Disk m) (o : Outcome) : List Action → m Outcome
  | [] => return o
  | .print text :: rest => perform disk { o with out := o.out ++ text } rest
  | .write path content :: rest => do
    match ← writeOutput disk path content with
    | .error text => return o.failed text
    | .ok _ => perform disk o rest

/-- Tells what is wrong with the files, unless the command has failed. -/
def reported (jobs : List Job) (o : Outcome) : Outcome :=
  if o.status != 0 then o
  else
    let lines := jobs.flatMap reportLines
    { o with
      err := o.err ++ String.join (lines.map (· ++ "\n"))
      status := if lines.isEmpty then 0 else 1 }

/-- The task with the configured target, if it names none; fails if there is no such target. -/
def settleTarget (config : Config) : Task → Except String Task
  | .compile target folder =>
    if target.isEmpty then .ok (.compile config.target folder)
    else if Config.targets.contains target then .ok (.compile target folder)
    else .error (unknownTargetMessage target)
  | task => .ok task

/-- The target of a settled task. -/
def targetOf : Task → String
  | .compile target _ => target
  | _ => ""

def runInvocation (disk : Disk m) (i : Invocation) : m Outcome := do
  let o : Outcome := {}
  if i.files.isEmpty then return o.failed (i.task.name ++ ": no input files")
  match ← loadConfig disk i.config with
  | .error text => return o.failed text
  | .ok config =>
    match settleTarget config i.task with
    | .error text => return o.failed text
    | .ok task =>
      match ← readSources disk i.files with
      | .error text => return o.failed text
      | .ok sources =>
        let jobs := sources.map (jobOf task config)
        return reported jobs (← perform disk o (actions task (targetOf task) jobs))

/-- Runs a command line. -/
def run (disk : Disk m) (words : List String) : m Outcome :=
  let o : Outcome := {}
  match readRequest words with
  | .showVersion => return { o with out := programName ++ " version " ++ version ++ "\n" }
  | .help => return o
  | .run i => runInvocation disk i
  | .unknownTask name => return o.failed ("No help topic for '" ++ name ++ "'") 3
  | .notUnderstood e => return o.failed e.message

end Derw.Command
