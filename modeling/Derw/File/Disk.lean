/-!
# File/Disk — what commands need of a machine

Commands run in any monad that can look at files and write them (`Disk`). What goes wrong is told
with the operation and the path that it was asked for. Besides its files, a machine has a number of
processors.
-/

namespace Derw

/-- Why a file operation failed. -/
inductive FileReason
  | missing
  | isFolder
  | notFolder
  | other (text : String)
  deriving DecidableEq, Repr

def FileReason.text : FileReason → String
  | missing => "no such file or directory"
  | isFolder => "is a directory"
  | notFolder => "not a directory"
  | other text => text

structure FileError where
  operation : String
  path : String
  reason : FileReason
  deriving DecidableEq, Repr

def FileError.message (e : FileError) : String :=
  e.operation ++ " " ++ e.path ++ ": " ++ e.reason.text

/-- A number of processors. -/
abbrev Processors := { n : Nat // 0 < n }

/-- Those of a machine of which nothing is told. -/
def Processors.usual : Processors := ⟨4, by decide⟩

structure Disk (m : Type → Type) where
  /-- How many processors a command may use. -/
  processors : m Processors
  /-- The absolute path of the folder in which the command runs. -/
  workingFolder : m String
  /-- Whether there is a file or a folder. -/
  contains : String → m Bool
  read : String → m (Except FileError String)
  /-- Makes a folder and all folders on the way to it. -/
  makeFolders : String → m (Except FileError Unit)
  write : (path content : String) → m (Except FileError Unit)

end Derw
