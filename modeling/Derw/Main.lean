import Derw.Command.Basic

/-!
# Main — the command-line program

Runs the command line on the file system and prints what it says.
-/

namespace Derw.Command

/-- The reason behind a failed file operation. -/
def reasonOf : IO.Error → FileReason
  | .noFileOrDirectory .. => .missing
  | .inappropriateType .. => .notFolder
  | e => .other (toString e)

/-- A file operation, with its failure told as `operation` on `path`. -/
def attempt {α : Type} (operation path : String) (action : IO α) : IO (Except FileError α) := do
  try return .ok (← action)
  catch e => return .error ⟨operation, path, reasonOf e⟩

def isFolderOnDisk (path : String) : IO Bool := do
  try (← IO.FS.realPath path).isDir catch _ => return false

/-- The file system as a disk. -/
def hostDisk : Disk IO where
  -- Here files are worked on one after the other.
  processors := return ⟨1, by decide⟩
  workingFolder := return (← IO.currentDir).toString
  contains path := do return (← (← IO.FS.realPath path).pathExists)
  read path := do
    if ← isFolderOnDisk path then return .error ⟨"read", path, .isFolder⟩
    attempt "open" path (IO.FS.readFile path)
  makeFolders path := attempt "mkdir" path (IO.FS.createDirAll path)
  write path content := do
    if ← isFolderOnDisk path then return .error ⟨"open", path, .isFolder⟩
    attempt "open" path (IO.FS.writeFile path content)

end Derw.Command

def main (args : List String) : IO UInt32 := do
  let outcome ← Derw.Command.run Derw.Command.hostDisk args
  IO.print outcome.out
  IO.eprint outcome.err
  return UInt32.ofNat outcome.status
