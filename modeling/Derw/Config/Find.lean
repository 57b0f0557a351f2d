import Derw.Config.Document

/-!
# Config/Find — where the configuration of a project is

The configuration file that counts is the nearest one, looking from a folder upwards; of several in
one folder, the first in the order of `fileNames`.
-/

namespace Derw.Config

def fileNames : List String := ["derw.yaml", "derw.yml", "derw.toml"]

/-- An absolute path and the paths of the folders above it, nearest first; `fuel` bounds their
number. -/
def ancestors (path : String) : (fuel : Nat) → List String
  | 0 => [path]
  | n + 1 =>
    let above := Text.Path.parent path
    if above == path then [path] else path :: ancestors above n

/-- The paths at which a configuration file may be, for a folder given by its absolute path. -/
def candidates (folder : String) : List String :=
  (ancestors folder folder.length).flatMap fun f => fileNames.map (Text.Path.join f)

/-- The first of several paths at which there is something. -/
def firstContained {m : Type → Type} [Monad m] (disk : Disk m) : List String → m (Option String)
  | [] => return none
  | p :: ps => do if ← disk.contains p then return some p else firstContained disk ps

/-- The configuration file that counts in a folder. -/
def find {m : Type → Type} [Monad m] (disk : Disk m) (folder : String) : m (Option String) := do
  firstContained disk (candidates (Text.Path.absolute (← disk.workingFolder) folder))

/-- Reads a configuration file. -/
def load {m : Type → Type} [Monad m] (disk : Disk m) (path : String) :
    m (Except ConfigFault Config) := do
  match ← disk.read path with
  | .error e => return .error (.unreadable e)
  | .ok text => return parse text path (← disk.processors)

end Derw.Config
