import Derw.File.Disk
import Derw.Text.Cut

/-!
# File/Tree — a file system as a value

A tree of files and folders with a working folder. Paths are walked component by component: each
step needs a folder to stand in, and `..` leads to the folder that holds it. `FileTree.disk` lets
commands run on a tree.
-/

namespace Derw

/-- A place in a tree: the names on the way from the root. -/
abbrev Position := List String

structure FileTree where
  /-- The working folder. -/
  home : Position
  files : List (Position × String)
  /-- Folders, besides those on the way to a file or to the working folder. -/
  folders : List Position
  /-- Those of the machine that has the tree. -/
  processors : Processors := .usual

namespace FileTree

def fileAt? (t : FileTree) (p : Position) : Option String := t.files.lookup p

def isFolder (t : FileTree) (p : Position) : Bool :=
  p.isPrefixOf t.home || t.folders.any (p.isPrefixOf ·)
    || t.files.any fun f => p.isPrefixOf f.1 && p != f.1

/-- Why there is nothing beyond a place that is no folder. -/
def obstacle (t : FileTree) (p : Position) : FileReason :=
  if (t.fileAt? p).isSome then .notFolder else .missing

/-- Walks along the components of a path. -/
def walk (t : FileTree) (p : Position) : List String → Except FileReason Position
  | [] => .ok p
  | c :: cs =>
    if !t.isFolder p then .error (t.obstacle p)
    else if c == "" || c == "." then walk t p cs
    else if c == ".." then walk t p.dropLast cs
    else walk t (p ++ [c]) cs

def components (path : String) : List String :=
  (Text.splitWhere (· == '/') path.toList).map String.ofList

/-- The place that a path leads to, where something may be or not. -/
def locate (t : FileTree) (path : String) : Except FileReason Position :=
  if path.isEmpty then .error .missing
  else t.walk (if path.toList.head? == some '/' then [] else t.home) (components path)

def contains (t : FileTree) (path : String) : Bool :=
  match t.locate path with
  | .ok p => t.isFolder p || (t.fileAt? p).isSome
  | .error _ => false

def read (t : FileTree) (path : String) : Except FileError String :=
  match t.locate path with
  | .error reason => .error ⟨"open", path, reason⟩
  | .ok p =>
    match t.fileAt? p with
    | some content => .ok content
    | none =>
      if t.isFolder p then .error ⟨"read", path, .isFolder⟩ else .error ⟨"open", path, .missing⟩

/-- The paths of the folders on the way to a folder, and its own. -/
def leading (path : String) : List String :=
  let cs := components path
  ((List.range cs.length).map fun i => Text.join "/" (cs.take (i + 1))).filter (!·.isEmpty)

/-- Makes one folder, unless it exists. -/
def makeFolder (t : FileTree) (path : String) : Except FileError FileTree :=
  match t.locate path with
  | .error reason => .error ⟨"mkdir", path, reason⟩
  | .ok p =>
    if t.isFolder p then .ok t
    else if (t.fileAt? p).isSome then .error ⟨"mkdir", path, .notFolder⟩
    else .ok { t with folders := t.folders ++ [p] }

def makeFolders (t : FileTree) (path : String) : Except FileError FileTree :=
  (leading path).foldlM makeFolder t

def write (t : FileTree) (path content : String) : Except FileError FileTree :=
  match t.locate path with
  | .error reason => .error ⟨"open", path, reason⟩
  | .ok p =>
    if t.isFolder p then .error ⟨"open", path, .isFolder⟩
    else .ok { t with files := t.files.filter (·.1 != p) ++ [(p, content)] }

/-- Changes the tree, if the change is possible. -/
def change (f : FileTree → Except FileError FileTree) :
    StateM FileTree (Except FileError Unit) := do
  match f (← get) with
  | .ok t => do set t; return .ok ()
  | .error e => return .error e

/-- The tree as a disk. -/
def disk : Disk (StateM FileTree) where
  processors := do return (← get).processors
  workingFolder := do return "/" ++ Text.join "/" (← get).home
  contains path := do return (← get).contains path
  read path := do return (← get).read path
  makeFolders path := change (·.makeFolders path)
  write path content := change (·.write path content)

end FileTree

end Derw
