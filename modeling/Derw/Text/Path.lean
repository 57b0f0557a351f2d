import Derw.Text.Cut

/-!
# Text/Path — slash-separated paths

Paths are texts, read lexically: nothing here looks at a file system. `extension` is the last dot of
the last component and what follows it, `stem` what stands before it, `clean` the shortest path that
means the same, and `parent` the cleaned path of the directory that holds it. `/` is its own parent,
and so is `.`.
-/

namespace Derw.Text.Path

/-- The components between slashes, empty ones included. -/
def components (p : List Char) : List (List Char) := splitWhere (· == '/') p

/-- The last component, trailing slashes aside. -/
def baseOf (p : List Char) : List Char :=
  if p.isEmpty then ['.']
  else match (p.reverse.dropWhile (· == '/')) with
    | [] => ['/']
    | r => (r.takeWhile (· != '/')).reverse

/-- From the last dot of what follows the last slash. -/
def extensionOf (p : List Char) : List Char :=
  let last := (p.reverse.takeWhile (· != '/')).reverse
  match last.reverse.dropWhile (· != '.') with
  | [] => []
  | _ :: r => last.drop r.length

def extension (p : String) : String := String.ofList (extensionOf p.toList)

/-- The base name without its extension: the module a file holds. -/
def stem (p : String) : String :=
  let b := baseOf p.toList
  String.ofList (withoutTail (extensionOf b) b)

/-- One more component on a cleaned path, given last component first. -/
def push (rooted : Bool) (done : List (List Char)) (c : List Char) : List (List Char) :=
  if c == [] || c == ['.'] then done
  else if c == ['.', '.'] then
    match done with
    | [] => if rooted then [] else [c]
    | d :: ds => if d == ['.', '.'] then c :: done else ds
  else c :: done

/-- The components of the cleaned path, last first. -/
def cleanParts (rooted : Bool) (p : List Char) : List (List Char) :=
  (components p).foldl (push rooted) []

def joinParts (parts : List (List Char)) : List Char :=
  (parts.reverse.intersperse ['/']).flatten

/-- The shortest path with the same meaning. -/
def cleanChars (p : List Char) : List Char :=
  let rooted := p.head? == some '/'
  let parts := cleanParts rooted p
  if rooted then '/' :: joinParts parts
  else if parts.isEmpty then ['.']
  else joinParts parts

def clean (p : String) : String := String.ofList (cleanChars p.toList)

/-- `name` inside `dir`. An empty part adds nothing. -/
def join (dir name : String) : String :=
  if dir.isEmpty then (if name.isEmpty then "" else clean name)
  else clean (dir ++ "/" ++ name)

/-- The directory that holds the path. -/
def parent (p : String) : String :=
  String.ofList (cleanChars (p.toList.reverse.dropWhile (· != '/')).reverse)

/-- The path as seen from the directory `cwd`. -/
def absolute (cwd p : String) : String :=
  if p.toList.head? == some '/' then clean p else join cwd p

end Derw.Text.Path
