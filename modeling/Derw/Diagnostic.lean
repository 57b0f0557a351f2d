import Derw.Module.Document

/-!
# Diagnostic — what is reported about a file

A diagnostic has a code, a message, and as much of a place as is known. It may have a cause, which
is told after the message.
-/

namespace Derw

/-- A line counts from one; what is not positive is no line. An empty file is no file. -/
structure Diagnostic where
  code : String
  message : String
  file : String := ""
  line : Int := 0
  cause : Option String := none
  deriving DecidableEq, Repr

namespace Diagnostic

/-! ## Codes -/

/-- A document that is no module. -/
def documentCode : String := "D001"

/-- A block that could not be parsed. -/
def blockCode : String := "D002"

/-- A configuration that cannot be used. -/
def configCode : String := "D005"

/-- Stands for a cause that is known to exist, but of which no more is told. -/
def unexplained : String := "<cause>"

/-! ## Text -/

def place (d : Diagnostic) : String :=
  if d.file.isEmpty then if 0 < d.line then "line " ++ toString d.line ++ ": " else ""
  else if 0 < d.line then d.file ++ ":" ++ toString d.line ++ ": "
  else d.file ++ ": "

def text (d : Diagnostic) : String :=
  d.place ++ "[" ++ d.code ++ "] " ++ d.message
    ++ match d.cause with
      | some c => ": " ++ c
      | none => ""

/-- The diagnostic, found in that file. -/
def inFile (d : Diagnostic) (file : String) : Diagnostic := { d with file }

def hasCode (d : Diagnostic) (code : String) : Bool := d.code == code

end Diagnostic

/-- The diagnostic of a text that is no module document. -/
def Fault.diagnostic (f : Fault) : Diagnostic :=
  { code := Diagnostic.documentCode
    message := f.message
    line := f.line
    cause := if f.hasCause then some Diagnostic.unexplained else none }

end Derw
