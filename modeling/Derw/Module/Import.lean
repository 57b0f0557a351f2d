import Derw.Text.Path

/-!
# Module/Import — imported modules and the names they bind
-/

namespace Derw

/-- Where an imported module is looked for. -/
inductive Namespace
  | relative
  | global
  deriving DecidableEq, Repr

/-- One module of an import declaration. A name after `as` that is not given is empty. -/
structure Import where
  name : String
  asName : String := ""
  exposing : List String := []
  space : Namespace := .relative
  deriving DecidableEq, Repr

namespace Import

/-- The module's name without the quotes it may be written in. -/
def source (m : Import) : String := String.ofList (Text.strip (· == '"') m.name.toList)

/-- The name the import brings into scope: the name after `as`, else the name of a global module,
else the last component of the path without the path's extension. -/
def bindingName (m : Import) : String :=
  if m.asName ≠ "" then m.asName
  else match m.space with
    | .global => m.source
    | .relative =>
      String.ofList (Text.withoutTail (Text.Path.extensionOf m.source.toList)
        (Text.Path.baseOf m.source.toList))

/-- Whether the module is bound as a whole, which it is unless it only exposes names. -/
def bindsModule (m : Import) : Bool := m.asName != "" || m.exposing.isEmpty

end Import

end Derw
