import Derw.Config.Basic
import Derw.Text.Path
import Derw.Toml.Document
import Derw.Yaml.Typed

/-!
# Config/Document — reading a configuration

The extension of a configuration file tells its format. In both formats the settings have the same
names and types, and what is not a setting is ignored. In TOML the case of a name does not matter.
-/

namespace Derw.Config

/-! ## YAML -/

open Yaml (Node) in
/-- Reads a configuration in YAML; `none` if it is malformed. -/
def ofYaml? (text : String) : Option Config := do
  match ← Yaml.readDocument text with
  | none => return {}
  | some root =>
    let fields := (← root.fields?).getD []
    let target ← Node.field? Node.text? "target" fields
    let knownGlobals ← Node.field? (Node.list? Node.text?) "known_globals" fields
    let suggestionDistance ← Node.field? Node.int? "suggestion_distance" fields
    let reportCollisions ← Node.field? Node.bool? "report_collisions" fields
    let workers ← Node.field? Node.int? "workers" fields
    return {
      target := target.getD ""
      knownGlobals := knownGlobals.getD []
      suggestionDistance := suggestionDistance.getD 0
      reportCollisions
      workers := workers.getD 0 }

/-! ## TOML -/

open Toml (Item Table)

def itemText? : Item → Option String
  | .value (.text s) => some s
  | _ => none

def itemInt? : Item → Option Int
  | .value (.int n) => some n
  | _ => none

def itemBool? : Item → Option Bool
  | .value (.bool b) => some b
  | _ => none

def itemTexts? : Item → Option (List String)
  | .value (.array items) => items.mapM fun v => itemText? (.value v)
  | _ => none

/-- The setting of that name: as it is spelled, or else in any case. -/
def setting? {α : Type} (read : Item → Option α) (name : String) (t : Table) : Option (Option α) :=
  match (t.lookup name).orElse fun _ => (t.find? fun e => Text.eqFold name e.1).map (·.2) with
  | some item => (read item).map some
  | none => some none

/-- Reads a configuration in TOML; `none` if it is malformed. -/
def ofToml? (text : String) : Option Config := do
  let t ← Toml.readDocument text
  let target ← setting? itemText? "target" t
  let knownGlobals ← setting? itemTexts? "known_globals" t
  let suggestionDistance ← setting? itemInt? "suggestion_distance" t
  let reportCollisions ← setting? itemBool? "report_collisions" t
  let workers ← setting? itemInt? "workers" t
  return {
    target := target.getD ""
    knownGlobals := knownGlobals.getD []
    suggestionDistance := suggestionDistance.getD 0
    reportCollisions
    workers := workers.getD 0 }

/-- Reads the configuration in a file at `path`. -/
def parse (text path : String) (processors : Processors := .usual) : Except ConfigFault Config :=
  let read := if Text.eqFold (Text.Path.extension path) ".toml" then ofToml? text else ofYaml? text
  match read with
  | none => .error .malformed
  | some c => (c.withDefaults processors).validate

end Derw.Config
