import Derw.Yaml.Value

/-!
# Yaml/Typed — reading values of a given type from a document

Each reader takes a node and gives `none` if the node does not fit, `some none` if it says nothing,
and the value otherwise. Aliases stand for the nodes they name. A mapping is read as a list of
fields (`fields?`): its keys have to be distinct, and the entries of mappings merged by `<<` come
after its own.
-/

namespace Derw.Yaml.Node

/-- The node that an alias stands for. -/
def resolved : Node → Option Node
  | .aliased _ _ target => some target
  | .loop .. => none
  | n => some n

/-- A scalar with its meaning. -/
def scalarOf? (n : Node) : Option (Value × String) := do
  match ← n.resolved with
  | .scalar _ style tag text => (scalarValue style tag text).map (·, text)
  | _ => none

/-- A text. Every scalar that says something has one: the way it is written. -/
def text? (n : Node) : Option (Option String) :=
  n.scalarOf?.map fun (v, text) => if v == .null then none else some text

/-- The whole part of a number, if it fits a signed word. What lies below the range counts as its
least number, and so does its upper end, which is just beyond. -/
def wholePart? : Real → Option Int
  | .notANumber | .infinite false => none
  | .infinite true => some Text.minInt
  | .decimal d =>
    match d.negative, d.truncate with
    | true, none => some Text.minInt
    | true, some n => some (if n ≤ Text.maxInt then -(n : Int) else Text.minInt)
    | false, none => none
    | false, some n =>
      if n ≤ Text.maxInt then some n else if n == Text.maxInt + 1 then some Text.minInt else none

/-- A signed word. -/
def int? (n : Node) : Option (Option Int) := do
  match ← n.scalarOf? with
  | (.null, _) => return none
  | (.int i, _) => if i ≤ Text.maxInt then return some i else none
  | (.real x, _) => return some (← wholePart? x)
  | _ => none

/-- The words for truth values that are texts otherwise. -/
def boolWords : List (String × Bool) :=
  (["y", "Y", "yes", "on"].map (·, true)) ++ ["n", "N", "no", "off"].map (·, false)

def bool? (n : Node) : Option (Option Bool) := do
  match ← n.scalarOf? with
  | (.null, _) => return none
  | (.bool b, _) => return some b
  | (.text, text) => return some (← boolWords.lookup text)
  | _ => none

/-- The items of a sequence, each read by `item`; items that say nothing are left out. -/
def list? {α : Type} (item : Node → Option (Option α)) (n : Node) : Option (Option (List α)) := do
  match ← n.resolved with
  | .sequence _ items => return some ((← items.mapM item).filterMap id)
  | .scalar _ style tag text =>
    if (← scalarValue style tag text) == .null then return none else none
  | _ => none

/-! ## Mappings -/

def isMergeKey : Node → Bool
  | .scalar _ style tag text =>
    text == "<<" && (tag == none || tag == some "") && style == .bare
  | _ => false

/-- Whether two keys are the same: of one kind and written alike. -/
def sameKey (a b : Node) : Bool :=
  let kind : Node → Nat
    | .scalar .. => 0
    | .sequence .. => 1
    | .mapping .. => 2
    | .aliased .. | .loop .. => 3
  kind a == kind b && a.keyText == b.keyText

def distinctKeys : List Entry → Bool
  | [] => true
  | e :: es => !es.any (fun f => sameKey e.key f.key) && distinctKeys es

/-- The fields of the entries, those to be merged aside. A key that says nothing has no field. -/
def ownFields (es : List Entry) : Option (List (String × Node)) :=
  (es.filter fun e => !isMergeKey e.key).foldrM
    (fun e fields => e.key.text?.map fun
      | some name => (name, e.value) :: fields
      | none => fields) []

/-- The fields of both lists; of two with one name the first is kept. -/
def mergeFields (first second : List (String × Node)) : List (String × Node) :=
  first ++ second.filter fun f => !first.any (·.1 == f.1)

/-- The fields of a mapping with these entries, of which `merged` are merged in. -/
def entriesFields (es : List Entry) (merged : Option (List (String × Node))) :
    Option (List (String × Node)) := do
  if distinctKeys es then return mergeFields (← ownFields es) (← merged) else none

mutual

/-- The fields that the entries merge in. -/
def mergedFields : List Entry → Option (List (String × Node))
  | [] => some []
  | .mk key value :: es => if isMergeKey key then mergeable value else mergedFields es

/-- The fields of a mapping, or of several, to be merged. -/
def mergeable : Node → Option (List (String × Node))
  | .mapping _ es => entriesFields es (mergedFields es)
  | .aliased _ _ (.mapping _ es) => entriesFields es (mergedFields es)
  | .sequence _ items => mergeableAll items
  | _ => none

def mergeableAll : List Node → Option (List (String × Node))
  | [] => some []
  | .mapping _ es :: ns => do
    return mergeFields (← entriesFields es (mergedFields es)) (← mergeableAll ns)
  | .aliased _ _ (.mapping _ es) :: ns => do
    return mergeFields (← entriesFields es (mergedFields es)) (← mergeableAll ns)
  | _ :: _ => none

end

/-- The fields of a mapping. -/
def fields? (n : Node) : Option (Option (List (String × Node))) := do
  match ← n.resolved with
  | .mapping _ es => return some (← entriesFields es (mergedFields es))
  | .scalar _ style tag text =>
    if (← scalarValue style tag text) == .null then return none else none
  | _ => none

/-- Reads one field; a field that is left out says nothing. -/
def field? {α : Type} (read : Node → Option (Option α)) (name : String)
    (fields : List (String × Node)) : Option (Option α) :=
  match fields.lookup name with
  | some n => read n
  | none => some none

end Derw.Yaml.Node
