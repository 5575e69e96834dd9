import Segmentation.Form.Basic
import Segmentation.Config
import Segmentation.Text.Order

/-!
# Configurations as forms

A configuration is sent as an object. The entries `operator`, `field`, `operation` and `condition`
hold texts, `child` holds the object of the next level, and `argument0`, `argument1` and so on hold
the arguments. Absent entries and null entries mean the same; other entries are ignored.

The index in the name of an argument may have a plus sign and leading zeros, so several entries can
name one argument. They are taken in the order of their names, and the last one counts.
-/

namespace Segmentation

namespace Form

/-- What the names of arguments begin with. -/
def argumentName : List Char :=
  ['a', 'r', 'g', 'u', 'm', 'e', 'n', 't']

/-- The index in the name of an argument; it is below `2 ^ 64`. -/
def argumentIndex? (name : String) : Option Nat :=
  if argumentName.isPrefixOf name.toList then
    (Text.Numeral.natural? (name.toList.drop argumentName.length)).filter fun i => i < Nat.pow 2 64
  else none

/-- The name of the argument at an index. -/
def nameOfArgument (i : Nat) : String :=
  String.ofList (argumentName ++ Text.Numeral.ofNat i)

/-- The text of an entry, which may be absent; none if the entry holds anything else. -/
def text? (entries : List (String × Form)) (name : String) : Option (Option String) :=
  match entries.lookup name with
  | none | some null => some none
  | some (text s) => some (some s)
  | some _ => none

/-- The arguments among the entries of an object. -/
def arguments (entries : List (String × Form)) : Arguments :=
  .ofList <| (Text.sortBy Prod.fst entries).filterMap fun (name, form) =>
    (argumentIndex? name).bind fun i => form.argument?.map fun s => (i, s)

/-- What an object holds for the outermost level. -/
def level? (entries : List (String × Form)) : Option Level := do
  let operator ← text? entries "operator"
  let field ← text? entries "field"
  let operation ← text? entries "operation"
  let condition ← text? entries "condition"
  return { operator, field, operation, condition, arguments := arguments entries }

mutual

/-- The levels of an object, outermost first; none if an entry has the wrong shape. -/
def levels? : Form → Option (Level × List Level)
  | object entries => (level? entries).bind fun head => (childLevels? entries).map (head, ·)
  | _ => none

/-- The levels of the entry `child`. -/
def childLevels? : List (String × Form) → Option (List Level)
  | [] => some []
  | (name, form) :: entries =>
    if name = "child" then
      match form with
      | null => some []
      | form => (levels? form).map fun (head, tail) => head :: tail
    else childLevels? entries

end

/-- An entry for a text that may be absent. -/
def textEntry (name : String) : Option String → List (String × Form)
  | some s => [(name, text s)]
  | none => []

/-- The entries of a level, its child apart. -/
def levelEntries (l : Level) : List (String × Form) :=
  textEntry "operator" l.operator ++ textEntry "field" l.field ++
    textEntry "operation" l.operation ++ textEntry "condition" l.condition ++
    l.arguments.entries.map fun (i, s) => (nameOfArgument i, text s)

/-- The object for a level and the levels below it. -/
def ofLevels (head : Level) : List Level → Form
  | [] => object (levelEntries head)
  | level :: levels => object (("child", ofLevels level levels) :: levelEntries head)

end Form

namespace Config

/-- The configuration that a form holds; none if the form has the wrong shape. -/
def ofForm? (form : Form) : Option Config :=
  form.levels?.map fun (head, tail) => ⟨head, tail⟩

/-- The form of a configuration, without entries for what is absent. -/
def toForm (c : Config) : Form :=
  Form.ofLevels c.head c.tail

end Config

end Segmentation
