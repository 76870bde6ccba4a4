import StoryMachine.Object.PropTable

/-!
# Objects

What an object holds depends on its kind: a program object has superclasses and
properties, a list or vector has elements, a string has text, and a lookup table
has pairs of keys and values.

* `Body`: the content of an object;
* `Body.edges`: the values an object holds, in the order they are visited;
* `Object`: a body with the metaclass that made it.
-/

namespace StoryMachine

/-- The place of a metaclass in the table of those an image depends on. -/
abbrev MetaclassId := UInt16

/-- The kinds of objects. -/
inductive Kind where
  /-- A program-defined object. -/
  | program
  /-- A list, which is never changed. -/
  | list
  /-- A vector, whose elements can be changed. -/
  | vector
  /-- A string. -/
  | string
  /-- A table of keys and values. -/
  | table
deriving DecidableEq, Inhabited, Repr

/-- The name of a kind, which is also that of its metaclass. -/
def Kind.name : Kind → String
  | program => "tads-object"
  | list => "list"
  | vector => "vector"
  | string => "string"
  | table => "lookuptable"

/-- The content of an object. -/
inductive Body where
  /-- A program object: its superclasses, the nearest first, and its own
      properties. -/
  | program (supers : List ObjectId) (props : PropTable)
  /-- A list of values. -/
  | list (items : List Value)
  /-- A list of values that can be changed in place. -/
  | vector (items : List Value)
  /-- A text. -/
  | string (text : String)
  /-- Pairs of a key and a value, in the order in which the keys were added. -/
  | table (entries : List (Value × Value))
deriving DecidableEq, Inhabited, Repr

namespace Body

/-- The kind of the body. -/
def kind : Body → Kind
  | program _ _ => .program
  | list _ => .list
  | vector _ => .vector
  | string _ => .string
  | table _ => .table

/-- The values that the body holds, in the order in which they are visited. -/
def edges : Body → List Value
  | program supers props => supers.map .obj ++ props.entries.map Prod.snd
  | list items => items
  | vector items => items
  | string _ => []
  | table entries => entries.flatMap fun (k, v) => [k, v]

/-- The superclasses of the body, of which only a program object has any. -/
def supers : Body → List ObjectId
  | program supers _ => supers
  | _ => []

/-- The body's own value of a property. -/
def ownProp? (b : Body) (p : PropId) : Option Value :=
  match b with
  | program _ props => props.get? p
  | _ => none

end Body

/-- An object: its content, and the metaclass it belongs to for good. -/
structure Object where
  /-- The metaclass that made the object. -/
  metaclass : MetaclassId
  /-- What the object holds. -/
  body : Body
deriving DecidableEq, Inhabited, Repr

end StoryMachine
