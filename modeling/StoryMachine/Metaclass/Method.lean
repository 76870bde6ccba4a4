import StoryMachine.Failure.Message
import StoryMachine.Object.Body

/-!
# Native methods

The methods that the machine itself gives to objects of each kind, with the
numbers of arguments they take. An image says which property calls which method
of a metaclass by its place in the list of them.

* `NativeMethod`: a native method;
* `Kind.methods`: the methods of a kind, in the order in which images name them;
* `Arity.check`: whether a call gives a fitting number of arguments.
-/

namespace StoryMachine

/-- The numbers of arguments that a function takes. -/
structure Arity where
  /-- The least number. -/
  min : Nat
  /-- The greatest number; 255 stands for no limit where functions say so. -/
  max : Nat
deriving DecidableEq, Repr

namespace Arity

/-- The number of arguments does not fit. -/
def mismatch : Failure := ⟨.wrongArgCount, []⟩

/-- Checks a number of arguments. -/
def check (a : Arity) (argc : Nat) : Except Failure Unit :=
  if a.min ≤ argc ∧ argc ≤ a.max then .ok () else .error mismatch

/-- Checks a number of arguments, where the greatest possible limit is none. -/
def checkOpen (a : Arity) (argc : Nat) : Except Failure Unit :=
  if a.min ≤ argc ∧ (a.max = 255 ∨ argc ≤ a.max) then .ok () else .error mismatch

end Arity

/-- A method that the machine gives to objects of some kind. -/
inductive NativeMethod where
  | createInstance | ofKind | superclassList | propDefined
  | listLength | car | cdr | listIndexOf | listAppend | sublist
  | vectorLength | vectorAppend | removeElementAt | toList | vectorIndexOf
  | stringLength | toUpper | toLower | substr | find
  | isKeyPresent | removeElement | keysToList | valsToList | entryCount
deriving DecidableEq, Repr

namespace NativeMethod

/-- The name of a method. -/
def name : NativeMethod → String
  | createInstance => "createInstance"
  | ofKind => "ofKind"
  | superclassList => "getSuperclassList"
  | propDefined => "propDefined"
  | listLength | vectorLength | stringLength => "length"
  | car => "car"
  | cdr => "cdr"
  | listIndexOf | vectorIndexOf => "indexOf"
  | listAppend | vectorAppend => "append"
  | sublist => "sublist"
  | removeElementAt => "removeElementAt"
  | toList => "toList"
  | toUpper => "toUpper"
  | toLower => "toLower"
  | substr => "substr"
  | find => "find"
  | isKeyPresent => "isKeyPresent"
  | removeElement => "removeElement"
  | keysToList => "keysToList"
  | valsToList => "valsToList"
  | entryCount => "entryCount"

/-- The numbers of arguments that a method takes. -/
def arity : NativeMethod → Arity
  | createInstance => ⟨0, 255⟩
  | sublist | substr => ⟨1, 2⟩
  | ofKind | propDefined | listIndexOf | listAppend | vectorAppend | removeElementAt
  | vectorIndexOf | find | isKeyPresent | removeElement => ⟨1, 1⟩
  | superclassList | listLength | car | cdr | vectorLength | toList | stringLength | toUpper
  | toLower | keysToList | valsToList | entryCount => ⟨0, 0⟩

end NativeMethod

namespace Kind

/-- Every kind. -/
def all : List Kind := [program, list, vector, string, table]

/-- The word for a kind in internal errors. -/
def label : Kind → String
  | program => "TadsObject"
  | list => "List"
  | vector => "Vector"
  | string => "Str"
  | table => "LookupTable"

/-- The kind with the given name. -/
def ofName? (name : String) : Option Kind := all.find? (·.name == name)

/-- The version of a kind's metaclass. -/
def version : Kind → Nat
  | program => 30005
  | list => 30008
  | vector => 30005
  | string => 30008
  | table => 30003

/-- The native methods of a kind, in the order in which images name them. -/
def methods : Kind → List NativeMethod
  | program => [.createInstance, .ofKind, .superclassList, .propDefined]
  | list => [.listLength, .car, .cdr, .listIndexOf, .listAppend, .sublist]
  | vector => [.vectorLength, .vectorAppend, .removeElementAt, .toList, .vectorIndexOf]
  | string => [.stringLength, .toUpper, .toLower, .substr, .find]
  | table => [.isKeyPresent, .removeElement, .keysToList, .valsToList, .entryCount]

end Kind

end StoryMachine
