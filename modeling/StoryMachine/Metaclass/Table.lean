import StoryMachine.Dependency
import StoryMachine.Metaclass.Method

/-!
# The metaclass table

An image lists the metaclasses it depends on, each with the properties by which it
calls their native methods. Objects refer to a metaclass by its place in the list.

* `MetaclassTable.add`: one more entry;
* `MetaclassTable.ensureRequired`: the kinds that the machine makes itself;
* `MetaclassTable.native?`: the method that a property calls.
-/

namespace StoryMachine

/-- An entry of the metaclass table. -/
structure MetaclassEntry where
  /-- The kind of the metaclass. -/
  kind : Kind
  /-- The version that the image asks for. -/
  requested : Version
  /-- The properties that call the native methods, in their order. -/
  props : List PropId
deriving DecidableEq, Inhabited, Repr

namespace MetaclassEntry

/-- The properties that call a native method, each with it. -/
def bindings (e : MetaclassEntry) : List (PropId × NativeMethod) :=
  (e.props.zip e.kind.methods).filter fun (p, _) => PropId.isValid p

/-- The native method that a property calls; of two the later one. -/
def native? (e : MetaclassEntry) (p : PropId) : Option NativeMethod := e.bindings.reverse.lookup p

end MetaclassEntry

/-- The metaclasses of an image by their place. -/
structure MetaclassTable where
  /-- The entries. -/
  entries : Array MetaclassEntry := #[]
deriving Inhabited

namespace MetaclassTable

/-- The kinds of which the machine makes objects on its own. -/
def required : List Kind := [.program, .list, .string, .vector]

/-- Adds the metaclass that a dependency names, and gives its place. -/
def add (t : MetaclassTable) (dep : String) (props : List PropId) :
    Except Failure (MetaclassId × MetaclassTable) := do
  let (name, requested) ← Dependency.parse dep "MCLD"
  match Kind.ofName? name with
  | none => throw ⟨.unknownMetaclass, [name]⟩
  | some kind =>
    let _ ← Dependency.negotiate name requested [kind.version]
    return (UInt16.ofNat t.entries.size, ⟨t.entries.push { kind, requested, props }⟩)

/-- Whether there is an entry of a kind. -/
def hasKind (t : MetaclassTable) (kind : Kind) : Bool := t.entries.any (·.kind == kind)

/-- Adds the required kinds that are missing, without properties. -/
def ensureRequired (t : MetaclassTable) : MetaclassTable :=
  required.foldl (fun t kind =>
    if t.hasKind kind then t
    else ⟨t.entries.push { kind, requested := kind.version, props := [] }⟩) t

/-- The entry at a place. -/
def get? (t : MetaclassTable) (id : MetaclassId) : Option MetaclassEntry := t.entries[id.toNat]?

/-- The place of the first entry of a kind. -/
def idOf (t : MetaclassTable) (kind : Kind) : Except Failure MetaclassId :=
  match t.entries.findIdx? (·.kind == kind) with
  | some i => .ok (UInt16.ofNat i)
  | none => .error (.internal ("no " ++ kind.label ++ " metaclass loaded"))

/-- The place of the first entry with a name. -/
def idByName? (t : MetaclassTable) (name : String) : Option MetaclassId :=
  (t.entries.findIdx? (·.kind.name == name)).map UInt16.ofNat

/-- The native method that a property calls on objects of a metaclass. -/
def native? (t : MetaclassTable) (id : MetaclassId) (p : PropId) : Option NativeMethod :=
  (t.get? id).bind (·.native? p)

/-- The native method that a property calls by any entry of a kind, for strings
    and lists that are constants and have no metaclass of their own. -/
def nativeForKind? (t : MetaclassTable) (kind : Kind) (p : PropId) : Option NativeMethod :=
  (t.entries.toList.filter (·.kind == kind)).findSome? (·.native? p)

end MetaclassTable

end StoryMachine
