import Std.Data.HashSet
import StoryMachine.Digest.Sha256
import StoryMachine.Heap.Restore
import StoryMachine.Metaclass.Data
import StoryMachine.Metaclass.Table
import StoryMachine.Text.Quoted

/-!
# Saved states

A saved state has every object and the global variables, and belongs to the image
of the program that made it. It is kept as bytes:

    signature   eleven bytes
    version     two bytes
    identity    the digest of the image
    objects     their number in four bytes, and then each: its index and
                generation, whether it is persistent, the name of its metaclass,
                and its body
    globals     their number in two bytes, and then each
    checksum    the digest of all that stands above

A value is the code of its type and eight bytes of content.

* `SavedState`: what is saved;
* `SavedState.encode`: its bytes;
* `SavedState.parse`: the state that bytes hold, which is checked as a whole.
-/

namespace StoryMachine

/-- An object of a saved state. -/
structure SavedObject where
  /-- Its name. -/
  id : ObjectId
  /-- Whether it is persistent. -/
  persistent : Bool
  /-- The object itself. -/
  object : Object
deriving DecidableEq, Repr

/-- What is saved of a machine. -/
structure SavedState where
  /-- The objects, by ascending slot. -/
  objects : List SavedObject
  /-- The global variables. -/
  globals : List Value
deriving DecidableEq, Repr

namespace Value

/-- The content of a value in eight bytes. -/
def payload : Value → UInt64
  | empty | nil | truth => 0
  | int n => n.toUInt32.toUInt64
  | float bits => bits
  | obj id => id.index.toUInt64 ||| (id.generation.toUInt64 <<< 32)
  | prop p => p.toUInt64
  | function ofs | method ofs | stringConst ofs | listConst ofs => ofs.toUInt64

/-- The value of a type and its content. -/
def ofPayload (data : UInt64) : DataType → Value
  | .empty => empty
  | .nil => nil
  | .truth => truth
  | .int => int data.toUInt32.toInt32
  | .float => float data
  | .object => obj ⟨data.toUInt32, (data >>> 32).toUInt32⟩
  | .property => prop data.toUInt16
  | .function => function data.toUInt32
  | .method => method data.toUInt32
  | .stringConst => stringConst data.toUInt32
  | .listConst => listConst data.toUInt32

end Value

namespace SavedState

/-- What every saved state starts with. -/
def signature : Bytes := Bytes.ofText "T3-state\r\n\x1a"

/-- The version of the format. -/
def formatVersion : UInt16 := 1

/-- The length of a digest. -/
def digestSize : Nat := 32

/-! ## Writing -/

/-- The bytes of a value. -/
def valueBytes (v : Value) : Bytes := v.dataType.code :: Bytes.u64 v.payload

/-- The bytes of a name of an object. -/
def idBytes (id : ObjectId) : Bytes := Bytes.u32 id.index ++ Bytes.u32 id.generation

/-- A count in two bytes. -/
def count16 (n : Nat) : Bytes := Bytes.u16 (UInt16.ofNat n)

/-- A count in four bytes. -/
def count32 (n : Nat) : Bytes := Bytes.u32 (UInt32.ofNat n)

/-- The bytes of a body. -/
def bodyBytes : Body → Bytes
  | .program supers props =>
    count16 supers.length ++ supers.flatMap idBytes ++ count16 props.size ++
      props.entries.flatMap fun (p, v) => Bytes.u16 p ++ valueBytes v
  | .list items | .vector items => count32 items.length ++ items.flatMap valueBytes
  | .string text =>
    let bs := Bytes.ofText text
    count32 bs.length ++ bs
  | .table entries =>
    count32 entries.length ++ entries.flatMap fun (k, v) => valueBytes k ++ valueBytes v

/-- The name of a metaclass, after its length. -/
def nameBytes (t : MetaclassTable) (metaclass : MetaclassId) : Bytes :=
  let bs := Bytes.ofText (((t.get? metaclass).map (·.kind.name)).getD "")
  UInt8.ofNat bs.length :: bs

/-- The bytes of an object. -/
def objectBytes (t : MetaclassTable) (o : SavedObject) : Bytes :=
  idBytes o.id ++ (if o.persistent then 1 else 0) :: nameBytes t o.object.metaclass ++
    bodyBytes o.object.body

/-- The bytes of a state without the checksum. -/
def content (s : SavedState) (t : MetaclassTable) (identity : Bytes) : Bytes :=
  signature ++ Bytes.u16 formatVersion ++ identity ++
    count32 s.objects.length ++ s.objects.flatMap (objectBytes t) ++
    count16 s.globals.length ++ s.globals.flatMap valueBytes

/-- The bytes of a state that belongs to the image with the given identity. -/
def encode (s : SavedState) (t : MetaclassTable) (identity : Bytes) : Bytes :=
  let bs := s.content t identity
  bs ++ Sha256.digest bs

/-! ## Reading -/

/-- The state cannot be what was written. -/
def corrupt (why : String) : Failure := ⟨.corruptSavedState, [why]⟩

/-- The state breaks off. -/
def truncated : Failure := corrupt "truncated"

/-- Reads a part of a state. -/
def part {α : Type} (r : Reader α) : Parser α := .of truncated r

/-- Reads `n` items, where those of `read` come before them in reverse. -/
def itemsAfter {α : Type} (item : Parser α) : (n : Nat) → (read : List α) → Parser (List α)
  | 0, read => pure read.reverse
  | n + 1, read => do
    let a ← item
    itemsAfter item n (a :: read)

/-- Reads `n` items. -/
def items {α : Type} (n : Nat) (item : Parser α) : Parser (List α) := itemsAfter item n []

/-- Reads a value. -/
def value : Parser Value := do
  let tag ← part Reader.u8
  let data ← part Reader.u64
  match DataType.ofCode? tag with
  | some type => return .ofPayload data type
  | none => throw (corrupt ("value tag " ++ toString tag.toNat))

/-- Reads the name of an object. -/
def objectId : Parser ObjectId := do
  let index ← part Reader.u32
  let generation ← part Reader.u32
  return ⟨index, generation⟩

/-- Reads a number of values. -/
def values : Parser (List Value) := do
  let n ← part Reader.u32
  items n.toNat value

/-- Reads the body of an object of a kind. -/
def body : Kind → Parser Body
  | .program => do
    let n ← part Reader.u16
    let supers ← items n.toNat objectId
    let n ← part Reader.u16
    let props ← items n.toNat do return (← part Reader.u16, ← value)
    return .program supers (.ofList props)
  | .list => return .list (← values)
  | .vector => return .vector (← values)
  | .string => do
    let n ← part Reader.u32
    return .string (← part (Reader.text n.toNat))
  | .table => do
    let n ← part Reader.u32
    return .table (← items n.toNat do return (← value, ← value))

/-- Checks that the table could have an object under a name. -/
def checkId (h : Heap) (id : ObjectId) : Except Failure Unit :=
  match h.checkRestorable id with
  | .ok () => .ok ()
  | .error e => .error (corrupt e.failure.message)

/-- Reads what stands of an object after its name. -/
def objectOf (t : MetaclassTable) (id : ObjectId) : Parser SavedObject := do
  let persistent ← part Reader.u8
  let name ← part Reader.name
  match t.idByName? name with
  | none =>
    throw ⟨.incompatibleSavedState, ["metaclass " ++ Text.quoted name ++ " is not loaded"]⟩
  | some metaclass =>
    match t.get? metaclass with
    | none => throw (corrupt "bad metaclass")
    | some entry =>
      let body ← body entry.kind
      return { id, persistent := persistent != 0, object := ⟨metaclass, body⟩ }

/-- Reads `n` more objects, none of which may have the slot of one before. -/
def objectsAfter (h : Heap) (t : MetaclassTable) :
    (n : Nat) → (slots : Std.HashSet UInt32) → (read : List SavedObject) → Parser (List SavedObject)
  | 0, _, read => pure read.reverse
  | n + 1, slots, read => do
    let id ← objectId
    checkId h id
    if slots.contains id.index then
      throw (corrupt ("object id " ++ toString id.index.toNat ++ " appears more than once"))
    let o ← objectOf t id
    objectsAfter h t n (slots.insert id.index) (o :: read)

/-- Reads the objects and the globals, after which nothing may follow. -/
def state (h : Heap) (t : MetaclassTable) : Parser SavedState := do
  let n ← part Reader.u32
  let objects ← objectsAfter h t n.toNat {} []
  let n ← part Reader.u16
  let globals ← items n.toNat value
  if (← get) ≠ [] then throw (corrupt "trailing data")
  return { objects, globals }

/-- The names of the objects of a state. -/
def known (s : SavedState) : Std.HashSet (UInt32 × UInt32) :=
  s.objects.foldl (fun known o => known.insert (o.id.index, o.id.generation)) {}

/-- Whether a value names an object that is not known. -/
def dangles (known : Std.HashSet (UInt32 × UInt32)) : Value → Bool
  | .obj id => !known.contains (id.index, id.generation)
  | _ => false

/-- Checks that every object that something refers to is one of the state. -/
def checkReferences (s : SavedState) : Except Failure Unit :=
  let known := s.known
  match s.objects.find? (·.object.body.edges.any (dangles known)) with
  | some o => .error (corrupt ("object " ++ o.id.text ++ " refers to a missing object"))
  | none =>
    if s.globals.any (dangles known) then .error (corrupt "a global refers to a missing object")
    else .ok ()

/-- What stands between the version and the checksum of a state that is whole. -/
def payload (bs : Bytes) : Except Failure Bytes := do
  if bs.take signature.length ≠ signature then throw ⟨.notSavedState, []⟩
  let (version, _) ← part Reader.u16 (bs.drop signature.length)
  if version ≠ formatVersion then
    throw ⟨.incompatibleSavedState, ["format version " ++ toString version.toNat]⟩
  let start := signature.length + 2
  if bs.length < start + 2 * digestSize then throw truncated
  let content := bs.take (bs.length - digestSize)
  if Sha256.digest content ≠ bs.drop (bs.length - digestSize) then
    throw (corrupt "checksum mismatch")
  return content.drop start

/-- The state that the bytes hold, for a machine whose image has the given
    identity and metaclasses, and whose table has to have room for the objects. -/
def parse (h : Heap) (t : MetaclassTable) (identity : Bytes) (bs : Bytes) :
    Except Failure SavedState := do
  let (owner, rest) ← part (Reader.bytes digestSize) (← payload bs)
  if owner ≠ identity then throw ⟨.wrongSavedState, []⟩
  let (s, _) ← state h t rest
  s.checkReferences
  return s

end SavedState

end StoryMachine
