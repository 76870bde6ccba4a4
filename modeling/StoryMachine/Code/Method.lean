import StoryMachine.Code.Decode

/-!
# Methods

A method in the code pool starts with a header of fixed size, its code follows,
and an exception table may stand after that, at a place that the header gives.

* `MethodHeader.parse`, `MethodHeader.encode`: a header and its ten bytes;
* `MethodHeader.accepts`: which argument counts a call may have;
* `ExceptionTable.parse`, `ExceptionTable.encode`: the protected ranges.
-/

namespace StoryMachine

/-- The header of a method. -/
structure MethodHeader where
  /-- The number of arguments that a call has to give. -/
  argc : UInt8 := 0
  /-- Whether a call may give any number of further arguments. -/
  varargs : Bool := false
  /-- The number of further arguments that a call may give. -/
  optArgc : UInt8 := 0
  /-- The number of local variables. -/
  locals : UInt16 := 0
  /-- The number of stack slots for operands. -/
  maxStack : UInt16 := 0
  /-- Where the exception table is, from the start of the method; zero if there
      is none. -/
  excTable : UInt16 := 0
  /-- Where the debugging records are, which the machine does not read. -/
  debug : UInt16 := 0
deriving DecidableEq, Inhabited, Repr

namespace MethodHeader

/-- The length of a header. -/
def size : Nat := 10

/-- The bit of the first byte that says that any number of further arguments is
    allowed. -/
def varargsFlag : UInt8 := 0x80

/-- Reads the fields of a header. -/
def reader : Reader MethodHeader := do
  let first ← Reader.u8
  let optArgc ← Reader.u8
  let locals ← Reader.u16
  let maxStack ← Reader.u16
  let excTable ← Reader.u16
  let debug ← Reader.u16
  return { argc := first &&& ~~~varargsFlag, varargs := first &&& varargsFlag != 0, optArgc, locals
           maxStack, excTable, debug }

/-- The header that a byte string starts with. -/
def parse (bs : Bytes) : Except DecodeError MethodHeader :=
  match reader bs with
  | none => .error (.truncated 0)
  | some (h, _) => .ok h

/-- The bytes of a header. -/
def encode (h : MethodHeader) : Bytes :=
  (h.argc ||| if h.varargs then varargsFlag else 0) :: h.optArgc ::
    (Bytes.u16 h.locals ++ Bytes.u16 h.maxStack ++ Bytes.u16 h.excTable ++ Bytes.u16 h.debug)

/-- Whether a call may give `n` arguments. -/
def accepts (h : MethodHeader) (n : Nat) : Bool :=
  h.argc.toNat ≤ n && (h.varargs || n ≤ h.argc.toNat + h.optArgc.toNat)

end MethodHeader

/-- A protected range of a method, whose offsets are from the method's start. -/
structure ExceptionEntry where
  /-- The first offset of the range. -/
  start : UInt16
  /-- The first offset after the range. -/
  stop : UInt16
  /-- The class whose instances are caught; zero catches all. -/
  class_ : UInt32
  /-- Where the handler starts. -/
  handler : UInt16
deriving DecidableEq, Inhabited, Repr

namespace ExceptionEntry

/-- The length of an entry, of which a table may give more. -/
def size : Nat := 10

/-- Whether the range has the offset in it. -/
def covers (e : ExceptionEntry) (ofs : UInt16) : Bool := e.start ≤ ofs && ofs < e.stop

/-- Whether the entry catches every exception. -/
def catchesAll (e : ExceptionEntry) : Bool := e.class_ == 0

/-- Reads the fields of an entry. -/
def reader : Reader ExceptionEntry := do
  let start ← Reader.u16
  let stop ← Reader.u16
  let class_ ← Reader.u32
  let handler ← Reader.u16
  return { start, stop, class_, handler }

/-- The bytes of an entry. -/
def encode (e : ExceptionEntry) : Bytes :=
  Bytes.u16 e.start ++ Bytes.u16 e.stop ++ Bytes.u32 e.class_ ++ Bytes.u16 e.handler

end ExceptionEntry

namespace ExceptionTable

/-- The next `n` entries, each of which takes `width` bytes from `offset` on; the
    bytes of an entry after its fields do not matter. -/
def entries (width : Nat) : (n offset : Nat) → Bytes → Except DecodeError (List ExceptionEntry)
  | 0, _, _ => .ok []
  | n + 1, offset, bs =>
    match ExceptionEntry.reader bs with
    | none => .error (.truncated offset)
    | some (e, _) => do
      let rest ← entries width n (offset + width) (bs.drop width)
      return e :: rest

/-- The exception table that a byte string starts with, of entries of
    `entrySize` bytes, though never of fewer than their fields take. -/
def parse (bs : Bytes) (entrySize : Nat) : Except DecodeError (List ExceptionEntry) :=
  match Reader.u16 bs with
  | none => .error (.truncated 0)
  | some (n, rest) => entries (max entrySize ExceptionEntry.size) n.toNat 2 rest

/-- The bytes of an exception table. -/
def encode (table : List ExceptionEntry) : Bytes :=
  Bytes.u16 (UInt16.ofNat table.length) ++ table.flatMap ExceptionEntry.encode

end ExceptionTable

end StoryMachine
