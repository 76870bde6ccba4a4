import StoryMachine.Bytes

/-!
# The host

What surrounds a machine: the text it has written, the errors it has reported,
named files for saved states, and a signal that can be raised to stop it. The
clock of this host stands still.

* `Host.write`, `Host.report`: output and errors;
* `Host.fetch`, `Host.create`, `Host.storeFile`, `Writer`: files;
* `Interrupt.raise`, `Interrupt.take`: signals.
-/

namespace StoryMachine

/-- A signal to a machine. -/
inductive Signal where
  /-- End the run. -/
  | quit
  /-- End the run at once. -/
  | abort
  /-- Start the program anew. -/
  | restart
deriving DecidableEq, Repr

/-- The name of a signal. -/
def Signal.name : Signal → String
  | quit => "quit"
  | abort => "abort"
  | restart => "restart"

/-- The signal that has been raised and not yet been seen. -/
abbrev Interrupt := Option Signal

namespace Interrupt

/-- Raises a signal. It replaces one that waits, but an abort stays. -/
def raise (i : Interrupt) (s : Signal) : Interrupt :=
  if i = some .abort then i else some s

end Interrupt

/-- What the names of files mean. -/
inductive FileNames where
  /-- A name is any text. -/
  | labels
  /-- A name is a path to a file of some directory, of which the current one always
      exists, and the given ones as well. -/
  | paths (directories : List String)
deriving DecidableEq, Inhabited, Repr

/-- The parts of a path. -/
def pathParts (path : String) : List String := (path.splitOn "/").filter (· != "")

/-- The parts that lead somewhere else, joined to a path again. -/
def joinParts (parts : List String) : String := "/".intercalate (parts.filter (· != "."))

namespace FileNames

/-- The text by which files are told apart. -/
def key (n : FileNames) (name : String) : String :=
  match n with
  | labels => name
  | paths _ =>
    let path := joinParts (pathParts name)
    if name.startsWith "/" then "/" ++ path else path

/-- The directory that all parts of a path but the last lead to, with nothing for the
    current one. -/
def directoryOf (path : String) : String :=
  let directory := joinParts (pathParts path).dropLast
  if path.startsWith "/" then "/" ++ directory else directory

/-- Whether there is a directory in which a file could have the name, given the
    names of all files. -/
def hasDirectory (n : FileNames) (files : List String) (name : String) : Bool :=
  match n with
  | labels => true
  | paths directories =>
    let directory := directoryOf name
    name != "" && (directory == "" || directory == "/" || directories.contains directory ||
      files.any fun file => (directory ++ "/").isPrefixOf file)

/-- What is said of a file that does not exist. -/
def missingText (n : FileNames) (name : String) : String :=
  match n with
  | labels => name
  | paths _ => "No such file or directory (os error 2)"

end FileNames

/-- What surrounds a machine. -/
structure Host where
  /-- The text written, in the order of writing. -/
  output : String := ""
  /-- The errors reported, in the order of reporting. -/
  errors : Array String := #[]
  /-- What the names of files mean. -/
  names : FileNames := .labels
  /-- The files by name. -/
  files : List (String × Bytes) := []
  /-- The names that files were asked for by and that none has. -/
  missed : List String := []
  /-- The time in milliseconds. -/
  time : Nat := 0
deriving Inhabited

namespace Host

/-- Writes text. -/
def write (h : Host) (text : String) : Host := { h with output := h.output ++ text }

/-- Reports an error. -/
def report (h : Host) (message : String) : Host := { h with errors := h.errors.push message }

/-- The bytes of a file. -/
def file? (h : Host) (name : String) : Option Bytes := h.files.lookup (h.names.key name)

/-- Gives a file its bytes. -/
def storeFile (h : Host) (name : String) (bs : Bytes) : Host :=
  let name := h.names.key name
  { h with files := (name, bs) :: h.files.filter (·.1 != name) }

/-- Notes that a name was asked for in vain. -/
def miss (h : Host) (name : String) : Host := { h with missed := name :: h.missed }

/-- The bytes of a file, or why there are none. -/
def fetch (h : Host) (name : String) : Except String Bytes × Host :=
  match h.file? name with
  | some bs => (.ok bs, h)
  | none => (.error (h.names.missingText name), h.miss name)

/-- Makes an empty file, or says why there can be none. -/
def create (h : Host) (name : String) : Except String Unit × Host :=
  if h.names.hasDirectory (h.files.map Prod.fst) name then (.ok (), h.storeFile name [])
  else (.error (h.names.missingText name), h.miss name)

end Host

/-- A file being written. Its bytes are in the file once it is flushed or
    closed. -/
structure Writer where
  /-- The name of the file. -/
  name : String
  /-- The bytes written so far. -/
  data : Array UInt8 := #[]
deriving Inhabited

namespace Writer

/-- Writes more bytes. -/
def write (w : Writer) (bs : Bytes) : Writer := { w with data := w.data.appendList bs }

/-- Puts the bytes written so far into the file. -/
def flush (w : Writer) (h : Host) : Host := h.storeFile w.name w.data.toList

end Writer

end StoryMachine
