import StoryMachine.CommandLine.Options
import StoryMachine.Machine.Run

/-!
# Commands

What the commands do with the files there are. A command gives an exit code, two
texts and the files afterwards.

* `Image.description`: the text that describes an image;
* `Command.perform`: what a command does;
* `CommandLine.run`: what arguments do.
-/

namespace StoryMachine

/-! ## Describing -/

/-- A text with blanks before it, so that it has at least `n` characters. -/
def padLeft (n : Nat) (s : String) : String := "".pushn ' ' (n - s.length) ++ s

/-- A text with blanks after it, so that it has at least `n` characters. -/
def padRight (n : Nat) (s : String) : String := s.pushn ' ' (n - s.length)

/-- Two hexadecimal digits for each byte. -/
def hexBytes (bs : Bytes) : String :=
  String.ofList (bs.flatMap fun b =>
    [Nat.digitChar (b.toNat / 16), Nat.digitChar (b.toNat % 16)])

/-- The line that describes a block. -/
def Block.description (b : Block) : String :=
  "  " ++ b.name ++ " at " ++ padLeft 8 (toString b.offset) ++ "  " ++
    padLeft 8 (toString b.size.toNat) ++ " bytes  " ++
    (if b.mandatory then "mandatory" else "optional")

/-- The line that describes an entry of the metaclass table. -/
def MetaclassEntry.description (e : MetaclassEntry) (i : Nat) : String :=
  "  " ++ padLeft 3 (toString i) ++ " " ++ padRight 12 e.kind.name ++ " requested " ++
    Version.text e.requested ++ "  " ++ toString e.props.length ++ " method props"

/-- The line that describes an entry of the function set table. -/
def LoadedSet.description (s : LoadedSet) (i : Nat) : String :=
  "  " ++ padLeft 3 (toString i) ++ " " ++ padRight 12 s.set.name ++ " requested " ++
    Version.text s.requested ++ "  using " ++ Version.text s.selected ++ "  " ++
    toString s.exposed ++ " functions"

/-- The lines that describe an image. -/
def Image.description (i : Image) : List String :=
  ["image format " ++ toString i.version.toNat,
   "identity     " ++ hexBytes i.identity,
   "objects      " ++ toString i.objects.size] ++
  ["", "blocks:"] ++ i.blocks.map Block.description ++
  ["", "metaclasses:"] ++ i.metaclasses.entries.toList.mapIdx (fun n e => e.description n) ++
  ["", "function sets:"] ++ i.functionSets.sets.toList.mapIdx fun n s => s.description n

/-! ## Commands -/

/-- A part of a command, which may end with a message that says why. -/
abbrev CommandM := EStateM String Host

/-- A message about a file. -/
def about (path why : String) : String := path ++ ": " ++ why

/-- The bytes of a file. -/
def fetchFile (path : String) : CommandM Bytes := fun h =>
  match h.fetch path with
  | (.ok bs, h) => .ok bs h
  | (.error why, h) => .error (about path why) h

/-- Makes an empty file. -/
def createFile (path : String) : CommandM Unit := fun h =>
  match h.create path with
  | (.ok (), h) => .ok () h
  | (.error why, h) => .error (about path why) h

/-- The templates of messages that a file has. -/
def fetchMessages (path : String) : CommandM Messages := do
  match Bytes.toText? (← fetchFile path) with
  | some text => return .parse text
  | none => throw (about path "stream did not contain valid UTF-8")

/-- A machine for the image of a file. -/
def loadFile (path : String) (settings : MachineSettings) : CommandM Machine := do
  let bs ← fetchFile path
  match Machine.load bs settings (← get) with
  | .ok m => return { m with imageFile? := some path }
  | .error f => throw (about path f.text)

/-- A machine with the state of a file. -/
def restoreFile (m : Machine) (path : String) : CommandM Machine := do
  match m.restoreState (← fetchFile path) with
  | .ok m => return m
  | .error f => throw (about path (m.messages.text f))

/-- The settings of a machine for given options. -/
def RunOptions.settings (o : RunOptions) (messages : Messages) : MachineSettings where
  heap := match o.maxObjects? with
    | some n => { maxObjects := UInt32.ofNat n }
    | none => {}
  mode := if o.paged then .paged o.maxPages else .inMemory
  args := o.args
  messages := messages

/-- The exit code for the end of a run. -/
def Ending.exitCode : Ending → UInt8
  | completed _ | quit => 0
  | aborted => 2
  | failed _ | endless => 1

/-- Runs the program of an image, which may take `fuel` instructions. -/
def RunOptions.perform (o : RunOptions) (fuel : Nat) : CommandM UInt8 := do
  let messages ← match o.messages? with
    | some path => fetchMessages path
    | none => pure {}
  let m ← loadFile o.image (o.settings messages)
  let m ← match o.restore? with
    | some path => restoreFile m path
    | none => pure m
  let (ending, m) := { m with host := ← get }.run fuel
  set m.host
  if let some path := o.save? then
    createFile path
    modify (·.storeFile path m.saveState.1)
  return ending.exitCode

/-- Does a command. -/
def Command.perform (c : Command) (fuel : Nat) : CommandM UInt8 := do
  match c with
  | run o => o.perform fuel
  | info path =>
    let m ← loadFile path {}
    modify (·.write (String.join (m.image.description.map (· ++ "\n"))))
    return 0

/-- What a command leaves. -/
structure Report where
  /-- The exit code. -/
  code : UInt8
  /-- The text on standard output. -/
  output : String
  /-- The text on standard error. -/
  errors : String
  /-- The host at the end, with the files there are then. -/
  host : Host
deriving Inhabited

namespace CommandLine

/-- Each message on a line of its own. -/
def messageLines (messages : List String) : String := String.join (messages.map (· ++ "\n"))

/-- Does what the arguments say, where a run may take `fuel` instructions. -/
def run (args : List String) (host : Host) (fuel : Nat) : Report :=
  match Command.parse? args with
  | none => ⟨2, "", messageLines ["error: the arguments are not valid"], host⟩
  | some command =>
    match command.perform fuel host with
    | .ok code h => ⟨code, h.output, messageLines h.errors.toList, h⟩
    | .error why h => ⟨1, h.output, messageLines (h.errors.toList ++ ["error: " ++ why]), h⟩

end CommandLine

end StoryMachine
