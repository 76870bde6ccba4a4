import StoryMachine.Decimal.Reading
import StoryMachine.Failure.Code
import StoryMachine.Text.Blank

/-!
# Failures and their messages

A failure is an error code with the arguments of its message. Messages are made
from templates; a host can put its own templates in place of the built-in ones.

* `Template.fill`: a template with its arguments put in;
* `Failure.message`, `Failure.text`: the message, without and with the number;
* `Messages.parse`: a host's templates, one to a line.
-/

namespace StoryMachine

namespace Template

/-- Puts the arguments into a template: `%1` to `%9` stand for them, one that is
    missing for nothing, and `%%` for a percent sign. -/
def fillChars (args : List String) : List Char → List Char
  | [] => []
  | '%' :: '%' :: rest => '%' :: fillChars args rest
  | '%' :: d :: rest =>
    if '1' ≤ d ∧ d ≤ '9' then
      (args.getD (d.toNat - '1'.toNat) "").toList ++ fillChars args rest
    else '%' :: fillChars args (d :: rest)
  | c :: rest => c :: fillChars args rest

/-- A template with its arguments put in. -/
def fill (template : String) (args : List String) : String :=
  String.ofList (fillChars args template.toList)

end Template

/-- An error with the arguments of its message. -/
structure Failure where
  /-- Which error it is. -/
  code : ErrorCode
  /-- What the message is about. -/
  args : List String := []
deriving DecidableEq, Repr

namespace Failure

/-- The message by the built-in template. -/
def message (f : Failure) : String := Template.fill f.code.template f.args

/-- A message after the number of its error. -/
def numbered (code : ErrorCode) (message : String) : String :=
  "[" ++ toString code.number.toNat ++ "] " ++ message

/-- The message by the built-in template, after its number. -/
def text (f : Failure) : String := numbered f.code f.message

/-- Whether the failure ends the run. -/
def isFatal (f : Failure) : Bool := f.code.isFatal

/-- A value of another type was needed. -/
def badType (expected : String) : Failure := ⟨.badType, [expected]⟩

/-- A promise of the machine was broken. -/
def internal (what : String) : Failure := ⟨.internal, [what]⟩

/-- An argument was not a fitting one. -/
def badArgument (what : String) : Failure := ⟨.badArgument, [what]⟩

/-- A position outside of what it indexes. -/
def indexOutOfRange (index : Int) : Failure := ⟨.indexOutOfRange, [toString index]⟩

end Failure

/-- Templates of a host, in place of the built-in ones. -/
structure Messages where
  /-- Codes with their templates, the latest first. -/
  overrides : List (ErrorCode × String) := []
deriving DecidableEq, Inhabited, Repr

namespace Messages

/-- The template of an error. -/
def template (m : Messages) (code : ErrorCode) : String :=
  (m.overrides.lookup code).getD code.template

/-- Gives an error a template. -/
def set (m : Messages) (code : ErrorCode) (template : String) : Messages :=
  ⟨(code, template) :: m.overrides⟩

/-- The entry that a line makes: a number, an equals sign, and a template. Blank
    lines, lines that start with `#` and unknown numbers make none. -/
def entry? (line : String) : Option (ErrorCode × String) := do
  let line := Text.trim line
  if line.startsWith "#" then none
  let (number, template) ← Text.splitOnce '=' line
  let n ← Decimal.parseNat? 65535 (Text.trim number)
  let code ← ErrorCode.ofNumber? (UInt16.ofNat n)
  return (code, Text.trim template)

/-- The templates that a text gives, one to a line; of two for one error the
    later one counts. -/
def parse (text : String) : Messages :=
  (Text.lines text).foldl (fun m line =>
    match entry? line with
    | none => m
    | some (code, template) => m.set code template) {}

/-- The message of a failure. -/
def message (m : Messages) (f : Failure) : String := Template.fill (m.template f.code) f.args

/-- The message of a failure, after its number. -/
def text (m : Messages) (f : Failure) : String := Failure.numbered f.code (m.message f)

end Messages

end StoryMachine
