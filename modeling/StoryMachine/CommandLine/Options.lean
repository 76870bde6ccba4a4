import StoryMachine.Decimal.Reading

/-!
# Command-line arguments

There are two commands: one runs the program of an image, and one describes an
image. Options stand before the words they are about, and give their value in the
next word or after an equals sign.

* `Command`: what is to be done;
* `Command.parse?`: the command that arguments mean.
-/

namespace StoryMachine

/-- How a program is to be run. -/
structure RunOptions where
  /-- The file of the image. -/
  image : String := ""
  /-- Whether pool pages are read on demand. -/
  paged : Bool := false
  /-- The number of pages that are kept of each pool if they are. -/
  maxPages : Nat := 64
  /-- The limit of the object table, if another than the usual one. -/
  maxObjects? : Option Nat := none
  /-- The file of a state to start from. -/
  restore? : Option String := none
  /-- The file for the state at the end. -/
  save? : Option String := none
  /-- The file of message templates. -/
  messages? : Option String := none
  /-- The arguments of the program. -/
  args : List String := []
deriving DecidableEq, Repr

/-- What is to be done. -/
inductive Command where
  /-- Run the program of an image. -/
  | run (o : RunOptions)
  /-- Describe an image. -/
  | info (image : String)
deriving DecidableEq, Repr

namespace RunOptions

/-- Gives an option its value. -/
def set? (o : RunOptions) (option value : String) : Option RunOptions :=
  match option with
  | "--max-pages" => do return { o with maxPages := ← Decimal.parseNat? 0xFFFFFFFFFFFFFFFF value }
  | "--max-objects" => do return { o with maxObjects? := ← Decimal.parseNat? 0xFFFFFFFF value }
  | "--restore" => some { o with restore? := value }
  | "--save" => some { o with save? := value }
  | "--messages" => some { o with messages? := value }
  | _ => none

/-- The word is not an option. A single dash is none. -/
def isPlain (word : String) : Bool := !word.startsWith "-" || word == "-"

/-- The option and the value that a word gives by an equals sign. -/
def assignment? (word : String) : Option (String × String) :=
  match word.splitOn "=" with
  | option :: value :: more => some (option, "=".intercalate (value :: more))
  | _ => none

/-- The options that words give, of which the image may have been the last one.
    The first plain word is the image, and all from the second one on are the
    program's. After two dashes every word is plain. -/
def parse? (o : RunOptions) (image? : Option String) : List String → Option RunOptions
  | [] => image?.map fun image => { o with image }
  | "--" :: words =>
    match image?, words with
    | some image, args => some { o with image, args }
    | none, image :: args => some { o with image, args }
    | none, [] => none
  | "--paged" :: words => parse? { o with paged := true } image? words
  | word :: words =>
    if isPlain word then
      match image? with
      | some image => some { o with image, args := word :: words }
      | none => parse? o (some word) words
    else match assignment? word with
      | some (option, value) => do parse? (← o.set? option value) image? words
      | none =>
        match words with
        | value :: words => do parse? (← o.set? word value) image? words
        | [] => none

end RunOptions

/-- The command that arguments mean. -/
def Command.parse? : List String → Option Command
  | "run" :: words => (RunOptions.parse? {} none words).map run
  | ["info", image] => some (info image)
  | ["info", "--", image] => some (info image)
  | _ => none

end StoryMachine
