/-!
# Searching in text

Where a text occurs in another one, in characters.

* `Text.position?`: the first place at which it does.
-/

namespace StoryMachine.Text

/-- The first place at which `needle` occurs, where `skipped` characters stand
    before the text. -/
def positionFrom? (needle : List Char) (skipped : Nat) : List Char → Option Nat
  | [] => if needle = [] then some skipped else none
  | c :: cs =>
    if needle.isPrefixOf (c :: cs) then some skipped else positionFrom? needle (skipped + 1) cs

/-- The first place at which `needle` occurs in `text`, counted from zero. -/
def position? (needle text : String) : Option Nat := positionFrom? needle.toList 0 text.toList

end StoryMachine.Text
