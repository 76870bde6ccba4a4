/-!
# Blank space

The characters that count as blank, which are those with the Unicode property
`White_Space`, and the operations on text that turn on them or on one dividing
character.

* `Text.trim`: a text without the blanks at its ends;
* `Text.splitOnce`: a text divided at the first of a given character.
-/

namespace StoryMachine.Text

/-- Whether the character has the Unicode property `White_Space`. -/
def isBlank (c : Char) : Bool :=
  let n := c.toNat
  (0x09 ≤ n && n ≤ 0x0D) || n == 0x20 || n == 0x85 || n == 0xA0 || n == 0x1680 ||
    (0x2000 ≤ n && n ≤ 0x200A) || n == 0x2028 || n == 0x2029 || n == 0x202F ||
    n == 0x205F || n == 0x3000

/-- The characters without the blanks at either end. -/
def trimChars (cs : List Char) : List Char :=
  ((cs.dropWhile isBlank).reverse.dropWhile isBlank).reverse

/-- The text without the blanks at either end. -/
def trim (s : String) : String := String.ofList (trimChars s.toList)

/-- The parts before and after the first `d`, if there is one. -/
def splitOnce (d : Char) (s : String) : Option (String × String) :=
  match s.toList.span (· != d) with
  | (_, []) => none
  | (front, _ :: back) => some (String.ofList front, String.ofList back)

/-- The lines of a text: a line feed ends a line. -/
def lines (s : String) : List String :=
  (s.toList.splitOn '\n').map String.ofList

end StoryMachine.Text
