import StoryMachine.Text.CaseData

/-!
# Upper and lower case

Full case mappings: a character may become several. A capital sigma becomes the
final form of the small letter at the end of a word, that is after a letter with
case and not before one.

* `Text.toUpper`, `Text.toLower`: a text in upper or lower case.
-/

namespace StoryMachine.Text

namespace Case

/-- Whether the run has the code point in it. -/
def Run.contains (r : Run) (n : Nat) : Bool :=
  r.first ≤ n && n ≤ r.last && (n - r.first) % r.step == 0

/-- The code points that a code point is mapped to by the tables. -/
def mapped (runs : Array Run) (special : Array (Nat × List Nat)) (n : Nat) : List Nat :=
  match special.find? (·.1 == n) with
  | some (_, ns) => ns
  | none =>
    match runs.find? (·.contains n) with
    | some r => [((n : Int) + r.delta).toNat]
    | none => [n]

/-- Whether one of the ranges has the character in it. -/
def inRanges (ranges : Array (Nat × Nat)) (c : Char) : Bool :=
  ranges.any fun (first, last) => first ≤ c.toNat && c.toNat ≤ last

/-- The upper case of a character. -/
def upper (c : Char) : List Char := (mapped upperRuns upperSpecial c.toNat).map Char.ofNat

/-- The lower case of a character that stands alone. -/
def lower (c : Char) : List Char := (mapped lowerRuns lowerSpecial c.toNat).map Char.ofNat

/-- Whether the first character that is not passed over has case. -/
def startsCased (cs : List Char) : Bool :=
  match cs.dropWhile (inRanges ignorable) with
  | [] => false
  | c :: _ => inRanges cased c

/-- The capital sigma. -/
def capitalSigma : Char := '\u03A3'

/-- The lower case of characters, where `before` are those that precede them, the
    nearest first. -/
def lowerChars (before : List Char) : List Char → List Char
  | [] => []
  | c :: cs =>
    let low :=
      if c = capitalSigma then
        [if startsCased before && !startsCased cs then '\u03C2' else '\u03C3']
      else lower c
    low ++ lowerChars (c :: before) cs

end Case

/-- The text in upper case. -/
def toUpper (s : String) : String := String.ofList (s.toList.flatMap Case.upper)

/-- The text in lower case. -/
def toLower (s : String) : String := String.ofList (Case.lowerChars [] s.toList)

end StoryMachine.Text
