import StoryMachine.Failure.Message

/-!
# Dependencies

An image asks for metaclasses and function sets by a name and, after a slash, the
least version it needs. A version is six digits; the highest one available is
taken if it is not lower than that.

* `Version.parse?`, `Version.text`: versions and their six digits;
* `Dependency.parse`: a name with the version asked for;
* `Dependency.negotiate`: the version taken.
-/

namespace StoryMachine

/-- A version. -/
abbrev Version := Nat

namespace Version

/-- The version that six digits spell. -/
def parse? (s : String) : Option Version :=
  let cs := s.toList
  if cs.length = 6 then Decimal.digitsValue? cs else none

/-- A version as six digits, or more if it takes more. -/
def text (v : Version) : String :=
  let digits := Nat.toDigits 10 v
  String.ofList (List.replicate (6 - digits.length) '0' ++ digits)

end Version

namespace Dependency

/-- The name and the least version of a dependency, which is zero if it gives
    none. `block` is the part of the image that asks. -/
def parse (dep block : String) : Except Failure (String × Version) :=
  match Text.splitOnce '/' dep with
  | none => .ok (dep, 0)
  | some (name, version) =>
    match Version.parse? version with
    | some v => .ok (name, v)
    | none => .error ⟨.badBlockData, [block, "malformed dependency \"" ++ dep ++ "\""]⟩

/-- The highest version available, which has to reach the one requested. -/
def negotiate (name : String) (requested : Version) (available : List Version) :
    Except Failure Version :=
  let best := available.foldl max 0
  if best < requested then
    .error ⟨.versionTooOld, [name, Version.text requested, Version.text best]⟩
  else .ok best

end Dependency

end StoryMachine
