import StoryMachine.Dependency
import StoryMachine.Metaclass.Method

/-!
# Intrinsic functions

The functions that the machine gives to programs come in sets. An image lists the
sets it uses and calls a function by the place of its set and its place in the
set. An image that asks for an older version of a set sees only its first
functions.

* `FunctionSet.functions`: the functions of a set, in the order in which images
  name them;
* `FunctionSetTable.add`: one more set;
* `FunctionSetTable.resolve`: the function that a call means.
-/

namespace StoryMachine

/-- A function that the machine gives to programs. -/
inductive Intrinsic where
  | runGC | vmVersion | vmId | debugTrace | stackDepth | globalSymbol
  | dataType | getArg | firstObj | nextObj | toString | toInteger | getTime | savepoint | undo
  | sum | max | min | toFloat | restartGame | quit | saveState | restoreState
  | say
deriving DecidableEq, Repr

namespace Intrinsic

/-- The name of a function. -/
def name : Intrinsic → String
  | runGC => "t3RunGC"
  | vmVersion => "t3GetVMVsn"
  | vmId => "t3GetVMID"
  | debugTrace => "t3DebugTrace"
  | stackDepth => "t3GetStackDepth"
  | globalSymbol => "t3GetGlobalSymbol"
  | dataType => "dataType"
  | getArg => "getArg"
  | firstObj => "firstObj"
  | nextObj => "nextObj"
  | toString => "toString"
  | toInteger => "toInteger"
  | getTime => "getTime"
  | savepoint => "savepoint"
  | undo => "undo"
  | sum => "sum"
  | max => "max"
  | min => "min"
  | toFloat => "toFloat"
  | restartGame => "restartGame"
  | quit => "quit"
  | saveState => "saveState"
  | restoreState => "restoreState"
  | say => "say"

/-- The numbers of arguments that a function takes, 255 being no limit. -/
def arity : Intrinsic → Arity
  | runGC | vmVersion | vmId | stackDepth | getTime | savepoint | undo | restartGame | quit =>
    ⟨0, 0⟩
  | globalSymbol | dataType | getArg | toString | toInteger | toFloat | saveState
  | restoreState => ⟨1, 1⟩
  | firstObj => ⟨0, 1⟩
  | nextObj => ⟨1, 2⟩
  | debugTrace | sum | max | min | say => ⟨1, 255⟩

end Intrinsic

/-- A set of functions. -/
inductive FunctionSet where
  /-- The machine itself. -/
  | machine
  /-- General functions. -/
  | general
  /-- Output. -/
  | console
deriving DecidableEq, Inhabited, Repr

namespace FunctionSet

/-- Every set. -/
def all : List FunctionSet := [machine, general, console]

/-- The name of a set. -/
def name : FunctionSet → String
  | machine => "t3vm"
  | general => "tads-gen"
  | console => "tads-io"

/-- The set with the given name. -/
def ofName? (name : String) : Option FunctionSet := all.find? (·.name == name)

/-- The versions of a set by ascending number, each with how many of the functions
    it has. -/
def versions : FunctionSet → List (Version × Nat)
  | machine => [(10004, 4), (10006, 6)]
  | general => [(30006, 10), (30008, 17)]
  | console => [(30007, 1)]

/-- The functions of a set, in the order in which images name them. -/
def functions : FunctionSet → List Intrinsic
  | machine => [.runGC, .vmVersion, .vmId, .debugTrace, .stackDepth, .globalSymbol]
  | general =>
    [.dataType, .getArg, .firstObj, .nextObj, .toString, .toInteger, .getTime, .savepoint, .undo,
     .sum, .max, .min, .toFloat, .restartGame, .quit, .saveState, .restoreState]
  | console => [.say]

/-- The number of functions that an image sees: those of the latest version that
    is not later than the one requested, or else of the first. -/
def exposed (set : FunctionSet) (requested : Version) : Nat :=
  let fitting := set.versions.takeWhile fun (v, _) => v ≤ requested
  let version? := fitting.getLast?.or set.versions.head?
  Nat.min ((version?.map Prod.snd).getD 0) set.functions.length

end FunctionSet

/-- A set that an image uses. -/
structure LoadedSet where
  /-- The set. -/
  set : FunctionSet
  /-- The version that the image asks for. -/
  requested : Version
  /-- The version that it gets. -/
  selected : Version
deriving DecidableEq, Inhabited, Repr

/-- The number of functions that the image sees. -/
def LoadedSet.exposed (s : LoadedSet) : Nat := s.set.exposed s.requested

/-- The sets of an image by their place. -/
structure FunctionSetTable where
  /-- The sets. -/
  sets : Array LoadedSet := #[]
deriving Inhabited

namespace FunctionSetTable

/-- Adds the set that a dependency names, and gives its place. There can be 256. -/
def add (t : FunctionSetTable) (dep : String) : Except Failure (UInt8 × FunctionSetTable) := do
  let (name, requested) ← Dependency.parse dep "FNSD"
  match FunctionSet.ofName? name with
  | none => throw ⟨.unknownFunctionSet, [name]⟩
  | some set =>
    let selected ← Dependency.negotiate name requested (set.versions.map Prod.fst)
    if 256 ≤ t.sets.size then throw ⟨.badBlockData, ["FNSD", "more than 256 function sets"]⟩
    return (UInt8.ofNat t.sets.size, ⟨t.sets.push { set, requested, selected }⟩)

/-- The function at a place of the set at a place. -/
def resolve (t : FunctionSetTable) (set : UInt8) (func : UInt16) : Except Failure Intrinsic :=
  match t.sets[set.toNat]? with
  | none =>
    .error ⟨.functionNotAvailable, ["#" ++ toString set.toNat, toString func.toNat]⟩
  | some loaded =>
    match (loaded.set.functions.take loaded.exposed)[func.toNat]? with
    | some f => .ok f
    | none => .error ⟨.functionNotAvailable, [loaded.set.name, toString func.toNat]⟩

end FunctionSetTable

end StoryMachine
