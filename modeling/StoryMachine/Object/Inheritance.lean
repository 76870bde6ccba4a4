import StoryMachine.Object.Body

/-!
# Inheritance

Program objects inherit properties from their superclasses. The objects from
which one inherits are put in one order, depth first and from left to right,
each at its first occurrence only; a property is looked up along that order.
Names that mean no object are left out, and a graph with a cycle has an order
like any other.

* `Inheritance.walk`: a walk through superclasses, with an agenda of its own;
* `Inheritance.linearize`: the order;
* `Inheritance.lookup`, `Inheritance.lookupInherited`: a property along it, from
  the start or after a given definer.
-/

namespace StoryMachine

/-- A place in which a property was found. -/
structure Found where
  /-- The object that defines the property. -/
  holder : ObjectId
  /-- The value it gives. -/
  value : Value
deriving DecidableEq, Repr

namespace Inheritance

/-- The objects by name, of which there are finitely many. -/
structure Source where
  /-- The content of the object with a given name. -/
  body? : ObjectId → Option Body
  /-- No fewer than the number of objects. -/
  bound : Nat
  /-- There are no more objects than that. -/
  finite : ∀ ids : List ObjectId, ids.Nodup → (∀ id ∈ ids, (body? id).isSome = true) →
    ids.length ≤ bound

namespace Source

/-- Whether a name means an object. -/
def has (src : Source) (id : ObjectId) : Bool := (src.body? id).isSome

/-- The superclasses of an object, the nearest first. -/
def supers (src : Source) (id : ObjectId) : List ObjectId :=
  ((src.body? id).map Body.supers).getD []

end Source

/-! ## The order -/

/-- Goes on with a walk through superclasses. `order` has the objects that have been
    met, and the agenda the names that are still to be seen to: the superclasses to
    come of all objects that are being visited, those of the object met last first. A
    name that means no object, or one that has been met, is passed over. Each turn
    meets an object, so that as many turns as there are objects suffice. -/
def walk (src : Source) : (turns : Nat) → (order agenda : List ObjectId) → List ObjectId
  | 0, order, _ => order
  | turns + 1, order, agenda =>
    match agenda.dropWhile fun id => decide (id ∈ order) || !src.has id with
    | [] => order
    | id :: rest => walk src turns (order ++ [id]) (src.supers id ++ rest)

/-- The order in which `start` inherits, itself first. -/
def linearize (src : Source) (start : ObjectId) : List ObjectId :=
  walk src src.bound [] [start]

/-- The first object of `order` that defines the property itself. -/
def findIn (src : Source) (order : List ObjectId) (p : PropId) : Option Found :=
  order.findSome? fun id => do
    let body ← src.body? id
    let value ← body.ownProp? p
    return ⟨id, value⟩

/-- The value of a property of `receiver`, its own or inherited. -/
def lookup (src : Source) (receiver : ObjectId) (p : PropId) : Option Found :=
  findIn src (linearize src receiver) p

/-- The definition of a property that the one in `definer` overrides, seen from
    `receiver`: the next one after `definer` in the order of `receiver`. If
    `receiver` does not inherit from `definer`, the order of `definer` counts. -/
def lookupInherited (src : Source) (receiver definer : ObjectId) (p : PropId) :
    Option Found :=
  let order := linearize src receiver
  if definer ∈ order then findIn src ((order.dropWhile (· != definer)).drop 1) p
  else findIn src ((linearize src definer).drop 1) p

/-- Whether `id` is `ancestor` or inherits from it. -/
def isInstanceOf (src : Source) (id ancestor : ObjectId) : Bool :=
  ancestor ∈ linearize src id

end Inheritance

end StoryMachine
