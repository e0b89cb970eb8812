import Stepwise.Source
import Stepwise.Script.Program
import Stepwise.Script.World

/-!
# The sources of a script

A `Supply` is what the description of some elements stands for once its expressions are evaluated.

* As a source it notes every element that it gives and every end (`Supply.next`). The integers
  upward have no end: where the next one would be too large, the source breaks down.
* `Supply.toList` takes all elements at once, without a note. A place without an element is passed
  over there.
-/

namespace Stepwise.Script
set_option autoImplicit false

/-- What is left of the elements of a script. -/
inductive Supply
  | items (rest : List (Option Value))
  | range (current stop : Int64)
  | upward (current : Int64)
  | replicate (value : Value) (count : Nat)

def evaluate (scope : Scope) (e : Expr) : Effect World Value :=
  Effect.reads fun w => e.eval w.registers scope

def Elements.supply (scope : Scope) (elements : Elements) : Effect World Supply :=
  Effect.reads fun w =>
    let value := Expr.eval w.registers scope
    match elements with
    | .items listed => .items (listed.map (Option.map value))
    | .range start stop => .range (value start).toInt (value stop).toInt
    | .upward start => .upward (value start).toInt
    | .replicate v count => .replicate (value v) (value count).toInt.toInt.toNat

namespace Supply

/-- Give an element, if there is one, and note it. -/
def give (entry : Option Value) (rest : Supply) : Effect World (Option Value × Supply) := do
  World.note (.next entry)
  pure (entry, rest)

def next : Next World Supply Value
  | .items [] => give none (.items [])
  | .items (entry :: rest) => give entry (.items rest)
  | .range current stop =>
    if current < stop then give (some (.int current)) (.range (current + 1) stop)
    else give none (.range current stop)
  | .upward current =>
    if current = Int64.maxValue then Effect.breakDown .overflow
    else give (some (.int current)) (.upward (current + 1))
  | .replicate v 0 => give none (.replicate v 0)
  | .replicate v (count + 1) => give (some v) (.replicate v count)

def toList : Supply → Effect World (List Value)
  | .items entries => pure (entries.filterMap id)
  | .range current stop =>
    pure ((List.range (stop.toInt - current.toInt).toNat).map fun (k : Nat) =>
      .int (current + Int64.ofNat k))
  | .upward _ => Effect.breakDown .overflow
  | .replicate v count => pure (List.replicate count v)

end Supply

/-- The two ends of a range, of which the lowest 32 bits count. -/
def Elements.bounds (scope : Scope) (elements : Elements) : Effect World (Int32 × Int32) :=
  Effect.reads fun w =>
    let value := fun e : Expr => (e.eval w.registers scope).toInt.toInt32
    match elements with
    | .range start stop => (value start, value stop)
    | _ => (0, 0)

end Stepwise.Script
