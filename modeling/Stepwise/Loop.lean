import Stepwise.Walk
import Stepwise.While

/-!
# Loops over sources and ranges

A loop requests a step for every element that its filter accepts, one step after the other, and
resolves when there is no element left or with the first failure of a filter or a step.

* A loop that finds nothing to run over when it is made is `empty`: it is complete, and every poll
  says so. Any other loop is a driven loop whose steps a walk `C` finds.
* `Loop.ofSource` makes a loop over a source. It asks the source for the first element, which the
  walk then starts with. `Loop.ofRange` makes a loop over the integers from a start up to a
  stop.
* `Loop.poll` polls either kind; `find` is how its walk finds the next step.
-/

namespace Stepwise
set_option autoImplicit false

/-- A loop whose steps a walk finds. -/
inductive Loop (C F : Type)
  | empty
  | running (loop : While C (Found F))

namespace Loop

variable {W I α P G F C β : Type}

def ofSource (next : Next W I α) (source : I) (filter : P) (consumer : G) :
    Effect W (Loop (Walk (Lookahead I α) P G) F) := do
  let (first, source) ← Lookahead.peek next { source }
  match first with
  | none => pure .empty
  | some _ => pure (.running { step := { source, filter, consumer } })

/-- A loop over the integers from `start` up to `stop`, without it. -/
def ofRange (start stop : Int32) (filter : P) (consumer : G) : Loop (RangeWalk P G) F :=
  if stop ≤ start then .empty
  else .running { step := { current := start, stop, filter, consumer } }

/-- Poll a loop. The fuel bounds the number of steps of one poll. -/
def poll (find : C → Effect W (Found F × C)) (step : Poller W F β) (fuel : Nat) :
    Poller W (Loop C F) Unit
  | .empty => pure (.ready (.ok ()), .empty)
  | .running loop => do
    let (answer, loop) ← loop.poll ⟨find, Found.poll step⟩ fuel
    pure (answer, .running loop)

end Loop

end Stepwise
