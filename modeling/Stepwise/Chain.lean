import Stepwise.Poll
import Stepwise.Source

/-!
# Chained continuations

The plain way to run steps one after the other: a continuation is put behind the computation so
far for every element. A poll goes down through every link that is not complete yet, so its depth
grows with the number of elements.

* `Tower` is such a computation: `ground` is complete, `first below x` waits for what is below
  and then requests the step for `x`, `second` polls that step, and a tower that has resolved is
  `spent`.
* `Chain.ofSource` takes all elements out of the source, up to its first end, before anything runs.
-/

namespace Stepwise
set_option autoImplicit false

/-- Continuations for elements of `α`, put one behind the other. -/
inductive Tower (α F : Type)
  | ground
  | first (below : Tower α F) (x : α)
  | second (step : F)
  | spent

/-- A tower with the state from which its steps are requested. -/
structure Chain (α G F : Type) where
  consumer : G
  tower : Tower α F := .ground

namespace Tower

variable {W α G F β : Type}

def pollStep (poll : Poller W F β) (x : F) : Effect W (Poll Unit × Tower α F) := do
  let (answer, x) ← poll x
  match answer with
  | .pending => pure (.pending, .second x)
  | .ready (.ok _) => pure (.ready (.ok ()), .spent)
  | .ready (.error e) => pure (.ready (.error e), .spent)
  | .panicked c => pure (.panicked c, .second x)

/-- Poll a tower: once what is below has resolved, the step of this link is requested and polled
at once. -/
def poll (request : G → α → Effect W (F × G)) (step : Poller W F β) :
    Tower α F → G → Effect W (Poll Unit × Tower α F × G)
  | .ground, consumer => pure (.ready (.ok ()), .ground, consumer)
  | .spent, consumer => pure (.panicked .chainFinished, .spent, consumer)
  | .second x, consumer => do
    let (answer, tower) ← pollStep step x
    pure (answer, tower, consumer)
  | .first below x, consumer => do
    let (answer, below, consumer) ← below.poll request step consumer
    match answer with
    | .pending => pure (.pending, .first below x, consumer)
    | .ready (.error e) => pure (.ready (.error e), .spent, consumer)
    | .panicked c => pure (.panicked c, .first below x, consumer)
    | .ready (.ok ()) => do
      let (x, consumer) ← request consumer x
      let (answer, tower) ← pollStep step x
      pure (answer, tower, consumer)

end Tower

namespace Chain

variable {W I α G F β : Type}

/-- The elements of a source up to its first end, put behind a tower one after the other. -/
def pull (next : Next W I α) : Nat → I → Tower α F → Effect W (Tower α F)
  | 0, _, _ => Effect.cut
  | fuel + 1, source, tower => do
    let (entry, source) ← next source
    match entry with
    | none => pure tower
    | some x => pull next fuel source (.first tower x)

/-- One continuation for every element of a source. -/
def ofSource (next : Next W I α) (fuel : Nat) (source : I) (consumer : G) :
    Effect W (Chain α G F) := do
  let tower ← pull next fuel source .ground
  pure { consumer, tower }

def poll (request : G → α → Effect W (F × G)) (step : Poller W F β) :
    Poller W (Chain α G F) Unit := fun c => do
  let (answer, tower, consumer) ← c.tower.poll request step c.consumer
  pure (answer, { consumer, tower })

end Chain

end Stepwise
