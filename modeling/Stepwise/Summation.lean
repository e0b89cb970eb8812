import Stepwise.Loop

/-!
# Summations

A summation is a loop whose steps resolve to numbers; it resolves to their sum, which wraps around
at 32 bits.

* The sum is a private state of the summation beside the world in which its inner loop runs, and
  the only thing that changes it is a step of this summation that resolves (`adding`).
* A summation that finds nothing to run over is `zero` for ever. Any other one may be polled until
  it resolves and refuses every further poll.
* `Summation.ofSource` looks for a first element before it makes the inner loop, which looks again;
  the source is asked once.
-/

namespace Stepwise
set_option autoImplicit false

/-- A summation whose inner loop is `L`. -/
inductive Summation (L : Type)
  | zero
  | running (sum : Int32) (loop : L)
  | finished

namespace Summation

variable {W I α G F C : Type}

/-- Poll a step and add what it resolves to. -/
def adding (step : Poller W F Int32) : Poller (W × Int32) F Unit := fun x =>
  Effect.stateful fun sum => do
    let (answer, x) ← step x
    match answer with
    | .ready (.ok n) => pure ((.ready (.ok ()), x), sum + n)
    | .ready (.error e) => pure ((.ready (.error e), x), sum)
    | .pending => pure ((.pending, x), sum)
    | .panicked c => pure ((.panicked c, x), sum)

def ofSource (next : Next W I α) (source : I) (consumer : G) :
    Effect W (Summation (Loop (Walk (Lookahead (Lookahead I α) α) Unit G) F)) := do
  let (first, source) ← Lookahead.peek next { source }
  match first with
  | none => pure .zero
  | some _ => do
    let loop ← Loop.ofSource (Lookahead.next next) source () consumer
    pure (.running 0 loop)

/-- The summation of the steps over the integers from `start` up to `stop`, without it. -/
def ofRange (start stop : Int32) (consumer : G) : Summation (Loop (RangeWalk Unit G) F) :=
  if stop ≤ start then .zero else .running 0 (Loop.ofRange start stop () consumer)

def poll (find : C → Effect W (Found F × C)) (step : Poller W F Int32) (fuel : Nat) :
    Poller W (Summation (Loop C F)) Int32
  | .zero => pure (.ready (.ok 0), .zero)
  | .finished => pure (.panicked .mapFinished, .finished)
  | .running sum loop => do
    let ((answer, loop), sum) ←
      (loop.poll (fun c => (find c).within Int32) (adding step) fuel).owning sum
    match answer with
    | .pending => pure (.pending, .running sum loop)
    | .ready (.ok ()) => pure (.ready (.ok sum), .finished)
    | .ready (.error e) => pure (.ready (.error e), .finished)
    | .panicked c => pure (.panicked c, .running sum loop)

end Summation

end Stepwise
