import Stepwise.Poll
import Stepwise.Trampoline

/-!
# Loops that are driven by polls

`While S F` repeats a step until one resolves to `false` or fails. A step is requested from the
private state `S`; requesting gives a state `F`, which is polled until it resolves. At most one
step is under way at any time, and it is requested only after the one before resolved to `true`.

* `Stepper` says how steps are requested and polled.
* `turn` takes the step under way, or a new one (`hold`), polls it once and acts on the answer
  (`settle`). When the step resolved to `true` the next turn is handed over to a trampoline, so
  that any number of steps that are resolved at once pass in one poll without nesting.
* `poll` runs that trampoline. A loop that has resolved refuses every further poll.
-/

namespace Stepwise
set_option autoImplicit false

structure While (S F : Type) where
  /-- From which steps are requested. -/
  step : S
  current : Option F := none
  finished : Bool := false

structure Stepper (W S F : Type) where
  request : S → Effect W (F × S)
  poll : Poller W F Bool

namespace While

variable {W S F : Type}

/-- What is handed over between two steps: only to take the next turn. -/
abbrev Handover (W S F : Type) := Trampoline Unit Empty (W × While S F) (Poll Unit)

/-- The step under way; where there is none, one is requested. -/
def hold (b : Stepper W S F) (l : While S F) : Effect W (F × S) :=
  match l.current with
  | some x => pure (x, l.step)
  | none => b.request l.step

/-- What comes of the answer of the step `x`: a pending step stays under way, and one that
resolved makes room for the next one or ends the loop. -/
def settle (l : While S F) (x : F) : Poll Bool → Handover W S F × While S F
  | .pending => (.done .pending, { l with current := some x })
  | .panicked c => (.done (.panicked c), { l with current := some x })
  | .ready (.ok true) => (.more (.call ()), { l with current := none })
  | .ready (.ok false) =>
    (.done (.ready (.ok ())), { l with current := none, finished := true })
  | .ready (.error e) =>
    (.done (.ready (.error e)), { l with current := none, finished := true })

/-- Request a step if none is under way, poll it, and hand over to the next one if it resolved to
`true`. -/
def turn (b : Stepper W S F) : Effect (W × While S F) (Handover W S F) :=
  Effect.stateful fun l => do
    let (x, step) ← l.hold b
    let (answer, x) ← b.poll x
    pure (settle { l with step } x answer)

/-- Handed over work is the next turn of the loop. -/
def meaning (b : Stepper W S F) : Trampoline.Meaning Unit Empty (W × While S F) (Poll Unit) where
  thunk _ := turn b
  cont k := nomatch k

/-- Take turns until a step is pending or the loop resolves; the fuel bounds the number of steps. -/
def run (b : Stepper W S F) (fuel : Nat) : Effect (W × While S F) (Poll Unit) := do
  let t ← turn b
  t.run (meaning b) fuel

def poll (b : Stepper W S F) (fuel : Nat) : Poller W (While S F) Unit := fun l =>
  if l.finished then pure (.panicked .loopFinished, l)
  else (run b fuel).owning l

def isOver (l : While S F) : Bool := l.finished

/-! ## Small laws -/

@[simp] theorem hold_of_current (b : Stepper W S F) {l : While S F} {x : F}
    (h : l.current = some x) : l.hold b = pure (x, l.step) := by
  simp [hold, h]

@[simp] theorem hold_of_none (b : Stepper W S F) {l : While S F} (h : l.current = none) :
    l.hold b = b.request l.step := by
  simp [hold, h]

theorem poll_of_finished (b : Stepper W S F) (fuel : Nat) {l : While S F} (h : l.finished = true) :
    poll b fuel l = pure (.panicked .loopFinished, l) := by
  simp [poll, h]

end While

end Stepwise
