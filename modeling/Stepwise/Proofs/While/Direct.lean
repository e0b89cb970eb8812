import Stepwise.While

/-! # The driven loop without its trampoline

A driven loop hands every next turn over to a trampoline. `While.direct` is the same loop written
as a plain recursion: it knows nothing of trampolines and sets the fields of the loop itself.

* `run_settle`: what a poll still does once a step has answered. Handed over work is the next turn.
* `run_owning_eq_direct`: by induction on the fuel, turn by turn.
* `poll_eq_direct`: a poll is the plain loop, in every state that has not resolved, with or without
  a step under way, and at every fuel. It is an equation of effects. Both request and poll the same
  steps in the same order, give the same answer and leave the same state; and where the fuel gives
  out both have come to the same world, so one of them never returns exactly if the other one
  does not.
-/

namespace Stepwise.While
set_option autoImplicit false

variable {W S F : Type}

/-- The driven loop as a plain loop. The fuel bounds how many steps may be followed by another one
within a poll. -/
def direct (b : Stepper W S F) (fuel : Nat) (l : While S F) : Effect W (Poll Unit × While S F) := do
  let (x, step) ← (match l.current with
    | some x => pure (x, l.step)
    | none => b.request l.step)
  let (answer, x) ← b.poll x
  match answer with
  | .pending => pure (.pending, { step, current := some x })
  | .panicked c => pure (.panicked c, { step, current := some x })
  | .ready (.ok false) => pure (.ready (.ok ()), { step, current := none, finished := true })
  | .ready (.error e) => pure (.ready (.error e), { step, current := none, finished := true })
  | .ready (.ok true) =>
    match fuel with
    | 0 => Effect.cut
    | fuel + 1 => direct b fuel { step, current := none }

/-- A loop with no step under way requests one and is then a loop with that step. -/
theorem direct_of_none (b : Stepper W S F) (fuel : Nat) (step : S) :
    direct b fuel { step } = (do
      let (x, step) ← b.request step
      direct b fuel { step, current := some x }) := by
  rw [direct]
  refine bind_congr fun r => ?_
  obtain ⟨x, step⟩ := r
  simp only
  rw [direct]
  rfl

/-! ## One turn -/

/-- What a poll still does after the answer of a step. -/
theorem run_settle (b : Stepper W S F) (fuel : Nat) (l : While S F) (x : F) (answer : Poll Bool) :
    ((settle (W := W) l x answer).1.run (meaning b) fuel).owning (settle (W := W) l x answer).2 =
      match answer with
      | .pending => pure (.pending, { l with current := some x })
      | .panicked c => pure (.panicked c, { l with current := some x })
      | .ready (.ok false) => pure (.ready (.ok ()), { l with current := none, finished := true })
      | .ready (.error e) => pure (.ready (.error e), { l with current := none, finished := true })
      | .ready (.ok true) =>
        match fuel with
        | 0 => Effect.cut
        | fuel + 1 => (run b fuel).owning { l with current := none } := by
  cases answer with
  | pending => simp only [settle, Trampoline.run, Trampoline.runWith_done_nil]; rfl
  | panicked c => simp only [settle, Trampoline.run, Trampoline.runWith_done_nil]; rfl
  | ready outcome =>
    cases outcome with
    | error e => simp only [settle, Trampoline.run, Trampoline.runWith_done_nil]; rfl
    | ok more =>
      cases more with
      | false => simp only [settle, Trampoline.run, Trampoline.runWith_done_nil]; rfl
      | true => cases fuel <;> rfl

theorem run_owning (b : Stepper W S F) (fuel : Nat) (l : While S F) :
    (run b fuel).owning l = (do
      let (x, step) ← l.hold b
      let (answer, x) ← b.poll x
      (Trampoline.run (meaning b) fuel (settle (W := W) { l with step } x answer).1).owning
        (settle (W := W) { l with step } x answer).2) := by
  funext w
  simp only [run, turn, Effect.owning, Effect.stateful, Effect.bind_apply]
  cases l.hold b w with
  | broken reason w => rfl
  | cut w => rfl
  | returned r w =>
    simp only
    cases b.poll r.1 w with
    | broken reason w => rfl
    | cut w => rfl
    | returned r w => rfl

/-! ## Whole polls -/

theorem run_owning_eq_direct (b : Stepper W S F) (fuel : Nat) (step : S) (current : Option F) :
    (run b fuel).owning { step, current } = direct b fuel { step, current } := by
  induction fuel generalizing step current with
  | zero =>
    rw [run_owning, direct]
    cases current with
    | some x => simp only [run_settle, hold]
    | none => simp only [run_settle, hold]
  | succ fuel ih =>
    rw [run_owning, direct]
    cases current with
    | some x => simp only [run_settle, hold, ih]
    | none => simp only [run_settle, hold, ih]

/-- A poll of a loop that has not resolved is the plain loop. -/
theorem poll_eq_direct (b : Stepper W S F) (fuel : Nat) (step : S) (current : Option F) :
    poll b fuel { step, current } = direct b fuel { step, current } := by
  have hpoll : poll b fuel { step, current } = (run b fuel).owning { step, current } := rfl
  rw [hpoll, run_owning_eq_direct]

end Stepwise.While
