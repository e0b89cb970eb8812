import Stepwise.Poll

/-!
# Meters

A meter makes steps for loops and counts how they are driven.

* `Meter.request` counts a step that is requested; a step of the flavor `settled` is over at once,
  one of the flavor `yielding` gives way once and is over when it resolves (`Meter.finish`).
* `overlapped` counts the steps that were requested while another one was under way, and
  `Meter.verdict` says whether the steps were driven one after the other.
* At any time the steps that are over and those under way make up all that were requested:
  `finished_add_underWay_enter` and `finished_add_underWay_finish` say so for each change.
-/

namespace Stepwise
set_option autoImplicit false

/-- How the steps of a meter behave. -/
inductive Flavor
  /-- They are resolved when they are requested. -/
  | settled
  /-- They give way once before they resolve. -/
  | yielding
deriving DecidableEq

/-- How often a step of the flavor gives way. -/
def Flavor.waits : Flavor → Nat
  | .settled => 0
  | .yielding => 1

structure Meter where
  requested : Nat := 0
  finished : Nat := 0
  underWay : Nat := 0
  /-- The steps that were requested while another one was under way. -/
  overlapped : Nat := 0
deriving DecidableEq

/-- A step that a meter made. -/
inductive MeterStep (α : Type)
  /-- Resolved when it was requested. -/
  | resolved (step : Immediate α)
  /-- Gives way at the first poll. -/
  | fresh (outcome : Outcome α)
  /-- Has given way and resolves at the next poll. -/
  | yielded (outcome : Outcome α)
  | spent

/-- What a meter says about the steps it made. -/
inductive Verdict
  /-- Every step was over before the next one was requested, and all are over. -/
  | sequential
  /-- A step was requested while another one was under way. -/
  | overlapping
  | running
deriving DecidableEq

namespace Meter

def enter (m : Meter) : Meter :=
  { m with
    requested := m.requested + 1
    underWay := m.underWay + 1
    overlapped := if 0 < m.underWay then m.overlapped + 1 else m.overlapped }

def finish (m : Meter) : Meter :=
  { m with underWay := m.underWay - 1, finished := m.finished + 1 }

def request {α : Type} (flavor : Flavor) (outcome : Outcome α) (m : Meter) :
    MeterStep α × Meter :=
  match flavor with
  | .settled => (.resolved (.holding outcome), m.enter.finish)
  | .yielding => (.fresh outcome, m.enter)

/-- Whether the steps were driven one after the other. -/
def verdict (m : Meter) : Verdict :=
  if m.overlapped ≠ 0 then .overlapping
  else if m.underWay ≠ 0 then .running
  else .sequential

theorem finished_add_underWay_enter {m : Meter} (h : m.finished + m.underWay = m.requested) :
    m.enter.finished + m.enter.underWay = m.enter.requested := by
  simp only [enter]
  omega

theorem finished_add_underWay_finish {m : Meter} (h : m.finished + m.underWay = m.requested)
    (hpos : 0 < m.underWay) :
    m.finish.finished + m.finish.underWay = m.finish.requested := by
  simp only [finish]
  omega

theorem verdict_eq_sequential_iff (m : Meter) :
    m.verdict = .sequential ↔ m.overlapped = 0 ∧ m.underWay = 0 := by
  unfold verdict
  by_cases ho : m.overlapped = 0 <;> by_cases hu : m.underWay = 0 <;> simp [ho, hu]

end Meter

namespace MeterStep

variable {W α : Type}

/-- Poll a step in a world where the poller can be woken and the meter of the step changed. -/
def poll (wake : Effect W Unit) (update : (Meter → Meter) → Effect W Unit) :
    Poller W (MeterStep α) α
  | .resolved step => do
    let (answer, step) ← step.poll
    pure (answer, .resolved step)
  | .fresh outcome => do
    wake
    pure (.pending, .yielded outcome)
  | .yielded outcome => do
    update Meter.finish
    pure (.ready outcome, .spent)
  | .spent => pure (.panicked .routineFinished, .spent)

end MeterStep

end Stepwise
