import Stepwise.Job
import Stepwise.Proofs.Ensures

/-! # Recorded jobs

A job is made, polled and dropped while anything may happen to the world in between. A `Journal` beside the
world records all calls of the job and what they answered. Steps are numbered in the order in which they are
requested.

* `Kit.recorded`: the same calls with a journal. It is written before and after each of them and not touched by
  them, so that a call that breaks down or is cut off has been recorded.
* `Attended`: a computation with the answers of its polls so far. `acts` is what is done with it from outside,
  one action after the other; `acts_ensures` carries what each poll keeps through a whole run, however far it
  comes.
-/

namespace Stepwise
set_option autoImplicit false

variable {W I α P G F β Y : Type}

namespace Job

/-- What happens while a job is made and polled. -/
inductive Event (α : Type)
  /-- The source is asked for its next element. -/
  | asked
  | gave (entry : Option α)
  | tested (call : Call α)
  | judged (verdict : Outcome Bool)
  | requested (id : Nat) (call : Call α)
  | polled (id : Nat)
  /-- The step answered; its value counts as what it adds to a sum. -/
  | replied (id : Nat) (answer : Poll Int32)

def Event.entry? {α : Type} : Event α → Option (Option α)
  | .gave entry => some entry
  | _ => none

/-- What the source gave, an element or its end each time. -/
def entries {α : Type} (events : List (Event α)) : List (Option α) := events.filterMap Event.entry?

/-- All that happened, the latest first. -/
structure Journal (α : Type) where
  events : List (Event α) := []
  /-- The number of the next step. -/
  fresh : Nat := 0

namespace Journal

variable {α : Type}

def note (event : Event α) (j : Journal α) : Journal α := { j with events := event :: j.events }

def request (call : Call α) (j : Journal α) : Journal α :=
  { j.note (.requested j.fresh call) with fresh := j.fresh + 1 }

end Journal

def journal (f : Journal α → Journal α) : Effect (W × Journal α) Unit :=
  Effect.changes fun ws => (ws.1, f ws.2)

end Job

open Job (Journal journal)

/-- The same calls with a journal. -/
def Kit.recorded (k : Kit W I α P G F β) : Kit (W × Journal α) I α P G (Nat × F) β where
  next source := do
    journal (Journal.note .asked)
    let r ← (k.next source).within (Journal α)
    journal (Journal.note (.gave r.1))
    pure r
  test p call := do
    journal (Journal.note (.tested call))
    let r ← (k.test p call).within (Journal α)
    journal (Journal.note (.judged r.1))
    pure r
  step g call := do
    let id ← Effect.reads fun ws => ws.2.fresh
    journal (Journal.request call)
    let r ← (k.step g call).within (Journal α)
    pure ((id, r.1), r.2)
  poll x := do
    journal (Journal.note (.polled x.1))
    let r ← (k.poll x.2).within (Journal α)
    journal (Journal.note (.replied x.1 (r.1.map k.summand)))
    pure (r.1, (x.1, r.2))
  isTrue := k.isTrue
  summand := k.summand

namespace Kit

variable (k : Kit W I α P G F β) (w : W) (j : Journal α)

theorem recorded_next (source : I) :
    (k.recorded.next source (w, j)).Ensures (fun ws => ws.2 = j.note .asked)
      fun r ws => ws.2 = (j.note .asked).note (.gave r.1) := by
  refine (Ending.Ensures.within (k.next source) w (j.note .asked)).bind ?_
  rintro r ⟨w, j'⟩ rfl
  exact rfl

theorem recorded_test (p : P) (call : Call α) :
    (k.recorded.test p call (w, j)).Ensures (fun ws => ws.2 = j.note (.tested call))
      fun r ws => ws.2 = (j.note (.tested call)).note (.judged r.1) := by
  refine (Ending.Ensures.within (k.test p call) w (j.note (.tested call))).bind ?_
  rintro r ⟨w, j'⟩ rfl
  exact rfl

theorem recorded_step (g : G) (call : Call α) :
    (k.recorded.step g call (w, j)).Ensures (fun ws => ws.2 = j.request call)
      fun r ws => ws.2 = j.request call ∧ r.1.1 = j.fresh := by
  refine (Ending.Ensures.within (k.step g call) w (j.request call)).bind ?_
  rintro r ⟨w, j'⟩ rfl
  exact ⟨rfl, rfl⟩

theorem recorded_poll (x : Nat × F) :
    (k.recorded.poll x (w, j)).Ensures (fun ws => ws.2 = j.note (.polled x.1))
      fun r ws => ws.2 = (j.note (.polled x.1)).note (.replied x.1 (r.1.map k.summand)) ∧ r.2.1 = x.1 := by
  refine (Ending.Ensures.within (k.poll x.2) w (j.note (.polled x.1))).bind ?_
  rintro r ⟨w, j'⟩ rfl
  exact ⟨rfl, rfl⟩

end Kit

namespace Job

/-! ## Runs -/

/-- What can be done with a computation and its world. -/
inductive Action (W : Type)
  | poll (fuel : Nat)
  | drop
  /-- Something else happens in the world. -/
  | meanwhile (m : Effect W Unit)

/-- A computation, unless it was dropped, and the answers of its polls, the latest first. -/
structure Attended (Y : Type) where
  state : Option Y
  answers : List (Poll (Option Int32)) := []

/-- Some poll said that the computation has resolved. -/
def Attended.Over (y : Attended Y) : Prop := ∃ o, .ready o ∈ y.answers

theorem Attended.not_over_made (x : Y) : ¬ (⟨some x, []⟩ : Attended Y).Over := by
  rintro ⟨o, ⟨⟩⟩

theorem Attended.not_over_of_waits {x x' : Y} {answers : List (Poll (Option Int32))} {answer : Poll (Option Int32)}
    (hanswer : ∀ o, answer ≠ .ready o) (h : ¬ (⟨some x, answers⟩ : Attended Y).Over) :
    ¬ (⟨some x', answer :: answers⟩ : Attended Y).Over := by
  rintro ⟨o, ho⟩
  rcases List.mem_cons.1 ho with ho | ho
  · exact hanswer o ho.symm
  · exact h ⟨o, ho⟩

def act (poll : Nat → Poller (W × Journal α) Y (Option Int32)) (y : Attended Y) :
    Action W → Effect (W × Journal α) (Attended Y)
  | .poll fuel =>
    match y.state with
    | none => pure y
    | some x => do
      let (answer, x) ← poll fuel x
      pure { state := some x, answers := answer :: y.answers }
  | .drop => pure { y with state := none }
  | .meanwhile m => do
    m.within (Journal α)
    pure y

def acts (poll : Nat → Poller (W × Journal α) Y (Option Int32)) :
    List (Action W) → Attended Y → Effect (W × Journal α) (Attended Y)
  | [], y => pure y
  | action :: rest, y => do
    let y ← act poll y action
    acts poll rest y

section Runs

variable {poll : Nat → Poller (W × Journal α) Y (Option Int32)} {J : Journal α → Prop}
  {K : Attended Y → Journal α → Prop}
  (hpoll : ∀ fuel x answers w j, K ⟨some x, answers⟩ j →
    (poll fuel x (w, j)).Ensures (fun ws => J ws.2) fun r ws => K ⟨some r.2, r.1 :: answers⟩ ws.2)
  (hdrop : ∀ y j, K y j → K { y with state := none } j) (hkept : ∀ y j, K y j → J j)

include hpoll hdrop hkept

theorem act_ensures (action : Action W) (y : Attended Y) (w : W) (j : Journal α) (h : K y j) :
    (act poll y action (w, j)).Ensures (fun ws => J ws.2) fun y ws => K y ws.2 := by
  cases action with
  | poll fuel =>
    obtain ⟨state, answers⟩ := y
    cases state with
    | none => exact h
    | some x => exact (hpoll fuel x answers w j h).bind fun r ws hr => hr
  | drop => exact hdrop y j h
  | meanwhile m =>
    refine ((Ending.Ensures.within m w j).mono ?_ fun _ _ hj => hj).bind ?_
    · rintro ⟨w, j'⟩ rfl
      exact hkept y _ h
    · rintro ⟨⟩ ⟨w, j'⟩ rfl
      exact h

/-- What every poll keeps, a whole run keeps. -/
theorem acts_ensures (actions : List (Action W)) (y : Attended Y) (w : W) (j : Journal α) (h : K y j) :
    (acts poll actions y (w, j)).Ensures (fun ws => J ws.2) fun y ws => K y ws.2 := by
  induction actions generalizing y w j with
  | nil => exact h
  | cons action rest ih =>
    exact (act_ensures hpoll hdrop hkept action y w j h).bind fun y ws hy => ih y ws.1 ws.2 hy

end Runs

end Job

end Stepwise
