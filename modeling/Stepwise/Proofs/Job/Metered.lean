import Stepwise.Meter
import Stepwise.Proofs.Alike
import Stepwise.Proofs.Job.Terms

/-! # Metered jobs

A job whose steps come from a meter. What outcome a step is to have is decided in any way when it is requested, the
meter makes the step, of one flavor or the other, and counts.

* `Gauge` is a meter with what only the proof reads: the calls for which it made a step, and every state it was in.
  `Gauge.At busy` says how its counts stand to the calls while `busy` steps are under way.
* `Choices.kit` puts the meter behind the choices of a job. `Choices.meets` says that between two calls no step is
  under way, and while a step is held it is the only one, if it has not resolved when it was made.
* `Choices.asked_meets`: so it stays along all polls of the job, with anything done in between.
-/

namespace Stepwise
set_option autoImplicit false

variable {W I α P G β : Type}

/-! ## A meter and what it saw -/

/-- No more than one step is under way, and none was requested while another one was. -/
def Meter.InTurn (m : Meter) : Prop :=
  m.finished ≤ m.requested ∧ m.requested ≤ m.finished + 1 ∧ m.overlapped = 0

/-- A meter with a record. -/
structure Gauge (α : Type) where
  meter : Meter := {}
  /-- The calls for which it made a step, the latest first. -/
  visited : List (Call α) := []
  /-- What the meter was before, the latest first. -/
  past : List Meter := []

namespace Gauge

/-- All that the meter ever was. -/
def moments (g : Gauge α) : List Meter := g.meter :: g.past

def change (f : Meter → Meter) (g : Gauge α) : Gauge α :=
  { g with meter := f g.meter, past := g.moments }

/-- Request a step. The record also has the moment at which the step was counted and was not over, whatever its
flavor. -/
def request (flavor : Flavor) (call : Call α) (outcome : Outcome β) (g : Gauge α) : MeterStep β × Gauge α :=
  let (step, meter) := g.meter.request flavor outcome
  (step, { meter, visited := call :: g.visited, past := g.meter.enter :: g.moments })

def InTurn (g : Gauge α) : Prop := ∀ m ∈ g.moments, m.InTurn

/-- The meter has counted the calls, so many steps are under way, and until now it was in turn. -/
structure At (busy : Nat) (g : Gauge α) : Prop where
  requested : g.meter.requested = g.visited.length
  finished : g.meter.finished + busy = g.meter.requested
  underWay : g.meter.underWay = busy
  overlapped : g.meter.overlapped = 0
  past : ∀ m ∈ g.past, m.InTurn

namespace At

variable {g : Gauge α}

theorem fresh : ({} : Gauge α).At 0 := ⟨rfl, rfl, rfl, rfl, fun _ h => nomatch h⟩

theorem inTurn {busy : Nat} (h : g.At busy) (hbusy : busy ≤ 1) : g.InTurn := by
  have hfinished := h.finished
  intro m hm
  cases hm with
  | head => exact ⟨by omega, by omega, h.overlapped⟩
  | tail _ hm => exact h.past m hm

theorem entered (h : g.At 0) : g.meter.enter.InTurn := by
  have hfinished := h.finished
  have hunderWay := h.underWay
  refine ⟨?_, ?_, ?_⟩
  · simp only [Meter.enter]
    omega
  · simp only [Meter.enter]
    omega
  · rw [Meter.enter, hunderWay]
    exact h.overlapped

theorem request (h : g.At 0) (flavor : Flavor) (call : Call α) (outcome : Outcome β) :
    (g.request flavor call outcome).2.At flavor.waits := by
  have hrequested := h.requested
  have hfinished := h.finished
  have hunderWay := h.underWay
  have hpast : ∀ m ∈ g.meter.enter :: g.moments, m.InTurn := by
    intro m hm
    cases hm with
    | head => exact h.entered
    | tail _ hm => exact h.inTurn (Nat.zero_le 1) m hm
  have hover : g.meter.enter.overlapped = 0 := h.entered.2.2
  cases flavor with
  | settled =>
    refine ⟨?_, ?_, ?_, hover, hpast⟩
    · exact congrArg (· + 1) hrequested
    · exact congrArg (· + 1) hfinished
    · exact hunderWay
  | yielding =>
    refine ⟨?_, ?_, ?_, hover, hpast⟩
    · exact congrArg (· + 1) hrequested
    · exact congrArg (· + 1) hfinished
    · exact congrArg (· + 1) hunderWay

theorem finish (h : g.At 1) : (g.change Meter.finish).At 0 where
  requested := h.requested
  finished := h.finished
  underWay := congrArg (· - 1) h.underWay
  overlapped := h.overlapped
  past := h.inTurn (Nat.le_refl 1)

/-- While no step is under way the steps were driven one after the other, and all are over. -/
theorem sequential (h : g.At 0) : g.meter.verdict = .sequential ∧
    g.meter.requested = g.visited.length ∧ g.meter.finished = g.visited.length :=
  ⟨g.meter.verdict_eq_sequential_iff.2 ⟨h.overlapped, h.underWay⟩, h.requested, h.finished.trans h.requested⟩

end At

end Gauge

/-- How the gauge stands while a step is held that may be polled. -/
def MeterStep.Held (x : MeterStep β) (g : Gauge α) : Prop :=
  match x with
  | .resolved (.holding _) => g.At 0
  | .fresh _ => g.At 1
  | .yielded _ => g.At 1
  | _ => False

theorem MeterStep.Held.inTurn {x : MeterStep β} {g : Gauge α} (h : x.Held g) : g.InTurn := by
  cases x with
  | resolved step =>
    cases step with
    | holding outcome => exact Gauge.At.inTurn h (Nat.zero_le 1)
    | taken => exact h.elim
  | fresh outcome => exact Gauge.At.inTurn h (Nat.le_refl 1)
  | yielded outcome => exact Gauge.At.inTurn h (Nat.le_refl 1)
  | spent => exact h.elim

theorem Gauge.At.held {g : Gauge α} (h : g.At 0) (flavor : Flavor) (call : Call α) (outcome : Outcome β) :
    (g.request flavor call outcome).1.Held (g.request flavor call outcome).2 := by
  have hat := h.request flavor call outcome
  cases flavor <;> exact hat

/-! ## The calls of a metered job -/

/-- What decides a metered job: its source, its filter, and what outcome each step is to have. -/
structure Choices (W I α P G β : Type) where
  next : Next W I α
  test : P → Call α → Effect W (Outcome Bool × P)
  choose : G → Call α → Effect W (Outcome β × G)
  isTrue : β → Bool
  summand : β → Int32

namespace Choices

/-- The outcomes are chosen, and the meter makes the steps. -/
def kit (c : Choices W I α P G β) (flavor : Flavor) (wake : Effect W Unit) :
    Kit (W × Gauge α) I α P G (MeterStep β) β where
  next source := (c.next source).within (Gauge α)
  test filter call := (c.test filter call).within (Gauge α)
  step consumer call := do
    let (outcome, consumer) ← (c.choose consumer call).within (Gauge α)
    let step ← fun w => .returned (w.2.request flavor call outcome).1
      (w.1, (w.2.request flavor call outcome).2)
    pure (step, consumer)
  poll := MeterStep.poll (wake.within (Gauge α)) fun f => Effect.changes fun w => (w.1, w.2.change f)
  isTrue := c.isTrue
  summand := c.summand

/-- What is known of the gauge between the calls. -/
def terms : Terms (W × Gauge α) (MeterStep β) where
  free w := w.2.At 0
  held x w := x.Held w.2
  waits x w := x.Held w.2
  failed _ w := w.2.At 0
  stopped _ _ := False
  halted w := w.2.InTurn

variable (c : Choices W I α P G β) (flavor : Flavor) (wake : Effect W Unit)

/-- A call beside the gauge. -/
theorem within_meets {A : Type} (m : Effect W A) {w : W × Gauge α} {busy : Nat} (h : w.2.At busy)
    (hbusy : busy ≤ 1) :
    (m.within (Gauge α) w).Ensures (fun w => w.2.InTurn) fun _ w => w.2.At busy :=
  (Ending.Ensures.within_of m h).mono (fun _ h => h.inTurn hbusy) fun _ _ h => h

theorem meets : (c.kit flavor wake).Meets terms where
  next source w h := within_meets (c.next source) h (Nat.zero_le 1)
  test filter call w h := by
    refine (within_meets (c.test filter call) h (Nat.zero_le 1)).mono (fun _ h => h) ?_
    rintro ⟨verdict, filter⟩ w h
    cases verdict <;> exact h
  step consumer call w h := by
    refine (within_meets (c.choose consumer call) h (Nat.zero_le 1)).bind ?_
    rintro ⟨outcome, consumer⟩ w h
    exact Gauge.At.held h flavor call outcome
  halt w h := Gauge.At.inTurn h (Nat.zero_le 1)

theorem stage_meets (x : MeterStep β) (w : W × Gauge α) (h : x.Held w.2) :
    ((c.kit flavor wake).poll.stage x w).Ensures (terms (β := β)).halted terms.staged := by
  cases x with
  | resolved step =>
    cases step with
    | taken => exact h.elim
    | holding outcome => cases outcome <;> exact h
  | fresh outcome =>
    rw [Poller.stage_eq]
    refine Ending.Ensures.bind (Q := fun r w => terms.staged (Poll.staged r) w) ?_ fun r w hr => hr
    exact (within_meets wake h (Nat.le_refl 1)).bind fun _ w h => h
  | yielded outcome =>
    have hfinish : (w.2.change Meter.finish).At 0 := Gauge.At.finish h
    cases outcome <;> exact hfinish
  | spent => exact h.elim

/-! ## All polls -/

/-- What is known after polls with these answers. -/
def Answered (answers : List (Poll (Option Int32))) (w : W × Gauge α) : Prop :=
  w.2.InTurn ∧ (∀ cause, .panicked cause ∉ answers) ∧ ∀ outcome, .ready outcome ∈ answers → w.2.At 0

theorem Answered.pending {answers : List (Poll (Option Int32))} {w : W × Gauge α} (h : Answered answers w) :
    Answered (.pending :: answers) w := by
  obtain ⟨hturn, hpanic, hready⟩ := h
  refine ⟨hturn, fun cause hmem => ?_, fun outcome hmem => ?_⟩
  · cases hmem with
    | tail _ hmem => exact hpanic cause hmem
  · cases hmem with
    | tail _ hmem => exact hready outcome hmem

theorem answered_of_resolved {r : Resolution (Option Int32)} {w : W × Gauge α}
    (h : (terms (β := β)).resolved r w) : Answered [r.answer] w := by
  cases r with
  | error cause => exact h.elim
  | ok outcome =>
    have hat : w.2.At 0 := by cases outcome <;> exact h
    refine ⟨hat.inTurn (Nat.zero_le 1), fun cause hmem => ?_, fun _ _ => hat⟩
    cases List.mem_singleton.1 hmem

theorem inTurn_of_ready {C : Type} {s : Course.State C (MeterStep β)} {w : W × Gauge α}
    (h : terms.ready s w) : w.2.InTurn := by
  have hfree : w.2.At 0 → w.2.InTurn := fun h => h.inTurn (Nat.zero_le 1)
  cases s with
  | ahead c => exact hfree h
  | closed cause => exact h.elim
  | under found c =>
    cases found with
    | nothing => exact hfree h
    | failed e => exact hfree h
    | step x => exact MeterStep.Held.inTurn h

/-- What is known where a poll may begin is known of the gauge. -/
theorem ready_of_gauge {C : Type} {s : Course.State C (MeterStep β)} {w v : W × Gauge α} (hgauge : v.2 = w.2)
    (h : terms.ready s w) : terms.ready s v := by
  obtain ⟨w, g⟩ := w
  obtain ⟨v, g⟩ := v
  cases hgauge
  cases s with
  | ahead c => exact h
  | closed cause => exact h
  | under found c => cases found <;> exact h

theorem asked_meets (fuel : Nat) (gaps : List (Effect W Unit)) (j : Job I α P G (MeterStep β))
    (w : W × Gauge α) (h : terms.ready j.view w) :
    ((Job.poll (c.kit flavor wake) fuel).asked (gaps.map (Effect.within (Gauge α))) j w).Ensures
      (fun w => w.2.InTurn) Answered := by
  induction gaps generalizing j w with
  | nil => exact ⟨inTurn_of_ready h, fun _ => List.not_mem_nil, fun _ hmem => absurd hmem List.not_mem_nil⟩
  | cons gap gaps ih =>
    rw [List.map_cons, Poller.asked_cons]
    have hgap : (gap.within (Gauge α) w).Ensures (fun w => w.2.InTurn) fun _ v => terms.ready j.view v := by
      refine (Ending.Ensures.within gap w.1 w.2).mono (fun v hv => ?_) fun _ v hv => ready_of_gauge hv h
      rw [hv]
      exact inTurn_of_ready h
    refine hgap.bind fun _ w h => ?_
    have hpoll := Job.poll_meets (c.meets flavor wake) (c.stage_meets flavor wake) fuel j w h
    have hstage : ((Job.poll (c.kit flavor wake) fuel).stage j w).Ensures (fun w => w.2.InTurn)
        fun s => terms.left (s.map id Job.view) := hpoll.bind fun r w hr => hr
    refine hstage.bind fun s w hs => ?_
    cases s with
    | inl r => exact answered_of_resolved hs
    | inr j =>
      obtain ⟨x, rest, hview, hheld⟩ := Terms.left_cases hs
      have hready : terms.ready j.view w := by
        rw [hview]
        exact hheld
      exact (ih j w hready).bind fun answers w hanswers => hanswers.pending

/-- A job that is made and polled. -/
theorem start_asked_meets (plan : Plan I α) (filter : P) (consumer : G) (made fuel : Nat)
    (gaps : List (Effect W Unit)) (w : W) :
    ((Job.start (c.kit flavor wake).next (c.kit flavor wake).step made plan filter consumer >>=
      (Job.poll (c.kit flavor wake) fuel).asked (gaps.map (Effect.within (Gauge α)))) (w, {})).Ensures
      (fun w => w.2.InTurn) Answered := by
  have hstart := Job.start_meets (c.meets flavor wake) made plan filter consumer (w, {}) Gauge.At.fresh
  refine hstart.bind fun j w hj => ?_
  exact c.asked_meets flavor wake fuel gaps j w (Terms.ready_of_fresh hj)

end Choices

end Stepwise
