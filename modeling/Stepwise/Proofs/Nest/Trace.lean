import Stepwise.Proofs.Nest.Basic
import Stepwise.Proofs.Watched

/-! # What a poll of a nest does

A poll goes down to an innermost step, on to the next one when it resolves, and up again. As long as nothing
waits or fails its trace is calm: there are only calls, and the waker is that of this poll.

* `Calm first now`: since `first` only calls were made. `Waits` and `Failed` add the one event with which a poll
  stops; after it there is nothing more at any level, but for the messages of watched failures.
* `terms` puts this in the words of a job. Its calls keep to them (`kit_meets`), so that `poll_meets` carries a
  poll through a nest by induction on the nest, one level at a time.
* `attend_meets`: all polls but the last one waited, and so nothing had failed when the last one began.
* `first_failure_wins`: so the whole ends with the first failure, unchanged, or there was none.
-/

namespace Stepwise
set_option autoImplicit false

namespace Nest

variable {U I α P G M F N β : Type}

/-! ## Traces -/

/-- A call, and not something that stops a poll. Innermost steps see the waker of the poll. -/
def Event.IsCall (waker : Nat) : Event → Prop
  | .pulled => True
  | .tested => True
  | .requested => True
  | .polled => True
  | .reached waker' => waker' = waker
  | _ => False

def Event.failure? : Event → Option Failure
  | .failed e => some e
  | _ => none

/-- The failures of filters and innermost steps, the latest first. -/
def Trace.failures (tr : Trace) : List Failure := tr.events.filterMap Event.failure?

def Trace.compose (tr : Trace) : Trace := tr.note .composed

/-- Since `first` there were only calls. -/
def Calm (first now : Trace) : Prop :=
  now.waker = first.waker ∧
    ∃ calls, now.events = calls ++ first.events ∧ ∀ event ∈ calls, event.IsCall first.waker

/-- An innermost step was polled last, with the waker of this poll, and waits. -/
def Waits (first now : Trace) : Prop :=
  ∃ before, Calm first before ∧ now = (before.note (.reached first.waker)).note .waits

/-- A filter or an innermost step has failed. Afterwards so many messages were composed. -/
def Failed (first : Trace) (e : Failure) (now : Trace) : Prop :=
  ∃ before messages, Calm first before ∧ now = Trace.compose^[messages] (before.note (.failed e))

/-- Where something broke down or was cut off: between two calls, or while a message was composed. -/
def Halted (first now : Trace) : Prop :=
  Calm first now ∨ ∃ e before, Failed first e before ∧ now = before.compose

theorem Calm.refl (tr : Trace) : Calm tr tr := ⟨rfl, [], rfl, fun _ h => nomatch h⟩

theorem Calm.note {first now : Trace} (h : Calm first now) {event : Event}
    (hevent : event.IsCall first.waker) : Calm first (now.note event) := by
  obtain ⟨hwaker, calls, hevents, hcalls⟩ := h
  refine ⟨hwaker, event :: calls, congrArg (event :: ·) hevents, ?_⟩
  intro event' hmem
  rcases List.mem_cons.1 hmem with rfl | hmem
  · exact hevent
  · exact hcalls event' hmem

theorem Calm.failed {first now : Trace} (h : Calm first now) (e : Failure) :
    Failed first e (now.note (.failed e)) := ⟨now, 0, h, rfl⟩

theorem Failed.compose {first now : Trace} {e : Failure} (h : Failed first e now) :
    Failed first e now.compose := by
  obtain ⟨before, messages, hcalm, rfl⟩ := h
  exact ⟨before, messages + 1, hcalm, (Function.iterate_succ_apply' ..).symm⟩

theorem failures_note {tr : Trace} {event : Event} (h : event.failure? = none) :
    (tr.note event).failures = tr.failures := List.filterMap_cons_none h

theorem Event.IsCall.failure? {waker : Nat} {event : Event} (h : event.IsCall waker) :
    event.failure? = none := by
  cases event with
  | failed e => exact h.elim
  | _ => rfl

theorem Calm.failures {first now : Trace} (h : Calm first now) : now.failures = first.failures := by
  obtain ⟨-, calls, hevents, hcalls⟩ := h
  have hnone : calls.filterMap Event.failure? = [] :=
    List.filterMap_eq_nil_iff.2 fun event hmem => (hcalls event hmem).failure?
  rw [Trace.failures, hevents, List.filterMap_append, hnone, List.nil_append, Trace.failures]

theorem Waits.failures {first now : Trace} (h : Waits first now) : now.failures = first.failures := by
  obtain ⟨before, hcalm, rfl⟩ := h
  rw [failures_note rfl, failures_note rfl, hcalm.failures]

theorem failures_compose (messages : Nat) (tr : Trace) :
    (Trace.compose^[messages] tr).failures = tr.failures := by
  induction messages generalizing tr with
  | zero => rfl
  | succ messages ih =>
    rw [Function.iterate_succ_apply, ih]
    exact failures_note rfl

theorem Failed.failures {first now : Trace} {e : Failure} (h : Failed first e now) :
    now.failures = e :: first.failures := by
  obtain ⟨before, messages, hcalm, rfl⟩ := h
  rw [failures_compose]
  exact congrArg (e :: ·) hcalm.failures

/-! ## The terms of a poll -/

/-- The terms on which the jobs of a nest are polled, in a poll that began at `first`. -/
def terms (first : Trace) (sound : F → Prop) : Terms (U × Trace) F where
  free ws := Calm first ws.2
  held x ws := sound x ∧ Calm first ws.2
  waits x ws := sound x ∧ Waits first ws.2
  failed e ws := Failed first e ws.2
  stopped _ ws := Calm first ws.2
  halted ws := Halted first ws.2

section Calls

variable {first : Trace} {sound : F → Prop}

/-- What acts on `U` leaves the trace calm. -/
theorem within_calm {A : Type} (m : Effect U A) (ws : U × Trace) (h : Calm first ws.2) :
    (m.within Trace ws).Ensures (fun ws => Halted first ws.2) fun _ ws => Calm first ws.2 :=
  (Ending.Ensures.within_of m h).mono (fun _ h => Or.inl h) fun _ _ h => h

theorem kit_meets {calls : Calls U I α P G M} {again : β → Bool} {summand : β → Int32}
    {make : M → Effect (U × Trace) F} {poll : Poller (U × Trace) F β}
    (hmake : ∀ m ws, Calm first ws.2 → (make m ws).Ensures (fun ws => Halted first ws.2)
      fun x ws => sound x ∧ Calm first ws.2) :
    (kit calls again summand make poll).Meets (terms first sound) where
  next source ws h := within_calm _ (ws.1, ws.2.note .pulled) (h.note trivial)
  test p call ws h := by
    have hcalm := within_calm (calls.test p call) (ws.1, ws.2.note .tested) (h.note trivial)
    refine hcalm.bind fun r ws hr => ?_
    obtain ⟨verdict, p⟩ := r
    cases verdict with
    | ok accepted => exact hr
    | error e => exact hr.failed e
  step g call ws h := by
    have hcalm := within_calm (calls.step g call) (ws.1, ws.2.note .requested) (h.note trivial)
    refine hcalm.bind fun r ws hr => ?_
    exact (hmake r.1 ws hr).bind fun x ws hx => hx
  halt _ h := Or.inl h

theorem reach_meets (poll : Nat → Poller U F β) (x : F) (ws : U × Trace) (h : Calm first ws.2) :
    ((reach poll).stage x ws).Ensures (fun ws => Halted first ws.2)
      (terms first fun _ => True).staged := by
  obtain ⟨u, tr⟩ := ws
  have hwaker : tr.waker = first.waker := h.1
  have hcalm : Calm first (tr.note (.reached tr.waker)) := h.note hwaker
  -- the step itself does not touch the trace
  have hpoll := Ending.Ensures.within (poll tr.waker x) u (tr.note (.reached tr.waker))
  have hreach : (((poll tr.waker x).within Trace >>= fun r => do
      noteAnswer r.1
      pure r) (u, tr.note (.reached tr.waker))).Ensures (fun ws => Halted first ws.2)
        fun r => (terms first fun _ => True).staged (Poll.staged r) := by
    refine Ending.Ensures.bind (hpoll.mono ?_ fun _ _ hws => hws) ?_
    · intro ws hws
      rw [hws]
      exact Or.inl hcalm
    · intro r ws hws
      obtain ⟨answer, x⟩ := r
      obtain ⟨v, tr'⟩ := ws
      cases hws
      cases answer with
      | pending =>
        refine ⟨trivial, tr, h, ?_⟩
        rw [← hwaker]
        rfl
      | panicked cause => exact hcalm
      | ready o =>
        cases o with
        | ok b => exact hcalm
        | error e => exact hcalm.failed e
  exact Ending.Ensures.bind hreach fun r ws hr => hr

theorem compose_meets {e : Failure} (message : N → Effect U String) (n : N) (ws : U × Trace)
    (h : Failed first e ws.2) :
    (compose message n ws).Ensures (fun ws => Halted first ws.2) fun _ ws => Failed first e ws.2 := by
  have hwithin := Ending.Ensures.within (message n) ws.1 ws.2.compose
  refine hwithin.mono ?_ ?_
  · intro ws' hws'
    exact Or.inr ⟨e, ws.2, h, hws'⟩
  · intro _ ws' hws'
    rw [hws']
    exact h.compose

variable [Logging U]

theorem logFailure_meets {e : Failure} (message : N → Effect U String) (n : N) (sql : String)
    (ws : U × Trace) (h : Failed first e ws.2) :
    (Statement.logFailure (some e) (compose message n) sql ws).Ensures (fun ws => Halted first ws.2)
      fun _ ws => Failed first e ws.2 :=
  Statement.logFailure_beside (compose_meets message n) e sql h

end Calls

/-! ## Through a nest -/

/-- A job that holds a sound step, or none. A failure is never kept. -/
def soundJob (sound : F → Prop) (j : Job I α P G F) : Prop :=
  match j.view with
  | .under (.step x) _ => sound x
  | .under (.failed _) _ => False
  | _ => True

/-- The states in which a nest can be. -/
def Sound {U M F β : Type} : Nest U M F β → F → Prop
  | .leaf _, _ => True
  | .job _ _ _ inner, j => soundJob inner.Sound j
  | .watched _ inner, w =>
    match w with
    | .active x _ _ => inner.Sound x
    | .finished => True
  | .mapped _ inner, x => inner.Sound x
  | .any inner, x => (inner x.1).Sound x.2

theorem ready_view {first : Trace} {sound : F → Prop} {j : Job I α P G F} (hj : soundJob sound j)
    {ws : U × Trace} (h : Calm first ws.2) : (terms first sound).ready j.view ws := by
  rw [soundJob] at hj
  cases hview : j.view with
  | ahead c => exact h
  | closed cause => exact h
  | under found c =>
    rw [hview] at hj
    cases found with
    | step x => exact ⟨hj, h⟩
    | nothing => exact h
    | failed e => exact hj.elim

theorem sound_view {first : Trace} {sound : F → Prop} {j : Job I α P G F} {ws : U × Trace}
    (h : (terms first sound).left (.inr j.view : Resolution (Option Int32) ⊕ _) ws) :
    soundJob sound j ∧ Waits first ws.2 := by
  obtain ⟨x, c, hview, hx, hwaits⟩ := Terms.left_cases h
  rw [soundJob, hview]
  exact ⟨hx, hwaits⟩

theorem fresh_view {first : Trace} {sound : F → Prop} {j : Job I α P G F} {ws : U × Trace}
    (h : (terms first sound).fresh j.view ws) : soundJob sound j ∧ Calm first ws.2 := by
  rw [soundJob]
  obtain ⟨c, hview, hcalm⟩ | ⟨x, c, hview, hx, hcalm⟩ := Terms.fresh_cases h
  · rw [hview]
    exact ⟨trivial, hcalm⟩
  · rw [hview]
    exact ⟨hx, hcalm⟩

theorem start_meets (fuel : Nat) {M F β : Type} (t : Nest U M F β) (first : Trace) (m : M) (ws : U × Trace)
    (h : Calm first ws.2) : (t.start fuel m ws).Ensures (fun ws => Halted first ws.2)
      fun x ws => t.Sound x ∧ Calm first ws.2 := by
  induction t generalizing ws with
  | leaf poll => exact ⟨trivial, h⟩
  | job calls again summand inner ih =>
    obtain ⟨plan, filter, consumer⟩ := m
    refine (Job.start_meets (kit_meets ih) fuel plan filter consumer ws h).mono (fun _ h => h) ?_
    exact fun j ws hj => fresh_view hj
  | watched message inner ih =>
    obtain ⟨m, n, sql⟩ := m
    refine (ih m ws h).bind fun x ws hx => ?_
    exact hx
  | mapped f inner ih => exact ih m ws h
  | any inner ih =>
    refine (ih m.1 m.2 ws h).bind fun x ws hx => ?_
    exact hx

theorem poll_meets [Logging U] (fuel : Nat) {M F β : Type} (t : Nest U M F β) (first : Trace) (x : F)
    (ws : U × Trace) (hx : t.Sound x) (h : Calm first ws.2) :
    (t.poll fuel x ws).Ensures (fun ws => Halted first ws.2)
      fun r => (terms first t.Sound).staged (Poll.staged r) := by
  induction t generalizing ws with
  | leaf poll => exact Ending.Ensures.of_bind_pure (reach_meets poll x ws h)
  | job calls again summand inner ih =>
    have hpoll := Job.poll_meets (k := kit calls again summand (inner.start fuel) (inner.poll fuel))
      (kit_meets fun m ws h => start_meets fuel inner first m ws h) ?_ fuel x ws (ready_view hx h)
    · refine hpoll.mono (fun _ h => h) fun r ws hr => ?_
      cases hstaged : Poll.staged r with
      | inl o => rw [hstaged] at hr; exact hr
      | inr j => rw [hstaged] at hr; exact sound_view hr
    · intro x ws hx
      refine Ending.Ensures.bind (ih x (ws.1, ws.2.note .polled) hx.1 (hx.2.note trivial)) ?_
      exact fun r ws hr => hr
  | watched message inner ih =>
    cases x with
    | finished => exact h
    | active x n sql =>
      refine (ih x ws hx h).bind fun r ws hr => ?_
      obtain ⟨answer, x⟩ := r
      cases answer with
      | pending => exact hr
      | panicked cause => exact hr
      | ready o =>
        cases o with
        | ok b => exact hr
        | error e => exact (logFailure_meets message n sql ws hr).bind fun _ _ h => h
  | mapped f inner ih =>
    refine (ih x ws hx h).bind fun r ws hr => ?_
    obtain ⟨answer, x⟩ := r
    cases answer with
    | ready o => cases o <;> exact hr
    | _ => exact hr
  | any inner ih =>
    refine (ih x.1 x.2 ws hx h).bind fun r ws hr => ?_
    obtain ⟨answer, y⟩ := r
    cases answer with
    | ready o => cases o <;> exact hr
    | _ => exact hr

/-! ## Polled again and again -/

/-- The last poll began at `first`, and by then nothing had failed. -/
def Began (first : Trace) : Prop :=
  first.failures = [] ∧ ∃ before : Trace, first = before.begin

theorem attend_meets [Logging U] (fuel : Nat) (t : Nest U M F β) (gaps : List (U → U)) (x : F) (u : U)
    (tr : Trace) (hx : t.Sound x) (h : tr.failures = []) :
    (t.attend fuel gaps x (u, tr)).Ensures (fun ws => ∃ first, Began first ∧ Halted first ws.2)
      fun r ws => ∃ first, Began first ∧ (terms first t.Sound).staged (Poll.staged r) ws := by
  induction gaps generalizing x u tr with
  | nil =>
    have hbegan : Began tr.begin := ⟨h, tr, rfl⟩
    refine (poll_meets fuel t tr.begin x (u, tr.begin) hx (Calm.refl _)).mono ?_ ?_
    · exact fun ws hws => ⟨tr.begin, hbegan, hws⟩
    · exact fun r ws hr => ⟨tr.begin, hbegan, hr⟩
  | cons gap gaps ih =>
    have hbegan : Began tr.begin := ⟨h, tr, rfl⟩
    refine Ending.Ensures.bind (Q := fun r => (terms tr.begin t.Sound).staged (Poll.staged r)) ?_ ?_
    · refine (poll_meets fuel t tr.begin x (u, tr.begin) hx (Calm.refl _)).mono ?_ fun _ _ hr => hr
      exact fun ws hws => ⟨tr.begin, hbegan, hws⟩
    · intro r ws hr
      obtain ⟨answer, x⟩ := r
      cases answer with
      | pending =>
        obtain ⟨hx, hwaits⟩ := hr
        exact ih x (gap ws.1) ws.2 hx (hwaits.failures.trans hbegan.1)
      | ready o => exact ⟨tr.begin, hbegan, hr⟩
      | panicked cause => exact ⟨tr.begin, hbegan, hr⟩

/-- Both the making of a nest and the polls of it. -/
theorem start_attend_meets [Logging U] (fuel : Nat) (t : Nest U M F β) (m : M) (gaps : List (U → U))
    (u : U) : ((t.start fuel m >>= t.attend fuel gaps) (u, {})).Ensures
      (fun ws => ∃ first : Trace, first.failures = [] ∧ Halted first ws.2)
      fun r ws => ∃ first, Began first ∧ (terms first t.Sound).staged (Poll.staged r) ws := by
  refine Ending.Ensures.bind (Q := fun x ws => t.Sound x ∧ Calm {} ws.2) ?_ ?_
  · refine (start_meets fuel t {} m (u, {}) (Calm.refl _)).mono ?_ fun _ _ hx => hx
    exact fun ws hws => ⟨{}, rfl, hws⟩
  · intro x ws hx
    refine (attend_meets fuel t gaps x ws.1 ws.2 hx.1 hx.2.failures).mono ?_ fun _ _ hr => hr
    exact fun ws ⟨first, hbegan, hhalted⟩ => ⟨first, hbegan.1, hhalted⟩

/-- The events since the last poll from outside began are these. -/
def Since (tr : Trace) (events : List Event) : Prop :=
  ∃ earlier, tr.events = events ++ .began tr.waker :: earlier

theorem Calm.since {first now : Trace} (hbegan : Began first) (h : Calm first now) :
    ∃ calls, Since now calls ∧ ∀ event ∈ calls, event.IsCall now.waker := by
  obtain ⟨-, before, rfl⟩ := hbegan
  obtain ⟨hwaker, calls, hevents, hcalls⟩ := h
  refine ⟨calls, ⟨before.events, ?_⟩, ?_⟩
  · rw [hevents, hwaker]
    rfl
  · rw [hwaker]
    exact hcalls

theorem Since.note {tr : Trace} {events : List Event} (h : Since tr events) (event : Event) :
    Since (tr.note event) (event :: events) := by
  obtain ⟨earlier, hevents⟩ := h
  exact ⟨earlier, congrArg (event :: ·) hevents⟩

theorem Since.compose {tr : Trace} {events : List Event} (h : Since tr events) (messages : Nat) :
    Since (Trace.compose^[messages] tr) (List.replicate messages .composed ++ events) := by
  induction messages with
  | zero => exact h
  | succ messages ih =>
    rw [Function.iterate_succ_apply', List.replicate_succ]
    exact ih.note .composed

theorem waker_compose (messages : Nat) (tr : Trace) : (Trace.compose^[messages] tr).waker = tr.waker := by
  induction messages with
  | zero => rfl
  | succ messages ih =>
    rw [Function.iterate_succ_apply']
    exact ih

/-- What a poll comes to that found something that waits. -/
theorem Waits.since {first now : Trace} (hbegan : Began first) (h : Waits first now) :
    ∃ calls, Since now (.waits :: .reached now.waker :: calls) ∧
      ∀ event ∈ calls, event.IsCall now.waker := by
  obtain ⟨before, hcalm, rfl⟩ := h
  obtain ⟨calls, hsince, hcalls⟩ := hcalm.since hbegan
  refine ⟨calls, ?_, hcalls⟩
  rw [← hcalm.1]
  exact (hsince.note _).note _

/-- What a poll comes to in which something failed. -/
theorem Failed.since {first now : Trace} {e : Failure} (hbegan : Began first) (h : Failed first e now) :
    ∃ messages calls, Since now (List.replicate messages .composed ++ .failed e :: calls) ∧
      ∀ event ∈ calls, event.IsCall now.waker := by
  obtain ⟨before, messages, hcalm, rfl⟩ := h
  obtain ⟨calls, hsince, hcalls⟩ := hcalm.since hbegan
  refine ⟨messages, calls, (hsince.note _).compose messages, ?_⟩
  rw [waker_compose]
  exact hcalls

/-! ## The first failure -/

/-- A nest that is made and polled fails with the first failure of a filter or an innermost step, if there is
one, in the poll in which it happens. After it there are no calls at any level, only messages of watched
failures; and if one of these does not come to an end, nothing else follows either. -/
theorem first_failure_wins [Logging U] (fuel : Nat) (t : Nest U M F β) (m : M) (gaps : List (U → U))
    (u : U) : ((t.start fuel m >>= t.attend fuel gaps) (u, {})).Ensures
      (fun ws => ws.2.failures = [] ∨ ∃ e messages, ∃ before : Trace, before.failures = [] ∧
        ws.2 = Trace.compose^[messages + 1] (before.note (.failed e)))
      fun r ws => ws.2.failures = r.1.failure?.toList ∧ ∀ e, r.1 = .ready (.error e) →
        ∃ messages calls, Since ws.2 (List.replicate messages .composed ++ .failed e :: calls) ∧
          ∀ event ∈ calls, event.IsCall ws.2.waker := by
  refine (start_attend_meets fuel t m gaps u).mono ?_ ?_
  · rintro ws ⟨first, hfirst, hcalm | ⟨e, now, ⟨before, messages, hcalm, rfl⟩, hnow⟩⟩
    · exact Or.inl (hcalm.failures.trans hfirst)
    · refine Or.inr ⟨e, messages, before, hcalm.failures.trans hfirst, ?_⟩
      rw [hnow, Function.iterate_succ_apply']
  · rintro ⟨answer, x⟩ ws ⟨first, hbegan, hr⟩
    cases answer with
    | pending => exact ⟨hr.2.failures.trans hbegan.1, fun e he => nomatch he⟩
    | panicked cause =>
      have hcalm : Calm first ws.2 := hr
      exact ⟨hcalm.failures.trans hbegan.1, fun e he => nomatch he⟩
    | ready o =>
      cases o with
      | ok b =>
        have hcalm : Calm first ws.2 := hr
        exact ⟨hcalm.failures.trans hbegan.1, fun e he => nomatch he⟩
      | error e =>
        have hfailed : Failed first e ws.2 := hr
        refine ⟨hfailed.failures.trans (congrArg (e :: ·) hbegan.1), ?_⟩
        rintro _ ⟨⟩
        exact hfailed.since hbegan

end Nest

end Stepwise
