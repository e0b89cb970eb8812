import Stepwise.Meter
import Stepwise.Proofs.Ensures

/-! # Meters in use

Any number of users request steps of one meter, poll them as often as they like and drop them whenever they like. What
the meter counts is told by what happened to the steps alone.

* `Event` is what happened to a step: it was requested, or a poll of it was answered. Steps are numbered in the order
  in which they are requested, and histories have the latest event first. `Completed` says when a step is over.
* `unfinished` are the yielding steps that were requested and no poll of which has said that they are over, also
  those that were dropped. `overlaps` counts the requests that found such a step.
* `Counts` ties the counts of the meter to the history, and `Known` every step that is held to what the history says of
  it. Both hold between two uses (`Tallied`); `use_tallied` has a case for each use.
* `uses_exact`: so the counts are exact after all uses, whatever they are and wherever they stop. The meter says that
  its steps were driven in order, that two of them overlapped or that one is still open exactly where the history does.
-/

namespace Stepwise.Meter
set_option autoImplicit false

variable {W α : Type}

/-! ## Histories -/

/-- What happened to a step. -/
inductive Event (α : Type)
  | requested (id : Nat) (flavor : Flavor)
  | answered (id : Nat) (answer : Poll α)

def Event.id : Event α → Nat
  | .requested id _ => id
  | .answered id _ => id

def Event.isRequest : Event α → Bool
  | .requested _ _ => true
  | .answered _ _ => false

/-- The number of a yielding step that is requested. -/
def Event.yields? : Event α → Option Nat
  | .requested id .yielding => some id
  | _ => none

/-- The step says that it is over. -/
def Event.resolves (id : Nat) : Event α → Bool
  | .answered j (.ready _) => j == id
  | _ => false

def requests (events : List (Event α)) : Nat := events.countP Event.isRequest

/-- The yielding steps that were requested. -/
def yielding (events : List (Event α)) : List Nat := events.filterMap Event.yields?

/-- Those of them that have not said that they are over. -/
def unfinished (events : List (Event α)) : List Nat :=
  (yielding events).filter fun id => !events.any (Event.resolves id)

/-- The requests that were made while a step was unfinished. -/
def overlaps : List (Event α) → Nat
  | [] => 0
  | .requested _ _ :: earlier => overlaps earlier + if 0 < (unfinished earlier).length then 1 else 0
  | .answered _ _ :: earlier => overlaps earlier

/-- The step of this flavor was over when it was requested, or a poll of it has said that it is. -/
def Completed (events : List (Event α)) (id : Nat) (flavor : Flavor) : Prop :=
  flavor = .settled ∨ ∃ outcome, .answered id (.ready outcome) ∈ events

def AllCompleted (events : List (Event α)) : Prop :=
  ∀ id flavor, .requested id flavor ∈ events → Completed events id flavor

/-- At each request all steps that were requested before had completed. -/
def InOrder (events : List (Event α)) : Prop :=
  ∀ later id flavor earlier, events = later ++ .requested id flavor :: earlier → AllCompleted earlier

/-- A request was made while an earlier yielding step had not completed. -/
def Overlap (events : List (Event α)) : Prop :=
  ∃ later id flavor earlier, events = later ++ .requested id flavor :: earlier ∧
    ∃ j, .requested j .yielding ∈ earlier ∧ ¬ Completed earlier j .yielding

/-- The last step that was requested has not completed. -/
def LastOpen (events : List (Event α)) : Prop :=
  ∃ later id flavor earlier, events = later ++ .requested id flavor :: earlier ∧
    (∀ j f, .requested j f ∉ later) ∧ ¬ Completed events id flavor

section Histories

variable {events : List (Event α)} {id j : Nat} {answer : Poll α} {outcome : Outcome α}

theorem mem_yielding_iff : id ∈ yielding events ↔ .requested id .yielding ∈ events := by
  rw [yielding, List.mem_filterMap]
  constructor
  · rintro ⟨event, hmem, hevent⟩
    cases event with
    | answered j answer => cases hevent
    | requested j flavor =>
      cases flavor with
      | settled => cases hevent
      | yielding => cases hevent; exact hmem
  · intro hmem
    exact ⟨_, hmem, rfl⟩

theorem any_resolves_iff :
    events.any (Event.resolves id) = true ↔ ∃ outcome, .answered id (.ready outcome) ∈ events := by
  rw [List.any_eq_true]
  constructor
  · rintro ⟨event, hmem, hevent⟩
    cases event with
    | requested j flavor => cases hevent
    | answered j answer =>
      cases answer with
      | ready outcome => exact ⟨outcome, eq_of_beq hevent ▸ hmem⟩
      | _ => cases hevent
  · rintro ⟨outcome, hmem⟩
    exact ⟨_, hmem, beq_self_eq_true id⟩

theorem mem_unfinished_iff :
    id ∈ unfinished events ↔ .requested id .yielding ∈ events ∧ ∀ outcome, .answered id (.ready outcome) ∉ events := by
  rw [unfinished, List.mem_filter, mem_yielding_iff, Bool.not_eq_true', Bool.eq_false_iff, ne_eq, any_resolves_iff,
    not_exists]

theorem requests_request (flavor : Flavor) :
    requests (.requested id flavor :: events) = requests events + 1 := List.countP_cons_of_pos rfl

theorem requests_answer : requests (.answered id answer :: events) = requests events :=
  List.countP_cons_of_neg Bool.false_ne_true

theorem unfinished_yielding (h : ∀ outcome, .answered id (.ready outcome) ∉ events) :
    unfinished (.requested id .yielding :: events) = id :: unfinished events := by
  have hnew : events.any (Event.resolves id) = false := by
    rw [Bool.eq_false_iff, ne_eq, any_resolves_iff, not_exists]
    exact h
  change List.filter (fun j => !events.any (Event.resolves j)) (id :: yielding events) = _
  rw [List.filter_cons_of_pos (by rw [hnew]; rfl), unfinished]

theorem unfinished_ready :
    unfinished (.answered id (.ready outcome) :: events) = (unfinished events).filter (· != id) := by
  rw [unfinished, unfinished, List.filter_filter]
  change (yielding events).filter _ = (yielding events).filter _
  refine List.filter_congr fun j _ => ?_
  rw [List.any_cons, Event.resolves, Bool.not_or, bne, BEq.comm]

theorem mem_unfinished_answer (hj : j ≠ id) :
    j ∈ unfinished (.answered id answer :: events) ↔ j ∈ unfinished events := by
  simp [mem_unfinished_iff, hj]

theorem unfinished_answer_sublist : (unfinished (.answered id answer :: events)).Sublist (unfinished events) := by
  cases answer with
  | ready outcome =>
    rw [unfinished_ready]
    exact List.filter_sublist
  | _ => exact List.Sublist.refl _

theorem unfinished_eq_nil_iff : unfinished events = [] ↔ AllCompleted events := by
  rw [List.eq_nil_iff_forall_not_mem]
  constructor
  · intro h id flavor hmem
    cases flavor with
    | settled => exact Or.inl rfl
    | yielding =>
      refine Or.inr (Classical.byContradiction fun hnone => ?_)
      exact h id (mem_unfinished_iff.2 ⟨hmem, not_exists.1 hnone⟩)
  · intro h id hid
    obtain ⟨hmem, hnone⟩ := mem_unfinished_iff.1 hid
    obtain hflavor | ⟨outcome, hanswer⟩ := h id .yielding hmem
    · cases hflavor
    · exact hnone outcome hanswer

theorem not_allCompleted_iff :
    ¬ AllCompleted events ↔ ∃ j, .requested j .yielding ∈ events ∧ ¬ Completed events j .yielding := by
  constructor
  · intro h
    rw [← unfinished_eq_nil_iff] at h
    obtain ⟨j, hj⟩ := List.exists_mem_of_ne_nil _ h
    obtain ⟨hmem, hnone⟩ := mem_unfinished_iff.1 hj
    refine ⟨j, hmem, ?_⟩
    rintro (hflavor | ⟨outcome, hanswer⟩)
    · cases hflavor
    · exact hnone outcome hanswer
  · rintro ⟨j, hmem, hopen⟩ h
    exact hopen (h j .yielding hmem)

theorem not_inOrder_iff : ¬ InOrder events ↔ Overlap events := by
  constructor
  · intro h
    refine Classical.byContradiction fun hnone => h fun later id flavor earlier he => ?_
    refine Classical.byContradiction fun hopen => hnone ⟨later, id, flavor, earlier, he, ?_⟩
    exact not_allCompleted_iff.1 hopen
  · rintro ⟨later, id, flavor, earlier, he, hopen⟩ h
    exact not_allCompleted_iff.2 hopen (h later id flavor earlier he)

theorem inOrder_nil : InOrder ([] : List (Event α)) := by
  intro later id flavor earlier h
  exact absurd h.symm (List.append_ne_nil_of_right_ne_nil _ (List.cons_ne_nil _ _))

theorem inOrder_request {flavor : Flavor} :
    InOrder (.requested id flavor :: events) ↔ InOrder events ∧ AllCompleted events := by
  constructor
  · intro h
    refine ⟨fun later j f earlier he => ?_, h [] id flavor events rfl⟩
    exact h (.requested id flavor :: later) j f earlier (by rw [he, List.cons_append])
  · rintro ⟨horder, hall⟩ later j f earlier he
    cases later with
    | nil => cases he; exact hall
    | cons event later => cases he; exact horder later j f earlier rfl

theorem inOrder_answer : InOrder (.answered id answer :: events) ↔ InOrder events := by
  constructor
  · intro h later j f earlier he
    exact h (.answered id answer :: later) j f earlier (by rw [he, List.cons_append])
  · intro horder later j f earlier he
    cases later with
    | nil => cases he
    | cons event later => cases he; exact horder later j f earlier rfl

theorem overlaps_eq_zero_iff : overlaps events = 0 ↔ InOrder events := by
  induction events with
  | nil => exact iff_of_true rfl inOrder_nil
  | cons event events ih =>
    cases event with
    | answered id answer => rw [overlaps, ih, inOrder_answer]
    | requested id flavor =>
      rw [inOrder_request, ← ih, ← unfinished_eq_nil_iff, ← List.length_eq_zero_iff, overlaps]
      split <;> omega

theorem exists_last_request {flavor : Flavor} (h : .requested id flavor ∈ events) :
    ∃ later j f earlier, events = later ++ .requested j f :: earlier ∧ ∀ i g, .requested i g ∉ later := by
  induction events with
  | nil => cases h
  | cons event events ih =>
    cases event with
    | requested j f => exact ⟨[], j, f, events, rfl, fun _ _ => List.not_mem_nil⟩
    | answered j answer =>
      obtain hhead | htail := List.mem_cons.1 h
      · cases hhead
      · obtain ⟨later, i, f, earlier, rfl, hnone⟩ := ih htail
        refine ⟨.answered j answer :: later, i, f, earlier, rfl, fun k g hmem => ?_⟩
        obtain hhead | hlater := List.mem_cons.1 hmem
        · cases hhead
        · exact hnone k g hlater

theorem Completed.mono {earlier : List (Event α)} {flavor : Flavor} (h : Completed earlier id flavor)
    (hsub : earlier ⊆ events) : Completed events id flavor := by
  obtain hflavor | ⟨outcome, hmem⟩ := h
  · exact Or.inl hflavor
  · exact Or.inr ⟨outcome, hsub hmem⟩

/-- While no request found an unfinished step, only the last step may be unfinished. -/
theorem InOrder.not_allCompleted_iff (h : InOrder events) : ¬ AllCompleted events ↔ LastOpen events := by
  constructor
  · intro hnot
    obtain ⟨j, hrequest, hopen⟩ := Meter.not_allCompleted_iff.1 hnot
    obtain ⟨later, id, flavor, earlier, he, hlater⟩ := exists_last_request hrequest
    refine ⟨later, id, flavor, earlier, he, hlater, ?_⟩
    have hearlier : AllCompleted earlier := h later id flavor earlier he
    rw [he] at hrequest
    obtain hmem | hmem := List.mem_append.1 hrequest
    · exact absurd hmem (hlater j .yielding)
    obtain hhead | hmem := List.mem_cons.1 hmem
    · cases hhead
      exact hopen
    · refine absurd ((hearlier j .yielding hmem).mono ?_) hopen
      rw [he]
      exact fun event hevent => List.mem_append_right _ (List.mem_cons_of_mem _ hevent)
  · rintro ⟨later, id, flavor, earlier, he, -, hopen⟩ hall
    refine hopen (hall id flavor ?_)
    rw [he]
    exact List.mem_append_right _ List.mem_cons_self

end Histories

/-! ## Uses -/

/-- A meter in use: the steps that are held, by number, and what happened to all that were requested. -/
structure InUse (α : Type) where
  meter : Meter := {}
  steps : Nat → Option (MeterStep α) := fun _ => none
  /-- The number of the next step. -/
  fresh : Nat := 0
  events : List (Event α) := []

/-- What can be done with a meter and its steps. -/
inductive Use (α : Type)
  | request (flavor : Flavor) (outcome : Outcome α)
  | poll (id : Nat)
  | drop (id : Nat)

namespace InUse

def hold (id : Nat) (step : Option (MeterStep α)) (u : InUse α) : InUse α :=
  { u with steps := fun j => if j = id then step else u.steps j }

def note (event : Event α) (u : InUse α) : InUse α := { u with events := event :: u.events }

def change (f : Meter → Meter) (u : InUse α) : InUse α := { u with meter := f u.meter }

def request (flavor : Flavor) (outcome : Outcome α) (u : InUse α) : InUse α :=
  let (step, meter) := u.meter.request flavor outcome
  { (u.hold u.fresh (some step)).note (.requested u.fresh flavor) with meter, fresh := u.fresh + 1 }

theorem hold_cases {u : InUse α} {id j : Nat} {x : Option (MeterStep α)} {step : MeterStep α}
    (h : (u.hold id x).steps j = some step) : j = id ∧ x = some step ∨ j ≠ id ∧ u.steps j = some step := by
  by_cases hj : j = id
  · exact Or.inl ⟨hj, by simpa only [hold, if_pos hj] using h⟩
  · exact Or.inr ⟨hj, by simpa only [hold, if_neg hj] using h⟩

theorem request_events (flavor : Flavor) (outcome : Outcome α) (u : InUse α) :
    (u.request flavor outcome).events = .requested u.fresh flavor :: u.events := rfl

end InUse

def use (wake : Effect W Unit) : Use α → Effect (W × InUse α) Unit
  | .request flavor outcome => Effect.changes fun w => (w.1, w.2.request flavor outcome)
  | .drop id => Effect.changes fun w => (w.1, w.2.hold id none)
  | .poll id => do
    match ← Effect.reads fun w => w.2.steps id with
    | none => pure ()
    | some step =>
      let (answer, step) ← step.poll (wake.within (InUse α)) fun f => Effect.changes fun w => (w.1, w.2.change f)
      Effect.changes fun w => (w.1, (w.2.hold id (some step)).note (.answered id answer))

def uses (wake : Effect W Unit) : List (Use α) → Effect (W × InUse α) Unit
  | [] => pure ()
  | u :: rest => do
    use wake u
    uses wake rest

/-! ## The counts tell the history -/

/-- What the history says of a step that is held. -/
def Stands (events : List (Event α)) (id : Nat) : MeterStep α → Prop
  | .resolved _ => id ∉ unfinished events
  | .fresh _ => id ∈ unfinished events
  | .yielded _ => id ∈ unfinished events
  | .spent => True

/-- What is known of a step stays known while no event touches it. -/
theorem Stands.of_iff {events events' : List (Event α)} {id : Nat} {step : MeterStep α} (h : Stands events id step)
    (hsame : id ∈ unfinished events' ↔ id ∈ unfinished events) : Stands events' id step := by
  cases step with
  | resolved step => exact fun hmem => h (hsame.1 hmem)
  | fresh outcome => exact hsame.2 h
  | yielded outcome => exact hsame.2 h
  | spent => trivial

/-- The counts are those of the history. -/
structure Counts (m : Meter) (events : List (Event α)) : Prop where
  requested : m.requested = requests events
  balanced : m.requested = m.finished + m.underWay
  underWay : m.underWay = (unfinished events).length
  overlapped : m.overlapped = overlaps events

namespace Counts

variable {m : Meter} {events : List (Event α)} {id : Nat} {answer : Poll α}

theorem enter_overlapped (h : Counts m events) (flavor : Flavor) :
    m.enter.overlapped = overlaps (.requested id flavor :: events) := by
  rw [overlaps, ← h.overlapped, ← h.underWay]
  simp only [enter]
  split <;> omega

theorem request (h : Counts m events) (flavor : Flavor) (outcome : Outcome α)
    (hnew : ∀ outcome, .answered id (.ready outcome) ∉ events) :
    Counts (m.request flavor outcome).2 (.requested id flavor :: events) := by
  have hrequests : m.requested + 1 = requests (.requested id flavor :: events) := by
    rw [requests_request, h.requested]
  have henter := finished_add_underWay_enter h.balanced.symm
  cases flavor with
  | settled =>
    have hfinish := finished_add_underWay_finish henter (Nat.succ_pos m.underWay)
    exact ⟨hrequests, hfinish.symm, h.underWay, h.enter_overlapped .settled⟩
  | yielding =>
    have hunder : m.underWay + 1 = (unfinished (.requested id .yielding :: events)).length := by
      rw [unfinished_yielding hnew, List.length_cons, h.underWay]
    exact ⟨hrequests, henter.symm, hunder, h.enter_overlapped .yielding⟩

/-- An answer after which the same steps are unfinished. -/
theorem answered (h : Counts m events)
    (hsame : unfinished (.answered id answer :: events) = unfinished events) :
    Counts m (.answered id answer :: events) where
  requested := h.requested.trans requests_answer.symm
  balanced := h.balanced
  underWay := h.underWay.trans (congrArg List.length hsame).symm
  overlapped := h.overlapped

/-- An answer after which there is one of them less. -/
theorem finished (h : Counts m events)
    (hless : (unfinished (.answered id answer :: events)).length + 1 = (unfinished events).length) :
    Counts m.finish (.answered id answer :: events) := by
  have hunder : m.underWay = (unfinished (.answered id answer :: events)).length + 1 := h.underWay.trans hless.symm
  have hfinish := finished_add_underWay_finish h.balanced.symm (by omega)
  exact ⟨h.requested.trans requests_answer.symm, hfinish.symm, Nat.sub_eq_of_eq_add hunder, h.overlapped⟩

end Counts

/-- The history knows all steps, and what became of those that are held. -/
structure Known (u : InUse α) : Prop where
  nodup : (unfinished u.events).Nodup
  before : ∀ event ∈ u.events, event.id < u.fresh
  heldBefore : ∀ id step, u.steps id = some step → id < u.fresh
  held : ∀ id step, u.steps id = some step → Stands u.events id step

namespace Known

variable {u : InUse α} {id : Nat}

theorem change (h : Known u) (f : Meter → Meter) : Known (u.change f) :=
  ⟨h.nodup, h.before, h.heldBefore, h.held⟩

theorem drop (h : Known u) (id : Nat) : Known (u.hold id none) := by
  have hsteps : ∀ j step, (u.hold id none).steps j = some step → u.steps j = some step := by
    intro j step hstep
    obtain ⟨-, hnone⟩ | ⟨-, hstep⟩ := InUse.hold_cases hstep
    · cases hnone
    · exact hstep
  exact ⟨h.nodup, h.before, fun j step hstep => h.heldBefore j step (hsteps j step hstep),
    fun j step hstep => h.held j step (hsteps j step hstep)⟩

theorem fresh_notMem (h : Known u) {event : Event α} (hevent : event.id = u.fresh) : event ∉ u.events := fun hmem =>
  Nat.lt_irrefl _ (hevent ▸ h.before event hmem)

theorem fresh_unanswered (h : Known u) (outcome : Outcome α) : .answered u.fresh (.ready outcome) ∉ u.events :=
  h.fresh_notMem rfl

/-- The new step is the last one, and for the others nothing changes. -/
theorem request (h : Known u) (flavor : Flavor) (outcome : Outcome α) : Known (u.request flavor outcome) := by
  have hnew : u.fresh ∉ unfinished u.events := fun hmem => h.fresh_notMem rfl (mem_unfinished_iff.1 hmem).1
  have hsteps : ∀ j step, (u.request flavor outcome).steps j = some step →
      j = u.fresh ∧ step = (u.meter.request flavor outcome).1 ∨ j ≠ u.fresh ∧ u.steps j = some step := by
    intro j step hstep
    obtain ⟨hj, hstep⟩ | hold := InUse.hold_cases hstep
    · cases hstep
      exact Or.inl ⟨hj, rfl⟩
    · exact Or.inr hold
  constructor
  · rw [InUse.request_events]
    cases flavor with
    | settled => exact h.nodup
    | yielding =>
      rw [unfinished_yielding h.fresh_unanswered]
      exact List.nodup_cons.2 ⟨hnew, h.nodup⟩
  · intro event hmem
    obtain rfl | hmem := List.mem_cons.1 hmem
    · exact Nat.lt_succ_self _
    · exact Nat.lt_succ_of_lt (h.before event hmem)
  · intro j step hstep
    obtain ⟨rfl, -⟩ | ⟨-, hstep⟩ := hsteps j step hstep
    · exact Nat.lt_succ_self _
    · exact Nat.lt_succ_of_lt (h.heldBefore j step hstep)
  · intro j step hstep
    rw [InUse.request_events]
    obtain ⟨rfl, rfl⟩ | ⟨hj, hstep⟩ := hsteps j step hstep
    · cases flavor with
      | settled => exact hnew
      | yielding =>
        change u.fresh ∈ unfinished (.requested u.fresh .yielding :: u.events)
        rw [unfinished_yielding h.fresh_unanswered]
        exact List.mem_cons_self
    · refine (h.held j step hstep).of_iff ?_
      cases flavor with
      | settled => rfl
      | yielding => rw [unfinished_yielding h.fresh_unanswered, List.mem_cons, or_iff_right hj]

/-- A poll concerns the step that is polled. -/
theorem answered (h : Known u) {step step' : MeterStep α} {answer : Poll α} (hstep : u.steps id = some step)
    (hstands : Stands (.answered id answer :: u.events) id step') :
    Known ((u.hold id (some step')).note (.answered id answer)) where
  nodup := h.nodup.sublist unfinished_answer_sublist
  before event hmem := by
    obtain rfl | hmem := List.mem_cons.1 hmem
    · exact h.heldBefore id step hstep
    · exact h.before event hmem
  heldBefore j x hx := by
    obtain ⟨rfl, -⟩ | ⟨-, hx⟩ := InUse.hold_cases hx
    · exact h.heldBefore _ step hstep
    · exact h.heldBefore j x hx
  held j x hx := by
    obtain ⟨rfl, hnew⟩ | ⟨hj, hold⟩ := InUse.hold_cases (u := u) (x := some step') hx
    · cases hnew
      exact hstands
    · exact (h.held j x hold).of_iff (mem_unfinished_answer hj)

end Known

/-- What holds between two uses of a meter. -/
structure Tallied (u : InUse α) : Prop where
  counts : Counts u.meter u.events
  known : Known u

namespace Tallied

variable {u : InUse α} {id : Nat} {outcome : Outcome α}

theorem unused : Tallied ({} : InUse α) where
  counts := ⟨rfl, rfl, rfl, rfl⟩
  known := ⟨List.nodup_nil, nofun, nofun, nofun⟩

/-- There is one to take off where a step ends. -/
theorem underWay_pos (h : Tallied u) (hstep : u.steps id = some (.yielded outcome)) : 0 < u.meter.underWay := by
  rw [h.counts.underWay]
  exact List.length_pos_of_mem (h.known.held id _ hstep)

/-- The poll that ends an unfinished step. -/
theorem finished (h : Tallied u) (hstep : u.steps id = some (.yielded outcome)) :
    Tallied (((u.change Meter.finish).hold id (some .spent)).note (.answered id (.ready outcome))) where
  counts := by
    refine h.counts.finished ?_
    rw [unfinished_ready, ← h.known.nodup.erase_eq_filter]
    have hmem : id ∈ unfinished u.events := h.known.held id _ hstep
    have hpos := List.length_pos_of_mem hmem
    rw [List.length_erase_of_mem hmem]
    omega
  known := (h.known.change Meter.finish).answered hstep trivial

end Tallied

theorem use_tallied (wake : Effect W Unit) (a : Use α) (w : W) {u : InUse α} (h : Tallied u) :
    (use wake a (w, u)).Ensures (fun w => Tallied w.2) fun _ w => Tallied w.2 := by
  cases a with
  | request flavor outcome =>
    exact ⟨h.counts.request flavor outcome h.known.fresh_unanswered, h.known.request flavor outcome⟩
  | drop id => exact ⟨h.counts, h.known.drop id⟩
  | poll id =>
    rw [use, Effect.bind_apply]
    simp only [Effect.reads]
    cases hstep : u.steps id with
    | none => exact h
    | some step =>
      have hheld := h.known.held id step hstep
      cases step with
      | resolved step =>
        cases step with
        | holding outcome =>
          have hsame : unfinished (.answered id (.ready outcome) :: u.events) = unfinished u.events := by
            rw [unfinished_ready, List.filter_eq_self]
            exact fun j hj => bne_iff_ne.2 (ne_of_mem_of_not_mem hj hheld)
          refine ⟨h.counts.answered hsame, h.known.answered hstep ?_⟩
          change id ∉ unfinished (.answered id (.ready outcome) :: u.events)
          rw [hsame]
          exact hheld
        | taken => exact ⟨h.counts.answered rfl, h.known.answered hstep hheld⟩
      | fresh outcome =>
        -- whatever becomes of the wake-up, it does not touch the meter
        have hwake : ((wake.within (InUse α)) (w, u)).Ensures (fun w => Tallied w.2) fun _ w => w.2 = u := by
          refine (Ending.Ensures.within wake w u).mono ?_ fun _ _ hu => hu
          rintro ⟨w, _⟩ rfl
          exact h
        refine Ending.Ensures.bind (Q := fun r w => r = (.pending, .yielded outcome) ∧ w.2 = u)
          (hwake.bind fun _ _ hu => ⟨rfl, hu⟩) ?_
        rintro _ ⟨w, _⟩ ⟨rfl, rfl⟩
        exact ⟨h.counts.answered rfl, h.known.answered hstep hheld⟩
      | yielded outcome => exact h.finished hstep
      | spent => exact ⟨h.counts.answered rfl, h.known.answered hstep trivial⟩

/-- What holds between two uses holds after all of them. -/
theorem uses_tallied (wake : Effect W Unit) (actions : List (Use α)) (w : W) {u : InUse α} (h : Tallied u) :
    (uses wake actions (w, u)).Ensures (fun w => Tallied w.2) fun _ w => Tallied w.2 := by
  induction actions generalizing w u with
  | nil => exact h
  | cons a rest ih => exact (use_tallied wake a w h).bind fun _ w hw => ih w.1 hw

/-! ## What the meter says -/

theorem verdict_eq_overlapping_iff (m : Meter) : m.verdict = .overlapping ↔ m.overlapped ≠ 0 := by
  unfold verdict
  by_cases ho : m.overlapped = 0 <;> by_cases hu : m.underWay = 0 <;> simp [ho, hu]

theorem verdict_eq_running_iff (m : Meter) : m.verdict = .running ↔ m.overlapped = 0 ∧ m.underWay ≠ 0 := by
  unfold verdict
  by_cases ho : m.overlapped = 0 <;> by_cases hu : m.underWay = 0 <;> simp [ho, hu]

/-- The counts are those of the history, and so is the verdict. -/
structure Exact (u : InUse α) : Prop extends Counts u.meter u.events where
  /-- There is one to take off where the next poll of a step takes one off. -/
  positive : ∀ id outcome, u.steps id = some (.yielded outcome) → 0 < u.meter.underWay
  sequential : u.meter.verdict = .sequential ↔ InOrder u.events ∧ AllCompleted u.events
  overlapping : u.meter.verdict = .overlapping ↔ Overlap u.events
  running : u.meter.verdict = .running ↔ ¬ Overlap u.events ∧ LastOpen u.events

theorem Tallied.exact {u : InUse α} (h : Tallied u) : Exact u := by
  have horder : u.meter.overlapped = 0 ↔ InOrder u.events := by rw [h.counts.overlapped, overlaps_eq_zero_iff]
  have hall : u.meter.underWay = 0 ↔ AllCompleted u.events := by
    rw [h.counts.underWay, List.length_eq_zero_iff, unfinished_eq_nil_iff]
  refine ⟨h.counts, fun id outcome hstep => h.underWay_pos hstep, ?_, ?_, ?_⟩
  · rw [verdict_eq_sequential_iff, horder, hall]
  · rw [verdict_eq_overlapping_iff, ne_eq, horder, not_inOrder_iff]
  · rw [verdict_eq_running_iff, ne_eq, horder, hall, ← not_inOrder_iff, Classical.not_not]
    exact and_congr_right InOrder.not_allCompleted_iff

/-- However a meter and its steps are used, the meter counts what happened to the steps. -/
theorem uses_exact (wake : Effect W Unit) (actions : List (Use α)) (w : W) :
    (uses wake actions (w, {})).Ensures (fun w => Exact w.2) fun _ w => Exact w.2 :=
  (uses_tallied wake actions w Tallied.unused).mono (fun _ h => h.exact) fun _ _ h => h.exact

end Stepwise.Meter
