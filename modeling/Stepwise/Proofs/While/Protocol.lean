import Stepwise.Proofs.Ensures
import Stepwise.Proofs.While.Direct

/-! # The protocol of a driven loop

A driven loop is polled and asked whether it has resolved, any number of times and in any order,
while anything may happen to the world in between. A `Journal` beside the world records what
becomes of its steps; steps are numbered in the order in which they are requested.

* `StepEvent.Follows` says when a step may be requested, polled and may answer, given all that
  happened to steps before. `Round.Follows` says which events a whole poll has and what it answers,
  and what a loop says of itself, given all rounds before.
* `Midway` is the invariant between two steps of one poll. `cur` is the step under way that this
  poll has not polled yet: every other step that was requested has resolved to `true`.
* `Settled` is the invariant between two rounds; it ties the two fields of the loop to the journal.
* `direct_stops`: a poll does not return only where a step does not, or where its fuel was spent on steps that
  resolved to `true`.
* `acts_lawful`: the journal of every run is lawful, also where a request or a poll of a step breaks
  down or the fuel gives out in the middle of a poll.
-/

namespace Stepwise.While
set_option autoImplicit false

/-! ## Journals -/

/-- What happens to the steps of a loop while it is polled. -/
inductive StepEvent
  | request (id : Nat)
  | poll (id : Nat)
  | reply (id : Nat) (answer : Poll Bool)

/-- One action on a loop, with what came of it. -/
inductive Round
  /-- A poll with the events in it, the latest first. -/
  | polled (events : List StepEvent) (answer : Poll Unit)
  /-- The loop was asked whether it has resolved; `held` is the step that it holds. -/
  | asked (ended : Bool) (held : Option Nat)

/-- All rounds so far and the events of the poll that is going on, the latest first. -/
structure Journal where
  rounds : List Round := []
  events : List StepEvent := []
  fresh : Nat := 0

def Round.events : Round → List StepEvent
  | .polled events _ => events
  | .asked _ _ => []

/-- What happened to steps in some rounds. -/
def past (rounds : List Round) : List StepEvent := rounds.flatMap Round.events

def StepEvent.isPoll (id : Nat) : StepEvent → Bool
  | .poll j => j == id
  | _ => false

/-- How often the step was polled. -/
def polls (events : List StepEvent) (id : Nat) : Nat := events.countP (StepEvent.isPoll id)

/-- The step was requested and has not resolved: it is held. -/
def Held (events : List StepEvent) (id : Nat) : Prop :=
  .request id ∈ events ∧ ∀ o, .reply id (.ready o) ∉ events

def Resolved (events : List StepEvent) (id : Nat) : Prop := ∃ o, .reply id (.ready o) ∈ events

/-- Some poll of the loop said that it has resolved. -/
def Over (rounds : List Round) : Prop := ∃ events o, .polled events (.ready o) ∈ rounds

/-! ## The protocol -/

/-- A step is requested only when no step is held and all earlier ones resolved to `true`; a step is
polled only while it is held; and it answers when it was polled. -/
def StepEvent.Follows (earlier : List StepEvent) : StepEvent → Prop
  | .request id => .request id ∉ earlier ∧ (∀ j, ¬ Held earlier j) ∧
      ∀ j, .request j ∈ earlier → .reply j (.ready (.ok true)) ∈ earlier
  | .poll id => Held earlier id
  | .reply id _ => earlier.head? = some (.poll id)

def Orderly : List StepEvent → Prop
  | [] => True
  | e :: earlier => e.Follows earlier ∧ Orderly earlier

/-- Each step that had not resolved before the poll, those that the poll requested included, is
polled exactly once in it, and no other step is. -/
def PollsEachOnce (earlier events : List StepEvent) : Prop :=
  ∀ id, .request id ∈ events ++ earlier →
    (Resolved earlier id → polls events id = 0) ∧
    (¬ Resolved earlier id → polls events id = 1)

/-- The poll answers what the last step that was polled in it decides. -/
def AnswersLast (events : List StepEvent) (answer : Poll Unit) : Prop :=
  ∃ id last rest, events = .reply id last :: rest ∧
    (answer = .ready (.ok ()) ↔ last = .ready (.ok false)) ∧
    (∀ e, answer = .ready (.error e) ↔ last = .ready (.error e)) ∧
    (answer = .pending ↔ last = .pending) ∧
    (∀ c, answer = .panicked c ↔ last = .panicked c)

/-- A poll of a loop that has resolved does nothing and is refused; any other one polls each step it
holds once and answers what the last one decides. A loop says that it is over exactly if a poll
said so before, and holds the step that is held according to the events. -/
def Round.Follows (earlier : List Round) : Round → Prop
  | .polled events answer =>
      (Over earlier → events = [] ∧ answer = .panicked .loopFinished) ∧
      (¬ Over earlier → PollsEachOnce (past earlier) events ∧ AnswersLast events answer)
  | .asked ended held => (ended = true ↔ Over earlier) ∧ (ended = true → held = none) ∧
      ∀ id, held = some id ↔ Held (past earlier) id

def Lawful : List Round → Prop
  | [] => True
  | r :: earlier => r.Follows earlier ∧ Lawful earlier

/-- The rounds are lawful, the events are orderly, and the poll that is going on has polled no step
twice and, on a loop that has resolved, done nothing. -/
structure Journal.Lawful (j : Journal) : Prop where
  rounds : While.Lawful j.rounds
  events : Orderly (j.events ++ past j.rounds)
  once : ∀ id, polls j.events id ≤ 1
  silent : Over j.rounds → j.events = []

/-! ## Recorded runs -/

namespace Journal

def log (e : StepEvent) (j : Journal) : Journal := { j with events := e :: j.events }

def request (j : Journal) : Journal := { j.log (.request j.fresh) with fresh := j.fresh + 1 }

def close (r : Round) (j : Journal) : Journal := { j with rounds := r :: j.rounds, events := [] }

end Journal

variable {W S F : Type}

def journal (f : Journal → Journal) : Effect (W × Journal) Unit :=
  Effect.changes fun ws => (ws.1, f ws.2)

/-- The same steps, numbered, with a journal of what becomes of them. -/
def recorded (b : Stepper W S F) : Stepper (W × Journal) S (Nat × F) where
  request s := do
    let id ← Effect.reads fun ws => ws.2.fresh
    journal Journal.request
    let (x, s) ← (b.request s).within Journal
    pure ((id, x), s)
  poll x := do
    journal (Journal.log (.poll x.1))
    let (answer, y) ← (b.poll x.2).within Journal
    journal (Journal.log (.reply x.1 answer))
    pure (answer, (x.1, y))

/-- What can be done with a loop and its world. -/
inductive Action (W : Type)
  | poll (fuel : Nat)
  | ask
  /-- Something else happens in the world. -/
  | meanwhile (m : Effect W Unit)

def act (b : Stepper W S F) (l : While S (Nat × F)) :
    Action W → Effect (W × Journal) (While S (Nat × F))
  | .poll fuel => do
    let (answer, l) ← poll (recorded b) fuel l
    journal fun j => j.close (.polled j.events answer)
    pure l
  | .ask => do
    journal (Journal.close (.asked l.isOver (l.current.map (·.1))))
    pure l
  | .meanwhile m => do
    m.within Journal
    pure l

def acts (b : Stepper W S F) : List (Action W) → While S (Nat × F) →
    Effect (W × Journal) (While S (Nat × F))
  | [], l => pure l
  | action :: rest, l => do
    let l ← l.act b action
    acts b rest l

/-! ## Between two steps of a poll -/

/-- The poll that is going on is between two steps. The step `cur` is under way and has not been
polled in this poll; all other steps have resolved to `true`. -/
structure Midway (rounds : List Round) (events : List StepEvent) (fresh : Nat)
    (cur : Option Nat) : Prop where
  orderly : Orderly (events ++ past rounds)
  fresh : ∀ id, .request id ∈ events ++ past rounds → id < fresh
  held : ∀ id, cur = some id → Held (events ++ past rounds) id
  others : ∀ id, .request id ∈ events ++ past rounds →
    cur = some id ∨ .reply id (.ready (.ok true)) ∈ events ++ past rounds
  idle : ∀ id, Resolved (past rounds) id ∨ cur = some id → polls events id = 0
  polled : ∀ id, .request id ∈ events ++ past rounds → ¬ Resolved (past rounds) id →
    cur ≠ some id → polls events id = 1
  once : ∀ id, polls events id ≤ 1

section Midway

variable {rounds : List Round} {events : List StepEvent} {fresh id : Nat}

theorem Held.not_resolved {es : List StepEvent} (h : Held es id) : ¬ Resolved es id :=
  fun ⟨o, ho⟩ => h.2 o ho

theorem Resolved.mono {es es' : List StepEvent} (h : Resolved es id) (hsub : es ⊆ es') :
    Resolved es' id := by
  obtain ⟨o, ho⟩ := h
  exact ⟨o, hsub ho⟩

theorem Held.not_resolved_past (h : Held (events ++ past rounds) id) :
    ¬ Resolved (past rounds) id :=
  fun hr => h.not_resolved (hr.mono (List.subset_append_right _ _))

@[simp] theorem polls_nil (id : Nat) : polls [] id = 0 := rfl

@[simp] theorem polls_request (es : List StepEvent) (j id : Nat) :
    polls (.request j :: es) id = polls es id := by
  simp [polls, StepEvent.isPoll]

@[simp] theorem polls_reply (es : List StepEvent) (j : Nat) (answer : Poll Bool) (id : Nat) :
    polls (.reply j answer :: es) id = polls es id := by
  simp [polls, StepEvent.isPoll]

@[simp] theorem polls_poll (es : List StepEvent) (j id : Nat) :
    polls (.poll j :: es) id = polls es id + if j = id then 1 else 0 := by
  simp [polls, StepEvent.isPoll, List.countP_cons]

theorem Orderly.requested {es : List StepEvent} (h : Orderly es) :
    (.poll id ∈ es → .request id ∈ es) ∧ ∀ a, .reply id a ∈ es → .request id ∈ es := by
  induction es with
  | nil => simp
  | cons e es ih =>
    obtain ⟨hpoll, hreply⟩ := ih h.2
    refine ⟨fun hmem => ?_, fun a hmem => ?_⟩
    · rcases List.mem_cons.mp hmem with rfl | hmem
      · exact List.mem_cons_of_mem _ h.1.1
      · exact List.mem_cons_of_mem _ (hpoll hmem)
    · rcases List.mem_cons.mp hmem with rfl | hmem
      · exact List.mem_cons_of_mem _ (hpoll (List.mem_of_head? h.1))
      · exact List.mem_cons_of_mem _ (hreply a hmem)

theorem polls_eq_zero {es : List StepEvent} (h : .poll id ∉ es) : polls es id = 0 := by
  rw [polls, List.countP_eq_zero]
  intro e he
  cases e with
  | poll j =>
    have hne : j ≠ id := by rintro rfl; exact h he
    simpa [StepEvent.isPoll] using hne
  | request j => simp [StepEvent.isPoll]
  | reply j a => simp [StepEvent.isPoll]

/-- A new step is requested when no step is under way. -/
theorem Midway.request (h : Midway rounds events fresh none) :
    Midway rounds (.request fresh :: events) (fresh + 1) (some fresh) := by
  have hnew : .request fresh ∉ events ++ past rounds :=
    fun hmem => absurd (h.fresh fresh hmem) (Nat.lt_irrefl fresh)
  have htrue : ∀ j, .request j ∈ events ++ past rounds →
      .reply j (.ready (.ok true)) ∈ events ++ past rounds :=
    fun j hj => (h.others j hj).resolve_left (by simp)
  have hreplied : ∀ a, .reply fresh a ∉ events ++ past rounds :=
    fun a ha => hnew (h.orderly.requested.2 a ha)
  have hpolled : polls events fresh = 0 :=
    polls_eq_zero fun hmem =>
      hnew (h.orderly.requested.1 (List.mem_append_left _ hmem))
  constructor
  · refine ⟨⟨hnew, fun j hj => hj.2 _ (htrue j hj.1), htrue⟩, h.orderly⟩
  · intro id hid
    rcases List.mem_cons.mp hid with hid | hid
    · cases hid; omega
    · have := h.fresh id hid
      omega
  · rintro id ⟨⟩
    refine ⟨List.mem_cons_self, fun o ho => ?_⟩
    rcases List.mem_cons.mp ho with ho | ho
    · cases ho
    · exact hreplied _ ho
  · intro id hid
    rcases List.mem_cons.mp hid with hid | hid
    · cases hid; exact .inl rfl
    · exact .inr (List.mem_cons_of_mem _ (htrue id hid))
  · rintro id (hid | hid)
    · rw [polls_request]; exact h.idle id (.inl hid)
    · cases hid; rw [polls_request]; exact hpolled
  · intro id hid hres hcur
    rw [polls_request]
    rcases List.mem_cons.mp hid with hid | hid
    · cases hid; exact absurd rfl hcur
    · exact h.polled id hid hres (by simp)
  · intro id
    rw [polls_request]
    exact h.once id

/-- The step under way is polled and resolves to `true`, which makes room for the next one. -/
theorem Midway.proceed (h : Midway rounds events fresh (some id)) :
    Midway rounds (.reply id (.ready (.ok true)) :: .poll id :: events) fresh none := by
  have hheld := h.held id rfl
  constructor
  · exact ⟨rfl, hheld, h.orderly⟩
  · intro j hj
    exact h.fresh j (by simpa using hj)
  · rintro j ⟨⟩
  · intro j hj
    have hj' : .request j ∈ events ++ past rounds := by simpa using hj
    rcases h.others j hj' with hcur | htrue
    · cases hcur; exact .inr (by simp)
    · exact .inr (List.mem_cons_of_mem _ (List.mem_cons_of_mem _ htrue))
  · rintro j (hj | hj)
    · have hne : id ≠ j := by rintro rfl; exact hheld.not_resolved_past hj
      simpa [hne] using h.idle j (.inl hj)
    · cases hj
  · intro j hj hres _
    have hj' : .request j ∈ events ++ past rounds := by simpa using hj
    by_cases hne : id = j
    · subst hne
      simpa using h.idle id (.inr rfl)
    · simpa [hne] using h.polled j hj' hres (by simpa using hne)
  · intro j
    by_cases hne : id = j
    · subst hne
      simp [h.idle id (.inr rfl)]
    · simpa [hne] using h.once j

/-! ## The end of a poll -/

variable {last : Poll Bool}

theorem answersLast_map (hlast : last ≠ .ready (.ok true)) (rest : List StepEvent) :
    AnswersLast (.reply id last :: rest) (last.map fun _ => ()) := by
  refine ⟨id, last, rest, rfl, ?_⟩
  cases last with
  | pending => simp [Poll.map]
  | panicked c => simp [Poll.map]
  | ready o =>
    cases o with
    | error e => simp [Poll.map]
    | ok more =>
      cases more with
      | false => simp [Poll.map]
      | true => exact absurd rfl hlast

theorem Midway.orderly_end (h : Midway rounds events fresh (some id)) :
    Orderly (.reply id last :: .poll id :: events ++ past rounds) :=
  ⟨rfl, h.held id rfl, h.orderly⟩

theorem Midway.pollsEachOnce_end (h : Midway rounds events fresh (some id)) :
    PollsEachOnce (past rounds) (.reply id last :: .poll id :: events) := by
  intro j hj
  have hj' : .request j ∈ events ++ past rounds := by simpa using hj
  refine ⟨fun hres => ?_, fun hres => ?_⟩
  · have hne : id ≠ j := by rintro rfl; exact (h.held id rfl).not_resolved_past hres
    simpa [hne] using h.idle j (.inl hres)
  · by_cases hne : id = j
    · subst hne
      simpa using h.idle id (.inr rfl)
    · simpa [hne] using h.polled j hj' hres (by simpa using hne)

theorem Midway.once_end (h : Midway rounds events fresh (some id)) (j : Nat) :
    polls (.poll id :: events) j ≤ 1 := by
  by_cases hne : id = j
  · subst hne
    simp [h.idle id (.inr rfl)]
  · simpa [hne] using h.once j

theorem Midway.lawful_end (h : Midway rounds events fresh (some id)) (hover : ¬ Over rounds)
    (hrounds : Lawful rounds) (hlast : last ≠ .ready (.ok true)) :
    Lawful (.polled (.reply id last :: .poll id :: events) (last.map fun _ => ()) :: rounds) :=
  ⟨⟨fun ho => absurd ho hover, fun _ => ⟨h.pollsEachOnce_end, answersLast_map hlast _⟩⟩, hrounds⟩

/-- A step that has not resolved stays under way in the next poll. -/
theorem Midway.stays (h : Midway rounds events fresh (some id))
    (hlast : ∀ o, last ≠ .ready o) (answer : Poll Unit) :
    Midway (.polled (.reply id last :: .poll id :: events) answer :: rounds) [] fresh (some id) := by
  have hheld := h.held id rfl
  constructor
  · exact h.orderly_end
  · intro j hj
    exact h.fresh j (by simpa [past, Round.events] using hj)
  · rintro j ⟨⟩
    refine ⟨by simpa [past, Round.events] using hheld.1, fun o ho => ?_⟩
    have ho' : last = .ready o ∨ .reply id (.ready o) ∈ events ++ past rounds := by
      simpa [past, Round.events, eq_comm] using ho
    exact ho'.elim (hlast o) (hheld.2 o)
  · intro j hj
    have hj' : .request j ∈ events ++ past rounds := by simpa [past, Round.events] using hj
    rcases h.others j hj' with hcur | htrue
    · exact .inl hcur
    · exact .inr (List.mem_cons_of_mem _ (List.mem_cons_of_mem _ htrue))
  · intro j _
    rfl
  · intro j hj hres hcur
    have hj' : .request j ∈ events ++ past rounds := by simpa [past, Round.events] using hj
    have htrue := (h.others j hj').resolve_left hcur
    exact absurd ⟨_, List.mem_cons_of_mem _ (List.mem_cons_of_mem _ htrue)⟩ hres
  · intro j
    exact Nat.zero_le 1

theorem Midway.none_held (h : Midway rounds events fresh (some id)) (o : Outcome Bool) (j : Nat) :
    ¬ Held (.reply id (.ready o) :: .poll id :: events ++ past rounds) j := by
  intro hj
  have hj' : .request j ∈ events ++ past rounds := by simpa using hj.1
  rcases h.others j hj' with hcur | htrue
  · cases hcur; exact hj.2 o (by simp)
  · exact hj.2 _ (List.mem_cons_of_mem _ (List.mem_cons_of_mem _ htrue))

end Midway

/-! ## Between two rounds -/

/-- No poll is going on. A loop that has finished said so in some round and holds no step; any other
loop holds the step that the events say, if any. -/
structure Settled (l : While S (Nat × F)) (j : Journal) : Prop where
  events : j.events = []
  lawful : Lawful j.rounds
  orderly : Orderly (past j.rounds)
  finished : l.finished = true →
    Over j.rounds ∧ l.current = none ∧ ∀ id, ¬ Held (past j.rounds) id
  running : l.finished = false →
    ¬ Over j.rounds ∧ Midway j.rounds [] j.fresh (l.current.map (·.1))

theorem request_ensures (b : Stepper W S F) (s : S) (w : W) (j : Journal) :
    ((recorded b).request s (w, j)).Ensures (fun ws => (b.request s).StopsIn ws.1 ∧ ws.2 = j.request)
      fun r ws => ws.2 = j.request ∧ r.1.1 = j.fresh := by
  refine (Ending.Ensures.within_stops (b.request s) w j.request).bind (k := fun r =>
    pure ((j.fresh, r.1), r.2)) ?_
  intro r ws hws
  exact ⟨hws, rfl⟩

theorem poll_ensures (b : Stepper W S F) (x : Nat × F) (w : W) (j : Journal) :
    ((recorded b).poll x (w, j)).Ensures (fun ws => (b.poll x.2).StopsIn ws.1 ∧ ws.2 = j.log (.poll x.1))
      fun r ws => ws.2 = (j.log (.poll x.1)).log (.reply x.1 r.1) ∧ r.2.1 = x.1 := by
  refine (Ending.Ensures.within_stops (b.poll x.2) w (j.log (.poll x.1))).bind (k := fun r => do
    journal (Journal.log (.reply x.1 r.1))
    pure (r.1, (x.1, r.2))) ?_
  rintro r ⟨w, j⟩ rfl
  exact ⟨rfl, rfl⟩

theorem Midway.lawful {j : Journal} {cur : Option Nat}
    (h : Midway j.rounds j.events j.fresh cur) (hover : ¬ Over j.rounds)
    (hrounds : Lawful j.rounds) : j.Lawful :=
  ⟨hrounds, h.orderly, h.once, fun ho => absurd ho hover⟩

theorem Midway.lawful_poll {j : Journal} {id : Nat}
    (h : Midway j.rounds j.events j.fresh (some id)) (hover : ¬ Over j.rounds)
    (hrounds : Lawful j.rounds) : (j.log (.poll id)).Lawful :=
  ⟨hrounds, ⟨h.held id rfl, h.orderly⟩, h.once_end, fun ho => absurd ho hover⟩

/-- Where a poll leaves a step that has not resolved. -/
theorem Midway.settled_waiting {j : Journal} {x y : Nat × F} {last : Poll Bool} (step : S)
    (h : Midway j.rounds j.events j.fresh (some x.1)) (hover : ¬ Over j.rounds)
    (hrounds : Lawful j.rounds) (hy : y.1 = x.1) (hlast : ∀ o, last ≠ .ready o) :
    Settled { step, current := some y }
      (((j.log (.poll x.1)).log (.reply x.1 last)).close
        (.polled (.reply x.1 last :: .poll x.1 :: j.events) (last.map fun _ => ()))) where
  events := rfl
  lawful := h.lawful_end hover hrounds (hlast _)
  orderly := h.orderly_end
  finished hfin := by cases hfin
  running _ := by
    refine ⟨?_, by rw [Option.map_some, hy]; exact h.stays hlast _⟩
    rintro ⟨events, o, hmem⟩
    rcases List.mem_cons.mp hmem with hmem | hmem
    · cases last with
      | ready o' => exact hlast o' rfl
      | pending => cases hmem
      | panicked c => cases hmem
    · exact hover ⟨events, o, hmem⟩

/-- Where a poll leaves a loop whose last step resolved to anything but `true`. -/
theorem Midway.settled_finished {j : Journal} {x : Nat × F} {o : Outcome Bool} (step : S)
    (h : Midway j.rounds j.events j.fresh (some x.1)) (hover : ¬ Over j.rounds)
    (hrounds : Lawful j.rounds) (ho : o ≠ .ok true) :
    Settled { step, current := (none : Option (Nat × F)), finished := true }
      (((j.log (.poll x.1)).log (.reply x.1 (.ready o))).close
        (.polled (.reply x.1 (.ready o) :: .poll x.1 :: j.events)
          ((Poll.ready o).map fun _ => ()))) where
  events := rfl
  lawful := h.lawful_end hover hrounds (by simpa using ho)
  orderly := h.orderly_end
  finished _ := by
    refine ⟨?_, rfl, h.none_held o⟩
    cases o with
    | error e => exact ⟨_, _, List.mem_cons_self⟩
    | ok more => exact ⟨_, _, List.mem_cons_self⟩
  running hfin := by cases hfin

/-- A poll keeps to the protocol. The induction is on the fuel; `Midway` carries it from one step to
the next. -/
theorem direct_ensures (b : Stepper W S F) (fuel : Nat) (step : S) (current : Option (Nat × F))
    (w : W) (j : Journal) (hover : ¬ Over j.rounds) (hrounds : Lawful j.rounds)
    (h : Midway j.rounds j.events j.fresh (current.map (·.1))) :
    (direct (recorded b) fuel { step, current } (w, j)).Ensures (fun ws => ws.2.Lawful)
      fun r ws => Settled r.2 (ws.2.close (.polled ws.2.events r.1)) := by
  induction fuel using Nat.strongRecOn generalizing step current w j with
  | ind fuel ih =>
    rw [direct]
    refine Ending.Ensures.bind (Q := fun (r : (Nat × F) × S) (ws : W × Journal) =>
      ws.2.rounds = j.rounds ∧ Midway ws.2.rounds ws.2.events ws.2.fresh (some r.1.1)) ?_ ?_
    · cases current with
      | some x => exact ⟨rfl, h⟩
      | none =>
        refine (request_ensures b step w j).mono ?_ ?_
        · rintro ws ⟨-, hj⟩
          rw [hj]
          exact h.request.lawful hover hrounds
        · rintro r ws ⟨hj, hid⟩
          rw [hj, hid]
          exact ⟨rfl, h.request⟩
    · rintro ⟨x, step⟩ ⟨w, j'⟩ ⟨hj, hx⟩
      rw [← hj] at hover hrounds
      refine Ending.Ensures.bind ((poll_ensures b x w j').mono ?_ fun _ _ hr => hr) ?_
      · rintro ws ⟨-, hj⟩
        rw [hj]
        exact hx.lawful_poll hover hrounds
      · rintro ⟨answer, y⟩ ⟨w, j''⟩ ⟨hj'', hy⟩
        subst hj''
        cases answer with
        | pending => exact hx.settled_waiting step hover hrounds hy (by simp)
        | panicked c => exact hx.settled_waiting step hover hrounds hy (by simp)
        | ready o =>
          cases o with
          | error e => exact hx.settled_finished step hover hrounds (by simp)
          | ok more =>
            cases more with
            | false => exact hx.settled_finished step hover hrounds (by simp)
            | true =>
              -- the only way to a further step, for which there may be no fuel left
              cases fuel with
              | zero => exact hx.proceed.lawful hover hrounds
              | succ fuel => exact ih fuel (Nat.lt_succ_self fuel) step none w _ hover hrounds hx.proceed

/-! ## Runs -/

theorem Settled.lawful_journal {l : While S (Nat × F)} {j : Journal} (h : Settled l j) :
    j.Lawful := by
  refine ⟨h.lawful, ?_, ?_, fun _ => h.events⟩
  · rw [h.events]; exact h.orderly
  · intro id; rw [h.events]; exact Nat.zero_le 1

theorem settled_start (s : S) : Settled ({ step := s } : While S (Nat × F)) {} where
  events := rfl
  lawful := trivial
  orderly := trivial
  finished hfin := by cases hfin
  running _ := by
    refine ⟨by simp [Over], ?_⟩
    constructor <;> simp [past, Orderly, Resolved]

theorem poll_recorded_ensures (b : Stepper W S F) (fuel : Nat) (l : While S (Nat × F)) (w : W)
    (j : Journal) (h : Settled l j) :
    (poll (recorded b) fuel l (w, j)).Ensures (fun ws => ws.2.Lawful)
      fun r ws => Settled r.2 (ws.2.close (.polled ws.2.events r.1)) := by
  obtain ⟨step, current, finished⟩ := l
  cases finished with
  | false =>
    obtain ⟨hover, hmid⟩ := h.running rfl
    have hpoll : poll (recorded b) fuel { step, current } =
        (run (recorded b) fuel).owning { step, current } := rfl
    rw [hpoll, run_owning_eq_direct]
    refine direct_ensures b fuel step current w j hover h.lawful ?_
    rw [h.events]
    exact hmid
  | true =>
    obtain ⟨hover, hcurrent, hheld⟩ := h.finished rfl
    rw [poll_of_finished (recorded b) fuel rfl]
    have hevents := h.events
    refine ⟨rfl, ⟨⟨fun _ => ⟨hevents, rfl⟩, fun hno => absurd hover hno⟩, h.lawful⟩, ?_, ?_, ?_⟩
    · change Orderly (j.events ++ past j.rounds)
      rw [hevents]
      exact h.orderly
    · intro _
      obtain ⟨events, o, hmem⟩ := hover
      refine ⟨⟨events, o, List.mem_cons_of_mem _ hmem⟩, hcurrent, ?_⟩
      intro id
      change ¬ Held (j.events ++ past j.rounds) id
      rw [hevents]
      exact hheld id
    · intro hfin
      cases hfin

theorem Settled.follows_asked {l : While S (Nat × F)} {j : Journal} (h : Settled l j) :
    (Round.asked l.isOver (l.current.map (·.1))).Follows j.rounds := by
  obtain ⟨step, current, finished⟩ := l
  cases finished with
  | true =>
    obtain ⟨hover, hcurrent, hheld⟩ := h.finished rfl
    cases hcurrent
    refine ⟨⟨fun _ => hover, fun _ => rfl⟩, fun _ => rfl, fun id => ?_⟩
    exact ⟨nofun, fun hid => absurd hid (hheld id)⟩
  | false =>
    obtain ⟨hover, hmid⟩ := h.running rfl
    refine ⟨⟨nofun, fun ho => absurd ho hover⟩, nofun, ?_⟩
    intro id
    refine ⟨hmid.held id, fun hid => ?_⟩
    rcases hmid.others id hid.1 with hcur | htrue
    · exact hcur
    · exact absurd htrue (hid.2 _)

theorem Settled.asked {l : While S (Nat × F)} {j : Journal} (h : Settled l j) :
    Settled l (j.close (.asked l.isOver (l.current.map (·.1)))) where
  events := rfl
  lawful := ⟨h.follows_asked, h.lawful⟩
  orderly := h.orderly
  finished hfin := by
    obtain ⟨⟨events, o, hmem⟩, hcurrent, hheld⟩ := h.finished hfin
    exact ⟨⟨events, o, List.mem_cons_of_mem _ hmem⟩, hcurrent, hheld⟩
  running hfin := by
    obtain ⟨hover, hmid⟩ := h.running hfin
    refine ⟨?_, ⟨hmid.orderly, hmid.fresh, hmid.held, hmid.others, hmid.idle, hmid.polled, hmid.once⟩⟩
    rintro ⟨events, o, hmem⟩
    rcases List.mem_cons.mp hmem with hmem | hmem
    · cases hmem
    · exact hover ⟨events, o, hmem⟩

theorem act_ensures (b : Stepper W S F) (action : Action W) (l : While S (Nat × F)) (w : W)
    (j : Journal) (h : Settled l j) :
    (l.act b action (w, j)).Ensures (fun ws => ws.2.Lawful) fun l ws => Settled l ws.2 := by
  cases action with
  | poll fuel => exact (poll_recorded_ensures b fuel l w j h).bind fun r ws hr => hr
  | ask => exact h.asked
  | meanwhile m =>
    refine Ending.Ensures.bind (Q := fun _ ws => ws.2 = j)
      ((Ending.Ensures.within m w j).mono ?_ fun _ _ hj => hj) ?_
    · rintro ⟨w, j'⟩ rfl
      exact h.lawful_journal
    · rintro ⟨⟩ ⟨w, j'⟩ rfl
      exact h

/-- What every action keeps holds after any number of them. -/
theorem acts_ensures (b : Stepper W S F) {B : W × Journal → Prop} {K : While S (Nat × F) → W × Journal → Prop}
    {actions : List (Action W)} (hact : ∀ action ∈ actions, ∀ l ws, K l ws → (l.act b action ws).Ensures B K)
    {l : While S (Nat × F)} {ws : W × Journal} (h : K l ws) : (acts b actions l ws).Ensures B K := by
  induction actions generalizing l ws with
  | nil => exact h
  | cons action rest ih =>
    refine (hact action List.mem_cons_self l ws h).bind fun l ws hl => ?_
    exact ih (fun action hmem => hact action (List.mem_cons_of_mem _ hmem)) hl

/-! ## Where a run stops -/

/-- How often steps have resolved to `true`. -/
def trues : List StepEvent → Nat
  | [] => 0
  | .reply _ (.ready (.ok true)) :: events => trues events + 1
  | _ :: events => trues events

/-- A step does not return, from its request or from its poll. -/
def Interrupted (b : Stepper W S F) (ws : W × Journal) : Prop :=
  (∃ s id, (b.request s).StopsIn ws.1 ∧ ws.2.events.head? = some (.request id)) ∨
    ∃ x id, (b.poll x).StopsIn ws.1 ∧ ws.2.events.head? = some (.poll id)

/-- A step has resolved to `true`, and so many have. -/
def Spent (count : Nat) (ws : W × Journal) : Prop :=
  trues ws.2.events = count ∧ ∃ id, ws.2.events.head? = some (.reply id (.ready (.ok true)))

/-- Why a run does not return: a step does not, or something in between, or the fuel of a poll gave out after a step
that resolved to `true`. -/
def Stopped (b : Stepper W S F) (actions : List (Action W)) (ws : W × Journal) : Prop :=
  Interrupted b ws ∨ (∃ m, .meanwhile m ∈ actions ∧ m.StopsIn ws.1) ∨
    ∃ fuel, .poll fuel ∈ actions ∧ Spent (fuel + 1) ws

/-- A poll goes on until a step does not return, or its fuel is spent on steps that resolved to `true`. The induction
is on the fuel. -/
theorem direct_stops (b : Stepper W S F) (fuel : Nat) (step : S) (current : Option (Nat × F)) (w : W) (j : Journal) :
    (direct (recorded b) fuel { step, current } (w, j)).Ensures
      (fun ws => Interrupted b ws ∨ Spent (trues j.events + fuel + 1) ws) fun _ _ => True := by
  induction fuel using Nat.strongRecOn generalizing step current w j with
  | ind fuel ih =>
    rw [direct]
    refine Ending.Ensures.bind (Q := fun (_ : (Nat × F) × S) (ws : W × Journal) =>
      trues ws.2.events = trues j.events) ?_ ?_
    · cases current with
      | some x => rfl
      | none =>
        refine (request_ensures b step w j).mono ?_ ?_
        · rintro ws ⟨hstops, hj⟩
          exact Or.inl (Or.inl ⟨step, j.fresh, hstops, by rw [hj]; rfl⟩)
        · rintro r ws ⟨hj, -⟩
          rw [hj]
          rfl
    · rintro ⟨x, step⟩ ⟨w, j'⟩ htrues
      refine Ending.Ensures.bind ((poll_ensures b x w j').mono ?_ fun _ _ hr => hr) ?_
      · rintro ws ⟨hstops, hj⟩
        exact Or.inl (Or.inr ⟨x.2, x.1, hstops, by rw [hj]; rfl⟩)
      · rintro ⟨answer, y⟩ ⟨w, j''⟩ ⟨hj'', -⟩
        subst hj''
        cases answer with
        | pending => trivial
        | panicked c => trivial
        | ready o =>
          cases o with
          | error e => trivial
          | ok more =>
            cases more with
            | false => trivial
            | true =>
              have hmore : trues (.reply x.1 (.ready (.ok true)) :: .poll x.1 :: j'.events) = trues j.events + 1 :=
                congrArg (· + 1) htrues
              cases fuel with
              | zero => exact Or.inr ⟨hmore, x.1, rfl⟩
              | succ fuel =>
                refine (ih fuel (Nat.lt_succ_self fuel) step none w _).mono (fun ws h => h.imp_right fun hspent => ?_)
                  fun _ _ h => h
                have hcount : trues j.events + 1 + fuel + 1 = trues j.events + (fuel + 1) + 1 := by omega
                rw [← hcount, ← hmore]
                exact hspent

theorem act_stops (b : Stepper W S F) {actions : List (Action W)} {action : Action W} (hmem : action ∈ actions)
    (l : While S (Nat × F)) (w : W) (j : Journal) (h : j.events = []) :
    (l.act b action (w, j)).Ensures (Stopped b actions) fun _ _ => True := by
  cases action with
  | poll fuel =>
    refine Ending.Ensures.bind (Q := fun _ _ => True) ?_ fun _ _ _ => trivial
    obtain ⟨step, current, finished⟩ := l
    cases finished with
    | true =>
      rw [poll_of_finished (recorded b) fuel rfl]
      trivial
    | false =>
      have hpoll : poll (recorded b) fuel { step, current } =
          (run (recorded b) fuel).owning { step, current } := rfl
      rw [hpoll, run_owning_eq_direct]
      refine (direct_stops b fuel step current w j).mono (fun ws hws => ?_) fun _ _ h => h
      rw [h] at hws
      refine hws.imp_right fun hspent => Or.inr ⟨fuel, hmem, ?_⟩
      rw [← Nat.zero_add fuel]
      exact hspent
  | ask => trivial
  | meanwhile m =>
    refine Ending.Ensures.bind ((Ending.Ensures.within_stops m w j).mono ?_ fun _ _ _ => trivial) fun _ _ _ => trivial
    exact fun ws hws => Or.inr (Or.inl ⟨m, hmem, hws.1⟩)

/-- A loop that has said that it has resolved is finished, and so refuses. -/
theorem Settled.refuses {l : While S (Nat × F)} {j : Journal} (h : Settled l j) (hover : Over j.rounds)
    (b : Stepper W S F) (fuel : Nat) : poll (recorded b) fuel l = pure (.panicked .loopFinished, l) := by
  refine poll_of_finished (recorded b) fuel ?_
  cases hfin : l.finished with
  | true => rfl
  | false => exact ((h.running hfin).1 hover).elim

/-- The journal of every run of a driven loop is lawful, however far the run comes. A run that does not return was
stopped inside a step or between two polls, or after more steps that resolved to `true` than a poll had fuel for. A
loop that has resolved refuses every further poll. -/
theorem acts_lawful (b : Stepper W S F) (s : S) (w : W) (actions : List (Action W)) :
    (acts b actions { step := s } (w, {})).world.2.Lawful ∧
    (acts b actions { step := s } (w, {})).Ensures (Stopped b actions) fun l ws =>
      Over ws.2.rounds → ∀ fuel, poll (recorded b) fuel l = pure (.panicked .loopFinished, l) := by
  have hsettled : Settled ({ step := s } : While S (Nat × F)) {} := settled_start s
  have hlawful : (acts b actions { step := s } (w, {})).Ensures (fun ws => ws.2.Lawful) fun l ws => Settled l ws.2 :=
    acts_ensures b (fun action _ l ws h => act_ensures b action l ws.1 ws.2 h) hsettled
  have hstops : (acts b actions { step := s } (w, {})).Ensures (Stopped b actions) fun l ws => Settled l ws.2 := by
    refine acts_ensures b (fun action hmem l ws h => ?_) hsettled
    have hact := (act_stops b hmem l ws.1 ws.2 h.events).and (act_ensures b action l ws.1 ws.2 h)
    exact hact.mono (fun _ h => h) fun _ _ h => h.2
  refine ⟨(hlawful.mono (fun _ h => h) fun _ _ h => h.lawful_journal).world, ?_⟩
  exact hstops.mono (fun _ h => h) fun l ws h hover fuel => h.refuses hover b fuel

end Stepwise.While
