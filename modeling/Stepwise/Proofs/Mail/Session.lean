import Stepwise.Proofs.Mail.Ledger

/-! # Messages and polls in any order

A job whose steps receive messages is made and then polled, while messages are put into the mailboxes and
anything else happens in the world of its calls, in any order. After it has resolved it is not polled any more.

* `terms` says what holds between the calls of the job: while no step is under way the messages of all earlier
  ones were taken, and a step that waits has left the number of this poll with its mailbox.
* `receive_meets` and `kit_meets`: its calls keep to them, and so does one poll (`poll_standing`).
* `perform_ensures`: what an action keeps, from a poll that begins and from a message in an empty mailbox.
* `Post.Asleep.wakes`: the next message for the step that waits wakes the last poll. `Standing.transfer`: one that
  is put elsewhere does not change how things stand.
* `run_standing`: so it is after any number of actions, by induction on them.
-/

namespace Stepwise.Mail
set_option autoImplicit false

open Script (World Value Mailbox)

variable {U I α P G A β : Type}

/-! ## Actions -/

/-- A job and its latest answer. -/
structure Seat (J : Type) where
  job : J
  answer : Option (Poll (Option Int32)) := none

inductive Action (U : Type)
  | poll
  /-- Try to put a message into a mailbox. -/
  | put (channel : Int64) (message : Outcome Value)
  /-- Something else happens. -/
  | other (change : U → U)

def Seat.isOver {J : Type} (s : Seat J) : Bool :=
  match s.answer with
  | none => false
  | some answer => !answer.isPending

theorem Seat.isSome_of_over {J : Type} (s : Seat J) (h : s.isOver = true) : s.answer.isSome := by
  obtain ⟨job, answer⟩ := s
  cases answer with
  | none => cases h
  | some answer => rfl

def deliver (c : Int64) (message : Outcome Value) : Effect (U × Post α) Unit := do
  let accepted ← onWorld (World.deliver c message)
  if accepted then enter (.put c message) else pure ()

def begin : Effect (U × Post α) Unit :=
  onWorld (Effect.changes fun w => { w with poller := w.poller + 1 })

def perform (k : Kit (U × Post α) I α P G Int64 Value) (fuel : Nat) (s : Seat (Job I α P G Int64)) :
    Action U → Effect (U × Post α) (Seat (Job I α P G Int64))
  | .poll =>
    if s.isOver then pure s
    else do
      begin
      let r ← Job.poll k fuel s.job
      pure { job := r.2, answer := some r.1 }
  | .put c message => do
    deliver c message
    pure s
  | .other change => do
    Effect.changes fun ws => (change ws.1, ws.2)
    pure s

/-- Make a job and carry out the actions. -/
def run (k : Kit (U × Post α) I α P G Int64 Value) (fuel : Nat) (plan : Plan I α) (filter : P) (consumer : G)
    (actions : List (Action U)) : Effect (U × Post α) (Seat (Job I α P G Int64)) := do
  let job ← Job.start k.next k.step fuel plan filter consumer
  actions.foldlM (perform k fuel) { job }

/-! ## The terms of a job that receives messages -/

def terms : Terms (U × Post α) Int64 where
  free ws := ws.2.Sound ∧ Idle ws.2.ledger
  held c ws := ws.2.Sound ∧ outstanding ws.2.ledger = some c ∧ failures ws.2.ledger = []
  waits c ws := (ws.2.Sound ∧ outstanding ws.2.ledger = some c ∧ failures ws.2.ledger = []) ∧
    ws.2.Asleep c
  failed e ws := ws.2.Sound ∧ outstanding ws.2.ledger = none ∧
    (failures ws.2.ledger = [] ∨ failures ws.2.ledger = [e])
  stopped _ _ := False
  halted ws := ws.2.Sound

theorem within_free (m : Effect U A) {ws : U × Post α} (h : terms.free ws) :
    (m.within (Post α) ws).Ensures terms.halted fun _ => terms.free :=
  (Ending.Ensures.within_of (R := fun p : Post α => p.Sound ∧ Idle p.ledger) m h).mono (fun _ h => h.1) fun _ _ h => h

theorem kit_meets (calls : Nest.Calls U I α P G Int64) (again : Value → Bool) (summand : Value → Int32) :
    (kit calls again summand).Meets terms where
  next source ws h := by
    refine (within_free (calls.next source) h).bind fun r ws h => ?_
    exact ⟨h.1.gave h.2 r.1, h.2⟩
  test p call ws h := by
    refine (within_free (calls.test p call) h).bind fun r ws h => ?_
    have hjudged := h.1.judged h.2 call r.1
    obtain ⟨verdict, p⟩ := r
    cases verdict with
    | ok accepted => exact ⟨hjudged, h.2⟩
    | error e => exact ⟨hjudged, h.2.1, Or.inl h.2.2⟩
  step g call ws h := by
    refine (within_free (calls.step g call) h).bind fun r ws h => ?_
    exact ⟨h.1.request h.2 call r.1, rfl, h.2.2⟩
  halt _ h := h.1

theorem receive_meets (c : Int64) (ws : U × Post α) (h : terms.held c ws) :
    (Poller.stage receive c ws).Ensures terms.halted (terms (U := U)).staged := by
  obtain ⟨u, p⟩ := ws
  obtain ⟨hsound, hout, hok⟩ := h
  rw [Poller.stage_eq]
  cases hbox : (p.world.mailbox c).content with
  | none =>
    rw [Effect.bind_of_returned _ (receive_of_empty hbox)]
    refine ⟨⟨hsound.wait hbox _, hout, hok⟩, ?_⟩
    simp only [Post.Asleep, Post.withWorld, World.mailbox_setMailbox, if_true]
    rfl
  | some message =>
    rw [Effect.bind_of_returned _ (receive_of_full hbox)]
    have htaken := hsound.take hout hbox (p.world.mailbox c).waker
    cases message with
    | ok v => exact ⟨htaken, rfl, hok⟩
    | error e => exact ⟨htaken, rfl, Or.inr (congrArg (e :: ·) hok)⟩

/-! ## Seats -/

/-- How things stand after the latest answer. `B` holds of the mailbox of the step that waits, if there is one. -/
def Standing (B : Post α → Int64 → Prop) (s : Seat (Job I α P G Int64)) (ws : U × Post α) : Prop :=
  match s.answer with
  | none => terms.fresh s.job.view ws
  | some .pending => ∃ c place, s.job.view = .under (.step c) place ∧ terms.held c ws ∧ B ws.2 c
  | some (.ready (.ok _)) => terms.free ws
  | some (.ready (.error e)) => terms.failed e ws
  | some (.panicked _) => False

theorem sound_of_fresh {s : Course.State (Job.Rest I α P G) Int64} {ws : U × Post α}
    (h : terms.fresh s ws) : ws.2.Sound := by
  obtain ⟨_, _, hfree⟩ | ⟨_, _, _, hheld⟩ := Terms.fresh_cases h
  · exact hfree.1
  · exact hheld.1

namespace Standing

variable {B B' : Post α → Int64 → Prop} {s : Seat (Job I α P G Int64)} {ws : U × Post α}

theorem sound (h : Standing B s ws) : ws.2.Sound := by
  obtain ⟨job, answer⟩ := s
  match answer with
  | none => exact sound_of_fresh h
  | some .pending =>
    obtain ⟨c, place, -, hheld, -⟩ := h
    exact hheld.1
  | some (.ready (.ok _)) => exact h.1
  | some (.ready (.error e)) => exact h.1
  | some (.panicked cause) => exact h.elim

/-- How things stand depends on the mailboxes and the ledger only. -/
theorem transfer {ws' : U × Post α} (h : Standing B s ws) (hsound : ws'.2.Sound)
    (hout : outstanding ws'.2.ledger = outstanding ws.2.ledger)
    (hfailures : failures ws'.2.ledger = failures ws.2.ledger) (hB : ∀ c, B ws.2 c → B' ws'.2 c) :
    Standing B' s ws' := by
  have hfree : terms.free ws → terms.free ws' := fun h =>
    ⟨hsound, hout.trans h.2.1, hfailures.trans h.2.2⟩
  have hheld : ∀ c, terms.held c ws → terms.held c ws' := fun c h =>
    ⟨hsound, hout.trans h.2.1, hfailures.trans h.2.2⟩
  obtain ⟨job, answer⟩ := s
  match answer with
  | none => exact Terms.fresh_mono h hfree hheld
  | some .pending =>
    obtain ⟨c, place, hview, hc, hbox⟩ := h
    exact ⟨c, place, hview, hheld c hc, hB c hbox⟩
  | some (.ready (.ok _)) => exact hfree h
  | some (.ready (.error e)) =>
    refine ⟨hsound, hout.trans h.2.1, ?_⟩
    rw [hfailures]
    exact h.2.2
  | some (.panicked cause) => exact h.elim

theorem mono (h : Standing B s ws) (hB : ∀ c, B ws.2 c → B' ws.2 c) : Standing B' s ws :=
  h.transfer h.sound rfl rfl hB

/-- What is over does not wait. -/
theorem of_over (h : Standing B s ws) (hover : s.isOver = true) : Standing B' s ws := by
  obtain ⟨job, answer⟩ := s
  match answer with
  | none => cases hover
  | some .pending => cases hover
  | some (.ready (.ok _)) => exact h
  | some (.ready (.error e)) => exact h
  | some (.panicked cause) => exact h

/-- From where things stand a poll may begin. -/
theorem ready (h : Standing B s ws) (hover : s.isOver = false) : terms.ready s.job.view ws := by
  obtain ⟨job, answer⟩ := s
  match answer with
  | none => exact Terms.ready_of_fresh h
  | some .pending =>
    obtain ⟨c, place, hview, hheld, -⟩ := h
    rw [hview]
    exact hheld
  | some (.ready _) => cases hover
  | some (.panicked _) => cases hover

end Standing

/-! ## Messages -/

/-- A message has arrived in an empty mailbox, and the poll that waited there was woken. -/
def Post.received (p : Post α) (c : Int64) (message : Outcome Value) : Post α where
  world := { p.world.setMailbox c { content := some message } with
    woken := (p.world.mailbox c).waker.toList ++ p.world.woken }
  ledger := .put c message :: p.ledger

theorem deliver_of_full {u : U} {p : Post α} {c : Int64} {held : Outcome Value}
    (h : (p.world.mailbox c).content = some held) (message : Outcome Value) :
    deliver c message (u, p) = .returned () (u, p) := by
  have hdeliver : World.deliver c message p.world = .returned false p.world := by
    simp only [World.deliver, h]
  have hworld : (onWorld (World.deliver c message) : Effect (U × Post α) Bool) (u, p) =
      .returned false (u, p) := by
    rw [onWorld, hdeliver]
    rfl
  rw [deliver, Effect.bind_of_returned _ hworld]
  rfl

theorem deliver_of_empty {u : U} {p : Post α} {c : Int64} (h : (p.world.mailbox c).content = none)
    (message : Outcome Value) : deliver c message (u, p) = .returned () (u, p.received c message) := by
  have hdeliver : World.deliver c message p.world = .returned true
      { p.world.setMailbox c { content := some message } with
        woken := (p.world.mailbox c).waker.toList ++ p.world.woken } := by
    cases hwaker : (p.world.mailbox c).waker <;> simp only [World.deliver, h, hwaker] <;> rfl
  have hworld : (onWorld (World.deliver c message) : Effect (U × Post α) Bool) (u, p) =
      .returned true (u, p.withWorld { p.world.setMailbox c { content := some message } with
        woken := (p.world.mailbox c).waker.toList ++ p.world.woken }) := by
    rw [onWorld, hdeliver]
  rw [deliver, Effect.bind_of_returned _ hworld]
  rfl

/-- The next message that is put there wakes the last poll. -/
theorem Post.Asleep.wakes {p : Post α} {c : Int64} (h : p.Asleep c) (message : Outcome Value) :
    ∃ w, World.deliver c message p.world = .returned true w ∧
      w.woken = p.world.poller :: p.world.woken := by
  have hmailbox : p.world.mailbox c = { content := none, waker := some p.world.poller } := h
  simp only [World.deliver, hmailbox]
  exact ⟨_, rfl, rfl⟩

theorem mailbox_received (p : Post α) (c c' : Int64) (message : Outcome Value) :
    (p.received c message).world.mailbox c' =
      if c' = c then { content := some message } else p.world.mailbox c' :=
  World.mailbox_setMailbox p.world c c' _

theorem Post.Alert.received {p : Post α} {c c' : Int64} (h : p.Alert c')
    (hempty : (p.world.mailbox c).content = none) (message : Outcome Value) :
    (p.received c message).Alert c' := by
  by_cases hc : c' = c
  · subst hc
    refine Or.inr ⟨?_, ?_⟩
    · rw [mailbox_received, if_pos rfl]
      rfl
    · rcases h with hasleep | ⟨hfull, -⟩
      · have hmailbox : p.world.mailbox c' = { content := none, waker := some p.world.poller } := hasleep
        change p.world.poller ∈ (p.world.mailbox c').waker.toList ++ p.world.woken
        rw [hmailbox]
        exact List.mem_cons_self
      · rw [hempty] at hfull
        cases hfull
  · have hsame : (p.received c message).world.mailbox c' = p.world.mailbox c' := by
      rw [mailbox_received, if_neg hc]
    rcases h with hasleep | ⟨hfull, hwoken⟩
    · exact Or.inl (hsame.trans hasleep)
    · refine Or.inr ⟨by rw [hsame]; exact hfull, ?_⟩
      exact List.mem_append_right _ hwoken

/-! ## One action -/

section Actions

variable {calls : Nest.Calls U I α P G Int64} {again : Value → Bool} {summand : Value → Int32}
  {k : Kit (U × Post α) I α P G Int64 Value} {fuel : Nat} {s : Seat (Job I α P G Int64)} {ws : U × Post α}

/-- A poll has begun. -/
def Post.begun (p : Post α) : Post α := p.withWorld { p.world with poller := p.world.poller + 1 }

section Rules

variable {B : U × Post α → Prop} {K : Seat (Job I α P G Int64) → U × Post α → Prop}

/-- What is over is not polled again. -/
theorem perform_poll_ensures (hover : s.isOver = true → K s ws)
    (hpoll : s.isOver = false → (Job.poll k fuel s.job (ws.1, ws.2.begun)).Ensures B fun r =>
      K { job := r.2, answer := some r.1 }) : (perform k fuel s .poll ws).Ensures B K := by
  rw [perform]
  by_cases h : s.isOver = true
  · rw [if_pos h]
    exact hover h
  · rw [if_neg h]
    have hbegin : begin ws = .returned () (ws.1, ws.2.begun) := rfl
    rw [Effect.bind_of_returned _ hbegin]
    exact (hpoll (Bool.eq_false_iff.2 h)).bind fun r ws hr => hr

/-- What holds after every action: a poll begins, a message goes into an empty mailbox, or something else happens. -/
theorem perform_ensures (h : K s ws)
    (hpoll : s.isOver = false → (Job.poll k fuel s.job (ws.1, ws.2.begun)).Ensures B fun r =>
      K { job := r.2, answer := some r.1 })
    (hput : ∀ c message, (ws.2.world.mailbox c).content = none → K s (ws.1, ws.2.received c message))
    (hother : ∀ u, K s (u, ws.2)) (action : Action U) : (perform k fuel s action ws).Ensures B K := by
  cases action with
  | poll => exact perform_poll_ensures (fun _ => h) hpoll
  | put c message =>
    rw [perform]
    cases hbox : (ws.2.world.mailbox c).content with
    | none =>
      rw [Effect.bind_of_returned _ (deliver_of_empty hbox message)]
      exact hput c message hbox
    | some held =>
      rw [Effect.bind_of_returned _ (deliver_of_full hbox message)]
      exact h
  | other change => exact hother (change ws.1)

/-- What every action keeps holds after any number of them. -/
theorem actions_ensures (hperform : ∀ s ws action, K s ws → (perform k fuel s action ws).Ensures B K)
    (actions : List (Action U)) (h : K s ws) : (actions.foldlM (perform k fuel) s ws).Ensures B K := by
  induction actions generalizing s ws with
  | nil => exact h
  | cons action actions ih =>
    rw [List.foldlM_cons]
    exact (hperform s ws action h).bind fun s ws h => ih h

end Rules

/-! ## How things stand after an action -/

theorem begun_ready {state : Course.State (Job.Rest I α P G) Int64} (h : terms.ready state ws) :
    terms.ready state (ws.1, ws.2.begun) := by
  cases state with
  | ahead c => exact h
  | closed cause => exact h
  | under found c => cases found <;> exact h

theorem poll_standing (fuel : Nat) {B : Post α → Int64 → Prop} (h : Standing B s ws) (hover : s.isOver = false) :
    (Job.poll (kit calls again summand) fuel s.job (ws.1, ws.2.begun)).Ensures (fun ws => ws.2.Sound) fun r =>
      Standing Post.Asleep { job := r.2, answer := some r.1 } := by
  have hready := begun_ready (h.ready hover)
  refine (Job.poll_meets (kit_meets calls again summand) receive_meets fuel s.job _ hready).mono
    (fun _ h => h) fun r ws hr => ?_
  obtain ⟨answer, job⟩ := r
  cases answer with
  | pending =>
    obtain ⟨c, place, hview, hwaits⟩ := Terms.left_cases hr
    exact ⟨c, place, hview, hwaits⟩
  | panicked cause => exact hr
  | ready o => cases o <;> exact hr

theorem Standing.received (h : Standing Post.Alert s ws) {c : Int64}
    (hempty : (ws.2.world.mailbox c).content = none) (message : Outcome Value) :
    Standing Post.Alert s (ws.1, ws.2.received c message) :=
  h.transfer (h.sound.put hempty message) rfl rfl fun _ halert => halert.received hempty message

theorem perform_standing (fuel : Nat) (action : Action U) (h : Standing Post.Alert s ws) :
    (perform (kit calls again summand) fuel s action ws).Ensures (fun ws => ws.2.Sound)
      (Standing Post.Alert) := by
  refine perform_ensures h (fun hover => ?_) (fun c message hempty => ?_) (fun u => ?_) action
  · refine (poll_standing fuel h hover).mono (fun _ h => h) fun r ws hr => ?_
    exact hr.mono fun c hc => Or.inl hc
  · exact h.received hempty message
  · exact h.transfer h.sound rfl rfl fun _ hc => hc

/-! ## Any number of actions -/

theorem start_standing (calls : Nest.Calls U I α P G Int64) (again : Value → Bool)
    (summand : Value → Int32) (fuel : Nat) (plan : Plan I α) (filter : P) (consumer : G) (u : U) :
    (Job.start (kit calls again summand).next (kit calls again summand).step fuel plan filter consumer
      (u, {})).Ensures (fun ws => ws.2.Sound) fun job => Standing Post.Alert { job } :=
  Job.start_meets (kit_meets calls again summand) fuel plan filter consumer (u, {})
    ⟨Post.sound_empty, rfl, rfl⟩

theorem run_standing (calls : Nest.Calls U I α P G Int64) (again : Value → Bool)
    (summand : Value → Int32) (fuel : Nat) (plan : Plan I α) (filter : P) (consumer : G)
    (actions : List (Action U)) (u : U) :
    (run (kit calls again summand) fuel plan filter consumer actions (u, {})).Ensures
      (fun ws => ws.2.Sound) (Standing Post.Alert) :=
  (start_standing calls again summand fuel plan filter consumer u).bind fun _ _ h =>
    actions_ensures (K := Standing Post.Alert) (fun _ _ => perform_standing fuel) actions h

/-- After a poll no message has arrived yet for the step that waits. -/
theorem run_poll_standing (calls : Nest.Calls U I α P G Int64) (again : Value → Bool)
    (summand : Value → Int32) (fuel : Nat) (plan : Plan I α) (filter : P) (consumer : G)
    (actions : List (Action U)) (u : U) :
    (run (kit calls again summand) fuel plan filter consumer (actions ++ [.poll]) (u, {})).Ensures
      (fun ws => ws.2.Sound) fun s ws => s.answer.isSome ∧ Standing Post.Asleep s ws := by
  refine (start_standing calls again summand fuel plan filter consumer u).bind fun job ws h => ?_
  rw [List.foldlM_append]
  refine (actions_ensures (K := Standing Post.Alert) (fun _ _ => perform_standing fuel) actions h).bind fun s ws h => ?_
  rw [List.foldlM_cons]
  have hover : s.isOver = true → s.answer.isSome ∧ Standing Post.Asleep s ws := fun hover =>
    ⟨s.isSome_of_over hover, h.of_over hover⟩
  refine (perform_poll_ensures (K := fun s ws => s.answer.isSome ∧ Standing Post.Asleep s ws) hover
    fun hover => ?_).bind fun s ws h => h
  exact (poll_standing fuel h hover).mono (fun _ h => h) fun r ws hr => ⟨rfl, hr⟩

end Actions

end Stepwise.Mail
