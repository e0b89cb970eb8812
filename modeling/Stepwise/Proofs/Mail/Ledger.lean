import Stepwise.Script.World
import Stepwise.Proofs.Nest.Basic

/-! # Steps that wait for messages

A job whose steps each wait for one message: a step names a channel, and polling it takes the message out of the
mailbox of that channel or leaves the number of the poll there. Messages are put into the mailboxes from outside.

* `Post` has the mailboxes and a ledger of what happened, the latest first: the answers of the source and of the
  filter, requests of steps, messages that were put and messages that were taken.
* `Orderly`: source, filter and step are called when the messages of all earlier steps have been taken and were no
  failures, and a message is taken only for the step that was requested last.
* `Kept`: what was put into a mailbox was taken out of it or is still there, in the order in which it was put.
* `kit` has the calls of such a job. They act on the world `U`, and on the ledger only where steps are requested.
-/

namespace Stepwise.Mail
set_option autoImplicit false

open Script (World Value Mailbox)

/-- What happens to a job and its mailboxes. -/
inductive Entry (α : Type)
  /-- The source gave an element, or said that there is none. -/
  | gave (entry : Option α)
  /-- The filter decided on a call. -/
  | judged (call : Call α) (verdict : Outcome Bool)
  /-- A step was requested, which receives from the channel. -/
  | requested (call : Call α) (channel : Int64)
  | put (channel : Int64) (message : Outcome Value)
  | taken (channel : Int64) (message : Outcome Value)

structure Post (α : Type) where
  world : World := {}
  ledger : List (Entry α) := []

/-! ## Ledgers -/

variable {α : Type}

/-- The channel of the step that still waits for its message. -/
def outstanding : List (Entry α) → Option Int64
  | [] => none
  | .requested _ c :: _ => some c
  | .taken _ _ :: _ => none
  | _ :: l => outstanding l

def requests : List (Entry α) → List Int64
  | [] => []
  | .requested _ c :: l => c :: requests l
  | _ :: l => requests l

def puts (c : Int64) : List (Entry α) → List (Outcome Value)
  | [] => []
  | .put c' message :: l => if c' = c then message :: puts c l else puts c l
  | _ :: l => puts c l

def takes (c : Int64) : List (Entry α) → List (Outcome Value)
  | [] => []
  | .taken c' message :: l => if c' = c then message :: takes c l else takes c l
  | _ :: l => takes c l

/-- The failures among the messages that were taken. -/
def failures : List (Entry α) → List Failure
  | [] => []
  | .taken _ (.error e) :: l => e :: failures l
  | _ :: l => failures l

/-- No step waits, and no message was a failure. -/
def Idle (l : List (Entry α)) : Prop := outstanding l = none ∧ failures l = []

def Orderly : List (Entry α) → Prop
  | [] => True
  | .gave _ :: l => Idle l ∧ Orderly l
  | .judged _ _ :: l => Idle l ∧ Orderly l
  | .requested _ _ :: l => Idle l ∧ Orderly l
  | .put _ _ :: l => Orderly l
  | .taken c _ :: l => outstanding l = some c ∧ Orderly l

variable {l : List (Entry α)} {c : Int64}

theorem mem_requests_of_outstanding (h : outstanding l = some c) : c ∈ requests l := by
  induction l with
  | nil => cases h
  | cons entry l ih =>
    cases entry with
    | requested call c' =>
      have hc : c' = c := Option.some.inj h
      exact List.mem_cons.2 (Or.inl hc.symm)
    | taken c' message => cases h
    | _ => exact ih h

theorem mem_requests_of_takes (horderly : Orderly l) (h : takes c l ≠ []) : c ∈ requests l := by
  induction l with
  | nil => exact (h rfl).elim
  | cons entry l ih =>
    cases entry with
    | requested call c' => exact List.mem_cons_of_mem c' (ih horderly.2 h)
    | put c' message => exact ih horderly h
    | taken c' message =>
      by_cases hc : c' = c
      · subst hc
        exact mem_requests_of_outstanding (l := l) horderly.1
      · rw [takes, if_neg hc] at h
        exact ih horderly.2 h
    | _ => exact ih horderly.2 h

/-- No message was taken for a step that still waits, if no other step had its channel. -/
theorem takes_of_outstanding (horderly : Orderly l) (h : outstanding l = some c)
    (hown : (requests l).Nodup) : takes c l = [] := by
  induction l with
  | nil => rfl
  | cons entry l ih =>
    cases entry with
    | requested call c' =>
      have hc : c' = c := Option.some.inj h
      subst hc
      have hnot : c' ∉ requests l := (List.nodup_cons.1 hown).1
      by_contra htakes
      exact hnot (mem_requests_of_takes horderly.2 htakes)
    | put c' message => exact ih horderly h hown
    | taken c' message => cases h
    | _ => exact ih horderly.2 h hown

/-- The messages of all other steps were taken. -/
theorem takes_of_requested (horderly : Orderly l) (hmem : c ∈ requests l) (h : outstanding l ≠ some c) :
    takes c l ≠ [] := by
  induction l with
  | nil => cases hmem
  | cons entry l ih =>
    cases entry with
    | requested call c' =>
      rcases List.mem_cons.1 hmem with rfl | hmem
      · exact (h rfl).elim
      · refine ih horderly.2 hmem ?_
        rw [horderly.1.1]
        exact nofun
    | put c' message => exact ih horderly hmem h
    | taken c' message =>
      by_cases hc : c' = c
      · rw [takes, if_pos hc]
        exact nofun
      · rw [takes, if_neg hc]
        refine ih horderly.2 hmem ?_
        rw [horderly.1]
        exact fun h => hc (Option.some.inj h)
    | _ => exact ih horderly.2 hmem h

/-! ## Mailboxes -/

namespace Post

def enter (entry : Entry α) (p : Post α) : Post α := { p with ledger := entry :: p.ledger }

def withWorld (p : Post α) (w : World) : Post α := { p with world := w }

/-- No message was lost, none was made up and none was taken twice. -/
def Kept (p : Post α) : Prop :=
  ∀ c, puts c p.ledger = (p.world.mailbox c).content.toList ++ takes c p.ledger

/-- What holds at all times. -/
def Sound (p : Post α) : Prop := Orderly p.ledger ∧ p.Kept

/-- The step that waits for a message from here has left the number of the last poll. -/
def Asleep (p : Post α) (c : Int64) : Prop :=
  p.world.mailbox c = { content := none, waker := some p.world.poller }

/-- A message has arrived here and has woken the last poll. -/
def Woken (p : Post α) (c : Int64) : Prop :=
  (p.world.mailbox c).content.isSome ∧ p.world.poller ∈ p.world.woken

def Alert (p : Post α) (c : Int64) : Prop := p.Asleep c ∨ p.Woken c

variable {p : Post α}

theorem sound_empty : Sound ({} : Post α) := ⟨trivial, fun _ => rfl⟩

theorem Sound.gave (h : p.Sound) (hidle : Idle p.ledger) (entry : Option α) : (p.enter (.gave entry)).Sound :=
  ⟨⟨hidle, h.1⟩, h.2⟩

theorem Sound.judged (h : p.Sound) (hidle : Idle p.ledger) (call : Call α) (verdict : Outcome Bool) :
    (p.enter (.judged call verdict)).Sound := ⟨⟨hidle, h.1⟩, h.2⟩

theorem Sound.request (h : p.Sound) (hidle : Idle p.ledger) (call : Call α) (c : Int64) :
    (p.enter (.requested call c)).Sound := ⟨⟨hidle, h.1⟩, h.2⟩

/-- Only the mailbox of the channel changes. -/
theorem Kept.setMailbox (h : p.Kept) {box : Mailbox} {entries : List (Entry α)}
    (hc : puts c entries = box.content.toList ++ takes c entries)
    (hputs : ∀ c', c' ≠ c → puts c' entries = puts c' p.ledger)
    (htakes : ∀ c', c' ≠ c → takes c' entries = takes c' p.ledger) :
    Kept { world := p.world.setMailbox c box, ledger := entries : Post α } := by
  intro c'
  rw [World.mailbox_setMailbox]
  by_cases hc' : c' = c
  · subst hc'
    rw [if_pos rfl]
    exact hc
  · rw [if_neg hc', hputs c' hc', htakes c' hc']
    exact h c'

theorem Sound.take (h : p.Sound) (hout : outstanding p.ledger = some c) {message : Outcome Value}
    (hfull : (p.world.mailbox c).content = some message) (waker : Option Nat) :
    Sound { world := p.world.setMailbox c { content := none, waker },
            ledger := .taken c message :: p.ledger : Post α } := by
  have hputs := h.2 c
  rw [hfull] at hputs
  refine ⟨⟨hout, h.1⟩, h.2.setMailbox ?_ (fun c' _ => rfl) fun c' hc' => ?_⟩
  · rw [takes, if_pos rfl]
    exact hputs
  · rw [takes, if_neg (Ne.symm hc')]

theorem Sound.wait (h : p.Sound) (hempty : (p.world.mailbox c).content = none) (waker : Option Nat) :
    (p.withWorld (p.world.setMailbox c { content := none, waker })).Sound := by
  have hputs := h.2 c
  rw [hempty] at hputs
  exact ⟨h.1, h.2.setMailbox hputs (fun _ _ => rfl) fun _ _ => rfl⟩

theorem Sound.put (h : p.Sound) (hempty : (p.world.mailbox c).content = none) (message : Outcome Value) :
    Sound { world := p.world.setMailbox c { content := some message },
            ledger := .put c message :: p.ledger : Post α } := by
  have hputs := h.2 c
  rw [hempty] at hputs
  refine ⟨h.1, h.2.setMailbox ?_ (fun c' hc' => ?_) fun c' _ => rfl⟩
  · rw [puts, if_pos rfl]
    exact congrArg (message :: ·) hputs
  · rw [puts, if_neg (Ne.symm hc')]

end Post

/-! ## The calls of a job -/

section Calls

variable {U I P G A β : Type}

/-- Do something to the mailboxes. -/
def onWorld (m : Effect World A) : Effect (U × Post α) A := fun ws =>
  match m ws.2.world with
  | .returned a w => .returned a (ws.1, ws.2.withWorld w)
  | .broken reason w => .broken reason (ws.1, ws.2.withWorld w)
  | .cut w => .cut (ws.1, ws.2.withWorld w)

def enter (entry : Entry α) : Effect (U × Post α) Unit :=
  Effect.changes fun ws => (ws.1, ws.2.enter entry)

/-- Poll a step: take the message of its channel. -/
def receive : Poller (U × Post α) Int64 Value := fun c => do
  let answer ← onWorld (World.collect c)
  match answer with
  | .ready message => do
    enter (.taken c message)
    pure (.ready message, c)
  | answer => pure (answer, c)

/-- The calls of a job whose steps receive messages. -/
def kit (calls : Nest.Calls U I α P G Int64) (again : Value → Bool) (summand : Value → Int32) :
    Kit (U × Post α) I α P G Int64 Value where
  next source := do
    let r ← (calls.next source).within (Post α)
    enter (.gave r.1)
    pure r
  test p call := do
    let r ← (calls.test p call).within (Post α)
    enter (.judged call r.1)
    pure r
  step g call := do
    let r ← (calls.step g call).within (Post α)
    enter (.requested call r.1)
    pure r
  poll := receive
  isTrue := again
  summand

theorem receive_of_full {u : U} {p : Post α} {c : Int64} {message : Outcome Value}
    (h : (p.world.mailbox c).content = some message) :
    receive c (u, p) = .returned (.ready message, c)
      (u, { world := p.world.setMailbox c { content := none, waker := (p.world.mailbox c).waker },
            ledger := .taken c message :: p.ledger }) := by
  have hcollect : World.collect c p.world = .returned (.ready message)
      (p.world.setMailbox c { content := none, waker := (p.world.mailbox c).waker }) := by
    simp only [World.collect, h]
  have hworld : (onWorld (World.collect c) : Effect (U × Post α) _) (u, p) = .returned (.ready message)
      (u, p.withWorld (p.world.setMailbox c { content := none, waker := (p.world.mailbox c).waker })) := by
    rw [onWorld, hcollect]
  rw [receive, Effect.bind_of_returned _ hworld]
  rfl

theorem receive_of_empty {u : U} {p : Post α} {c : Int64} (h : (p.world.mailbox c).content = none) :
    receive c (u, p) = .returned (.pending, c)
      (u, p.withWorld (p.world.setMailbox c { content := none, waker := some p.world.poller })) := by
  have hcollect : World.collect c p.world = .returned .pending
      (p.world.setMailbox c { content := none, waker := some p.world.poller }) := by
    simp only [World.collect, h]
  have hworld : (onWorld (World.collect c) : Effect (U × Post α) _) (u, p) = .returned .pending
      (u, p.withWorld (p.world.setMailbox c { content := none, waker := some p.world.poller })) := by
    rw [onWorld, hcollect]
  rw [receive, Effect.bind_of_returned _ hworld]
  rfl

end Calls

end Stepwise.Mail
