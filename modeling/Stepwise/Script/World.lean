import Stepwise.Log
import Stepwise.Meter
import Stepwise.Script.Value

/-!
# The world of a script

What scripted loops share: the log of events, the registers, the mailboxes, the numbering of the
steps, one meter, the level of the log, and the wake-ups.

* `World.waits` adds up how often the suspensions and the yielding steps that were reached have to
  wait. Nothing reads it; it says how many polls a run takes.
* Every poll from outside has a number, and a task that waits leaves the number of the poll with
  whoever can wake it (`World.poller`, `Mailbox.waker`).
* `Mailbox` holds one message at most. `deliver` fills an empty one and wakes the poll that waits
  for it; `collect` empties a full one or leaves the number of the poll.
-/

namespace Stepwise.Script
set_option autoImplicit false

/-- What a script leaves in the log. -/
inductive Event
  /-- A source was asked for its next element. -/
  | next (entry : Option Value)
  | step (id : Nat) (arguments : List Value)
  | filter (arguments : List Value)
  | poll (id : Nat)
  /-- The message of a failure was composed. -/
  | message
  | record (record : Record)

/-- A place for one message. -/
structure Mailbox where
  content : Option (Outcome Value) := none
  /-- The poll that waits for a message. -/
  waker : Option Nat := none

/-- What scripted loops share. -/
structure World where
  /-- The events, the latest first. -/
  events : List Event := []
  registers : Registers := []
  mailboxes : List (Int64 × Mailbox) := []
  nextStep : Nat := 0
  meter : Meter := {}
  flavor : Flavor := .settled
  level : Level := .trace
  /-- The number of the poll from outside that is going on. -/
  poller : Nat := 0
  /-- The polls that were woken, the latest first. -/
  woken : List Nat := []
  /-- How many polls all suspensions and yielding steps that were reached have to wait for. -/
  waits : Nat := 0

instance : Logging World where
  level w := w.level
  setLevel level w := { w with level }
  write record w := { w with events := .record record :: w.events }

namespace World

def note (event : Event) : Effect World Unit :=
  Effect.changes fun w => { w with events := event :: w.events }

def wake : Effect World Unit := Effect.changes fun w => { w with woken := w.poller :: w.woken }

def setRegister (name : String) (v : Value) : Effect World Unit :=
  Effect.changes fun w => { w with registers := w.registers.set name v }

def newStep : Effect World Nat := fun w =>
  .returned w.nextStep { w with nextStep := w.nextStep + 1 }

def changeMeter (f : Meter → Meter) : Effect World Unit :=
  Effect.changes fun w => { w with meter := f w.meter }

/-- Count the polls that a suspension has to wait for. -/
def expectWaits (count : Nat) : Effect World Unit :=
  Effect.changes fun w => { w with waits := w.waits + count }

def requestMeter (outcome : Outcome Value) : Effect World (MeterStep Value) := fun w =>
  let (step, meter) := w.meter.request w.flavor outcome
  .returned step { w with meter, waits := w.waits + w.flavor.waits }

/-! ## Mailboxes -/

/-- The mailbox of a channel, empty before it is first used. -/
def mailbox (w : World) (channel : Int64) : Mailbox := (w.mailboxes.lookup channel).getD {}

def setMailbox (w : World) (channel : Int64) (box : Mailbox) : World :=
  { w with mailboxes := (channel, box) :: w.mailboxes.filter (·.1 != channel) }

theorem mailbox_setMailbox (w : World) (channel other : Int64) (box : Mailbox) :
    (w.setMailbox channel box).mailbox other = if other = channel then box else w.mailbox other := by
  by_cases h : other = channel
  · subst h
    simp [setMailbox, mailbox]
  · have hb : (other == channel) = false := by simpa using h
    simp only [setMailbox, mailbox, List.lookup_cons, hb, h, if_false]
    congr 1
    induction w.mailboxes with
    | nil => rfl
    | cons entry rest ih =>
      obtain ⟨key, held⟩ := entry
      by_cases hk : key = channel
      · subst hk
        simp [List.lookup_cons, hb, ih]
      · by_cases ho : other = key
        · subst ho
          simp [h]
        · have hb' : (other == key) = false := by simpa using ho
          simp [List.lookup_cons, hk, hb', ih]

/-- Take the message of a channel, or leave the number of the poll with its mailbox. -/
def collect (channel : Int64) : Effect World (Poll Value) := fun w =>
  let box := w.mailbox channel
  match box.content with
  | some outcome => .returned (.ready outcome) (w.setMailbox channel { box with content := none })
  | none => .returned .pending (w.setMailbox channel { box with waker := some w.poller })

/-- Put a message into an empty mailbox and wake the poll that waits for it. A full mailbox stays
as it is, and the answer is no. -/
def deliver (channel : Int64) (outcome : Outcome Value) : Effect World Bool := fun w =>
  let box := w.mailbox channel
  match box.content with
  | some _ => .returned false w
  | none =>
    let w := w.setMailbox channel { content := some outcome }
    match box.waker with
    | none => .returned true w
    | some waker => .returned true { w with woken := waker :: w.woken }

end World

end Stepwise.Script
