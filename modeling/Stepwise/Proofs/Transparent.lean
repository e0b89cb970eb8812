import Stepwise.Script.World
import Stepwise.Proofs.Alike
import Stepwise.Proofs.Watched

/-! # Watching changes no outcome

A computation that is watched does what it does without being watched, poll for poll, and gives the same answers.
What is added is added when the last answer is a failure, and after all that was done for this answer.

* `Statement.announcement` is what is logged of a failure. `Statement.logFailure_some` says that `logFailure` does
  this, wherever a record that is written leaves the level as it is.
* `Watched.asked_active`: one time, by induction on the polls.
* `Watches.asked_wrap`: as many times as one likes, by induction on the labels. The inner ones come first.
-/

namespace Stepwise
set_option autoImplicit false

variable {W F M β : Type}

/-! ## The records of a failure -/

namespace Statement

variable [Logging W]

/-- The statement and then the failure, with a message that is composed after the first record is written. Where
the level lets no error through nothing is written, and the message is not composed. -/
def announcement (message : Effect W String) (sql : String) (e : Failure) : Effect W Unit := do
  let level ← Effect.reads Logging.level
  if level.admits .error then do
    Effect.changes (Logging.write ⟨.error, target, "Failed to execute statement:\n" ++ display sql⟩)
    let text ← message
    Effect.changes (Logging.write ⟨.error, target, text ++ ": " ++ ": ".intercalate e.chain⟩)
  else pure ()

theorem announcement_of_admits (message : Effect W String) (sql : String) (e : Failure) {w : W}
    (h : (Logging.level w).admits .error = true) :
    announcement message sql e w =
      (message >>= fun text =>
        Effect.changes (Logging.write ⟨.error, target, text ++ ": " ++ ": ".intercalate e.chain⟩))
      (Logging.write ⟨.error, target, "Failed to execute statement:\n" ++ display sql⟩ w) := by
  have hlevel : Effect.reads Logging.level w = .returned (Logging.level w) w := rfl
  rw [announcement, Effect.bind_of_returned _ hlevel, if_pos h]
  exact Effect.bind_of_returned _ rfl

theorem announcement_of_not_admits (message : Effect W String) (sql : String) (e : Failure) {w : W}
    (h : (Logging.level w).admits .error = false) : announcement message sql e w = .returned () w := by
  have hlevel : Effect.reads Logging.level w = .returned (Logging.level w) w := rfl
  rw [announcement, Effect.bind_of_returned _ hlevel, h]
  rfl

theorem report_of_admits {severity : Level} (target : String) (text : Effect W String) {w : W}
    (h : (Logging.level w).admits severity = true) :
    report severity target text w =
      (text >>= fun text => Effect.changes (Logging.write ⟨severity, target, text⟩)) w := by
  rw [report, if_pos h, Effect.bind_apply]
  cases text w <;> rfl

/-- The level is looked at before each record, and the first record leaves it as it is. -/
theorem logFailure_some (hlevel : ∀ record (w : W), Logging.level (Logging.write record w) = Logging.level w)
    (message : Effect W String) (sql : String) (e : Failure) :
    logFailure (some e) message sql = announcement message sql e := by
  funext w
  cases h : (Logging.level w).admits .error with
  | true =>
    have hfirst : report .error target (pure ("Failed to execute statement:\n" ++ display sql)) w =
        .returned () (Logging.write ⟨.error, target, "Failed to execute statement:\n" ++ display sql⟩ w) :=
      report_of_admits target _ h
    rw [logFailure, Effect.bind_of_returned _ hfirst, announcement_of_admits message sql e h]
    rw [← hlevel] at h
    rw [report_of_admits _ _ h, bind_assoc]
    rfl
  | false =>
    have hnone := fun text => report_of_not_admits target text h
    rw [logFailure, Effect.bind_of_returned _ (hnone _), announcement_of_not_admits message sql e h]
    exact hnone _

end Statement

/-! ## The polls -/

/-- The failure that is the last answer. -/
def Poll.lastFailure (answers : List (Poll β)) : Option Failure := answers.getLast?.bind Poll.failure?

theorem Poll.lastFailure_pending (answers : List (Poll β)) :
    Poll.lastFailure (.pending :: answers) = Poll.lastFailure answers := by
  cases answers with
  | nil => rfl
  | cons answer answers => rw [lastFailure, List.getLast?_cons_cons, lastFailure]

section Watching

variable [Logging W] (inner : Poller W F β) (message : M → Effect W String)

theorem Watched.asked_active (gaps : List (Effect W Unit)) (x : F) (m : M) (sql : String) :
    (Watched.poll inner message).asked gaps (.active x m sql) = (do
      let answers ← inner.asked gaps x
      Statement.logFailure (Poll.lastFailure answers) (message m) sql
      pure answers) := by
  induction gaps generalizing x with
  | nil => rfl
  | cons gap gaps ih =>
    simp only [Poller.asked, Watched.poll, bind_assoc]
    refine bind_congr fun _ => bind_congr fun r => ?_
    obtain ⟨answer, x⟩ := r
    cases answer with
    | pending =>
      simp only [pure_bind, bind_assoc, ih, Poll.lastFailure_pending]
    | panicked c => rfl
    | ready outcome =>
      cases outcome with
      | ok v => rfl
      | error e =>
        -- what is logged comes after the last poll
        simp only [bind_assoc, pure_bind]
        rfl

namespace Watches

/-- What is added to the polls: nothing, or what each of the labels says of the failure, the innermost first. -/
def announced : Option Failure → List (M × String) → Effect W Unit
  | none, _ => pure ()
  | some e, labels => forM labels.reverse fun label =>
    Statement.announcement (message label.1) label.2 e

/-- One more label, which is the outermost. -/
theorem announced_cons (hlevel : ∀ record (w : W), Logging.level (Logging.write record w) = Logging.level w)
    (failure? : Option Failure) (label : M × String) (labels : List (M × String)) :
    announced message failure? (label :: labels) = (do
      announced message failure? labels
      Statement.logFailure failure? (message label.1) label.2) := by
  cases failure? with
  | none => rfl
  | some e =>
    simp only [announced, List.reverse_cons, List.forM_append, List.forM_cons, List.forM_nil, bind_pure_unit,
      Statement.logFailure_some hlevel]

theorem asked_wrap (hlevel : ∀ record (w : W), Logging.level (Logging.write record w) = Logging.level w)
    (labels : List (M × String)) (gaps : List (Effect W Unit)) (x : F) :
    (Watches.poll inner message labels.length).asked gaps (Watches.wrap x labels) = (do
      let answers ← inner.asked gaps x
      announced message (Poll.lastFailure answers) labels
      pure answers) := by
  induction labels with
  | nil =>
    have hnone : ∀ failure?, announced message failure? ([] : List (M × String)) = pure () := by
      intro failure?
      cases failure? <;> rfl
    simp only [hnone, pure_bind, bind_pure]
    rfl
  | cons label labels ih =>
    have hone := Watched.asked_active (Watches.poll inner message labels.length) message gaps
      (Watches.wrap x labels) label.1 label.2
    rw [ih] at hone
    simp only [bind_assoc, pure_bind] at hone
    simp only [announced_cons message hlevel, bind_assoc]
    exact hone

/-- A computation that is watched any number of times answers as if it were not, after the same effects. After a
failure the records of each time follow, the innermost first, and nothing is added otherwise. -/
theorem transparent (hlevel : ∀ record (w : W), Logging.level (Logging.write record w) = Logging.level w) :
    (∀ (labels : List (M × String)) gaps x,
      (Watches.poll inner message labels.length).asked gaps (Watches.wrap x labels) = (do
        let answers ← inner.asked gaps x
        announced message (Poll.lastFailure answers) labels
        pure answers)) ∧
    ∀ m sql, Statement.logFailure none (message m) sql = pure () ∧
      ∀ e, Statement.logFailure (some e) (message m) sql = Statement.announcement (message m) sql e := by
  refine ⟨asked_wrap inner message hlevel, fun m sql => ⟨rfl, fun e => ?_⟩⟩
  exact Statement.logFailure_some hlevel (message m) sql e

end Watches

end Watching

namespace Watches

/-! ## A failure that is watched two times -/

def timeout : Failure := ⟨.message "timeout", ["connecting"]⟩

def labels : List (String × String) := [("outer", "BEGIN;"), ("inner", "SELECT 1;")]

def ofImmediate : Poller Script.World (Watches (Immediate Int32) String labels.length) Int32 :=
  Watches.poll Immediate.poll (fun text => pure text) labels.length

theorem transparent_timeout :
    (∀ record (w : Script.World), Logging.level (Logging.write record w) = Logging.level w) ∧
    (ofImmediate.asked [pure (), Script.World.wake] (Watches.wrap (Immediate.failed timeout) labels) = do
      let answers ← Immediate.poll.asked [pure (), Script.World.wake] (Immediate.failed timeout)
      announced (fun text => pure text) (Poll.lastFailure answers) labels
      pure answers) := by
  have hlevel : ∀ record (w : Script.World), Logging.level (Logging.write record w) = Logging.level w :=
    fun _ _ => rfl
  have h := transparent (Immediate.poll : Poller Script.World (Immediate Int32) Int32)
    (fun text : String => pure text) hlevel
  exact ⟨hlevel, h.1 labels _ _⟩

/-- The latest record is the first one. -/
example :
    ofImmediate.asked [Script.World.wake] (Watches.wrap (Immediate.failed timeout) labels) { level := .error } =
      .returned [.ready (.error timeout)]
        { level := .error
          woken := [0]
          events := [
            .record ⟨.error, "reloop::errors", "outer: connecting: timeout"⟩,
            .record ⟨.error, "reloop::errors", "Failed to execute statement:\nBEGIN;"⟩,
            .record ⟨.error, "reloop::errors", "inner: connecting: timeout"⟩,
            .record ⟨.error, "reloop::errors", "Failed to execute statement:\nSELECT 1;"⟩] } := rfl

end Watches

end Stepwise
