import Stepwise.Script.Session
import Stepwise.Proofs.Script.Finish

/-! # A loop alone in its session

`alone` makes a loop that has a session for itself and polls it until it answers. Its polls are those of
`Stage.await` with the gap `World.ticked`, which numbers the next poll.

* `Session.shown_finish`: what the session shows is what awaiting the task comes to.
* `Session.polls_finish`: the number of polls is how far the numbering of the polls has moved.
* `Session.finish_limit`: once there is an answer, the limit on the polls does not matter.
-/

namespace Stepwise.Script
set_option autoImplicit false

/-- The world in the next poll. -/
def World.ticked (w : World) : World := { w with poller := w.poller + 1 }

/-- Make a loop that is alone in its session, and poll it until its answer is not pending, so many times
at most and once at least. -/
def alone (flavor : Flavor) (spec : Spec) (fuel limit : Nat) : Ending Session Session.Reply :=
  (do
    let _ ← Session.perform fuel (.create 0)
    Session.perform fuel (.finish 0 limit)) (Session.start [spec] flavor)

namespace Session

/-- A session with one loop under way. -/
def single (specs : List Spec) (task : Option Task) (world : World) : Session where
  specs
  tasks := [task]
  world

/-- The answer to a poll that resolves a loop. -/
def answerOf : Resolution Value → Answer
  | .ok o => .polled (.ready o)
  | .error c => .polled (.panicked c)

theorem answerOf_ne_pending (r : Resolution Value) : answerOf r ≠ .polled .pending := by
  cases r <;> exact nofun

/-- What some polls show: the last answer and the world. -/
def shown : Ending Session (Nat × Answer) → Ending World Answer
  | .returned r s => .returned r.2 s.world
  | .broken reason s => .broken reason s.world
  | .cut s => .cut s.world

/-- What a session says of a computation that was awaited; it reports a breakdown. -/
def told : Ending World (Awaited Task Value) → Ending World Answer
  | .returned (.waiting _) w => .returned (.polled .pending) w
  | .returned (.resolved r _) w => .returned (answerOf r) w
  | .broken reason w => .returned (.broken reason) w
  | .cut w => .cut w

/-- What a session says of a computation that was carried through. -/
def said : Ending World (Resolution Value) → Ending World Answer
  | .returned r w => .returned (answerOf r) w
  | .broken reason w => .returned (.broken reason) w
  | .cut w => .cut w

theorem told_map (e : Ending World (Resolution Value)) (m : Nat) :
    told (e.map (.resolved · m)) = said e := by
  cases e <;> rfl

theorem world_of_said {e : Ending World (Resolution Value)} {answer : Answer} {w : World}
    (h : said e = .returned answer w) : e.world = w := by
  cases e <;> cases h <;> rfl

theorem finish_of_shown {e : Ending Session (Nat × Answer)} {answer : Answer} {w : World}
    (h : shown e = .returned answer w) :
    ∃ polls s, e = .returned (polls, answer) s ∧ s.world = w := by
  cases e with
  | returned r s => cases h; exact ⟨r.1, s, rfl, rfl⟩
  | broken reason s => cases h
  | cut s => cases h

section Polls

variable {specs : List Spec} {fuel : Nat} {task task' : Task} {w w' : World}

theorem poll_single (specs : List Spec) (fuel : Nat) (task : Task) (w : World) :
    poll fuel 0 (single specs (some task) w) =
      match Task.poll fuel task w.ticked with
      | .returned (.panicked c, _) w => .returned (.polled (.panicked c)) (single specs none w)
      | .returned (answer, task) w => .returned (.polled answer) (single specs (some task) w)
      | .broken reason w => .returned (.broken reason) (single specs none w)
      | .cut w => .cut (single specs (some task) w) := by
  change (onWorld (Task.poll fuel task).attempt >>= _) (single specs (some task) w.ticked) = _
  cases h : Task.poll fuel task w.ticked with
  | returned r w' =>
    have hm : onWorld (Task.poll fuel task).attempt (single specs (some task) w.ticked) =
        .returned (.ok r) (single specs (some task) w') := by
      simp only [onWorld, Effect.attempt, single, h]
    rw [Effect.bind_of_returned _ hm]
    obtain ⟨answer, task'⟩ := r
    cases answer <;> rfl
  | broken reason w' =>
    have hm : onWorld (Task.poll fuel task).attempt (single specs (some task) w.ticked) =
        .returned (.error reason) (single specs (some task) w') := by
      simp only [onWorld, Effect.attempt, single, h]
    rw [Effect.bind_of_returned _ hm]
    rfl
  | cut w' =>
    have hm : onWorld (Task.poll fuel task).attempt (single specs (some task) w.ticked) =
        .cut (single specs (some task) w') := by
      simp only [onWorld, Effect.attempt, single, h]
    exact Effect.bind_of_cut _ hm

theorem finish_zero {s s' : Session} {answer : Answer} (index made : Nat)
    (h : poll fuel index s = .returned answer s') :
    finish fuel index 0 made s = .returned (made + 1, answer) s' := Effect.bind_of_returned _ h

theorem finish_succ_pending {s s' : Session} (index more made : Nat)
    (h : poll fuel index s = .returned (.polled .pending) s') :
    finish fuel index (more + 1) made s = finish fuel index more (made + 1) s' :=
  Effect.bind_of_returned _ h

/-- The first answer that is not pending is the last one. -/
theorem finish_of_answer {s s' : Session} {answer : Answer} (index more made : Nat)
    (h : poll fuel index s = .returned answer s') (hanswer : answer ≠ .polled .pending) :
    finish fuel index more made s = .returned (made + 1, answer) s' := by
  cases more with
  | zero => exact Effect.bind_of_returned _ h
  | succ more =>
    rw [finish, Effect.bind_of_returned _ h]
    cases answer with
    | polled p =>
      cases p with
      | pending => exact absurd rfl hanswer
      | _ => rfl
    | _ => rfl

theorem finish_of_cut {s s' : Session} (index more made : Nat) (h : poll fuel index s = .cut s') :
    finish fuel index more made s = .cut s' := by
  cases more with
  | zero => exact Effect.bind_of_cut _ h
  | succ more => rw [finish, Effect.bind_of_cut _ h]

theorem shown_finish_of_answer (specs : List Spec) (more made : Nat)
    (h : ∀ x v, Task.poll fuel task w.ticked ≠ .returned (.pending, x) v) :
    shown (finish fuel 0 more made (single specs (some task) w)) =
      told ((Task.poll fuel).stage.await (Task.poll fuel).stage World.ticked more task w.ticked) := by
  have hpoll := poll_single specs fuel task w
  cases ht : Task.poll fuel task w.ticked with
  | cut v =>
    rw [ht] at hpoll
    have hstage : (Task.poll fuel).stage task w.ticked = .cut v := Effect.bind_of_cut _ ht
    rw [finish_of_cut _ _ _ hpoll, Stage.await, Effect.bind_of_cut _ hstage]
    rfl
  | broken reason v =>
    rw [ht] at hpoll
    have hstage : (Task.poll fuel).stage task w.ticked = .broken reason v := Effect.bind_of_broken _ ht
    rw [finish_of_answer _ _ _ hpoll (fun h => by cases h), Stage.await, Effect.bind_of_broken _ hstage]
    rfl
  | returned r v =>
    obtain ⟨answer, x⟩ := r
    cases answer with
    | pending => exact absurd ht (h x v)
    | ready o =>
      rw [ht] at hpoll
      have hstage : (Task.poll fuel).stage task w.ticked = .returned (.inl (.ok o)) v :=
        Effect.bind_of_returned _ ht
      rw [finish_of_answer _ _ _ hpoll (fun h => by cases h), Stage.await_of_inl _ _ _ hstage]
      rfl
    | panicked c =>
      rw [ht] at hpoll
      have hstage : (Task.poll fuel).stage task w.ticked = .returned (.inl (.error c)) v :=
        Effect.bind_of_returned _ ht
      rw [finish_of_answer _ _ _ hpoll (fun h => by cases h), Stage.await_of_inl _ _ _ hstage]
      rfl

/-- What is shown is what awaiting the task comes to. -/
theorem shown_finish (specs : List Spec) (fuel more made : Nat) (task : Task) (w : World) :
    shown (finish fuel 0 more made (single specs (some task) w)) =
      told ((Task.poll fuel).stage.await (Task.poll fuel).stage World.ticked more task w.ticked) := by
  induction more generalizing made task w with
  | zero =>
    by_cases h : ∃ x v, Task.poll fuel task w.ticked = .returned (.pending, x) v
    · obtain ⟨x, v, hpending⟩ := h
      have hpoll := poll_single specs fuel task w
      have hstage : (Task.poll fuel).stage task w.ticked = .returned (.inr x) v :=
        Effect.bind_of_returned _ hpending
      rw [hpending] at hpoll
      have hfinish : finish fuel 0 0 made (single specs (some task) w) =
          .returned (made + 1, .polled .pending) (single specs (some x) v) :=
        Effect.bind_of_returned _ hpoll
      rw [hfinish, Stage.await_of_inr _ _ _ hstage]
      rfl
    · exact shown_finish_of_answer specs 0 made fun x v hx => h ⟨x, v, hx⟩
  | succ more ih =>
    by_cases h : ∃ x v, Task.poll fuel task w.ticked = .returned (.pending, x) v
    · obtain ⟨x, v, hpending⟩ := h
      have hpoll := poll_single specs fuel task w
      have hstage : (Task.poll fuel).stage task w.ticked = .returned (.inr x) v :=
        Effect.bind_of_returned _ hpending
      rw [hpending] at hpoll
      rw [finish_succ_pending 0 more made hpoll, Stage.await_of_inr _ _ _ hstage,
        Stage.awaitRest_succ]
      exact ih (made + 1) x v
    · exact shown_finish_of_answer specs (more + 1) made fun x v hx => h ⟨x, v, hx⟩

theorem poller_poll {answer : Answer} {s : Session}
    (h : poll fuel 0 (single specs (some task) w) = .returned answer s) :
    s.world.poller = w.poller + 1 ∧
      (answer = .polled .pending → ∃ x v, s = single specs (some x) v) := by
  have hkeeps := (Task.keeps_poll fuel task w.ticked).2
  rw [poll_single] at h
  cases ht : Task.poll fuel task w.ticked with
  | cut v => rw [ht] at h; cases h
  | broken reason v =>
    rw [ht] at h hkeeps
    cases h
    exact ⟨hkeeps, nofun⟩
  | returned r v =>
    obtain ⟨a, x⟩ := r
    rw [ht] at h hkeeps
    cases a with
    | pending => cases h; exact ⟨hkeeps, fun _ => ⟨x, v, rfl⟩⟩
    | ready o => cases h; exact ⟨hkeeps, nofun⟩
    | panicked c => cases h; exact ⟨hkeeps, nofun⟩

theorem finish_first {index more made polls : Nat} {answer : Answer} {s s' : Session}
    (h : finish fuel index more made s = .returned (polls, answer) s') :
    ∃ a t, poll fuel index s = .returned a t := by
  cases hp : poll fuel index s with
  | returned a t => exact ⟨a, t, rfl⟩
  | broken reason t => cases more <;> rw [finish, Effect.bind_of_broken _ hp] at h <;> cases h
  | cut t => rw [finish_of_cut index more made hp] at h; cases h

/-- The numbering of the polls says how many polls were made. -/
theorem polls_finish {more made polls : Nat} {answer : Answer} {s : Session}
    (h : finish fuel 0 more made (single specs (some task) w) = .returned (polls, answer) s) :
    s.world.poller + made = w.poller + polls := by
  induction more generalizing made task w with
  | zero =>
    obtain ⟨a, t, hp⟩ := finish_first h
    rw [finish_zero 0 made hp] at h
    cases h
    have hpoller := (poller_poll hp).1
    omega
  | succ more ih =>
    obtain ⟨a, t, hp⟩ := finish_first h
    obtain ⟨hpoller, hsingle⟩ := poller_poll hp
    by_cases ha : a = .polled .pending
    · subst ha
      obtain ⟨x, v, rfl⟩ := hsingle rfl
      rw [finish_succ_pending 0 more made hp] at h
      have hrest := ih h
      change v.poller = w.poller + 1 at hpoller
      omega
    · rw [finish_of_answer 0 (more + 1) made hp ha] at h
      cases h
      omega

theorem made_lt {index more made polls : Nat} {answer : Answer} {s s' : Session}
    (h : finish fuel index more made s = .returned (polls, answer) s') : made < polls := by
  induction more generalizing made s with
  | zero =>
    obtain ⟨a, t, hp⟩ := finish_first h
    rw [finish_zero index made hp] at h
    cases h
    exact Nat.lt_succ_self made
  | succ more ih =>
    obtain ⟨a, t, hp⟩ := finish_first h
    by_cases ha : a = .polled .pending
    · subst ha
      rw [finish_succ_pending index more made hp] at h
      exact (Nat.lt_succ_self made).trans (ih h)
    · rw [finish_of_answer index (more + 1) made hp ha] at h
      cases h
      exact Nat.lt_succ_self made

/-- Once there is an answer, the limit on the polls does not matter. -/
theorem finish_limit {index more more' made polls : Nat} {answer : Answer} {s s' : Session}
    (h : finish fuel index more made s = .returned (polls, answer) s')
    (hanswer : answer ≠ .polled .pending) (hpolls : polls ≤ made + more' + 1) :
    finish fuel index more' made s = .returned (polls, answer) s' := by
  induction more generalizing more' made s with
  | zero =>
    obtain ⟨a, t, hp⟩ := finish_first h
    rw [finish_zero index made hp] at h
    cases h
    exact finish_of_answer index more' made hp hanswer
  | succ more ih =>
    obtain ⟨a, t, hp⟩ := finish_first h
    by_cases ha : a = .polled .pending
    · subst ha
      rw [finish_succ_pending index more made hp] at h
      have hmade := made_lt h
      obtain ⟨more', rfl⟩ : ∃ n, more' = n + 1 := ⟨more' - 1, by omega⟩
      rw [finish_succ_pending index more' made hp]
      exact ih h (by omega)
    · rw [finish_of_answer index (more + 1) made hp ha] at h
      cases h
      exact finish_of_answer index more' made hp hanswer

end Polls

/-! ## Making the loop -/

section Making

variable (flavor : Flavor) (spec : Spec) {fuel : Nat}

theorem alone_eq (fuel limit : Nat) :
    alone flavor spec fuel limit =
      (onWorld (launch (build fuel) fuel [] spec.shape spec.step) >>= fun task =>
        setTask 0 (some task) >>= fun _ =>
          finish fuel 0 (limit - 1) 0 >>= fun r => pure (Reply.finished r.1 r.2))
            (single [spec] none { flavor }) := by
  change (((onWorld (launch (build fuel) fuel [] spec.shape spec.step) >>= fun task =>
    setTask 0 (some task)) >>= fun _ => pure Reply.nothing) >>= fun _ =>
      finish fuel 0 (limit - 1) 0 >>= fun r => pure (Reply.finished r.1 r.2))
        (single [spec] none { flavor }) = _
  simp only [bind_assoc, pure_bind]

theorem finished_eq {m : Effect Session (Nat × Answer)} {polls : Nat} {answer : Answer}
    {s s' : Session}
    (h : (m >>= fun r => pure (Reply.finished r.1 r.2)) s = .returned (.finished polls answer) s') :
    m s = .returned (polls, answer) s' := by
  rw [Effect.bind_apply] at h
  cases hm : m s with
  | returned r t => rw [hm] at h; cases h; rfl
  | broken reason t => rw [hm] at h; cases h
  | cut t => rw [hm] at h; cases h

theorem alone_of_returned {task : Task} {w : World}
    (h : launch (build fuel) fuel [] spec.shape spec.step { flavor } = .returned task w)
    (limit : Nat) :
    alone flavor spec fuel limit =
      (finish fuel 0 (limit - 1) 0 >>= fun r => pure (Reply.finished r.1 r.2))
        (single [spec] (some task) w) := by
  have hmake : onWorld (launch (build fuel) fuel [] spec.shape spec.step)
      (single [spec] none { flavor }) = .returned task (single [spec] none w) := by
    simp only [onWorld, single, h]
  rw [alone_eq, Effect.bind_of_returned _ hmake]
  rfl

theorem alone_of_broken {reason : Breakdown} {w : World}
    (h : launch (build fuel) fuel [] spec.shape spec.step { flavor } = .broken reason w)
    (limit : Nat) : alone flavor spec fuel limit = .broken reason (single [spec] none w) := by
  have hmake : onWorld (launch (build fuel) fuel [] spec.shape spec.step)
      (single [spec] none { flavor }) = .broken reason (single [spec] none w) := by
    simp only [onWorld, single, h]
  rw [alone_eq, Effect.bind_of_broken _ hmake]

theorem alone_of_cut {w : World}
    (h : launch (build fuel) fuel [] spec.shape spec.step { flavor } = .cut w) (limit : Nat) :
    alone flavor spec fuel limit = .cut (single [spec] none w) := by
  have hmake : onWorld (launch (build fuel) fuel [] spec.shape spec.step)
      (single [spec] none { flavor }) = .cut (single [spec] none w) := by
    simp only [onWorld, single, h]
  rw [alone_eq, Effect.bind_of_cut _ hmake]

end Making

end Session

end Stepwise.Script
