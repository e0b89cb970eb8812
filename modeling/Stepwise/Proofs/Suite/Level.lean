import Stepwise.Suite.Run
import Stepwise.Proofs.Job.Find
import Stepwise.Proofs.Muted.Due

/-! # The level in a suite

A suite leaves the level of the log alone outside its muted trials, and so does everything a trial does.

* `Act.keeps_poll`: no poll of a trial changes the level, and neither does making it (`Trial.keeps_perform`).
* `Performance.quiet` and `Progress.quiet`: a poll of one part, or of the whole suite, leaves due the level that was
  due, and the log off where a muted trial is under way. For the whole suite this is an induction on the parts that are
  performed in one poll (`performAll_paid`).
* `run_level`: a suite that is polled a number of times and then dropped leaves the level at which it was run, or off.
  It leaves the level at which it was run if it resolved.
-/

namespace Stepwise
set_option autoImplicit false

section Records

variable {W F M β : Type} [Logging W] (hwrite : ∀ record (w : W), LevelKept w (Logging.write record w))
include hwrite

theorem keeps_report {text : Effect W String} (htext : text.Keeps LevelKept) (severity : Level) (target : String) :
    (report severity target text).Keeps LevelKept := by
  intro w
  rw [report]
  split
  · have hlevel := htext w
    cases hm : text w with
    | returned m w' => rw [hm] at hlevel; exact (hwrite _ w').trans hlevel
    | broken reason w' => rw [hm] at hlevel; exact hlevel
    | cut w' => rw [hm] at hlevel; exact hlevel
  · rfl

theorem Statement.keeps_logFailure {message : Effect W String} (hmessage : message.Keeps LevelKept)
    (failure? : Option Failure) (sql : String) : (logFailure failure? message sql).Keeps LevelKept := by
  cases failure? with
  | none => exact Effect.Keeps.pure _
  | some e =>
    refine (keeps_report hwrite (Effect.Keeps.pure _) _ _).bind fun _ => keeps_report hwrite ?_ _ _
    exact hmessage.bind fun _ => Effect.Keeps.pure _

theorem Watched.keeps_level {inner : Poller W F β} {message : M → Effect W String}
    (hinner : ∀ x, (inner x).Keeps LevelKept) (hmessage : ∀ m, (message m).Keeps LevelKept) (x : Watched F M) :
    (x.poll inner message).Keeps LevelKept := by
  cases x with
  | finished => exact Effect.Keeps.pure _
  | active x m sql =>
    refine (hinner x).bind fun r => ?_
    obtain ⟨answer, x⟩ := r
    cases answer with
    | ready outcome =>
      cases outcome with
      | ok v => exact Effect.Keeps.pure _
      | error e =>
        exact (Statement.keeps_logFailure hwrite (hmessage m) (some e) sql).bind fun _ => Effect.Keeps.pure _
    | _ => exact Effect.Keeps.pure _

end Records

namespace Suite

open Muting

/-! ## Trials -/

theorem Trial.keeps_kit (t : Trial) (flavor : Flavor) : (t.kit flavor).Keeps LevelKept where
  next source := by cases source <;> exact Effect.Keeps.pure _
  test _ _ := fun _ => rfl
  step calls call := by
    intro h
    change LevelKept h (t.step flavor calls call h).world
    rw [Trial.step]
    split <;> rfl

theorem Trial.keeps_poll (t : Trial) (flavor : Flavor) (step : MeterStep Int32) :
    ((t.kit flavor).poll step).Keeps LevelKept := by
  cases step with
  | resolved x => cases x <;> exact Effect.Keeps.pure _
  | fresh outcome => exact Effect.Keeps.bind (fun _ => rfl) fun _ => Effect.Keeps.pure _
  | yielded outcome => exact Effect.Keeps.bind (fun _ => rfl) fun _ => Effect.Keeps.pure _
  | spent => exact Effect.Keeps.pure _

theorem Trial.keeps_perform (flavor : Flavor) (fuel : Nat) (t : Trial) : (t.perform flavor fuel).Keeps LevelKept := by
  have hkit := t.keeps_kit flavor
  refine Effect.Keeps.bind (fun _ => rfl) fun _ => ?_
  refine (Job.keeps_start hkit.next hkit.step fuel t.plan () 0).bind fun job => ?_
  split <;> exact Effect.Keeps.pure _

theorem Trial.keeps_answer (t : Trial) (answer : Poll (Option Int32)) : (t.answer answer).Keeps LevelKept := by
  cases answer with
  | ready outcome => exact Effect.Keeps.reads _
  | _ => exact Effect.Keeps.pure _

theorem Act.keeps_poll (flavor : Flavor) (fuel : Nat) (act : Act) : (act.poll flavor fuel).Keeps LevelKept := by
  cases act with
  | plain t job =>
    refine (Job.keeps_poll (t.keeps_kit flavor) (t.keeps_poll flavor) fuel job).bind fun r => ?_
    exact (t.keeps_answer r.1).bind fun _ => Effect.Keeps.pure _
  | watched t job =>
    have hwrite : ∀ record (h : Hall), LevelKept h (Logging.write record h) := fun _ _ => rfl
    have hjob := Job.keeps_poll (t.keeps_kit flavor) (t.keeps_poll flavor) fuel
    refine (Watched.keeps_level hwrite hjob (fun m => Effect.Keeps.pure m) job).bind fun r => ?_
    exact (t.keeps_answer r.1).bind fun _ => Effect.Keeps.pure _

/-! ## What is due -/

/-- The level that the muted trial under way has kept aside. -/
def Performance.back : Performance → Option Level
  | .plain _ => none
  | .muted region => region.back

def Progress.back : Progress → Option Level
  | .running now _ => now.back
  | _ => none

theorem Performance.quiet (flavor : Flavor) (fuel : Nat) : Quiet (Performance.poll flavor fuel) back := by
  intro now h
  cases now with
  | plain act =>
    refine ((act.keeps_poll flavor fuel).ensures h).result.bind ?_
    exact fun r h' hlevel => ⟨⟨hlevel, fun _ => rfl⟩, nofun⟩
  | muted region =>
    have hset : ∀ level (h : Hall), Logging.level (Logging.setLevel level h) = level := fun _ _ => rfl
    refine (Muted.quiet hset (Trial.keeps_perform flavor fuel) (Act.keeps_poll flavor fuel) region h).bind ?_
    exact fun r h' hpaid => ⟨⟨hpaid.due, hpaid.closed⟩, hpaid.quiet⟩

theorem Part.begin_due (flavor : Flavor) (fuel : Nat) (part : Part) (h : Hall) :
    (part.begin flavor fuel h).Ensures (fun _ => True) fun now h' => now.back = none ∧ LevelKept h h' := by
  cases part with
  | plain t =>
    refine ((t.keeps_perform flavor fuel).ensures h).result.bind ?_
    exact fun act h' hlevel => ⟨rfl, hlevel⟩
  | muted t => exact ⟨rfl, rfl⟩

theorem performAll_cons (flavor : Flavor) (fuel : Nat) (part : Part) (rest : List Part) :
    performAll flavor fuel (part :: rest) = (do
      let now ← part.begin flavor fuel
      Progress.poll flavor fuel (.running now rest)) := rfl

/-- A part that is performed to its end keeps nothing aside, so the next one finds the level that was due. -/
theorem running_paid {flavor : Flavor} {fuel : Nat} {rest : List Part}
    (hrest : ∀ h, (performAll flavor fuel rest h).Ensures (fun _ => True) (QuietlyPaid Progress.back (.fresh rest) h))
    (now : Performance) (h : Hall) :
    (Progress.poll flavor fuel (.running now rest) h).Ensures (fun _ => True)
      (QuietlyPaid Progress.back (.running now rest) h) := by
  refine (Performance.quiet flavor fuel now h).bind ?_
  rintro ⟨answer, now'⟩ h' hpaid
  have hrunning : QuietlyPaid Progress.back (.running now rest) h (answer, .running now' rest) h' :=
    ⟨⟨hpaid.due, hpaid.closed⟩, hpaid.quiet⟩
  cases answer with
  | pending => exact hrunning
  | panicked c => exact hrunning
  | ready outcome =>
    cases outcome with
    | error e => exact hrunning
    | ok u =>
      -- the part is over, so the rest begins at the level that was due
      have hlevel : h'.level = due now.back h := by
        rw [← hpaid.due, hpaid.closed rfl]
        rfl
      exact (hrest h').mono (fun _ h => h) fun _ _ hr => hr.of_begun rfl hlevel

theorem performAll_paid (flavor : Flavor) (fuel : Nat) (parts : List Part) (h : Hall) :
    (performAll flavor fuel parts h).Ensures (fun _ => True) (QuietlyPaid Progress.back (.fresh parts) h) := by
  induction parts generalizing h with
  | nil => exact ⟨⟨rfl, fun _ => rfl⟩, nofun⟩
  | cons part rest ih =>
    rw [performAll_cons]
    refine (part.begin_due flavor fuel h).bind ?_
    rintro now h' ⟨hnone, hlevel⟩
    exact (running_paid ih now h').mono (fun _ h => h) fun _ _ hr => hr.of_begun hnone hlevel

theorem Progress.quiet (flavor : Flavor) (fuel : Nat) : Quiet (Progress.poll flavor fuel) back := by
  intro progress h
  cases progress with
  | finished => exact ⟨⟨rfl, nofun⟩, nofun⟩
  | fresh parts => exact performAll_paid flavor fuel parts h
  | running now rest => exact running_paid (performAll_paid flavor fuel rest) now h

/-! ## Dropped at any time -/

/-- The level of a suite that was run at `initial`, between two polls. -/
structure Dimmed (initial : Level) (progress : Progress) (h : Hall) : Prop where
  due : due progress.back h = initial
  off : progress.back.isSome = true → h.level = .off

theorem Dimmed.level {initial : Level} {progress : Progress} {h : Hall} (hd : Dimmed initial progress h) :
    h.level = initial ∨ h.level = .off := by
  cases hb : progress.back with
  | none =>
    have hdue := hd.due
    rw [hb] at hdue
    exact Or.inl hdue
  | some level => exact Or.inr (hd.off (by rw [hb]; rfl))

theorem Dimmed.polled {initial : Level} {progress progress' : Progress} {h h' : Hall} {answer : Poll Unit}
    (hd : Dimmed initial progress h) (hpaid : QuietlyPaid Progress.back progress h (answer, progress') h') :
    Dimmed initial progress' h' where
  due := hpaid.due.trans hd.due
  off hopen := by
    obtain hoff | ⟨hsome, hlevel⟩ := hpaid.quiet hopen
    · exact hoff
    · exact hlevel.trans (hd.off hsome)

theorem pollUpTo_level (flavor : Flavor) (fuel limit made : Nat) {initial : Level} {progress : Progress} {h : Hall}
    (hd : Dimmed initial progress h) :
    (pollUpTo flavor fuel limit made progress h).Ensures (fun _ => True) fun report h' =>
      (h'.level = initial ∨ h'.level = .off) ∧
        ∀ outcome, report.answer = some (.ready outcome) → h'.level = initial := by
  induction limit generalizing made progress h with
  | zero => exact ⟨hd.level, nofun⟩
  | succ limit ih =>
    refine (Progress.quiet flavor fuel progress h).bind ?_
    rintro ⟨answer, progress'⟩ h' hpaid
    have hd' := hd.polled hpaid
    cases answer with
    | pending => exact ih (made + 1) hd'
    | panicked c => exact ⟨hd'.level, nofun⟩
    | ready outcome =>
      refine ⟨hd'.level, fun _ _ => ?_⟩
      have hclosed : progress'.back = none := hpaid.closed rfl
      rw [← hd'.due, hclosed]
      rfl

/-- However often a suite is polled before it is dropped, it leaves the level at which it was run, or off; where it has
resolved it leaves the level at which it was run. -/
theorem run_level (flavor : Flavor) (fuel limit : Nat) (h : Hall) :
    (run flavor fuel limit h).Ensures (fun _ => True) fun report h' =>
      (h'.level = h.level ∨ h'.level = .off) ∧ ∀ outcome, report.answer = some (.ready outcome) → h'.level = h.level :=
  pollUpTo_level flavor fuel limit 0 ⟨rfl, nofun⟩

end Suite

end Stepwise
