import Stepwise.Proofs.Script.Finish
import Stepwise.Proofs.Job.Paired

/-! # Scripts that never give way

`Program.unsuspended` is a program with all its suspensions set to zero. This module runs a program side
by side with it: the left one is carried through, the right one is polled once.

* `World.Aligned z d`: the two worlds look the same but for the polls, and the left run has used up all
  its waits but `d` since poll number `z`.
* `Task.Delays d`: carrying the left task through takes `d` polls more than are accounted for, and
  comes to what one poll of the right task gives.
* `build_late`: building a silent program gives such tasks, by induction on the program.
-/

namespace Stepwise.Script
set_option autoImplicit false

/-! ## What happens besides polls -/

/-- The event is not the poll of a step. -/
def Event.isHappening : Event → Bool
  | .poll _ => false
  | _ => true

/-- What has happened in a world besides polls, in order. -/
def World.happenings (w : World) : List Event := (w.events.filter Event.isHappening).reverse

theorem World.Grows.happenings {w w' : World} (h : w.Grows w') :
    w.happenings <+: w'.happenings := List.reverse_prefix.2 (h.filter Event.isHappening)

/-- The program with all its suspensions set to zero. -/
def Program.unsuspended : Program → Program
  | .set register value next => .set register value next.unsuspended
  | .branch condition yes no => .branch condition yes.unsuspended no.unsuspended
  | .suspend _ next => .suspend (.literal (.int 0)) next.unsuspended
  | .loop shape step => .loop shape step.unsuspended
  | .ok value => .ok value
  | .fail failure => .fail failure
  | .receive channel => .receive channel
  | .meter value => .meter value
  | .meterFail number => .meterFail number

/-- The program waits for no message. -/
def Program.isSilent : Program → Bool
  | .set _ _ next => next.isSilent
  | .branch _ yes no => yes.isSilent && no.isSilent
  | .suspend _ next => next.isSilent
  | .loop _ step => step.isSilent
  | .receive _ => false
  | _ => true

/-- The worlds of a run and of the run without suspensions. Since poll number `z` the first one has
waited for all that it had to but `d` polls. -/
structure World.Aligned (z d : Nat) (w v : World) : Prop where
  happenings : w.happenings = v.happenings
  registers : w.registers = v.registers
  nextStep : w.nextStep = v.nextStep
  level : w.level = v.level
  settled : v.flavor = .settled
  polls : w.poller + d = z + w.waits

/-- The gap is one more poll that the left run has waited for. -/
def Ticks (gap : World → World) : Prop :=
  ∀ z d w v, World.Aligned z (d + 1) w v → World.Aligned z d (gap w) v

namespace World.Aligned

variable {z d : Nat} {w v : World}

theorem note (h : World.Aligned z d w v) (event : Event) :
    World.Aligned z d { w with events := event :: w.events } { v with events := event :: v.events } := by
  refine ⟨?_, h.registers, h.nextStep, h.level, h.settled, h.polls⟩
  have heq : w.events.filter Event.isHappening = v.events.filter Event.isHappening :=
    List.reverse_inj.1 h.happenings
  simp only [World.happenings, List.filter_cons, heq]

theorem awake (h : World.Aligned z d w v) : World.Aligned z d w.awake v :=
  ⟨h.happenings, h.registers, h.nextStep, h.level, h.settled, h.polls⟩

end World.Aligned

theorem Ticks.notePoll {gap : World → World} (hgap : Ticks gap) (id : Nat) :
    Ticks fun w => (gap w).notePoll id := by
  intro z d w v h
  have h' := hgap z d w v h
  exact ⟨h'.happenings, h'.registers, h'.nextStep, h'.level, h'.settled, h'.polls⟩

/-! ## Calls that do the same in both worlds -/

theorem World.lockstep_aligned (z : Nat) : World.Lockstep (World.Aligned z 0) where
  registers h := h.registers
  level h := h.level
  event e h := h.note e
  assign _ h := ⟨h.happenings, rfl, h.nextStep, h.level, h.settled, h.polls⟩

theorem alike_newStep (z : Nat) : Alike (World.Aligned z) World.newStep := fun w v h =>
  ⟨h.nextStep, h.happenings, h.registers, by rw [h.nextStep], h.level, h.settled, h.polls⟩

theorem alike_logResolution (z : Nat) (message : Closure Expr) (sql : String) (r : Resolution Value) :
    Alike (World.Aligned z) (logResolution message sql r) := by
  cases r with
  | error p => exact Effect.Paired.pure_same _
  | ok o =>
    cases o with
    | ok v => exact Effect.Paired.pure_same _
    | error e =>
      have hlog := alike_logFailure (World.lockstep_aligned z) (some e) message sql
      exact hlog.bind_same fun _ => Effect.Paired.pure_same _

/-! ## Tasks that are late -/

/-- Carrying the first task through takes `d` polls that have not been waited for yet, and comes to what
one poll of the second task gives at once. -/
def Task.Delays (d : Nat) (task task' : Task) : Prop :=
  ∀ N gap, Ticks gap → ∀ z w v, World.Aligned z d w v →
    (Task.finish N gap task w).Paired (World.Aligned z) (AtOnce (World.Aligned z))
      ((Task.poll N).stage task' v)

/-- The first task is late in its world, by as much as its run has still to wait. -/
def Task.Late (z : Nat) (task task' : Task) (w v : World) : Prop :=
  ∃ d, task.Delays d task' ∧ World.Aligned z d w v

/-- The same step, which is late on the left. -/
def Numbered.Late (z : Nat) (x x' : Numbered Task) (w v : World) : Prop :=
  x.id = x'.id ∧ x.task.Late z x'.task w v

theorem Task.delays_of_resolved {task task' : Task} (r : Resolution Value)
    (hfinish : ∀ N gap w, Task.finish (N + 1) gap task w = .returned r w)
    (hpoll : ∀ N v, (Task.poll (N + 1)).stage task' v = .returned (.inl r) v) :
    task.Delays 0 task' := by
  intro N gap _ z w v h
  cases N with
  | zero => exact ⟨0, h⟩
  | succ N =>
    rw [hfinish, hpoll]
    exact ⟨rfl, h⟩

theorem Task.delays_settled (c : Settled Value) : (Task.settled c).Delays 0 (.settled c) :=
  delays_of_resolved (.ok (.ok c.value)) (fun N gap _ => Stage.finish_of_inl gap (N + 1) rfl)
    fun _ _ => rfl

theorem Task.delays_failed (e : Failure) :
    (Task.failed (.failed e)).Delays 0 (.failed (.failed e)) :=
  delays_of_resolved (.ok (.error e)) (fun N gap _ => Stage.finish_of_inl gap (N + 1) rfl)
    fun _ _ => rfl

theorem Task.delays_metered (o : Outcome Value) :
    (Task.metered (.resolved (.holding o))).Delays 0 (.metered (.resolved (.holding o))) :=
  delays_of_resolved (.ok o) (fun N gap _ => Stage.finish_of_inl gap (N + 1) rfl) fun _ _ => rfl

theorem Task.delays_yielding (o : Outcome Value) :
    (Task.metered (.fresh o)).Delays 1 (.metered (.resolved (.holding o))) := by
  intro N gap hgap z w v h
  cases N with
  | zero => exact ⟨1, h⟩
  | succ N =>
    have hawake := hgap z 0 w.awake v h.awake
    have hlast : Poller.stage (MeterStep.poll World.wake World.changeMeter) (.yielded o)
        (gap w.awake) = .returned (.inl (.ok o))
          { gap w.awake with meter := (gap w.awake).meter.finish } := rfl
    have hfinish : Task.finish (N + 1) gap (.metered (.fresh o)) w =
        .returned (.ok o) { gap w.awake with meter := (gap w.awake).meter.finish } :=
      Effect.bind_of_returned _ (Stage.await_of_inl _ gap N hlast)
    rw [hfinish]
    exact ⟨rfl, hawake.happenings, hawake.registers, hawake.nextStep, hawake.level, hawake.settled,
      hawake.polls⟩

theorem pause_aligned {gap : World → World} (hgap : Ticks gap) {z left : Nat} {w v : World}
    (h : World.Aligned z left w v) :
    ∃ w', pause gap left w = .returned () w' ∧ World.Aligned z 0 w' v := by
  induction left generalizing w with
  | zero => exact ⟨w, rfl, h⟩
  | succ left ih => exact ih (hgap z left w.awake v h.awake)

/-- What is built after a suspension is late by the suspension. -/
theorem Task.delays_suspended {rest rest' : Program}
    (hbuild : ∀ N scope z, Effect.Paired (World.Aligned z) (Task.Late z) (build N scope rest)
      (build N scope rest')) (left : Nat) (scope : Scope) :
    (Task.suspended left rest scope).Delays left (.suspended 0 rest' scope) := by
  intro N gap hgap z w v h
  cases N with
  | zero => exact ⟨left, h⟩
  | succ N =>
    obtain ⟨w', hpause, h'⟩ := pause_aligned hgap h
    have hfinish : Task.finish (N + 1) gap (.suspended left rest scope) w =
        (build N scope rest >>= Task.finish N gap) w' := Effect.bind_of_returned _ hpause
    rw [hfinish, Task.stage_suspended]
    refine (hbuild N scope z).bind (fun task task' w v hlate => ?_) w' v h'
    obtain ⟨d, hdelays, hd⟩ := hlate
    exact hdelays N gap hgap z w v hd

theorem Task.delays_watched {d : Nat} {task task' : Task} (h : task.Delays d task')
    (message : Closure Expr) (sql : String) :
    (Task.watched (.active task message sql)).Delays d (.watched (.active task' message sql)) := by
  intro N gap hgap z w v hw
  cases N with
  | zero => exact ⟨d, hw⟩
  | succ N =>
    rw [Task.stage_watched]
    exact (h N gap hgap z w v hw).around _ (alike_logResolution z message sql)

theorem Numbered.finish_paired {N : Nat} {gap : World → World} (hgap : Ticks gap) {z : Nat}
    {x x' : Numbered Task} {w v : World} (h : Numbered.Late z x x' w v) :
    (Numbered.finish (Task.finish N) gap x w).Paired (World.Aligned z) (AtOnce (World.Aligned z))
      ((Numbered.poll (Task.poll N)).stage x' v) := by
  obtain ⟨id, task⟩ := x
  obtain ⟨id', task'⟩ := x'
  obtain ⟨rfl, d, hdelays, hd⟩ := h
  have htask := hdelays N _ (hgap.notePoll id) z _ _ (hd.note (.poll id))
  have hfinish : Numbered.finish (Task.finish N) gap { id, task } w =
      (Task.finish N (fun w => (gap w).notePoll id) task >>= pure) (w.notePoll id) := by
    rw [bind_pure]
    rfl
  rw [hfinish, Numbered.stage_around]
  exact htask.around _ Effect.Paired.pure_same

theorem requestMeter_late {z : Nat} (o : Outcome Value) :
    Effect.Paired (World.Aligned z) (Task.Late z)
      (World.requestMeter o >>= fun step => pure (.metered step))
      (World.requestMeter o >>= fun step => pure (.metered step)) := by
  intro w v h
  have hpolls := h.polls
  have hsettled := h.settled
  rw [Effect.bind_apply, Effect.bind_apply, World.requestMeter, World.requestMeter, hsettled]
  cases hw : w.flavor with
  | settled =>
    exact ⟨0, Task.delays_metered o, h.happenings, h.registers, h.nextStep, h.level, rfl, hpolls⟩
  | yielding =>
    refine ⟨1, Task.delays_yielding o, h.happenings, h.registers, h.nextStep, h.level, rfl, ?_⟩
    change w.poller + 1 = z + (w.waits + 1)
    omega

/-! ## Loops that are late -/

/-- A body in the scope and after the calls of a closure. -/
def Closure.ofBody {B : Type} (body : B) (c : Scope × Nat) : Closure B where
  body
  scope := c.1
  calls := c.2

section Loops

variable {step step' : Program}

theorem callStep_late {z : Nat} {build : Scope → Program → Effect World Task}
    (hbuild : ∀ scope, Effect.Paired (World.Aligned z) (Task.Late z) (build scope step)
      (build scope step')) (c : Scope × Nat) (call : Call Value) :
    Effect.Paired (World.Aligned z)
      (Requested (Numbered.Late z) (Closure.ofBody step) (Closure.ofBody step'))
      (callStep build (.ofBody step c) call) (callStep build (.ofBody step' c) call) := by
  refine (alike_newStep z).bind_same fun id =>
    (alike_note (World.lockstep_aligned z) _).bind_same fun _ => ?_
  refine (hbuild _).bind fun task task' w v hlate => ?_
  exact ⟨⟨rfl, hlate⟩, (c.1, c.2 + 1), rfl, rfl⟩

theorem kit_paired {z : Nat} {build : Scope → Program → Effect World Task}
    (hbuild : ∀ scope, Effect.Paired (World.Aligned z) (Task.Late z) (build scope step)
      (build scope step')) (poll : Poller World Task Value) :
    (kit build poll).Paired (World.Aligned z) (Numbered.Late z) (Closure.ofBody step)
      (Closure.ofBody step') (kit build poll) where
  next := Supply.alike_next (World.lockstep_aligned z)
  test := alike_callFilter (World.lockstep_aligned z)
  step := callStep_late hbuild
  isTrue := rfl
  summand := rfl

theorem Task.late_looping
    (hbuild : ∀ N scope z, Effect.Paired (World.Aligned z) (Task.Late z) (build N scope step)
      (build N scope step')) {z : Nat}
    {job job' : Job Supply Value (Option (Closure Rule)) (Closure Program) (Numbered Task)}
    {w v : World} (h : Job.Started (World.Aligned z) (Numbered.Late z) (Closure.ofBody step)
      (Closure.ofBody step') job job' w v) :
    (Task.looping job).Late z (.looping job') w v := by
  obtain ⟨d, hd, hstarted⟩ : ∃ d, World.Aligned z d w v ∧ ∀ z w v, World.Aligned z d w v →
      Job.Started (World.Aligned z) (Numbered.Late z) (Closure.ofBody step) (Closure.ofBody step')
        job job' w v := by
    obtain ⟨hextra, ⟨rest, hj, hj', hR⟩ | ⟨rest, x, x', hj, hj', hid, d, hdelays, hd⟩⟩ := h
    · exact ⟨0, hR, fun z w v hw => ⟨hextra, .inl ⟨rest, hj, hj', hw⟩⟩⟩
    · exact ⟨d, hd, fun z w v hw => ⟨hextra, .inr ⟨rest, x, x', hj, hj', hid, d, hdelays, hw⟩⟩⟩
  refine ⟨d, fun N gap hgap z w v hw => ?_, hd⟩
  cases N with
  | zero => exact ⟨d, hw⟩
  | succ N =>
    rw [Task.stage_looping]
    refine Ending.Paired.around _ ?_ fun r => Effect.Paired.pure_same _
    exact Job.finish_paired (kit_paired (fun scope => hbuild N scope z) (Task.poll N))
      (fun x x' w v hlate => Numbered.finish_paired hgap hlate) N (hstarted z w v hw)

theorem launch_late
    (hbuild : ∀ N scope z, Effect.Paired (World.Aligned z) (Task.Late z) (build N scope step)
      (build N scope step')) (N z : Nat) (scope : Scope) (shape : Shape) :
    Effect.Paired (World.Aligned z) (Task.Late z) (launch (build N) N scope shape step)
      (launch (build N) N scope shape step') := by
  refine (Shape.alike_plan (World.lockstep_aligned z) scope shape).bind_same fun plan => ?_
  refine Effect.Paired.bind (Job.start_paired (Supply.alike_next (World.lockstep_aligned z))
    (callStep_late fun scope => hbuild N scope z) N plan _ (scope, 0)) fun job job' w v h => ?_
  have hlate := Task.late_looping hbuild h
  cases hwatch : shape.watch with
  | none => exact hlate
  | some watch =>
    obtain ⟨d, hdelays, hd⟩ := hlate
    refine ⟨d, ?_, hd⟩
    have hsql : (watch.sql.eval w.registers scope).toText = (watch.sql.eval v.registers scope).toText := by
      rw [hd.registers]
    rw [hsql]
    exact Task.delays_watched hdelays _ _

end Loops

theorem paired_of_succ {R : Nat → World → World → Prop} {Q : Task → Task → World → World → Prop}
    {scope : Scope} {program program' : Program}
    (h : ∀ N, Effect.Paired R Q (build (N + 1) scope program) (build (N + 1) scope program')) (N : Nat) :
    Effect.Paired R Q (build N scope program) (build N scope program') := by
  cases N with
  | zero => exact Effect.Paired.cut
  | succ N => exact h N

/-- A program that waits for no message builds the same task as the program without suspensions, but for
the polls that it gives way. -/
theorem build_late (program : Program) (hsilent : program.isSilent = true) (N : Nat) (scope : Scope)
    (z : Nat) :
    Effect.Paired (World.Aligned z) (Task.Late z) (build N scope program)
      (build N scope program.unsuspended) := by
  have hlock := World.lockstep_aligned
  induction program generalizing N scope z with
  | set register e next ih =>
    refine paired_of_succ (fun N => ?_) N
    refine (alike_evaluate (hlock z) scope e).bind_same fun v => ?_
    exact (alike_setRegister (hlock z) register v).bind_same fun _ => ih hsilent N scope z
  | branch condition yes no ihyes ihno =>
    have hboth := Bool.and_eq_true_iff.1 hsilent
    refine paired_of_succ (fun N => ?_) N
    refine (alike_evaluate (hlock z) scope condition).bind_same fun c => ?_
    cases c.isTrue with
    | true => exact ihyes hboth.1 N scope z
    | false => exact ihno hboth.2 N scope z
  | ok e =>
    refine paired_of_succ (fun N => ?_) N
    refine (alike_evaluate (hlock z) scope e).bind_same fun v => ?_
    exact Effect.Paired.pure fun w v h => ⟨0, Task.delays_settled _, h⟩
  | fail x =>
    refine paired_of_succ (fun N => ?_) N
    refine (alike_reads (hlock z) fun registers => x.eval registers scope).bind_same fun e => ?_
    exact Effect.Paired.pure fun w v h => ⟨0, Task.delays_failed _, h⟩
  | suspend count rest ih =>
    refine paired_of_succ (fun N => ?_) N
    intro w v h
    refine ⟨_, Task.delays_suspended (ih hsilent) _ scope, h.happenings, h.registers, h.nextStep,
      h.level, h.settled, ?_⟩
    have hpolls := h.polls
    change w.poller + _ = z + (w.waits + _)
    omega
  | receive channel => cases hsilent
  | loop shape step ih =>
    exact paired_of_succ (fun N => launch_late (ih hsilent) N z scope shape) N
  | meter e =>
    refine paired_of_succ (fun N => ?_) N
    refine (alike_evaluate (hlock z) scope e).bind_same fun v => ?_
    exact requestMeter_late (.ok v)
  | meterFail e =>
    refine paired_of_succ (fun N => ?_) N
    refine (alike_evaluate (hlock z) scope e).bind_same fun v => ?_
    exact requestMeter_late _

end Stepwise.Script
