import Stepwise.Proofs.Job.Tied
import Stepwise.Proofs.Script.Tracked

/-! # Tasks that differ in the numbers of their steps

A program that is confined to what belongs to a loop is built and polled in the world that the loop shares with
others and in a world of its own.

* `Task.Renumbered ids`: the two tasks are the same but for the numbers of their steps.
* `build_tracked`: the program builds such tasks, by induction on the program.
* `Task.poll_tracked`: a poll of such tasks gives the same answer and leaves such tasks, unless it uses a mailbox
  that does not belong to the loop. The proof is by induction on the fuel; the loops in the tasks stay in step
  (`Job.poll_tied`).
-/

namespace Stepwise.Script
set_option autoImplicit false

/-! ## Tasks -/

/-- A step that is confined to what belongs to the loop. -/
structure Consumer (o : Owners) (index : Nat) where
  closure : Closure Program
  confined : closure.body.Confined o index

/-- The same job of a script, with steps in `J`. -/
abbrev TiedJobs (o : Owners) (index : Nat) (J : Numbered Task → Numbered Task → Prop) :
    Job Supply Value (Option (Closure Rule)) (Closure Program) (Numbered Task) →
    Job Supply Value (Option (Closure Rule)) (Closure Program) (Numbered Task) → Prop :=
  Job.Tied (FilterConfined (o.registers index)) J (fun c : Consumer o index => c.closure) fun c => c.closure

/-- The same task, with the numbers of its steps in the shared world. -/
inductive Task.Renumbered (o : Owners) (index : Nat) (ids : List Nat) : Task → Task → Prop
  | settled (c : Settled Value) : Renumbered o index ids (.settled c) (.settled c)
  | failed (x : Immediate Value) : Renumbered o index ids (.failed x) (.failed x)
  | suspended (left : Nat) {rest : Program} (scope : Scope) (hrest : rest.Confined o index) :
    Renumbered o index ids (.suspended left rest scope) (.suspended left rest scope)
  | receiving (channel : Int64) : Renumbered o index ids (.receiving channel) (.receiving channel)
  | metered (step : MeterStep Value) (hmeter : o.meter = index) :
    Renumbered o index ids (.metered step) (.metered step)
  | looping {job job'} (J : Numbered Task → Numbered Task → Prop)
    (hid : ∀ x x', J x x' → ids[x'.id]? = some x.id)
    (htask : ∀ x x', J x x' → Renumbered o index ids x.task x'.task) (hjob : TiedJobs o index J job job') :
    Renumbered o index ids (.looping job) (.looping job')
  | watched {task task' : Task} {message : Closure Expr} (sql : String)
    (hmessage : message.body.Confined (o.registers index)) (htask : Renumbered o index ids task task') :
    Renumbered o index ids (.watched (.active task message sql)) (.watched (.active task' message sql))
  | finished : Renumbered o index ids (.watched .finished) (.watched .finished)

/-- The same step, with its number in the shared world. -/
def Numbered.Renumbered (o : Owners) (index : Nat) (ids : List Nat) (x x' : Numbered Task) : Prop :=
  ids[x'.id]? = some x.id ∧ x.task.Renumbered o index ids x'.task

section Renumbered

variable {o : Owners} {index : Nat} {ids ids' : List Nat}

theorem Task.Renumbered.mono (hgrown : ids <+: ids') {task task' : Task}
    (h : task.Renumbered o index ids task') : task.Renumbered o index ids' task' := by
  induction h with
  | settled c => exact .settled c
  | failed x => exact .failed x
  | suspended left scope hrest => exact .suspended left scope hrest
  | receiving channel => exact .receiving channel
  | metered step hmeter => exact .metered step hmeter
  | looping J hid _ hjob ih => exact .looping J (fun x x' hx => getElem?_of_grown hgrown (hid x x' hx)) ih hjob
  | watched sql hmessage _ ih => exact .watched sql hmessage ih
  | finished => exact .finished

theorem Task.Renumbered.of_tied
    {job job' : Job Supply Value (Option (Closure Rule)) (Closure Program) (Numbered Task)}
    (h : TiedJobs o index (Numbered.Renumbered o index ids) job job') :
    (Task.looping job).Renumbered o index ids (.looping job') :=
  .looping (Numbered.Renumbered o index ids) (fun _ _ hx => hx.1) (fun _ _ hx => hx.2) h

theorem Task.Renumbered.isOver {task task' : Task} (h : task.Renumbered o index ids task') :
    task.isOver? = task'.isOver? := by
  cases h with
  | looping J hid htask hjob => exact hjob.isOver
  | _ => rfl

end Renumbered

/-! ## Later worlds -/

section Tracked

variable {o : Owners} {index : Nat} {first ids : List Nat} {w₀ w v : World}

/-- What is known from later worlds on is known from the earlier ones on, and the numbers have only grown. -/
theorem rebase {A B : Type} (h : World.Tracked o index first w₀ ids w v) {Q : List Nat → A → B → Prop}
    {e : Ending World A} {e' : Ending World B}
    (he : e.Paired (AtSome (World.Tracked o index ids w)) (With (World.Tracked o index ids w) Q) e') :
    e.Paired (AtSome (World.Tracked o index first w₀))
      (With (World.Tracked o index first w₀) fun ids' a b => ids <+: ids' ∧ Q ids' a b) e' := by
  refine he.weaken ?_ ?_
  · rintro - w' v' ⟨ids', h'⟩
    exact ⟨ids', h.rebase h'⟩
  · rintro a b w' v' ⟨ids', h', hQ⟩
    exact ⟨ids', h.rebase h', h'.grown, hQ⟩

/-! ## Building -/

/-- From all worlds on, the computation comes to tasks that differ in the numbers of their steps. -/
def Builds (o : Owners) (index : Nat) (m : Effect World Task) : Prop :=
  ∀ first w₀, Effect.Paired (AtSome (World.Tracked o index first w₀))
    (With (World.Tracked o index first w₀) (Task.Renumbered o index)) m m

theorem callStep_tracked {build : Scope → Program → Effect World Task}
    (hbuild : ∀ scope program, program.Confined o index → Builds o index (build scope program))
    (c : Consumer o index) (call : Call Value) :
    Effect.Paired (AtSome (World.Tracked o index first w₀))
      (Requested (With (World.Tracked o index first w₀) (Numbered.Renumbered o index))
        (fun c : Consumer o index => c.closure) fun c => c.closure)
      (callStep build c.closure call) (callStep build c.closure call) := by
  obtain ⟨c, hc⟩ := c
  refine newStep_tracked.bind fun id id' w v hid => ?_
  obtain ⟨ids, h, hid⟩ := hid
  have hnote := h.note (.step ((bindings call).map (·.2)) hid)
  -- The number is known before the task is built, and still holds afterwards.
  have hbuilt := rebase hnote (hbuild (c.inner call) c.body hc _ _ _ _ ⟨ids, hnote.here⟩)
  refine hbuilt.bind fun task task' w v htask => ?_
  obtain ⟨ids', h', hgrown, htask⟩ := htask
  exact ⟨⟨ids', h', getElem?_of_grown hgrown hid, htask⟩, ⟨c.called, hc⟩, rfl, rfl⟩

theorem launch_tracked {build : Scope → Program → Effect World Task} {step : Program}
    (hbuild : ∀ scope program, program.Confined o index → Builds o index (build scope program)) (n : Nat)
    (scope : Scope) {shape : Shape} (hshape : shape.Confined (o.registers index))
    (hstep : step.Confined o index) : Builds o index (launch build n scope shape step) := by
  intro first w₀
  obtain ⟨helements, hfilter, hwatch⟩ := hshape
  have hrule : FilterConfined (o.registers index) (shape.filter.map fun rule => { body := rule, scope }) := by
    intro c hc
    obtain ⟨rule, hrule, rfl⟩ := Option.mem_map.1 hc
    exact hfilter rule hrule
  refine (Shape.confined_plan World.lockstep_tracked scope helements).bind_same fun plan => ?_
  refine (Job.start_fresh (Supply.confined_next World.lockstep_tracked) (callStep_tracked hbuild) n plan hrule
    ⟨{ body := step, scope }, hstep⟩).bind fun job job' w v hfresh => ?_
  obtain ⟨ids, h, htied⟩ := Job.Tied.of_fresh hfresh
  have hjob := Task.Renumbered.of_tied htied
  cases hw : shape.watch with
  | none => exact ⟨ids, h, hjob⟩
  | some watch =>
    obtain ⟨hmessage, hsql⟩ := hwatch watch hw
    have heval : watch.sql.eval w.registers scope = watch.sql.eval v.registers scope :=
      Expr.eval_agree h.agrees.registers scope hsql
    change With _ _ (Task.watched (.active _ _ (watch.sql.eval w.registers scope).toText)) _ w v
    rw [heval]
    exact ⟨ids, h, .watched _ hmessage hjob⟩

theorem build_tracked (n : Nat) (scope : Scope) (program : Program) (hprogram : program.Confined o index) :
    Builds o index (build n scope program) := by
  induction n generalizing scope program with
  | zero => exact fun first w₀ => Effect.Paired.cut
  | succ n ih =>
    intro first w₀
    cases program with
    | set register e next =>
      refine (confined_evaluate World.lockstep_tracked scope hprogram.2.1).bind_same fun v => ?_
      refine (confined_setRegister World.lockstep_tracked hprogram.1 v).bind_same fun _ => ?_
      exact ih scope next hprogram.2.2 first w₀
    | branch condition yes no =>
      refine (confined_evaluate World.lockstep_tracked scope hprogram.1).bind_same fun c => ?_
      cases c.isTrue with
      | true => exact ih scope yes hprogram.2.1 first w₀
      | false => exact ih scope no hprogram.2.2 first w₀
    | ok e =>
      refine (confined_evaluate World.lockstep_tracked scope hprogram).bind_same fun v => ?_
      exact Effect.Paired.pure fun w v ⟨ids, h⟩ => ⟨ids, h, .settled _⟩
    | fail x =>
      refine (confined_failure World.lockstep_tracked scope hprogram).bind_same fun e => ?_
      exact Effect.Paired.pure fun w v ⟨ids, h⟩ => ⟨ids, h, .failed _⟩
    | suspend count rest =>
      refine (confined_evaluate World.lockstep_tracked scope hprogram.1).bind_same fun k => ?_
      refine (expectWaits_tracked _).bind_same fun _ => ?_
      exact Effect.Paired.pure fun w v ⟨ids, h⟩ => ⟨ids, h, .suspended _ scope hprogram.2⟩
    | receive channel =>
      rintro w v ⟨ids, h⟩
      have heval : channel.eval w.registers scope = channel.eval v.registers scope :=
        Expr.eval_agree h.agrees.registers scope hprogram
      change With _ _ (Task.receiving (channel.eval w.registers scope).toInt) _ w v
      rw [heval]
      exact ⟨ids, h, .receiving _⟩
    | loop shape step => exact launch_tracked ih n scope hprogram.1 hprogram.2 first w₀
    | meter e =>
      refine (confined_evaluate World.lockstep_tracked scope hprogram.2).bind_same fun v => ?_
      refine (requestMeter_tracked hprogram.1 _).bind_same fun step => ?_
      exact Effect.Paired.pure fun w v ⟨ids, h⟩ => ⟨ids, h, .metered step hprogram.1⟩
    | meterFail e =>
      refine (confined_evaluate World.lockstep_tracked scope hprogram.2).bind_same fun v => ?_
      refine (requestMeter_tracked hprogram.1 _).bind_same fun step => ?_
      exact Effect.Paired.pure fun w v ⟨ids, h⟩ => ⟨ids, h, .metered step hprogram.1⟩

/-! ## Polling -/

/-- Polls of such tasks go the same way, unless the loop strays. -/
def Polls (o : Owners) (index : Nat) (poll : Poller World Task Value) : Prop :=
  ∀ first w₀ ids w v task task', World.Tracked o index first w₀ ids w v → Task.Renumbered o index ids task task' →
    (poll task w).PairedUnless (World.Strayed o index) (AtSome (World.Tracked o index first w₀))
      (With (World.Tracked o index first w₀) fun ids => Poll.Answered (Task.Renumbered o index ids))
      (poll task' v)

theorem Numbered.poll_tracked {poll : Poller World Task Value} (hpoll : Polls o index poll)
    (h : World.Tracked o index first w₀ ids w v) {x x' : Numbered Task} (hx : x.Renumbered o index ids x') :
    (Numbered.poll poll x w).PairedUnless (World.Strayed o index) (AtSome (World.Tracked o index first w₀))
      (With (World.Tracked o index first w₀) fun ids => Poll.Answered (Numbered.Renumbered o index ids))
      (Numbered.poll poll x' v) := by
  obtain ⟨hid, htask⟩ := hx
  have hnote := h.note (.poll hid)
  have hpolled : (poll x.task { w with events := .poll x.id :: w.events }).PairedUnless (World.Strayed o index)
      (AtSome (World.Tracked o index first w₀))
      (With (World.Tracked o index first w₀) fun ids' a b =>
        ids <+: ids' ∧ Poll.Answered (Task.Renumbered o index ids') a b)
      (poll x'.task { v with events := .poll x'.id :: v.events }) :=
    (hpoll _ _ _ _ _ _ _ hnote.here htask).imp_right (rebase hnote)
  refine hpolled.bind (fun _ => Effect.Keeps.pure _) fun r r' w v hr => ?_
  obtain ⟨ids', h', hgrown, hanswer, hleft⟩ := hr
  exact .inr ⟨ids', h', hanswer, hleft.imp_right fun htask => ⟨getElem?_of_grown hgrown hid, htask⟩⟩

theorem kit_tracked {build : Scope → Program → Effect World Task}
    (hbuild : ∀ scope program, program.Confined o index → Builds o index (build scope program))
    (poll : Poller World Task Value) :
    (kit build poll).PairedOn (FilterConfined (o.registers index)) (AtSome (World.Tracked o index first w₀))
      (With (World.Tracked o index first w₀) (Numbered.Renumbered o index))
      (fun c : Consumer o index => c.closure) (fun c => c.closure) (kit build poll) where
  next := Supply.confined_next World.lockstep_tracked
  test _ hfilter call := confined_callFilter World.lockstep_tracked hfilter call
  step := callStep_tracked hbuild
  isTrue := rfl
  summand := rfl

theorem looping_tracked {n : Nat} (hpoll : Polls o index (Task.poll n))
    (h : World.Tracked o index first w₀ ids w v)
    {job job' : Job Supply Value (Option (Closure Rule)) (Closure Program) (Numbered Task)}
    (hjob : TiedJobs o index (Numbered.Renumbered o index ids) job job') :
    (Task.poll (n + 1) (.looping job) w).PairedUnless (World.Strayed o index)
      (AtSome (World.Tracked o index first w₀))
      (With (World.Tracked o index first w₀) fun ids => Poll.Answered (Task.Renumbered o index ids))
      (Task.poll (n + 1) (.looping job') v) := by
  have hkit : (kit (build n) (Task.poll n)).Keeps (Lasting (World.Strayed o index)) :=
    (keeps_kit (keeps_build n) (Task.poll n)).mono fun _ _ hfollows => hfollows.lasting
  have hpolls : ∀ x, Effect.Keeps (Lasting (World.Strayed o index)) (Numbered.poll (Task.poll n) x) :=
    fun x => lasting_of_keeps (Numbered.keeps_poll (Task.keeps_poll n) x)
  have hpolled := Job.poll_tied (kit_tracked (build_tracked n) (Task.poll n))
    (fun x x' w v ⟨ids, h, hx⟩ => Numbered.poll_tracked hpoll h hx) hkit hpolls n hjob h
  refine hpolled.bind (fun _ => Effect.Keeps.pure _) fun r r' w v hr => ?_
  obtain ⟨ids', h', hr⟩ := hr
  exact .inr ⟨ids', h', hr.map (fun _ _ hjob => .of_tied hjob) ofJob⟩

theorem watched_tracked {n : Nat} (hpoll : Polls o index (Task.poll n))
    (h : World.Tracked o index first w₀ ids w v) {task task' : Task} {message : Closure Expr} (sql : String)
    (hmessage : message.body.Confined (o.registers index)) (htask : task.Renumbered o index ids task') :
    (Task.poll (n + 1) (.watched (.active task message sql)) w).PairedUnless (World.Strayed o index)
      (AtSome (World.Tracked o index first w₀))
      (With (World.Tracked o index first w₀) fun ids => Poll.Answered (Task.Renumbered o index ids))
      (Task.poll (n + 1) (.watched (.active task' message sql)) v) := by
  rw [Task.poll, Task.poll, Watched.poll, Watched.poll, bind_assoc, bind_assoc]
  refine (hpoll _ _ _ _ _ _ _ h htask).bind (fun r => ?_) fun r r' w v hr => ?_
  · obtain ⟨answer, task⟩ := r
    cases answer with
    | ready outcome =>
      cases outcome with
      | ok value => exact Effect.Keeps.pure _
      | error e =>
        have hlog : Effect.Keeps (Lasting (World.Strayed o index))
            (Statement.logFailure (some e) (compose message) sql) :=
          lasting_of_keeps (keeps_logFailure (some e) message sql)
        exact (hlog.bind fun _ => Effect.Keeps.pure _).bind fun _ => Effect.Keeps.pure _
    | _ => exact Effect.Keeps.pure _
  obtain ⟨answer, task⟩ := r
  obtain ⟨answer', task'⟩ := r'
  obtain ⟨ids', h', hleft⟩ := hr
  cases hleft.1
  cases answer with
  | pending =>
    have htask := hleft.state (by rintro cause ⟨⟩)
    exact .inr ⟨ids', h', rfl, .inr (.watched sql hmessage htask)⟩
  | panicked cause => exact .inr ⟨ids', h', rfl, .inl ⟨cause, rfl⟩⟩
  | ready outcome =>
    cases outcome with
    | ok value => exact .inr ⟨ids', h', rfl, .inr .finished⟩
    | error e =>
      have hlog := confined_logFailure World.lockstep_tracked (some e) hmessage sql w v ⟨ids', h'⟩
      simp only [bind_assoc, pure_bind]
      refine hlog.bind_unless fun _ _ w v hsame => ?_
      obtain ⟨-, ids', h'⟩ := hsame
      exact .inr ⟨ids', h', rfl, .inr .finished⟩

theorem Task.poll_tracked (n : Nat) : Polls o index (Task.poll n) := by
  induction n with
  | zero => exact fun first w₀ ids w v _ _ h _ => .inr ⟨0, ids, h⟩
  | succ n ih =>
    intro first w₀ ids w v task task' h htask
    cases htask with
    | settled c => exact .inr ⟨ids, h, rfl, .inr (.settled c)⟩
    | failed x => cases x <;> exact .inr ⟨ids, h, rfl, .inr (.failed _)⟩
    | suspended left scope hrest =>
      cases left with
      | zero =>
        refine (build_tracked n scope _ hrest first w₀ w v ⟨ids, h⟩).bind_unless fun task task' w v hbuilt => ?_
        obtain ⟨ids', h', htask⟩ := hbuilt
        exact ih first w₀ ids' w v task task' h' htask
      | succ left => exact .inr ⟨ids, h.wake w.poller v.poller, rfl, .inr (.suspended left scope hrest)⟩
    | receiving channel =>
      refine (collect_tracked h channel).bind (fun _ => Effect.Keeps.pure _) fun answer _ w v hsame => ?_
      obtain ⟨rfl, ids', h'⟩ := hsame
      exact .inr ⟨ids', h', rfl, .inr (.receiving channel)⟩
    | metered step hmeter =>
      cases step with
      | resolved x => cases x <;> exact .inr ⟨ids, h, rfl, .inr (.metered _ hmeter)⟩
      | fresh outcome => exact .inr ⟨ids, h.wake w.poller v.poller, rfl, .inr (.metered _ hmeter)⟩
      | yielded outcome =>
        have hfinish := changeMeter_tracked hmeter Meter.finish w v ⟨ids, h⟩
        obtain ⟨-, ids', h'⟩ := hfinish
        exact .inr ⟨ids', h', rfl, .inr (.metered .spent hmeter)⟩
      | spent => exact .inr ⟨ids, h, rfl, .inr (.metered .spent hmeter)⟩
    | looping J hid htask hjob =>
      exact looping_tracked ih h (hjob.mono fun x x' hx => ⟨hid x x' hx, htask x x' hx⟩)
    | watched sql hmessage htask => exact watched_tracked ih h sql hmessage htask
    | finished => exact .inr ⟨ids, h, rfl, .inr .finished⟩

end Tracked

end Stepwise.Script
