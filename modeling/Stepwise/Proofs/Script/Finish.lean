import Stepwise.Proofs.Script.Follows

/-! # Tasks carried through

`Task.finish` carries a task through to its end as if it were the only one in its world: where the task
gives way, the `gap` between two polls follows and it goes on. It is a recursion on the fuel like
`Task.poll`, but it never leaves a task half done.

* `Task.tracks_finish`: whatever becomes of polling a task until it resolves, carrying it through with
  more and more fuel comes to the same; as long as the task waits, it has come at least as far.
* `Task.attains_finish`: where carrying a task through comes to an end, enough polls with enough fuel
  come to that end.
-/

namespace Stepwise.Script
set_option autoImplicit false

open Filter

/-- Give way so many times, each time until the next poll. -/
def pause (gap : World → World) : Nat → Effect World Unit
  | 0 => pure ()
  | left + 1 => do
    World.wake
    Effect.changes gap
    pause gap left

/-- What the poll of a step with this number leaves in the log. -/
def World.notePoll (id : Nat) (w : World) : World := { w with events := .poll id :: w.events }

/-- Carry a step through: each of its polls is noted. -/
def Numbered.finish (finish : (World → World) → Task → Effect World (Resolution Value))
    (gap : World → World) (x : Numbered Task) : Effect World (Resolution Value) := do
  Effect.changes (World.notePoll x.id)
  finish (fun w => (gap w).notePoll x.id) x.task

/-- Wait for the message in a mailbox. -/
def collecting : Poller World Int64 Value := fun channel => do
  let answer ← World.collect channel
  pure (answer, channel)

/-- What a watched task does once it has resolved. -/
def logResolution (message : Closure Expr) (sql : String) (r : Resolution Value) :
    Effect World (Resolution Value) :=
  match r with
  | .ok (.error e) => do
    Statement.logFailure (some e) (compose message) sql
    pure r
  | _ => pure r

/-- Carry a task through to its end. -/
def Task.finish : Nat → (World → World) → Task → Effect World (Resolution Value)
  | 0, _, _ => Effect.cut
  | fuel + 1, gap, task =>
    match task with
    | .settled c => (Poller.stage Settled.poll).finish gap (fuel + 1) c
    | .failed x => (Poller.stage Immediate.poll).finish gap (fuel + 1) x
    | .suspended left rest scope => do
      pause gap left
      let task ← build fuel scope rest
      Task.finish fuel gap task
    | .receiving channel => collecting.stage.finish gap (fuel + 1) channel
    | .metered step =>
      (Poller.stage (MeterStep.poll World.wake World.changeMeter)).finish gap (fuel + 1) step
    | .looping job => do
      let r ← Job.finish (kit (build fuel) (Task.poll fuel))
        (Numbered.finish (Task.finish fuel) gap) fuel job
      pure (Resolution.map ofJob r)
    | .watched (.active task message sql) => do
      let r ← Task.finish fuel gap task
      logResolution message sql r
    | .watched .finished => pure (.error .mapFinished)

/-! ## One poll of a task around something else -/

section Around

variable {F : Type}

theorem Numbered.stage_around (poll : Poller World Task Value) (id : Nat) (task : Task) (w : World) :
    (Numbered.poll poll).stage { id, task } w =
      (poll.stage task >>= Stage.around (fun task => { id, task }) pure) (w.notePoll id) := by
  have hstage : (Numbered.poll poll).stage { id, task } w =
      (poll task >>= fun r => pure (r.1, ({ id, task := r.2 } : Numbered Task)) >>= fun r =>
        pure (Poll.staged r)) (w.notePoll id) := by
    rw [← bind_assoc]
    rfl
  rw [hstage, Poller.stage_eq, bind_assoc]
  refine congrFun (bind_congr fun r => ?_) (w.notePoll id)
  obtain ⟨answer, task⟩ := r
  cases answer <;> rfl

theorem Task.stage_settled (n : Nat) (c : Settled Value) :
    (Task.poll (n + 1)).stage (.settled c) =
      (Poller.stage Settled.poll c >>= Stage.around Task.settled pure) := rfl

theorem Task.stage_failed (n : Nat) (x : Immediate Value) :
    (Task.poll (n + 1)).stage (.failed x) =
      (Poller.stage Immediate.poll x >>= Stage.around Task.failed pure) := by
  cases x <;> rfl

theorem Task.stage_receiving (n : Nat) (channel : Int64) :
    (Task.poll (n + 1)).stage (.receiving channel) =
      (collecting.stage channel >>= Stage.around Task.receiving pure) := by
  change (World.collect channel >>= _) >>= _ = ((World.collect channel >>= _) >>= _) >>= _
  simp only [bind_assoc]
  refine bind_congr fun answer => ?_
  cases answer <;> rfl

theorem Task.stage_metered (n : Nat) (step : MeterStep Value) :
    (Task.poll (n + 1)).stage (.metered step) =
      (Poller.stage (MeterStep.poll World.wake World.changeMeter) step >>=
        Stage.around Task.metered pure) := by
  cases step with
  | resolved x => cases x <;> rfl
  | _ => rfl

theorem Task.stage_looping (n : Nat)
    (job : Job Supply Value (Option (Closure Rule)) (Closure Program) (Numbered Task)) :
    (Task.poll (n + 1)).stage (.looping job) =
      (Poller.stage (Job.poll (kit (build n) (Task.poll n)) n) job >>=
        Stage.around Task.looping fun r => pure (Resolution.map ofJob r)) := by
  rw [Poller.stage_eq, Poller.stage_eq, bind_assoc, Task.poll, bind_assoc]
  refine bind_congr fun r => ?_
  obtain ⟨answer, job⟩ := r
  cases answer with
  | ready o => cases o <;> rfl
  | _ => rfl

theorem Task.stage_watched (n : Nat) (message : Closure Expr) (sql : String) (task : Task) :
    (Task.poll (n + 1)).stage (.watched (.active task message sql)) =
      ((Task.poll n).stage task >>=
        Stage.around (fun task => Task.watched (.active task message sql))
          (logResolution message sql)) := by
  rw [Poller.stage_eq, Poller.stage_eq, bind_assoc, Task.poll, Watched.poll, bind_assoc, bind_assoc]
  refine bind_congr fun r => ?_
  obtain ⟨answer, task⟩ := r
  cases answer with
  | pending => rfl
  | panicked c => rfl
  | ready o =>
    cases o with
    | ok v => rfl
    | error e =>
      change (Statement.logFailure (some e) (compose message) sql >>= _) >>= _ =
        (Statement.logFailure (some e) (compose message) sql >>= _) >>= _
      rw [bind_assoc, bind_assoc]
      rfl

theorem Task.stage_suspended (n : Nat) (rest : Program) (scope : Scope) :
    (Task.poll (n + 1)).stage (.suspended 0 rest scope) =
      (build n scope rest >>= (Task.poll n).stage) := by
  rw [Poller.stage_eq, Task.poll, bind_assoc]
  rfl

theorem Task.await_suspended (n₀ n m : Nat) (gap : World → World) (rest : Program) (scope : Scope)
    (w : World) :
    (Task.poll (n₀ + 1)).stage.await (Task.poll n).stage gap m (.suspended 0 rest scope) w =
      (build n₀ scope rest >>= (Task.poll n₀).stage.await (Task.poll n).stage gap m) w := by
  rw [Stage.await, Task.stage_suspended, bind_assoc]
  rfl

theorem Task.finish_suspended (n : Nat) (gap : World → World) (rest : Program) (scope : Scope) :
    Task.finish (n + 1) gap (.suspended 0 rest scope) =
      (build n scope rest >>= Task.finish n gap) := rfl

def World.awake (w : World) : World := { w with woken := w.poller :: w.woken }

theorem Task.stage_suspended_succ (n left : Nat) (rest : Program) (scope : Scope) (w : World) :
    (Task.poll (n + 1)).stage (.suspended (left + 1) rest scope) w =
      .returned (.inr (.suspended left rest scope)) w.awake := rfl

theorem Task.finish_suspended_succ (n left : Nat) (gap : World → World) (rest : Program)
    (scope : Scope) (w : World) :
    Task.finish (n + 1) gap (.suspended (left + 1) rest scope) w =
      Task.finish (n + 1) gap (.suspended left rest scope) (gap w.awake) := rfl

end Around

/-! ## Carrying through only adds to the log -/

section Keeps

variable {gap : World → World}

theorem keeps_grows {α : Type} {m : Effect World α} (h : Effect.Keeps World.Follows m) :
    Effect.Keeps World.Grows m := h.mono fun _ _ h => h.1

theorem keeps_logResolution (message : Closure Expr) (sql : String) (r : Resolution Value) :
    Effect.Keeps World.Grows (logResolution message sql r) := by
  cases r with
  | error p => exact Effect.Keeps.pure _
  | ok o =>
    cases o with
    | ok v => exact Effect.Keeps.pure _
    | error e =>
      exact (keeps_grows (keeps_logFailure (some e) message sql)).bind fun _ => Effect.Keeps.pure _

theorem keeps_pause (hgap : ∀ w, World.Grows w (gap w)) (left : Nat) :
    Effect.Keeps World.Grows (pause gap left) := by
  induction left with
  | zero => exact Effect.Keeps.pure ()
  | succ left ih =>
    refine Effect.Keeps.bind (fun w => (World.follows_of_events rfl rfl rfl).1) fun _ => ?_
    exact Effect.Keeps.bind hgap fun _ => ih

theorem World.grows_notePoll (hgap : ∀ w, World.Grows w (gap w)) (id : Nat) (w : World) :
    w.Grows ((gap w).notePoll id) :=
  Trans.trans (hgap w) ((gap w).follows_note (.poll id)).1

theorem Numbered.keeps_finish {finish : (World → World) → Task → Effect World (Resolution Value)}
    (hfinish : ∀ gap, (∀ w, World.Grows w (gap w)) → ∀ task, Effect.Keeps World.Grows (finish gap task))
    (hgap : ∀ w, World.Grows w (gap w)) (x : Numbered Task) :
    Effect.Keeps World.Grows (Numbered.finish finish gap x) := by
  refine Effect.Keeps.bind (fun w => (w.follows_note (.poll x.id)).1) fun _ => ?_
  exact hfinish _ (World.grows_notePoll hgap x.id) x.task

theorem keeps_collecting (channel : Int64) : Effect.Keeps World.Follows (collecting channel) :=
  (World.keeps_collect channel).bind fun _ => Effect.Keeps.pure _

theorem Immediate.keeps_poll (x : Immediate Value) :
    Effect.Keeps World.Follows (Immediate.poll x) := by
  cases x <;> exact Effect.Keeps.pure _

/-- What is polled until it resolves only adds to the log. -/
theorem keeps_stage_finish {F : Type} {poll : Poller World F Value}
    (hpoll : ∀ x, Effect.Keeps World.Follows (poll x)) (hgap : ∀ w, World.Grows w (gap w)) (n : Nat)
    (x : F) : Effect.Keeps World.Grows (poll.stage.finish gap n x) :=
  Stage.keeps_finish (fun x => Poller.keeps_stage (keeps_grows (hpoll x))) hgap n x

theorem Task.keeps_finish (fuel : Nat) (hgap : ∀ w, World.Grows w (gap w)) (task : Task) :
    Effect.Keeps World.Grows (Task.finish fuel gap task) := by
  induction fuel generalizing gap task with
  | zero => exact Effect.Keeps.cut
  | succ fuel ih =>
    cases task with
    | settled c => exact keeps_stage_finish (fun _ => Effect.Keeps.pure _) hgap (fuel + 1) c
    | failed x => exact keeps_stage_finish Immediate.keeps_poll hgap (fuel + 1) x
    | suspended left rest scope =>
      exact (keeps_pause hgap left).bind fun _ =>
        (keeps_grows (keeps_build fuel scope rest)).bind fun task => ih hgap task
    | receiving channel => exact keeps_stage_finish keeps_collecting hgap (fuel + 1) channel
    | metered step => exact keeps_stage_finish MeterStep.keeps_poll hgap (fuel + 1) step
    | looping job =>
      have hkit := keeps_kit (keeps_build fuel) (Task.poll fuel)
      have hfind := fun rest => keeps_grows (Job.Rest.keeps_find hkit fuel rest)
      have hsteps := Numbered.keeps_finish (fun gap hgap task => ih hgap task) hgap
      exact (Course.keeps_finish hfind hsteps _ job.view).bind fun _ => Effect.Keeps.pure _
    | watched w =>
      cases w with
      | finished => exact Effect.Keeps.pure _
      | active task message sql =>
        exact (ih hgap task).bind fun r => keeps_logResolution message sql r

end Keeps

/-! ## Polling tracks carrying through -/

section Leaf

variable {F : Type} {poll : Poller World F Value} {wrap : F → Task} {gap : World → World}

/-- A task that has no other task inside. -/
theorem Task.tracks_leaf
    (hstage : ∀ n x, (Task.poll (n + 1)).stage (wrap x) = (poll.stage x >>= Stage.around wrap pure))
    (hfinish : ∀ n x, Task.finish (n + 1) gap (wrap x) = poll.stage.finish gap (n + 1) x)
    (hpoll : ∀ x, Effect.Keeps World.Follows (poll x)) (hgap : ∀ w, World.Grows w (gap w))
    (m n₀ n : Nat) (x : F) (w : World) :
    ((Task.poll (n₀ + 1)).stage.await (Task.poll (n + 1)).stage gap m (wrap x) w).Tracks World.Grows
      fun N => Task.finish N gap (wrap x) w := by
  have hinner := Stage.tracks_finish (R := World.Grows) (p := poll.stage)
    (fun x => Poller.keeps_stage (keeps_grows (hpoll x))) hgap m x w
  have houter := Stage.tracks_around id (fun x w => congrFun (hstage n₀ x) w)
    (fun x w => congrFun (hstage n x) w) (fun r => Effect.Keeps.pure r) hinner
  refine houter.congr ?_
  filter_upwards [eventually_ge_atTop 1] with N hN
  obtain ⟨N, rfl⟩ : ∃ N', N = N' + 1 := ⟨N - 1, by omega⟩
  rw [hfinish, bind_pure]
  rfl

theorem Task.attains_leaf
    (hstage : ∀ n x, (Task.poll (n + 1)).stage (wrap x) = (poll.stage x >>= Stage.around wrap pure))
    (hfinish : ∀ n x, Task.finish (n + 1) gap (wrap x) = poll.stage.finish gap (n + 1) x)
    (N : Nat) (x : F) (w : World) :
    Attains (fun n => (Task.poll n).stage) gap (wrap x) w (Task.finish (N + 1) gap (wrap x) w) := by
  have houter := Attains.around wrap pure id gap
    (fun n x w => congrFun (hstage n x) w) (Stage.attains_finish (p := poll.stage) (N + 1) x w)
  rw [bind_pure] at houter
  rw [hfinish]
  exact houter.of_succ

end Leaf

theorem Numbered.tracks_finish {gap : World → World} {n₀ n m : Nat}
    (htask : ∀ gap, (∀ w, World.Grows w (gap w)) → ∀ task w,
      ((Task.poll n₀).stage.await (Task.poll n).stage gap m task w).Tracks World.Grows
        fun N => Task.finish N gap task w)
    (hgap : ∀ w, World.Grows w (gap w)) (x : Numbered Task) (w : World) :
    ((Numbered.poll (Task.poll n₀)).stage.await (Numbered.poll (Task.poll n)).stage gap m x w).Tracks
      World.Grows fun N => Numbered.finish (Task.finish N) gap x w := by
  obtain ⟨id, task⟩ := x
  have hinner := htask (fun w => (gap w).notePoll id) (World.grows_notePoll hgap id) task
    (w.notePoll id)
  have houter := Stage.tracks_around (World.notePoll id) (Numbered.stage_around (Task.poll n₀) id)
    (Numbered.stage_around (Task.poll n) id) (fun r => Effect.Keeps.pure r) hinner
  refine houter.congr (.of_forall fun N => ?_)
  rw [bind_pure]
  rfl

theorem tracks_waiting {F : Type} {x : F} {w : World} {f : Nat → Ending World (Resolution Value)}
    (h : ∀ᶠ N in atTop, w.Grows (f N).world) :
    (Ending.returned (.waiting x : Awaited F Value) w).Tracks World.Grows f := h

/-- When a suspension is over, what is built is polled at once. -/
theorem Task.tracks_built {m n₀ n : Nat} {gap : World → World}
    (htask : ∀ task w, ((Task.poll n₀).stage.await (Task.poll n).stage gap m task w).Tracks World.Grows
      fun N => Task.finish N gap task w) (rest : Program) (scope : Scope) (w : World) :
    ((Task.poll (n₀ + 1)).stage.await (Task.poll n).stage gap m (.suspended 0 rest scope) w).Tracks
      World.Grows fun N => Task.finish N gap (.suspended 0 rest scope) w := by
  have hbuild : ∀ᶠ N in atTop, (build n₀ scope rest).Below (build N scope rest) :=
    (eventually_ge_atTop n₀).mono fun N hN => build_below hN scope rest
  refine Ending.Tracks.of_succ ?_
  simp only [Task.finish_suspended]
  rw [Task.await_suspended]
  exact Ending.Tracks.after hbuild htask

theorem Task.tracks_suspended {m n₀ n left : Nat} {gap : World → World}
    (hgap : ∀ w, World.Grows w (gap w)) (rest : Program) (scope : Scope) (w : World)
    (hlater : ∀ m' < m, ((Task.poll n).stage.await (Task.poll n).stage gap m'
      (.suspended left rest scope) (gap w.awake)).Tracks World.Grows
        fun N => Task.finish N gap (.suspended left rest scope) (gap w.awake)) :
    ((Task.poll (n₀ + 1)).stage.await (Task.poll n).stage gap m (.suspended (left + 1) rest scope)
      w).Tracks World.Grows fun N => Task.finish N gap (.suspended (left + 1) rest scope) w := by
  rw [Stage.await_of_inr _ _ _ (Task.stage_suspended_succ n₀ left rest scope w)]
  refine Ending.Tracks.of_succ ?_
  simp only [Task.finish_suspended_succ]
  cases m with
  | zero =>
    refine tracks_waiting (.of_forall fun N => ?_)
    have hrest := Task.keeps_finish (N + 1) hgap (.suspended left rest scope) (gap w.awake)
    exact Trans.trans (hgap w.awake) hrest
  | succ m =>
    rw [Stage.awaitRest_succ]
    exact (hlater m (Nat.lt_succ_self m)).succ

/-- Whatever becomes of polling a task until it resolves, carrying it through comes to the same. -/
theorem Task.tracks_finish (m n₀ n : Nat) (hn : n₀ ≤ n) {gap : World → World}
    (hgap : ∀ w, World.Grows w (gap w)) (task : Task) (w : World) :
    ((Task.poll n₀).stage.await (Task.poll n).stage gap m task w).Tracks World.Grows
      fun N => Task.finish N gap task w := by
  -- The later polls are fewer, and the first one goes inside with less fuel.
  induction m using Nat.strong_induction_on generalizing n₀ n gap task w with
  | h m ihm =>
  induction n₀ generalizing n gap task w with
  | zero => trivial
  | succ n₀ ihn =>
  obtain ⟨n, rfl⟩ : ∃ n', n = n' + 1 := ⟨n - 1, by omega⟩
  have hn' : n₀ ≤ n := by omega
  cases task with
  | settled c =>
    exact Task.tracks_leaf Task.stage_settled (fun _ _ => rfl) (fun _ => Effect.Keeps.pure _) hgap m n₀
      n c w
  | failed x =>
    exact Task.tracks_leaf Task.stage_failed (fun _ _ => rfl) Immediate.keeps_poll hgap m n₀ n x w
  | receiving channel =>
    exact Task.tracks_leaf Task.stage_receiving (fun _ _ => rfl) keeps_collecting hgap m n₀ n channel w
  | metered step =>
    exact Task.tracks_leaf Task.stage_metered (fun _ _ => rfl) MeterStep.keeps_poll hgap m n₀ n step w
  | suspended left rest scope =>
    cases left with
    | zero => exact Task.tracks_built (ihn (n + 1) (by omega) hgap) rest scope w
    | succ left =>
      exact Task.tracks_suspended hgap rest scope w fun m' hm' =>
        ihm m' hm' (n + 1) (n + 1) le_rfl hgap (.suspended left rest scope) (gap w.awake)
  | looping job =>
    refine Ending.Tracks.of_succ ?_
    refine Stage.tracks_around id (fun job w => congrFun (Task.stage_looping n₀ job) w)
      (fun job w => congrFun (Task.stage_looping n job) w) (fun r => Effect.Keeps.pure _) ?_
    have hsteps : ∀ n', ∀ᶠ N in atTop, ∀ g call,
        (callStep (build n') g call).Below (callStep (build N) g call) := fun n' =>
      (eventually_ge_atTop n').mono fun N hN => callStep_below (build_below hN)
    exact Job.tracks_finish (kit (build n) (Task.poll n)) (callStep (build n₀)) (callStep (build n))
      (Numbered.poll (Task.poll n₀)) (Numbered.poll (Task.poll n)) (fun N => callStep (build N))
      (fun N => Kit.Keeps.mono (fun _ _ h => h.1) (keeps_kit (keeps_build N) (Task.poll n)))
      (fun N => Numbered.keeps_finish (fun gap hgap task => Task.keeps_finish N hgap task) hgap)
      (hsteps n₀) (hsteps n) m
      (fun m' hm' => Numbered.tracks_finish (fun gap hgap => ihm m' hm' n n le_rfl hgap) hgap)
      (Numbered.tracks_finish (fun gap hgap => ihn n hn' hgap) hgap) n₀ n job w
  | watched x =>
    cases x with
    | finished =>
      have hfirst : (Task.poll (n₀ + 1)).stage (.watched .finished) w =
          .returned (.inl (.error .mapFinished)) w := rfl
      rw [Stage.await_of_inl _ _ _ hfirst]
      exact Ending.Tracks.of_succ (.of_forall fun N => rfl)
    | active task message sql =>
      refine Ending.Tracks.of_succ ?_
      exact Stage.tracks_around id
        (fun task w => congrFun (Task.stage_watched n₀ message sql task) w)
        (fun task w => congrFun (Task.stage_watched n message sql task) w)
        (keeps_logResolution message sql) (ihn n hn' hgap task w)

/-! ## Polling attains what carrying through comes to -/

theorem Numbered.attains_finish {gap : World → World} {N : Nat}
    (htask : ∀ gap task w,
      Attains (fun n => (Task.poll n).stage) gap task w (Task.finish N gap task w))
    (x : Numbered Task) (w : World) :
    Attains (fun n => (Numbered.poll (Task.poll n)).stage) gap x w
      (Numbered.finish (Task.finish N) gap x w) := by
  obtain ⟨id, task⟩ := x
  have houter := Attains.around (fun task => ({ id, task } : Numbered Task)) pure (World.notePoll id) gap
    (fun n task w => Numbered.stage_around (Task.poll n) id task w)
    (htask (fun w => (gap w).notePoll id) task (w.notePoll id))
  rw [bind_pure] at houter
  exact houter

theorem Task.attains_built {N : Nat} {gap : World → World}
    (htask : ∀ task w, Attains (fun n => (Task.poll n).stage) gap task w (Task.finish N gap task w))
    (rest : Program) (scope : Scope) (w : World) :
    Attains (fun n => (Task.poll n).stage) gap (.suspended 0 rest scope) w
      (Task.finish (N + 1) gap (.suspended 0 rest scope) w) := by
  rw [Task.finish_suspended]
  intro hcut
  have hbuild : ∀ n₀, N ≤ n₀ → (build N scope rest).Below (build n₀ scope rest) :=
    fun n₀ hn₀ => build_below hn₀ scope rest
  cases hb : build N scope rest w with
  | cut v => rw [Effect.bind_of_cut _ hb] at hcut; exact nomatch hcut
  | broken reason v =>
    refine ⟨N + 1, 0, fun n₀ hn₀ n _ m => ?_⟩
    obtain ⟨n₀, rfl⟩ : ∃ n', n₀ = n' + 1 := ⟨n₀ - 1, by omega⟩
    have hn₀' := (hbuild n₀ (by omega)).of_broken hb
    rw [Task.await_suspended, Effect.bind_of_broken _ hn₀', Effect.bind_of_broken _ hb]
    rfl
  | returned task v =>
    rw [Effect.bind_of_returned _ hb] at hcut ⊢
    obtain ⟨k, used, hall⟩ := htask task v hcut
    refine ⟨max k N + 1, used, fun n₀ hn₀ n hn m => ?_⟩
    obtain ⟨n₀, rfl⟩ : ∃ n', n₀ = n' + 1 := ⟨n₀ - 1, by omega⟩
    have hn₀' := (hbuild n₀ (by omega)).of_returned hb
    rw [Task.await_suspended, Effect.bind_of_returned _ hn₀']
    exact hall n₀ (by omega) n (by omega) m

/-- A task that gives way needs one poll more than the task that it waits as. -/
theorem Task.attains_suspended {N left : Nat} {gap : World → World} {rest : Program} {scope : Scope}
    {w : World}
    (hlater : Attains (fun n => (Task.poll n).stage) gap (.suspended left rest scope) (gap w.awake)
      (Task.finish (N + 1) gap (.suspended left rest scope) (gap w.awake))) :
    Attains (fun n => (Task.poll n).stage) gap (.suspended (left + 1) rest scope) w
      (Task.finish (N + 1) gap (.suspended (left + 1) rest scope) w) := by
  rw [Task.finish_suspended_succ]
  intro hcut
  obtain ⟨k, used, hall⟩ := hlater hcut
  refine ⟨k + 1, used + 1, fun n₀ hn₀ n hn m => ?_⟩
  obtain ⟨n₀, rfl⟩ : ∃ n', n₀ = n' + 1 := ⟨n₀ - 1, by omega⟩
  have hused : used + 1 + m = used + m + 1 := by omega
  change (Task.poll (n₀ + 1)).stage.await (Task.poll n).stage gap (used + 1 + m) _ w = _
  rw [hused, Stage.await_of_inr _ _ _ (Task.stage_suspended_succ n₀ left rest scope w),
    Stage.awaitRest_succ]
  exact hall n (by omega) n (by omega) m

/-- Where carrying a task through comes to an end, enough polls with enough fuel come to it. -/
theorem Task.attains_finish (N : Nat) (gap : World → World) (task : Task) (w : World) :
    Attains (fun n => (Task.poll n).stage) gap task w (Task.finish N gap task w) := by
  induction N generalizing gap task w with
  | zero => exact fun hcut => nomatch hcut
  | succ N ih =>
  cases task with
  | settled c => exact Task.attains_leaf Task.stage_settled (fun _ _ => rfl) N c w
  | failed x => exact Task.attains_leaf Task.stage_failed (fun _ _ => rfl) N x w
  | receiving channel => exact Task.attains_leaf Task.stage_receiving (fun _ _ => rfl) N channel w
  | metered step => exact Task.attains_leaf Task.stage_metered (fun _ _ => rfl) N step w
  | suspended left rest scope =>
    induction left generalizing w with
    | zero => exact Task.attains_built (ih gap) rest scope w
    | succ left ihleft => exact Task.attains_suspended (ihleft (gap w.awake))
  | looping job =>
    refine Attains.of_succ ?_
    refine Attains.around Task.looping _ id gap (fun n job w => congrFun (Task.stage_looping n job) w) ?_
    exact Job.attains_finish (kit (build N) (Task.poll N)) (callStep (build N))
      (Numbered.poll (Task.poll N)) (fun n => callStep (build n))
      (fun n => Numbered.poll (Task.poll n))
      ⟨N, fun n hn => callStep_below (build_below hn)⟩ (Numbered.attains_finish ih) N job w
  | watched x =>
    cases x with
    | finished =>
      refine fun _ => ⟨1, 0, fun n₀ hn₀ n _ m => ?_⟩
      obtain ⟨n₀, rfl⟩ : ∃ n', n₀ = n' + 1 := ⟨n₀ - 1, by omega⟩
      have hfirst : (Task.poll (n₀ + 1)).stage (.watched .finished) w =
          .returned (.inl (.error .mapFinished)) w := rfl
      rw [Nat.zero_add]
      exact Stage.await_of_inl _ _ _ hfirst
    | active task message sql =>
      refine Attains.of_succ ?_
      exact Attains.around (fun task => Task.watched (.active task message sql)) _ id gap
        (fun n task w => congrFun (Task.stage_watched n message sql task) w) (ih gap task w)

end Stepwise.Script
