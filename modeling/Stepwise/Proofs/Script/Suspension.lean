import Stepwise.Proofs.Script.Unsuspended
import Stepwise.Proofs.Script.Alone

/-! # Suspension changes nothing but the number of polls

A loop that runs alone and waits for no message, beside the same loop without its suspensions and with
steps of the meter that are resolved when they are requested.

* `OnlyDelayed`: the first run comes to what the second one comes to, with as many polls more as it has
  to wait for, and at any time it has done a first part of what the second one does.
* `suspension_only_delays`: this is so for every loop, with loops in its steps to any depth.
-/

namespace Stepwise.Script
set_option autoImplicit false

open Filter

/-- The loop with all suspensions of its step set to zero. -/
def Spec.unsuspended (spec : Spec) : Spec := { spec with step := spec.step.unsuspended }

/-- What a world shows besides polls. -/
structure Trace where
  happenings : List Event
  registers : Registers

def World.trace (w : World) : Trace where
  happenings := w.happenings
  registers := w.registers

/-- The two runs, each with so much fuel and so many polls at most, differ only in the polls that the
first one waits for. The second one answers its first poll. -/
structure OnlyDelayed (run direct : Nat → Nat → Ending Session Session.Reply) : Prop where
  /-- An answer of the first run comes with the poll after all its waits, and it is that of the second
  run. -/
  answered : ∀ {fuel limit polls answer s}, run fuel limit = .returned (.finished polls answer) s →
    answer ≠ .polled .pending → polls = 1 + s.world.waits ∧
      ∀ᶠ n in atTop, ∀ limit', ∃ s', direct n limit' = .returned (.finished 1 answer) s' ∧
        s'.world.trace = s.world.trace
  /-- An answer of the second run is an answer of the first one. -/
  answers : ∀ {fuel limit polls answer s'}, direct fuel limit = .returned (.finished polls answer) s' →
    polls = 1 ∧ answer ≠ .polled .pending ∧ ∃ w : World, w.trace = s'.world.trace ∧
      ∀ᶠ n in atTop, ∀ limit', w.waits < limit' →
        ∃ s, run n limit' = .returned (.finished (1 + w.waits) answer) s ∧ s.world = w
  /-- While the first run waits, it has done a first part of what the second one does. -/
  pending : ∀ {fuel limit polls s},
    run fuel limit = .returned (.finished polls (.polled .pending)) s →
      ∀ᶠ n in atTop, ∀ limit', s.world.happenings <+: (direct n limit').world.world.happenings
  /-- Where the one breaks down because the loop cannot be made, so does the other. -/
  unmade : ∀ fuel limit limit' reason trace,
    (∃ s, run fuel limit = .broken reason s ∧ s.world.trace = trace) ↔
      ∃ s, direct fuel limit' = .broken reason s ∧ s.world.trace = trace

/-! ## One fuel for both runs -/

theorem World.grows_ticked (w : World) : w.Grows w.ticked := List.suffix_refl w.events

theorem ticks_ticked : Ticks World.ticked := by
  intro z d w v h
  refine ⟨h.happenings, h.registers, h.nextStep, h.level, h.settled, ?_⟩
  have hpolls := h.polls
  change w.poller + 1 + d = z + w.waits
  omega

theorem World.Aligned.ticked {z d : Nat} {w v : World} (h : World.Aligned z d w v) :
    World.Aligned (z + 1) d w.ticked v.ticked := by
  refine ⟨h.happenings, h.registers, h.nextStep, h.level, h.settled, ?_⟩
  have hpolls := h.polls
  change w.poller + 1 + d = z + 1 + w.waits
  omega

theorem World.Aligned.trace {z d : Nat} {w v : World} (h : World.Aligned z d w v) :
    v.trace = w.trace := by
  rw [World.trace, World.trace, h.happenings, h.registers]

namespace Session

variable {spec : Spec} {flavor : Flavor} {fuel : Nat}

theorem launch_paired (hsilent : spec.step.isSilent = true) (flavor : Flavor) (N : Nat) :
    (launch (build N) N [] spec.shape spec.step { flavor }).Paired (World.Aligned 0) (Task.Late 0)
      (launch (build N) N [] spec.shape spec.step.unsuspended { flavor := .settled }) :=
  launch_late (build_late spec.step hsilent) N 0 [] spec.shape _ _ ⟨rfl, rfl, rfl, rfl, rfl, rfl⟩

theorem finish_late {task task' : Task} {w v : World} (h : task.Late 0 task' w v) (N : Nat) :
    (Task.finish N World.ticked task w.ticked).Paired (World.Aligned 1) (AtOnce (World.Aligned 1))
      ((Task.poll N).stage task' v.ticked) := by
  obtain ⟨d, hdelays, hd⟩ := h
  exact hdelays N World.ticked ticks_ticked 1 w.ticked v.ticked hd.ticked

/-- A poll that resolves at once is the answer of the session. -/
theorem finish_at_once {R : Nat → World → World → Prop} {e : Ending World (Resolution Value)}
    {task' : Task} {v : World} {N : Nat}
    (h : e.Paired R (AtOnce R) ((Task.poll N).stage task' v.ticked)) (specs : List Spec) (more : Nat) :
    (∃ answer w s', said e = .returned answer w ∧ answer ≠ .polled .pending ∧
      finish N 0 more 0 (single specs (some task') v) = .returned (1, answer) s' ∧ R 0 w s'.world) ∨
    ∃ w s' d, e = .cut w ∧ finish N 0 more 0 (single specs (some task') v) = .cut s' ∧
      R d w s'.world := by
  have hpoll := poll_single specs N task' v
  rw [Poller.stage_eq, Effect.bind_apply] at h
  cases ht : Task.poll N task' v.ticked with
  | cut v' =>
    rw [ht] at h hpoll
    cases e with
    | cut w =>
      obtain ⟨d, hd⟩ := h
      exact .inr ⟨w, _, d, rfl, finish_of_cut 0 more 0 hpoll, hd⟩
    | _ => exact h.elim
  | broken reason v' =>
    rw [ht] at h hpoll
    obtain ⟨w, rfl, hR⟩ := h.broken_left
    exact .inl ⟨.broken reason, w, _, rfl, nofun, finish_of_answer 0 more 0 hpoll nofun, hR⟩
  | returned r v' =>
    obtain ⟨answer, x⟩ := r
    rw [ht] at h hpoll
    obtain ⟨r, w, rfl, hs, hR⟩ := h.exists_left
    cases answer with
    | pending => cases hs
    | ready o => cases hs; exact .inl ⟨_, w, _, rfl, nofun, finish_of_answer 0 more 0 hpoll nofun, hR⟩
    | panicked c =>
      cases hs
      exact .inl ⟨_, w, _, rfl, nofun, finish_of_answer 0 more 0 hpoll nofun, hR⟩

/-- An answer that was told is said of everything that the awaited computation tracks. -/
theorem eventually_said {R : World → World → Prop} {e : Ending World (Awaited Task Value)}
    {f : Nat → Ending World (Resolution Value)} {answer : Answer} {w : World} (h : e.Tracks R f)
    (htold : told e = .returned answer w) (hanswer : answer ≠ .polled .pending) :
    ∀ᶠ N in atTop, said (f N) = .returned answer w := by
  cases e with
  | cut v => cases htold
  | broken reason v =>
    cases htold
    filter_upwards [show ∀ᶠ N in atTop, f N = .broken reason w from h] with N hN
    rw [hN]
    rfl
  | returned a v =>
    cases a with
    | waiting x => cases htold; exact absurd rfl hanswer
    | resolved r left =>
      cases htold
      filter_upwards [show ∀ᶠ N in atTop, f N = .returned r w from h] with N hN
      rw [hN]
      rfl

/-- A run that has polled its loop has made it. -/
theorem launch_of_alone {limit polls : Nat} {answer : Answer} {s : Session}
    (h : alone flavor spec fuel limit = .returned (.finished polls answer) s) :
    ∃ task w, launch (build fuel) fuel [] spec.shape spec.step { flavor } = .returned task w ∧
      w.poller = 0 ∧ finish fuel 0 (limit - 1) 0 (single [spec] (some task) w) =
        .returned (polls, answer) s := by
  have hkeeps := (keeps_launch (keeps_build fuel) fuel [] spec.shape spec.step { flavor }).2
  cases hl : launch (build fuel) fuel [] spec.shape spec.step { flavor } with
  | cut w => rw [alone_of_cut flavor spec hl] at h; cases h
  | broken reason w => rw [alone_of_broken flavor spec hl] at h; cases h
  | returned task w =>
    rw [hl] at hkeeps
    rw [alone_of_returned flavor spec hl] at h
    exact ⟨task, w, rfl, hkeeps, finished_eq h⟩

theorem launch_of_le {n : Nat} (hn : fuel ≤ n) {task : Task} {w : World}
    (h : launch (build fuel) fuel [] spec.shape spec.step { flavor } = .returned task w) :
    launch (build n) n [] spec.shape spec.step { flavor } = .returned task w :=
  (launch_below (build_below hn) hn [] spec.shape spec.step).of_returned h

/-- Whenever carrying the first loop through comes to an answer, the second run gives it with its first
poll. -/
theorem direct_of_said (hsilent : spec.step.isSilent = true) {n : Nat} {task : Task} {w u : World}
    {answer : Answer}
    (hl : launch (build n) n [] spec.shape spec.step { flavor } = .returned task w)
    (hsaid : said (Task.finish n World.ticked task w.ticked) = .returned answer u) (limit : Nat) :
    ∃ s', alone .settled spec.unsuspended n limit = .returned (.finished 1 answer) s' ∧
      World.Aligned 1 0 u s'.world := by
  have hpair := launch_paired hsilent flavor n
  rw [hl] at hpair
  obtain ⟨task', v, hl', hlate⟩ := hpair.exists_right
  rw [alone_of_returned .settled spec.unsuspended hl' limit]
  obtain ⟨a, w', s', hsaid', -, hfinish, hR⟩ | ⟨w', s', d, hcut, -, -⟩ :=
    finish_at_once (finish_late hlate n) [spec.unsuspended] (limit - 1)
  · rw [hsaid] at hsaid'
    cases hsaid'
    exact ⟨s', Effect.bind_of_returned _ hfinish, hR⟩
  · rw [hcut] at hsaid
    cases hsaid

/-! ## The four parts -/

theorem answered_late (hsilent : spec.step.isSilent = true) {limit polls : Nat} {answer : Answer}
    {s : Session} (h : alone flavor spec fuel limit = .returned (.finished polls answer) s)
    (hanswer : answer ≠ .polled .pending) :
    polls = 1 + s.world.waits ∧ ∀ᶠ n in atTop, ∀ limit', ∃ s',
      alone .settled spec.unsuspended n limit' = .returned (.finished 1 answer) s' ∧
        s'.world.trace = s.world.trace := by
  obtain ⟨task, w, hl, hw, hfinish⟩ := launch_of_alone h
  have hshown := shown_finish [spec] fuel (limit - 1) 0 task w
  rw [hfinish] at hshown
  have htrack := Task.tracks_finish (limit - 1) fuel fuel le_rfl World.grows_ticked task w.ticked
  have hsaid := eventually_said htrack hshown.symm hanswer
  have hdirect : ∀ᶠ n in atTop, ∀ limit', ∃ s',
      alone .settled spec.unsuspended n limit' = .returned (.finished 1 answer) s' ∧
        World.Aligned 1 0 s.world s'.world := by
    filter_upwards [hsaid, eventually_ge_atTop fuel] with n hn hfuel limit'
    exact direct_of_said hsilent (launch_of_le hfuel hl) hn limit'
  constructor
  · obtain ⟨n, hn⟩ := hdirect.exists
    obtain ⟨s', -, halign⟩ := hn 1
    have hcount := polls_finish hfinish
    have hpolls := halign.polls
    omega
  · filter_upwards [hdirect] with n hn limit'
    obtain ⟨s', hs', halign⟩ := hn limit'
    exact ⟨s', hs', halign.trace⟩

theorem answers_late (hsilent : spec.step.isSilent = true) (flavor : Flavor) {limit polls : Nat}
    {answer : Answer} {s' : Session}
    (h : alone .settled spec.unsuspended fuel limit = .returned (.finished polls answer) s') :
    polls = 1 ∧ answer ≠ .polled .pending ∧ ∃ w : World, w.trace = s'.world.trace ∧
      ∀ᶠ n in atTop, ∀ limit', w.waits < limit' →
        ∃ s, alone flavor spec n limit' = .returned (.finished (1 + w.waits) answer) s ∧
          s.world = w := by
  obtain ⟨task', v, hl', -, hfinish'⟩ := launch_of_alone h
  have hpair := launch_paired hsilent flavor fuel
  rw [show launch (build fuel) fuel [] spec.shape spec.step.unsuspended _ = _ from hl'] at hpair
  obtain ⟨task, w, hl, hlate⟩ := hpair.exists_left
  have hw : w.poller = 0 := by
    have hkeeps := (keeps_launch (keeps_build fuel) fuel [] spec.shape spec.step { flavor }).2
    rw [hl] at hkeeps
    exact hkeeps
  obtain ⟨a, u, s₁, hsaid, ha, hfinish, halign⟩ | ⟨u, s₁, d, -, hfinish, -⟩ :=
    finish_at_once (finish_late hlate fuel) [spec.unsuspended] (limit - 1)
  · rw [hfinish] at hfinish'
    cases hfinish'
    refine ⟨rfl, ha, u, halign.trace.symm, ?_⟩
    obtain ⟨e, he⟩ : ∃ e, Task.finish fuel World.ticked task w.ticked = e := ⟨_, rfl⟩
    have hattains := Task.attains_finish fuel World.ticked task w.ticked
    rw [he] at hattains hsaid
    obtain ⟨k, used, hall⟩ := hattains (by cases e <;> first | rfl | cases hsaid)
    filter_upwards [eventually_ge_atTop (max k fuel)] with n hn limit' hlimit
    have hshown := shown_finish [spec] n (used + 0) 0 task w
    rw [show (Task.poll n).stage.await (Task.poll n).stage _ _ _ _ = _ from
      hall n (by omega) n (by omega) 0, told_map, hsaid] at hshown
    obtain ⟨count, s, hs, rfl⟩ := finish_of_shown hshown
    have hcount := polls_finish hs
    have hpolls := halign.polls
    obtain rfl : count = 1 + s.world.waits := by omega
    have hlimited : finish n 0 (limit' - 1) 0 (single [spec] (some task) w) =
        .returned (1 + s.world.waits, answer) s := finish_limit hs ha (by omega)
    refine ⟨s, ?_, rfl⟩
    rw [alone_of_returned flavor spec (launch_of_le (by omega) hl) limit']
    exact Effect.bind_of_returned _ hlimited
  · rw [hfinish] at hfinish'
    cases hfinish'

theorem pending_late (hsilent : spec.step.isSilent = true) {limit polls : Nat} {s : Session}
    (h : alone flavor spec fuel limit = .returned (.finished polls (.polled .pending)) s) :
    ∀ᶠ n in atTop, ∀ limit', s.world.happenings <+:
      (alone .settled spec.unsuspended n limit').world.world.happenings := by
  obtain ⟨task, w, hl, -, hfinish⟩ := launch_of_alone h
  have hshown := shown_finish [spec] fuel (limit - 1) 0 task w
  rw [hfinish] at hshown
  have htrack := Task.tracks_finish (limit - 1) fuel fuel le_rfl World.grows_ticked task w.ticked
  have hgrows : ∀ᶠ n in atTop, s.world.Grows (Task.finish n World.ticked task w.ticked).world := by
    cases ha : (Task.poll fuel).stage.await (Task.poll fuel).stage World.ticked (limit - 1) task
        w.ticked with
    | cut v => rw [ha] at hshown; cases hshown
    | broken reason v => rw [ha] at hshown; cases hshown
    | returned a v =>
      rw [ha] at hshown htrack
      cases a with
      | resolved r left =>
        have hpending := (Ending.returned.inj hshown).1
        exact absurd hpending.symm (answerOf_ne_pending r)
      | waiting x => cases hshown; exact htrack
  filter_upwards [hgrows, eventually_ge_atTop fuel] with n hn hfuel limit'
  have hpair := launch_paired hsilent flavor n
  rw [launch_of_le hfuel hl] at hpair
  obtain ⟨task', v, hl', hlate⟩ := hpair.exists_right
  rw [alone_of_returned .settled spec.unsuspended hl' limit']
  refine hn.happenings.trans ?_
  obtain ⟨a, u, s', hsaid, -, hfinish', hR⟩ | ⟨u, s', d, hcut, hfinish', hR⟩ :=
    finish_at_once (finish_late hlate n) [spec.unsuspended] (limit' - 1)
  · rw [Effect.bind_of_returned _ hfinish', world_of_said hsaid, hR.happenings]
    exact List.prefix_refl _
  · rw [hcut, Effect.bind_of_cut _ hfinish']
    exact hR.happenings ▸ List.prefix_refl u.happenings

/-- Only making the loop can break down. -/
theorem launch_of_broken {limit : Nat} {reason : Breakdown} {s : Session}
    (h : alone flavor spec fuel limit = .broken reason s) :
    launch (build fuel) fuel [] spec.shape spec.step { flavor } = .broken reason s.world := by
  cases hl : launch (build fuel) fuel [] spec.shape spec.step { flavor } with
  | cut w => rw [alone_of_cut flavor spec hl] at h; cases h
  | broken reason' w => rw [alone_of_broken flavor spec hl] at h; cases h; rfl
  | returned task w =>
    rw [alone_of_returned flavor spec hl, Effect.bind_apply] at h
    have hshown := shown_finish [spec] fuel (limit - 1) 0 task w
    cases hf : finish fuel 0 (limit - 1) 0 (single [spec] (some task) w) with
    | returned r s' => rw [hf] at h; cases h
    | cut s' => rw [hf] at h; cases h
    | broken reason' s' =>
      rw [hf] at hshown
      cases ha : (Task.poll fuel).stage.await (Task.poll fuel).stage World.ticked (limit - 1) task
          w.ticked with
      | returned a v => rw [ha] at hshown; cases a <;> cases hshown
      | broken reason'' v => rw [ha] at hshown; cases hshown
      | cut v => rw [ha] at hshown; cases hshown

theorem unmade_late (hsilent : spec.step.isSilent = true) (limit limit' : Nat) (reason : Breakdown)
    (trace : Trace) :
    (∃ s, alone flavor spec fuel limit = .broken reason s ∧ s.world.trace = trace) ↔
      ∃ s, alone .settled spec.unsuspended fuel limit' = .broken reason s ∧ s.world.trace = trace := by
  have hpair := launch_paired hsilent flavor fuel
  constructor
  · rintro ⟨s, hs, rfl⟩
    rw [launch_of_broken hs] at hpair
    obtain ⟨v, hl, halign⟩ := hpair.broken_right
    exact ⟨_, alone_of_broken .settled spec.unsuspended hl limit', halign.trace⟩
  · rintro ⟨s, hs, rfl⟩
    rw [show launch (build fuel) fuel [] spec.shape spec.step.unsuspended _ = _ from
      launch_of_broken hs] at hpair
    obtain ⟨w, hl, halign⟩ := hpair.broken_left
    exact ⟨_, alone_of_broken flavor spec hl limit, halign.trace.symm⟩

end Session

/-- Suspension changes nothing but the number of polls: a loop that waits for no message answers with
the poll after all the waits that it reached, and what happens in it, the registers and the answer are
those of the loop without suspensions. -/
theorem suspension_only_delays (spec : Spec) (hsilent : spec.step.isSilent = true) (flavor : Flavor) :
    OnlyDelayed (alone flavor spec) (alone .settled spec.unsuspended) where
  answered := Session.answered_late hsilent
  answers := Session.answers_late hsilent flavor
  pending := Session.pending_late hsilent
  unmade := fun _ limit limit' => Session.unmade_late hsilent limit limit'

/-- A watched loop over a range whose step waits for two polls and then sums up two steps of the
meter. -/
def nestedSpec : Spec where
  shape :=
    { pattern := .range false
      elements := .range (.literal (.int 0)) (.literal (.int 2))
      watch := some ⟨.literal (.text "loop"), .literal (.text "SELECT 1")⟩ }
  step := .suspend (.literal (.int 2)) (.loop
    { pattern := .sum, elements := .replicate (.literal (.int 1)) (.literal (.int 2)) }
    (.meter (.var "v")))

theorem nestedSpec_only_delays :
    nestedSpec.step.isSilent = true ∧
      OnlyDelayed (alone .yielding nestedSpec) (alone .settled nestedSpec.unsuspended) :=
  ⟨rfl, suspension_only_delays nestedSpec rfl .yielding⟩

/-- Both of its steps wait for two polls, and for one in each of two steps of the meter. -/
example :
    (match alone .yielding nestedSpec 20 20 with
      | .returned (.finished polls _) s => (polls, s.world.waits)
      | _ => (0, 0)) = (9, 8) := by decide +kernel

end Stepwise.Script
