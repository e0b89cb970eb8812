import Stepwise.Proofs.Simulation
import Stepwise.Proofs.Job.Paired

/-! # Jobs that nobody can tell apart

A simulation between the courses of two jobs makes the jobs alike.

* `Job.stage_paired`: one poll of two jobs is one poll of their courses.
* `Job.alike_of_simulation` is for two jobs in one world, `Job.alike_owned_of_simulation` for a job on the
  right that has a private part of the world.
* `Kit.eager` polls every step at once after it was requested, which is what a job does with the steps that
  it finds (`Rest.find_eager`). To compare two kits it is enough to compare requests together with first
  polls (`Kit.simulation`), so that the one may do in the request what the other one does in the poll.
* `Job.start_alike`: jobs whose steps are alike are alike. `Job.start_alike_of_eager` and
  `Job.start_stage_of_eager` are for steps that are alike after the first poll.
* `Job.answers` makes a job and asks it in given gaps. `Kit.recording` is a kit that only notes its calls.
-/

namespace Stepwise
set_option autoImplicit false

variable {W V S I I' α α' P P' G G' F F' β β' γ γ' : Type}

theorem Effect.Paired.requested_refl (m : Effect W (F × G)) :
    Effect.Paired Equal (Requested (Same Equal) id id) m m := by
  refine (Effect.Paired.refl m).imp fun {r r' w v} hr => ?_
  exact ⟨⟨congrArg Prod.fst hr.1, hr.2⟩, r.2, rfl, (congrArg Prod.snd hr.1).symm⟩

/-! ## Steps that are polled at once -/

/-- The kit whose steps are polled at once after they were requested. -/
def Kit.eager (k : Kit W I α P G F β) : Kit W I α P G (Resolution β ⊕ F) β where
  next := k.next
  test := k.test
  step g call := do
    let (x, g) ← k.step g call
    let s ← k.poll.stage x
    pure (s, g)
  poll
    | .inl r => pure (r.answer, .inl r)
    | .inr x => do
      let (answer, x) ← k.poll x
      pure (answer, .inr x)
  isTrue := k.isTrue
  summand := k.summand

theorem Walk.next_eager {b : Scan W I α P G F} {b' : Scan W I α P G (Resolution β ⊕ F)}
    {step : Stage W F β} (hnext : b'.next = b.next) (htest : b'.test = b.test)
    (hstep : ∀ g x i, b'.step g x i = b.step g x i >>= fun r => step r.1 >>= fun s => pure (s, r.2)) (n : Nat)
    (p : Walk I P G) : Walk.next b' n p = Walk.next b n p >>= Course.meet step := by
  induction n generalizing p with
  | zero => rfl
  | succ n ih =>
    rw [Walk.next, Walk.next, hnext, htest, bind_assoc]
    refine bind_congr fun r => ?_
    obtain ⟨entry, source⟩ := r
    cases entry with
    | none => rfl
    | some x =>
      simp only [bind_assoc]
      refine bind_congr fun r => ?_
      obtain ⟨verdict, filter⟩ := r
      cases verdict with
      | error e => rfl
      | ok accepted =>
        cases accepted with
        | false => exact ih _
        | true => simp only [hstep, bind_assoc, pure_bind, Course.meet]

theorem RangeWalk.next_eager {b : RangeScan W P G F} {b' : RangeScan W P G (Resolution β ⊕ F)}
    {step : Stage W F β} (htest : b'.test = b.test)
    (hstep : ∀ g i, b'.step g i = b.step g i >>= fun r => step r.1 >>= fun s => pure (s, r.2))
    (p : RangeWalk P G) : p.next b' = p.next b >>= Course.meet step := by
  rw [RangeWalk.next, RangeWalk.next]
  induction p.remaining generalizing p with
  | zero => rfl
  | succ n ih =>
    rw [RangeWalk.scan, RangeWalk.scan, htest]
    simp only [bind_assoc]
    refine bind_congr fun r => ?_
    obtain ⟨verdict, filter⟩ := r
    cases verdict with
    | error e => rfl
    | ok accepted =>
      cases accepted with
      | false => exact ih _
      | true => simp only [hstep, bind_assoc, pure_bind, Course.meet]

namespace Job

theorem located_eager {C T : Type} {locate : C → T} {step : Stage W F β} {m : Effect W (Found F × C)}
    {m' : Effect W (Found (Resolution β ⊕ F) × C)} (h : m' = m >>= Course.meet step) :
    located locate m' = located locate m >>= Course.meet step := by
  rw [located_bind, located, h, bind_assoc]
  refine bind_congr fun r => ?_
  obtain ⟨found, c⟩ := r
  cases found with
  | step x => simp only [Course.meet, bind_assoc, pure_bind]
  | _ => rfl

/-- To request the next step and poll it at once. -/
theorem Rest.find_eager (k : Kit W I α P G F β) (n : Nat) (rest : Rest I α P G) :
    rest.find k.eager n = rest.find k n >>= Course.meet k.poll.stage := by
  cases rest with
  | iterate form c => exact located_eager (Walk.next_eager rfl rfl (fun _ _ _ => rfl) n c)
  | list form c => exact located_eager (Walk.next_eager rfl rfl (fun _ _ _ => rfl) n c)
  | range filtered c => exact located_eager (RangeWalk.next_eager rfl (fun _ _ => rfl) c)
  | chain g elements =>
    cases elements with
    | nil => rfl
    | cons x elements => simp only [Rest.find, Kit.eager, Course.meet, bind_assoc, pure_bind]
  | sum s c => exact located_eager (Walk.next_eager rfl rfl (fun _ _ _ => rfl) n c)
  | sumList s c => exact located_eager (Walk.next_eager rfl rfl (fun _ _ _ => rfl) n c)
  | sumRange s c => exact located_eager (RangeWalk.next_eager rfl (fun _ _ => rfl) c)
  | several c => exact located_eager (Walk.next_eager rfl rfl (fun _ _ _ => rfl) n c)
  | drive g => simp only [Rest.find, Kit.eager, Course.meet, bind_assoc, pure_bind]
  | last total => rfl

end Job

/-- Kits whose steps are the same after the first poll have the same courses. -/
theorem Kit.simulation {R : Nat → W → V → Prop} {J : F → F' → W → V → Prop} {k : Kit W I α P G F β}
    {k' : Kit V I α P G F' β} (hk : k.eager.Paired R (Course.Stepped R J) id id k'.eager)
    (hstep : ∀ x x' w v, J x x' w v →
      (k.poll.stage x w).Paired R (Course.Stepped R J) (k'.poll.stage x' v)) (n : Nat) :
    Course.Simulation (Course.Tie.places R Eq J) (Job.course k.isTrue k.summand) (Job.Rest.find k n) k.poll.stage
      (Job.course k'.isTrue k'.summand) (Job.Rest.find k' n) k'.poll.stage := by
  have hisTrue : k.isTrue = k'.isTrue := hk.isTrue
  have hsummand : k.summand = k'.summand := hk.summand
  rw [← hisTrue, ← hsummand]
  refine (Course.Alongside.refl _).simulation (fun {c c'} hc => ?_) hstep
  obtain rfl : c = c' := hc
  have hfind := Job.Rest.find_paired hk n c
  rw [Job.Rest.mapConsumer_id, Job.Rest.find_eager, Job.Rest.find_eager] at hfind
  refine hfind.imp fun {a b w v} hab => ?_
  obtain ⟨hfound, c, ha, hb⟩ := hab
  exact ⟨ha.trans hb.symm, hfound⟩

/-- Kits whose steps are the same before the first poll. -/
theorem Kit.Paired.eager {R : Nat → W → V → Prop} {J : F → F' → W → V → Prop} {k : Kit W I α P G F β}
    {k' : Kit V I α P G F' β} (hk : k.Paired R J id id k')
    (hstep : ∀ x x' w v, J x x' w v →
      (k.poll.stage x w).Paired R (Course.Stepped R J) (k'.poll.stage x' v)) :
    k.eager.Paired R (Course.Stepped R J) id id k'.eager where
  next := hk.next
  test := hk.test
  step g call := by
    refine (hk.step g call).bind fun a b w v hab => ?_
    obtain ⟨hJ, c, ha, hb⟩ := hab
    exact (hstep a.1 b.1 w v hJ).bind fun s s' w v hs => ⟨hs, c, ha, hb⟩
  isTrue := hk.isTrue
  summand := hk.summand

/-! ## One poll of two jobs -/

namespace Job

/-- The same resolution, or two jobs at which a poll may begin. -/
def Left (t : Course.Tie W V (Rest I α P G) (Rest I' α' P' G') F F' (Option Int32) (Option Int32))
    (extra extra' N : Nat) :
    Resolution (Option Int32) ⊕ Job I α P G F → Resolution (Option Int32) ⊕ Job I' α' P' G' F' → W → V → Prop
  | .inl r, .inl r' => t.ends r r'
  | .inr j, .inr j' => fun w v => j.Fits extra ∧ j'.Fits extra' ∧ t.begun N j.view j'.view w v
  | _, _ => fun _ _ => False

section Polls

variable {t : Course.Tie W V (Rest I α P G) (Rest I' α' P' G') F F' (Option Int32) (Option Int32)}
  {k : Kit W I α P G F β} {k' : Kit V I' α' P' G' F' β'} {n n' extra extra' N : Nat}

theorem fits_stage (k : Kit W I α P G F β) (n : Nat) {extra : Nat} {j : Job I α P G F} (hfit : j.Fits extra)
    (w : W) :
    (Poller.stage (poll k n) j w).Ensures (fun _ => True) fun s _ => ∀ j', s = .inr j' → j'.Fits extra := by
  rw [Poller.stage_eq]
  refine (fits_poll k n hfit w).bind fun r w hr => ?_
  obtain ⟨answer, j'⟩ := r
  rintro _ hs
  cases answer with
  | pending => cases hs; exact hr
  | ready o => cases hs
  | panicked cause => cases hs

/-- One poll of two jobs whose courses are tied. -/
theorem stage_paired
    (sim : Course.Simulation t (course k.isTrue k.summand) (Rest.find k n) k.poll.stage
      (course k'.isTrue k'.summand) (Rest.find k' n') k'.poll.stage)
    (hfuel : n + extra = N) (hfuel' : n' + extra' = N) {j : Job I α P G F} {j' : Job I' α' P' G' F'}
    (hfit : j.Fits extra) (hfit' : j'.Fits extra') {w : W} {v : V} (h : t.begun N j.view j'.view w v) :
    (Poller.stage (poll k n) j w).Paired t.worlds (Left t extra extra' N) (Poller.stage (poll k' n') j' v) := by
  have hstage := sim.stage N h
  have hview := stage_view k n hfit
  have hview' := stage_view k' n' hfit'
  rw [hfuel] at hview
  rw [hfuel'] at hview'
  rw [← hview, ← hview'] at hstage
  have hpair := hstage.of_bind_pure.and_ensures (fits_stage k n hfit w) (fits_stage k' n' hfit' v)
  refine hpair.imp fun {s s' w v} hs => ?_
  obtain ⟨hleft, hright, hs⟩ := hs
  cases s with
  | inl r =>
    cases s' with
    | inl r' => exact hs
    | inr j' => exact hs.elim
  | inr j =>
    cases s' with
    | inl r' => exact hs.elim
    | inr j' => exact ⟨hleft j rfl, hright j' rfl, hs⟩

end Polls

end Job

/-! ## Ties that do not depend on the world -/

namespace Course.Tie

variable {C C' : Type}

/-- Nothing that ties the two sides depends on the world. -/
structure Steady (t : Tie W W C C' F F' γ γ) : Prop where
  worlds : t.worlds = Equal
  ahead : ∀ {N c c' w v}, t.ahead N c c' w v → w = v ∧ ∀ u, t.ahead N c c' u u
  under : ∀ {N a a' w v}, t.under N a a' w v → w = v ∧ ∀ u, t.under N a a' u u
  ends : ∀ {r r' w v}, t.ends r r' w v → r = r' ∧ w = v

theorem Steady.begun {t : Tie W W C C' F F' γ γ} (h : t.Steady) {N : Nat} {s : State C F} {s' : State C' F'}
    {w v : W} (hs : t.begun N s s' w v) : w = v ∧ ∀ u, t.begun N s s' u u := by
  obtain ⟨c, c', rfl, rfl, hs⟩ | ⟨x, c, x', c', rfl, rfl, hs⟩ := t.begun_cases hs
  · exact h.ahead hs
  · exact h.under hs

/-- Only the private part of the right side ties the two sides. -/
structure Private (t : Tie W (W × S) C C' F F' γ γ') : Prop where
  worlds : t.worlds = Beside
  ahead : ∀ {N c c' w v}, t.ahead N c c' w v → w = v.1 ∧ ∀ u, t.ahead N c c' u (u, v.2)
  under : ∀ {N a a' w v}, t.under N a a' w v → w = v.1 ∧ ∀ u, t.under N a a' u (u, v.2)

theorem Private.begun {t : Tie W (W × S) C C' F F' γ γ'} (h : t.Private) {N : Nat} {s : State C F}
    {s' : State C' F'} {w : W} {v : W × S} (hs : t.begun N s s' w v) :
    w = v.1 ∧ ∀ u, t.begun N s s' u (u, v.2) := by
  obtain ⟨c, c', rfl, rfl, hs⟩ | ⟨x, c, x', c', rfl, rfl, hs⟩ := t.begun_cases hs
  · exact h.ahead hs
  · exact h.under hs

theorem steady_places {D : C → C' → Prop} {J : F → F' → W → W → Prop}
    (hJ : ∀ {x x' w v}, J x x' w v → w = v ∧ ∀ u, J x x' u u) :
    (Tie.places Equal D J : Tie W W C C' F F' γ γ).Steady where
  worlds := rfl
  ahead h := ⟨h.2, fun _ => ⟨h.1, rfl⟩⟩
  under h := ⟨(hJ h.2).1, fun u => ⟨h.1, (hJ h.2).2 u⟩⟩
  ends h := h

end Course.Tie

/-! ## From a simulation to states that are alike -/

namespace Job

section OneWorld

variable {t : Course.Tie W W (Rest I α P G) (Rest I' α' P' G') F F' (Option Int32) (Option Int32)}
  {k : Kit W I α P G F β} {k' : Kit W I' α' P' G' F' β'} {n n' extra extra' N : Nat}

theorem alike_of_simulation (hsteady : t.Steady)
    (sim : Course.Simulation t (course k.isTrue k.summand) (Rest.find k n) k.poll.stage
      (course k'.isTrue k'.summand) (Rest.find k' n') k'.poll.stage)
    (hfuel : n + extra = N) (hfuel' : n' + extra' = N) (j : Job I α P G F) (j' : Job I' α' P' G' F')
    (hfit : j.Fits extra) (hfit' : j'.Fits extra') {w : W} (h : t.begun N j.view j'.view w w) :
    Poller.Alike (poll k n) (poll k' n') j j' := by
  refine ⟨fun j j' => j.Fits extra ∧ j'.Fits extra' ∧ ∀ w, t.begun N j.view j'.view w w, ?_,
    hfit, hfit', (hsteady.begun h).2⟩
  rintro j j' ⟨hfit, hfit', h⟩ w v rfl
  have hpair := stage_paired sim hfuel hfuel' hfit hfit' (h w)
  rw [hsteady.worlds] at hpair
  refine hpair.imp fun {s s' w v} hs => ?_
  cases s with
  | inl r =>
    cases s' with
    | inl r' => exact ⟨.inl (hsteady.ends hs).1, (hsteady.ends hs).2⟩
    | inr j' => exact hs.elim
  | inr j =>
    cases s' with
    | inl r' => exact hs.elim
    | inr j' =>
      obtain ⟨hfit, hfit', hs⟩ := hs
      exact ⟨.inr ⟨hfit, hfit', (hsteady.begun hs).2⟩, (hsteady.begun hs).1⟩

/-- Two jobs that make the same steps and the same of them, from places in `D`. -/
theorem alike_of_alongside {k' : Kit W I' α' P' G' F β} {D : Rest I α P G → Rest I' α' P' G' → Prop}
    (hco : Course.Alongside D (course k.isTrue k.summand) (course k'.isTrue k'.summand))
    (hfind : ∀ {c c'}, D c c' →
      Effect.Paired Equal (fun a a' w v => D a.2 a'.2 ∧ Found.Paired Equal (Same Equal) a.1 a'.1 w v)
        (Rest.find k n c) (Rest.find k' n' c'))
    (hpoll : k'.poll = k.poll) (hfuel : n + extra = N) (hfuel' : n' + extra' = N) (j : Job I α P G F)
    (j' : Job I' α' P' G' F) (hfit : j.Fits extra) (hfit' : j'.Fits extra') {c : Rest I α P G}
    {c' : Rest I' α' P' G'} (h : D c c') (hview : j.view = .ahead c) (hview' : j'.view = .ahead c') (w : W) :
    Poller.Alike (poll k n) (poll k' n') j j' := by
  have hsteady : (Course.Tie.places Equal D (Same Equal) : Course.Tie W W (Rest I α P G)
      (Rest I' α' P' G') F F (Option Int32) (Option Int32)).Steady :=
    Course.Tie.steady_places fun {x x' w v} hx => ⟨hx.2, fun u => ⟨hx.1, rfl⟩⟩
  have hstep : ∀ x x' w v, Same Equal x x' w v →
      (k.poll.stage x w).Paired Equal (Course.Stepped Equal (Same Equal)) (k'.poll.stage x' v) := by
    rw [hpoll]
    exact Course.stepped_refl k.poll.stage
  have sim := hco.simulation (fun h => Course.meet_paired hstep (hfind h)) hstep
  refine alike_of_simulation hsteady sim hfuel hfuel' j j' hfit hfit' (w := w) ?_
  rw [hview, hview']
  exact ⟨h, rfl⟩

end OneWorld

end Job

theorem Resolution.map_id (r : Resolution α) : r.map (fun a => a) = r := by
  cases r with
  | error cause => rfl
  | ok o => cases o <;> rfl

/-- What an owned state comes to in a poll. -/
def Poller.closed (close : S → α → γ) : (Resolution α ⊕ F) × S → Resolution γ ⊕ F × S
  | (.inl r, s) => .inl (r.map (close s))
  | (.inr x, s) => .inr (x, s)

theorem Poller.owned_stage (close : S → α → γ) (p : Poller (W × S) F α) (x : F) (s : S) :
    (p.owned close).stage (x, s) = (p.stage x).owning s >>= fun r => pure (Poller.closed close r) := by
  rw [Poller.stage_eq, Poller.stage_eq, Poller.owned, Effect.owning_bind, bind_assoc, bind_assoc]
  refine bind_congr fun r => ?_
  obtain ⟨⟨answer, x⟩, s⟩ := r
  cases answer with
  | ready o => cases o <;> rfl
  | _ => rfl

namespace Job

section Owned

variable {t : Course.Tie W (W × S) (Rest I α P G) (Rest I' α' P' G') F F' (Option Int32) (Option Int32)}
  {k : Kit W I α P G F β} {k' : Kit (W × S) I' α' P' G' F' β'} {n n' extra extra' N : Nat}
  {close : S → Option Int32 → Option Int32}

theorem alike_owned_of_simulation (hprivate : t.Private)
    (hends : ∀ {r r' w v}, t.ends r r' w v → r = r'.map (close v.2) ∧ w = v.1)
    (sim : Course.Simulation t (course k.isTrue k.summand) (Rest.find k n) k.poll.stage
      (course k'.isTrue k'.summand) (Rest.find k' n') k'.poll.stage)
    (hfuel : n + extra = N) (hfuel' : n' + extra' = N) (j : Job I α P G F) (j' : Job I' α' P' G' F')
    (hfit : j.Fits extra) (hfit' : j'.Fits extra') {w : W} {s : S}
    (h : t.begun N j.view j'.view w (w, s)) :
    Poller.Alike (poll k n) (Poller.owned close (poll k' n')) j (j', s) := by
  refine ⟨fun j y => j.Fits extra ∧ y.1.Fits extra' ∧ ∀ w, t.begun N j.view y.1.view w (w, y.2), ?_,
    hfit, hfit', (hprivate.begun h).2⟩
  rintro j ⟨j', s⟩ ⟨hfit, hfit', h⟩ w v rfl
  have hpair := stage_paired sim hfuel hfuel' hfit hfit' (h w)
  rw [hprivate.worlds] at hpair
  rw [Poller.owned_stage]
  refine hpair.owning.bind_right fun a b w v hab => ?_
  obtain ⟨b, s⟩ := b
  cases a with
  | inl r =>
    cases b with
    | inl r' => exact ⟨.inl (hends hab).1, (hends hab).2⟩
    | inr j' => exact hab.elim
  | inr j =>
    cases b with
    | inl r' => exact hab.elim
    | inr j' =>
      obtain ⟨hfit, hfit', hs⟩ := hab
      exact ⟨.inr ⟨hfit, hfit', (hprivate.begun hs).2⟩, (hprivate.begun hs).1⟩

/-- What the tie says of every value that the right side can come to. -/
theorem asked_owned_ensures {close : S → Option Int32 → γ} {Good : γ → Prop} (hprivate : t.Private)
    (hends : ∀ {r o w v}, t.ends r (.ok (.ok o)) w v → Good (close v.2 o))
    (sim : Course.Simulation t (course k.isTrue k.summand) (Rest.find k n) k.poll.stage
      (course k'.isTrue k'.summand) (Rest.find k' n') k'.poll.stage)
    (hfuel : n + extra = N) (hfuel' : n' + extra' = N) (j : Job I α P G F) (j' : Job I' α' P' G' F')
    (hfit : j.Fits extra) (hfit' : j'.Fits extra') {s : S} (h : ∀ w, t.begun N j.view j'.view w (w, s))
    (gaps : List (Effect W Unit)) (w : W) :
    ((Poller.owned close (poll k' n')).asked gaps (j', s) w).Ensures (fun _ => True)
      fun answers _ => ∀ a, .ready (.ok a) ∈ answers → Good a := by
  refine Poller.asked_ensures (K := fun y => ∃ j : Job I α P G F, j.Fits extra ∧ y.1.Fits extra' ∧
    ∀ w, t.begun N j.view y.1.view w (w, y.2)) ?_ gaps ⟨j, hfit, hfit', h⟩ w
  rintro ⟨j', s⟩ w ⟨j, hfit, hfit', h⟩
  have hpair := stage_paired sim hfuel hfuel' hfit hfit' (h w)
  rw [hprivate.worlds] at hpair
  have hright := hpair.owning.ensures_right (P := fun b v => ∃ a u, Left t extra extra' N a b.1 u (v, b.2))
    fun hab => ⟨_, _, hab⟩
  rw [Poller.owned_stage]
  refine hright.bind fun b w hb => ?_
  obtain ⟨b, s⟩ := b
  obtain ⟨a, u, hab⟩ := hb
  cases a with
  | inl r =>
    cases b with
    | inr j' => exact hab.elim
    | inl r' =>
      constructor
      · intro o ho
        match r', ho with
        | .ok (.ok o), rfl => exact hends hab
      · intro y hy
        cases hy
  | inr j =>
    cases b with
    | inl r' => exact hab.elim
    | inr j' =>
      obtain ⟨hfit, hfit', hs⟩ := hab
      constructor
      · intro o ho
        cases ho
      · rintro _ ⟨⟩
        exact ⟨j, hfit, hfit', (hprivate.begun hs).2⟩

end Owned

/-! ## Jobs over steps that are alike -/

/-- Make a job and ask it. -/
def answers (k : Kit W I α P G F β) (fuel : Nat) (plan : Plan I α) (filter : P) (consumer : G)
    (gaps : List (Effect W Unit)) : Effect W (List (Poll (Option Int32))) :=
  start k.next k.step fuel plan filter consumer >>= (poll k fuel).asked gaps

section Steps

variable {k : Kit W I α P G F β} {k' : Kit W I α P G F' β}

theorem stepped_of_alikeAt {x : F} {x' : F'} {w v : W} (h : k.poll.AlikeAt k'.poll x x' w v) :
    (k.poll.stage x w).Paired Equal (Course.Stepped Equal (k.poll.AlikeAt k'.poll)) (k'.poll.stage x' v) := by
  obtain ⟨h, hw⟩ := h
  refine (h.poll w v hw).imp fun {a b w v} hab => ?_
  obtain ⟨hab, hw⟩ := hab
  cases hab with
  | inl hr => exact ⟨hr, hw⟩
  | inr hxy => exact ⟨hxy, hw⟩

/-- Two jobs that hold the same place and steps that are alike. -/
theorem alike_of_begun (hk : k.eager.Paired Equal (Course.Stepped Equal (k.poll.AlikeAt k'.poll)) id id k'.eager)
    (n : Nat) {j : Job I α P G F} {j' : Job I α P G F'} (hextra : j.extra = j'.extra) {w v : W}
    (h : (Course.Tie.places Equal Eq (k.poll.AlikeAt k'.poll)).begun (γ := Option Int32)
      (n + j.extra) j.view j'.view w v) :
    (poll k n).AlikeAt (poll k' n) j j' w v := by
  have hsteady : (Course.Tie.places Equal Eq (k.poll.AlikeAt k'.poll) :
      Course.Tie W W (Rest I α P G) (Rest I α P G) F F' (Option Int32) (Option Int32)).Steady :=
    Course.Tie.steady_places fun {x x' w v} hJ => ⟨hJ.2, fun u => ⟨hJ.1, rfl⟩⟩
  have sim := Kit.simulation hk (fun x x' w v hJ => stepped_of_alikeAt hJ) n
  obtain ⟨hw, h⟩ := hsteady.begun h
  refine ⟨alike_of_simulation hsteady sim rfl ?_ j j' (fits_extra j) (fits_extra j') (h w), hw⟩
  rw [hextra]

theorem Started.begun {R : Nat → W → V → Prop} {J : F → F' → W → V → Prop} {j : Job I α P G F}
    {j' : Job I α P G F'} {w : W} {v : V} (h : Started R J id id j j' w v) (N : Nat) :
    (Course.Tie.places R Eq J).begun (γ := Option Int32) N j.view j'.view w v := by
  obtain ⟨-, ⟨rest, hj, hj', hR⟩ | ⟨rest, x, x', hj, hj', hJ⟩⟩ := h
  · rw [hj, hj']
    exact ⟨rfl, hR⟩
  · rw [hj, hj']
    exact ⟨rfl, hJ⟩

/-- Jobs whose steps are alike are alike. -/
theorem start_alike (hk : k.Paired Equal (k.poll.AlikeAt k'.poll) id id k') (n : Nat) (plan : Plan I α)
    (filter : P) (consumer : G) :
    Effect.Paired Equal ((poll k n).AlikeAt (poll k' n)) (start k.next k.step n plan filter consumer)
      (start k'.next k'.step n plan filter consumer) := by
  have heager := hk.eager fun x x' w v hJ => stepped_of_alikeAt hJ
  have hstart := start_paired hk.next hk.step n plan filter consumer
  exact hstart.imp fun h => alike_of_begun heager n h.1 (h.begun _)

/-- Only the application to one element requests a step when it is made. -/
theorem start_congr_step {next : Next W I α} {plan : Plan I α} (hplan : ∀ x, plan ≠ .apply [x])
    (step step' : G → Call α → Effect W (F × G)) (n : Nat) (filter : P) (consumer : G) :
    start next step n plan filter consumer = start next step' n plan filter consumer := by
  cases plan with
  | apply elements =>
    match elements with
    | [] => rfl
    | [x] => exact absurd rfl (hplan x)
    | x :: y :: rest => rfl
  | _ => rfl

/-- Jobs that make no step when they are made, and whose steps are alike after the first poll. -/
theorem start_alike_of_eager
    (hk : k.eager.Paired Equal (Course.Stepped Equal (k.poll.AlikeAt k'.poll)) id id k'.eager) (n : Nat)
    {plan : Plan I α} (hplan : ∀ x, plan ≠ .apply [x]) (filter : P) (consumer : G) :
    Effect.Paired Equal ((poll k n).AlikeAt (poll k' n)) (start k.next k.step n plan filter consumer)
      (start k'.next k'.step n plan filter consumer) := by
  rw [start_congr_step hplan k.step fun _ _ => Effect.cut,
    start_congr_step hplan k'.step fun _ _ => Effect.cut]
  have hnext : ∀ source, Effect.Paired Equal (Same Equal) (k.next source) (k'.next source) := hk.next
  have hstart : Effect.Paired Equal (Started Equal (k.poll.AlikeAt k'.poll) id id)
      (start k.next (fun _ _ => Effect.cut) n plan filter consumer)
      (start k'.next (fun _ _ => Effect.cut) n plan filter consumer) :=
    start_paired hnext (fun _ _ => Effect.Paired.cut) n plan filter consumer
  exact hstart.imp fun h => alike_of_begun hk n h.1 (h.begun _)

/-- What is left of the application to one element when its step was polled. -/
def ofSingle : Resolution β ⊕ F → Resolution (Option Int32) ⊕ Job I α P G F
  | .inl r => .inl (r.map fun _ => none)
  | .inr x => .inr (.apply (.single x))

theorem stage_single (k : Kit W I α P G F β) (n : Nat) (x : F) :
    Poller.stage (poll k n) (.apply (.single x)) = k.poll.stage x >>= fun s => pure (ofSingle s) := by
  rw [Poller.stage_eq, Poller.stage_eq, bind_assoc]
  simp only [poll, unvalued, Application.poll, bind_assoc]
  refine bind_congr fun r => ?_
  obtain ⟨answer, x⟩ := r
  cases answer with
  | ready o => cases o <;> rfl
  | _ => rfl

/-- All jobs whose steps are alike after the first poll are alike after the first poll. -/
theorem start_stage_of_eager
    (hk : k.eager.Paired Equal (Course.Stepped Equal (k.poll.AlikeAt k'.poll)) id id k'.eager) (n : Nat)
    (plan : Plan I α) (filter : P) (consumer : G) :
    Effect.Paired Equal (Poller.Agreed ((poll k n).Alike (poll k' n)))
      (start k.next k.step n plan filter consumer >>= (poll k n).stage)
      (start k'.next k'.step n plan filter consumer >>= (poll k' n).stage) := by
  by_cases hplan : ∃ x, plan = .apply [x]
  · obtain ⟨x, rfl⟩ := hplan
    have hnow : ∀ {F : Type} (k : Kit W I α P G F β),
        start k.next k.step n (.apply [x]) filter consumer >>= (poll k n).stage =
          k.eager.step consumer (.element x) >>= fun r => pure (ofSingle r.1) := by
      intro F k
      simp only [start, Application.ofList, Kit.eager, bind_assoc, pure_bind, stage_single]
    rw [hnow, hnow]
    refine (hk.step consumer (.element x)).bind fun a b w v hab => ?_
    obtain ⟨s, g⟩ := a
    obtain ⟨s', g'⟩ := b
    obtain ⟨hs, -⟩ := hab
    cases s with
    | inl r =>
      cases s' with
      | inr y' => exact hs.elim
      | inl r' =>
        obtain ⟨rfl, hw⟩ := hs
        exact ⟨.inl rfl, hw⟩
    | inr y =>
      cases s' with
      | inl r' => exact hs.elim
      | inr y' =>
        have halike : (poll k n).AlikeAt (poll k' n) (.apply (.single y)) (.apply (.single y')) w v :=
          alike_of_begun hk n rfl ⟨rfl, hs⟩
        exact ⟨.inr halike.1, halike.2⟩
  · have hmade := start_alike_of_eager hk n (fun x hx => hplan ⟨x, hx⟩) filter consumer
    refine hmade.bind fun j j' w v hj => ?_
    obtain ⟨hj, hw⟩ := hj
    exact hj.poll w v hw

end Steps

end Job

/-! ## A world that records the calls -/

/-- Steps that wait once and then resolve. The world records the calls that request them. -/
def Kit.recording : Kit (List (Call α)) I α Unit Unit Bool Unit where
  next source := pure (none, source)
  test p _ := pure (.ok true, p)
  step g call := do
    Effect.changes (· ++ [call])
    pure (false, g)
  poll waited := pure (if waited then .ready (.ok ()) else .pending, true)
  isTrue _ := true
  summand _ := 0

end Stepwise
