import Stepwise.Proofs.Job.Alike
import Stepwise.Proofs.Job.Closed
import Stepwise.Proofs.Job.Find
import Stepwise.Proofs.Unless

/-! # Jobs that stay in step

The same job on two sides, made and polled at the same time, with steps that are tied to each other in whatever
way.

* `Job.Tied K J`: both jobs are in the same place, with a filter in `K`, and their steps under way are in `J`.
* `Tied.of_fresh` and `poll_tied`: jobs that are made on both sides are tied, and polls of tied jobs give the same
  answers and leave them tied, if the steps do and unless the right side strays. This goes on after they have
  resolved.
* `Tied.isOver`: the two jobs say the same of whether they are over.
-/

namespace Stepwise
set_option autoImplicit false

variable {ι W V I α P G κ F F' β : Type}

namespace Job

/-! ## What ties two jobs -/

/-- The same place on both sides, with steps in `J`. -/
inductive Stands (K : P → Prop) (J : F → F' → Prop) (left right : κ → G) :
    Course.State (Rest I α P G) F → Course.State (Rest I α P G) F' → Prop
  | ahead {rest : Rest I α P κ} (hrest : rest.Filters K) :
    Stands K J left right (.ahead (rest.mapConsumer left)) (.ahead (rest.mapConsumer right))
  | under {rest : Rest I α P κ} {x : F} {x' : F'} (hrest : rest.Filters K) (hx : J x x') :
    Stands K J left right (.under (.step x) (rest.mapConsumer left))
      (.under (.step x') (rest.mapConsumer right))
  | closed (cause : Panic) : Stands K J left right (.closed cause) (.closed cause)

/-- The same job on both sides, with steps in `J`. -/
structure Tied (K : P → Prop) (J : F → F' → Prop) (left right : κ → G) (j : Job I α P G F)
    (j' : Job I α P G F') : Prop where
  fits : ∃ extra, j.Fits extra ∧ j'.Fits extra
  driven : j.isDriven = j'.isDriven
  hollow : j.hollow? = j'.hollow?
  stands : Stands K J left right j.view j'.view

variable {K : P → Prop} {J : F → F' → Prop} {left right : κ → G}

theorem Stands.mono {J' : F → F' → Prop} (hJ : ∀ x x', J x x' → J' x x') {s : Course.State (Rest I α P G) F}
    {s' : Course.State (Rest I α P G) F'} (h : Stands K J left right s s') : Stands K J' left right s s' := by
  cases h with
  | ahead hrest => exact .ahead hrest
  | under hrest hx => exact .under hrest (hJ _ _ hx)
  | closed cause => exact .closed cause

theorem Tied.mono {J' : F → F' → Prop} (hJ : ∀ x x', J x x' → J' x x') {j : Job I α P G F}
    {j' : Job I α P G F'} (h : Tied K J left right j j') : Tied K J' left right j j' :=
  { h with stands := h.stands.mono hJ }

theorem closing_mapConsumer (f : κ → G) (rest : Rest I α P κ) : (rest.mapConsumer f).closing = rest.closing := by
  cases rest with
  | last total => cases total <;> rfl
  | _ => rfl

theorem Stands.closing_eq {s : Course.State (Rest I α P G) F} {s' : Course.State (Rest I α P G) F'}
    (h : Stands K J left right s s') : closing s = closing s' := by
  cases h with
  | ahead hrest => exact (closing_mapConsumer _ _).trans (closing_mapConsumer _ _).symm
  | under hrest hx => exact (closing_mapConsumer _ _).trans (closing_mapConsumer _ _).symm
  | closed cause => rfl

/-! ## Whether a job is over -/

/-- It refuses every poll. -/
def isClosed : Course.State (Rest I α P G) F → Bool
  | .closed _ => true
  | _ => false

theorem isOver_eq (j : Job I α P G F) : j.isOver? = if j.isDriven then some (isClosed j.view) else none := by
  cases j with
  | drive l =>
    obtain ⟨g, current, finished⟩ := l
    cases finished <;> cases current <;> rfl
  | _ => rfl

theorem Stands.isClosed_eq {s : Course.State (Rest I α P G) F} {s' : Course.State (Rest I α P G) F'}
    (h : Stands K J left right s s') : isClosed s = isClosed s' := by
  cases h <;> rfl

theorem Tied.isOver {j : Job I α P G F} {j' : Job I α P G F'} (h : Tied K J left right j j') :
    j.isOver? = j'.isOver? := by
  rw [isOver_eq, isOver_eq, h.driven, h.stands.isClosed_eq]

/-- No poll makes another kind of job. -/
theorem driven_poll (k : Kit W I α P G F β) (n : Nat) (j : Job I α P G F) (w : W) :
    (poll k n j w).Ensures (fun _ => True) fun r _ => r.2.isDriven = j.isDriven := by
  have hwrap : ∀ {S T : Type} (f : T → Poll (Option Int32)) (wrap : S → Job I α P G F) (m : Effect W (T × S)),
      (∀ s, (wrap s).isDriven = j.isDriven) →
      ((m >>= fun r => pure (f r.1, wrap r.2)) w).Ensures (fun _ => True) fun r _ => r.2.isDriven = j.isDriven :=
    fun f wrap m h => (Ending.Ensures.any _).bind fun r _ _ => h r.2
  cases j <;> exact hwrap _ _ _ fun _ => rfl

/-! ## Tied courses -/

/-- The same place on both sides. -/
def SamePlace (K : P → Prop) (left right : κ → G) (c c' : Rest I α P G) : Prop :=
  ∃ rest : Rest I α P κ, rest.Filters K ∧ c = rest.mapConsumer left ∧ c' = rest.mapConsumer right

theorem filters_absorb {isTrue : β → Bool} {summand : β → Int32} {rest rest' : Rest I α P κ} {b : β}
    (hrest : rest.Filters K) (h : (course isTrue summand).absorb rest b = some rest') : rest'.Filters K := by
  cases rest with
  | iterate form c => cases h; exact hrest
  | list form c => cases h; exact hrest
  | range filtered c => cases h; exact hrest
  | chain g elements =>
    cases elements with
    | nil => cases h
    | cons x elements => cases h; trivial
  | drive g =>
    simp only [course, Option.ite_none_right_eq_some] at h
    rw [← Option.some.inj h.2]
    trivial
  | last total => cases h
  | sum s c => cases h; trivial
  | sumList s c => cases h; trivial
  | sumRange s c => cases h; trivial
  | several c => cases h; trivial

theorem course_alongside (isTrue : β → Bool) (summand : β → Int32) :
    Course.Alongside (SamePlace (I := I) (α := α) K left right) (course isTrue summand)
      (course isTrue summand) where
  absorb := by
    rintro c c' ⟨rest, hrest, rfl, rfl⟩ b
    rw [(course_along isTrue summand left).absorb, (course_along isTrue summand right).absorb]
    cases h : (course isTrue summand).absorb rest b with
    | none => exact .none
    | some rest' => exact .some ⟨rest', filters_absorb hrest h, rfl, rfl⟩
  total := by
    rintro c c' ⟨rest, -, rfl, rfl⟩
    rw [(course_along isTrue summand left).total, (course_along isTrue summand right).total]

/-! ## Making and polling tied jobs -/

section Polls

variable {R : ι → W → V → Prop} {J : ι → F → F' → Prop} {k : Kit W I α P G F β} {k' : Kit V I α P G F' β}

/-- Two jobs that were made on both sides are tied. -/
theorem Tied.of_fresh {j : Job I α P G F} {j' : Job I α P G F'} {w : W} {v : V}
    (h : Fresh K (AtSome R) (With R J) left right j j' w v) :
    With R (fun i => Tied K (J i) left right) j j' w v := by
  obtain ⟨hextra, hdriven, hhollow, hplace⟩ := h
  have hfits : ∃ extra, j.Fits extra ∧ j'.Fits extra := ⟨j.extra, fits_extra j, hextra ▸ fits_extra j'⟩
  obtain ⟨rest, hrest, hj, hj', i, hR⟩ | ⟨rest, x, x', hrest, hj, hj', i, hR, hx⟩ := hplace
  · refine ⟨i, hR, hfits, hdriven, hhollow, ?_⟩
    rw [hj, hj']
    exact .ahead hrest
  · refine ⟨i, hR, hfits, hdriven, hhollow, ?_⟩
    rw [hj, hj']
    exact .under hrest hx

/-- The tie of two courses in the same place. -/
abbrev places (K : P → Prop) (R : ι → W → V → Prop) (J : ι → F → F' → Prop) (left right : κ → G) :
    Course.Tie W V (Rest I α P G) (Rest I α P G) F F' (Option Int32) (Option Int32) :=
  Course.Tie.places (AtSome R) (SamePlace K left right) (With R J)

theorem Stands.begun_or_closed {i : ι} {s : Course.State (Rest I α P G) F}
    {s' : Course.State (Rest I α P G) F'} (h : Stands K (J i) left right s s') {w : W} {v : V} (hR : R i w v)
    (N : Nat) : (places K R J left right).begun N s s' w v ∨ ∃ cause, s = .closed cause ∧ s' = .closed cause := by
  cases h with
  | ahead hrest => exact .inl ⟨⟨_, hrest, rfl, rfl⟩, i, hR⟩
  | under hrest hx => exact .inl ⟨⟨_, hrest, rfl, rfl⟩, i, hR, hx⟩
  | closed cause => exact .inr ⟨cause, rfl, rfl⟩

/-- What is known of a job after a poll, if it had found something to run over. -/
structure After (extra : Nat) (j : Job I α P G F) (r : Poll (Option Int32) × Job I α P G F) : Prop where
  fits : r.2.Fits extra
  driven : r.2.isDriven = j.isDriven
  closed : r.1.isReady = true → r.2.view = .closed (closing j.view)

theorem poll_after (k : Kit W I α P G F β) (n : Nat) {extra : Nat} {j : Job I α P G F} (hfit : j.Fits extra)
    (hhollow : j.hollow? = none) (w : W) :
    (poll k n j w).Ensures (fun _ => True) fun r _ => After extra j r := by
  have hkept := (fits_poll k n hfit w).and (driven_poll k n j w)
  refine (hkept.and (poll_ready k n j w)).mono (fun _ h => h) fun r w hr => ⟨hr.1.1, hr.1.2, fun hready => ?_⟩
  obtain hclosed | ⟨v, hv, -⟩ := hr.2 hready
  · exact hclosed
  · rw [hhollow] at hv
    cases hv

/-- The jobs are tied after two polls that went the same way. -/
theorem answered_of_left {extra N : Nat} {j : Job I α P G F} {j' : Job I α P G F'}
    (hdriven : j.isDriven = j'.isDriven) (hclosing : closing j.view = closing j'.view)
    {a : Poll (Option Int32) × Job I α P G F} {b : Poll (Option Int32) × Job I α P G F'}
    (ha : After extra j a) (hb : After extra j' b) {w : W} {v : V}
    (h : Course.Simulation.Left (places K R J left right) N ((Poll.staged a).map id view)
      ((Poll.staged b).map id view) w v) :
    With R (fun i => Poll.Answered (Tied K (J i) left right)) a b w v := by
  obtain ⟨answer, j₁⟩ := a
  obtain ⟨answer', j₁'⟩ := b
  have hfits : ∃ extra, j₁.Fits extra ∧ j₁'.Fits extra := ⟨extra, ha.fits, hb.fits⟩
  have hdriven' : j₁.isDriven = j₁'.isDriven := ha.driven.trans (hdriven.trans hb.driven.symm)
  obtain ⟨r, r', hr, hr', rfl, i, hR⟩ | ⟨x, c, x', c', hs, hs', ⟨rest, hrest, rfl, rfl⟩, i, hR, hx⟩ := h.cases
  · have hresolved : answer.resolution? = some r := Poll.resolution_of_staged hr
    have hanswer : answer = answer' := Poll.eq_of_resolution (hresolved.trans (Poll.resolution_of_staged hr').symm)
    subst hanswer
    cases answer with
    | pending => cases hresolved
    | panicked cause => exact ⟨i, hR, rfl, .inl ⟨cause, rfl⟩⟩
    | ready o =>
      have hview := ha.closed rfl
      have hview' := hb.closed rfl
      refine ⟨i, hR, rfl, .inr ⟨hfits, hdriven', ?_, ?_⟩⟩
      · rw [hollow_of_closed hview, hollow_of_closed hview']
      · rw [hview, hview', hclosing]
        exact .closed _
  · obtain ⟨hpending, hview⟩ := Poll.view_of_staged hs
    obtain ⟨hpending', hview'⟩ := Poll.view_of_staged hs'
    refine ⟨i, hR, Poll.eq_of_resolution (hpending.trans hpending'.symm), .inr ⟨hfits, hdriven', ?_, ?_⟩⟩
    · rw [hollow_of_under hview, hollow_of_under hview']
    · rw [hview, hview']
      exact .under hrest hx

section Tied

variable {L : V → Prop} (hk : k.PairedOn K (AtSome R) (With R J) left right k')
  (hpoll : ∀ x x' w v, With R J x x' w v →
    (k.poll x w).PairedUnless L (AtSome R) (With R fun i => Poll.Answered (J i)) (k'.poll x' v))
  (hkit : k'.Keeps (Lasting L)) (hpolls : ∀ x', Effect.Keeps (Lasting L) (k'.poll x'))
include hk hpoll hkit hpolls

/-- A poll of two courses in the same place. -/
theorem stage_tied (n fuel N : Nat) {s : Course.State (Rest I α P G) F} {s' : Course.State (Rest I α P G) F'}
    {w : W} {v : V} (h : (places K R J left right).begun N s s' w v) :
    ((course k.isTrue k.summand).stage (Rest.find k n) k.poll.stage fuel s w).PairedUnless L (AtSome R)
      (Course.Simulation.Left (places K R J left right) 0)
      ((course k'.isTrue k'.summand).stage (Rest.find k' n) k'.poll.stage fuel s' v) := by
  rw [← hk.isTrue, ← hk.summand]
  refine (course_alongside k.isTrue k.summand).stage_unless (fun {c c'} hc => ?_)
    (fun x x' w v hx => Poller.stage_answered (hpoll x x' w v hx)) (Rest.keeps_find hkit n)
    (fun x' => Poller.keeps_stage (hpolls x')) fuel N h
  obtain ⟨rest, hrest, rfl, rfl⟩ := hc
  exact (Rest.find_pairedOn hk n hrest).imp fun ⟨hfound, c, hc, ha, hb⟩ => ⟨⟨c, hc, ha, hb⟩, hfound⟩

/-- A poll of two tied jobs gives the same answer and leaves them tied. -/
theorem poll_tied (n : Nat) {i : ι} {j : Job I α P G F} {j' : Job I α P G F'}
    (h : Tied K (J i) left right j j') {w : W} {v : V} (hR : R i w v) :
    (poll k n j w).PairedUnless L (AtSome R) (With R fun i => Poll.Answered (Tied K (J i) left right))
      (poll k' n j' v) := by
  obtain ⟨extra, hfit, hfit'⟩ := h.fits
  obtain hbegun | ⟨cause, hview, hview'⟩ := h.stands.begun_or_closed hR 0
  · cases hhollow : j.hollow? with
    | some total =>
      have hhollow' : j'.hollow? = some total := h.hollow ▸ hhollow
      rw [poll_of_hollow k n hhollow, poll_of_hollow k' n hhollow']
      exact .inr ⟨i, hR, rfl, .inr h⟩
    | none =>
      have hhollow' : j'.hollow? = none := h.hollow ▸ hhollow
      have hstage := stage_tied hk hpoll hkit hpolls n (n + extra) 0 hbegun
      rw [← stage_view k n hfit, ← stage_view k' n hfit', Poller.stage_eq, Poller.stage_eq] at hstage
      have hpair := hstage.of_bind_pure.of_bind_pure.and_ensures (poll_after k n hfit hhollow w)
        (poll_after k' n hfit' hhollow' v)
      exact hpair.imp fun hs => answered_of_left h.driven h.stands.closing_eq hs.1 hs.2.1 hs.2.2
  · rw [poll_of_closed k n hview, poll_of_closed k' n hview']
    exact .inr ⟨i, hR, rfl, .inr h⟩

end Tied

end Polls

end Job

end Stepwise
