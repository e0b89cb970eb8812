import Stepwise.Proofs.Job.Paired

/-! # Finding steps with more fuel

What a job calls between two steps is a walk and the request of one step. Two properties of the calls
pass to it.

* `Kit.Below`: the steps are requested with less fuel. Then every step is found with less fuel
  (`Rest.find_below`), and a job is made with less fuel (`start_below`).
* `Kit.Keeps`: the calls only let the world grow. So does finding a step (`Rest.keeps_find`), which is
  finding it beside the same run of it.
* `Job.tracks_finish` and `Job.attains_finish`: what is known of courses, said of the polls of a job.
-/

namespace Stepwise
set_option autoImplicit false

open Filter

variable {W I J α P G F C κ β : Type}

/-! ## Less fuel -/

/-- The calls of one kit come to an end only where those of the other one come to the same end. -/
structure Kit.Below (k k' : Kit W I α P G F β) : Prop where
  next : k.next = k'.next
  test : k.test = k'.test
  step : ∀ g call, (k.step g call).Below (k'.step g call)

theorem Walk.next_below {b b' : Scan W I α P G F} (hnext : b.next = b'.next)
    (htest : b.test = b'.test) (hstep : ∀ g x i, (b.step g x i).Below (b'.step g x i)) {n n' : Nat}
    (hn : n ≤ n') (c : Walk I P G) : (Walk.next b n c).Below (Walk.next b' n' c) := by
  induction n generalizing n' c with
  | zero => exact Effect.Below.cut _
  | succ n ih =>
    obtain ⟨n', rfl⟩ : ∃ m, n' = m + 1 := ⟨n' - 1, by omega⟩
    rw [Walk.next, Walk.next, hnext]
    refine (Effect.Below.refl _).bind fun r => ?_
    obtain ⟨entry, source⟩ := r
    cases entry with
    | none => exact Effect.Below.refl _
    | some x =>
      simp only [htest]
      refine (Effect.Below.refl _).bind fun r => ?_
      obtain ⟨verdict, filter⟩ := r
      cases verdict with
      | error e => exact Effect.Below.refl _
      | ok accepted =>
        cases accepted with
        | true => exact (hstep _ _ _).bind fun _ => Effect.Below.refl _
        | false => exact ih (by omega) _

theorem RangeWalk.next_below {b b' : RangeScan W P G F} (htest : b.test = b'.test)
    (hstep : ∀ g i, (b.step g i).Below (b'.step g i)) (c : RangeWalk P G) :
    (c.next b).Below (c.next b') := by
  rw [RangeWalk.next, RangeWalk.next]
  induction c.remaining generalizing c with
  | zero => exact Effect.Below.refl _
  | succ left ih =>
    rw [RangeWalk.scan, RangeWalk.scan]
    simp only [htest]
    refine (Effect.Below.refl _).bind fun r => ?_
    obtain ⟨verdict, filter⟩ := r
    cases verdict with
    | error e => exact Effect.Below.refl _
    | ok accepted =>
      cases accepted with
      | true => exact (hstep _ _).bind fun _ => Effect.Below.refl _
      | false => exact ih _

namespace Job

theorem located_below {S : Type} {locate : C → S} {m m' : Effect W (Found F × C)}
    (h : m.Below m') : (located locate m).Below (located locate m') :=
  h.bind fun _ => Effect.Below.refl _

theorem Rest.find_below {k k' : Kit W I α P G F β} (hk : k.Below k') {n n' : Nat} (hn : n ≤ n')
    (rest : Rest I α P G) : (rest.find k n).Below (rest.find k' n') := by
  cases rest with
  | iterate form c =>
    refine located_below (Walk.next_below ?_ ?_ (fun _ _ _ => hk.step _ _) hn c)
    · simp only [Kit.scan, hk.next]
    · simp only [Kit.scan, hk.test]
  | list form c =>
    refine located_below (Walk.next_below (by rfl) ?_ (fun _ _ _ => hk.step _ _) hn c)
    simp only [Kit.scan, hk.test]
  | range filtered c =>
    refine located_below (RangeWalk.next_below ?_ (fun _ _ => hk.step _ _) c)
    simp only [Kit.rangeScan, hk.test]
  | chain g elements =>
    cases elements with
    | nil => exact Effect.Below.refl _
    | cons x elements => exact (hk.step _ _).bind fun _ => Effect.Below.refl _
  | sum s c =>
    refine located_below (Walk.next_below ?_ (by rfl) (fun _ _ _ => hk.step _ _) hn c)
    simp only [Kit.plainScan, hk.next]
  | sumList s c => exact located_below (Walk.next_below (by rfl) (by rfl) (fun _ _ _ => hk.step _ _) hn c)
  | sumRange s c => exact located_below (RangeWalk.next_below (by rfl) (fun _ _ => hk.step _ _) c)
  | several c => exact located_below (Walk.next_below (by rfl) (by rfl) (fun _ _ _ => hk.step _ _) hn c)
  | drive g => exact (hk.step _ _).bind fun _ => Effect.Below.refl _
  | last total => exact Effect.Below.refl _

end Job

theorem Chain.pull_below (next : Next W I α) {n n' : Nat} (hn : n ≤ n') (source : I)
    (tower : Tower α F) : (Chain.pull next n source tower).Below (Chain.pull next n' source tower) := by
  induction n generalizing n' source tower with
  | zero => exact Effect.Below.cut _
  | succ n ih =>
    obtain ⟨n', rfl⟩ : ∃ m, n' = m + 1 := ⟨n' - 1, by omega⟩
    rw [Chain.pull, Chain.pull]
    refine (Effect.Below.refl _).bind fun r => ?_
    obtain ⟨entry, source⟩ := r
    cases entry with
    | none => exact Effect.Below.refl _
    | some x => exact ih (by omega) _ _

theorem Job.start_below {next : Next W I α} {step step' : G → Call α → Effect W (F × G)}
    (hstep : ∀ g call, (step g call).Below (step' g call)) {n n' : Nat} (hn : n ≤ n')
    (plan : Plan I α) (filter : P) (consumer : G) :
    (Job.start next step n plan filter consumer).Below
      (Job.start next step' n' plan filter consumer) := by
  cases plan with
  | chain source =>
    refine Effect.Below.bind ?_ fun _ => Effect.Below.refl _
    exact (Chain.pull_below next hn source .ground).bind fun _ => Effect.Below.refl _
  | apply elements =>
    refine Effect.Below.bind ?_ fun _ => Effect.Below.refl _
    match elements with
    | [] => exact Effect.Below.refl _
    | [x] => exact (hstep _ _).bind fun _ => Effect.Below.refl _
    | x :: y :: elements => exact Effect.Below.refl _
  | _ => exact Effect.Below.refl _

/-! ## Worlds that only grow -/

/-- All calls of the kit let the world only grow. -/
structure Kit.Keeps (R : W → W → Prop) (k : Kit W I α P G F β) : Prop where
  next : ∀ source, Effect.Keeps R (k.next source)
  test : ∀ p call, Effect.Keeps R (k.test p call)
  step : ∀ g call, Effect.Keeps R (k.step g call)

theorem Kit.Keeps.mono {R R' : W → W → Prop} {k : Kit W I α P G F β} (h : ∀ w w', R w w' → R' w w')
    (hk : k.Keeps R) : k.Keeps R' where
  next source := (hk.next source).mono h
  test p call := (hk.test p call).mono h
  step g call := (hk.step g call).mono h

section Keeps

variable {R : W → W → Prop}

theorem Same.requested {first : W} {a b : F × G} {w v : W} (h : Same (Since R first) a b w v) :
    Requested (Same (Since R first)) id id a b w v := by
  obtain ⟨rfl, hfirst⟩ := h
  exact ⟨⟨rfl, hfirst⟩, a.2, rfl, rfl⟩

theorem Found.PairedAt.since {D : Type} {first : W} {left right : D → C} {a b : Found F × C} {w v : W}
    (h : Found.PairedAt (Since R first) (Same (Since R first)) left right a b w v) : R first w := by
  obtain ⟨found, c⟩ := a
  obtain ⟨found', c'⟩ := b
  have hfound := h.1
  cases found <;> cases found' <;> first | exact hfound.elim | exact hfound.2 | exact hfound.2.2

theorem Job.Started.since {first : W} {left right : κ → G} {j j' : Job I α P G F} {w v : W}
    (h : Job.Started (Since R first) (Same (Since R first)) left right j j' w v) : R first w := by
  obtain ⟨-, ⟨_, -, -, hfirst⟩ | ⟨_, x, x', -, -, hsame⟩⟩ := h
  · exact hfirst.2
  · exact hsame.2.2

variable [Std.Refl R] [Trans R R R]

omit [Std.Refl R] in
/-- A kit whose calls let the world grow, beside itself. -/
theorem Kit.Keeps.paired {k : Kit W I α P G F β} (hk : k.Keeps R) (first : W) :
    k.Paired (Since R first) (Same (Since R first)) id id k where
  next source := (hk.next source).paired first
  test p call := (hk.test p call).paired first
  step g call := ((hk.step g call).paired first).imp Same.requested
  isTrue := rfl
  summand := rfl

theorem Job.Rest.keeps_find {k : Kit W I α P G F β} (hk : k.Keeps R) (n : Nat)
    (rest : Rest I α P G) : Effect.Keeps R (rest.find k n) := by
  refine Effect.Keeps.of_paired fun first => ?_
  have hpair := find_paired (hk.paired first) n rest
  rw [mapConsumer_id] at hpair
  exact hpair.imp Found.PairedAt.since

theorem Poller.keeps_stage {poll : Poller W F β} {x : F} (h : Effect.Keeps R (poll x)) :
    Effect.Keeps R (poll.stage x) := h.bind fun _ => Effect.Keeps.pure _

theorem Job.keeps_poll {k : Kit W I α P G F β} (hk : k.Keeps R)
    (hpoll : ∀ x, Effect.Keeps R (k.poll x)) (n : Nat) (j : Job I α P G F) :
    Effect.Keeps R (poll k n j) := by
  have hstage : Effect.Keeps R ((course k.isTrue k.summand).stage (Rest.find k n) k.poll.stage
      (n + j.extra) j.view) :=
    Course.keeps_stage (Rest.keeps_find hk n) (fun x => Poller.keeps_stage (hpoll x)) _ j.view
  rw [← stage_view k n (fits_extra j)] at hstage
  exact Effect.Keeps.of_bind_pure (Effect.Keeps.of_bind_pure hstage)

theorem Job.keeps_start {next : Next W I α} {step : G → Call α → Effect W (F × G)}
    (hnext : ∀ source, Effect.Keeps R (next source)) (hstep : ∀ g call, Effect.Keeps R (step g call))
    (n : Nat) (plan : Plan I α) (filter : P) (consumer : G) :
    Effect.Keeps R (Job.start next step n plan filter consumer) := by
  refine Effect.Keeps.of_paired fun first => ?_
  have hrequest : ∀ g call, Effect.Paired (Since R first) (Requested (Same (Since R first)) id id)
      (step (id g) call) (step (id g) call) :=
    fun g call => ((hstep g call).paired first).imp Same.requested
  have hpair := start_paired (fun source => (hnext source).paired first) hrequest n plan filter consumer
  exact hpair.imp Started.since

end Keeps

/-! ## Awaiting a job -/

/-- The kit with other steps. -/
def Kit.running (k : Kit W I α P G F β) (step : G → Call α → Effect W (F × G))
    (poll : Poller W F β) : Kit W I α P G F β := { k with step, poll }

theorem Kit.running_below {k : Kit W I α P G F β} {s s' : G → Call α → Effect W (F × G)}
    (p p' : Poller W F β) (hs : ∀ g call, (s g call).Below (s' g call)) :
    (k.running s p).Below (k.running s' p') where
  next := rfl
  test := rfl
  step := hs

namespace Job

variable {k : Kit W I α P G F β} {s₀ s : G → Call α → Effect W (F × G)} {p₀ p : Poller W F β}
  {gap : W → W}

theorem await_view (n₀ n m : Nat) {extra : Nat} {j : Job I α P G F} (hfit : j.Fits extra) (w : W) :
    ((Poller.stage (poll (k.running s₀ p₀) n₀)).await (Poller.stage (poll (k.running s p) n)) gap m j
      w).map (Awaited.view view) =
    ((course k.isTrue k.summand).stage (Rest.find (k.running s₀ p₀) n₀) p₀.stage (n₀ + extra)).await
      ((course k.isTrue k.summand).stage (Rest.find (k.running s p) n) p.stage (n + extra)) gap m
      j.view w := by
  have hvalid : ∀ s p n x w x' w', Fits extra x →
      Poller.stage (poll (k.running s p) n) x w = .returned (.inr x') w' → Fits extra x' := by
    intro s p n x w x' w' hx h
    have hpoll := fits_poll (k.running s p) n hx w
    rw [Poller.stage_eq, Effect.bind_apply] at h
    cases hr : poll (k.running s p) n x w with
    | broken reason v => rw [hr] at h; cases h
    | cut v => rw [hr] at h; cases h
    | returned r v =>
      rw [hr] at h hpoll
      obtain ⟨answer, y⟩ := r
      cases answer with
      | pending => cases h; exact hpoll
      | ready o => cases h
      | panicked c => cases h
  exact Stage.await_view (Fits extra) (fun x hx => stage_view (k.running s₀ p₀) n₀ hx)
    (hvalid s₀ p₀ n₀) (fun x hx => stage_view (k.running s p) n hx) (hvalid s p n) m hfit w

theorem tracks_finish {R : W → W → Prop} [Std.Refl R] [Trans R R R] (k : Kit W I α P G F β)
    (s₀ s : G → Call α → Effect W (F × G)) (p₀ p : Poller W F β)
    (steps : Nat → G → Call α → Effect W (F × G)) {through : Nat → F → Effect W (Resolution β)}
    (hkeeps : ∀ N, (k.running (steps N) p).Keeps R)
    (hthrough : ∀ N x, Effect.Keeps R (through N x))
    (hs₀ : ∀ᶠ N in atTop, ∀ g call, (s₀ g call).Below (steps N g call))
    (hs : ∀ᶠ N in atTop, ∀ g call, (s g call).Below (steps N g call)) (m : Nat)
    (hlater : ∀ m' < m, ∀ x w,
      (p.stage.await p.stage gap m' x w).Tracks R fun N => through N x w)
    (hfirst : ∀ x w, (p₀.stage.await p.stage gap m x w).Tracks R fun N => through N x w)
    (n₀ n : Nat) (j : Job I α P G F) (w : W) :
    ((Poller.stage (poll (k.running s₀ p₀) n₀)).await (Poller.stage (poll (k.running s p) n)) gap m j
      w).Tracks R fun N => finish (k.running (steps N) p) (through N) N j w := by
  have hfit := fits_extra j
  have hfind : ∀ {s' : G → Call α → Effect W (F × G)} {p' : Poller W F β} (n' : Nat),
      (∀ᶠ N in atTop, ∀ g call, (s' g call).Below (steps N g call)) →
      ∀ᶠ N in atTop, ∀ c, (Rest.find (k.running s' p') n' c).Below
        (Rest.find (k.running (steps N) p) N c) := by
    intro s' p' n' hs'
    filter_upwards [hs', eventually_ge_atTop n'] with N hN hn c
    exact Rest.find_below (Kit.running_below p' p hN) hn c
  refine Ending.Tracks.of_view view ?_
  rw [await_view n₀ n m hfit w]
  exact Course.tracks_finish (fun N => Nat.le_add_right N j.extra)
    (fun N => Rest.keeps_find (hkeeps N) N) hthrough (hfind n hs) m hlater (hfind n₀ hs₀) hfirst
    (n₀ + j.extra) j.view w

/-- Where a job comes to an end when it is carried through, awaiting it comes to that end. -/
theorem attains_finish (k : Kit W I α P G F β) (s : G → Call α → Effect W (F × G))
    (p : Poller W F β) (steps : Nat → G → Call α → Effect W (F × G)) (polls : Nat → Poller W F β)
    {through : F → Effect W (Resolution β)}
    (hs : ∃ k', ∀ n, k' ≤ n → ∀ g call, (s g call).Below (steps n g call))
    (hp : ∀ x w, Attains (fun n => (polls n).stage) gap x w (through x w)) (fuel : Nat)
    (j : Job I α P G F) (w : W) :
    Attains (fun n => Poller.stage (poll (k.running (steps n) (polls n)) n)) gap j w
      (finish (k.running s p) through fuel j w) := by
  have hfit := fits_extra j
  have hfind : ∃ k', ∀ n, k' ≤ n → ∀ c, (Rest.find (k.running s p) fuel c).Below
      (Rest.find (k.running (steps n) (polls n)) n c) := by
    obtain ⟨k', hk'⟩ := hs
    refine ⟨max k' fuel, fun n hn c => ?_⟩
    exact Rest.find_below (Kit.running_below p (polls n) (hk' n (by omega))) (by omega) c
  intro hcut
  have hcourse : Attains (fun n => (course k.isTrue k.summand).stage
      (Rest.find (k.running (steps n) (polls n)) n) (polls n).stage (n + j.extra)) gap j.view w
      (finish (k.running s p) through fuel j w) :=
    Course.attains_finish (fun n => Nat.le_add_right n j.extra) hfind hp (fuel + j.extra) j.view w
  obtain ⟨k', used, hall⟩ := hcourse hcut
  refine ⟨k', used, fun n₀ hn₀ n hn m => ?_⟩
  refine Ending.map_view_eq view ?_
  rw [await_view n₀ n _ hfit w]
  exact hall n₀ hn₀ n hn m

end Job

end Stepwise
