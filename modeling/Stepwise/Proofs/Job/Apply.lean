import Stepwise.Proofs.Job.Alike
import Stepwise.Proofs.Job.Find

/-! # The fast paths of an application

The application of a step to the elements of a list has its own code for no element and for one element.
Nobody can tell it from the loop over the list, except that the step for a single element is requested when
the application is made and not in the first poll.

* `applied_several`: with two elements or more the application is the loop in another place.
* `single_alike`: the step of a single element is what the loop polls as well. When it has resolved, the loop
  still looks for a next element.
* `applied_first`: made and polled once, both come to the same, with any number of elements.
* `apply_eq_list`: what this means for whoever polls them, and for loops that have them as steps.
-/

namespace Stepwise
set_option autoImplicit false

variable {W I I' α α' P P' G G' F β M : Type}

/-- A loop that has no step under way finds one and is then a loop with that step. -/
theorem Loop.poll_of_none {C : Type} (find : C → Effect W (Found F × C)) (step : Poller W F β) (fuel : Nat)
    (c : C) : Loop.poll find step fuel (.running { step := c }) =
      find c >>= fun r => Loop.poll find step fuel (.running { step := r.2, current := some r.1 }) := by
  rw [Loop.poll, While.poll_eq_direct, While.direct_of_none, bind_assoc]
  refine bind_congr fun r => ?_
  rw [Loop.poll, While.poll_eq_direct]

namespace Job

/-- The application of the step to the elements. -/
def applied (k : Kit W I α P G F β) (fuel : Nat) (m : List α × P × G) : Effect W (Job I α P G F) :=
  start k.next k.step fuel (.apply m.1) m.2.1 m.2.2

/-- The loop over the elements. -/
def looped (k : Kit W I α P G F β) (fuel : Nat) (m : List α × P × G) : Effect W (Job I α P G F) :=
  start k.next k.step fuel (.list .each m.1) m.2.1 m.2.2

/-! ## Two elements or more -/

/-- The same place in the application and in the loop. -/
inductive Applied : Rest I α P G → Rest I α P G → Prop
  | several {c : Walk (Lookahead (List α) α) Unit G} {c' : Walk (Lookahead (List α) α) P G}
    (h : c.Level Eq c') : Applied (.several c) (.list .each c')
  | last : Applied (.last none) (.last none)

theorem alongside_applied (isTrue : β → Bool) (summand : β → Int32) :
    Course.Alongside (Applied : Rest I α P G → Rest I α P G → Prop) (course isTrue summand)
      (course isTrue summand) where
  absorb h b := by
    cases h with
    | several h => exact .some (.several h)
    | last => exact .none
  total h := by cases h <;> rfl

theorem find_applied (k : Kit W I α P G F β) (n : Nat) {rest rest' : Rest I α P G}
    (h : Applied rest rest') :
    Effect.Paired Equal (fun a a' w v => Applied a.2 a'.2 ∧ Found.Paired Equal (Same Equal) a.1 a'.1 w v)
      (rest.find k n) (rest'.find k n) := by
  cases h with
  | last => exact Effect.Paired.pure fun w v hw => ⟨.last, hw⟩
  | several h =>
    have hnext : ∀ a a' : Lookahead (List α) α, a = a' → Effect.Paired Equal
        (fun r r' w v => r.1 = r'.1 ∧ r.2 = r'.2 ∧ Equal 0 w v)
        (Lookahead.next Next.ofList a) (Lookahead.next Next.ofList a' : Effect W _) := by
      rintro a _ rfl
      refine (Effect.Paired.refl _).imp fun {r r' w v} hr => ?_
      exact ⟨congrArg Prod.fst hr.1, congrArg Prod.snd hr.1, hr.2⟩
    have hwalk : Effect.Paired Equal (fun a a' w v => Found.Paired Equal (Same Equal) a.1 a'.1 w v ∧
        a.2.Level Eq a'.2) (Walk.next (k.plainScan (Lookahead.next Next.ofList)) n _)
        (Walk.next (k.scan .each (Lookahead.next Next.ofList)) n _) :=
      Walk.next_accepting_paired (fun _ _ _ => rfl) (fun _ _ _ => rfl) hnext
        (fun g x _ => .requested_refl (k.step g (.element x))) n h
    refine hwalk.bind fun a a' w v ha => ?_
    exact ⟨.several ha.2, ha.1⟩

theorem applied_alike (k : Kit W I α P G F β) (n : Nat) (j j' : Job I α P G F) (hj : j.Fits 0)
    (hj' : j'.Fits 0) {rest rest' : Rest I α P G} (h : Applied rest rest') (hview : j.view = .ahead rest)
    (hview' : j'.view = .ahead rest') (w : W) : Poller.Alike (poll k n) (poll k n) j j' :=
  alike_of_alongside (alongside_applied k.isTrue k.summand) (find_applied k n) rfl rfl rfl j j' hj hj' h
    hview hview' w

/-! ## One element -/

/-- The place of a loop over a list that has no element left. -/
def Exhausted (c : Walk (Lookahead (List α) α) P G) : Prop := c.source = { source := [] }

/-- The step of a single element, with nothing after it on the left and nothing left to find on the right. -/
def singleTie : Course.Tie W W (Rest I α P G) (Rest I α P G) F F (Option Int32) (Option Int32) where
  worlds := Equal
  ahead _ _ _ _ _ := False
  under N a a' w v := 0 < N ∧ a.1 = a'.1 ∧ a.2 = .last none ∧ (∃ c, Exhausted c ∧ a'.2 = .list .each c) ∧ w = v
  ends := Same Equal

theorem find_exhausted (k : Kit W I α P G F β) (n : Nat) {c : Walk (Lookahead (List α) α) P G}
    (h : Exhausted c) (w : W) :
    Rest.find k (n + 1) (.list .each c : Rest I α P G) w = .returned (.nothing, .list .each c) w := by
  obtain ⟨source, filter, consumer, index⟩ := c
  obtain rfl : source = { source := [] } := h
  rfl

theorem simulation_single (k : Kit W I α P G F β) (n : Nat) :
    Course.Simulation singleTie (course k.isTrue k.summand) (Rest.find k (n + 1)) k.poll.stage
      (course (I := I) (α := α) (P := P) (G := G) k.isTrue k.summand) (Rest.find k (n + 1)) k.poll.stage where
  ahead h := h.elim
  more h := ⟨Nat.succ_pos _, h.2⟩
  under {fuel x c x' c' w v} h := by
    obtain ⟨hfuel, hx, hc, ⟨walk, hwalk, hc'⟩, hw⟩ := h
    obtain rfl : x = x' := hx
    obtain rfl : c = .last none := hc
    obtain rfl : c' = .list .each walk := hc'
    refine Ending.Paired.bind (Effect.Paired.refl (k.poll.stage x) w v hw) fun s s' w v hs => ?_
    obtain ⟨rfl, hw⟩ := hs
    cases s with
    | inr y => exact ⟨hfuel, rfl, rfl, ⟨walk, hwalk, rfl⟩, hw⟩
    | inl r =>
      cases r with
      | error p => cases fuel <;> exact ⟨rfl, hw⟩
      | ok o =>
        cases o with
        | error e => cases fuel <;> exact ⟨rfl, hw⟩
        | ok b =>
          -- The left side ends here; the right side looks for another element first.
          have hjudged : singleTie.judged (course k.isTrue k.summand) (Rest.find k (n + 1)) fuel
              (.inl (.ok (.ok none))) (.inr (.list .each walk : Rest I α P G)) w v := by
            have hfind := find_exhausted (I := I) k n hwalk v
            cases fuel with
            | zero => exact absurd hfuel (lt_irrefl 0)
            | succ fuel => exact ⟨hfuel, .list .each walk, v, hfind, rfl, hw⟩
          exact hjudged

/-- The job that is left of the loop over one element when its step was requested. -/
def loopedStep (filter : P) (x : F) (g : G) : Job I α P G F :=
  .list .each (.running { step := { source := { source := [] }, filter, consumer := g, index := 1 },
                          current := some (.step x) })

theorem single_alike (k : Kit W I α P G F β) (n : Nat) (filter : P) (x : F) (g : G) (w : W) :
    Poller.Alike (poll k (n + 1)) (poll k (n + 1)) (.apply (.single x)) (loopedStep filter x g) := by
  have hsteady : (singleTie : Course.Tie W W (Rest I α P G) (Rest I α P G) F F (Option Int32)
      (Option Int32)).Steady :=
    { worlds := rfl
      ahead := fun h => h.elim
      under := fun ⟨hfuel, hx, hc, hc', hw⟩ => ⟨hw, fun _ => ⟨hfuel, hx, hc, hc', rfl⟩⟩
      ends := fun h => h }
  have hwalk : Exhausted ({ source := { source := [] }, filter, consumer := g, index := 1 } :
      Walk (Lookahead (List α) α) P G) := rfl
  refine alike_of_simulation hsteady (simulation_single k n) rfl rfl _ _ rfl rfl (w := w) ?_
  exact ⟨Nat.succ_pos n, rfl, rfl, ⟨_, hwalk, rfl⟩, rfl⟩

/-- The first poll of the loop over one element requests its step. -/
theorem poll_single (k : Kit W I α P G F β) (n : Nat) (filter : P) (x : α) (g : G) :
    poll k (n + 1) (.list .each (.running
        { step := { source := { source := [], seen := some (some x) }, filter, consumer := g } })) =
      k.step g (.element x) >>= fun r => poll k (n + 1) (loopedStep filter r.1 r.2) := by
  have hfind : Walk.next (k.scan .each (Lookahead.next Next.ofList)) (n + 1)
      { source := { source := [], seen := some (some x) }, filter, consumer := g } =
        k.step g (.element x) >>= fun r => pure (.step r.1,
          { source := { source := [] }, filter, consumer := r.2, index := 1 }) := rfl
  change unvalued (.list .each) (Loop.poll _ _ _ _) = _
  rw [Loop.poll_of_none, hfind, unvalued, bind_assoc, bind_assoc]
  rfl

/-! ## Any number of elements -/

/-- Made and polled once, the application and the loop come to the same. -/
theorem applied_first (k : Kit W I α P G F β) (n : Nat) (m : List α × P × G) :
    Effect.Paired Equal (Poller.Agreed (Poller.Alike (poll k (n + 1)) (poll k (n + 1))))
      (applied k (n + 1) m >>= (poll k (n + 1)).stage) (looped k (n + 1) m >>= (poll k (n + 1)).stage) := by
  obtain ⟨elements, filter, g⟩ := m
  match elements with
  | [] =>
    intro w
    exact (applied_alike k (n + 1) (.apply .none) (.list .each .empty) rfl rfl .last rfl rfl
      w).poll w
  | [x] =>
    have hlooped : looped k (n + 1) ([x], filter, g) >>= (poll k (n + 1)).stage =
        k.step g (.element x) >>= fun r => (poll k (n + 1)).stage (loopedStep filter r.1 r.2) := by
      change (poll k (n + 1)).stage (.list .each (.running
        { step := { source := { source := [], seen := some (some x) }, filter, consumer := g } })) = _
      simp only [Poller.stage, poll_single, bind_assoc]
    have happlied : applied k (n + 1) ([x], filter, g) >>= (poll k (n + 1)).stage =
        k.step g (.element x) >>= fun r => (poll k (n + 1)).stage (.apply (.single r.1)) := by
      simp only [applied, start, Application.ofList, bind_assoc, pure_bind]
    rw [happlied, hlooped]
    refine (Effect.Paired.refl _).bind fun r r' w v hr => ?_
    obtain ⟨rfl, hw⟩ := hr
    exact (single_alike k n filter r.1 r.2 w).poll w v hw
  | x :: y :: rest =>
    intro w
    let source : Lookahead (List α) α := { source := y :: rest, seen := some (some x) }
    have hplace : Applied (.several { source, filter := (), consumer := g } : Rest I α P G)
        (.list .each { source, filter, consumer := g }) := .several ⟨rfl, rfl, rfl⟩
    exact (applied_alike k (n + 1)
      (.apply (.several (.running { step := { source, filter := (), consumer := g } })))
      (.list .each (.running { step := { source, filter, consumer := g } })) rfl rfl hplace rfl rfl
      w).poll w

/-! ## Enclosing jobs -/

/-- Requests of steps that are made from what is named. -/
def making (names : G → Call α → Effect W (M × G)) (make : M → Effect W F) (g : G) (call : Call α) :
    Effect W (F × G) := do
  let (m, g) ← names g call
  let x ← make m
  pure (x, g)

/-- Make a job whose steps are made from what is named, and ask it. -/
def askedOver (outer : Kit W I' α' P' G' F β) (names : G' → Call α' → Effect W (M × G'))
    (make : M → Effect W F) (poll : Poller W F β) (n : Nat) (plan : Plan I' α') (filter : P') (consumer : G')
    (gaps : List (Effect W Unit)) : Effect W (List (Poll (Option Int32))) :=
  answers (outer.running (making names make) poll) n plan filter consumer gaps

theorem making_paired (outer : Kit W I' α' P' G' F β) (names : G' → Call α' → Effect W (M × G'))
    {make make' : M → Effect W F} {p : Poller W F β}
    (h : ∀ m, Effect.Paired Equal (Poller.Agreed (p.Alike p)) (make m >>= p.stage) (make' m >>= p.stage)) :
    (outer.running (making names make) p).eager.Paired Equal
      (Course.Stepped Equal (p.AlikeAt p)) id id (outer.running (making names make') p).eager where
  next source := Effect.Paired.refl _
  test q call := Effect.Paired.refl _
  step g call := by
    have hnow : ∀ make : M → Effect W F, (outer.running (making names make) p).eager.step g call =
        names g call >>= fun r => (make r.1 >>= p.stage) >>= fun s => pure (s, r.2) := by
      intro make
      simp only [Kit.eager, Kit.running, making, bind_assoc, pure_bind]
    change Effect.Paired Equal _ (Kit.step _ g call) (Kit.step _ g call)
    rw [hnow, hnow]
    refine (Effect.Paired.refl _).bind fun r r' w v hr => ?_
    obtain ⟨rfl, hw⟩ := hr
    refine (h r.1 w v hw).bind fun s s' w v hs => ?_
    obtain ⟨hs, hw⟩ := hs
    cases hs with
    | inl hr => exact ⟨⟨hr, hw⟩, r.2, rfl, rfl⟩
    | inr hxy => exact ⟨⟨hxy, hw⟩, r.2, rfl, rfl⟩
  isTrue := rfl
  summand := rfl

/-- The application of a step to the elements of a list and the loop over the list make the same calls in
the same order and give the same answers. Both are made without any call, except that the application to a
single element calls its step then. As steps of a job they cannot be told apart, if the job is polled at once
or if it is not itself the application to a single element. -/
theorem apply_eq_list (k : Kit W I α P G F β) (fuel : Nat) :
    (∀ m gap gaps, looped k (fuel + 1) m >>= (poll k (fuel + 1)).asked (gap :: gaps) =
      gap >>= fun _ => applied k (fuel + 1) m >>= (poll k (fuel + 1)).asked (pure () :: gaps)) ∧
    (∀ m, (∃ j, looped k (fuel + 1) m = pure j) ∧
      ((∃ j, applied k (fuel + 1) m = pure j) ∨ ∃ x, m.1 = [x] ∧ applied k (fuel + 1) m =
        k.step m.2.2 (.element x) >>= fun r => pure (.apply (.single r.1)))) ∧
    ∀ (I' α' P' G' : Type) (outer : Kit W I' α' P' G' (Job I α P G F) (Option Int32))
      (names : G' → Call α' → Effect W ((List α × P × G) × G')) (n : Nat) (plan : Plan I' α') (filter : P')
      (consumer : G'),
      (∀ gaps, askedOver outer names (applied k (fuel + 1)) (poll k (fuel + 1)) n plan filter consumer
          (pure () :: gaps) =
        askedOver outer names (looped k (fuel + 1)) (poll k (fuel + 1)) n plan filter consumer
          (pure () :: gaps)) ∧
      ((∃ x, plan = .apply [x]) ∨ ∀ gaps,
        askedOver outer names (applied k (fuel + 1)) (poll k (fuel + 1)) n plan filter consumer gaps =
          askedOver outer names (looped k (fuel + 1)) (poll k (fuel + 1)) n plan filter consumer gaps) := by
  have hlooped : ∀ m, ∃ j, looped k (fuel + 1) m = pure j := by
    rintro ⟨elements, filter, g⟩
    cases elements with
    | nil => exact ⟨_, rfl⟩
    | cons x rest => exact ⟨_, rfl⟩
  refine ⟨fun m gap gaps => ?_, fun m => ⟨hlooped m, ?_⟩, fun I' α' P' G' outer names n plan filter consumer => ?_⟩
  · have hfirst := Poller.asked_eq_of_first (applied_first k fuel m) gaps
    obtain ⟨j, hj⟩ := hlooped m
    rw [hfirst, hj, pure_bind, pure_bind]
    exact Poller.asked_gap (poll k (fuel + 1)) gap gaps j
  · obtain ⟨elements, filter, g⟩ := m
    match elements with
    | [] => exact .inl ⟨_, rfl⟩
    | [x] => exact .inr ⟨x, rfl, by simp only [applied, start, Application.ofList, bind_assoc, pure_bind]⟩
    | x :: y :: rest => exact .inl ⟨_, rfl⟩
  · let kit := outer.running (making names (applied k (fuel + 1))) (poll k (fuel + 1))
    let kit' := outer.running (making names (looped k (fuel + 1))) (poll k (fuel + 1))
    have hkit : kit.eager.Paired Equal (Course.Stepped Equal (kit.poll.AlikeAt kit'.poll)) id id kit'.eager :=
      making_paired outer names fun m => applied_first k fuel m
    refine ⟨fun gaps => ?_, ?_⟩
    · exact Poller.asked_eq_of_first (start_stage_of_eager hkit n plan filter consumer) gaps
    · by_cases hplan : ∃ x, plan = .apply [x]
      · exact .inl hplan
      · refine .inr fun gaps => ?_
        have hmade := start_alike_of_eager hkit n (fun x hx => hplan ⟨x, hx⟩) filter consumer
        exact Poller.asked_eq_of_made hmade gaps

end Job

end Stepwise
