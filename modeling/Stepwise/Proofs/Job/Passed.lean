import Stepwise.Proofs.Job.Alike
import Stepwise.Proofs.RangeWalk

/-! # What a loop over a range passes

A loop over a range passes an integer when its filter rejects it or when its step is called with it.

* `Kit.passing` is a kit that notes this in a list beside the world. The notes change nothing
  (`passing_alike`).
* `RangeWalk.Passing`: what was passed and what is left make up the whole range. Every turn of the walk keeps
  this (`RangeWalk.next_passing`).
* `passed_all`: a loop that comes to its end has passed every integer once, in ascending order.
-/

namespace Stepwise
set_option autoImplicit false

variable {W I α P G F β : Type}

/-! ## Notes -/

/-- How a loop over a range passes an integer. -/
inductive Passed
  /-- The filter did not accept it. -/
  | rejected (i : Int32)
  /-- The step was called with it. -/
  | visited (i : Int32)
deriving DecidableEq

namespace Passed

def number : Passed → Int32
  | .rejected i => i
  | .visited i => i

def ofVerdict : Call α → Outcome Bool → List Passed
  | .number _, .ok true => []
  | .number i, _ => [.rejected i]
  | _, _ => []

def ofStep : Call α → List Passed
  | .number i => [.visited i]
  | _ => []

theorem eq_visited {passed : List Passed} (h : ∀ i, .rejected i ∉ passed) :
    passed = (passed.map number).map .visited := by
  rw [List.map_map]
  refine (List.map_id' passed).symm.trans (List.map_congr_left fun p hp => ?_)
  cases p with
  | rejected i => exact absurd hp (h i)
  | visited i => rfl

end Passed

/-- The kit that notes how its loop passes integers, in a list of its own. -/
def Kit.passing (k : Kit W I α P G F β) : Kit (W × List Passed) I α P G F β where
  next source := (k.next source).within _
  test p call := do
    let r ← (k.test p call).within _
    noting (Passed.ofVerdict call r.1)
    pure r
  step g call := do
    noting (Passed.ofStep call)
    (k.step g call).within _
  poll x := (k.poll x).within _
  isTrue := k.isTrue
  summand := k.summand

/-- What was passed and what is left make up the whole range. -/
def RangeWalk.Passing (whole : List Int32) (p : RangeWalk P G) (passed : List Passed) : Prop :=
  passed.map Passed.number ++ integers p.current p.stop = whole

theorem RangeWalk.Passing.pass {whole : List Int32} {p : RangeWalk P G} {passed : List Passed}
    (h : p.Passing whole passed) (hlt : p.current < p.stop) {note : Passed} (hnote : note.number = p.current)
    (filter : P) (consumer : G) :
    RangeWalk.Passing whole { current := p.current + 1, stop := p.stop, filter, consumer } (passed ++ [note]) := by
  rw [RangeWalk.Passing, integers_of_lt hlt] at h
  rw [RangeWalk.Passing, List.map_append, List.append_assoc, List.map_singleton, hnote]
  exact h

/-- The filter of a loop over a range, which may note what it rejects. -/
theorem Kit.passing_test (k : Kit W I α P G F β) (filtered : Bool) (q : P) (i : Int32) (w : W)
    (passed : List Passed) :
    ((k.rangeScan filtered).test q i w).Paired Beside
      (fun r r' w v => r = r' ∧ w = v.1 ∧ v.2 = passed ++ Passed.ofVerdict (.number i : Call α) r.1)
      ((k.passing.rangeScan filtered).test q i (w, passed)) := by
  cases filtered with
  | false => exact ⟨rfl, rfl, (List.append_nil passed).symm⟩
  | true =>
    change ((k.test q (.number i)) w).Paired Beside _ (((k.test q (.number i)).within _ >>= fun r =>
      noting (Passed.ofVerdict (.number i : Call α) r.1) >>= fun _ => pure r) (w, passed))
    refine (Ending.Paired.within (k.test q (.number i)) w passed).bind_right fun r r' w v hr => ?_
    obtain ⟨rfl, hw, hv⟩ := hr
    refine ⟨rfl, hw, ?_⟩
    change v.2 ++ _ = _
    rw [hv]

theorem Kit.passing_step (k : Kit W I α P G F β) (g : G) (i : Int32) (w : W) (passed : List Passed) :
    (k.step g (.number i) w).Paired Beside (fun r r' w v => r = r' ∧ w = v.1 ∧ v.2 = passed ++ [.visited i])
      (k.passing.step g (.number i) (w, passed)) :=
  Ending.Paired.within (k.step g (.number i)) w (passed ++ [.visited i])

/-- A turn passes some integers and notes it. -/
theorem RangeWalk.next_passing (k : Kit W I α P G F β) (filtered : Bool) {whole : List Int32}
    {p : RangeWalk P G} (w : W) {passed : List Passed} (h : p.Passing whole passed) :
    (p.next (k.rangeScan filtered) w).Paired Beside
      (fun a a' w v => a = a' ∧ w = v.1 ∧ a.2.Passing whole v.2 ∧ (a.1 = .nothing → ¬ a.2.current < a.2.stop))
      (p.next (k.passing.rangeScan filtered) (w, passed)) := by
  induction p using RangeWalk.turns generalizing w passed with
  | done p hlt =>
    rw [next_of_not_lt _ hlt, next_of_not_lt _ hlt]
    exact ⟨rfl, rfl, h, fun _ => hlt⟩
  | turn p hlt ih =>
    rw [next_of_lt _ hlt, next_of_lt _ hlt]
    refine (k.passing_test filtered p.filter p.current w passed).bind fun r r' w v hr => ?_
    obtain ⟨rfl, rfl, hv⟩ := hr
    obtain ⟨w, passed'⟩ := v
    obtain ⟨verdict, filter⟩ := r
    match verdict with
    | .error e =>
      obtain rfl : passed' = passed ++ [.rejected p.current] := hv
      exact ⟨rfl, rfl, h.pass hlt rfl filter p.consumer, fun hnothing => by cases hnothing⟩
    | .ok false =>
      obtain rfl : passed' = passed ++ [.rejected p.current] := hv
      exact ih filter w (h.pass hlt rfl filter p.consumer)
    | .ok true =>
      obtain rfl : passed' = passed := hv.trans (List.append_nil passed)
      refine (k.passing_step p.consumer p.current w passed').bind fun s s' w v hs => ?_
      obtain ⟨rfl, rfl, hv⟩ := hs
      refine ⟨rfl, rfl, ?_, fun hnothing => by cases hnothing⟩
      rw [hv]
      exact h.pass hlt rfl filter s.2

namespace Job

/-- What was passed and what is left of a loop over a range. -/
def Passing (whole : List Int32) : Rest I α P G → List Passed → Prop
  | .range _ p, passed => p.Passing whole passed
  | .last _, passed => passed.map Passed.number = whole
  | _, _ => False

/-- Both sides are in the same place, and the right side has noted what was passed. At the end that is
everything. -/
def passingTie (whole : List Int32) : Course.Tie W (W × List Passed) (Rest I α P G) (Rest I α P G) F F
    (Option Int32) (Option Int32) where
  worlds := Beside
  ahead _ c c' w v := c = c' ∧ w = v.1 ∧ Passing whole c v.2
  under _ a a' w v := a = a' ∧ w = v.1 ∧ Passing whole a.2 v.2
  ends r r' w v := r = r' ∧ w = v.1 ∧ ∀ o, r' = .ok (.ok o) → v.2.map Passed.number = whole

theorem passing_judged (k : Kit W I α P G F β) (n : Nat) {whole : List Int32} {c : Rest I α P G}
    (r : Resolution β) (fuel : Nat) {w : W} {v : W × List Passed} (hw : w = v.1) (h : Passing whole c v.2) :
    (passingTie whole).judged (course k.passing.isTrue k.passing.summand) (Rest.find k.passing n) fuel
      ((course k.isTrue k.summand).judge c r) ((course k.passing.isTrue k.passing.summand).judge c r) w v := by
  match r with
  | .error cause => cases fuel <;> exact ⟨rfl, hw, fun o ho => nomatch ho⟩
  | .ok (.error e) => cases fuel <;> exact ⟨rfl, hw, fun o ho => nomatch ho⟩
  | .ok (.ok b) =>
    cases c with
    | range filtered p =>
      cases fuel with
      | zero => exact ⟨0, hw⟩
      | succ fuel => exact ⟨rfl, hw, h⟩
    | last total => cases fuel <;> exact ⟨rfl, hw, fun _ _ => h⟩
    | _ => exact h.elim

/-- Both sides meet what they have found. -/
theorem passing_meet (k : Kit W I α P G F β) (n fuel : Nat) {whole : List Int32} {found : Found F}
    {c : Rest I α P G} {w : W} {v : W × List Passed} (hw : w = v.1) (h : Passing whole c v.2)
    (hdone : found = .nothing → v.2.map Passed.number = whole) :
    (Course.meet k.poll.stage (found, c) w).Paired Beside
      ((passingTie whole).met (course k.isTrue k.summand) (course k.passing.isTrue k.passing.summand)
        (Rest.find k.passing n) fuel) (Course.meet k.passing.poll.stage (found, c) v) := by
  obtain ⟨v, passed⟩ := v
  obtain rfl : w = v := hw
  have htotal : ∀ c : Rest I α P G, (course k.isTrue k.summand).total c =
      (course k.passing.isTrue k.passing.summand).total c := fun c => rfl
  cases found with
  | nothing => exact ⟨congrArg (fun o => Except.ok (Except.ok o)) (htotal c), rfl, fun _ _ => hdone rfl⟩
  | failed e => exact ⟨rfl, rfl, fun o ho => nomatch ho⟩
  | step x =>
    have hwithin : k.passing.poll.stage x = (k.poll.stage x).within _ := Poller.stage_within k.poll x
    rw [Course.meet, Course.meet, hwithin]
    refine (Ending.Paired.within (k.poll.stage x) w passed).bind fun s s' w v hs => ?_
    obtain ⟨rfl, hw, rfl⟩ := hs
    cases s with
    | inl r => exact passing_judged k n r fuel hw h
    | inr y => exact ⟨rfl, hw, h⟩

theorem simulation_passing (k : Kit W I α P G F β) (n : Nat) (whole : List Int32) :
    Course.Simulation (passingTie whole) (course k.isTrue k.summand) (Rest.find k n) k.poll.stage
      (course (I := I) (α := α) (P := P) (G := G) k.passing.isTrue k.passing.summand) (Rest.find k.passing n)
      k.passing.poll.stage where
  more h := h
  under {fuel x c x' c' w v} h := by
    obtain ⟨ha, hw, hpassing⟩ := h
    cases ha
    exact passing_meet k n fuel hw hpassing fun hnothing => by cases hnothing
  ahead {fuel c c' w v} h := by
    obtain ⟨rfl, rfl, hpassing⟩ := h
    obtain ⟨w, passed⟩ := v
    cases c with
    | range filtered p =>
      simp only [Rest.find, located_bind]
      refine (RangeWalk.next_passing k filtered w hpassing).bind fun a a' w v ha => ?_
      obtain ⟨rfl, hw, hlater, hend⟩ := ha
      refine passing_meet k n fuel hw hlater fun hnothing => ?_
      have hwhole : _ ++ _ = whole := hlater
      rw [integers_of_not_lt (hend hnothing), List.append_nil] at hwhole
      exact hwhole
    | last total =>
      have hmeet : (Course.meet k.poll.stage (.nothing, .last total) w).Paired Beside
          ((passingTie whole).met (course k.isTrue k.summand) (course k.passing.isTrue k.passing.summand)
            (Rest.find k.passing n) fuel)
          (Course.meet k.passing.poll.stage (.nothing, .last total) (w, passed)) :=
        passing_meet k n fuel rfl hpassing fun _ => hpassing
      exact hmeet
    | _ => exact hpassing.elim

theorem private_passing (whole : List Int32) : (passingTie whole : Course.Tie W (W × List Passed) (Rest I α P G)
    (Rest I α P G) F F (Option Int32) (Option Int32)).Private where
  worlds := rfl
  ahead h := ⟨h.2.1, fun _ => ⟨h.1, rfl, h.2.2⟩⟩
  under h := ⟨h.2.1, fun _ => ⟨h.1, rfl, h.2.2⟩⟩

theorem passing_begun (n : Nat) (filtered : Bool) (start stop : Int32) (filter : P) (consumer : G) (w : W) :
    (passingTie (integers start stop)).begun n
      (view (.range filtered (Loop.ofRange start stop filter consumer) : Job I α P G F))
      (view (.range filtered (Loop.ofRange start stop filter consumer) : Job I α P G F)) w (w, []) := by
  rw [Loop.ofRange]
  by_cases h : stop ≤ start
  · rw [if_pos h, integers_of_not_lt (Int32.not_lt.mpr h)]
    exact ⟨rfl, rfl, rfl⟩
  · rw [if_neg h]
    exact ⟨rfl, rfl, rfl⟩

/-- The notes change nothing. -/
theorem passing_alike (k : Kit W I α P G F β) (fuel : Nat) (filtered : Bool) (start stop : Int32) (filter : P)
    (consumer : G) (w : W) :
    Poller.Alike (poll k fuel) (Poller.owned (fun _ o => o) (poll k.passing fuel))
      (.range filtered (Loop.ofRange start stop filter consumer))
      (.range filtered (Loop.ofRange start stop filter consumer), []) := by
  have hends : ∀ {r r' w v}, (passingTie (I := I) (α := α) (P := P) (G := G) (F := F) (W := W)
      (integers start stop)).ends r r' w v → r = r'.map (fun o => o) ∧ w = v.1 := by
    rintro r r' w v ⟨rfl, hw, -⟩
    exact ⟨(Resolution.map_id r).symm, hw⟩
  exact alike_owned_of_simulation (k := k) (n := fuel) (private_passing (integers start stop)) hends
    (simulation_passing k fuel (integers start stop)) (Nat.add_zero fuel) (Nat.add_zero fuel)
    (.range filtered (Loop.ofRange start stop filter consumer))
    (.range filtered (Loop.ofRange start stop filter consumer)) rfl rfl
    (passing_begun fuel filtered start stop filter consumer w)

/-- A loop over a range that comes to its end has passed every integer of the range once, in ascending order. -/
theorem passed_all (k : Kit W I α P G F β) (fuel : Nat) (filtered : Bool) (start stop : Int32) (filter : P)
    (consumer : G) (gaps : List (Effect W Unit)) (w : W) :
    ((Poller.owned (fun passed _ => passed) (poll k.passing fuel)).asked gaps
      (.range filtered (Loop.ofRange start stop filter consumer), []) w).Ensures (fun _ => True)
        fun answers _ => ∀ passed, .ready (.ok passed) ∈ answers →
          passed.map Passed.number = integers start stop :=
  asked_owned_ensures (k := k) (n := fuel) (private_passing (integers start stop)) (fun h => h.2.2 _ rfl)
    (simulation_passing k fuel (integers start stop)) (Nat.add_zero fuel) (Nat.add_zero fuel)
    (.range filtered (Loop.ofRange start stop filter consumer))
    (.range filtered (Loop.ofRange start stop filter consumer)) rfl rfl
    (passing_begun fuel filtered start stop filter consumer) gaps w

end Job

end Stepwise
