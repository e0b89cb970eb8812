import Stepwise.Proofs.Ensures
import Stepwise.Proofs.Job.Course

/-! # Jobs between their calls

Whatever a job is made of, it does the same between two calls: it looks for a step while none is under way,
polls the step that it holds, and stops when the step waits or something fails. `Terms` says what is known
of the world at each of these points.

* `Kit.Meets t k`: every call of the kit `k` to its source, its filter or its step, made where `t` allows it,
  leads to the point that `t` names. The polls of steps are spoken of apart, because not all need them.
* `Course.stage_meets`: a loop stays on these terms, by induction on the fuel; every turn starts with no
  step under way or with the step that was found.
* `Job.poll_meets` and `Job.start_meets` say so of all jobs, whose finding of steps is `Rest.find_meets`.
-/

namespace Stepwise
set_option autoImplicit false

variable {W I J α P S G F C β γ : Type}

/-- What is known of the world at the points between the calls of a job. -/
structure Terms (W F : Type) where
  /-- No step is under way. -/
  free : W → Prop
  /-- This step is under way and may be polled. -/
  held : F → W → Prop
  /-- This step has answered that it waits. -/
  waits : F → W → Prop
  failed : Failure → W → Prop
  stopped : Panic → W → Prop
  /-- A call broke down or was cut off, or the fuel of the job gave out. -/
  halted : W → Prop

namespace Terms

variable (t : Terms W F)

def verdict : Outcome Bool → W → Prop
  | .ok _ => t.free
  | .error e => t.failed e

def found : Found F → W → Prop
  | .step x => t.held x
  | .nothing => t.free
  | .failed e => t.failed e

/-- Where a poll may begin. -/
def ready : Course.State C F → W → Prop
  | .ahead _ => t.free
  | .under found _ => t.found found
  | .closed cause => t.stopped cause

/-- How a job is made: nothing has failed, and nothing was found but a step. -/
def fresh : Course.State C F → W → Prop
  | .ahead _ => t.free
  | .under (.step x) _ => t.held x
  | _ => fun _ => False

def resolved : Resolution β → W → Prop
  | .ok (.ok _) => t.free
  | .ok (.error e) => t.failed e
  | .error cause => t.stopped cause

def staged : Resolution β ⊕ F → W → Prop
  | .inl r => t.resolved r
  | .inr x => t.waits x

/-- Where a poll ends. If it has not resolved, it holds a step that waits. -/
def left : Resolution β ⊕ Course.State C F → W → Prop
  | .inl r => t.resolved r
  | .inr (.under (.step x) _) => t.waits x
  | .inr _ => fun _ => False

variable {t} {s : Course.State C F} {w : W}

theorem fresh_cases (h : t.fresh s w) :
    (∃ c, s = .ahead c ∧ t.free w) ∨ ∃ x c, s = .under (.step x) c ∧ t.held x w := by
  cases s with
  | ahead c => exact Or.inl ⟨c, rfl, h⟩
  | closed cause => exact h.elim
  | under found c =>
    cases found with
    | step x => exact Or.inr ⟨x, c, rfl, h⟩
    | _ => exact h.elim

theorem ready_of_fresh (h : t.fresh s w) : t.ready s w := by
  obtain ⟨c, rfl, hfree⟩ | ⟨x, c, rfl, hheld⟩ := fresh_cases h
  · exact hfree
  · exact hheld

theorem fresh_mono {V : Type} {t' : Terms V F} {v : V} (h : t.fresh s w) (hfree : t.free w → t'.free v)
    (hheld : ∀ x, t.held x w → t'.held x v) : t'.fresh s v := by
  obtain ⟨c, rfl, hw⟩ | ⟨x, c, rfl, hw⟩ := fresh_cases h
  · exact hfree hw
  · exact hheld x hw

theorem left_cases (h : t.left (.inr s : Resolution β ⊕ _) w) :
    ∃ x c, s = .under (.step x) c ∧ t.waits x w := by
  cases s with
  | ahead c => exact h.elim
  | closed cause => exact h.elim
  | under found c =>
    cases found with
    | step x => exact ⟨x, c, rfl, h⟩
    | _ => exact h.elim

end Terms

/-- The calls between two steps keep to the terms. -/
structure Kit.Meets (t : Terms W F) (k : Kit W I α P G F β) : Prop where
  next : ∀ source w, t.free w → (k.next source w).Ensures t.halted fun _ => t.free
  test : ∀ p call w, t.free w → (k.test p call w).Ensures t.halted fun r => t.verdict r.1
  step : ∀ g call w, t.free w → (k.step g call w).Ensures t.halted fun r => t.held r.1
  halt : ∀ w, t.free w → t.halted w

/-! ## Courses -/

namespace Course

variable {t : Terms W F} {co : Course C β γ} {find : C → Effect W (Found F × C)} {step : Stage W F β}
  (hfind : ∀ c w, t.free w → (find c w).Ensures t.halted fun r => t.found r.1)
  (hstep : ∀ x w, t.held x w → (step x w).Ensures t.halted t.staged) (hhalt : ∀ w, t.free w → t.halted w)

include hfind hstep hhalt

theorem pursue_meets (fuel : Nat) (found : Found F) (c : C) (w : W) (h : t.found found w) :
    (co.pursue find step fuel (found, c) w).Ensures t.halted t.left := by
  induction fuel using Nat.strong_induction_on generalizing found c w with
  | h fuel ih =>
  cases found with
  | nothing => rw [pursue_nothing]; exact h
  | failed e => rw [pursue_failed]; exact h
  | step x =>
    rw [pursue_step]
    refine (hstep x w h).bind fun r w hr => ?_
    cases r with
    | inr x => exact hr
    | inl r =>
      cases r with
      | error cause => exact hr
      | ok o =>
        cases o with
        | error e => exact hr
        | ok b =>
          have hfree : t.free w := hr
          cases hj : co.judge c (.ok (.ok b)) with
          | inl r' =>
            change (co.onward find step fuel c (.ok (.ok b)) w).Ensures t.halted t.left
            rw [onward_of_inl find step fuel hj, total_of_judge hj]
            exact hfree
          | inr c' =>
            change (co.onward find step fuel c (.ok (.ok b)) w).Ensures t.halted t.left
            cases fuel with
            | zero =>
              rw [onward_zero find step hj]
              exact hhalt w hfree
            | succ fuel =>
              rw [onward_succ find step fuel hj]
              refine (hfind c' w hfree).bind fun r w hr => ?_
              exact ih fuel (Nat.lt_succ_self fuel) r.1 r.2 w hr

theorem stage_meets (fuel : Nat) (s : State C F) (w : W) (h : t.ready s w) :
    (co.stage find step fuel s w).Ensures t.halted t.left := by
  cases s with
  | ahead c =>
    refine (hfind c w h).bind fun r w hr => ?_
    exact pursue_meets hfind hstep hhalt fuel r.1 r.2 w hr
  | under found c => exact pursue_meets hfind hstep hhalt fuel found c w h
  | closed cause => exact h

end Course

/-! ## Walks -/

section Walks

variable {t : Terms W F}

theorem Lookahead.next_meets {next : Next W I α}
    (hnext : ∀ source w, t.free w → (next source w).Ensures t.halted fun _ => t.free)
    (a : Lookahead I α) (w : W) (h : t.free w) :
    (Lookahead.next next a w).Ensures t.halted fun _ => t.free := by
  obtain ⟨source, seen⟩ := a
  cases seen with
  | some x => exact h
  | none => exact (hnext source w h).bind fun r w hr => hr

theorem Lookahead.peek_meets {next : Next W I α}
    (hnext : ∀ source w, t.free w → (next source w).Ensures t.halted fun _ => t.free)
    (a : Lookahead I α) (w : W) (h : t.free w) :
    (Lookahead.peek next a w).Ensures t.halted fun _ => t.free := by
  obtain ⟨source, seen⟩ := a
  cases seen with
  | some x => exact h
  | none => exact (hnext source w h).bind fun r w hr => hr

theorem Next.ofList_meets (elements : List α) (w : W) (h : t.free w) :
    (Next.ofList elements w).Ensures t.halted fun _ => t.free := by
  cases elements <;> exact h

theorem Walk.next_meets {b : Scan W I α P G F}
    (hnext : ∀ source w, t.free w → (b.next source w).Ensures t.halted fun _ => t.free)
    (htest : ∀ p x i w, t.free w → (b.test p x i w).Ensures t.halted fun r => t.verdict r.1)
    (hstep : ∀ g x i w, t.free w → (b.step g x i w).Ensures t.halted fun r => t.held r.1)
    (hhalt : ∀ w, t.free w → t.halted w) (n : Nat) (c : Walk I P G) (w : W) (h : t.free w) :
    (Walk.next b n c w).Ensures t.halted fun r => t.found r.1 := by
  induction n generalizing c w with
  | zero => exact hhalt w h
  | succ n ih =>
    refine (hnext c.source w h).bind fun r w hr => ?_
    obtain ⟨entry, source⟩ := r
    cases entry with
    | none => exact hr
    | some x =>
      refine (htest c.filter x c.index w hr).bind fun r w hr => ?_
      obtain ⟨verdict, filter⟩ := r
      cases verdict with
      | error e => exact hr
      | ok accepted =>
        cases accepted with
        | true => exact (hstep c.consumer x c.index w hr).bind fun r w hr => hr
        | false => exact ih _ w hr

theorem RangeWalk.next_meets {b : RangeScan W P G F}
    (htest : ∀ p i w, t.free w → (b.test p i w).Ensures t.halted fun r => t.verdict r.1)
    (hstep : ∀ g i w, t.free w → (b.step g i w).Ensures t.halted fun r => t.held r.1)
    (c : RangeWalk P G) (w : W) (h : t.free w) :
    (RangeWalk.next b c w).Ensures t.halted fun r => t.found r.1 := by
  rw [RangeWalk.next]
  induction c.remaining generalizing c w with
  | zero => exact h
  | succ left ih =>
    refine (htest c.filter c.current w h).bind fun r w hr => ?_
    obtain ⟨verdict, filter⟩ := r
    cases verdict with
    | error e => exact hr
    | ok accepted =>
      cases accepted with
      | true => exact (hstep c.consumer c.current w hr).bind fun r w hr => hr
      | false => exact ih _ w hr

end Walks

/-! ## Jobs -/

namespace Job

variable {t : Terms W F} {k : Kit W I α P G F β}

theorem located_meets {S : Type} {locate : C → S} {m : Effect W (Found F × C)} {w : W}
    (h : (m w).Ensures t.halted fun r => t.found r.1) :
    (located locate m w).Ensures t.halted fun r => t.found r.1 :=
  h.bind fun _ _ hr => hr

/-- A filter that is not there accepts everything. -/
theorem scan_meets (hk : k.Meets t) (form : Form) (next : Next W J α) (p : P) (x : α) (i : Nat) (w : W)
    (h : t.free w) : ((k.scan form next).test p x i w).Ensures t.halted fun r => t.verdict r.1 := by
  simp only [Kit.scan]
  cases form.test with
  | none => exact h
  | some arguments => exact hk.test p _ w h

theorem Rest.find_meets (hk : k.Meets t) (n : Nat) (rest : Rest I α P G) (w : W) (h : t.free w) :
    (rest.find k n w).Ensures t.halted fun r => t.found r.1 := by
  cases rest with
  | iterate form c =>
    exact located_meets (Walk.next_meets (Lookahead.next_meets hk.next) (scan_meets hk form _)
      (fun g _ _ => hk.step g _) hk.halt n c w h)
  | list form c =>
    exact located_meets (Walk.next_meets (Lookahead.next_meets Next.ofList_meets) (scan_meets hk form _)
      (fun g _ _ => hk.step g _) hk.halt n c w h)
  | range filtered c =>
    refine located_meets (RangeWalk.next_meets ?_ (fun g i => hk.step g _) c w h)
    intro p i w h
    cases filtered with
    | true => exact hk.test p _ w h
    | false => exact h
  | chain g elements =>
    cases elements with
    | nil => exact h
    | cons x elements => exact (hk.step g _ w h).bind fun r w hr => hr
  | sum s c =>
    exact located_meets (Walk.next_meets (Lookahead.next_meets (Lookahead.next_meets hk.next))
      (fun _ _ _ _ h => h) (fun g _ _ => hk.step g _) hk.halt n c w h)
  | sumList s c =>
    exact located_meets (Walk.next_meets (Lookahead.next_meets (Lookahead.next_meets Next.ofList_meets))
      (fun _ _ _ _ h => h) (fun g _ _ => hk.step g _) hk.halt n c w h)
  | sumRange s c =>
    exact located_meets (RangeWalk.next_meets (fun _ _ _ h => h) (fun g i => hk.step g _) c w h)
  | several c =>
    exact located_meets (Walk.next_meets (Lookahead.next_meets Next.ofList_meets)
      (fun _ _ _ _ h => h) (fun g _ _ => hk.step g _) hk.halt n c w h)
  | drive g => exact (hk.step g _ w h).bind fun r w hr => hr
  | last total => exact h

/-- One poll of a job, begun on the terms, ends on them. -/
theorem poll_meets (hk : k.Meets t)
    (hpoll : ∀ x w, t.held x w → (k.poll.stage x w).Ensures t.halted t.staged) (n : Nat)
    (j : Job I α P G F) (w : W) (h : t.ready j.view w) :
    (poll k n j w).Ensures t.halted fun r => t.left ((Poll.staged r).map id view) := by
  have hstage : ((course k.isTrue k.summand).stage (Rest.find k n) k.poll.stage (n + j.extra) j.view
      w).Ensures t.halted t.left :=
    Course.stage_meets (Rest.find_meets hk n) hpoll hk.halt (n + j.extra) j.view w h
  rw [← stage_view k n (fits_extra j), Poller.stage_eq, bind_assoc] at hstage
  exact Ending.Ensures.of_bind_pure hstage

/-! ## Making a job -/

theorem ofSource_meets {next : Next W I α}
    (hnext : ∀ source w, t.free w → (next source w).Ensures t.halted fun _ => t.free) (source : I)
    (filter : P) (consumer : G) (locate : Walk (Lookahead I α) P G → Rest J α S G)
    (total : Option Int32) (w : W) (h : t.free w) :
    ((Loop.ofSource next source filter consumer : Effect W (Loop _ F)) w).Ensures t.halted
      fun l => t.fresh (viewLoop locate total l) := by
  refine (Lookahead.peek_meets hnext _ w h).bind fun r w hr => ?_
  obtain ⟨first, a⟩ := r
  cases first with
  | none => exact hr
  | some x => exact hr

theorem sumOfSource_meets {next : Next W I α}
    (hnext : ∀ source w, t.free w → (next source w).Ensures t.halted fun _ => t.free) (source : I)
    (consumer : G) (locate : Int32 → Walk (Lookahead (Lookahead I α) α) Unit G → Rest J α S G) (w : W)
    (h : t.free w) :
    ((Summation.ofSource next source consumer : Effect W (Summation (Loop _ F))) w).Ensures t.halted
      fun s => t.fresh (viewSum locate s) := by
  refine (Lookahead.peek_meets hnext _ w h).bind fun r w hr => ?_
  obtain ⟨first, a⟩ := r
  cases first with
  | none => exact hr
  | some x =>
    have hloop := ofSource_meets (Lookahead.next_meets hnext) a () consumer (locate 0) (some 0) w hr
    exact hloop.bind fun l w hl => hl

theorem pull_meets {next : Next W I α}
    (hnext : ∀ source w, t.free w → (next source w).Ensures t.halted fun _ => t.free)
    (hhalt : ∀ w, t.free w → t.halted w) (n : Nat) (source : I) (tower : Tower α F)
    (hbare : ∀ g above, ∃ c, (viewTower g tower above : Course.State (Rest I α P G) F) = .ahead c)
    (consumer : G) (w : W) (h : t.free w) :
    (Chain.pull next n source tower w).Ensures t.halted fun tower =>
      t.fresh (viewTower consumer tower [] : Course.State (Rest I α P G) F) := by
  induction n generalizing source tower w with
  | zero => exact hhalt w h
  | succ n ih =>
    refine (hnext source w h).bind fun r w hr => ?_
    obtain ⟨entry, source⟩ := r
    cases entry with
    | none =>
      obtain ⟨c, hc⟩ := hbare consumer []
      change t.fresh (viewTower consumer tower []) w
      rw [hc]
      exact hr
    | some x => exact ih source (.first tower x) (fun g above => hbare g (x :: above)) w hr

/-- A job is made without a step under way, or with the one step of an application. -/
theorem start_meets (hk : k.Meets t) (n : Nat) (plan : Plan I α) (filter : P) (consumer : G) (w : W)
    (h : t.free w) : (start k.next k.step n plan filter consumer w).Ensures t.halted
      fun j => t.fresh (j.view : Course.State (Rest I α P G) F) := by
  cases plan with
  | iterate form source =>
    exact (ofSource_meets hk.next source filter consumer (.iterate form) none w h).bind fun l w hl => hl
  | list form elements =>
    exact (ofSource_meets Next.ofList_meets elements filter consumer (.list form) none w h).bind
      fun l w hl => hl
  | range filtered start stop =>
    change t.fresh (viewLoop _ none (Loop.ofRange start stop filter consumer)) w
    rw [Loop.ofRange]
    split <;> exact h
  | chain source =>
    have hpull := pull_meets (P := P) hk.next hk.halt n source .ground (fun g above => ⟨_, rfl⟩) consumer w h
    refine Ending.Ensures.bind (Q := fun c => t.fresh (view (.chain c))) ?_ fun c w hc => hc
    refine hpull.bind fun tower w htower => ?_
    exact htower
  | sum source =>
    exact (sumOfSource_meets hk.next source consumer .sum w h).bind fun s w hs => hs
  | sumList elements =>
    exact (sumOfSource_meets Next.ofList_meets elements consumer .sumList w h).bind fun s w hs => hs
  | sumRange start stop =>
    change t.fresh (viewSum _ (Summation.ofRange start stop consumer)) w
    rw [Summation.ofRange, Loop.ofRange]
    split <;> exact h
  | apply elements =>
    refine Ending.Ensures.bind (Q := fun a => t.fresh (view (.apply a))) ?_ fun a w ha => ha
    cases elements with
    | nil => exact h
    | cons x rest =>
      cases rest with
      | nil => exact (hk.step consumer _ w h).bind fun r w hr => hr
      | cons y rest =>
        have hloop := ofSource_meets Next.ofList_meets (x :: y :: rest) () consumer
          (Rest.several (I := I) (P := P)) none w h
        exact hloop.bind fun l w hl => hl
  | drive => exact h

end Job

end Stepwise
