import Stepwise.Job
import Stepwise.Proofs.Course
import Stepwise.Proofs.While.Direct

/-! # Jobs are courses

Every kind of job is a course: the steps that are still to be made are a `Rest`, `Rest.find` requests the
next one, `Job.course` says what becomes of its value, and `Job.view` forgets by which machinery a job
is driven.

* `stage_view`: one poll of a job is one poll of its course. The trampoline of a driven loop, the private
  sum of a summation and the tower of a chain all disappear here.
* A tower is polled without fuel. `Fits` says how much fuel the course needs instead: as much as there
  are links. For all other jobs it is the fuel of the poll.
-/

namespace Stepwise
set_option autoImplicit false

variable {W I α P G F C β γ S T : Type}

/-! ## Results of polls -/

/-- What is kept of the result of a poll. -/
def Poll.staged (r : Poll α × F) : Resolution α ⊕ F :=
  match r.1.resolution? with
  | some o => .inl o
  | none => .inr r.2

/-- Nothing of an answer is lost. -/
theorem Poll.eq_of_resolution {a b : Poll α} (h : a.resolution? = b.resolution?) : a = b := by
  cases a <;> cases b <;> cases h <;> rfl

theorem Poll.resolution_of_staged {view : F → S} {r : Poll α × F} {o : Resolution α}
    (h : (Poll.staged r).map id view = .inl o) : r.1.resolution? = some o := by
  obtain ⟨answer, x⟩ := r
  cases answer <;> cases h <;> rfl

theorem Poll.view_of_staged {view : F → S} {r : Poll α × F} {s : S} (h : (Poll.staged r).map id view = .inr s) :
    r.1.resolution? = none ∧ view r.2 = s := by
  obtain ⟨answer, x⟩ := r
  cases answer <;> cases h
  exact ⟨rfl, rfl⟩

theorem Poller.stage_eq (poll : Poller W F α) (x : F) :
    poll.stage x = poll x >>= fun r => pure (Poll.staged r) := rfl

def Resolution.map (f : α → β) : Resolution α → Resolution β
  | .ok (.ok a) => .ok (.ok (f a))
  | .ok (.error e) => .ok (.error e)
  | .error p => .error p

/-- The result of a poll, with another value and another state. -/
def Stage.result (f : α → β) (view : F → S) : Poll α × F → Resolution β ⊕ S :=
  fun r => Poll.staged (r.1.map f, view r.2)

/-! ## What is left of a job -/

namespace Job

/-- The steps that a job has still to make. -/
inductive Rest (I α P G : Type)
  | iterate (form : Form) (walk : Walk (Lookahead I α) P G)
  | list (form : Form) (walk : Walk (Lookahead (List α) α) P G)
  | range (filtered : Bool) (walk : RangeWalk P G)
  | chain (consumer : G) (elements : List α)
  | sum (sum : Int32) (walk : Walk (Lookahead (Lookahead I α) α) Unit G)
  | sumList (sum : Int32) (walk : Walk (Lookahead (Lookahead (List α) α) α) Unit G)
  | sumRange (sum : Int32) (walk : RangeWalk Unit G)
  | several (walk : Walk (Lookahead (List α) α) Unit G)
  | drive (consumer : G)
  /-- No step after the one under way, if there is one. -/
  | last (total : Option Int32)

def located (locate : C → S) (m : Effect W (Found F × C)) : Effect W (Found F × S) := do
  let (found, c) ← m
  pure (found, locate c)

/-- Request the next step. -/
def Rest.find (k : Kit W I α P G F β) (fuel : Nat) :
    Rest I α P G → Effect W (Found F × Rest I α P G)
  | .iterate form c =>
    located (.iterate form) (Walk.next (k.scan form (Lookahead.next k.next)) fuel c)
  | .list form c =>
    located (.list form) (Walk.next (k.scan form (Lookahead.next Next.ofList)) fuel c)
  | .range filtered c => located (.range filtered) (RangeWalk.next (k.rangeScan filtered) c)
  | .chain g [] => pure (.nothing, .chain g [])
  | .chain g (x :: elements) => do
    let (step, g) ← k.step g (.element x)
    pure (.step step, .chain g elements)
  | .sum s c =>
    located (.sum s)
      (Walk.next (k.plainScan (Lookahead.next (Lookahead.next k.next))) fuel c)
  | .sumList s c =>
    located (.sumList s)
      (Walk.next (k.plainScan (Lookahead.next (Lookahead.next Next.ofList))) fuel c)
  | .sumRange s c => located (.sumRange s) (RangeWalk.next k.plainRangeScan c)
  | .several c =>
    located .several (Walk.next (k.plainScan (Lookahead.next Next.ofList)) fuel c)
  | .drive g => do
    let (step, g) ← k.step g .turn
    pure (.step step, .drive g)
  | .last total => pure (.nothing, .last total)

/-- What becomes of the value of a step. -/
def course (isTrue : β → Bool) (summand : β → Int32) : Course (Rest I α P G) β (Option Int32) where
  absorb
    | .sum s c, b => some (.sum (s + summand b) c)
    | .sumList s c, b => some (.sumList (s + summand b) c)
    | .sumRange s c, b => some (.sumRange (s + summand b) c)
    | .drive g, b => if isTrue b then some (.drive g) else none
    | .chain _ [], _ => none
    | .last _, _ => none
    | rest, _ => some rest
  total
    | .sum s _ => some s
    | .sumList s _ => some s
    | .sumRange s _ => some s
    | .last total => total
    | _ => none

/-! ## Views -/

def viewWhile (locate : C → Rest I α P G) (l : While C (Found F)) :
    Course.State (Rest I α P G) F :=
  if l.finished then .closed .loopFinished
  else
    match l.current with
    | none => .ahead (locate l.step)
    | some found => .under found (locate l.step)

/-- A loop as a course; an empty one comes to this total. -/
def viewLoop (locate : C → Rest I α P G) (total : Option Int32) :
    Loop C F → Course.State (Rest I α P G) F
  | .empty => .ahead (.last total)
  | .running l => viewWhile locate l

def viewSum (locate : Int32 → C → Rest I α P G) :
    Summation (Loop C F) → Course.State (Rest I α P G) F
  | .zero => .ahead (.last (some 0))
  | .running s l => viewLoop (locate s) (some s) l
  | .finished => .closed .mapFinished

/-- A tower below some more links as a course. -/
def viewTower (consumer : G) : Tower α F → List α → Course.State (Rest I α P G) F
  | .ground, above => .ahead (.chain consumer above)
  | .first below x, above => viewTower consumer below (x :: above)
  | .second step, above => .under (.step step) (.chain consumer above)
  | .spent, _ => .closed .chainFinished

def viewDrive (l : While G F) : Course.State (Rest I α P G) F :=
  if l.finished then .closed .loopFinished
  else
    match l.current with
    | none => .ahead (.drive l.step)
    | some x => .under (.step x) (.drive l.step)

/-- A job as a course. -/
def view : Job I α P G F → Course.State (Rest I α P G) F
  | .iterate form l => viewLoop (.iterate form) none l
  | .list form l => viewLoop (.list form) none l
  | .range filtered l => viewLoop (.range filtered) none l
  | .chain c => viewTower c.consumer c.tower []
  | .sum s => viewSum .sum s
  | .sumList s => viewSum .sumList s
  | .sumRange s => viewSum .sumRange s
  | .apply .none => .ahead (.last none)
  | .apply .spent => .closed .chainFinished
  | .apply (.single x) => .under (.step x) (.last none)
  | .apply (.several l) => viewLoop .several none l
  | .drive l => viewDrive l

/-- It repeats its step until that says to stop. -/
def isDriven : Job I α P G F → Bool
  | .drive _ => true
  | _ => false

/-- The value of a job that found nothing to run over. -/
def hollow? : Job I α P G F → Option (Option Int32)
  | .iterate _ .empty | .list _ .empty | .range _ .empty => some none
  | .chain ⟨_, .ground⟩ => some none
  | .sum .zero | .sumList .zero | .sumRange .zero => some (some 0)
  | .apply .none | .apply (.several .empty) => some none
  | _ => none

/-- It has no step under way. -/
theorem view_of_hollow {j : Job I α P G F} {v : Option Int32} (h : j.hollow? = some v) :
    ∃ c, j.view = .ahead c := by
  unfold hollow? at h
  split at h <;> cases h <;> exact ⟨_, rfl⟩

/-- A job with a step under way did not find nothing to run over. -/
theorem hollow_of_under {j : Job I α P G F} {found : Found F} {c : Rest I α P G} (h : j.view = .under found c) :
    j.hollow? = none := by
  rw [Option.eq_none_iff_forall_ne_some]
  intro v hv
  obtain ⟨c', hc'⟩ := view_of_hollow hv
  rw [h] at hc'
  cases hc'

theorem hollow_of_closed {j : Job I α P G F} {cause : Panic} (h : j.view = .closed cause) : j.hollow? = none := by
  rw [Option.eq_none_iff_forall_ne_some]
  intro v hv
  obtain ⟨c', hc'⟩ := view_of_hollow hv
  rw [h] at hc'
  cases hc'

/-! ## One poll -/

theorem staged_view (view : F → S) (a : Poll α) (x : F) :
    (Poll.staged (a, x)).map id view = Poll.staged (a, view x) := by
  unfold Poll.staged
  cases a.resolution? <;> rfl

theorem located_bind (locate : C → S) (m : Effect W (Found F × C))
    (next : Found F × S → Effect W γ) :
    located locate m >>= next = m >>= fun r => next (r.1, locate r.2) := by
  rw [located, bind_assoc]
  rfl

section Loops

variable {co : Course (Rest I α P G) β (Option Int32)}
  {finds : Rest I α P G → Effect W (Found F × Rest I α P G)} {find : C → Effect W (Found F × C)}
  {step : Poller W F β} {locate : C → Rest I α P G}

/-- A driven loop that passes over what its walk finds. -/
theorem direct_pursue (hfind : ∀ c, finds (locate c) = located locate (find c))
    (habsorb : ∀ c b, co.absorb (locate c) b = some (locate c)) (htotal : ∀ c, co.total (locate c) = none)
    (n : Nat) (found : Found F) (c : C) :
    (While.direct ⟨find, Found.poll step⟩ n { step := c, current := some found } >>=
      fun r => pure (Stage.result (fun _ => none) (viewWhile locate) r)) =
      co.pursue finds step.stage n (found, locate c) := by
  induction n using Nat.strong_induction_on generalizing found c with
  | h n ih =>
  rw [While.direct]
  cases found with
  | nothing => rw [Course.pursue_nothing, htotal]; rfl
  | failed e => rw [Course.pursue_failed]; rfl
  | step x =>
    rw [Course.pursue_step, Poller.stage_eq]
    simp only [pure_bind, bind_assoc, Found.poll]
    refine bind_congr fun r => ?_
    obtain ⟨answer, x⟩ := r
    cases answer with
    | pending => rfl
    | panicked p => rfl
    | ready o =>
      cases o with
      | error e => rfl
      | ok b =>
        have hj : co.judge (locate c) (.ok (.ok b)) = .inr (locate c) := by
          simp only [Course.judge, habsorb]
        cases n with
        | zero => exact (Course.onward_zero finds step.stage hj).symm
        | succ n =>
          have honward := Course.onward_succ finds step.stage n hj
          rw [hfind, located_bind] at honward
          refine Eq.trans ?_ honward.symm
          change While.direct ⟨find, Found.poll step⟩ n { step := c } >>= _ = _
          rw [While.direct_of_none, bind_assoc]
          exact bind_congr fun r => ih n (Nat.lt_succ_self n) r.1 r.2

theorem loop_stage (hfind : ∀ c, finds (locate c) = located locate (find c))
    (habsorb : ∀ c b, co.absorb (locate c) b = some (locate c)) (htotal : ∀ c, co.total (locate c) = none)
    (hlast : ∀ t, finds (.last t) = pure (.nothing, .last t)) (htotal' : ∀ t, co.total (.last t) = t)
    (n : Nat) (l : Loop C F) :
    (l.poll find step n >>= fun r => pure (Stage.result (fun _ => none) (viewLoop locate none) r)) =
      co.stage finds step.stage n (viewLoop locate none l) := by
  cases l with
  | empty =>
    simp only [viewLoop, Course.stage, hlast, pure_bind, Course.pursue_nothing, htotal']
    rfl
  | running l =>
    obtain ⟨c, current, finished⟩ := l
    rw [Loop.poll, bind_assoc]
    cases finished with
    | true => rfl
    | false =>
      change (While.run _ n).owning { step := c, current } >>= _ = _
      rw [While.run_owning_eq_direct]
      cases current with
      | some found => exact direct_pursue hfind habsorb htotal n found c
      | none =>
        have hstage : co.stage finds step.stage n (.ahead (locate c)) =
          finds (locate c) >>= co.pursue finds step.stage n := rfl
        refine Eq.trans ?_ hstage.symm
        rw [While.direct_of_none, bind_assoc, hfind, located_bind]
        exact bind_congr fun r => direct_pursue hfind habsorb htotal n r.1 r.2

end Loops

section Sums

variable {co : Course (Rest I α P G) β (Option Int32)}
  {finds : Rest I α P G → Effect W (Found F × Rest I α P G)} {find : C → Effect W (Found F × C)}
  {step : Poller W F β} {summand : β → Int32} {locate : Int32 → C → Rest I α P G}

/-- What a poll of a summation makes of the poll of its loop. -/
def summed (locate : Int32 → C → Rest I α P G) (r : (Poll Unit × While C (Found F)) × Int32) :
    Resolution (Option Int32) ⊕ Course.State (Rest I α P G) F :=
  Stage.result (fun _ => some r.2) (viewWhile (locate r.2)) r.1

/-- The driven loop of a summation with its private sum. -/
theorem direct_owning_pursue (hfind : ∀ s c, finds (locate s c) = located (locate s) (find c))
    (habsorb : ∀ s c b, co.absorb (locate s c) b = some (locate (s + summand b) c))
    (htotal : ∀ s c, co.total (locate s c) = some s) (n : Nat) (found : Found F) (s : Int32) (c : C) :
    ((While.direct ⟨fun c => (find c).within Int32, Found.poll (Summation.adding (step.map summand))⟩
        n { step := c, current := some found }).owning s >>= fun r => pure (summed locate r)) =
      co.pursue finds step.stage n (found, locate s c) := by
  induction n using Nat.strong_induction_on generalizing found s c with
  | h n ih =>
  rw [While.direct]
  cases found with
  | nothing => rw [Course.pursue_nothing, htotal]; rfl
  | failed e => rw [Course.pursue_failed]; rfl
  | step x =>
    rw [Course.pursue_step, Poller.stage_eq]
    simp only [pure_bind, Found.poll, Summation.adding, Poller.map, bind_assoc, Effect.owning_bind,
      Effect.owning_stateful]
    refine bind_congr fun r => ?_
    obtain ⟨answer, x⟩ := r
    cases answer with
    | pending => rfl
    | panicked p => rfl
    | ready o =>
      cases o with
      | error e => rfl
      | ok b =>
        have hj : co.judge (locate s c) (.ok (.ok b)) = .inr (locate (s + summand b) c) := by
          simp only [Course.judge, habsorb]
        cases n with
        | zero => exact (Course.onward_zero finds step.stage hj).symm
        | succ n =>
          have honward := Course.onward_succ finds step.stage n hj
          rw [hfind, located_bind] at honward
          refine Eq.trans ?_ honward.symm
          change (While.direct ⟨fun c => (find c).within Int32, _⟩ n { step := c }).owning
            (s + summand b) >>= _ = _
          rw [While.direct_of_none, Effect.owning_bind, Effect.owning_within, bind_assoc, bind_assoc]
          exact bind_congr fun r => ih n (Nat.lt_succ_self n) r.1 (s + summand b) r.2

theorem sum_stage (hfind : ∀ s c, finds (locate s c) = located (locate s) (find c))
    (habsorb : ∀ s c b, co.absorb (locate s c) b = some (locate (s + summand b) c))
    (htotal : ∀ s c, co.total (locate s c) = some s)
    (hlast : ∀ t, finds (.last t) = pure (.nothing, .last t)) (htotal' : ∀ t, co.total (.last t) = t)
    (n : Nat) (l : Summation (Loop C F)) :
    (l.poll find (step.map summand) n >>= fun r => pure (Stage.result some (viewSum locate) r)) =
      co.stage finds step.stage n (viewSum locate l) := by
  cases l with
  | zero =>
    simp only [viewSum, Course.stage, hlast, pure_bind, Course.pursue_nothing, htotal']
    rfl
  | finished => rfl
  | running s l =>
    cases l with
    | empty =>
      simp only [viewSum, viewLoop, Course.stage, hlast, pure_bind, Course.pursue_nothing, htotal']
      rfl
    | running l =>
      obtain ⟨c, current, finished⟩ := l
      cases finished with
      | true => rfl
      | false =>
        have hpoll : (Summation.running s (.running { step := c, current })).poll find
            (step.map summand) n >>= (fun r => pure (Stage.result some (viewSum locate) r)) =
              ((While.run ⟨fun c => (find c).within Int32,
                Found.poll (Summation.adding (step.map summand))⟩ n).owning
                  { step := c, current }).owning s >>= fun r => pure (summed locate r) := by
          rw [Summation.poll, Loop.poll, Effect.owning_bind, bind_assoc, bind_assoc]
          refine bind_congr fun r => ?_
          obtain ⟨⟨answer, l⟩, s⟩ := r
          cases answer with
          | ready o => cases o <;> rfl
          | _ => rfl
        rw [hpoll, While.run_owning_eq_direct]
        cases current with
        | some found => exact direct_owning_pursue hfind habsorb htotal n found s c
        | none =>
          have hstage : co.stage finds step.stage n (.ahead (locate s c)) =
            finds (locate s c) >>= co.pursue finds step.stage n := rfl
          refine Eq.trans ?_ hstage.symm
          rw [While.direct_of_none, Effect.owning_bind, Effect.owning_within, bind_assoc, bind_assoc,
            hfind, located_bind]
          exact bind_congr fun r => direct_owning_pursue hfind habsorb htotal n r.1 s r.2

end Sums

section Drive

variable {co : Course (Rest I α P G) β (Option Int32)}
  {finds : Rest I α P G → Effect W (Found F × Rest I α P G)} {request : G → Effect W (F × G)}
  {step : Poller W F β} {isTrue : β → Bool}

/-- A loop that is driven without a walk. -/
theorem direct_drive_pursue
    (hfind : ∀ g, finds (.drive g) = request g >>= fun r => pure (.step r.1, .drive r.2))
    (habsorb : ∀ g b, co.absorb (.drive g) b = if isTrue b then some (.drive g) else none)
    (htotal : ∀ g, co.total (.drive g) = none) (n : Nat) (x : F) (g : G) :
    (While.direct ⟨request, step.map isTrue⟩ n { step := g, current := some x } >>=
      fun r => pure (Stage.result (fun _ => none) viewDrive r)) =
      co.pursue finds step.stage n (.step x, .drive g) := by
  induction n using Nat.strong_induction_on generalizing x g with
  | h n ih =>
  rw [While.direct, Course.pursue_step, Poller.stage_eq]
  simp only [pure_bind, bind_assoc, Poller.map]
  refine bind_congr fun r => ?_
  obtain ⟨answer, x⟩ := r
  cases answer with
  | pending => rfl
  | panicked p => rfl
  | ready o =>
    cases o with
    | error e => rfl
    | ok b =>
      cases hb : isTrue b with
      | false =>
        have hj : co.judge (.drive g) (.ok (.ok b)) = .inl (.ok (.ok none)) := by
          simp only [Course.judge, habsorb, hb, htotal]
          rfl
        simp only [Poll.map, hb]
        exact (Course.onward_of_inl finds step.stage n hj).symm
      | true =>
        have hj : co.judge (.drive g) (.ok (.ok b)) = .inr (.drive g) := by
          simp only [Course.judge, habsorb, hb]
          rfl
        simp only [Poll.map, hb]
        cases n with
        | zero => exact (Course.onward_zero finds step.stage hj).symm
        | succ n =>
          have honward := Course.onward_succ finds step.stage n hj
          rw [hfind, bind_assoc] at honward
          refine Eq.trans ?_ honward.symm
          change While.direct ⟨request, step.map isTrue⟩ n { step := g } >>= _ = _
          rw [While.direct_of_none, bind_assoc]
          exact bind_congr fun r => ih n (Nat.lt_succ_self n) r.1 r.2

theorem drive_stage
    (hfind : ∀ g, finds (.drive g) = request g >>= fun r => pure (.step r.1, .drive r.2))
    (habsorb : ∀ g b, co.absorb (.drive g) b = if isTrue b then some (.drive g) else none)
    (htotal : ∀ g, co.total (.drive g) = none) (n : Nat) (l : While G F) :
    (l.poll ⟨request, step.map isTrue⟩ n >>=
      fun r => pure (Stage.result (fun _ => none) viewDrive r)) =
      co.stage finds step.stage n (viewDrive l) := by
  obtain ⟨g, current, finished⟩ := l
  cases finished with
  | true => rfl
  | false =>
    change (While.run _ n).owning { step := g, current } >>= _ = _
    rw [While.run_owning_eq_direct]
    cases current with
    | some x => exact direct_drive_pursue hfind habsorb htotal n x g
    | none =>
      have hstage : co.stage finds step.stage n (.ahead (.drive g)) =
        finds (.drive g) >>= co.pursue finds step.stage n := rfl
      refine Eq.trans ?_ hstage.symm
      rw [While.direct_of_none, bind_assoc, hfind, bind_assoc]
      exact bind_congr fun r => direct_drive_pursue hfind habsorb htotal n r.1 r.2

end Drive

section Towers

/-- How many steps of a tower are still to be requested. -/
def links : Tower α F → Nat
  | .first below _ => links below + 1
  | _ => 0

variable {co : Course (Rest I α P G) β (Option Int32)}
  {finds : Rest I α P G → Effect W (Found F × Rest I α P G)}
  {request : G → α → Effect W (F × G)} {step : Poller W F β}

/-- What is done when a tower has resolved and these elements are above it. -/
def climb (co : Course (Rest I α P G) β (Option Int32))
    (finds : Rest I α P G → Effect W (Found F × Rest I α P G)) (step : Poller W F β) (g : G) :
    List α → Effect W (Resolution (Option Int32) ⊕ Course.State (Rest I α P G) F)
  | [] => pure (.inl (.ok (.ok none)))
  | x :: above => finds (.chain g (x :: above)) >>= co.pursue finds step.stage above.length

/-- What is done when the step under some elements has resolved. -/
def climbAfter (co : Course (Rest I α P G) β (Option Int32))
    (finds : Rest I α P G → Effect W (Found F × Rest I α P G)) (step : Poller W F β) (g : G)
    (above : List α) : Resolution β →
    Effect W (Resolution (Option Int32) ⊕ Course.State (Rest I α P G) F)
  | .ok (.ok _) => climb co finds step g above
  | .ok (.error e) => pure (.inl (.ok (.error e)))
  | .error p => pure (.inl (.error p))

/-- What is done when a tower under some elements has answered. -/
def towerResult (co : Course (Rest I α P G) β (Option Int32))
    (finds : Rest I α P G → Effect W (Found F × Rest I α P G)) (step : Poller W F β)
    (above : List α) (r : Poll Unit × Tower α F × G) :
    Effect W (Resolution (Option Int32) ⊕ Course.State (Rest I α P G) F) :=
  match r.1 with
  | .pending => pure (.inr (viewTower r.2.2 r.2.1 above))
  | .panicked p => pure (.inl (.error p))
  | .ready (.error e) => pure (.inl (.ok (.error e)))
  | .ready (.ok _) => climb co finds step r.2.2 above

theorem pollStep_towerResult (g : G) (above : List α) (x : F) :
    (Tower.pollStep (α := α) step x >>= fun r => towerResult co finds step above (r.1, r.2, g)) =
      step.stage x >>= fun s =>
        match s with
        | .inr x => pure (.inr (.under (.step x) (.chain g above)))
        | .inl r => climbAfter co finds step g above r := by
  rw [Tower.pollStep, Poller.stage_eq, bind_assoc, bind_assoc]
  refine bind_congr fun r => ?_
  obtain ⟨answer, x⟩ := r
  cases answer with
  | ready o => cases o <;> rfl
  | _ => rfl

section Climb

variable (hcons : ∀ g x above, finds (.chain g (x :: above)) =
    request g x >>= fun r => pure (.step r.1, .chain r.2 above))
  (hnil' : ∀ g b, co.absorb (.chain g []) b = none)
  (hcons' : ∀ g x above b, co.absorb (.chain g (x :: above)) b = some (.chain g (x :: above)))
  (htotal : ∀ g above, co.total (.chain g above) = none)
include hcons hnil' hcons' htotal

/-- With fuel for all elements above it, the fuel does not show. -/
theorem onward_chain {above : List α} {n : Nat} (hn : above.length ≤ n) (g : G) (r : Resolution β) :
    co.onward finds step.stage n (.chain g above) r = climbAfter co finds step g above r := by
  induction above generalizing n g r with
  | nil =>
    cases r with
    | error p => rfl
    | ok o =>
      cases o with
      | error e => rfl
      | ok b =>
        have hj : co.judge (.chain g []) (.ok (.ok b)) = .inl (.ok (.ok none)) := by
          simp only [Course.judge, hnil', htotal]
        exact Course.onward_of_inl finds step.stage n hj
  | cons x above ih =>
    cases r with
    | error p => rfl
    | ok o =>
      cases o with
      | error e => rfl
      | ok b =>
        have hj : co.judge (.chain g (x :: above)) (.ok (.ok b)) = .inr (.chain g (x :: above)) := by
          simp only [Course.judge, hcons']
        obtain ⟨n, rfl⟩ : ∃ n', n = n' + 1 := ⟨n - 1, by simp only [List.length_cons] at hn; omega⟩
        have hn' : above.length ≤ n := by simp only [List.length_cons] at hn; omega
        rw [Course.onward_succ finds step.stage n hj, climbAfter, climb, hcons, bind_assoc, bind_assoc]
        refine bind_congr fun s => ?_
        rw [pure_bind, pure_bind, Course.pursue_step, Course.pursue_step]
        refine bind_congr fun s' => ?_
        cases s' with
        | inr x => rfl
        | inl r => exact (ih hn' s.2 r).trans (ih le_rfl s.2 r).symm

theorem pursue_chain {above : List α} {n : Nat} (hn : above.length ≤ n) (g : G) (x : F) :
    co.pursue finds step.stage n (.step x, .chain g above) =
      step.stage x >>= fun s =>
        match s with
        | .inr x => pure (.inr (.under (.step x) (.chain g above)))
        | .inl r => climbAfter co finds step g above r := by
  rw [Course.pursue_step]
  refine bind_congr fun s => ?_
  cases s with
  | inr x => rfl
  | inl r => exact onward_chain hcons hnil' hcons' htotal hn g r

/-- One poll of a tower that has some elements above it. -/
theorem tower_stage (hnil : ∀ g, finds (.chain g []) = pure (.nothing, .chain g [])) (t : Tower α F)
    (g : G) (above : List α) {n : Nat} (hn : links t + above.length ≤ n) :
    (t.poll request step g >>= towerResult co finds step above) =
      co.stage finds step.stage n (viewTower g t above) := by
  induction t generalizing g above with
  | ground =>
    change climb co finds step g above = finds (.chain g above) >>= co.pursue finds step.stage n
    cases above with
    | nil => rw [hnil, pure_bind, Course.pursue_nothing, htotal]; rfl
    | cons x above =>
      have hn' : above.length ≤ n := by
        simp only [links, List.length_cons] at hn
        omega
      rw [climb, hcons, bind_assoc, bind_assoc]
      refine bind_congr fun s => ?_
      rw [pure_bind, pure_bind, pursue_chain hcons hnil' hcons' htotal le_rfl,
        pursue_chain hcons hnil' hcons' htotal hn']
  | spent => rfl
  | second x =>
    have hn' : above.length ≤ n := by simp only [links] at hn; omega
    change _ = co.pursue finds step.stage n (.step x, .chain g above)
    rw [pursue_chain hcons hnil' hcons' htotal hn', ← pollStep_towerResult, Tower.poll, bind_assoc]
    rfl
  | first below x ih =>
    have hn' : links below + (x :: above).length ≤ n := by
      simp only [links, List.length_cons] at hn ⊢
      omega
    rw [viewTower, ← ih g (x :: above) hn', Tower.poll, bind_assoc]
    refine bind_congr fun r => ?_
    obtain ⟨answer, below, g⟩ := r
    cases answer with
    | pending => rfl
    | panicked p => rfl
    | ready o =>
      cases o with
      | error e => rfl
      | ok u =>
        change _ = climb co finds step g (x :: above)
        rw [climb, hcons, bind_assoc, bind_assoc]
        refine bind_congr fun s => ?_
        rw [pure_bind, pursue_chain hcons hnil' hcons' htotal le_rfl, ← pollStep_towerResult,
          bind_assoc]
        rfl

end Climb

end Towers

/-! ## All jobs -/

/-- The course of a job that makes no towers needs the fuel of the poll; that of a chain may need as much
again as it has links. -/
def Fits (extra : Nat) : Job I α P G F → Prop
  | .chain c => links c.tower ≤ extra
  | _ => extra = 0

/-- How much fuel the course of a job needs beside that of the poll. -/
def extra : Job I α P G F → Nat
  | .chain c => links c.tower
  | _ => 0

theorem fits_extra (j : Job I α P G F) : j.Fits j.extra := by
  cases j with
  | chain c => exact le_rfl
  | _ => rfl

/-- Carry a job through to its end; `through` does so with a step. -/
def finish (k : Kit W I α P G F β) (through : F → Effect W (Resolution β)) (fuel : Nat)
    (j : Job I α P G F) : Effect W (Resolution (Option Int32)) :=
  (course k.isTrue k.summand).finish (Rest.find k fuel) through (fuel + j.extra) j.view

theorem links_poll {request : G → α → Effect W (F × G)} {step : Poller W F β} (t : Tower α F) (g : G)
    (w : W) : (t.poll request step g w).Ensures (fun _ => True) fun r _ => links r.2.1 ≤ links t := by
  have hstep : ∀ x w, (Tower.pollStep (α := α) step x w).Ensures (fun _ => True)
      fun r _ => links r.2 = 0 := by
    intro x w
    refine (Ending.Ensures.any _).bind ?_
    intro r w _
    obtain ⟨answer, x⟩ := r
    cases answer with
    | ready o => cases o <;> exact rfl
    | _ => exact rfl
  induction t generalizing g w with
  | ground => exact le_rfl
  | spent => exact le_rfl
  | second x =>
    refine (hstep x w).bind fun r w hr => ?_
    exact hr.le
  | first below x ih =>
    refine (ih g w).bind fun r w hr => ?_
    obtain ⟨answer, below', g⟩ := r
    cases answer with
    | pending => exact Nat.succ_le_succ hr
    | panicked p => exact Nat.succ_le_succ hr
    | ready o =>
      cases o with
      | error e => exact Nat.zero_le _
      | ok u =>
        refine (Ending.Ensures.any _).bind ?_
        intro s w _
        refine (hstep s.1 w).bind fun r w hr => ?_
        exact hr.le.trans (Nat.zero_le _)

/-- A poll leaves a job whose course needs no more fuel. -/
theorem fits_poll (k : Kit W I α P G F β) (n : Nat) {extra : Nat} {j : Job I α P G F}
    (hfit : j.Fits extra) (w : W) :
    (poll k n j w).Ensures (fun _ => True) fun r _ => r.2.Fits extra := by
  have hplain : ∀ {S T : Type} (f : T → Poll (Option Int32)) (wrap : S → Job I α P G F)
      (m : Effect W (T × S)), (∀ s, (wrap s).Fits extra) →
      ((m >>= fun r => pure (f r.1, wrap r.2)) w).Ensures (fun _ => True)
        fun r _ => r.2.Fits extra := by
    intro S T f wrap m hwrap
    exact (Ending.Ensures.any _).bind fun r w _ => hwrap r.2
  cases j with
  | chain c =>
    refine Ending.Ensures.bind (Q := fun r _ => links r.2.tower ≤ links c.tower) ?_
      fun r w hr => show links r.2.tower ≤ extra from hr.trans hfit
    exact (links_poll c.tower c.consumer w).bind fun r w hr => hr
  | _ => exact hplain _ _ _ fun _ => hfit

theorem unvalued_result {T : Type} (view : Job I α P G F → T) (wrap : S → Job I α P G F)
    (m : Effect W (Poll Unit × S)) :
    ((unvalued wrap m >>= fun r => pure (Poll.staged r)) >>= fun s => pure (s.map id view)) =
      m >>= fun r => pure (Stage.result (fun _ => none) (fun s => view (wrap s)) r) := by
  rw [unvalued, bind_assoc, bind_assoc]
  refine bind_congr fun r => ?_
  have hstaged := staged_view view (r.1.map fun _ => (none : Option Int32)) (wrap r.2)
  exact congrArg (fun s => (pure s : Effect W _)) hstaged

theorem valued_result {T : Type} (view : Job I α P G F → T) (wrap : S → Job I α P G F)
    (m : Effect W (Poll Int32 × S)) :
    ((valued wrap m >>= fun r => pure (Poll.staged r)) >>= fun s => pure (s.map id view)) =
      m >>= fun r => pure (Stage.result some (fun s => view (wrap s)) r) := by
  rw [valued, bind_assoc, bind_assoc]
  refine bind_congr fun r => ?_
  have hstaged := staged_view view (r.1.map some) (wrap r.2)
  exact congrArg (fun s => (pure s : Effect W _)) hstaged

theorem chain_stage (k : Kit W I α P G F β) (n : Nat) {extra : Nat} (c : Chain α G F)
    (hfit : links c.tower ≤ extra) :
    (c.poll (fun g x => k.step g (.element x)) k.poll >>= fun r => pure
      (Stage.result (fun _ => none) (fun c => view (.chain c : Job I α P G F)) r)) =
      (course k.isTrue k.summand).stage (Rest.find k n) k.poll.stage (n + extra)
        (view (.chain c)) := by
  obtain ⟨g, t⟩ := c
  have hn : links t + ([] : List α).length ≤ n + extra := by
    have hlinks : links t ≤ extra := hfit
    rw [List.length_nil]
    omega
  have hchain := fun (g : G) (x : α) (above : List α) (b : β) => show
    (course (I := I) (P := P) k.isTrue k.summand).absorb (.chain g (x :: above)) b =
      some (.chain g (x :: above)) from rfl
  have htower : (t.poll (fun g x => k.step g (.element x)) k.poll g >>=
      towerResult (course k.isTrue k.summand) (Rest.find k n) k.poll []) =
        (course k.isTrue k.summand).stage (Rest.find k n) k.poll.stage (n + extra)
          (viewTower g t []) :=
    tower_stage (fun g x above => rfl) (fun _ _ => rfl) hchain (fun _ _ => rfl) (fun _ => rfl) t g
      [] hn
  refine Eq.trans ?_ htower
  rw [Chain.poll, bind_assoc]
  refine bind_congr fun r => ?_
  obtain ⟨answer, t, g⟩ := r
  cases answer with
  | ready o => cases o <;> rfl
  | _ => rfl

theorem apply_stage (k : Kit W I α P G F β) (n : Nat)
    (a : Application F (Loop (Walk (Lookahead (List α) α) Unit G) F)) :
    (a.poll (Walk.next (k.plainScan (Lookahead.next Next.ofList)) n) k.poll n >>= fun r => pure
      (Stage.result (fun _ => none) (fun a => view (.apply a : Job I α P G F)) r)) =
      (course k.isTrue k.summand).stage (Rest.find k n) k.poll.stage n (view (.apply a)) := by
  cases a with
  | none =>
    change _ = (course k.isTrue k.summand).pursue _ k.poll.stage n (.nothing, .last none)
    rw [Course.pursue_nothing]
    rfl
  | spent => rfl
  | single x =>
    change _ = (course k.isTrue k.summand).pursue _ k.poll.stage n (.step x, .last none)
    rw [Application.poll, Course.pursue_step, Poller.stage_eq, bind_assoc, bind_assoc]
    refine bind_congr fun r => ?_
    obtain ⟨answer, x⟩ := r
    cases answer with
    | ready o =>
      cases o with
      | error e => rfl
      | ok b =>
        have hj : (course (I := I) (α := α) (P := P) (G := G) k.isTrue k.summand).judge (.last none)
          (.ok (.ok b)) = .inl (.ok (.ok none)) := rfl
        exact (Course.onward_of_inl (Rest.find k n) k.poll.stage n hj).symm
    | _ => rfl
  | several l =>
    rw [Application.poll, bind_assoc]
    change _ = (course k.isTrue k.summand).stage _ k.poll.stage n (viewLoop .several none l)
    exact loop_stage (fun _ => rfl) (fun _ _ => rfl) (fun _ => rfl) (fun _ => rfl) (fun _ => rfl) n l

/-- One poll of a job is one poll of its course. -/
theorem stage_view (k : Kit W I α P G F β) (n : Nat) {extra : Nat} {j : Job I α P G F}
    (hfit : j.Fits extra) :
    ((Poller.stage (poll k n) j) >>= fun s => pure (s.map id view)) =
      (course k.isTrue k.summand).stage (Rest.find k n) k.poll.stage (n + extra) j.view := by
  rw [Poller.stage_eq]
  cases j with
  | iterate form l =>
    rw [show extra = 0 from hfit]
    rw [poll, unvalued_result]
    exact loop_stage (fun _ => rfl) (fun _ _ => rfl) (fun _ => rfl) (fun _ => rfl) (fun _ => rfl) n l
  | list form l =>
    rw [show extra = 0 from hfit]
    rw [poll, unvalued_result]
    exact loop_stage (fun _ => rfl) (fun _ _ => rfl) (fun _ => rfl) (fun _ => rfl) (fun _ => rfl) n l
  | range filtered l =>
    rw [show extra = 0 from hfit]
    rw [poll, unvalued_result]
    exact loop_stage (fun _ => rfl) (fun _ _ => rfl) (fun _ => rfl) (fun _ => rfl) (fun _ => rfl) n l
  | chain c =>
    rw [poll, unvalued_result]
    exact chain_stage k n c hfit
  | sum s =>
    rw [show extra = 0 from hfit]
    rw [poll, valued_result]
    exact sum_stage (fun _ _ => rfl) (fun _ _ _ => rfl) (fun _ _ => rfl) (fun _ => rfl)
      (fun _ => rfl) n s
  | sumList s =>
    rw [show extra = 0 from hfit]
    rw [poll, valued_result]
    exact sum_stage (fun _ _ => rfl) (fun _ _ _ => rfl) (fun _ _ => rfl) (fun _ => rfl)
      (fun _ => rfl) n s
  | sumRange s =>
    rw [show extra = 0 from hfit]
    rw [poll, valued_result]
    exact sum_stage (fun _ _ => rfl) (fun _ _ _ => rfl) (fun _ _ => rfl) (fun _ => rfl)
      (fun _ => rfl) n s
  | apply a =>
    rw [show extra = 0 from hfit]
    rw [poll, unvalued_result]
    exact apply_stage k n a
  | drive l =>
    rw [show extra = 0 from hfit]
    rw [poll, unvalued_result]
    exact drive_stage (fun _ => rfl) (fun _ _ => rfl) (fun _ => rfl) n l

end Job

end Stepwise
