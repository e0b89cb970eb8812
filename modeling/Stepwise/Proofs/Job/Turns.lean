import Stepwise.Proofs.Job.Journal
import Stepwise.Proofs.Job.Sum
import Stepwise.Proofs.Job.Upheld
import Stepwise.Proofs.Loop
import Stepwise.Proofs.Watched
import Stepwise.Proofs.While.Protocol

/-! # One step at a time

Whatever a job is made of and however often it is watched, its steps take turns, and after it has resolved
nothing happens any more.

* `steps` is the part of a journal that is about steps. `OneAtATime` says that it is orderly and that at no
  moment of it two steps were under way.
* `Turn`: between two calls. `cur` is the step under way; all others have resolved without a failure. `turns`
  puts this in the words of a job, whose calls and polls then keep to it.
* `Watches F M n`: computations that are watched `n` times. `polled` says of a poll of such a computation that it
  keeps to the turns, and how it leaves it.
* `one_step_at_a_time`: so in every run the steps take turns; and once a poll has resolved, every further one is
  refused without any call, but where nothing watches a job that found nothing to run over.
-/

namespace Stepwise
set_option autoImplicit false

open While (StepEvent Orderly Held)

variable {W I α P G M F β : Type}

namespace While

theorem Orderly.suffix {es moment : List StepEvent} (h : Orderly es) (hmoment : moment <:+ es) :
    Orderly moment := by
  induction es with
  | nil => rw [List.suffix_nil.1 hmoment]; trivial
  | cons e es ih =>
    rcases List.suffix_cons_iff.1 hmoment with rfl | hmoment
    · exact h
    · exact ih h.2 hmoment

/-- At most one step is held. -/
theorem Orderly.held_unique {es : List StepEvent} (h : Orderly es) {i j : Nat} (hi : Held es i)
    (hj : Held es j) : i = j := by
  induction es with
  | nil => exact absurd hi.1 List.not_mem_nil
  | cons e es ih =>
    have hearlier : ∀ {k}, Held (e :: es) k → e = .request k ∨ Held es k := by
      intro k hk
      rcases List.mem_cons.1 hk.1 with he | hmem
      · exact .inl he.symm
      · exact .inr ⟨hmem, fun o ho => hk.2 o (List.mem_cons_of_mem _ ho)⟩
    rcases hearlier hi with rfl | hi'
    · rcases hearlier hj with he | hj'
      · cases he; rfl
      · exact absurd hj' (h.1.2.1 j)
    · rcases hearlier hj with rfl | hj'
      · exact absurd hi' (h.1.2.1 i)
      · exact ih h.2 hi' hj'

end While

namespace Job

/-! ## Turns -/

def Event.step? : Event α → Option StepEvent
  | .requested id _ => some (.request id)
  | .polled id => some (.poll id)
  | .replied id answer => some (.reply id (answer.map fun _ => true))
  | _ => none

/-- What happened to the steps. Whatever a step resolves to, if it does not fail, counts as true. -/
def steps (events : List (Event α)) : List StepEvent := events.filterMap Event.step?

/-- A step is requested only when all earlier ones have resolved without a failure, it is polled only until it
has resolved, and at every moment at most one step has been requested and has not resolved. -/
def OneAtATime (events : List (Event α)) : Prop :=
  Orderly (steps events) ∧
    ∀ moment, moment <:+ steps events → ∀ i j, Held moment i → Held moment j → i = j

theorem oneAtATime {events : List (Event α)} (h : Orderly (steps events)) : OneAtATime events :=
  ⟨h, fun _ hmoment _ _ => (h.suffix hmoment).held_unique⟩

/-- The step `cur` is under way, if any, and all others have resolved without a failure. -/
structure Turn (es : List StepEvent) (fresh : Nat) (cur : Option Nat) : Prop where
  orderly : Orderly es
  fresh : ∀ id, .request id ∈ es → id < fresh
  held : ∀ id, cur = some id → Held es id
  others : ∀ id, .request id ∈ es → cur = some id ∨ .reply id (.ready (.ok true)) ∈ es

namespace Turn

variable {es : List StepEvent} {fresh id : Nat}

theorem nil : Turn [] 0 none where
  orderly := trivial
  fresh _ h := absurd h List.not_mem_nil
  held _ h := nomatch h
  others _ h := absurd h List.not_mem_nil

theorem request (h : Turn es fresh none) : Turn (.request fresh :: es) (fresh + 1) (some fresh) := by
  have hnew : .request fresh ∉ es := fun hmem => absurd (h.fresh fresh hmem) (Nat.lt_irrefl fresh)
  have htrue : ∀ j, .request j ∈ es → .reply j (.ready (.ok true)) ∈ es :=
    fun j hj => (h.others j hj).resolve_left nofun
  have hnone : ∀ j, ¬ Held es j := fun j hj => hj.2 _ (htrue j hj.1)
  constructor
  · exact ⟨⟨hnew, hnone, htrue⟩, h.orderly⟩
  · intro j hj
    rcases List.mem_cons.1 hj with hj | hj
    · cases hj; omega
    · have := h.fresh j hj
      omega
  · rintro j ⟨⟩
    refine ⟨List.mem_cons_self, fun o ho => ?_⟩
    rcases List.mem_cons.1 ho with ho | ho
    · cases ho
    · exact hnew (h.orderly.requested.2 _ ho)
  · intro j hj
    rcases List.mem_cons.1 hj with hj | hj
    · cases hj; exact .inl rfl
    · exact .inr (List.mem_cons_of_mem _ (htrue j hj))

variable (h : Turn es fresh (some id))
include h

theorem orderly_poll : Orderly (.poll id :: es) := ⟨h.held id rfl, h.orderly⟩

theorem orderly_reply (last : Poll Bool) : Orderly (.reply id last :: .poll id :: es) := ⟨rfl, h.orderly_poll⟩

/-- A step that does not resolve stays under way. -/
theorem stays (last : Poll Bool) (hlast : ∀ o, last ≠ .ready o) :
    Turn (.reply id last :: .poll id :: es) fresh (some id) where
  orderly := h.orderly_reply last
  fresh j hj := h.fresh j (by simpa using hj)
  held j hj := by
    cases hj
    have hheld := h.held id rfl
    refine ⟨by simpa using hheld.1, fun o ho => ?_⟩
    have ho' : last = .ready o ∨ .reply id (.ready o) ∈ es := by simpa [eq_comm] using ho
    exact ho'.elim (hlast o) (hheld.2 o)
  others j hj := by
    have hj' : .request j ∈ es := by simpa using hj
    exact (h.others j hj').imp_right fun hmem => by simp [hmem]

theorem proceed : Turn (.reply id (.ready (.ok true)) :: .poll id :: es) fresh none where
  orderly := h.orderly_reply _
  fresh j hj := h.fresh j (by simpa using hj)
  held j hj := nomatch hj
  others j hj := by
    have hj' : .request j ∈ es := by simpa using hj
    rcases h.others j hj' with hcur | hmem
    · cases hcur; exact .inr List.mem_cons_self
    · exact .inr (by simp [hmem])

end Turn

def Journal.Turn (j : Journal α) (cur : Option Nat) : Prop := Job.Turn (steps j.events) j.fresh cur

def Journal.Orderly (j : Journal α) : Prop := While.Orderly (steps j.events)

/-- The terms of jobs whose steps take turns. -/
def turns : Terms (W × Journal α) (Nat × F) where
  free ws := ws.2.Turn none
  held x ws := ws.2.Turn (some x.1)
  waits x ws := ws.2.Turn (some x.1)
  failed _ ws := ws.2.Orderly
  stopped _ ws := ws.2.Orderly
  halted ws := ws.2.Orderly

/-- Where a job stands between two polls. -/
def Journal.Stands {C : Type} (j : Journal α) : Course.State C (Nat × F) → Prop
  | .ahead _ => j.Turn none
  | .under (.step x) _ => j.Turn (some x.1)
  | _ => False

theorem Journal.Stands.invariant {C γ : Type} {j : Journal α} {s : Course.State C (Nat × F)} (h : j.Stands s)
    (w : W) : ((turns (F := F)).invariant : Course.Invariant (W × Journal α) C (Nat × F) γ).stands s (w, j) := by
  cases s with
  | ahead c => exact h
  | closed cause => exact h.elim
  | under found c =>
    cases found with
    | step x => exact h
    | _ => exact h.elim

theorem orderly_of_resolved {o : Outcome β} {ws : W × Journal α} (h : (turns (F := F)).resolved (.ok o) ws) :
    ws.2.Orderly := by
  cases o with
  | ok b => exact Turn.orderly h
  | error e => exact h

theorem recorded_meets (k : Kit W I α P G F β) : k.recorded.Meets turns where
  next source ws h := by
    obtain ⟨w, j⟩ := ws
    refine (k.recorded_next w j source).mono ?_ ?_
    · rintro ⟨w, j'⟩ rfl
      exact h.orderly
    · rintro r ⟨w, j'⟩ rfl
      exact h
  test p call ws h := by
    obtain ⟨w, j⟩ := ws
    refine (k.recorded_test w j p call).mono ?_ ?_
    · rintro ⟨w, j'⟩ rfl
      exact h.orderly
    · rintro ⟨verdict, p⟩ ⟨w, j'⟩ rfl
      cases verdict with
      | ok accepted => exact h
      | error e => exact h.orderly
  step g call ws h := by
    obtain ⟨w, j⟩ := ws
    refine (k.recorded_step w j g call).mono ?_ ?_
    · rintro ⟨w, j'⟩ rfl
      exact h.request.orderly
    · rintro ⟨⟨id, x⟩, g⟩ ⟨w, j'⟩ ⟨rfl, rfl⟩
      exact h.request
  halt ws h := h.orderly

theorem recorded_polls (k : Kit W I α P G F β) (x : Nat × F) (ws : W × Journal α) (h : turns.held x ws) :
    (k.recorded.poll x ws).Ensures (turns (F := F)).halted turns.polled := by
  obtain ⟨w, j⟩ := ws
  have hturn : Turn (steps j.events) j.fresh (some x.1) := h
  refine (k.recorded_poll w j x).mono ?_ ?_
  · rintro ⟨w, j'⟩ rfl
    exact hturn.orderly_poll
  · rintro ⟨answer, id, y⟩ ⟨w, j'⟩ ⟨rfl, hid⟩
    obtain rfl : id = x.1 := hid
    cases answer with
    | pending => exact hturn.stays .pending nofun
    | panicked cause => exact hturn.stays (.panicked cause) nofun
    | ready o =>
      cases o with
      | ok b => exact hturn.proceed
      | error e => exact hturn.orderly_reply (.ready (.error e))

/-! ## Watched jobs -/

section Polls

variable [Logging W] (k : Kit W I α P G F β) (message : M → Effect W String)

/-- A poll of a job that is watched, with a journal. -/
def pollWatched (n fuel : Nat) :
    Poller (W × Journal α) (Watches (Job I α P G (Nat × F)) M n) (Option Int32) :=
  Watches.poll (poll k.recorded fuel) (fun m => (message m).within (Journal α)) n

/-- Every poll is refused, and nothing is called. -/
def Refuses {n : Nat} (x : Watches (Job I α P G (Nat × F)) M n) : Prop :=
  ∃ cause, ∀ fuel, pollWatched k message n fuel x = pure (.panicked cause, x)

/-- The value of a job that found nothing to run over and is not watched. -/
def idle? : (n : Nat) → Watches (Job I α P G (Nat × F)) M n → Option (Option Int32)
  | 0, j => j.hollow?
  | _ + 1, _ => none

theorem pollWatched_of_idle {n : Nat} {x : Watches (Job I α P G (Nat × F)) M n} {v : Option Int32}
    (h : idle? n x = some v) (fuel : Nat) : pollWatched k message n fuel x = pure (.ready (.ok v), x) := by
  cases n with
  | zero => exact poll_of_hollow k.recorded fuel h
  | succ n => cases h

/-- A computation that has not resolved, in the middle of its turns. -/
def Standing {n : Nat} (x : Watches (Job I α P G (Nat × F)) M n) (j : Journal α) : Prop :=
  Watches.Inner (fun job => j.Stands job.view) n x

theorem Refuses.of_closed {j : Job I α P G (Nat × F)} {cause : Panic} (h : j.view = .closed cause) :
    Refuses k message (n := 0) j := ⟨cause, fun fuel => poll_of_closed k.recorded fuel h⟩

/-- What a poll of a watched job leaves. -/
def Leaves {n : Nat} (x : Watches (Job I α P G (Nat × F)) M n)
    (r : Poll (Option Int32) × Watches (Job I α P G (Nat × F)) M n) (j : Journal α) : Prop :=
  match r.1 with
  | .ready _ => j.Orderly ∧ (Refuses k message r.2 ∨ idle? n x ≠ none)
  | _ => Standing r.2 j ∧ idle? n r.2 = none

theorem pollWatched_ensures (n fuel : Nat) (x : Watches (Job I α P G (Nat × F)) M n) (ws : W × Journal α)
    (h : Standing x ws.2) :
    (pollWatched k message n fuel x ws).Ensures (fun ws => ws.2.Orderly)
      fun r ws => Leaves k message x r ws.2 := by
  induction n generalizing ws with
  | zero =>
    obtain ⟨w, j⟩ := ws
    have hstands : j.Stands x.view := h
    have hpoll := poll_upheld ((recorded_meets k).upheld (recorded_polls k) fuel) x (w, j) (hstands.invariant w)
    refine hpoll.mono (fun _ h => h) fun r ws hr => ?_
    have hleft : (∃ y c, r.2.view = .under (.step y) c ∧ ws.2.Turn (some y.1)) →
        Standing (M := M) (n := 0) r.2 ws.2 ∧ r.2.hollow? = none := by
      rintro ⟨y, c, hview, hturn⟩
      refine ⟨?_, hollow_of_under hview⟩
      change ws.2.Stands r.2.view
      rw [hview]
      exact hturn
    obtain ⟨answer, x'⟩ := r
    cases answer with
    | pending => exact hleft hr
    | panicked cause => exact hleft hr
    | ready o =>
      obtain ⟨hresolved, hready⟩ := hr
      refine ⟨orderly_of_resolved hresolved, ?_⟩
      obtain ⟨cause, hclosed⟩ | ⟨v, hv, -⟩ := hready
      · exact .inl (Refuses.of_closed k message hclosed)
      · exact .inr (by simp [idle?, hv])
  | succ n ih =>
    cases x with
    | finished => exact h.elim
    | active x m sql =>
      refine (ih x ws h).bind fun r ws hr => ?_
      obtain ⟨answer, x⟩ := r
      cases answer with
      | pending => exact ⟨hr.1, rfl⟩
      | panicked cause => exact ⟨hr.1, rfl⟩
      | ready o =>
        have hfinished : Refuses k message (n := n + 1) .finished := ⟨.mapFinished, fun _ => rfl⟩
        cases o with
        | ok v => exact ⟨hr.1, .inl hfinished⟩
        | error e =>
          have hlog := Statement.logFailure_beside (Q := Journal.Orderly)
            (fun ws h => Ending.Ensures.within_of (message m) h) e sql hr.1
          exact hlog.bind fun _ ws h => ⟨h, .inl hfinished⟩

/-! ## Runs -/

/-- A run of a computation that is not idle: it is in the middle of its turns, or it is over and refuses every
poll. -/
def Running {n : Nat} (y : Attended (Watches (Job I α P G (Nat × F)) M n)) (j : Journal α) : Prop :=
  j.Orderly ∧ ∀ x, y.state = some x →
    idle? n x = none ∧ Standing x j ∧ ¬ y.Over ∨ Refuses k message x

theorem Standing.orderly {n : Nat} {x : Watches (Job I α P G (Nat × F)) M n} {j : Journal α}
    (h : Standing x j) : j.Orderly := by
  induction n with
  | zero =>
    have hstands : j.Stands x.view := h
    cases hview : x.view with
    | ahead c => rw [hview] at hstands; exact Turn.orderly hstands
    | closed cause => rw [hview] at hstands; exact hstands.elim
    | under found c =>
      rw [hview] at hstands
      cases found with
      | step x => exact Turn.orderly hstands
      | _ => exact hstands.elim
  | succ n ih =>
    cases x with
    | finished => exact h.elim
    | active x m sql => exact ih h

theorem poll_running (n fuel : Nat) (x : Watches (Job I α P G (Nat × F)) M n)
    (answers : List (Poll (Option Int32))) (w : W) (j : Journal α) (h : Running k message ⟨some x, answers⟩ j) :
    (pollWatched k message n fuel x (w, j)).Ensures (fun ws => ws.2.Orderly)
      fun r ws => Running k message ⟨some r.2, r.1 :: answers⟩ ws.2 := by
  obtain ⟨horderly, hx⟩ := h
  obtain ⟨hidle, hstanding, hover⟩ | hrefuses := hx x rfl
  · refine (pollWatched_ensures k message n fuel x (w, j) hstanding).mono (fun _ h => h) fun r ws hr => ?_
    obtain ⟨answer, y⟩ := r
    have hwaits : (∀ o, answer ≠ .ready o) → Standing y ws.2 ∧ idle? n y = none →
        Running k message ⟨some y, answer :: answers⟩ ws.2 := by
      rintro hanswer ⟨hy, hidle⟩
      refine ⟨hy.orderly, ?_⟩
      rintro y' ⟨⟩
      exact .inl ⟨hidle, hy, Attended.not_over_of_waits hanswer hover⟩
    cases answer with
    | pending => exact hwaits nofun hr
    | panicked cause => exact hwaits nofun hr
    | ready o =>
      obtain ⟨horderly, hrefuses⟩ := hr
      refine ⟨horderly, ?_⟩
      rintro y' ⟨⟩
      exact .inr (hrefuses.resolve_right (absurd hidle))
  · obtain ⟨cause, hpoll⟩ := id hrefuses
    rw [hpoll fuel]
    refine ⟨horderly, ?_⟩
    rintro x ⟨⟩
    exact .inr hrefuses

/-- An idle computation gives its value at every poll. -/
def Idling {n : Nat} (v : Option Int32) (y : Attended (Watches (Job I α P G (Nat × F)) M n))
    (j : Journal α) : Prop :=
  j.Orderly ∧ (∀ x, y.state = some x → idle? n x = some v) ∧ ∀ o, .ready o ∈ y.answers → o = .ok v

theorem poll_idling {v : Option Int32} (n fuel : Nat) (x : Watches (Job I α P G (Nat × F)) M n)
    (answers : List (Poll (Option Int32))) (w : W) (j : Journal α) (h : Idling v ⟨some x, answers⟩ j) :
    (pollWatched k message n fuel x (w, j)).Ensures (fun ws => ws.2.Orderly)
      fun r ws => Idling v ⟨some r.2, r.1 :: answers⟩ ws.2 := by
  obtain ⟨horderly, hx, hanswers⟩ := h
  rw [pollWatched_of_idle k message (hx x rfl) fuel]
  refine ⟨horderly, hx, fun o ho => ?_⟩
  rcases List.mem_cons.1 ho with ho | ho
  · cases ho; rfl
  · exact hanswers o ho

end Polls

/-! ## Jobs when they are made -/

/-- There is nothing to run over, which a source says with its first answer. -/
def Nothing {I : Type} : Plan I α → List (Option α) → Prop
  | .iterate _ _, entries | .chain _, entries | .sum _, entries => entries = [none]
  | .list _ elements, _ | .sumList elements, _ | .apply elements, _ => elements = []
  | .range _ start stop, _ | .sumRange start stop, _ => stop ≤ start
  | .drive, _ => False

/-- Once an element was pulled, there is a tower for it, and the source has still to be asked for its end. -/
theorem pull_first (k : Kit W I α P G F β) (n : Nat) (source : I) (below : Tower α (Nat × F)) (x : α) (w : W)
    (j : Journal α) (h : entries j.events ≠ []) :
    (Chain.pull k.recorded.next n source (.first below x) (w, j)).Ensures (fun _ => True)
      fun tower ws => tower ≠ .ground ∧ entries ws.2.events ≠ [none] := by
  induction n generalizing source below x w j with
  | zero => trivial
  | succ n ih =>
    refine (k.recorded_next w j source).result.bind ?_
    rintro ⟨entry, source⟩ ⟨w, j'⟩ rfl
    cases entry with
    | none => exact ⟨nofun, fun hnone => h (List.cons.inj hnone).2⟩
    | some y => exact ih source (.first below x) y w _ (List.cons_ne_nil _ _)

theorem start_hollow (k : Kit W I α P G F β) (n : Nat) (plan : Plan I α) (filter : P) (consumer : G) (w : W) :
    (start k.recorded.next k.recorded.step n plan filter consumer (w, {})).Ensures (fun _ => True)
      fun (j : Job I α P G (Nat × F)) ws => j.hollow? ≠ none ↔ Nothing plan (entries ws.2.events) := by
  have hnext := fun source => (k.recorded_next w {} source).result
  cases plan with
  | iterate form source =>
    rw [start, Loop.ofSource_eq, bind_assoc]
    refine (hnext source).bind ?_
    rintro ⟨entry, source⟩ ⟨w, j⟩ rfl
    cases entry with
    | none => exact iff_of_true (by rintro ⟨⟩) rfl
    | some x => exact iff_of_false (fun h => h rfl) (by rintro ⟨⟩)
  | list form elements =>
    rw [start, Loop.ofSource_eq]
    cases elements with
    | nil => exact iff_of_true (by rintro ⟨⟩) rfl
    | cons x elements => exact iff_of_false (fun h => h rfl) (by rintro ⟨⟩)
  | range filtered start stop =>
    by_cases h : stop ≤ start <;>
      simp [Job.start, Loop.ofRange, h, Effect.pure_apply, Ending.Ensures, hollow?, Nothing]
  | chain source =>
    cases n with
    | zero => trivial
    | succ n =>
      rw [start, Chain.ofSource, Chain.pull, bind_assoc, bind_assoc]
      refine (hnext source).bind ?_
      rintro ⟨entry, source⟩ ⟨w, j⟩ rfl
      cases entry with
      | none => exact iff_of_true (by rintro ⟨⟩) rfl
      | some x =>
        have hpulled : entries (((({} : Journal α).note .asked).note (.gave (some x))).events) ≠ [] :=
          List.cons_ne_nil _ _
        refine (pull_first k n source .ground x w _ hpulled).bind ?_
        rintro tower ws ⟨htower, hentries⟩
        refine iff_of_false (fun h => h ?_) hentries
        cases tower with
        | ground => exact absurd rfl htower
        | _ => rfl
  | sum source =>
    rw [start, Summation.ofSource_eq, bind_assoc]
    refine (hnext source).bind ?_
    rintro ⟨entry, source⟩ ⟨w, j⟩ rfl
    cases entry with
    | none => exact iff_of_true (by rintro ⟨⟩) rfl
    | some x => exact iff_of_false (fun h => h rfl) (by rintro ⟨⟩)
  | sumList elements =>
    rw [start, Summation.ofSource_eq]
    cases elements with
    | nil => exact iff_of_true (by rintro ⟨⟩) rfl
    | cons x elements => exact iff_of_false (fun h => h rfl) (by rintro ⟨⟩)
  | sumRange start stop =>
    by_cases h : stop ≤ start <;>
      simp [Job.start, Summation.ofRange, h, Effect.pure_apply, Ending.Ensures, hollow?, Nothing]
  | apply elements =>
    cases elements with
    | nil => exact iff_of_true (by rintro ⟨⟩) rfl
    | cons x rest =>
      cases rest with
      | nil =>
        refine Ending.Ensures.bind (Q := fun a _ => ∃ step, a = Application.single step) ?_ ?_
        · exact (Ending.Ensures.any _).bind fun r w _ => ⟨r.1, rfl⟩
        · rintro a ws ⟨step, rfl⟩
          exact iff_of_false (fun h => h rfl) (by rintro ⟨⟩)
      | cons y rest =>
        refine Ending.Ensures.bind (Q := fun a _ => ∃ l, a = Application.several (.running l)) ⟨_, rfl⟩ ?_
        rintro a ws ⟨l, rfl⟩
        exact iff_of_false (fun h => h rfl) (by rintro ⟨⟩)
  | drive => exact iff_of_false (fun h => h rfl) False.elim

/-- A job with a journal, watched with these labels. -/
def makeWatched (k : Kit W I α P G F β) (labels : List (M × String)) (fuel : Nat) (plan : Plan I α) (filter : P)
    (consumer : G) : Effect (W × Journal α) (Watches (Job I α P G (Nat × F)) M labels.length) := do
  let j ← start k.recorded.next k.recorded.step fuel plan filter consumer
  pure (Watches.wrap j labels)

/-- A computation stands in the middle of its turns when it is made, and is idle exactly if there is nothing to
run over and nothing watches it. -/
theorem makeWatched_ensures (k : Kit W I α P G F β) (labels : List (M × String)) (fuel : Nat) (plan : Plan I α)
    (filter : P) (consumer : G) (w : W) :
    (makeWatched k labels fuel plan filter consumer (w, {})).Ensures (fun ws => ws.2.Orderly)
      fun x ws => Standing x ws.2 ∧
        (idle? labels.length x ≠ none ↔ labels = [] ∧ Nothing plan (entries ws.2.events)) := by
  have hmeets := start_meets (recorded_meets k) fuel plan filter consumer (w, {}) Turn.nil
  refine (hmeets.and (start_hollow k fuel plan filter consumer w)).bind fun j ws hj => ?_
  obtain ⟨hfresh, hhollow⟩ := hj
  have hstands : ws.2.Stands j.view := by
    obtain ⟨c, hview, hfree⟩ | ⟨x, c, hview, hheld⟩ := Terms.fresh_cases hfresh
    · rw [hview]; exact hfree
    · rw [hview]; exact hheld
  refine ⟨Watches.inner_wrap (K := fun job : Job I α P G (Nat × F) => ws.2.Stands job.view) hstands labels, ?_⟩
  cases labels with
  | nil => exact hhollow.trans ⟨fun h => ⟨rfl, h⟩, fun h => h.2⟩
  | cons label labels => exact ⟨fun h => absurd rfl h, fun h => nomatch h.1⟩

/-! ## The whole statement -/

/-- The steps of every job take turns, however it is watched and polled: at most one of them is under way at any
moment, the next one is requested when all before it have resolved without a failure, and none is polled after it
has resolved. Once a poll has resolved, every further poll is refused and calls nothing, logs nothing and leaves
the computation as it is; only a job that found nothing to run over and is not watched gives the same value
again. -/
theorem one_step_at_a_time [Logging W] (k : Kit W I α P G F β) (message : M → Effect W String)
    (labels : List (M × String)) (fuel : Nat) (plan : Plan I α) (filter : P) (consumer : G) (w : W) :
    (makeWatched k labels fuel plan filter consumer (w, {})).Ensures (fun ws => OneAtATime ws.2.events)
      fun x made => OneAtATime made.2.events ∧ ∀ actions : List (Action W),
        (acts (pollWatched k message labels.length) actions ⟨some x, []⟩ made).Ensures
          (fun ws => OneAtATime ws.2.events)
          fun y ws => OneAtATime ws.2.events ∧ ∀ x o, y.state = some x → .ready o ∈ y.answers →
            (labels = [] ∧ Nothing plan (entries made.2.events) → ∃ v, o = .ok v ∧
              ∀ fuel, pollWatched k message labels.length fuel x = pure (.ready (.ok v), x)) ∧
            (¬ (labels = [] ∧ Nothing plan (entries made.2.events)) → ∃ cause,
              ∀ fuel, pollWatched k message labels.length fuel x = pure (.panicked cause, x)) := by
  refine (makeWatched_ensures k labels fuel plan filter consumer w).mono (fun _ h => oneAtATime h) ?_
  rintro x ⟨w, j⟩ ⟨hstanding, hidle⟩
  refine ⟨oneAtATime hstanding.orderly, fun actions => ?_⟩
  cases hx : idle? labels.length x with
  | some v =>
    have hnothing := hidle.1 (by simp [hx])
    have hidling : Idling v ⟨some x, []⟩ j := ⟨hstanding.orderly, by rintro x ⟨⟩; exact hx, nofun⟩
    have hrun := acts_ensures (poll_idling k message labels.length)
      (fun y j h => ⟨h.1, by rintro x ⟨⟩, h.2.2⟩) (fun y j h => h.1) actions ⟨some x, []⟩ w j hidling
    refine hrun.mono (fun _ h => oneAtATime h) fun y ws hy => ?_
    obtain ⟨horderly, hstate, hanswers⟩ := hy
    refine ⟨oneAtATime horderly, fun x' o hx' ho => ⟨fun _ => ⟨v, hanswers o ho, fun fuel => ?_⟩, ?_⟩⟩
    · exact pollWatched_of_idle k message (hstate x' hx') fuel
    · exact absurd hnothing
  | none =>
    have hsome : ¬ (labels = [] ∧ Nothing plan (entries j.events)) := fun h => hidle.2 h hx
    have hrunning : Running k message ⟨some x, []⟩ j := by
      refine ⟨hstanding.orderly, ?_⟩
      rintro x' ⟨⟩
      exact .inl ⟨hx, hstanding, Attended.not_over_made x⟩
    have hrun := acts_ensures (poll_running k message labels.length)
      (fun y j h => ⟨h.1, by rintro x ⟨⟩⟩) (fun y j h => h.1) actions ⟨some x, []⟩ w j hrunning
    refine hrun.mono (fun _ h => oneAtATime h) fun y ws hy => ?_
    obtain ⟨horderly, hstate⟩ := hy
    refine ⟨oneAtATime horderly, fun x' o hx' ho => ⟨fun h => absurd h hsome, fun _ => ?_⟩⟩
    obtain ⟨-, -, hover⟩ | hrefuses := hstate x' hx'
    · exact absurd ⟨o, ho⟩ hover
    · exact hrefuses

end Job

end Stepwise
