import Mathlib.Data.List.TakeWhile
import Stepwise.Proofs.Mail.Passage

/-! # Places in a plan

A job that is asked for its next step goes on where it is in its plan: `At` says which elements are left from there.
Together with what its calls have come to (`Through`) this is an invariant of the job, its `passage`.

* `find_passes` and `receive_passes`: finding a step and polling it uphold the invariant (`passage_upheld`). What a
  step resolves to matters to a driven loop only (`At.absorb`).
* `start_passes`: a job is made at the first element, with what making it has already asked the source for.
* `Along` says so of a seat, and every action keeps it (`perform_along`). `Covered` is what is left of it when the
  place is forgotten.
-/

namespace Stepwise.Mail
set_option autoImplicit false

open Script (World Value Mailbox)

variable {U I J α P Q G : Type}

/-! ## Places -/

/-- So many elements were passed here and these are left. A driven loop learns only from a step that was held whether
there is another turn. -/
inductive At (again : Value → Bool) (l : List (Entry α)) (held : Bool) :
    Plan I α → Job.Rest I α P G → Nat → List (Offer α) → Prop
  | iterate {form : Form} {source : I} {c : Walk (Lookahead I α) P G} {n : Nat} {xs : List α}
      (hsource : Ahead Unknown c.source xs) (hindex : c.index = n) :
      At again l held (.iterate form source) (.iterate form c) n (form.offersFrom n xs)
  | list {form : Form} {elements : List α} {c : Walk (Lookahead (List α) α) P G} {n : Nat} {xs : List α}
      (hsource : Ahead Eq c.source xs) (hindex : c.index = n) :
      At again l held (.list form elements) (.list form c) n (form.offersFrom n xs)
  | range {filtered : Bool} {start stop : Int32} {c : RangeWalk P G} {n : Nat} :
      At again l held (.range filtered start stop) (.range filtered c) n
        ((integers c.current c.stop).map (.number filtered))
  | chain {source : I} {g : G} {n : Nat} {xs : List α} (hended : none ∈ entries l) :
      At again l held (.chain source) (.chain g xs) n (Form.each.offersFrom n xs)
  | sum {source : I} {s : Int32} {c : Walk (Lookahead (Lookahead I α) α) Unit G} {n : Nat} {xs : List α}
      (hsource : Ahead (Ahead Unknown) c.source xs) (hindex : c.index = n) :
      At again l held (.sum source) (.sum s c) n (Form.each.offersFrom n xs)
  | sumList {elements : List α} {s : Int32} {c : Walk (Lookahead (Lookahead (List α) α) α) Unit G} {n : Nat}
      {xs : List α} (hsource : Ahead (Ahead Eq) c.source xs) (hindex : c.index = n) :
      At again l held (.sumList elements) (.sumList s c) n (Form.each.offersFrom n xs)
  | sumRange {start stop : Int32} {s : Int32} {c : RangeWalk Unit G} {n : Nat} :
      At again l held (.sumRange start stop) (.sumRange s c) n ((integers c.current c.stop).map (.number false))
  | several {elements : List α} {c : Walk (Lookahead (List α) α) Unit G} {n : Nat} {xs : List α}
      (hsource : Ahead Eq c.source xs) (hindex : c.index = n) :
      At again l held (.apply elements) (.several c) n (Form.each.offersFrom n xs)
  | drive {g : G} {n : Nat} (hagain : ∀ v ∈ values l, again v = true) :
      At again l held .drive (.drive g) n (if held then [] else [.turn])
  | last {plan : Plan I α} {total : Option Int32} {n : Nat} (hplan : plan.isDrive = false)
      (hended : Ended again l plan) :
      At again l held plan (.last total) n []

theorem At.transfer {again : Value → Bool} {l l' : List (Entry α)} {held : Bool} {plan : Plan I α}
    {rest : Job.Rest I α P G} {n : Nat} {left : List (Offer α)} (h : At again l held plan rest n left)
    (hentries : entries l' = entries l) (hvalues : values l' = values l) : At again l' held plan rest n left := by
  cases h with
  | chain hended => exact .chain (hentries ▸ hended)
  | drive hagain => exact .drive (hvalues ▸ hagain)
  | last hplan hended => exact .last hplan (hended.transfer hentries hvalues)
  | _ => constructor <;> assumption

/-- The place of a job and how far its calls have come. -/
def passage (plan : Plan I α) (again : Value → Bool) :
    Course.Invariant (U × Post α) (Job.Rest I α P G) Int64 (Option Int32) where
  ahead rest ws := ∃ passed left, At again ws.2.ledger false plan rest passed.length left ∧
    Through plan again ws.2.ledger [] [] passed left
  under found rest ws := Reached plan again ws.2.ledger (At again ws.2.ledger true plan rest) found
  resolved o ws :=
    match o with
    | .ok _ => Finished plan again ws.2.ledger
    | .error e => Failed plan again e ws.2.ledger
  halted _ := True

/-! ## From one step to the next -/

section Steps

variable {plan : Plan I α} {again : Value → Bool} {summand : Value → Int32} {calls : Nest.Calls U I α P G Int64}

section Walks

variable {form : Form} {next : Next (U × Post α) J α} {H : J → List α → Prop} {passed : List (Offer α × Bool)}
  {xs : List α} {ws : U × Post α}

theorem scan_passes (hnext : Feeds plan again form next H) {locate : Walk J P G → Job.Rest I α P G}
    (hlocate : ∀ {l : List (Entry α)} {c : Walk J P G} {n : Nat} {xs : List α}, H c.source xs → c.index = n →
      At again l true plan (locate c) n (form.offersFrom n xs)) (n : Nat) {c : Walk J P G} (hsource : H c.source xs)
    (hindex : c.index = passed.length)
    (h : Through plan again ws.2.ledger [] [] passed (form.offersFrom passed.length xs)) :
    (Job.located locate (Walk.next ((kit calls again summand).scan form next) n c) ws).Ensures (fun _ => True)
      fun r ws => (passage plan again).under r.1 r.2 ws := by
  refine (walk_passes hnext ?_ ?_ n c ws xs passed hsource hindex h).bind fun r ws hr => hr.mono ?_
  · intro q x i ws passed left h
    simp only [Kit.scan]
    cases hform : form.test with
    | none => exact unfiltered_decided (by rw [Form.offer, hform]; rfl) h
    | some arguments => exact test_decided calls summand (by rw [Form.offer, hform]; rfl) q h
  · exact fun g x i ws passed left h => step_passes calls summand g h
  · rintro i _ ⟨xs, hsource, hindex, rfl⟩
    exact hlocate hsource hindex

theorem plain_scan_passes (hnext : Feeds plan again .each next H) {locate : Walk J Unit G → Job.Rest I α P G}
    (hlocate : ∀ {l : List (Entry α)} {c : Walk J Unit G} {n : Nat} {xs : List α}, H c.source xs → c.index = n →
      At again l true plan (locate c) n (Form.each.offersFrom n xs)) (n : Nat) {c : Walk J Unit G}
    (hsource : H c.source xs) (hindex : c.index = passed.length)
    (h : Through plan again ws.2.ledger [] [] passed (Form.each.offersFrom passed.length xs)) :
    (Job.located locate (Walk.next ((kit calls again summand).plainScan next) n c) ws).Ensures (fun _ => True)
      fun r ws => (passage plan again).under r.1 r.2 ws := by
  refine (walk_passes hnext ?_ ?_ n c ws xs passed hsource hindex h).bind fun r ws hr => hr.mono ?_
  · exact fun q x i ws passed left h => unfiltered_decided rfl h
  · exact fun g x i ws passed left h => step_passes calls summand g h
  · rintro i _ ⟨xs, hsource, hindex, rfl⟩
    exact hlocate hsource hindex

end Walks

theorem find_passes (n : Nat) (rest : Job.Rest I α P G) (ws : U × Post α) (h : (passage plan again).ahead rest ws) :
    (rest.find (kit calls again summand) n ws).Ensures (fun _ => True) fun r ws =>
      (passage plan again).under r.1 r.2 ws := by
  obtain ⟨passed, left, hat, h⟩ := h
  cases hat with
  | @iterate form source _ _ _ hsource hindex =>
    exact scan_passes (feeds_asked calls summand (.iterate form source) rfl).ahead .iterate n hsource hindex h
  | @list form elements _ _ _ hsource hindex =>
    exact scan_passes (feeds_list (.list form elements) fun _ => trivial).ahead .list n hsource hindex h
  | @range filtered start stop _ _ =>
    have hended : ∀ l : List (Entry α), Ended (I := I) again l (.range filtered start stop) := fun _ => trivial
    refine (range_walk_passes hended ?_ ?_ _ ws passed h).bind fun r ws hr => hr.mono ?_
    · intro q i ws passed left h
      cases filtered with
      | false => exact unfiltered_decided rfl h
      | true => exact test_decided calls summand rfl q h
    · exact fun g i ws passed left h => step_passes calls summand g h
    · rintro i _ rfl
      exact .range
  | @chain _ g _ xs hended =>
    cases xs with
    | nil => exact ⟨passed, h, hended⟩
    | cons x xs =>
      have hpasses := step_passes calls summand g (o := Form.each.offer x passed.length) h
      refine (hpasses.and (step_keeps calls summand g _ ws)).bind fun r ws hr => ?_
      exact ⟨_, passed, _, .chain (hr.2.1 ▸ hended), hr.1⟩
  | @sum source _ _ _ _ hsource hindex =>
    exact plain_scan_passes (feeds_asked calls summand (.sum source) rfl).ahead.ahead .sum n hsource hindex h
  | @sumList elements _ _ _ _ hsource hindex =>
    exact plain_scan_passes (feeds_list (.sumList elements) fun _ => trivial).ahead.ahead .sumList n hsource hindex h
  | @sumRange start stop _ _ _ =>
    have hended : ∀ l : List (Entry α), Ended (I := I) again l (.sumRange start stop) := fun _ => trivial
    refine (range_walk_passes hended ?_ ?_ _ ws passed h).bind fun r ws hr => hr.mono ?_
    · exact fun q i ws passed left h => unfiltered_decided rfl h
    · exact fun g i ws passed left h => step_passes calls summand g h
    · rintro i _ rfl
      exact .sumRange
  | @several elements _ _ _ hsource hindex =>
    exact plain_scan_passes (feeds_list (.apply elements) fun _ => trivial).ahead .several n hsource hindex h
  | @drive g _ hagain =>
    have hpasses := step_passes calls summand g (o := .turn) h
    refine (hpasses.and (step_keeps calls summand g _ ws)).bind fun r ws hr => ?_
    exact ⟨_, passed, _, .drive (hr.2.2 ▸ hagain), hr.1⟩
  | last hplan hended => exact ⟨passed, h, hended⟩

/-! ## The values of steps -/

/-- What a step resolves to tells only a driven loop of more elements. -/
theorem offers_taken (hplan : plan.isDrive = false) (l : List (Entry α)) (c : Int64) (message : Outcome Value) :
    offers plan again (.taken c message :: l) = offers plan again l := by
  cases message <;> cases plan <;> first | rfl | cases hplan

theorem repeats_taken {l : List (Entry α)} (h : ∀ v ∈ values l, again v = true) (c : Int64) (v : Value) :
    repeats again (.taken c (.ok v) :: l) = repeats again l + if again v then 1 else 0 := by
  have hall : ∀ v ∈ (values l).reverse, again v = true := fun v hv => h v (List.mem_reverse.1 hv)
  have hlater : ((values l).reverse ++ [v]).takeWhile again = (values l).reverse ++ [v].takeWhile again :=
    List.takeWhile_append_of_pos hall
  rw [repeats, values, List.reverse_cons, hlater, List.length_append, repeats, List.takeWhile_eq_self_iff.2 hall]
  cases hv : again v <;> simp [hv]

theorem Ended.taken (hplan : plan.isDrive = false) {l : List (Entry α)} (h : Ended again l plan) (c : Int64)
    (message : Outcome Value) : Ended again (.taken c message :: l) plan := by
  cases plan <;> first | exact h | cases hplan

/-- Where a job goes on after its step has resolved to a value, or that nothing is left then. -/
theorem At.absorb {l : List (Entry α)} {rest : Job.Rest I α P G} {n : Nat} {left : List (Offer α)}
    (h : At again l true plan rest n left) (summand : Value → Int32) (c : Int64) (v : Value) :
    ∃ later, offers plan again (.taken c (.ok v) :: l) = offers plan again l ++ later ∧
      match (Job.course again summand).absorb rest v with
      | some rest => At again (.taken c (.ok v) :: l) false plan rest n (left ++ later)
      | none => left ++ later = [] ∧ Ended again (.taken c (.ok v) :: l) plan := by
  cases hplan : plan.isDrive with
  | false =>
    refine ⟨[], by rw [List.append_nil, offers_taken hplan], ?_⟩
    rw [List.append_nil]
    cases h with
    | iterate hsource hindex => exact .iterate hsource hindex
    | list hsource hindex => exact .list hsource hindex
    | range => exact .range
    | @chain _ _ _ xs hended =>
      cases xs with
      | nil => exact ⟨rfl, hended⟩
      | cons x xs => exact .chain hended
    | sum hsource hindex => exact .sum hsource hindex
    | sumList hsource hindex => exact .sumList hsource hindex
    | sumRange => exact .sumRange
    | several hsource hindex => exact .several hsource hindex
    | drive => cases hplan
    | last hplan hended => exact ⟨rfl, hended.taken hplan c (.ok v)⟩
  | true =>
    cases h with
    | @drive g _ hagain =>
      cases hv : again v with
      | true =>
        refine ⟨[.turn], ?_, ?_⟩
        · rw [offers, Plan.offers, repeats_taken hagain, hv, offers, Plan.offers, List.replicate_succ']
          rfl
        · simp only [Job.course, hv, if_true]
          exact .drive (List.forall_mem_cons.2 ⟨hv, hagain⟩)
      | false =>
        refine ⟨[], ?_, ?_⟩
        · rw [offers, Plan.offers, repeats_taken hagain, hv, List.append_nil]
          rfl
        · simp only [Job.course, hv]
          exact ⟨rfl, v, List.mem_cons_self, hv⟩
    | last hnot hended =>
      rw [hnot] at hplan
      cases hplan
    | _ => cases hplan

theorem receive_passes (c : Int64) (rest : Job.Rest I α P G) (ws : U × Post α)
    (h : (passage plan again).under (.step c) rest ws) :
    (receive c ws).Ensures (fun _ => True) ((passage plan again).answered (Job.course again summand) rest) := by
  obtain ⟨u, p⟩ := ws
  cases hbox : (p.world.mailbox c).content with
  | none =>
    rw [receive_of_empty hbox]
    exact h
  | some message =>
    rw [receive_of_full hbox]
    obtain ⟨o, passed, left, hat, h⟩ := h
    cases message with
    | error e => exact ⟨passed, o, left, Or.inr (h.fail c e)⟩
    | ok v =>
      obtain ⟨later, hlater, hat⟩ := hat.absorb summand c v
      have htaken := h.take c v hlater
      change (passage plan again).judged ((Job.course again summand).judge rest (.ok (.ok v))) _
      cases habsorb : (Job.course again summand).absorb rest v with
      | none =>
        rw [habsorb] at hat
        simp only [Course.judge, habsorb]
        rw [hat.1] at htaken
        exact ⟨_, htaken, hat.2⟩
      | some rest' =>
        rw [habsorb] at hat
        simp only [Course.judge, habsorb]
        exact ⟨(o, true) :: passed, _, hat, htaken⟩

theorem passage_upheld (n : Nat) : (passage plan again).Upheld
    (Job.course (kit calls again summand).isTrue (kit calls again summand).summand)
    (Job.Rest.find (I := I) (P := P) (kit calls again summand) n) (kit calls again summand).poll where
  find := find_passes n
  poll := receive_passes
  nothing _ _ h := h
  failed _ _ _ h := h
  halt _ _ _ := trivial

/-! ## Making a job -/

section Sources

variable {form : Form} {next : Next (U × Post α) J α} {H : J → List α → Prop} {source : J} {xs : List α}
  {ws : U × Post α}

theorem of_source_passes (hnext : Feeds plan again form next H) (hplan : plan.isDrive = false) (hsource : H source xs)
    (h : Through plan again ws.2.ledger [] [] [] (form.offersFrom 0 xs)) (filter : Q) (consumer : G)
    {locate : Walk (Lookahead J α) Q G → Job.Rest I α P G}
    (hlocate : ∀ {l : List (Entry α)} {c : Walk (Lookahead J α) Q G} {n : Nat} {xs : List α}, Ahead H c.source xs →
      c.index = n → At again l false plan (locate c) n (form.offersFrom n xs)) (total : Option Int32) :
    ((Loop.ofSource next source filter consumer : Effect _ (Loop _ Int64)) ws).Ensures (fun _ => True)
      fun l => (passage plan again).stands (Job.viewLoop locate total l) := by
  refine (hnext.peek hsource h).bind ?_
  rintro ⟨first, a⟩ ws hr
  cases first with
  | none => exact ⟨[], [], .last hplan hr.2, hr.1⟩
  | some x =>
    obtain ⟨xs, hxs, hr⟩ := hr
    exact ⟨[], _, hlocate hxs rfl, hr⟩

theorem sum_of_source_passes (hnext : Feeds plan again form next H) (hplan : plan.isDrive = false)
    (hsource : H source xs) (h : Through plan again ws.2.ledger [] [] [] (form.offersFrom 0 xs)) (consumer : G)
    {locate : Int32 → Walk (Lookahead (Lookahead J α) α) Unit G → Job.Rest I α P G}
    (hlocate : ∀ {l : List (Entry α)} {s : Int32} {c : Walk (Lookahead (Lookahead J α) α) Unit G} {n : Nat}
      {xs : List α}, Ahead (Ahead H) c.source xs → c.index = n →
        At again l false plan (locate s c) n (form.offersFrom n xs)) :
    ((Summation.ofSource next source consumer : Effect _ (Summation (Loop _ Int64))) ws).Ensures (fun _ => True)
      fun s => (passage plan again).stands (Job.viewSum locate s) := by
  refine (hnext.peek hsource h).bind ?_
  rintro ⟨first, a⟩ ws hr
  cases first with
  | none => exact ⟨[], [], .last hplan hr.2, hr.1⟩
  | some x =>
    obtain ⟨xs, hxs, hr⟩ := hr
    exact (of_source_passes hnext.ahead hplan hxs hr () consumer hlocate (some 0)).bind fun l ws hl => hl

end Sources

/-- A chain is made of all elements of the source. -/
theorem pull_passes (calls : Nest.Calls U I α P G Int64) (again : Value → Bool) (summand : Value → Int32)
    (source : I) (consumer : G) (n : Nat) (j : I) (xs : List α) (tower : Tower α Int64) (ws : U × Post α)
    (htower : ∀ above, (Job.viewTower consumer tower above : Course.State (Job.Rest I α P G) Int64) =
      .ahead (.chain consumer (xs ++ above)))
    (h : Through (.chain source) again ws.2.ledger [] [] [] (Form.each.offersFrom 0 xs)) :
    (Chain.pull (kit calls again summand).next n j tower ws).Ensures (fun _ => True) fun tower =>
      (passage (P := P) (.chain source) again).stands (Job.viewTower consumer tower []) := by
  induction n generalizing j xs tower ws with
  | zero => trivial
  | succ n ih =>
    rw [Chain.pull, kit, bind_assoc]
    refine (Ending.Ensures.within_of (R := fun p : Post α => Through (.chain source) again p.ledger [] [] []
      (Form.each.offersFrom 0 xs)) (calls.next j) h).result.bind ?_
    rintro ⟨entry, j⟩ ws h
    cases entry with
    | none =>
      change (passage (P := P) (.chain source) again).stands (Job.viewTower consumer tower []) _
      rw [htower, List.append_nil]
      exact ⟨[], _, .chain List.mem_cons_self, h.gave_none⟩
    | some x =>
      refine ih j (xs ++ [x]) (.first tower x) _ (fun above => ?_) ?_
      · rw [Job.viewTower, htower, List.append_assoc]
        rfl
      · have hasks : (Plan.chain source : Plan I α).Asks Form.each := rfl
        have hgave := h.gave_some hasks x
        rw [Form.length_offersFrom] at hgave
        rw [Form.offersFrom_append]
        exact hgave

theorem start_passes (plan : Plan I α) (again : Value → Bool) (n : Nat) (filter : P) (consumer : G) (u : U) :
    (Job.start (kit calls again summand).next (kit calls again summand).step n plan filter consumer
      (u, {})).Ensures (fun _ => True) fun j => (passage plan again).stands j.view := by
  have hstart := Through.start plan again
  cases plan with
  | iterate form source =>
    exact (of_source_passes (feeds_asked calls summand (.iterate form source) rfl) rfl rfl hstart filter
      consumer .iterate none).bind fun l ws hl => hl
  | list form elements =>
    exact (of_source_passes (feeds_list (.list form elements) fun _ => trivial) rfl rfl hstart filter
      consumer .list none).bind fun l ws hl => hl
  | range filtered start stop =>
    change (passage (.range filtered start stop) again).stands
      (Job.viewLoop (.range filtered) none (Loop.ofRange start stop filter consumer)) _
    by_cases hle : stop ≤ start
    · rw [Loop.ofRange, if_pos hle]
      rw [Plan.offers, integers_of_not_lt (Int32.not_lt.2 hle)] at hstart
      exact ⟨[], [], .last rfl trivial, hstart⟩
    · rw [Loop.ofRange, if_neg hle]
      exact ⟨[], _, .range, hstart⟩
  | chain source =>
    have hpull := pull_passes calls again summand source consumer n source [] .ground (u, {}) (fun above => rfl) hstart
    refine Ending.Ensures.bind (Q := fun c : Chain α G Int64 =>
      (passage (.chain source) again).stands (Job.viewTower c.consumer c.tower [])) ?_ fun c ws hc => hc
    exact hpull.bind fun tower ws h => h
  | sum source =>
    exact (sum_of_source_passes (feeds_asked calls summand (.sum source) rfl) rfl rfl hstart consumer .sum).bind
      fun s ws hs => hs
  | sumList elements =>
    exact (sum_of_source_passes (feeds_list (.sumList elements) fun _ => trivial) rfl rfl hstart consumer
      .sumList).bind fun s ws hs => hs
  | sumRange start stop =>
    change (passage (.sumRange start stop) again).stands
      (Job.viewSum .sumRange (Summation.ofRange start stop consumer)) _
    by_cases hle : stop ≤ start
    · rw [Summation.ofRange, if_pos hle]
      rw [Plan.offers, integers_of_not_lt (Int32.not_lt.2 hle)] at hstart
      exact ⟨[], [], .last rfl trivial, hstart⟩
    · rw [Summation.ofRange, if_neg hle, Loop.ofRange, if_neg hle]
      exact ⟨[], _, .sumRange, hstart⟩
  | apply elements =>
    refine Ending.Ensures.bind (Q := fun a => (passage (P := P) (.apply elements) again).stands (Job.view (.apply a)))
      ?_ fun a ws ha => ha
    cases elements with
    | nil => exact ⟨[], [], .last rfl trivial, hstart⟩
    | cons x rest =>
      cases rest with
      | nil =>
        have hdecided : Decided (.apply [x] : Plan I α) again [] (Form.each.offer x 0) [] [] (.ok true) := hstart
        have hpasses : ((kit calls again summand).step consumer (Form.each.offer x 0).step (u, {})).Ensures _ _ :=
          step_passes calls summand consumer hdecided
        refine hpasses.bind fun r ws hr => ?_
        exact ⟨_, [], [], .last rfl trivial, hr⟩
      | cons y rest =>
        exact (of_source_passes (feeds_list (.apply (x :: y :: rest)) fun _ => trivial) rfl rfl hstart
          () consumer .several none).bind fun l ws hl => hl
  | drive => exact ⟨[], _, .drive (List.forall_mem_nil _), hstart⟩

end Steps

/-! ## Seats -/

/-- How far a job has come after its latest answer. -/
def Along (plan : Plan I α) (again : Value → Bool) (s : Seat (Job I α P G Int64)) (ws : U × Post α) : Prop :=
  match s.answer with
  | none => (passage plan again).stands s.job.view ws
  | some (.ready o) => (passage (P := P) (G := G) plan again).resolved o ws
  | some _ => ∃ c rest, s.job.view = .under (.step c) rest ∧ (passage plan again).under (.step c) rest ws

/-- How far a job has come, whatever its place is: which elements it has passed after its latest answer. -/
def Covered (plan : Plan I α) (again : Value → Bool) (l : List (Entry α)) : Option (Poll (Option Int32)) → Prop
  | none => ∃ passed left, Through plan again l [] [] passed left
  | some (.ready (.ok _)) => Finished plan again l
  | some (.ready (.error e)) => Failed plan again e l
  | some _ => ∃ o passed left, Through plan again l [] [] ((o, true) :: passed) left

section Seats

variable {plan : Plan I α} {again : Value → Bool} {summand : Value → Int32} {calls : Nest.Calls U I α P G Int64}
  {s : Seat (Job I α P G Int64)} {ws : U × Post α}

theorem Along.stands (h : Along plan again s ws) (hover : s.isOver = false) :
    (passage plan again).stands s.job.view ws := by
  obtain ⟨job, answer⟩ := s
  match answer with
  | none => exact h
  | some .pending =>
    obtain ⟨c, rest, hview, h⟩ := h
    rw [hview]
    exact h
  | some (.ready _) => cases hover
  | some (.panicked _) => cases hover

theorem Along.polled {job : Job I α P G Int64} {r : Poll (Option Int32) × Job I α P G Int64}
    (h : Job.Polled (passage plan again) job r ws) : Along plan again { job := r.2, answer := some r.1 } ws := by
  obtain ⟨answer, job'⟩ := r
  cases answer with
  | pending => exact h
  | panicked cause => exact h
  | ready o => exact h.1

theorem Along.transfer {ws' : U × Post α} (h : Along plan again s ws)
    (hahead : ∀ rest, (passage (P := P) (G := G) plan again).ahead rest ws → (passage plan again).ahead rest ws')
    (hunder : ∀ found rest, (passage (P := P) (G := G) plan again).under found rest ws →
      (passage plan again).under found rest ws')
    (hresolved : ∀ o, (passage (P := P) (G := G) plan again).resolved o ws →
      (passage (P := P) (G := G) plan again).resolved o ws') : Along plan again s ws' := by
  obtain ⟨job, answer⟩ := s
  match answer with
  | none => exact Course.Invariant.stands_mono h hahead hunder
  | some .pending =>
    obtain ⟨c, rest, hview, h⟩ := h
    exact ⟨c, rest, hview, hunder _ _ h⟩
  | some (.panicked cause) =>
    obtain ⟨c, rest, hview, h⟩ := h
    exact ⟨c, rest, hview, hunder _ _ h⟩
  | some (.ready o) => exact hresolved o h

/-- A message that is put into a mailbox does not change how far a job has come. -/
theorem Along.received (h : Along plan again s ws) (c : Int64) (message : Outcome Value) :
    Along plan again s (ws.1, ws.2.received c message) := by
  refine h.transfer ?_ ?_ ?_
  · rintro rest ⟨passed, left, hat, h⟩
    exact ⟨passed, left, hat.transfer rfl rfl, h.put c message⟩
  · exact fun found rest h => (h.put c message).mono fun n left hat => hat.transfer rfl rfl
  · intro o h
    cases o with
    | ok v => exact Finished.put h c message
    | error e => exact Failed.put h c message

theorem poll_along (n : Nat) (h : Along plan again s ws) (hover : s.isOver = false) :
    (Job.poll (kit calls again summand) n s.job (ws.1, ws.2.begun)).Ensures (fun _ => True) fun r =>
      Along plan again { job := r.2, answer := some r.1 } := by
  have hbegun : (passage plan again).stands s.job.view (ws.1, ws.2.begun) :=
    Course.Invariant.stands_mono (h.stands hover) (fun _ h => h) fun _ _ h => h
  exact (Job.poll_upheld (passage_upheld n) s.job _ hbegun).mono (fun _ h => h) fun r ws hr => Along.polled hr

theorem perform_along (n : Nat) (action : Action U) (h : Along plan again s ws) :
    (perform (kit calls again summand) n s action ws).Ensures (fun _ => True) (Along plan again) := by
  refine perform_ensures h (fun hover => poll_along n h hover) (fun c message _ => h.received c message)
    (fun u => ?_) action
  exact h.transfer (fun _ h => h) (fun _ _ h => h) fun _ h => h

theorem run_along (calls : Nest.Calls U I α P G Int64) (again : Value → Bool) (summand : Value → Int32) (n : Nat)
    (plan : Plan I α) (filter : P) (consumer : G) (actions : List (Action U)) (u : U) :
    (run (kit calls again summand) n plan filter consumer actions (u, {})).Ensures (fun _ => True)
      (Along plan again) :=
  (start_passes plan again n filter consumer u).bind fun _ _ h =>
    actions_ensures (K := Along plan again) (fun _ _ => perform_along n) actions h

theorem Along.covered {B : Post α → Int64 → Prop} (h : Along plan again s ws) (hstanding : Standing B s ws) :
    Covered plan again ws.2.ledger s.answer := by
  obtain ⟨job, answer⟩ := s
  match answer with
  | none =>
    obtain ⟨rest, hview, -⟩ | ⟨c, rest, hview, -⟩ := Terms.fresh_cases hstanding
    · obtain ⟨passed, left, -, h⟩ : (passage plan again).stands (.ahead rest) ws := hview ▸ h
      exact ⟨passed, left, h⟩
    · obtain ⟨o, passed, left, -, h⟩ : (passage plan again).stands (.under (.step c) rest) ws := hview ▸ h
      exact ⟨_, left, h⟩
  | some .pending =>
    obtain ⟨c, rest, -, o, passed, left, -, h⟩ := h
    exact ⟨o, passed, left, h⟩
  | some (.panicked cause) => exact hstanding.elim
  | some (.ready (.ok v)) => exact h
  | some (.ready (.error e)) => exact h

end Seats

end Stepwise.Mail
