import Stepwise.Proofs.Job.Places
import Stepwise.Proofs.Job.Upheld

/-! # How a source is asked

A loop or a sum over a source asks it once when it is made and keeps the answer back, once more or twice over for
a sum. Whatever the source answers, also when it would go on after its end, the loop is at every moment at a place
of its scan.

* `Scanning`: the plans over a source, with or without a filter, and sums.
* `Scan.Follows`: a walk that keeps at most one answer back and calls what is recorded. `Walk.next_scanned`
  carries a place through a walk, by induction on the elements that it takes.
* `scanning`: the place and the answer that is kept back as an invariant of the job, which all its calls uphold.
* `source_discipline`: so every run is a path of the scan, at every moment, and what the polls answer is what its
  place says.
-/

namespace Stepwise
set_option autoImplicit false

variable {W I J α P Q G F β : Type}

namespace Job

/-- What runs over a source one element after the other. -/
inductive Scanning (I : Type)
  | loop (form : Form) (source : I)
  | total (source : I)

namespace Scanning

def plan : Scanning I → Plan I α
  | .loop form source => .iterate form source
  | .total source => .sum source

def form : Scanning I → Form
  | .loop form _ => form
  | .total _ => .each

/-- What it comes to when its steps have resolved to these numbers. -/
def value : Scanning I → List Int32 → Option Int32
  | .loop _ _, _ => none
  | .total _, gains => some (exactSum gains)

end Scanning

/-! ## Walks -/

/-- What holds after the filter has decided on an element. -/
def Judged (form : Form) (i : Nat) (x : α) (j : Journal α) : Outcome Bool → Prop
  | .ok true => ∀ id, Scanned form (.requested id (form.step.call x i) :: j.events) (.flying i id)
  | .ok false => Scanned form j.events (.free (i + 1))
  | .error e => Scanned form j.events (.failed i e)

/-- Where a walk stands that has found this. -/
def FoundAt (form : Form) (j : Journal α) : Found (Nat × F) → Nat → Prop
  | .step x, taken => ∃ i, taken = i + 1 ∧ Scanned form j.events (.flying i x.1)
  | .nothing, _ => ∃ count, Scanned form j.events (.ended count)
  | .failed e, _ => ∃ i, Scanned form j.events (.failed i e)

/-- The journal is that of a scan. -/
def Journal.Scanned (form : Form) (j : Journal α) : Prop := ∃ p, Job.Scanned form j.events p

end Job

open Job (Journal)

/-- The walk asks a source that is recorded and calls what is recorded. `H seen source` says that the source
keeps back the answer `seen`, if any. -/
structure Scan.Follows (b : Scan (W × Journal α) J α Q G (Nat × F)) (k : Kit W I α P G F β) (form : Form)
    (H : Option (Option α) → J → Prop) : Prop where
  pull : ∀ source w j, H none source →
    (b.next source (w, j)).Ensures (fun ws => ws.2 = j.note .asked)
      fun r ws => ws.2 = (j.note .asked).note (.gave r.1) ∧ H none r.2
  kept : ∀ source entry, H (some entry) source →
    ∃ source', H none source' ∧ b.next source = pure (entry, source')
  test : ∀ q x i w j, Job.Scanned form j.events (.given i x) →
    (b.test q x i (w, j)).Ensures (fun ws => ws.2.Scanned form)
      fun r ws => Job.gains ws.2.events = Job.gains j.events ∧ Job.Judged form i x ws.2 r.1
  step : ∀ g x i, b.step g x i = k.recorded.step g (form.step.call x i)

/-- What a walk does with an element that it has taken. -/
def Walk.handle (b : Scan W J α Q G F) (n : Nat) (c : Walk J Q G) (x : α) :
    Effect W (Found F × Walk J Q G) := do
  let (verdict, filter) ← b.test c.filter x c.index
  match verdict with
  | .ok true => do
    let (step, consumer) ← b.step c.consumer x c.index
    pure (.step step, { c with filter, consumer, index := c.index + 1 })
  | .ok false => Walk.next b n { c with filter, index := c.index + 1 }
  | .error e => pure (.failed e, { c with filter, index := c.index + 1 })

theorem Walk.next_succ (b : Scan W J α Q G F) (n : Nat) (c : Walk J Q G) :
    Walk.next b (n + 1) c = (do
      let (entry, source) ← b.next c.source
      match entry with
      | none => pure (.nothing, { c with source })
      | some x => Walk.handle b n { c with source } x) := rfl

section Walks

variable {b : Scan (W × Journal α) J α Q G (Nat × F)} {k : Kit W I α P G F β} {form : Form}
  {H : Option (Option α) → J → Prop}

/-- Where a walk may begin: the source keeps its first element back, or it has to be asked. -/
def Walk.Begun (form : Form) (H : Option (Option α) → J → Prop) (c : Walk J Q G) (j : Journal α) : Prop :=
  H none c.source ∧ Job.Scanned form j.events (.free c.index) ∨
    ∃ x, H (some (some x)) c.source ∧ Job.Scanned form j.events (.given c.index x)

/-- Where a walk ends. -/
def Walk.Ended (form : Form) (H : Option (Option α) → J → Prop) (gains : List Int32)
    (r : Found (Nat × F) × Walk J Q G) (j : Journal α) : Prop :=
  Job.gains j.events = gains ∧ H none r.2.source ∧ Job.FoundAt form j r.1 r.2.index

theorem Walk.handle_scanned (hb : b.Follows k form H) (n : Nat) (c : Walk J Q G) (x : α) (w : W)
    (j : Journal α) (hsource : H none c.source) (hgiven : Job.Scanned form j.events (.given c.index x))
    (hnext : ∀ (c : Walk J Q G) w j, Walk.Begun form H c j → (Walk.next b n c (w, j)).Ensures
      (fun ws => ws.2.Scanned form) fun r ws => Walk.Ended form H (Job.gains j.events) r ws.2) :
    (Walk.handle b n c x (w, j)).Ensures (fun ws => ws.2.Scanned form)
      fun r ws => Walk.Ended form H (Job.gains j.events) r ws.2 := by
  refine (hb.test c.filter x c.index w j hgiven).bind ?_
  rintro ⟨verdict, filter⟩ ⟨w, j'⟩ ⟨hgains, hjudged⟩
  cases verdict with
  | error e => exact ⟨hgains, hsource, c.index, hjudged⟩
  | ok accepted =>
    cases accepted with
    | false =>
      rw [← hgains]
      exact hnext { c with filter, index := c.index + 1 } w j' (.inl ⟨hsource, hjudged⟩)
    | true =>
      have hstep := (k.recorded_step w j' c.consumer (form.step.call x c.index))
      rw [← hb.step] at hstep
      refine (hstep.mono ?_ fun _ _ h => h).bind ?_
      · rintro ⟨w, j⟩ rfl
        exact ⟨_, hjudged j'.fresh⟩
      · rintro ⟨⟨id, y⟩, g⟩ ⟨w, j⟩ ⟨rfl, rfl⟩
        exact ⟨by simpa [Journal.request, Journal.note] using hgains, hsource, c.index, rfl, hjudged j'.fresh⟩

theorem Walk.next_scanned (hb : b.Follows k form H) (n : Nat) (c : Walk J Q G) (w : W) (j : Journal α)
    (h : c.Begun form H j) :
    (Walk.next b n c (w, j)).Ensures (fun ws => ws.2.Scanned form)
      fun r ws => Walk.Ended form H (Job.gains j.events) r ws.2 := by
  induction n generalizing c w j with
  | zero =>
    obtain ⟨-, hfree⟩ | ⟨x, -, hgiven⟩ := h
    · exact ⟨_, hfree⟩
    · exact ⟨_, hgiven⟩
  | succ n ih =>
    rw [Walk.next_succ]
    obtain ⟨hsource, hfree⟩ | ⟨x, hsource, hgiven⟩ := h
    · have hasking := hfree.move (.ask c.index)
      refine ((hb.pull c.source w j hsource).mono ?_ fun _ _ h => h).bind ?_
      · rintro ⟨w, j⟩ rfl
        exact ⟨_, hasking⟩
      · rintro ⟨entry, source⟩ ⟨w, j'⟩ ⟨rfl, hsource'⟩
        cases entry with
        | none => exact ⟨by simp [Journal.note], hsource', c.index, hasking.move (.finish c.index)⟩
        | some x =>
          have hgiven := hasking.move (.element c.index x)
          have hrest := Walk.handle_scanned hb n { c with source } x w ((j.note .asked).note (.gave (some x)))
            hsource' hgiven ih
          simpa [Journal.note] using hrest
    · obtain ⟨source, hsource', hkept⟩ := hb.kept c.source (some x) hsource
      rw [hkept]
      exact Walk.handle_scanned hb n { c with source } x w j hsource' hgiven ih

end Walks

/-! ## The scans of jobs -/

theorem Kit.recorded_pull (k : Kit W I α P G F β) (a : Lookahead I α) (w : W) (j : Journal α) (h : a.seen = none) :
    (Lookahead.next k.recorded.next a (w, j)).Ensures (fun ws => ws.2 = j.note .asked)
      fun r ws => ws.2 = (j.note .asked).note (.gave r.1) ∧ r.2.seen = none := by
  rw [Lookahead.next, h]
  exact (k.recorded_next w j a.source).bind fun r ws hws => ⟨hws, rfl⟩

theorem Lookahead.next_of_seen (next : Next W I α) {a : Lookahead I α} {entry : Option α}
    (h : a.seen = some entry) : Lookahead.next next a = pure (entry, { a with seen := none }) := by
  rw [Lookahead.next, h]

theorem Kit.scan_follows (k : Kit W I α P G F β) (form : Form) :
    (k.recorded.scan form (Lookahead.next k.recorded.next)).Follows k form fun seen a => a.seen = seen where
  pull a w j h := k.recorded_pull a w j h
  kept a entry h := ⟨_, rfl, Lookahead.next_of_seen _ h⟩
  test q x i w j h := by
    cases hform : form.test with
    | none =>
      simp only [Kit.scan, hform]
      exact ⟨rfl, fun id => h.move (.pass hform i id x)⟩
    | some arguments =>
      have htesting := h.move (.test hform i x)
      simp only [Kit.scan, hform]
      refine (k.recorded_test w j q (arguments.call x i)).mono ?_ ?_
      · rintro ⟨w, j'⟩ rfl
        exact ⟨_, htesting⟩
      · rintro ⟨verdict, q⟩ ⟨w, j'⟩ rfl
        refine ⟨by simp [Journal.note], ?_⟩
        cases verdict with
        | error e => exact htesting.move (.refuse i x e)
        | ok accepted =>
          cases accepted with
          | false => exact htesting.move (.reject i x)
          | true => exact fun id => (htesting.move (.accept i x)).move (.request i id x)
  step g x i := rfl

theorem Kit.plainScan_follows (k : Kit W I α P G F β) :
    (k.recorded.plainScan (Lookahead.next (Lookahead.next k.recorded.next))).Follows k .each
      fun seen a => ∃ b : Lookahead I α, a = b.twice ∧ b.seen = seen where
  pull a w j := by
    rintro ⟨b, rfl, hb⟩
    change (Lookahead.next (Lookahead.next k.recorded.next) b.twice (w, j)).Ensures _ _
    rw [Lookahead.next_twice]
    exact (k.recorded_pull b w j hb).bind fun r ws hws => ⟨hws.1, r.2, rfl, hws.2⟩
  kept a entry := by
    rintro ⟨b, rfl, hb⟩
    refine ⟨_, ⟨{ b with seen := none }, rfl, rfl⟩, ?_⟩
    change Lookahead.next (Lookahead.next k.recorded.next) b.twice = _
    rw [Lookahead.next_twice, Lookahead.next_of_seen _ hb, pure_bind]
  test q x i w j h := ⟨rfl, fun id => h.move (.pass rfl i id x)⟩
  step g x i := rfl

namespace Job

/-- Where a job over a source is: what it keeps back, and how many elements it has taken. A sum has come to the
sum of what its steps have resolved to. -/
inductive At (gains : List Int32) (seen : Option (Option α)) (taken : Nat) : Scanning I → Rest I α P G → Prop
  | loop {form : Form} {source : I} {c : Walk (Lookahead I α) P G} (hseen : c.source.seen = seen)
      (htaken : c.index = taken) : At gains seen taken (.loop form source) (.iterate form c)
  | total {source : I} {c : Walk (Lookahead (Lookahead I α) α) Unit G}
      (hseen : ∃ b : Lookahead I α, c.source = b.twice ∧ b.seen = seen) (htaken : c.index = taken) :
      At gains seen taken (.total source) (.sum (exactSum gains) c)

/-- No step is under way: the next element has to be asked for, or it is the first one and was kept back. -/
def Ahead (scan : Scanning I) (rest : Rest I α P G) (j : Journal α) : Prop :=
  (∃ i, At (gains j.events) none i scan rest ∧ Scanned scan.form j.events (.free i)) ∨
    ∃ x, At (gains j.events) (some (some x)) 0 scan rest ∧ Scanned scan.form j.events (.given 0 x)

def Under (scan : Scanning I) (found : Found (Nat × F)) (rest : Rest I α P G) (j : Journal α) : Prop :=
  ∃ taken, At (gains j.events) none taken scan rest ∧ FoundAt scan.form j found taken

def Concluded (scan : Scanning I) (o : Outcome (Option Int32)) (j : Journal α) : Prop :=
  match o with
  | .ok v => v = scan.value (gains j.events) ∧ ∃ count, Scanned scan.form j.events (.ended count)
  | .error e => ∃ i, Scanned scan.form j.events (.failed i e)

/-- The place of a scan and of the job that makes it. -/
def scanning (scan : Scanning I) : Course.Invariant (W × Journal α) (Rest I α P G) (Nat × F) (Option Int32) where
  ahead rest ws := Ahead scan rest ws.2
  under found rest ws := Under scan found rest ws.2
  resolved o ws := Concluded scan o ws.2
  halted ws := ws.2.Scanned scan.form

theorem find_scanned (k : Kit W I α P G F β) (fuel : Nat) {scan : Scanning I} {rest : Rest I α P G} (w : W)
    (j : Journal α) (h : Ahead scan rest j) :
    (rest.find k.recorded fuel (w, j)).Ensures (fun ws => ws.2.Scanned scan.form)
      fun r ws => Under scan r.1 r.2 ws.2 := by
  cases scan with
  | loop form source =>
    have hbegun : ∃ c, rest = .iterate form c ∧ c.Begun form (fun seen a => a.seen = seen) j := by
      obtain ⟨i, hat, hscanned⟩ | ⟨x, hat, hscanned⟩ := h
      · cases hat with
        | loop hseen htaken => subst htaken; exact ⟨_, rfl, .inl ⟨hseen, hscanned⟩⟩
      · cases hat with
        | @loop _ _ c hseen htaken =>
          rw [← htaken] at hscanned
          exact ⟨c, rfl, .inr ⟨x, hseen, hscanned⟩⟩
    obtain ⟨c, rfl, hc⟩ := hbegun
    refine (Walk.next_scanned (k.scan_follows form) fuel c w j hc).bind fun r ws hr => ?_
    obtain ⟨-, hseen, hfound⟩ := hr
    exact ⟨r.2.index, .loop hseen rfl, hfound⟩
  | total source =>
    have hbegun : ∃ c, rest = .sum (exactSum (gains j.events)) c ∧
        c.Begun .each (fun seen a => ∃ b : Lookahead I α, a = b.twice ∧ b.seen = seen) j := by
      obtain ⟨i, hat, hscanned⟩ | ⟨x, hat, hscanned⟩ := h
      · cases hat with
        | total hseen htaken => subst htaken; exact ⟨_, rfl, .inl ⟨hseen, hscanned⟩⟩
      · cases hat with
        | @total _ c hseen htaken =>
          rw [← htaken] at hscanned
          exact ⟨c, rfl, .inr ⟨x, hseen, hscanned⟩⟩
    obtain ⟨c, rfl, hc⟩ := hbegun
    refine (Walk.next_scanned k.plainScan_follows fuel c w j hc).bind fun r ws hr => ?_
    obtain ⟨hgains, hseen, hfound⟩ := hr
    rw [← hgains]
    exact ⟨r.2.index, .total hseen rfl, hfound⟩

theorem At.total_eq {gained : List Int32} {seen : Option (Option α)} {taken : Nat} {scan : Scanning I}
    {rest : Rest I α P G} (h : At gained seen taken scan rest) (isTrue : β → Bool) (summand : β → Int32) :
    (course isTrue summand).total rest = scan.value gained := by
  cases h <;> rfl

/-- A step that resolves to a value leaves the job where it can go on. -/
theorem At.absorb {gained : List Int32} {seen : Option (Option α)} {taken : Nat} {scan : Scanning I}
    {rest : Rest I α P G} (h : At gained seen taken scan rest) (isTrue : β → Bool) (summand : β → Int32)
    (b : β) : ∃ rest', (course isTrue summand).absorb rest b = some rest' ∧
      At (gained ++ [summand b]) seen taken scan rest' := by
  cases h with
  | loop hseen htaken => exact ⟨_, rfl, .loop hseen htaken⟩
  | total hseen htaken => exact ⟨_, rfl, exactSum_concat gained (summand b) ▸ .total hseen htaken⟩

theorem scanning_upheld (k : Kit W I α P G F β) (scan : Scanning I) (fuel : Nat) :
    (scanning scan).Upheld (course k.isTrue k.summand) (Rest.find (P := P) k.recorded fuel) k.recorded.poll where
  find rest ws h := find_scanned k fuel ws.1 ws.2 h
  poll y rest ws h := by
    obtain ⟨w, j⟩ := ws
    obtain ⟨_, hat, i, rfl, hflying⟩ := h
    have hpolling := hflying.move (.poll i y.1)
    refine (k.recorded_poll w j y).mono ?_ ?_
    · rintro ⟨w, j'⟩ rfl
      exact ⟨_, hpolling⟩
    · rintro ⟨answer, id, z⟩ ⟨w, j'⟩ ⟨rfl, hid⟩
      obtain rfl : id = y.1 := hid
      cases answer with
      | pending => exact ⟨i + 1, by simpa [Journal.note, Poll.map] using hat, i, rfl, hpolling.move (.wait i _)⟩
      | panicked cause =>
        exact ⟨i + 1, by simpa [Journal.note, Poll.map] using hat, i, rfl, hpolling.move (.panic i _ cause)⟩
      | ready o =>
        cases o with
        | error e => exact ⟨i, hpolling.move (.fail i _ e)⟩
        | ok b =>
          obtain ⟨rest', habsorb, hat'⟩ := hat.absorb k.isTrue k.summand b
          have hjudge : (course k.isTrue k.summand).judge rest (.ok (.ok b)) = .inr rest' := by
            simp only [Course.judge, habsorb]
          change (scanning scan).judged ((course k.isTrue k.summand).judge rest (.ok (.ok b))) _
          rw [hjudge]
          refine .inl ⟨i + 1, ?_, hpolling.move (.resolve i _ (k.summand b))⟩
          simpa [Journal.note, Poll.map] using hat'
  nothing rest ws h := by
    obtain ⟨taken, hat, count, hended⟩ := h
    exact ⟨hat.total_eq k.isTrue k.summand, count, hended⟩
  failed e rest ws h := by
    obtain ⟨taken, -, i, hfailed⟩ := h
    exact ⟨i, hfailed⟩
  halt rest ws h := by
    obtain ⟨i, -, hfree⟩ | ⟨x, -, hgiven⟩ := h
    · exact ⟨_, hfree⟩
    · exact ⟨_, hgiven⟩

/-! ## Runs -/

/-- What the polls have answered so far goes with the place. -/
def Answered (value : Option Int32) (answers : List (Poll (Option Int32))) : Place α → Prop
  | .given i _ => i = 0 ∧ answers = []
  | .flying _ _ => ∀ o, .ready o ∉ answers
  | .ended count => (∀ o, .ready o ∈ answers → o = .ok value) ∧
      (.ready (.ok value) ∈ answers ∨ count = 0 ∧ answers = [])
  | .failed _ e => .ready (.error e) ∈ answers ∧ ∀ o, .ready o ∈ answers → o = .error e
  | _ => False

/-- A job that has not resolved, somewhere in a scan. -/
def StandsIn (scan : Scanning I) (x : Job I α P G (Nat × F)) (j : Journal α) : Prop :=
  match x.view with
  | .ahead rest => Ahead scan rest j
  | .under found rest => Under scan found rest j
  | .closed _ => False

theorem StandsIn.stands {scan : Scanning I} {x : Job I α P G (Nat × F)} {j : Journal α} (h : StandsIn scan x j)
    (w : W) : (scanning scan).stands x.view (w, j) := by
  unfold StandsIn at h
  cases hview : x.view <;> rw [hview] at h <;> exact h

/-- A scan that is under way or over, with what has been answered. -/
def Ran (scan : Scanning I) (y : Attended (Job I α P G (Nat × F))) (j : Journal α) : Prop :=
  (∃ p, Scanned scan.form j.events p ∧ Answered (scan.value (gains j.events)) y.answers p) ∧
    ∀ x, y.state = some x → x.hollow? = none ∧ ¬ y.Over ∧ StandsIn scan x j ∨
      y.Over ∧ ∃ cause, x.view = .closed cause

/-- A job that waits stands in its scan. -/
theorem Ran.of_waits {scan : Scanning I} {x x' : Job I α P G (Nat × F)} {answers : List (Poll (Option Int32))}
    {answer : Poll (Option Int32)} (hanswer : ∀ o, answer ≠ .ready o)
    (hover : ¬ (⟨some x, answers⟩ : Attended (Job I α P G (Nat × F))).Over) {y : Nat × F} {rest : Rest I α P G}
    (hview : x'.view = .under (.step y) rest) {w : W} {j : Journal α}
    (hunder : (scanning scan).under (.step y) rest (w, j)) : Ran scan ⟨some x', answer :: answers⟩ j := by
  have hstill : ¬ (⟨some x', answer :: answers⟩ : Attended (Job I α P G (Nat × F))).Over :=
    Attended.not_over_of_waits hanswer hover
  obtain ⟨taken, hat, i, rfl, hflying⟩ := id hunder
  refine ⟨⟨.flying i y.1, hflying, fun o ho => hstill ⟨o, ho⟩⟩, ?_⟩
  rintro x ⟨⟩
  refine .inl ⟨hollow_of_under hview, hstill, ?_⟩
  rw [StandsIn, hview]
  exact hunder

/-- What a scan has come to is its first answer. -/
theorem Concluded.answered {scan : Scanning I} {o : Outcome (Option Int32)} {j : Journal α}
    (h : Concluded scan o j) {answers : List (Poll (Option Int32))} (hopen : ∀ o, .ready o ∉ answers) :
    ∃ p, Scanned scan.form j.events p ∧ Answered (scan.value (gains j.events)) (.ready o :: answers) p := by
  have honly : ∀ o', .ready o' ∈ Poll.ready o :: answers → o' = o := by
    intro o' ho'
    rcases List.mem_cons.1 ho' with ho' | ho'
    · cases ho'; rfl
    · exact absurd ho' (hopen o')
  cases o with
  | ok v =>
    obtain ⟨rfl, count, hended⟩ := h
    exact ⟨.ended count, hended, honly, .inl List.mem_cons_self⟩
  | error e =>
    obtain ⟨i, hfailed⟩ := h
    exact ⟨.failed i e, hfailed, List.mem_cons_self, honly⟩

/-- After its answer a scan may go on to refuse. -/
theorem Answered.refuse {value : Option Int32} {answers : List (Poll (Option Int32))} {p : Place α}
    (h : Answered value answers p) {o : Outcome (Option Int32)} (ho : .ready o ∈ answers) (cause : Panic) :
    Answered value (.panicked cause :: answers) p := by
  have hready : ∀ o', .ready o' ∈ Poll.panicked cause :: answers ↔ .ready o' ∈ answers := by simp
  cases p with
  | given i x => exact absurd (h.2 ▸ ho) List.not_mem_nil
  | flying i id => exact absurd ho (h o)
  | ended count =>
    refine ⟨fun o' ho' => h.1 o' ((hready o').1 ho'), .inl ?_⟩
    rcases h.2 with hmem | ⟨-, hnil⟩
    · exact List.mem_cons_of_mem _ hmem
    · exact absurd (hnil ▸ ho) List.not_mem_nil
  | failed i e => exact ⟨List.mem_cons_of_mem _ h.1, fun o' ho' => h.2 o' ((hready o').1 ho')⟩
  | _ => exact h.elim

theorem poll_ran (k : Kit W I α P G F β) (scan : Scanning I) (fuel : Nat) (x : Job I α P G (Nat × F))
    (answers : List (Poll (Option Int32))) (w : W) (j : Journal α) (h : Ran scan ⟨some x, answers⟩ j) :
    (poll k.recorded fuel x (w, j)).Ensures (fun ws => ws.2.Scanned scan.form)
      fun r ws => Ran scan ⟨some r.2, r.1 :: answers⟩ ws.2 := by
  obtain ⟨⟨p, hscanned, hanswered⟩, hx⟩ := h
  obtain ⟨hhollow, hover, hstands⟩ | ⟨⟨o, ho⟩, cause, hview⟩ := hx x rfl
  · refine (poll_upheld (scanning_upheld k scan fuel) x (w, j) (hstands.stands w)).mono (fun _ h => h) ?_
    rintro ⟨answer, x'⟩ ws hr
    cases answer with
    | pending =>
      obtain ⟨y, rest, hview, hunder⟩ := hr
      exact .of_waits (by rintro o ⟨⟩) hover hview hunder
    | panicked cause =>
      obtain ⟨y, rest, hview, hunder⟩ := hr
      exact .of_waits (by rintro o ⟨⟩) hover hview hunder
    | ready o =>
      obtain ⟨hconcluded, hclosed | ⟨v, hv, -⟩⟩ := hr
      · refine ⟨hconcluded.answered fun o ho => hover ⟨o, ho⟩, ?_⟩
        rintro x ⟨⟩
        exact .inr ⟨⟨o, List.mem_cons_self⟩, hclosed⟩
      · rw [hhollow] at hv
        cases hv
  · rw [poll_of_closed k.recorded fuel hview]
    refine ⟨⟨p, hscanned, hanswered.refuse ho cause⟩, ?_⟩
    rintro x ⟨⟩
    exact .inr ⟨⟨o, List.mem_cons_of_mem _ ho⟩, cause, hview⟩

/-- A source that is over at once: nothing more happens, and every poll gives the value. -/
def Barren (scan : Scanning I) (y : Attended (Job I α P G (Nat × F))) (j : Journal α) : Prop :=
  j.events = [.gave none, .asked] ∧ (∀ x, y.state = some x → x.hollow? = some (scan.value [])) ∧
    (∀ o, .ready o ∈ y.answers → o = .ok (scan.value [])) ∧
    (.ready (.ok (scan.value [])) ∈ y.answers ∨ y.answers = [])

theorem poll_barren (k : Kit W I α P G F β) (scan : Scanning I) (fuel : Nat) (x : Job I α P G (Nat × F))
    (answers : List (Poll (Option Int32))) (w : W) (j : Journal α) (h : Barren scan ⟨some x, answers⟩ j) :
    (poll k.recorded fuel x (w, j)).Ensures (fun ws => ws.2.events = [.gave none, .asked])
      fun r ws => Barren scan ⟨some r.2, r.1 :: answers⟩ ws.2 := by
  obtain ⟨hevents, hx, hanswers, -⟩ := h
  rw [poll_of_hollow k.recorded fuel (hx x rfl)]
  refine ⟨hevents, hx, fun o ho => ?_, .inl List.mem_cons_self⟩
  rcases List.mem_cons.1 ho with ho | ho
  · cases ho; rfl
  · exact hanswers o ho

theorem scanned_barren (form : Form) : Scanned (α := α) form [.gave none, .asked] (.ended 0) :=
  (Scanned.start.move (.ask 0)).move (.finish 0)

/-- A job over a source asks it once when it is made. -/
theorem start_scanned (k : Kit W I α P G F β) (scan : Scanning I) (fuel : Nat) (filter : P) (consumer : G) (w : W) :
    (start k.recorded.next k.recorded.step fuel scan.plan filter consumer (w, {})).Ensures
      (fun ws => ws.2.events = [.asked])
      fun x ws => Barren scan ⟨some x, []⟩ ws.2 ∨
        (∃ first, ws.2.events = [.gave (some first), .asked]) ∧ Ran scan ⟨some x, []⟩ ws.2 := by
  have hnext := fun source => (k.recorded_next w {} source).mono (J := fun ws => ws.2.events = [.asked])
    (by rintro ⟨w, j⟩ rfl; rfl) fun _ _ h => h
  have hgiven : ∀ form (first : α), Scanned form [.gave (some first), .asked] (.given 0 first) :=
    fun form first => (Scanned.start.move (.ask 0)).move (.element 0 first)
  cases scan with
  | loop form source =>
    rw [Scanning.plan, start, Loop.ofSource_eq, bind_assoc]
    refine (hnext source).bind ?_
    rintro ⟨entry, source'⟩ ⟨w, j⟩ rfl
    cases entry with
    | none => exact .inl ⟨rfl, by rintro x ⟨⟩; rfl, by rintro o ⟨⟩, .inr rfl⟩
    | some first =>
      refine .inr ⟨⟨first, rfl⟩, ⟨.given 0 first, hgiven form first, rfl, rfl⟩, ?_⟩
      rintro x ⟨⟩
      exact .inl ⟨rfl, Attended.not_over_made _, .inr ⟨first, .loop rfl rfl, hgiven form first⟩⟩
  | total source =>
    rw [Scanning.plan, start, Summation.ofSource_eq, bind_assoc]
    refine (hnext source).bind ?_
    rintro ⟨entry, source'⟩ ⟨w, j⟩ rfl
    cases entry with
    | none => exact .inl ⟨rfl, by rintro x ⟨⟩; rfl, by rintro o ⟨⟩, .inr rfl⟩
    | some first =>
      refine .inr ⟨⟨first, rfl⟩, ⟨.given 0 first, hgiven .each first, rfl, rfl⟩, ?_⟩
      rintro x ⟨⟩
      exact .inl ⟨rfl, Attended.not_over_made _, .inr ⟨first, .total ⟨_, rfl, rfl⟩ rfl, hgiven .each first⟩⟩

/-! ## The whole statement -/

/-- A journal that is that of a scan at every moment. -/
def AlwaysDisciplined (form : Form) (events : List (Event α)) : Prop :=
  ∀ moment, moment <:+ events → ∃ p, Disciplined form moment p

theorem Scanned.always {form : Form} {events : List (Event α)} {p : Place α} (h : Scanned form events p) :
    AlwaysDisciplined form events := fun _ hmoment => (h.suffix hmoment).imp fun _ hq => hq.disciplined

/-- A loop or a sum over a source asks it exactly once when it is made. In every run, also one that is dropped,
breaks down or is cut off, its calls are those of a scan at every moment, whatever the source goes on to answer
after its end; the place where it is between two polls says what they have answered. If the source has no first
element, nothing is called any more. -/
theorem source_discipline (k : Kit W I α P G F β) (scan : Scanning I) (fuel : Nat) (filter : P) (consumer : G)
    (w : W) :
    (start k.recorded.next k.recorded.step fuel scan.plan filter consumer (w, {})).Ensures
      (fun ws => ws.2.events = [.asked])
      fun x made => (∃ entry, made.2.events = [.gave entry, .asked]) ∧ ∀ actions : List (Action W),
        (acts (fun fuel => poll k.recorded fuel) actions ⟨some x, []⟩ made).Ensures
          (fun ws => AlwaysDisciplined scan.form ws.2.events)
          fun y ws => AlwaysDisciplined scan.form ws.2.events ∧
            (∃ p, Disciplined scan.form ws.2.events p ∧
              Answered (scan.value (gains ws.2.events)) y.answers p) ∧
            (made.2.events = [.gave none, .asked] → ws.2.events = made.2.events) := by
  refine (start_scanned k scan fuel filter consumer w).mono (fun _ h => h) ?_
  rintro x ⟨w, j⟩ hmade
  obtain hbarren | ⟨⟨first, hfirst⟩, hran⟩ := hmade
  · have hevents : j.events = [.gave none, .asked] := hbarren.1
    refine ⟨⟨none, hevents⟩, fun actions => ?_⟩
    have hrun := acts_ensures (poll_barren k scan) (fun y j h => ⟨h.1, by rintro x ⟨⟩, h.2.2⟩)
      (fun y j h => h.1) actions ⟨some x, []⟩ w j hbarren
    refine hrun.mono ?_ ?_
    · intro ws hws
      rw [hws]
      exact (scanned_barren scan.form).always
    · rintro y ⟨w', j'⟩ ⟨hevents', -, honly, hanswers⟩
      have hsame : j'.events = [.gave none, .asked] := hevents'
      change AlwaysDisciplined scan.form j'.events ∧ (∃ p, Disciplined scan.form j'.events p ∧
        Answered (scan.value (gains j'.events)) y.answers p) ∧ (_ → j'.events = j.events)
      rw [hsame, hevents]
      refine ⟨(scanned_barren scan.form).always, ⟨.ended 0, (scanned_barren scan.form).disciplined, honly, ?_⟩,
        fun _ => rfl⟩
      exact hanswers.imp_right fun hnil => ⟨rfl, hnil⟩
  · refine ⟨⟨some first, hfirst⟩, fun actions => ?_⟩
    have hrun := acts_ensures (J := fun j => j.Scanned scan.form) (poll_ran k scan)
      (fun y j h => ⟨h.1, by rintro x ⟨⟩⟩) (fun y j h => h.1.imp fun _ hp => hp.1) actions ⟨some x, []⟩ w j hran
    refine hrun.mono (fun ws hws => hws.elim fun p hp => hp.always) ?_
    rintro y ws ⟨⟨p, hscanned, hanswered⟩, -⟩
    refine ⟨hscanned.always, ⟨p, hscanned.disciplined, hanswered⟩, fun hnone => ?_⟩
    change j.events = _ at hnone
    rw [hfirst] at hnone
    cases hnone

end Job

end Stepwise
