import Stepwise.Proofs.Job.Journal
import Stepwise.Proofs.Job.Sum

/-! # Places of a scan

What a loop over a source may do next depends on its place and on nothing else. A `Place` says which element is
being handled and how far; `Move` lists the events that lead from one place to another.

* `Scanned form events place`: the events are a path of such moves, from the start to this place.
* `asks`, `elements`, `tests`, `requests` and `gains` are what a path shows of the source, the filter and the
  steps. All counts follow from the path alone, by induction with one case for each move.
* `Disciplined` collects what is known of a path: how often the source was asked, that each element came to the
  filter and to the step as often as it should, and that nothing is asked for while a step has not resolved.
-/

namespace Stepwise.Job
set_option autoImplicit false

variable {α : Type}

/-! ## Paths -/

/-- How far a scan has come. The element at the position `index` is being handled. -/
inductive Place (α : Type)
  /-- All elements before this position are done with, and the source has not said that it is over. -/
  | free (index : Nat)
  | asking (index : Nat)
  | given (index : Nat) (x : α)
  | testing (index : Nat) (x : α)
  | accepted (index : Nat) (x : α)
  /-- The step for the element has been requested and has not resolved. -/
  | flying (index id : Nat)
  | polling (index id : Nat)
  /-- The source has given so many elements and then its end. -/
  | ended (count : Nat)
  | failed (index : Nat) (e : Failure)

inductive Move (form : Form) : Event α → Place α → Place α → Prop
  | ask (i : Nat) : Move form .asked (.free i) (.asking i)
  | element (i : Nat) (x : α) : Move form (.gave (some x)) (.asking i) (.given i x)
  | finish (i : Nat) : Move form (.gave none) (.asking i) (.ended i)
  | test {arguments : Arguments} (h : form.test = some arguments) (i : Nat) (x : α) :
      Move form (.tested (arguments.call x i)) (.given i x) (.testing i x)
  | accept (i : Nat) (x : α) : Move form (.judged (.ok true)) (.testing i x) (.accepted i x)
  | reject (i : Nat) (x : α) : Move form (.judged (.ok false)) (.testing i x) (.free (i + 1))
  | refuse (i : Nat) (x : α) (e : Failure) : Move form (.judged (.error e)) (.testing i x) (.failed i e)
  | request (i id : Nat) (x : α) :
      Move form (.requested id (form.step.call x i)) (.accepted i x) (.flying i id)
  /-- Without a filter an element comes to the step at once. -/
  | pass (h : form.test = none) (i id : Nat) (x : α) :
      Move form (.requested id (form.step.call x i)) (.given i x) (.flying i id)
  | poll (i id : Nat) : Move form (.polled id) (.flying i id) (.polling i id)
  | wait (i id : Nat) : Move form (.replied id .pending) (.polling i id) (.flying i id)
  | panic (i id : Nat) (cause : Panic) :
      Move form (.replied id (.panicked cause)) (.polling i id) (.flying i id)
  | resolve (i id : Nat) (n : Int32) :
      Move form (.replied id (.ready (.ok n))) (.polling i id) (.free (i + 1))
  | fail (i id : Nat) (e : Failure) :
      Move form (.replied id (.ready (.error e))) (.polling i id) (.failed i e)

/-- The events, the latest first, lead from the start to the place. -/
inductive Scanned (form : Form) : List (Event α) → Place α → Prop
  | start : Scanned form [] (.free 0)
  | move {es : List (Event α)} {event : Event α} {p q : Place α} (h : Scanned form es p)
      (hmove : Move form event p q) : Scanned form (event :: es) q

theorem Scanned.suffix {form : Form} {es moment : List (Event α)} {p : Place α} (h : Scanned form es p)
    (hmoment : moment <:+ es) : ∃ q, Scanned form moment q := by
  induction h with
  | start =>
    rw [List.suffix_nil.1 hmoment]
    exact ⟨.free 0, .start⟩
  | @move es event p q h hmove ih =>
    rcases List.suffix_cons_iff.1 hmoment with rfl | hmoment
    · exact ⟨q, h.move hmove⟩
    · exact ih hmoment

/-! ## What a path shows -/

@[simp] def Event.isAsked : Event α → Bool
  | .asked => true
  | _ => false

@[simp] def Event.element? : Event α → Option α
  | .gave entry => entry
  | _ => none

@[simp] def Event.tested? : Event α → Option (Call α)
  | .tested call => some call
  | _ => none

@[simp] def Event.judged? : Event α → Option (Outcome Bool)
  | .judged verdict => some verdict
  | _ => none

@[simp] def Event.requested? : Event α → Option (Call α)
  | .requested _ call => some call
  | _ => none

@[simp] def Event.gained? : Event α → Option Int32
  | .replied _ (.ready (.ok n)) => some n
  | _ => none

/-- What the events show, in the order in which they happened. -/
def shown {β : Type} (show? : Event α → Option β) (es : List (Event α)) : List β :=
  es.reverse.filterMap show?

theorem shown_cons {β : Type} (show? : Event α → Option β) (event : Event α) (es : List (Event α)) :
    shown show? (event :: es) = shown show? es ++ (show? event).toList := by
  rw [shown, List.reverse_cons, List.filterMap_append, shown]
  cases h : show? event <;> simp [h]

/-- How often the source was asked. -/
def asks (es : List (Event α)) : Nat := es.countP Event.isAsked

/-- The elements that the source gave. -/
def elements (es : List (Event α)) : List α := shown Event.element? es

/-- What the filter was called with. -/
def tests (es : List (Event α)) : List (Call α) := shown Event.tested? es

def verdicts (es : List (Event α)) : List (Outcome Bool) := shown Event.judged? es

/-- What the step was called with. -/
def requests (es : List (Event α)) : List (Call α) := shown Event.requested? es

/-- What the steps resolved to. -/
def gains (es : List (Event α)) : List Int32 := shown Event.gained? es

section Shown

variable (event : Event α) (es : List (Event α))

@[simp] theorem elements_cons : elements (event :: es) = elements es ++ event.element?.toList :=
  shown_cons _ event es

@[simp] theorem tests_cons : tests (event :: es) = tests es ++ event.tested?.toList := shown_cons _ event es

@[simp] theorem verdicts_cons : verdicts (event :: es) = verdicts es ++ event.judged?.toList :=
  shown_cons _ event es

@[simp] theorem requests_cons : requests (event :: es) = requests es ++ event.requested?.toList :=
  shown_cons _ event es

@[simp] theorem gains_cons : gains (event :: es) = gains es ++ event.gained?.toList := shown_cons _ event es

end Shown

/-! ## Counts -/

namespace Place

/-- How often the source has been asked. -/
@[simp] def asked : Place α → Nat
  | .free i => i
  | .ended count => count + 1
  | .asking i | .given i _ | .testing i _ | .accepted i _ | .flying i _ | .polling i _ | .failed i _ => i + 1

/-- How many elements the source has given. -/
@[simp] def taken : Place α → Nat
  | .free i | .asking i | .ended i => i
  | .given i _ | .testing i _ | .accepted i _ | .flying i _ | .polling i _ | .failed i _ => i + 1

/-- How many elements the filter has decided on, if there is one. -/
@[simp] def decided : Place α → Nat
  | .free i | .asking i | .given i _ | .testing i _ | .ended i => i
  | .accepted i _ | .flying i _ | .polling i _ | .failed i _ => i + 1

/-- The element that has still to come to the filter. -/
@[simp] def toTest (arguments : Arguments) : Place α → List (Call α)
  | .given i x => [arguments.call x i]
  | _ => []

/-- The element that has still to come to the step. -/
@[simp] def toRequest (form : Form) : Place α → List (Call α)
  | .given i x => if form.test.isNone then [form.step.call x i] else []
  | .accepted i x => [form.step.call x i]
  | _ => []

end Place

section Counts

variable {form : Form} {es : List (Event α)} {p : Place α}

theorem Scanned.asks (h : Scanned form es p) : Job.asks es = p.asked := by
  induction h with
  | start => rfl
  | move h hmove ih => cases hmove <;> simpa [Job.asks, List.countP_cons] using ih

theorem Scanned.length_elements (h : Scanned form es p) : (elements es).length = p.taken := by
  induction h with
  | start => rfl
  | move h hmove ih => cases hmove <;> simpa using ih

theorem Scanned.length_verdicts (h : Scanned form es p) (hform : form.test.isSome) :
    (verdicts es).length = p.decided := by
  induction h with
  | start => rfl
  | move h hmove ih =>
    cases hmove with
    | pass hnone => simp [hnone] at hform
    | _ => simpa using ih

/-- Every element came to the filter once, in its place; the last one may have still to come. -/
theorem Scanned.tests {arguments : Arguments} (h : Scanned form es p) (hform : form.test = some arguments) :
    Job.tests es ++ p.toTest arguments = (elements es).zipIdx.map fun x => arguments.call x.1 x.2 := by
  induction h with
  | start => rfl
  | @move es event p q h hmove ih =>
    have hlength := h.length_elements
    cases hmove with
    | element i x =>
      have hi : (elements es).length = i := hlength
      simp at ih
      simp [List.zipIdx_append, hi, ← ih]
    | test h' i x =>
      cases hform.symm.trans h'
      simpa using ih
    | pass hnone => simp [hnone] at hform
    | _ => simpa using ih

/-- The element that is on its way to the filter or the step. -/
def Place.current? : Place α → Option (Nat × α)
  | .given i x | .testing i x | .accepted i x => some (i, x)
  | _ => none

/-- The element on its way is the last one that was given. -/
theorem Scanned.current (h : Scanned form es p) {i : Nat} {x : α} (hp : p.current? = some (i, x)) :
    ∃ xs, elements es = xs ++ [x] ∧ xs.length = i := by
  induction h with
  | start => cases hp
  | @move es event p q h hmove ih =>
    cases hmove with
    | element j y =>
      cases hp
      exact ⟨elements es, by simp, h.length_elements⟩
    | test h' j y =>
      cases hp
      simpa using ih rfl
    | accept j y =>
      cases hp
      simpa using ih rfl
    | _ => cases hp

/-- There is a filter where one is called. -/
theorem Scanned.isSome (h : Scanned form es p) {i : Nat} {x : α}
    (hp : p = .testing i x ∨ p = .accepted i x) : form.test.isSome := by
  induction h with
  | start => rcases hp with hp | hp <;> cases hp
  | move h hmove ih =>
    cases hmove with
    | test hform => simp [hform]
    | accept j y =>
      obtain ⟨rfl, rfl⟩ : j = i ∧ y = x := by simpa using hp
      exact ih (.inl rfl)
    | _ => rcases hp with hp | hp <;> cases hp

/-- Without a filter every element came to the step once, in its place. -/
theorem Scanned.requests_all (h : Scanned form es p) (hform : form.test = none) :
    requests es ++ p.toRequest form = (elements es).zipIdx.map fun x => form.step.call x.1 x.2 := by
  have hnone : ¬ form.test.isSome := by simp [hform]
  induction h with
  | start => rfl
  | @move es event p q h hmove ih =>
    cases hmove with
    | element i x =>
      have hi : (elements es).length = i := h.length_elements
      simp at ih
      simp [List.zipIdx_append, hi, hform, ← ih]
    | test hsome => simp [hform] at hsome
    | accept i x => exact absurd (h.isSome (.inl rfl)) hnone
    | reject i x => exact absurd (h.isSome (.inl rfl)) hnone
    | refuse i x => exact absurd (h.isSome (.inl rfl)) hnone
    | request i id x => exact absurd (h.isSome (.inr rfl)) hnone
    | pass _ i id x => simpa [hform] using ih
    | _ => simpa using ih

/-- The elements that were accepted, if these are the decisions on them. -/
def sifted {β : Type} (xs : List β) (decisions : List (Outcome Bool)) : List β :=
  (xs.zip decisions).filterMap fun r =>
    match r.2 with
    | .ok true => some r.1
    | _ => none

theorem sifted_concat {β : Type} {xs : List β} {decisions : List (Outcome Bool)} (x : β) (d : Outcome Bool)
    (h : xs.length = decisions.length) :
    sifted (xs ++ [x]) (decisions ++ [d]) = sifted xs decisions ++ sifted [x] [d] := by
  rw [sifted, List.zip_append h, List.filterMap_append]
  rfl

/-- An element on which nothing is decided yet. -/
theorem sifted_undecided {β : Type} {xs : List β} {decisions : List (Outcome Bool)} (x : β)
    (h : xs.length = decisions.length) : sifted (xs ++ [x]) decisions = sifted xs decisions := by
  have hzip : (xs ++ [x]).zip decisions = xs.zip decisions := by
    conv_lhs => rw [← List.append_nil decisions]
    rw [List.zip_append h]
    simp
  rw [sifted, hzip, sifted]

@[simp] theorem sifted_accepted {β : Type} (x : β) : sifted [x] [.ok true] = [x] := rfl

@[simp] theorem sifted_rejected {β : Type} (x : β) : sifted [x] [.ok false] = [] := rfl

@[simp] theorem sifted_refused {β : Type} (x : β) (e : Failure) : sifted [x] [.error e] = [] := rfl

/-- With a filter every element that it accepted came to the step once, in its place. -/
theorem Scanned.requests_sifted (h : Scanned form es p) (hform : form.test.isSome) :
    requests es ++ p.toRequest form =
      (sifted (elements es).zipIdx (verdicts es)).map fun x => form.step.call x.1 x.2 := by
  have hsome : form.test ≠ none := by simpa [Option.isSome_iff_ne_none] using hform
  induction h with
  | start => rfl
  | @move es event p q h hmove ih =>
    -- a decision on the last element
    have hdecided : ∀ {i x}, p = .testing i x → ∀ d, sifted (elements es).zipIdx (verdicts es ++ [d]) =
        sifted (elements es).zipIdx (verdicts es) ++ sifted [(x, i)] [d] := by
      rintro i x rfl d
      obtain ⟨xs, hxs, hi⟩ := h.current rfl
      have hverdicts : (verdicts es).length = i := h.length_verdicts hform
      have hlength : xs.zipIdx.length = (verdicts es).length := by simp [hi, hverdicts]
      rw [hxs, List.zipIdx_append, hi, List.zipIdx_singleton, Nat.zero_add, sifted_concat _ _ hlength,
        sifted_undecided _ hlength]
    cases hmove with
    | element i x =>
      have hi : (elements es).length = i := h.length_elements
      have hverdicts : (verdicts es).length = i := h.length_verdicts hform
      have hlength : (elements es).zipIdx.length = (verdicts es).length := by simp [hi, hverdicts]
      have hundecided := sifted_undecided (x, i) hlength
      simp at ih
      simp [List.zipIdx_append, hi, hundecided, hsome, ih]
    | accept i x =>
      simp at ih
      simp [hdecided rfl (.ok true), ih]
    | reject i x =>
      simp at ih
      simp [hdecided rfl (.ok false), ih]
    | refuse i x e =>
      simp at ih
      simp [hdecided rfl (.error e), ih]
    | pass hnone => exact absurd hnone hsome
    | test h' i x => simpa [hsome] using ih
    | _ => simpa using ih

end Counts

/-! ## What is never done -/

/-- The end of the source and every failure: nothing follows them. -/
@[simp] def Event.isLast : Event α → Bool
  | .gave none | .judged (.error _) | .replied _ (.ready (.error _)) => true
  | _ => false

section Discipline

variable {form : Form} {es : List (Event α)} {p : Place α}

theorem Scanned.isLast (h : Scanned form es p) (hp : (∀ n, p ≠ .ended n) ∧ ∀ i e, p ≠ .failed i e) :
    ∀ event ∈ es, event.isLast = false := by
  induction h with
  | start => exact nofun
  | move h hmove ih =>
    cases hmove with
    | finish i => exact absurd rfl (hp.1 i)
    | refuse i x e => exact absurd rfl (hp.2 i e)
    | fail i id e => exact absurd rfl (hp.2 i e)
    | _ => simpa using ih ⟨nofun, nofun⟩

/-- Nothing at all happens after the end of the source or a failure. -/
theorem Scanned.silent {event : Event α} (h : Scanned form (event :: es) p) :
    ∀ earlier ∈ es, earlier.isLast = false := by
  cases h with
  | move h hmove => cases hmove <;> exact h.isLast ⟨nofun, nofun⟩

/-- A step that was requested and has not resolved is the one for the last element that the source gave. -/
theorem Scanned.inFlight (h : Scanned form es p) {id : Nat} {call : Call α} (hmem : .requested id call ∈ es)
    (hflying : ∀ o, .replied id (.ready o) ∉ es) :
    ∃ i xs x, (p = .flying i id ∨ p = .polling i id) ∧ elements es = xs ++ [x] ∧ xs.length = i ∧
      call = form.step.call x i := by
  induction h with
  | start => cases hmem
  | @move es event p q h hmove ih =>
    have hearlier : ∀ o, .replied id (.ready o) ∉ es := fun o ho => hflying o (List.mem_cons_of_mem _ ho)
    -- an earlier request is still in flight, so the scan was at its step
    have hstay : .requested id call ∈ es → ∃ i xs x, (p = .flying i id ∨ p = .polling i id) ∧
        elements es = xs ++ [x] ∧ xs.length = i ∧ call = form.step.call x i := fun hmem => ih hmem hearlier
    have hnew : ∀ {i id' x}, p.current? = some (i, x) → event = .requested id' (form.step.call x i) →
        q = .flying i id' → ∃ i xs x, (q = .flying i id ∨ q = .polling i id) ∧
          elements (event :: es) = xs ++ [x] ∧ xs.length = i ∧ call = form.step.call x i := by
      rintro i id' x hcurrent rfl rfl
      rcases List.mem_cons.1 hmem with hmem | hmem
      · cases hmem
        obtain ⟨xs, hxs, hi⟩ := h.current hcurrent
        exact ⟨i, xs, x, .inl rfl, by simpa using hxs, hi, rfl⟩
      · obtain ⟨i', xs, x', hp, -⟩ := hstay hmem
        rcases hp with rfl | rfl <;> cases hcurrent
    cases hmove with
    | request i id' x => exact hnew rfl rfl rfl
    | pass _ i id' x => exact hnew rfl rfl rfl
    | resolve i id' n =>
      obtain ⟨i', xs, x, hp, -⟩ := hstay (by simpa using hmem)
      obtain ⟨rfl, rfl⟩ : i = i' ∧ id' = id := by simpa using hp
      exact absurd List.mem_cons_self (hflying (.ok n))
    | fail i id' e =>
      obtain ⟨i', xs, x, hp, -⟩ := hstay (by simpa using hmem)
      obtain ⟨rfl, rfl⟩ : i = i' ∧ id' = id := by simpa using hp
      exact absurd List.mem_cons_self (hflying (.error e))
    | _ => simpa using hstay (by simpa using hmem)

/-- When the source is asked, every step has resolved without a failure. -/
theorem Scanned.resolved (h : Scanned form (.asked :: es) p) {id : Nat} {call : Call α}
    (hmem : .requested id call ∈ es) : ∃ n, .replied id (.ready (.ok n)) ∈ es := by
  cases h with
  | move h hmove =>
    cases hmove with
    | ask i =>
      by_contra hnone
      have hflying : ∀ o, .replied id (.ready o) ∉ es := by
        intro o ho
        cases o with
        | ok n => exact hnone ⟨n, ho⟩
        | error e => exact absurd (h.isLast ⟨nofun, nofun⟩ _ ho) (by simp)
      obtain ⟨i', xs, x, hp, -⟩ := h.inFlight hmem hflying
      rcases hp with hp | hp <;> cases hp

/-- The elements that come to the step, with their positions. -/
def chosen (form : Form) (es : List (Event α)) : List (α × Nat) :=
  match form.test with
  | none => (elements es).zipIdx
  | some _ => sifted (elements es).zipIdx (verdicts es)

/-- What is known of a scan that has come to this place. -/
structure Disciplined (form : Form) (es : List (Event α)) (p : Place α) : Prop where
  path : Scanned form es p
  asked : asks es = p.asked
  taken : (elements es).length = p.taken
  /-- Every element comes to the filter once, with its own position. -/
  tested : ∀ arguments, form.test = some arguments →
    tests es ++ p.toTest arguments = (elements es).zipIdx.map fun x => arguments.call x.1 x.2
  /-- Every element that is accepted comes to the step once, with its own position. -/
  requested : requests es ++ p.toRequest form = (chosen form es).map fun x => form.step.call x.1 x.2
  /-- While a step is in flight, its element is the last one that the source was asked for. -/
  inFlight : ∀ id call, .requested id call ∈ es → (∀ o, .replied id (.ready o) ∉ es) →
    ∃ i xs x, elements es = xs ++ [x] ∧ xs.length = i ∧ call = form.step.call x i ∧ asks es = i + 1
  /-- The source is asked only when all steps have resolved without a failure. -/
  settled : ∀ earlier, es = .asked :: earlier → ∀ id call, .requested id call ∈ earlier →
    ∃ n, .replied id (.ready (.ok n)) ∈ earlier
  /-- Nothing happens after the end of the source or a failure. -/
  silent : ∀ event earlier, es = event :: earlier → ∀ event ∈ earlier, event.isLast = false

theorem Scanned.disciplined (h : Scanned form es p) : Disciplined form es p where
  path := h
  asked := h.asks
  taken := h.length_elements
  tested _ hform := h.tests hform
  requested := by
    cases hform : form.test with
    | none => simpa [chosen, hform] using h.requests_all hform
    | some arguments => simpa [chosen, hform] using h.requests_sifted (by simp [hform])
  inFlight id call hmem hflying := by
    obtain ⟨i, xs, x, hp, hxs, hi, hcall⟩ := h.inFlight hmem hflying
    refine ⟨i, xs, x, hxs, hi, hcall, ?_⟩
    rw [h.asks]
    rcases hp with rfl | rfl <;> rfl
  settled := by
    rintro earlier rfl id call hmem
    exact h.resolved hmem
  silent := by
    rintro event earlier rfl
    exact h.silent

end Discipline

end Stepwise.Job
