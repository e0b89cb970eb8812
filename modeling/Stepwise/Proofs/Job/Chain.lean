import Stepwise.Proofs.Job.Alike
import Stepwise.Proofs.Loop

/-! # Chains and loops

A chain takes all elements out of its source when it is made, a loop asks for one when it is made and for the
others between its steps. If the source has a part of the world to itself, nobody can tell them apart by what
they do in the rest of the world.

* `Supplies`: asked again and again, a source gives some elements and then says that there is none. It is an
  induction over the answers, with the world that the last one leaves.
* `start_chain` and `start_loop`: what is asked when the two are made. No step is requested then.
* `poll_chain_within`: later, a chain does not ask its source at all.
* `simulation_fed`: one turn of the chain and of the loop. The fuel of the loop stays ahead of the number of
  links that the tower has left. After the last step the loop has still to ask for an element.
* `chain_eq_loop`: polled in any way, both make the same calls and give the same answers.
-/

namespace Stepwise
set_option autoImplicit false

variable {W S I α P G F β : Type}

/-! ## Sources with a part of the world to themselves -/

/-- Run `m`, which works on the second part of the world. -/
def Effect.apart {A : Type} (W : Type) (m : Effect S A) : Effect (W × S) A := fun ws =>
  match m ws.2 with
  | .returned a s => .returned a (ws.1, s)
  | .broken reason s => .broken reason (ws.1, s)
  | .cut s => .cut (ws.1, s)

theorem Effect.apart_of_returned {A : Type} {m : Effect S A} {s s' : S} {a : A} (h : m s = .returned a s')
    (w : W) : m.apart W (w, s) = .returned a (w, s') := by
  rw [Effect.apart, h]

/-- The kit with a source that has a second part of the world to itself; filters and steps do not see it. -/
def Kit.fed (k : Kit W I α P G F β) (next : Next S I α) : Kit (W × S) I α P G F β where
  next source := (next source).apart W
  test p call := (k.test p call).within S
  step g call := (k.step g call).within S
  poll x := (k.poll x).within S
  isTrue := k.isTrue
  summand := k.summand

/-- The source gives these elements and then says that there is none; its part of the world is then `last`. -/
inductive Supplies (next : Next S I α) (last : S) : I → S → List α → Prop
  | none {source source' : I} {s : S} (h : next source s = .returned (none, source') last) :
      Supplies next last source s []
  | some {source source' : I} {s s' : S} {x : α} {xs : List α}
      (h : next source s = .returned (some x, source') s') (hrest : Supplies next last source' s' xs) :
      Supplies next last source s (x :: xs)

/-- What a source that was looked into has still to supply. -/
inductive Lookahead.Supplies (next : Next S I α) (last : S) : Lookahead I α → S → List α → Prop
  | ahead {source : I} {s : S} {xs : List α} (h : Stepwise.Supplies next last source s xs) :
      Lookahead.Supplies next last { source } s xs
  | seen {source : I} {s : S} {xs : List α} (x : α) (h : Stepwise.Supplies next last source s xs) :
      Lookahead.Supplies next last { source, seen := some (some x) } s (x :: xs)

section Next

variable {k : Kit W I α P G F β} {next : Next S I α} {last : S}

theorem Lookahead.Supplies.next_none {a : Lookahead I α} {s : S} (h : a.Supplies next last s []) (w : W) :
    ∃ a', Lookahead.next (k.fed next).next a (w, s) = .returned (none, a') (w, last) := by
  cases h with
  | @ahead source _ _ h =>
    cases h with
    | @none _ source' _ h =>
      have hnext : (k.fed next).next source (w, s) = .returned (none, source') (w, last) :=
        Effect.apart_of_returned h w
      exact ⟨{ source := source' }, Effect.bind_of_returned _ hnext⟩

theorem Lookahead.Supplies.next_some {a : Lookahead I α} {s : S} {x : α} {xs : List α}
    (h : a.Supplies next last s (x :: xs)) (w : W) :
    ∃ a' s', a'.Supplies next last s' xs ∧
      Lookahead.next (k.fed next).next a (w, s) = .returned (some x, a') (w, s') := by
  cases h with
  | @seen source _ _ _ h => exact ⟨{ source }, s, .ahead h, rfl⟩
  | @ahead source _ _ h =>
    cases h with
    | @some _ source' _ s' _ _ h hrest =>
      have hnext : (k.fed next).next source (w, s) = .returned (some x, source') (w, s') :=
        Effect.apart_of_returned h w
      exact ⟨{ source := source' }, s', .ahead hrest, Effect.bind_of_returned _ hnext⟩

end Next

namespace Job

/-! ## Made -/

/-- The chain over the elements when it was made. -/
def chained (elements : List α) (consumer : G) : Job I α P G F :=
  .chain { consumer, tower := elements.foldl .first .ground }

theorem viewTower_foldl (g : G) (xs above : List α) (t : Tower α F) :
    (viewTower g (xs.foldl .first t) above : Course.State (Rest I α P G) F) = viewTower g t (xs ++ above) := by
  induction xs generalizing t with
  | nil => rfl
  | cons x xs ih => exact ih (.first t x)

theorem links_foldl (xs : List α) (t : Tower α F) : links (xs.foldl .first t) = links t + xs.length := by
  induction xs generalizing t with
  | nil => rfl
  | cons x xs ih =>
    rw [List.foldl_cons, ih, links, List.length_cons]
    omega

theorem pull_supplies {next : Next S I α} {last : S} {source : I} {s : S} {xs : List α}
    (h : Supplies next last source s xs) (k : Kit W I α P G F β) {n : Nat} (hn : xs.length < n) (t : Tower α F)
    (w : W) :
    Chain.pull (k.fed next).next n source t (w, s) = .returned (xs.foldl .first t) (w, last) := by
  induction h generalizing n t with
  | none h =>
    obtain ⟨n, rfl⟩ : ∃ m, n = m + 1 := ⟨n - 1, by omega⟩
    exact Effect.bind_of_returned _ (Effect.apart_of_returned h w)
  | @some _ source' _ s' x xs h _ ih =>
    rw [List.length_cons] at hn
    obtain ⟨n, rfl⟩ : ∃ m, n = m + 1 := ⟨n - 1, by omega⟩
    have hpull : Chain.pull (k.fed next).next (n + 1) _ t (w, _) =
        Chain.pull (k.fed next).next n source' (.first t x) (w, s') :=
      Effect.bind_of_returned _ (Effect.apart_of_returned h w)
    rw [hpull, List.foldl_cons]
    exact ih (by omega) (.first t x)

/-- A chain is made with all elements, up to the first time that there is none. -/
theorem start_chain (k : Kit W I α P G F β) {next : Next S I α} {last : S} {source : I} {s : S} {xs : List α}
    (h : Supplies next last source s xs) {n : Nat} (hn : xs.length < n) (filter : P) (consumer : G) (w : W) :
    Job.start (k.fed next).next (k.fed next).step n (.chain source) filter consumer (w, s) =
      .returned (chained xs consumer) (w, last) := by
  have hmade : Chain.ofSource (k.fed next).next n source consumer (w, s) =
      .returned { consumer, tower := xs.foldl .first (.ground : Tower α F) } (w, last) :=
    Effect.bind_of_returned _ (pull_supplies h k hn .ground w)
  exact Effect.bind_of_returned _ hmade

/-- A loop is made with one element. -/
theorem start_loop (k : Kit W I α P G F β) (next : Next S I α) (n : Nat) (source : I) (filter : P)
    (consumer : G) : Job.start (k.fed next).next (k.fed next).step n (.iterate .each source) filter consumer =
      (next source).apart W >>= fun r => pure (.iterate .each (.looked r.1 r.2 filter consumer)) := by
  rw [Job.start, Loop.ofSource_eq, bind_assoc]
  rfl

/-! ## Polls of a chain -/

theorem pollStep_within (p : Poller W F β) (x : F) :
    Tower.pollStep (α := α) (fun x => (p x).within S) x = (Tower.pollStep p x).within S := by
  rw [Tower.pollStep, Tower.pollStep, Effect.within_bind]
  refine bind_congr fun r => ?_
  obtain ⟨answer, x⟩ := r
  cases answer with
  | ready o => cases o <;> rfl
  | _ => rfl

theorem pollTower_within (request : G → α → Effect W (F × G)) (p : Poller W F β) (t : Tower α F) (g : G) :
    t.poll (fun g x => (request g x).within S) (fun x => (p x).within S) g =
      (t.poll request p g).within S := by
  induction t generalizing g with
  | ground => rfl
  | spent => rfl
  | second x =>
    rw [Tower.poll, Tower.poll, pollStep_within, Effect.within_bind]
    rfl
  | first below x ih =>
    rw [Tower.poll, Tower.poll, ih, Effect.within_bind]
    refine bind_congr fun r => ?_
    obtain ⟨answer, below, g⟩ := r
    cases answer with
    | pending => rfl
    | panicked cause => rfl
    | ready o =>
      cases o with
      | error e => rfl
      | ok u =>
        simp only [pollStep_within, Effect.within_bind]
        rfl

/-- A chain does not ask its source when it is polled. -/
theorem poll_chain_within (k : Kit W I α P G F β) (next : Next S I α) (n m : Nat) (c : Chain α G F) :
    poll (k.fed next) n (.chain c) = (poll k m (.chain c)).within S := by
  have hpoll : c.poll (fun g x => (k.fed next).step g (.element x)) (k.fed next).poll =
      (c.poll (fun g x => k.step g (.element x)) k.poll).within S := by
    rw [Chain.poll, Chain.poll, Effect.within_bind]
    exact congrArg (· >>= _) (pollTower_within (fun g x => k.step g (.element x)) k.poll c.tower c.consumer)
  rw [poll, poll, unvalued, unvalued, hpoll, Effect.within_bind]
  rfl

/-- The chain in its part of the world. -/
theorem chain_alike (k : Kit W I α P G F β) (next : Next S I α) (n m : Nat) (c : Chain α G F) (s : S) :
    Poller.Alike (poll k m) (Poller.owned (fun _ o => o) (poll (k.fed next) n)) (.chain c) (.chain c, s) := by
  refine Poller.alike_owned_within (K := fun j => ∃ c, j = .chain c) ?_ ?_ ⟨c, rfl⟩ s
  · rintro _ ⟨c, rfl⟩
    exact poll_chain_within k next n m c
  · rintro _ w ⟨c, rfl⟩
    rw [poll, unvalued]
    exact (Ending.Ensures.any _).bind fun r _ _ => ⟨r.2, rfl⟩

/-! ## One turn -/

/-- The same place in a chain and in a loop: these elements are left. -/
inductive Fed (next : Next S I α) (last : S) : List α → Rest I α P G → Rest I α P G → S → Prop
  | elements {xs : List α} {c : Walk (Lookahead I α) P G} {s : S} (h : c.source.Supplies next last s xs) :
      Fed next last xs (.chain c.consumer xs) (.iterate .each c) s
  | none (g : G) : Fed next last [] (.chain g []) (.last none) last

/-- The loop has fuel for the elements that are left, and the source is used up when it comes to its end. -/
def fedTie (next : Next S I α) (last : S) : Course.Tie W (W × S) (Rest I α P G) (Rest I α P G) F F
    (Option Int32) (Option Int32) where
  worlds := Beside
  ahead N c c' w v := w = v.1 ∧ ∃ xs, xs.length ≤ N ∧ Fed next last xs c c' v.2
  under N a a' w v := a.1 = a'.1 ∧ w = v.1 ∧ ∃ xs, xs.length < N ∧ Fed next last xs a.2 a'.2 v.2
  ends r r' w v := r = r' ∧ w = v.1 ∧ ∀ o, r' = .ok (.ok o) → v.2 = last

section Turns

variable (k : Kit W I α P G F β) {next : Next S I α} {last : S}

theorem find_none (n : Nat) {c : Walk (Lookahead I α) P G} {s : S} (h : c.source.Supplies next last s [])
    (w : W) : ∃ c', Rest.find (k.fed next) (n + 1) (.iterate .each c) (w, s) =
      .returned (.nothing, .iterate .each c') (w, last) := by
  obtain ⟨a, ha⟩ := h.next_none (k := k) w
  refine ⟨{ c with source := a }, ?_⟩
  have hwalk : Walk.next ((k.fed next).scan .each (Lookahead.next (k.fed next).next)) (n + 1) c (w, s) =
      .returned (.nothing, { c with source := a }) (w, last) := Effect.bind_of_returned _ ha
  exact Effect.bind_of_returned _ hwalk

theorem find_some (n : Nat) {c : Walk (Lookahead I α) P G} {s : S} {x : α} {xs : List α}
    (h : c.source.Supplies next last s (x :: xs)) (w : W) :
    ∃ a s', a.Supplies next last s' xs ∧ Rest.find (k.fed next) (n + 1) (.iterate .each c) (w, s) =
      ((k.step c.consumer (.element x)).within S >>= fun r => pure (.step r.1, .iterate .each
        { source := a, filter := c.filter, consumer := r.2, index := c.index + 1 })) (w, s') := by
  obtain ⟨a, s', hrest, ha⟩ := h.next_some (k := k) w
  refine ⟨a, s', hrest, ?_⟩
  have hwalk : Walk.next ((k.fed next).scan .each (Lookahead.next (k.fed next).next)) (n + 1) c (w, s) =
      ((k.step c.consumer (.element x)).within S >>= fun r => pure (.step r.1,
        { source := a, filter := c.filter, consumer := r.2, index := c.index + 1 })) (w, s') :=
    Effect.bind_of_returned _ ha
  rw [Rest.find, located, Effect.bind_of_eq _ hwalk, bind_assoc]
  rfl

/-- After a step that has resolved. The chain knows that this was its last one, the loop asks its source. -/
theorem fed_judged (n fuel : Nat) {xs : List α} {c c' : Rest I α P G} (r : Resolution β) {w : W} {s : S}
    (h : Fed next last xs c c' s) (hxs : xs.length < fuel) :
    (fedTie next last).judged (course (k.fed next).isTrue (k.fed next).summand) (Rest.find (k.fed next) (n + 1))
      fuel ((course k.isTrue k.summand).judge c r)
      ((course (k.fed next).isTrue (k.fed next).summand).judge c' r) w (w, s) := by
  obtain ⟨fuel, rfl⟩ : ∃ m, fuel = m + 1 := ⟨fuel - 1, by omega⟩
  match r with
  | .error cause => exact ⟨rfl, rfl, fun o ho => nomatch ho⟩
  | .ok (.error e) => exact ⟨rfl, rfl, fun o ho => nomatch ho⟩
  | .ok (.ok b) =>
    cases h with
    | none g => exact ⟨rfl, rfl, fun _ _ => rfl⟩
    | @elements _ c _ h =>
      cases xs with
      | nil =>
        obtain ⟨c', hfind⟩ := find_none k n h w
        exact ⟨Nat.succ_pos fuel, _, _, hfind, rfl, rfl, fun _ _ => rfl⟩
      | cons x xs => exact ⟨rfl, x :: xs, Nat.le_of_lt_succ hxs, .elements h⟩

/-- Both sides poll the same step. -/
theorem fed_meet (n fuel : Nat) {xs : List α} {x : F} {c c' : Rest I α P G} {w : W} {s : S}
    (h : Fed next last xs c c' s) (hxs : xs.length < fuel) :
    (Course.meet k.poll.stage (.step x, c) w).Paired Beside
      ((fedTie next last).met (course k.isTrue k.summand) (course (k.fed next).isTrue (k.fed next).summand)
        (Rest.find (k.fed next) (n + 1)) fuel) (Course.meet (k.fed next).poll.stage (.step x, c') (w, s)) := by
  have hwithin : (k.fed next).poll.stage x = (k.poll.stage x).within S := Poller.stage_within k.poll x
  rw [Course.meet, Course.meet, hwithin]
  refine (Ending.Paired.within (k.poll.stage x) w s).bind fun a a' w v ha => ?_
  obtain ⟨w', s'⟩ := v
  obtain ⟨rfl, rfl, rfl⟩ := ha
  cases a with
  | inl r => exact fed_judged k n fuel r h hxs
  | inr y => exact ⟨rfl, rfl, xs, hxs, h⟩

theorem simulation_fed (n : Nat) :
    Course.Simulation (fedTie next last) (course k.isTrue k.summand) (Rest.find k 0) k.poll.stage
      (course (I := I) (α := α) (P := P) (G := G) (k.fed next).isTrue (k.fed next).summand)
      (Rest.find (k.fed next) (n + 1)) (k.fed next).poll.stage where
  more h := by
    obtain ⟨hx, hw, xs, hxs, h⟩ := h
    exact ⟨hx, hw, xs, hxs.trans (Nat.lt_succ_self _), h⟩
  under {fuel x c x' c' w v} h := by
    obtain ⟨hx, rfl, xs, hxs, h⟩ := h
    obtain rfl : x = x' := hx
    exact fed_meet k n fuel h hxs
  ahead {fuel c c' w v} h := by
    obtain ⟨w', s⟩ := v
    obtain ⟨rfl, xs, hxs, h⟩ := h
    cases h with
    | none g => exact ⟨rfl, rfl, fun _ _ => rfl⟩
    | @elements _ c _ h =>
      cases xs with
      | nil =>
        obtain ⟨c', hfind⟩ := find_none k n h w
        rw [Effect.bind_of_returned _ hfind]
        exact ⟨rfl, rfl, fun _ _ => rfl⟩
      | cons x xs =>
        obtain ⟨a, s', hrest, hfind⟩ := find_some k n h w
        rw [Effect.bind_of_eq _ hfind, Rest.find, bind_assoc, bind_assoc]
        refine (Ending.Paired.within (k.step c.consumer (.element x)) w s').bind fun r r' w v hr => ?_
        obtain ⟨w', s'⟩ := v
        obtain ⟨rfl, rfl, rfl⟩ := hr
        let later : Walk (Lookahead I α) P G :=
          { source := a, filter := c.filter, consumer := r.2, index := c.index + 1 }
        have hplace : Fed next last xs (.chain r.2 xs) (.iterate .each later) s' := .elements (c := later) hrest
        exact fed_meet k n fuel hplace hxs

end Turns

/-! ## The whole statement -/

theorem private_fed (next : Next S I α) (last : S) : (fedTie next last : Course.Tie W (W × S) (Rest I α P G)
    (Rest I α P G) F F (Option Int32) (Option Int32)).Private where
  worlds := rfl
  ahead h := ⟨h.1, fun _ => ⟨rfl, h.2⟩⟩
  under h := ⟨h.2.1, fun _ => ⟨h.1, rfl, h.2.2⟩⟩

/-- The two jobs when they were made. -/
theorem fed_begun {next : Next S I α} {last : S} {source : I} {s : S} {xs : List α}
    (h : Supplies next last source s xs) {n : Nat} (hn : xs.length < n) (filter : P) (consumer : G) :
    ∃ entry source' s', next source s = .returned (entry, source') s' ∧
      ∀ w : W, (fedTie next last).begun n (view (chained xs consumer : Job I α P G F))
        (view (.iterate .each (.looked entry source' filter consumer) : Job I α P G F)) w (w, s') := by
  have hview : view (chained xs consumer : Job I α P G F) = .ahead (.chain consumer xs) := by
    change viewTower consumer (xs.foldl .first .ground) [] = _
    rw [viewTower_foldl, List.append_nil]
    rfl
  rw [hview]
  cases h with
  | @none _ source' _ h => exact ⟨none, source', last, h, fun w => ⟨rfl, [], Nat.zero_le n, .none consumer⟩⟩
  | @some _ source' _ s' x xs h hrest =>
    let place : Walk (Lookahead I α) P G :=
      { source := { source := source', seen := some (some x) }, filter, consumer }
    have hplace : Fed next last (x :: xs) (.chain consumer (x :: xs)) (.iterate .each place) s' :=
      .elements (c := place) (.seen x hrest)
    exact ⟨some x, source', s', h, fun w => ⟨rfl, x :: xs, hn.le, hplace⟩⟩

/-- Make a job over a source that has a part of the world to itself, and ask it. -/
def askedFed {γ : Type} (k : Kit W I α P G F β) (next : Next S I α) (close : S → Option Int32 → γ)
    (fuel : Nat) (plan : Plan I α) (filter : P) (consumer : G) (s : S) (gaps : List (Effect W Unit)) :
    Effect W (List (Poll γ)) :=
  (Job.start (k.fed next).next (k.fed next).step fuel plan filter consumer).owning s >>=
    (Poller.owned close (poll (k.fed next) fuel)).asked gaps

/-- The chain over the elements of a source and the loop over the source make the same calls in the same order,
all of them in polls, and give the same answers. The chain asks its source for all elements, up to the first
time that there is none, when it is made, and never again. The loop asks for one element when it is made; if it
comes to its end, it has asked for as many as the chain. -/
theorem chain_eq_loop (k : Kit W I α P G F β) (next : Next S I α) {last : S} {source : I} {s : S} {xs : List α}
    (h : Supplies next last source s xs) {fuel : Nat} (hfuel : xs.length < fuel) (filter : P) (consumer : G) :
    (∀ gaps, askedFed k next (fun _ o => o) fuel (.chain source) filter consumer s gaps =
      askedFed k next (fun _ o => o) fuel (.iterate .each source) filter consumer s gaps) ∧
    (∀ w, Job.start (k.fed next).next (k.fed next).step fuel (.chain source) filter consumer (w, s) =
      .returned (chained xs consumer) (w, last)) ∧
    (∀ c, poll (k.fed next) fuel (.chain c) = (poll k fuel (.chain c)).within S) ∧
    (Job.start (k.fed next).next (k.fed next).step fuel (.iterate .each source) filter consumer =
      (next source).apart W >>= fun r => pure (.iterate .each (.looked r.1 r.2 filter consumer))) ∧
    ∀ gaps w, (askedFed k next (fun s _ => s) fuel (.iterate .each source) filter consumer s gaps w).Ensures
      (fun _ => True) fun answers _ => ∀ s', .ready (.ok s') ∈ answers → s' = last := by
  obtain ⟨n, rfl⟩ : ∃ m, fuel = m + 1 := ⟨fuel - 1, by omega⟩
  obtain ⟨entry, source', s', hnext, hbegun⟩ := fed_begun (P := P) (G := G) (F := F) h hfuel filter consumer
  have hlinks : Fits (n + 1) (chained xs consumer : Job I α P G F) := by
    change links (xs.foldl .first .ground) ≤ n + 1
    rw [links_foldl]
    exact (Nat.zero_add _).le.trans hfuel.le
  have hchain : (Job.start (k.fed next).next (k.fed next).step (n + 1) (.chain source) filter consumer).owning s =
      pure (chained xs consumer, last) := by
    funext w
    rw [Effect.owning, start_chain k h hfuel]
    rfl
  have hloop : (Job.start (k.fed next).next (k.fed next).step (n + 1) (.iterate .each source) filter
      consumer).owning s = pure (.iterate .each (.looked entry source' filter consumer), s') := by
    funext w
    rw [Effect.owning, start_loop, Effect.bind_of_returned _ (Effect.apart_of_returned hnext w)]
    rfl
  have halike : ∀ w : W, Poller.Alike (Poller.owned (fun _ o => o) (poll (k.fed next) (n + 1)))
      (Poller.owned (fun _ o => o) (poll (k.fed next) (n + 1))) (chained xs consumer, last)
      (.iterate .each (.looked entry source' filter consumer), s') := fun w =>
    (chain_alike k next (n + 1) 0 { consumer, tower := xs.foldl .first .ground } last).symm.trans
      (alike_owned_of_simulation (private_fed next last) (fun hends => ⟨hends.1.trans (Resolution.map_id _).symm,
        hends.2.1⟩) (simulation_fed k n) (Nat.zero_add _) (Nat.add_zero _) (chained xs consumer)
        (.iterate .each (.looked entry source' filter consumer)) hlinks rfl (hbegun w))
  refine ⟨fun gaps => ?_, start_chain k h hfuel filter consumer, fun c => poll_chain_within k next _ _ c,
    start_loop k next (n + 1) source filter consumer, fun gaps w => ?_⟩
  · rw [askedFed, askedFed, hchain, hloop, pure_bind, pure_bind]
    funext w
    exact congrFun ((halike w).asked_eq gaps) w
  · rw [askedFed, hloop, pure_bind]
    exact asked_owned_ensures (private_fed next last) (fun hends => hends.2.2 _ rfl) (simulation_fed k n)
      (Nat.zero_add _) (Nat.add_zero _) (chained xs consumer)
      (.iterate .each (.looked entry source' filter consumer)) hlinks rfl hbegun gaps w

/-- A list that counts how often it is asked. -/
def counted : Next Nat (List α) α := fun xs n => .returned (xs.head?, xs.tail) (n + 1)

theorem two_eq_loop :
    Supplies counted 3 [(5 : Int32), 7] 0 [5, 7] ∧ [(5 : Int32), 7].length < 3 ∧
      askedFed Kit.recording counted (fun _ o => o) 3 (.iterate .each [(5 : Int32), 7]) () () 0
        [pure (), pure (), pure ()] [] =
          .returned [.pending, .pending, .ready (.ok none)] [.element 5, .element 7] := by
  have hsupplies : Supplies counted 3 [(5 : Int32), 7] 0 [5, 7] := .some rfl (.some rfl (.none rfl))
  have hfuel : [(5 : Int32), 7].length < 3 := by decide
  refine ⟨hsupplies, hfuel, ?_⟩
  have heq := (chain_eq_loop Kit.recording counted hsupplies hfuel () ()).1 [pure (), pure (), pure ()]
  exact (congrFun heq []).symm.trans rfl

end Job

end Stepwise
