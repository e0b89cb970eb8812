import Stepwise.Proofs.Trampoline.Evaluation

/-! # Which closures run

The work and the continuations that a user hands to a computation are closures, and each of them can be run
only once. To see which ones run, every closure gets a number when it is made, and a `Journal` beside the
world keeps the numbers of those that ran, the latest first.

* `numbered` numbers the closures of a computation, `Meaning.numbered` those that are made later, by other
  closures. What the library builds on its own, by putting two continuations together or a value in front of
  one, has no number: it runs the closures in it.
* `Numbers t ids t'`: the computation `t'` is `t` with the numbers `ids` on its closures, in the order in which
  they are due. `resume_beside` and `force_beside` say that only the first one runs, and that those that are new
  come before the others.
* `Journal.Linear ids j`: the closures `ids` and those that ran are all that were made, each one once.
  `runWith_beside` carries it through a run: in the end each closure that was ever made has run exactly once,
  and what the numbered run comes to is what the plain one comes to.
-/

namespace Stepwise.Trampoline
set_option autoImplicit false

open Effect (Agree Ends)

universe u v

structure Journal where
  /-- The number of the next closure. -/
  fresh : Nat
  calls : List Nat := []

namespace Journal

def call (id : Nat) (j : Journal) : Journal := { j with calls := id :: j.calls }

/-- The closures that are due and those that ran are all that were made. -/
def Linear (ids : List Nat) (j : Journal) : Prop := (ids ++ j.calls).Perm (List.range j.fresh)

def EachOnce (j : Journal) : Prop := j.calls.Perm (List.range j.fresh)

def AtMostOnce (j : Journal) : Prop := j.calls.Nodup

variable {ids rest : List Nat} {id : Nat} {j : Journal}

theorem Linear.atMostOnce (h : j.Linear ids) : j.AtMostOnce := by
  have hnodup : (ids ++ j.calls).Nodup := h.nodup_iff.2 List.nodup_range
  exact (List.nodup_append.1 hnodup).2.1

theorem Linear.call (h : j.Linear (id :: rest)) : (j.call id).Linear rest := by
  have hmiddle : (rest ++ id :: j.calls).Perm (id :: (rest ++ j.calls)) := List.perm_middle
  exact hmiddle.trans h

/-- The first closure that is due runs and makes some more. -/
theorem Linear.next (h : j.Linear (id :: rest)) (made : Nat) :
    Linear (List.range' j.fresh made ++ rest) ⟨j.fresh + made, id :: j.calls⟩ := by
  have hrange : List.range (j.fresh + made) = List.range j.fresh ++ List.range' j.fresh made := by
    have happend := List.range'_append_1 (s := 0) (m := j.fresh) (n := made)
    rw [Nat.zero_add] at happend
    rw [List.range_eq_range', List.range_eq_range', happend]
  rw [Linear, hrange, List.append_assoc]
  exact List.perm_append_comm.trans (h.call.append_right _)

end Journal

/-! ## Numbering -/

section Numbering

variable {τ κ σ α : Type}

/-- Computations whose closures are numbered. -/
abbrev Tracked (τ κ σ α : Type) := Trampoline (Nat × τ) (Nat × κ) (σ × Journal) α

def note (id : Nat) : Effect (σ × Journal) Unit := Effect.changes fun ws => (ws.1, ws.2.call id)

/-- The function of a `map` that notes when it runs. -/
def notedMap (id : Nat) (f : α → Effect σ α) (v : α) : Effect (σ × Journal) α := do
  note id
  (f v).within Journal

def Cont.closures : Cont κ σ α → Nat
  | .call _ => 1
  | .mapping _ => 1
  | .compose first second => first.closures + second.closures

def Thunk.closures : Thunk τ κ σ α → Nat
  | .call _ => 1
  | .feed next _ => next.closures

def closures : Trampoline τ κ σ α → Nat
  | .done _ => 0
  | .more work => work.closures
  | .andThen first next => first.closures + next.closures

/-- Number the closures from `id` on. -/
def Cont.numbered (id : Nat) : Cont κ σ α → Cont (Nat × κ) (σ × Journal) α
  | .call k => .call (id, k)
  | .mapping f => .mapping (notedMap id f)
  | .compose first second => .compose (first.numbered id) (second.numbered (id + first.closures))

def Thunk.numbered (id : Nat) : Thunk τ κ σ α → Thunk (Nat × τ) (Nat × κ) (σ × Journal) α
  | .call t => .call (id, t)
  | .feed next v => .feed (next.numbered id) v

def numbered (id : Nat) : Trampoline τ κ σ α → Tracked τ κ σ α
  | .done v => .done v
  | .more work => .more (work.numbered id)
  | .andThen first next => .andThen (first.numbered id) (next.numbered (id + first.closures))

/-- The journal of a computation none of whose closures has run. -/
def journal (t : Trampoline τ κ σ α) : Journal := { fresh := t.closures }

/-- Number the closures that were made. -/
def adopt (t : Trampoline τ κ σ α) : Effect (σ × Journal) (Tracked τ κ σ α) := fun ws =>
  .returned (t.numbered ws.2.fresh) (ws.1, { ws.2 with fresh := ws.2.fresh + t.closures })

/-- Note which closure runs, run it, and number what it makes. -/
def Meaning.numbered (b : Meaning τ κ σ α) : Meaning (Nat × τ) (Nat × κ) (σ × Journal) α where
  thunk t := do
    note t.1
    let next ← (b.thunk t.2).within Journal
    adopt next
  cont k v := do
    note k.1
    let next ← (b.cont k.2 v).within Journal
    adopt next

/-! ## Computations with numbers -/

inductive Cont.Numbers : Cont κ σ α → List Nat → Cont (Nat × κ) (σ × Journal) α → Prop
  | call (id : Nat) (k : κ) : Numbers (.call k) [id] (.call (id, k))
  | mapping (id : Nat) (f : α → Effect σ α) : Numbers (.mapping f) [id] (.mapping (notedMap id f))
  | compose {first second : Cont κ σ α} {ids ids' : List Nat}
      {first' second' : Cont (Nat × κ) (σ × Journal) α} (hfirst : Numbers first ids first')
      (hsecond : Numbers second ids' second') :
      Numbers (.compose first second) (ids ++ ids') (.compose first' second')

inductive Thunk.Numbers :
    Thunk τ κ σ α → List Nat → Thunk (Nat × τ) (Nat × κ) (σ × Journal) α → Prop
  | call (id : Nat) (t : τ) : Numbers (.call t) [id] (.call (id, t))
  | feed {next : Cont κ σ α} {ids : List Nat} {next' : Cont (Nat × κ) (σ × Journal) α} (v : α)
      (h : next.Numbers ids next') : Numbers (.feed next v) ids (.feed next' v)

inductive Numbers : Trampoline τ κ σ α → List Nat → Tracked τ κ σ α → Prop
  | done (v : α) : Numbers (.done v) [] (.done v)
  | more {work : Thunk τ κ σ α} {ids : List Nat} {work' : Thunk (Nat × τ) (Nat × κ) (σ × Journal) α}
      (h : work.Numbers ids work') : Numbers (.more work) ids (.more work')
  | andThen {first : Trampoline τ κ σ α} {next : Cont κ σ α} {ids ids' : List Nat}
      {first' : Tracked τ κ σ α} {next' : Cont (Nat × κ) (σ × Journal) α}
      (hfirst : Numbers first ids first') (hnext : next.Numbers ids' next') :
      Numbers (.andThen first next) (ids ++ ids') (.andThen first' next')

/-- Continuations that wait, with numbers. -/
inductive WaitingNumbers :
    List (Cont κ σ α) → List Nat → List (Cont (Nat × κ) (σ × Journal) α) → Prop
  | nil : WaitingNumbers [] [] []
  | cons {next : Cont κ σ α} {waiting : List (Cont κ σ α)} {ids ids' : List Nat}
      {next' : Cont (Nat × κ) (σ × Journal) α} {waiting' : List (Cont (Nat × κ) (σ × Journal) α)}
      (hnext : next.Numbers ids next') (hwaiting : WaitingNumbers waiting ids' waiting') :
      WaitingNumbers (next :: waiting) (ids ++ ids') (next' :: waiting')

theorem Cont.numbers_numbered (next : Cont κ σ α) (id : Nat) :
    next.Numbers (List.range' id next.closures) (next.numbered id) := by
  induction next generalizing id with
  | call k => exact .call id k
  | mapping f => exact .mapping id f
  | compose first second ihfirst ihsecond =>
    rw [closures, ← List.range'_append_1]
    exact .compose (ihfirst id) (ihsecond (id + first.closures))

theorem Thunk.numbers_numbered (work : Thunk τ κ σ α) (id : Nat) :
    work.Numbers (List.range' id work.closures) (work.numbered id) := by
  cases work with
  | call t => exact .call id t
  | feed next v => exact .feed v (next.numbers_numbered id)

theorem numbers_numbered (t : Trampoline τ κ σ α) (id : Nat) :
    t.Numbers (List.range' id t.closures) (t.numbered id) := by
  induction t generalizing id with
  | done v => exact .done v
  | more work => exact .more (work.numbers_numbered id)
  | andThen first next ih =>
    rw [closures, ← List.range'_append_1]
    exact .andThen (ih id) (next.numbers_numbered (id + first.closures))

theorem linear_journal (t : Trampoline τ κ σ α) :
    t.journal.Linear (List.range' 0 t.closures) := by
  rw [Journal.Linear, journal, List.append_nil, List.range_eq_range']

end Numbering

/-! ## A run beside its numbered run -/

section Endings

variable {σ : Type} {A A' B B' : Type u}

/-- The endings are of the same kind, in the same world. `Q` holds of the results and the journal; where there
is no result, `I` holds of the journal. -/
def Beside (I : Journal → Prop) (Q : A → B → Journal → Prop) : Ending σ A → Ending (σ × Journal) B → Prop
  | .returned a s, .returned b ws => ws.1 = s ∧ Q a b ws.2
  | .broken reason s, .broken reason' ws => reason' = reason ∧ ws.1 = s ∧ I ws.2
  | .cut s, .cut ws => ws.1 = s ∧ I ws.2
  | _, _ => False

variable {I I' : Journal → Prop} {Q : A → B → Journal → Prop} {Q' : A' → B' → Journal → Prop}

namespace Beside

/-- What is run beside the journal, from the same world. -/
theorem within (m : Effect σ A) (s : σ) (j : Journal) :
    Beside (· = j) (fun a b j' => b = a ∧ j' = j) (m s) (m.within Journal (s, j)) := by
  simp only [Effect.within]
  cases m s with
  | returned a s' => exact ⟨rfl, rfl, rfl⟩
  | broken reason s' => exact ⟨rfl, rfl, rfl⟩
  | cut s' => exact ⟨rfl, rfl⟩

variable {e : Ending σ A} {e' : Ending (σ × Journal) B}

theorem endings (h : Beside I Q e e') :
    (∃ a s b j, e = .returned a s ∧ e' = .returned b (s, j) ∧ Q a b j) ∨
    (∃ reason s j, e = .broken reason s ∧ e' = .broken reason (s, j) ∧ I j) ∨
    ∃ s j, e = .cut s ∧ e' = .cut (s, j) ∧ I j := by
  cases e with
  | returned a s =>
    cases e' with
    | returned b ws =>
      obtain ⟨rfl, hQ⟩ := h
      exact Or.inl ⟨a, ws.1, b, ws.2, rfl, rfl, hQ⟩
    | _ => exact h.elim
  | broken reason s =>
    cases e' with
    | broken reason' ws =>
      obtain ⟨rfl, rfl, hI⟩ := h
      exact Or.inr (Or.inl ⟨reason', ws.1, ws.2, rfl, rfl, hI⟩)
    | _ => exact h.elim
  | cut s =>
    cases e' with
    | cut ws =>
      obtain ⟨rfl, hI⟩ := h
      exact Or.inr (Or.inr ⟨ws.1, ws.2, rfl, rfl, hI⟩)
    | _ => exact h.elim

theorem mono {Q' : A → B → Journal → Prop} (h : Beside I Q e e') (hI : ∀ j, I j → I' j)
    (hQ : ∀ a b j, Q a b j → Q' a b j) : Beside I' Q' e e' := by
  obtain ⟨a, s, b, j, rfl, rfl, hj⟩ | ⟨reason, s, j, rfl, rfl, hj⟩ | ⟨s, j, rfl, rfl, hj⟩ := h.endings
  · exact ⟨rfl, hQ a b j hj⟩
  · exact ⟨rfl, rfl, hI j hj⟩
  · exact ⟨rfl, hI j hj⟩

theorem bind {m : Effect σ A} {m' : Effect (σ × Journal) B} {k : A → Effect σ A'}
    {k' : B → Effect (σ × Journal) B'} {s : σ} {ws : σ × Journal} (h : Beside I Q (m s) (m' ws))
    (hI : ∀ j, I j → I' j) (hk : ∀ a b s j, Q a b j → Beside I' Q' (k a s) (k' b (s, j))) :
    Beside I' Q' ((m >>= k) s) ((m' >>= k') ws) := by
  obtain ⟨a, s', b, j, hm, hm', hj⟩ | ⟨reason, s', j, hm, hm', hj⟩ | ⟨s', j, hm, hm', hj⟩ := h.endings
  · rw [Effect.bind_of_returned k hm, Effect.bind_of_returned k' hm']
    exact hk a b s' j hj
  · rw [Effect.bind_of_broken k hm, Effect.bind_of_broken k' hm']
    exact ⟨rfl, rfl, hI j hj⟩
  · rw [Effect.bind_of_cut k hm, Effect.bind_of_cut k' hm']
    exact ⟨rfl, hI j hj⟩

theorem isCut (h : Beside I Q e e') : e'.isCut = e.isCut := by
  obtain ⟨a, s, b, j, rfl, rfl, -⟩ | ⟨reason, s, j, rfl, rfl, -⟩ | ⟨s, j, rfl, rfl, -⟩ := h.endings
  · rfl
  · rfl
  · rfl

/-- The journal in the end is one that is spoken of. -/
theorem inWorld (h : Beside I Q e e') :
    Beside (fun j => I j ∧ e'.world.2 = j) (fun a b j => Q a b j ∧ e'.world.2 = j) e e' := by
  obtain ⟨a, s, b, j, rfl, rfl, hj⟩ | ⟨reason, s, j, rfl, rfl, hj⟩ | ⟨s, j, rfl, rfl, hj⟩ := h.endings
  · exact ⟨rfl, hj, rfl⟩
  · exact ⟨rfl, rfl, hj, rfl⟩
  · exact ⟨rfl, hj, rfl⟩

theorem journal {R : Journal → Prop} (h : Beside I Q e e') (hI : ∀ j, I j → R j)
    (hQ : ∀ a b j, Q a b j → R j) : R e'.world.2 := by
  obtain ⟨a, s, b, j, rfl, rfl, hj⟩ | ⟨reason, s, j, rfl, rfl, hj⟩ | ⟨s, j, rfl, rfl, hj⟩ := h.endings
  · exact hQ a b j hj
  · exact hI j hj
  · exact hI j hj

end Beside

end Endings

section Runs

variable {τ κ σ α : Type} (b : Meaning τ κ σ α)

/-- The closure `id` has run. What it made comes before the closures that were due anyway. -/
def Advanced (id : Nat) (rest : List Nat) (j : Journal) (t : Trampoline τ κ σ α)
    (t' : Tracked τ κ σ α) (j' : Journal) : Prop :=
  ∃ made, j' = ⟨j.fresh + made, id :: j.calls⟩ ∧ t.Numbers (List.range' j.fresh made ++ rest) t'

theorem adopt_beside (id : Nat) (m : Effect σ (Trampoline τ κ σ α)) (s : σ) (j : Journal) :
    Beside (· = j.call id) (Advanced id [] j) (m s)
      ((m.within Journal >>= adopt) (s, j.call id)) := by
  have hm : m s = (m >>= pure) s := by rw [bind_pure]
  rw [hm]
  refine (Beside.within m s (j.call id)).bind (fun _ h => h) ?_
  rintro _ t s _ ⟨rfl, rfl⟩
  refine ⟨rfl, t.closures, rfl, ?_⟩
  rw [List.append_nil]
  exact t.numbers_numbered j.fresh

theorem resume_beside {next : Cont κ σ α} {ids : List Nat} {next' : Cont (Nat × κ) (σ × Journal) α}
    (h : next.Numbers ids next') (v : α) (s : σ) (j : Journal) :
    ∃ id rest, ids = id :: rest ∧ Beside (· = j.call id) (Advanced id rest j) (b.resume next v s)
      (b.numbered.resume next' v (s, j)) := by
  induction h generalizing v s j with
  | call id k => exact ⟨id, [], rfl, adopt_beside id (b.cont k v) s j⟩
  | mapping id f =>
    refine ⟨id, [], rfl, ?_⟩
    have hwithin := Beside.within (f v) s (j.call id)
    refine hwithin.bind (k := fun v => pure (done v)) (fun _ h => h) ?_
    rintro _ v s _ ⟨rfl, rfl⟩
    exact ⟨rfl, 0, rfl, .done v⟩
  | @compose first second ids ids' first' second' hfirst hsecond ih _ =>
    obtain ⟨id, rest, rfl, hadvanced⟩ := ih v s j
    refine ⟨id, rest ++ ids', rfl, hadvanced.bind (fun _ h => h) ?_⟩
    rintro t t' s _ ⟨made, rfl, hnumbers⟩
    refine ⟨rfl, made, rfl, ?_⟩
    rw [← List.append_assoc]
    exact .andThen hnumbers hsecond

theorem force_beside {work : Thunk τ κ σ α} {ids : List Nat}
    {work' : Thunk (Nat × τ) (Nat × κ) (σ × Journal) α} (h : work.Numbers ids work') (s : σ)
    (j : Journal) :
    ∃ id rest, ids = id :: rest ∧ Beside (· = j.call id) (Advanced id rest j) (b.force work s)
      (b.numbered.force work' (s, j)) := by
  cases h with
  | call id t => exact ⟨id, [], rfl, adopt_beside id (b.thunk t) s j⟩
  | feed v hnext => exact resume_beside b hnext v s j

/-! ## Runs -/

/-- The numbered run, from the journal `j` on, comes to what the plain one comes to. Every closure that was ever
made has run once; if the run did not come to a value, none has run twice. -/
def Recorded (j : Journal) (e : Ending σ α) (e' : Ending (σ × Journal) α) : Prop :=
  Beside (fun j' => j'.AtMostOnce ∧ j.calls <:+ j'.calls)
    (fun v v' j' => v' = v ∧ j'.EachOnce ∧ j.calls <:+ j'.calls) e e'

theorem Recorded.mono {j j₀ : Journal} {e : Ending σ α} {e' : Ending (σ × Journal) α}
    (h : Recorded j e e') (hj : j₀.calls <:+ j.calls) : Recorded j₀ e e' :=
  Beside.mono h (fun _ h => ⟨h.1, hj.trans h.2⟩) fun _ _ _ h => ⟨h.1, h.2.1, hj.trans h.2.2⟩

/-- A closure runs, and what is done afterwards goes on with what it made. -/
theorem Recorded.bind {m : Effect σ (Trampoline τ κ σ α)} {m' : Effect (σ × Journal) (Tracked τ κ σ α)}
    {k : Trampoline τ κ σ α → Effect σ α} {k' : Tracked τ κ σ α → Effect (σ × Journal) α} {s : σ}
    {j : Journal} {id : Nat} {rest ids' : List Nat}
    (hm : Beside (· = j.call id) (Advanced id rest j) (m s) (m' (s, j)))
    (hj : j.Linear (id :: rest ++ ids'))
    (hk : ∀ {t t' ids}, t.Numbers ids t' → ∀ s {j : Journal}, j.Linear (ids ++ ids') →
      Recorded j (k t s) (k' t' (s, j))) :
    Recorded j ((m >>= k) s) ((m' >>= k') (s, j)) := by
  have hgrows : j.calls <:+ id :: j.calls := List.suffix_cons id j.calls
  refine Beside.bind hm ?_ ?_
  · rintro _ rfl
    exact ⟨hj.call.atMostOnce, hgrows⟩
  · rintro t t' s _ ⟨made, rfl, hnumbers⟩
    have hlinear : Journal.Linear (List.range' j.fresh made ++ rest ++ ids')
        ⟨j.fresh + made, id :: j.calls⟩ := by
      rw [List.append_assoc]
      exact Journal.Linear.next hj made
    exact (hk hnumbers s hlinear).mono hgrows

theorem runWith_beside (fuel : Nat) {waiting : List (Cont κ σ α)}
    {waiting' : List (Cont (Nat × κ) (σ × Journal) α)} {t : Trampoline τ κ σ α}
    {t' : Tracked τ κ σ α} {ids ids' : List Nat} (ht : t.Numbers ids t')
    (hwaiting : WaitingNumbers waiting ids' waiting') (s : σ) {j : Journal}
    (hj : j.Linear (ids ++ ids')) :
    Recorded j (runWith b fuel waiting t s) (runWith b.numbered fuel waiting' t' (s, j)) := by
  induction fuel generalizing waiting waiting' t t' ids ids' s j with
  | zero =>
    have hcut : j.AtMostOnce ∧ j.calls <:+ j.calls := ⟨hj.atMostOnce, List.suffix_rfl⟩
    cases ht with
    | done v =>
      cases hwaiting with
      | nil => exact ⟨rfl, rfl, hj, List.suffix_rfl⟩
      | cons hnext hwaiting => exact ⟨rfl, hcut⟩
    | more hwork => exact ⟨rfl, hcut⟩
    | andThen hfirst hnext => exact ⟨rfl, hcut⟩
  | succ fuel ih =>
    cases ht with
    | done v =>
      cases hwaiting with
      | nil => exact ⟨rfl, rfl, hj, List.suffix_rfl⟩
      | cons hnext hwaiting =>
        obtain ⟨id, rest, rfl, hresume⟩ := resume_beside b hnext v s j
        exact Recorded.bind hresume hj fun hnumbers s _ hj => ih hnumbers hwaiting s hj
    | more hwork =>
      obtain ⟨id, rest, rfl, hforce⟩ := force_beside b hwork s j
      exact Recorded.bind hforce hj fun hnumbers s _ hj => ih hnumbers hwaiting s hj
    | andThen hfirst hnext =>
      refine ih hfirst (.cons hnext hwaiting) s ?_
      rw [← List.append_assoc]
      exact hj

theorem run_recorded (t : Trampoline τ κ σ α) (fuel : Nat) (s : σ) :
    Recorded t.journal (t.run b fuel s) ((t.numbered 0).run b.numbered fuel (s, t.journal)) := by
  refine runWith_beside b fuel (t.numbers_numbered 0) .nil s ?_
  rw [List.append_nil]
  exact t.linear_journal

/-- A run comes to what the recursion comes to: to the same value in the same world, after the same closures in
the same order, each of which runs once. Neither comes to an end unless the other one does. -/
theorem run_evaluates (t : Trampoline τ κ σ α) :
    Agree (fun n => t.run b n) (fun n => eval b n t) ∧
      Agree (fun n => (t.numbered 0).run b.numbered n) (fun n => eval b.numbered n (t.numbered 0)) ∧
      ∀ fuel s, Recorded t.journal (t.run b fuel s)
        ((t.numbered 0).run b.numbered fuel (s, t.journal)) :=
  ⟨run_agrees_eval b t, run_agrees_eval b.numbered (t.numbered 0), run_recorded b t⟩

end Runs

end Stepwise.Trampoline
