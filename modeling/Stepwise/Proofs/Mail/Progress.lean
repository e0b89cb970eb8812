import Stepwise.Proofs.Mail.Places
import Stepwise.Proofs.Nest.Trace
import Stepwise.Proofs.Job.Returns

/-! # No message is lost

A poll of a job whose steps receive messages takes one message after the other until one is missing. It comes to
an end because each step that resolves empties a mailbox, so that the mailboxes bound the number of its steps.

* `letters` counts the messages that were not taken yet. `receive_letters`: a step that resolves takes one away.
* `pursue_returns` is by induction on the letters, with fuel for each of them; `poll_returns` and `run_returns`
  say so of polls and of sequences of actions. That the job `Finds` its steps is left to its source, its filter
  and its step; it does so if its source is `Finite`.
* `no_message_lost` puts this together with how things stand after any actions, with the elements that were passed,
  and with the one innermost step that a poll ends with if it does not resolve.
-/

namespace Stepwise.Mail
set_option autoImplicit false

open Script (World Value Mailbox)

variable {U I α P G C : Type}

/-! ## Messages that are left -/

def letters (w : World) : Nat := w.mailboxes.countP fun entry => entry.2.content.isSome

theorem letters_setMailbox (w : World) (c : Int64) (box : Mailbox) :
    letters (w.setMailbox c box) =
      (w.mailboxes.filter (·.1 != c)).countP (fun entry => entry.2.content.isSome) +
        if box.content.isSome then 1 else 0 := List.countP_cons

theorem letters_of_empty (w : World) (c : Int64) (waker : Option Nat) :
    letters (w.setMailbox c { content := none, waker }) ≤ letters w := by
  rw [letters_setMailbox]
  exact List.filter_sublist.countP_le

theorem letters_put (w : World) (c : Int64) (message : Outcome Value) :
    letters (w.setMailbox c { content := some message }) ≤ letters w + 1 := by
  rw [letters_setMailbox]
  exact Nat.add_le_add_right List.filter_sublist.countP_le 1

theorem letters_take {w : World} {c : Int64} {message : Outcome Value}
    (h : (w.mailbox c).content = some message) (waker : Option Nat) :
    letters (w.setMailbox c { content := none, waker }) < letters w := by
  have hsplit := List.countP_eq_countP_filter_add w.mailboxes
    (fun entry => entry.2.content.isSome) (fun entry => entry.1 != c)
  -- the mailbox of the channel is among those that are left out
  obtain ⟨box, hlookup⟩ : ∃ box, w.mailboxes.lookup c = some box := by
    cases hlookup : w.mailboxes.lookup c with
    | some box => exact ⟨box, rfl⟩
    | none =>
      have hbox : w.mailbox c = {} := by rw [World.mailbox, hlookup]; rfl
      rw [hbox] at h
      cases h
  have hbox : w.mailbox c = box := by rw [World.mailbox, hlookup]; rfl
  obtain ⟨before, after, hmailboxes, -⟩ := List.lookup_eq_some_iff.1 hlookup
  have hmem : (c, box) ∈ w.mailboxes.filter fun entry => !(entry.1 != c) := by
    rw [hmailboxes]
    simp
  have hpos : 0 < (w.mailboxes.filter fun entry => !(entry.1 != c)).countP
      fun entry => entry.2.content.isSome := by
    refine List.countP_pos_iff.2 ⟨(c, box), hmem, ?_⟩
    rw [← hbox, h]
    rfl
  rw [letters_setMailbox, letters]
  simp only [Option.isSome_none, Bool.false_eq_true, if_false]
  omega

/-- A step that resolves takes a message, one that waits takes none. -/
def Lighter {β : Type} (bound : Nat) : Resolution β ⊕ Int64 → U × Post α → Prop
  | .inr _, ws => letters ws.2.world ≤ bound
  | .inl _, ws => letters ws.2.world < bound

theorem receive_letters (bound : Nat) (c : Int64) (ws : U × Post α) (h : letters ws.2.world ≤ bound) :
    (Poller.stage receive c ws).Returns (Lighter bound) := by
  obtain ⟨u, p⟩ := ws
  rw [Poller.stage_eq]
  cases hbox : (p.world.mailbox c).content with
  | none =>
    rw [Effect.bind_of_returned _ (receive_of_empty hbox)]
    exact (letters_of_empty p.world c _).trans h
  | some message =>
    rw [Effect.bind_of_returned _ (receive_of_full hbox)]
    exact (letters_take hbox _).trans_le h

/-! ## One poll -/

section Courses

variable {γ β : Type} {co : Course C β γ} {find : C → Effect (U × Post α) (Found Int64 × C)}
  {step : Stage (U × Post α) Int64 β} {places : C → Prop}
  (hfind : ∀ bound c ws, places c → letters ws.2.world ≤ bound → (find c ws).Returns fun r ws =>
    letters ws.2.world ≤ bound ∧ ∀ x, r.1 = .step x → places r.2)
  (hstep : ∀ bound x ws, letters ws.2.world ≤ bound → (step x ws).Returns (Lighter bound))
  (habsorb : ∀ c b c', places c → co.absorb c b = some c' → places c')

include hfind hstep habsorb

/-- Each step that resolves takes a letter, and so there is fuel for all of them. -/
theorem pursue_returns (bound fuel : Nat) (hbound : bound ≤ fuel) (found : Found Int64) (c : C) (ws : U × Post α)
    (hplace : ∀ x, found = .step x → places c) (h : letters ws.2.world ≤ bound) :
    (co.pursue find step fuel (found, c) ws).Returns fun r ws =>
      letters ws.2.world ≤ bound ∧ ∀ s, r = .inr s → s.At places := by
  induction bound using Nat.strong_induction_on generalizing fuel found c ws with
  | h bound ih =>
  cases found with
  | nothing => rw [Course.pursue_nothing]; exact ⟨h, nofun⟩
  | failed e => rw [Course.pursue_failed]; exact ⟨h, nofun⟩
  | step x =>
    rw [Course.pursue_step]
    refine (hstep bound x ws h).bind fun r ws hr => ?_
    cases r with
    | inr x =>
      refine ⟨hr, ?_⟩
      rintro _ ⟨⟩
      exact hplace _ rfl
    | inl r =>
      have hlt : letters ws.2.world < bound := hr
      change (co.onward find step fuel c r ws).Returns _
      cases hj : co.judge c r with
      | inl r' =>
        rw [Course.onward_of_inl find step fuel hj]
        exact ⟨hlt.le, nofun⟩
      | inr c' =>
        obtain ⟨b, -, hb⟩ := Course.absorb_of_judge hj
        have hc' : places c' := habsorb c b c' (hplace x rfl) hb
        obtain ⟨fuel, rfl⟩ : ∃ m, fuel = m + 1 := ⟨fuel - 1, by omega⟩
        rw [Course.onward_succ find step fuel hj]
        have hle : letters ws.2.world ≤ bound - 1 := by omega
        refine (hfind (bound - 1) c' ws hc' hle).bind fun r ws hr => ?_
        refine (ih (bound - 1) (by omega) fuel (by omega) r.1 r.2 ws hr.2 hr.1).mono fun r ws hr => ?_
        exact ⟨hr.1.trans (Nat.sub_le bound 1), hr.2⟩

theorem stage_returns (bound fuel : Nat) (hbound : bound ≤ fuel) (s : Course.State C Int64)
    (ws : U × Post α) (hs : s.At places) (h : letters ws.2.world ≤ bound) :
    (co.stage find step fuel s ws).Returns fun r ws =>
      letters ws.2.world ≤ bound ∧ ∀ s, r = .inr s → s.At places := by
  cases s with
  | ahead c =>
    refine (hfind bound c ws hs h).bind fun r ws hr => ?_
    exact pursue_returns hfind hstep habsorb bound fuel hbound r.1 r.2 ws hr.2 hr.1
  | under found c =>
    refine pursue_returns hfind hstep habsorb bound fuel hbound found c ws ?_ h
    rintro x rfl
    exact hs
  | closed cause => exact ⟨h, nofun⟩

end Courses

/-! ## Jobs that find their steps -/

/-- The calls take and put no messages. -/
theorem kit_letters (calls : Nest.Calls U I α P G Int64) (again : Value → Bool) (summand : Value → Int32)
    (bound : Nat) : (kit calls again summand).Meets
      { free := fun ws => letters ws.2.world ≤ bound
        held := fun _ ws => letters ws.2.world ≤ bound
        waits := fun _ ws => letters ws.2.world ≤ bound
        failed := fun _ ws => letters ws.2.world ≤ bound
        stopped := fun _ ws => letters ws.2.world ≤ bound
        halted := fun _ => True } where
  next source ws h := by
    have hwithin := Ending.Ensures.within_of (R := fun p : Post α => letters p.world ≤ bound)
      (calls.next source) h
    exact hwithin.result.bind fun r ws h => h
  test p call ws h := by
    have hwithin := Ending.Ensures.within_of (R := fun p : Post α => letters p.world ≤ bound)
      (calls.test p call) h
    refine hwithin.result.bind fun r ws h => ?_
    obtain ⟨verdict, p⟩ := r
    cases verdict <;> exact h
  step g call ws h := by
    have hwithin := Ending.Ensures.within_of (R := fun p : Post α => letters p.world ≤ bound)
      (calls.step g call) h
    exact hwithin.result.bind fun r ws h => h
  halt _ _ := trivial

/-- From these places a job always finds its next step, or that there is none, and goes on from them. -/
structure Finds (k : Kit (U × Post α) I α P G Int64 Value) (fuel : Nat)
    (places : Job.Rest I α P G → Prop) : Prop where
  find : ∀ rest ws, places rest → (rest.find k fuel ws).Returns fun r _ => ∀ x, r.1 = .step x → places r.2
  absorb : ∀ rest b rest', places rest →
    (Job.course k.isTrue k.summand).absorb rest b = some rest' → places rest'

section Jobs

variable {calls : Nest.Calls U I α P G Int64} {again : Value → Bool} {summand : Value → Int32} {n : Nat}
  {places : Job.Rest I α P G → Prop}

theorem find_returns (hk : Finds (kit calls again summand) n places) (bound : Nat)
    (rest : Job.Rest I α P G) (ws : U × Post α) (hrest : places rest) (h : letters ws.2.world ≤ bound) :
    (rest.find (kit calls again summand) n ws).Returns fun r ws =>
      letters ws.2.world ≤ bound ∧ ∀ x, r.1 = .step x → places r.2 := by
  have hletters := Job.Rest.find_meets (kit_letters calls again summand bound) n rest ws h
  refine ((hk.find rest ws hrest).and hletters).mono fun r ws hr => ⟨?_, hr.1⟩
  have hfound := hr.2
  cases hr' : r.1 <;> rw [hr'] at hfound <;> exact hfound

theorem poll_returns (hk : Finds (kit calls again summand) n places) {bound : Nat} (hbound : bound ≤ n)
    (j : Job I α P G Int64) (ws : U × Post α) (hj : j.view.At places) (h : letters ws.2.world ≤ bound) :
    (Job.poll (kit calls again summand) n j ws).Returns fun r ws =>
      letters ws.2.world ≤ bound ∧ (r.1 = .pending → r.2.view.At places) := by
  have hstage : ((Job.course again summand).stage (Job.Rest.find (kit calls again summand) n)
      (Poller.stage receive) (n + j.extra) j.view ws).Returns fun r ws =>
        letters ws.2.world ≤ bound ∧ ∀ s, r = .inr s → s.At places :=
    stage_returns (find_returns hk) receive_letters hk.absorb bound (n + j.extra) (by omega) j.view ws hj h
  have hview := Job.stage_view (kit calls again summand) n (Job.fits_extra j)
  change ((Job.course (kit calls again summand).isTrue (kit calls again summand).summand).stage _
    (kit calls again summand).poll.stage (n + j.extra) j.view ws).Returns _ at hstage
  rw [← hview, Poller.stage_eq, bind_assoc] at hstage
  refine Ending.Returns.mono (Ending.Ensures.of_bind_pure hstage) fun r ws hr => ⟨hr.1, fun hpending => ?_⟩
  obtain ⟨answer, j'⟩ := r
  cases hpending
  exact hr.2 _ rfl

/-! ## Any number of actions -/

/-- The next poll, if there is to be one, begins at one of these places. -/
def Seat.At (places : Job.Rest I α P G → Prop) (s : Seat (Job I α P G Int64)) : Prop :=
  s.isOver = false → s.job.view.At places

theorem perform_returns (hk : Finds (kit calls again summand) n places) {bound : Nat} (hbound : bound ≤ n)
    (s : Seat (Job I α P G Int64)) (action : Action U) (ws : U × Post α) (hs : s.At places)
    (h : letters ws.2.world ≤ bound) :
    (perform (kit calls again summand) n s action ws).Returns fun s ws =>
      letters ws.2.world ≤ bound + 1 ∧ s.At places := by
  have hle : letters ws.2.world ≤ bound + 1 := h.trans (Nat.le_succ bound)
  have hpoll : s.isOver = false → (Job.poll (kit calls again summand) n s.job (ws.1, ws.2.begun)).Returns
      fun r ws => letters ws.2.world ≤ bound + 1 ∧ Seat.At places { job := r.2, answer := some r.1 } := by
    intro hover
    refine (poll_returns hk hbound s.job (ws.1, ws.2.begun) (hs hover) h).mono fun r ws hr => ?_
    refine ⟨hr.1.trans (Nat.le_succ bound), fun hover => ?_⟩
    obtain ⟨answer, job⟩ := r
    cases answer with
    | pending => exact hr.2 rfl
    | ready o => cases hover
    | panicked cause => cases hover
  refine perform_ensures (K := fun s ws => letters ws.2.world ≤ bound + 1 ∧ s.At places) ⟨hle, hs⟩ hpoll
    (fun c message _ => ?_) (fun _ => ⟨hle, hs⟩) action
  exact ⟨(letters_put ws.2.world c message).trans (Nat.add_le_add_right h 1), hs⟩

theorem actions_returns (hk : Finds (kit calls again summand) n places) (actions : List (Action U))
    {bound : Nat} (hbound : bound + actions.length ≤ n) (s : Seat (Job I α P G Int64)) (ws : U × Post α)
    (hs : s.At places) (h : letters ws.2.world ≤ bound) :
    (actions.foldlM (perform (kit calls again summand) n) s ws).Returns fun _ _ => True := by
  induction actions generalizing bound s ws with
  | nil => exact trivial
  | cons action actions ih =>
    rw [List.length_cons] at hbound
    rw [List.foldlM_cons]
    refine (perform_returns hk (by omega) s action ws hs h).bind fun s ws hs => ?_
    exact ih (by omega) s ws hs.2 hs.1

/-- With fuel for the messages, every action comes to an end if the job finds its steps. -/
theorem run_returns (hk : Finds (kit calls again summand) n places) (plan : Plan I α) (filter : P)
    (consumer : G) (actions : List (Action U)) (u : U)
    (hstart : (Job.start (kit calls again summand).next (kit calls again summand).step n plan filter
      consumer (u, {})).Returns fun j _ => (j.view : Course.State _ Int64).At places)
    (hlength : actions.length ≤ n) :
    (run (kit calls again summand) n plan filter consumer actions (u, {})).Returns fun _ _ => True := by
  have hletters := Job.start_meets (kit_letters calls again summand 0) n plan filter consumer (u, {}) le_rfl
  refine (hstart.and hletters).bind fun job ws hjob => ?_
  have hempty : letters ws.2.world ≤ 0 := by
    obtain ⟨_, _, hfree⟩ | ⟨_, _, _, hheld⟩ := Terms.fresh_cases hjob.2
    · exact hfree
    · exact hheld
  exact actions_returns hk actions (by omega) _ ws (fun _ => hjob.1) hempty

end Jobs

/-! ## Sources that come to an end -/

/-- The calls return, and the source has no more than so many elements. -/
structure Finite (size : I → Nat) (calls : Nest.Calls U I α P G Int64) : Prop where
  next : ∀ source u, ∃ entry source' u', calls.next source u = .returned (entry, source') u' ∧
    (entry.isSome → size source' < size source)
  test : ∀ p call u, ∃ r u', calls.test p call u = .returned r u'
  step : ∀ g call u, ∃ r u', calls.step g call u = .returned r u'

section Finite

variable {calls : Nest.Calls U I α P G Int64} {size : I → Nat}

theorem within_of_returned {A S : Type} {m : Effect U A} {a : A} {u u' : U} (s : S) (h : m u = .returned a u') :
    m.within S (u, s) = .returned a (u', s) := by
  simp only [Effect.within, h]

theorem Finite.sized (hcalls : Finite size calls) (again : Value → Bool) (summand : Value → Int32) :
    (kit calls again summand).Sized (fun _ => True) size where
  next source ws _ := by
    obtain ⟨entry, source', u', hnext, hsize⟩ := hcalls.next source ws.1
    simp only [kit, Effect.bind_of_returned _ (within_of_returned ws.2 hnext)]
    exact ⟨trivial, hsize⟩
  test p call ws _ := by
    obtain ⟨r, u', htest⟩ := hcalls.test p call ws.1
    simp only [kit, Effect.bind_of_returned _ (within_of_returned ws.2 htest)]
    exact trivial
  step g call ws _ := by
    obtain ⟨r, u', hstep⟩ := hcalls.step g call ws.1
    simp only [kit, Effect.bind_of_returned _ (within_of_returned ws.2 hstep)]
    exact trivial

theorem Finite.finds (hcalls : Finite size calls) (again : Value → Bool) (summand : Value → Int32) (n : Nat) :
    Finds (kit calls again summand) n (Job.Rest.Fewer size n) where
  find rest ws hrest :=
    (Job.Rest.find_returns (hcalls.sized again summand) n rest ws hrest trivial).mono fun _ _ hr => hr.2
  absorb rest b rest' hrest habsorb := by
    have hsize : rest'.size size = rest.size size := Job.size_absorb habsorb
    rw [Job.Rest.Fewer, hsize]
    exact hrest

theorem Finite.start (hcalls : Finite size calls) (again : Value → Bool) (summand : Value → Int32) {n : Nat}
    (plan : Plan I α) (filter : P) (consumer : G) (u : U) (hplan : Job.planSize size plan < n) :
    (Job.start (kit calls again summand).next (kit calls again summand).step n plan filter consumer
      (u, {})).Returns fun j _ => (j.view : Course.State _ Int64).At (Job.Rest.Fewer size n) :=
  (Job.start_returns (hcalls.sized again summand) n plan filter consumer (u, {}) hplan trivial).mono
    fun _ _ hj => hj.2

end Finite

/-! ## What a run comes to -/

/-- What is known after an answer. `B` holds of the mailbox of the step that waits. -/
def Report (B : Post α → Int64 → Prop) (p : Post α) : Option (Poll (Option Int32)) → Prop
  | none => failures p.ledger = []
  | some .pending => ∃ c, outstanding p.ledger = some c ∧ failures p.ledger = [] ∧ B p c
  | some (.ready (.ok _)) => outstanding p.ledger = none ∧ failures p.ledger = []
  | some (.ready (.error e)) => outstanding p.ledger = none ∧
      (failures p.ledger = [] ∨ failures p.ledger = [e])
  | some (.panicked _) => False

/-- The next message that is put there wakes the last poll. -/
def Post.Wakes (p : Post α) (c : Int64) : Prop :=
  ∀ message, ∃ w, World.deliver c message p.world = .returned true w ∧
    w.woken = p.world.poller :: p.world.woken

/-- The messages of all steps that were requested have arrived. -/
def Post.Arrived (p : Post α) : Prop := ∀ c ∈ requests p.ledger, puts c p.ledger ≠ []

instance (p : Post α) : Decidable p.Arrived :=
  List.decidableBAll (fun c => puts c p.ledger ≠ []) (requests p.ledger)

section Reports

variable {B : Post α → Int64 → Prop} {s : Seat (Job I α P G Int64)} {ws : U × Post α}

theorem Standing.report (h : Standing B s ws) : Report B ws.2 s.answer := by
  obtain ⟨job, answer⟩ := s
  match answer with
  | none =>
    obtain ⟨_, _, hfree⟩ | ⟨_, _, _, hheld⟩ := Terms.fresh_cases h
    · exact hfree.2.2
    · exact hheld.2.2
  | some .pending =>
    obtain ⟨c, place, -, hheld, hc⟩ := h
    exact ⟨c, hheld.2.1, hheld.2.2, hc⟩
  | some (.ready (.ok _)) => exact h.2
  | some (.ready (.error e)) => exact h.2
  | some (.panicked cause) => exact h.elim

theorem Post.Sound.arrived {p : Post α} (h : p.Sound) (hout : outstanding p.ledger = none) : p.Arrived := by
  intro c hmem hputs
  have hkept := h.2 c
  rw [hputs] at hkept
  refine takes_of_requested h.1 hmem ?_ (List.append_eq_nil_iff.1 hkept.symm).2
  rw [hout]
  exact nofun

theorem Post.Sound.not_arrived {p : Post α} (h : p.Sound) {c : Int64} (hout : outstanding p.ledger = some c)
    (hown : (requests p.ledger).Nodup) (hasleep : p.Asleep c) : ¬ p.Arrived := by
  intro harrived
  have hmailbox : p.world.mailbox c = { content := none, waker := some p.world.poller } := hasleep
  have hkept := h.2 c
  rw [hmailbox, takes_of_outstanding h.1 hout hown] at hkept
  exact harrived c (mem_requests_of_outstanding hout) hkept

/-- A poll resolves exactly if no message is missing. -/
theorem Standing.resolved_iff_arrived (h : Standing Post.Asleep s ws) (hsome : s.answer.isSome)
    (hown : (requests ws.2.ledger).Nodup) : (∃ o, s.answer = some (.ready o)) ↔ ws.2.Arrived := by
  have hsound := h.sound
  have hreport := h.report
  obtain ⟨job, answer⟩ := s
  match answer with
  | none => cases hsome
  | some .pending =>
    obtain ⟨c, hout, -, hasleep⟩ := hreport
    constructor
    · rintro ⟨o, ho⟩
      cases ho
    · exact fun harrived => (hsound.not_arrived hout hown hasleep harrived).elim
  | some (.ready o) =>
    refine ⟨fun _ => hsound.arrived ?_, fun _ => ⟨o, rfl⟩⟩
    cases o <;> exact hreport.1
  | some (.panicked cause) => exact hreport.elim

end Reports

/-- No wake-up and no message is lost. A poll that does not resolve ends with one innermost step, which was
polled with the waker of this poll and waits. A job whose steps receive messages therefore waits where the next
message wakes its last poll, takes each message once and in the order of its steps, and resolves in the first poll
that finds all messages. Its steps are those of the elements of its plan, in their order: of the accepted ones up to
the one that waits, of all accepted ones when it resolves, and up to the first failure when it fails. -/
theorem no_message_lost :
    (∀ {U M F β : Type} [Logging U] (fuel : Nat) (t : Nest U M F β) (m : M) (gaps : List (U → U)) (u : U),
      ((t.start fuel m >>= t.attend fuel gaps) (u, {})).Ensures (fun _ => True) fun r ws =>
        r.1 = .pending → ∃ calls, Nest.Since ws.2 (.waits :: .reached ws.2.waker :: calls) ∧
          ∀ event ∈ calls, event.IsCall ws.2.waker) ∧
    ∀ {U I α P G : Type} (calls : Nest.Calls U I α P G Int64) (again : Value → Bool)
      (summand : Value → Int32) (fuel : Nat) (plan : Plan I α) (filter : P) (consumer : G)
      (actions : List (Action U)) (u : U),
      (run (kit calls again summand) fuel plan filter consumer actions (u, {})).Ensures
        (fun ws => ws.2.Sound)
        (fun s ws => ws.2.Sound ∧ Report (fun p c => (p.Asleep c ∧ p.Wakes c) ∨ p.Woken c) ws.2 s.answer ∧
          Covered plan again ws.2.ledger s.answer) ∧
      (run (kit calls again summand) fuel plan filter consumer (actions ++ [.poll]) (u, {})).Ensures
        (fun ws => ws.2.Sound)
        (fun s ws => s.answer.isSome ∧ Report (fun p c => p.Asleep c ∧ p.Wakes c) ws.2 s.answer ∧
          Covered plan again ws.2.ledger s.answer ∧
          ((requests ws.2.ledger).Nodup → ((∃ o, s.answer = some (.ready o)) ↔ ws.2.Arrived))) ∧
      ∀ places, Finds (kit calls again summand) fuel places →
        (Job.start (kit calls again summand).next (kit calls again summand).step fuel plan filter consumer
          (u, {})).Returns (fun j _ => (j.view : Course.State _ Int64).At places) →
        actions.length ≤ fuel →
        ∃ s ws, run (kit calls again summand) fuel plan filter consumer actions (u, {}) = .returned s ws := by
  constructor
  · intro U M F β _ fuel t m gaps u
    refine (Nest.start_attend_meets fuel t m gaps u).mono (fun _ _ => trivial) ?_
    rintro ⟨answer, x⟩ ws ⟨first, hbegan, hr⟩ hpending
    cases hpending
    exact hr.2.since hbegan
  · intro U I α P G calls again summand fuel plan filter consumer actions u
    have hrun := run_standing calls again summand fuel plan filter consumer actions u
    have hpoll := run_poll_standing calls again summand fuel plan filter consumer actions u
    have halong := fun actions => run_along calls again summand fuel plan filter consumer actions u
    refine ⟨?_, ?_, fun places hk hstart hlength => ?_⟩
    · refine (hrun.and (halong actions)).mono (fun _ h => h) fun s ws h => ?_
      refine ⟨h.1.sound, (h.1.mono fun c hc => ?_).report, h.2.covered h.1⟩
      exact hc.imp_left fun hasleep => ⟨hasleep, hasleep.wakes⟩
    · refine (hpoll.and (halong (actions ++ [.poll]))).mono (fun _ h => h) fun s ws h => ?_
      obtain ⟨⟨hsome, hstanding⟩, halong⟩ := h
      refine ⟨hsome, (hstanding.mono fun c hc => ?_).report, halong.covered hstanding, ?_⟩
      · exact ⟨hc, hc.wakes⟩
      · exact hstanding.resolved_iff_arrived hsome
    · obtain ⟨s, ws, hs, -⟩ := (run_returns hk plan filter consumer actions u hstart hlength).result
      exact ⟨s, ws, hs⟩

/-- The elements of a list are the channels of the steps. -/
def listed : Nest.Calls Unit (List Int64) Int64 Unit Unit Int64 where
  next := Next.ofList
  test p _ := pure (.ok true, p)
  step g call := pure (match call with | .element c => c | _ => 0, g)

theorem listed_finite : Finite List.length listed where
  next source u := by
    cases source with
    | nil => exact ⟨none, [], u, rfl, nofun⟩
    | cons c rest => exact ⟨some c, rest, u, rfl, fun _ => Nat.lt_succ_self _⟩
  test _ _ u := ⟨_, u, rfl⟩
  step _ _ u := ⟨_, u, rfl⟩

def twoChannels : Plan (List Int64) Int64 := .iterate .each [1, 2]

def receiveTwo (actions : List (Action Unit)) :
    Ending (Unit × Post Int64) (Seat (Job (List Int64) Int64 Unit Unit Int64)) :=
  run (kit listed (fun _ => false) fun _ => 0) 4 twoChannels () () actions ((), {})

/-- The first poll waits for the message of the first step. The message of the second step comes before it, and the
second poll finds both. -/
theorem receiveTwo_polls :
    (∃ s ws, receiveTwo [.poll] = .returned s ws ∧ s.answer = some .pending ∧ ws.2.Asleep 1) ∧
    ∃ s ws, receiveTwo [.poll, .put 2 (.ok .unit), .put 1 (.ok .unit), .poll] = .returned s ws ∧
      requests ws.2.ledger = [2, 1] ∧ ws.2.Arrived ∧ (∃ v, s.answer = some (.ready (.ok v))) ∧
      Finished twoChannels (fun _ => false) ws.2.ledger := by
  have hreturns : ∀ actions, actions.length ≤ 4 → ∃ s ws, receiveTwo actions = .returned s ws := fun actions =>
    (no_message_lost.2 listed _ _ 4 twoChannels () () actions ()).2.2 _ (listed_finite.finds _ _ 4)
      (listed_finite.start _ _ _ () () () (by decide))
  have hpoll : ∀ actions s ws, receiveTwo (actions ++ [.poll]) = .returned s ws → s.answer.isSome ∧
      Report (fun p c => p.Asleep c ∧ p.Wakes c) ws.2 s.answer ∧
      Covered twoChannels (fun _ => false) ws.2.ledger s.answer ∧
      ((requests ws.2.ledger).Nodup → ((∃ o, s.answer = some (.ready o)) ↔ ws.2.Arrived)) := by
    intro actions s ws hrun
    have hpoll := (no_message_lost.2 listed (fun _ => false) (fun _ => 0) 4 twoChannels () () actions ()).2.1
    rw [receiveTwo] at hrun
    rw [hrun] at hpoll
    exact hpoll
  constructor
  · obtain ⟨s, ws, hrun⟩ := hreturns [.poll] (by decide)
    obtain ⟨hsome, hreport, -, hiff⟩ := hpoll [] s ws hrun
    have hpost : outstanding (receiveTwo [.poll]).world.2.ledger = some 1 ∧
        (requests (receiveTwo [.poll]).world.2.ledger).Nodup ∧ ¬ (receiveTwo [.poll]).world.2.Arrived := by
      decide +kernel
    rw [hrun] at hpost
    obtain ⟨hout, hnodup, hmissing⟩ := hpost
    obtain ⟨job, answer⟩ := s
    match answer with
    | none => cases hsome
    | some .pending =>
      obtain ⟨c, hc, -, hasleep, -⟩ := hreport
      cases hc.symm.trans hout
      exact ⟨_, ws, hrun, rfl, hasleep⟩
    | some (.ready o) => exact (hmissing ((hiff hnodup).1 ⟨o, rfl⟩)).elim
    | some (.panicked cause) => exact hreport.elim
  · obtain ⟨s, ws, hrun⟩ := hreturns [.poll, .put 2 (.ok .unit), .put 1 (.ok .unit), .poll] (by decide)
    obtain ⟨-, -, hcovered, hiff⟩ := hpoll [.poll, .put 2 (.ok .unit), .put 1 (.ok .unit)] s ws hrun
    have hpost : requests (receiveTwo [.poll, .put 2 (.ok .unit), .put 1 (.ok .unit), .poll]).world.2.ledger =
        [2, 1] ∧ (receiveTwo [.poll, .put 2 (.ok .unit), .put 1 (.ok .unit), .poll]).world.2.Arrived ∧
        verdicts (receiveTwo [.poll, .put 2 (.ok .unit), .put 1 (.ok .unit), .poll]).world.2.ledger = [] ∧
        failures (receiveTwo [.poll, .put 2 (.ok .unit), .put 1 (.ok .unit), .poll]).world.2.ledger = [] := by
      decide +kernel
    rw [hrun] at hpost
    obtain ⟨hrequests, harrived, hverdicts, hfailures⟩ := hpost
    have hnodup : (requests ws.2.ledger).Nodup := by
      rw [show requests ws.2.ledger = [2, 1] from hrequests]
      decide
    obtain ⟨o, ho⟩ := (hiff hnodup).2 harrived
    rw [ho] at hcovered
    cases o with
    | ok v => exact ⟨s, ws, hrun, hrequests, harrived, ⟨v, ho⟩, hcovered⟩
    | error e =>
      -- no filter has refused an element and no message was a failure
      obtain ⟨passed, o, left, ⟨call, -, hthrough⟩ | hthrough⟩ := hcovered
      · cases hverdicts.symm.trans hthrough.verdicts
      · cases hfailures.symm.trans hthrough.failures

end Stepwise.Mail
