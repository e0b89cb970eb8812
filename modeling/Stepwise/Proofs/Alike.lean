import Stepwise.Proofs.Paired

/-! # Computations that nobody can tell apart

Two states that are polled in the same world are alike if whoever polls them sees no difference, neither in
the answers nor in the world.

* `Poller.asked` polls a state again and again, with anything at all done in between, until it does not
  wait any more. It keeps the answers.
* `Poller.Alike`: some relation of states holds here and passes through every poll. Then all that is asked
  is answered in the same way (`Alike.asked_eq`), also if only the first polls were compared
  (`asked_eq_of_first`).
* `Alike.around`: what is put around states that are alike is alike, be it another value, another form of the
  state or something that is done at the end.
* `Poller.owned`: a state that is polled together with a private part of the world. `Beside` relates the
  world without this part to the world with it.
-/

namespace Stepwise
set_option autoImplicit false

variable {W V S F F' F'' α β : Type}

/-! ## One world -/

/-- The two runs have come to the same world. -/
def Equal : Nat → W → W → Prop := fun _ w v => w = v

/-- The right side has a second part of the world. -/
def Beside : Nat → W → W × S → Prop := fun _ w v => w = v.1

section Rules

universe u

variable {A B C : Type u}

namespace Effect.Paired

theorem refl (m : Effect W A) : Paired Equal (Same Equal) m m := by
  rintro w v rfl
  cases m w with
  | returned a w => exact ⟨rfl, rfl⟩
  | broken reason w => exact ⟨rfl, rfl⟩
  | cut w => exact ⟨0, rfl⟩

theorem eq {m m' : Effect W A} (h : Paired Equal (Same Equal) m m') : m = m' := by
  funext w
  have hw := h w w rfl
  cases hm : m w with
  | returned a w' =>
    rw [hm] at hw
    obtain ⟨b, v, hv, rfl, rfl⟩ := hw.exists_right
    exact hv.symm
  | broken reason w' =>
    rw [hm] at hw
    obtain ⟨v, hv, rfl⟩ := hw.broken_right
    exact hv.symm
  | cut w' =>
    rw [hm] at hw
    cases hv : m' w with
    | cut v =>
      rw [hv] at hw
      obtain ⟨d, rfl⟩ := hw
      rfl
    | returned b v => rw [hv] at hw; exact hw.elim
    | broken reason v => rw [hv] at hw; exact hw.elim

end Effect.Paired

namespace Ending.Paired

variable {R : Nat → W → V → Prop} {Q : A → B → W → V → Prop}

theorem symm {Q : A → B → W → W → Prop} {e : Ending W A} {e' : Ending W B} (h : e.Paired Equal Q e') :
    e'.Paired Equal (fun b a w v => Q a b v w) e := by
  cases e with
  | returned a w => cases e' <;> exact h
  | broken reason w =>
    cases e' with
    | broken reason' v => exact ⟨h.1.symm, h.2.symm⟩
    | _ => exact h
  | cut w =>
    cases e' with
    | cut v =>
      obtain ⟨d, hd⟩ := h
      exact ⟨d, hd.symm⟩
    | _ => exact h

theorem trans {Q : A → B → W → W → Prop} {Q' : B → C → W → W → Prop} {e : Ending W A} {e' : Ending W B}
    {e'' : Ending W C} (h : e.Paired Equal Q e') (h' : e'.Paired Equal Q' e'') :
    e.Paired Equal (fun a c w v => ∃ b u, Q a b w u ∧ Q' b c u v) e'' := by
  cases e' with
  | returned b u =>
    obtain ⟨a, w, rfl, hQ⟩ := h.exists_left
    obtain ⟨c, v, rfl, hQ'⟩ := h'.exists_right
    exact ⟨b, u, hQ, hQ'⟩
  | broken reason u =>
    obtain ⟨w, rfl, rfl⟩ := h.broken_left
    obtain ⟨v, rfl, rfl⟩ := h'.broken_right
    exact ⟨rfl, rfl⟩
  | cut u =>
    cases e with
    | cut w =>
      cases e'' with
      | cut v =>
        obtain ⟨d, rfl⟩ := h
        exact h'
      | returned c v => exact h'.elim
      | broken reason v => exact h'.elim
    | returned a w => exact h.elim
    | broken reason w => exact h.elim

/-- What is made of the results does not matter. -/
theorem of_bind_pure {A' B' : Type u} {Q : A' → B' → W → V → Prop} {f : A → A'} {g : B → B'} {m : Effect W A}
    {m' : Effect V B} {w : W} {v : V}
    (h : ((m >>= fun a => pure (f a)) w).Paired R Q ((m' >>= fun b => pure (g b)) v)) :
    (m w).Paired R (fun a b => Q (f a) (g b)) (m' v) := by
  rw [Effect.bind_apply, Effect.bind_apply] at h
  cases hm : m w <;> cases hm' : m' v <;> rw [hm, hm'] at h <;> exact h

/-- Both sides keep what they ensure on their own. -/
theorem and_ensures {P : A → Prop} {P' : B → Prop} {e : Ending W A} {e' : Ending V B} (h : e.Paired R Q e')
    (he : e.Ensures (fun _ => True) fun a _ => P a) (he' : e'.Ensures (fun _ => True) fun b _ => P' b) :
    e.Paired R (fun a b w v => P a ∧ P' b ∧ Q a b w v) e' := by
  cases e with
  | returned a w =>
    obtain ⟨b, v, rfl, hQ⟩ := h.exists_right
    exact ⟨he, he', hQ⟩
  | broken reason w => cases e' <;> exact h
  | cut w => cases e' <;> exact h

/-- The private part of the right side becomes a part of its result. -/
theorem owning {Q : A → B → W → W × S → Prop} {m : Effect W A} {m' : Effect (W × S) B} {w v : W} {s : S}
    (h : (m w).Paired Beside Q (m' (v, s))) :
    (m w).Paired Equal (fun a b w v => Q a b.1 w (v, b.2)) (m'.owning s v) := by
  rw [Effect.owning]
  cases hm : m w with
  | returned a w' =>
    rw [hm] at h
    obtain ⟨b, v', hv, hQ⟩ := h.exists_right
    rw [hv]
    exact hQ
  | broken reason w' =>
    rw [hm] at h
    obtain ⟨v', hv, hR⟩ := h.broken_right
    rw [hv]
    exact ⟨rfl, hR⟩
  | cut w' =>
    rw [hm] at h
    cases hv : m' (v, s) with
    | cut v' => rw [hv] at h; exact h
    | returned b v' => rw [hv] at h; exact h.elim
    | broken reason v' => rw [hv] at h; exact h.elim

/-- What the right side ensures, as the two sides show. -/
theorem ensures_right {P : B → V → Prop} {e : Ending W A} {e' : Ending V B} (h : e.Paired R Q e')
    (hQ : ∀ {a b w v}, Q a b w v → P b v) : e'.Ensures (fun _ => True) P := by
  cases e' with
  | returned b v =>
    obtain ⟨a, w, rfl, hab⟩ := h.exists_left
    exact hQ hab
  | broken reason v => trivial
  | cut v => trivial

/-- What acts on the first part of the world leaves the second one as it is. -/
theorem within {A : Type} (m : Effect W A) (w : W) (s : S) :
    (m w).Paired Beside (fun a b w v => a = b ∧ w = v.1 ∧ v.2 = s) (m.within S (w, s)) := by
  rw [Effect.within]
  cases m w with
  | returned a w => exact ⟨rfl, rfl, rfl⟩
  | broken reason w => exact ⟨rfl, rfl⟩
  | cut w => exact ⟨0, rfl⟩

/-- The right side in a world that has a second part. -/
theorem beside {A B : Type} {Q : A → B → W → W → Prop} {e : Ending W A} {m : Effect W B} {w : W}
    (h : e.Paired Equal Q (m w)) (s : S) :
    e.Paired Beside (fun a b w v => Q a b w v.1 ∧ v.2 = s) (m.within S (w, s)) := by
  rw [Effect.within]
  cases hm : m w with
  | returned b v =>
    rw [hm] at h
    obtain ⟨a, w, rfl, hQ⟩ := h.exists_left
    exact ⟨hQ, rfl⟩
  | broken reason v =>
    rw [hm] at h
    obtain ⟨w, rfl, hw⟩ := h.broken_left
    exact ⟨rfl, hw⟩
  | cut v =>
    rw [hm] at h
    cases e with
    | cut w => exact h
    | returned a w => exact h.elim
    | broken reason w => exact h.elim

end Ending.Paired

end Rules

theorem Found.Paired.eq {a b : Found F} {w v : W} (h : Found.Paired Equal (Same Equal) a b w v) :
    a = b ∧ w = v := by
  match a, b, h with
  | .step x, .step y, h => exact ⟨congrArg Found.step h.1, h.2⟩
  | .nothing, .nothing, h => exact ⟨rfl, h⟩
  | .failed e, .failed e', h => exact ⟨congrArg Found.failed h.1, h.2⟩

/-! ## Polled again and again -/

/-- The answer of a poll that has not to wait. -/
def Resolution.answer : Resolution α → Poll α
  | .ok o => .ready o
  | .error cause => .panicked cause

/-- Note something in a list beside the world. -/
def noting {A : Type} (notes : List A) : Effect (W × List A) Unit :=
  Effect.changes fun ws => (ws.1, ws.2 ++ notes)

namespace Poller

/-- Poll once after each of the gaps, until the answer is not to wait; gives the answers. -/
def asked (p : Poller W F α) : List (Effect W Unit) → F → Effect W (List (Poll α))
  | [], _ => pure []
  | gap :: gaps, x => do
    gap
    let (answer, x) ← p x
    match answer with
    | .pending => do
      let rest ← p.asked gaps x
      pure (.pending :: rest)
    | _ => pure [answer]

/-- What is asked after a poll. -/
def askedAfter (p : Poller W F α) (gaps : List (Effect W Unit)) :
    Resolution α ⊕ F → Effect W (List (Poll α))
  | .inl r => pure [r.answer]
  | .inr x => do
    let rest ← p.asked gaps x
    pure (.pending :: rest)

theorem asked_cons (p : Poller W F α) (gap : Effect W Unit) (gaps : List (Effect W Unit)) (x : F) :
    p.asked (gap :: gaps) x = gap >>= fun _ => p.stage x >>= p.askedAfter gaps := by
  rw [asked]
  refine bind_congr fun _ => ?_
  rw [stage, bind_assoc]
  refine bind_congr fun r => ?_
  obtain ⟨answer, x⟩ := r
  cases answer <;> rfl

/-! ## States that are alike -/

/-- The same resolution, or two states that wait and are in `B`. -/
def Agreed (B : F → F' → Prop) : Resolution α ⊕ F → Resolution α ⊕ F' → W → W → Prop :=
  fun a b w v => Sum.LiftRel Eq B a b ∧ w = v

/-- The relation of states passes through every poll. -/
def Bisimulation (p : Poller W F α) (q : Poller W F' α) (B : F → F' → Prop) : Prop :=
  ∀ x y, B x y → Effect.Paired Equal (Agreed B) (p.stage x) (q.stage y)

/-- No poll tells the two states apart. -/
def Alike (p : Poller W F α) (q : Poller W F' α) (x : F) (y : F') : Prop :=
  ∃ B, p.Bisimulation q B ∧ B x y

/-- The two states are alike, in one world. -/
def AlikeAt (p : Poller W F α) (q : Poller W F' α) : F → F' → W → W → Prop :=
  fun x y w v => p.Alike q x y ∧ w = v

theorem Agreed.mono {B B' : F → F' → Prop} (h : ∀ x y, B x y → B' x y) {a : Resolution α ⊕ F}
    {b : Resolution α ⊕ F'} {w v : W} (hab : Agreed B a b w v) : Agreed B' a b w v :=
  ⟨hab.1.mono (fun _ _ h => h) h, hab.2⟩

namespace Alike

variable {p : Poller W F α} {q : Poller W F' α} {x : F} {y : F'}

/-- One poll of two states that are alike. -/
theorem poll (h : p.Alike q x y) :
    Effect.Paired Equal (Agreed (p.Alike q)) (p.stage x) (q.stage y) := by
  obtain ⟨B, hB, hxy⟩ := h
  exact (hB x y hxy).imp (Agreed.mono fun x y hxy => ⟨B, hB, hxy⟩)

theorem refl (p : Poller W F α) (x : F) : p.Alike p x x := by
  refine ⟨Eq, ?_, rfl⟩
  rintro x _ rfl
  refine (Effect.Paired.refl (p.stage x)).imp fun {a b w v} hab => ?_
  obtain ⟨rfl, hw⟩ := hab
  cases a with
  | inl r => exact ⟨.inl rfl, hw⟩
  | inr x => exact ⟨.inr rfl, hw⟩

theorem symm (h : p.Alike q x y) : q.Alike p y x := by
  refine ⟨fun y x => p.Alike q x y, fun y x h => ?_, h⟩
  have hpair : Effect.Paired Equal _ (q.stage y) (p.stage x) :=
    fun w v hwv => (h.poll v w hwv.symm).symm
  refine hpair.imp fun {b a w v} hab => ?_
  obtain ⟨hab, hwv⟩ := hab
  cases hab with
  | inl hr => exact ⟨.inl hr.symm, hwv.symm⟩
  | inr hxy => exact ⟨.inr hxy, hwv.symm⟩

theorem trans {o : Poller W F'' α} {z : F''} (h : p.Alike q x y) (h' : q.Alike o y z) : p.Alike o x z := by
  refine ⟨fun x z => ∃ y, p.Alike q x y ∧ q.Alike o y z, ?_, y, h, h'⟩
  rintro x z ⟨y, h, h'⟩ w v rfl
  have hpair : Effect.Paired Equal _ (p.stage x) (o.stage z) :=
    fun w v hwv => (h.poll w v hwv).trans (h'.poll v v rfl)
  refine (hpair.imp fun {a c w v} hac => ?_) w w rfl
  obtain ⟨b, u, ⟨hab, rfl⟩, hbc, rfl⟩ := hac
  cases hab with
  | inl hr => cases hbc with | inl hr' => exact ⟨.inl (hr.trans hr'), rfl⟩
  | inr hxy => cases hbc with | inr hyz => exact ⟨.inr ⟨_, hxy, hyz⟩, rfl⟩

end Alike

/-! ## The same answers -/

section Asked

variable {p : Poller W F α} {q : Poller W F' α}

theorem askedAfter_eq {B : F → F' → Prop} {gaps : List (Effect W Unit)}
    (h : ∀ x y, B x y → p.asked gaps x = q.asked gaps y) {a : Resolution α ⊕ F} {b : Resolution α ⊕ F'}
    {w v : W} (hab : Agreed B a b w v) : p.askedAfter gaps a = q.askedAfter gaps b := by
  cases hab.1 with
  | inl hr => rw [hr]; rfl
  | inr hxy => rw [askedAfter, askedAfter, h _ _ hxy]

/-- What was made and polled once in the same way goes on in the same way. -/
theorem bind_askedAfter_eq {B : F → F' → Prop} {gaps : List (Effect W Unit)}
    (h : ∀ x y, B x y → p.asked gaps x = q.asked gaps y) {m : Effect W (Resolution α ⊕ F)}
    {m' : Effect W (Resolution α ⊕ F')} (hm : Effect.Paired Equal (Agreed B) m m') :
    m >>= p.askedAfter gaps = m' >>= q.askedAfter gaps := by
  refine Effect.Paired.eq (hm.bind fun a b w v hab => ?_)
  rw [askedAfter_eq h hab]
  exact Effect.Paired.refl _ w v hab.2

theorem Alike.asked_eq {x : F} {y : F'} (h : p.Alike q x y) (gaps : List (Effect W Unit)) :
    p.asked gaps x = q.asked gaps y := by
  induction gaps generalizing x y with
  | nil => rfl
  | cons gap gaps ih =>
    rw [asked_cons, asked_cons]
    exact bind_congr fun _ => bind_askedAfter_eq (fun x y hxy => ih hxy) h.poll

/-- Two states that were made alike. -/
theorem asked_eq_of_made {m : Effect W F} {m' : Effect W F'} (h : Effect.Paired Equal (p.AlikeAt q) m m')
    (gaps : List (Effect W Unit)) : m >>= p.asked gaps = m' >>= q.asked gaps := by
  refine Effect.Paired.eq (h.bind fun x y w v hxy => ?_)
  rw [hxy.1.asked_eq gaps]
  exact Effect.Paired.refl _ w v hxy.2

/-- Two states that were made and then polled at once. -/
theorem asked_eq_of_first {m : Effect W F} {m' : Effect W F'}
    (h : Effect.Paired Equal (Agreed (p.Alike q)) (m >>= p.stage) (m' >>= q.stage))
    (gaps : List (Effect W Unit)) :
    m >>= p.asked (pure () :: gaps) = m' >>= q.asked (pure () :: gaps) := by
  have hnow : ∀ {G : Type} (o : Poller W G α) (m : Effect W G),
      m >>= o.asked (pure () :: gaps) = (m >>= o.stage) >>= o.askedAfter gaps := by
    intro G o m
    rw [bind_assoc]
    exact bind_congr fun x => asked_cons o (pure ()) gaps x
  rw [hnow, hnow]
  exact bind_askedAfter_eq (fun x y hxy => hxy.asked_eq gaps) h

/-- Two states that were made alike, and then something that is alike. -/
theorem alikeAt_trans {o : Poller W F'' α} {m : Effect W F} {m' : Effect W F'} {m'' : Effect W F''}
    (h : Effect.Paired Equal (p.AlikeAt q) m m') (h' : Effect.Paired Equal (q.AlikeAt o) m' m'') :
    Effect.Paired Equal (p.AlikeAt o) m m'' := by
  rintro w v rfl
  refine ((h w w rfl).trans (h' w w rfl)).imp fun {x z w v} hxz => ?_
  obtain ⟨y, u, ⟨hxy, rfl⟩, hyz, rfl⟩ := hxz
  exact ⟨hxy.trans hyz, rfl⟩

/-- What holds of every value that one poll can give holds of all values that are given. -/
theorem asked_ensures {K : F → Prop} {Good : α → Prop}
    (hstage : ∀ x w, K x → (p.stage x w).Ensures (fun _ => True) fun s _ =>
      (∀ a, s = .inl (.ok (.ok a)) → Good a) ∧ ∀ y, s = .inr y → K y)
    (gaps : List (Effect W Unit)) {x : F} (hx : K x) (w : W) :
    (p.asked gaps x w).Ensures (fun _ => True) fun answers _ => ∀ a, .ready (.ok a) ∈ answers → Good a := by
  induction gaps generalizing x w with
  | nil => exact fun a ha => nomatch ha
  | cons gap gaps ih =>
    rw [asked_cons]
    refine (Ending.Ensures.any _).bind fun _ w _ => (hstage x w hx).bind fun s w hs => ?_
    obtain ⟨hgood, hleft⟩ := hs
    cases s with
    | inl r =>
      intro a ha
      have hanswer : Poll.ready (.ok a) = r.answer := List.mem_singleton.mp ha
      cases r with
      | error cause => cases hanswer
      | ok o =>
        cases hanswer
        exact hgood a rfl
    | inr y =>
      refine (ih (hleft y rfl) w).bind fun rest w hrest => ?_
      intro a ha
      cases ha with
      | tail _ ha => exact hrest a ha

theorem asked_gap (p : Poller W F α) (gap : Effect W Unit) (gaps : List (Effect W Unit)) (x : F) :
    p.asked (gap :: gaps) x = gap >>= fun _ => p.asked (pure () :: gaps) x := by
  rw [asked_cons, asked_cons]
  rfl

end Asked

/-! ## Computations around others -/

section Around

variable {γ : Type} {p : Poller W F α} {q : Poller W F' α}

/-- The same around two states that are alike. -/
theorem Alike.around {G G' : Type} {p' : Poller W G γ} {q' : Poller W G' γ} {wrap : F → G} {wrap' : F' → G'}
    {close : Resolution α → Effect W (Resolution γ)}
    (hp : ∀ x, p'.stage (wrap x) = p.stage x >>= Stage.around wrap close)
    (hq : ∀ y, q'.stage (wrap' y) = q.stage y >>= Stage.around wrap' close) {x : F} {y : F'}
    (h : p.Alike q x y) : p'.Alike q' (wrap x) (wrap' y) := by
  refine ⟨fun a b => ∃ x y, a = wrap x ∧ b = wrap' y ∧ p.Alike q x y, ?_, x, y, rfl, rfl, h⟩
  rintro _ _ ⟨x, y, rfl, rfl, h⟩
  rw [hp, hq]
  refine h.poll.bind fun a b w v hab => ?_
  obtain ⟨hab, hw⟩ := hab
  cases hab with
  | inl hr =>
    obtain rfl := hr
    refine Ending.Paired.bind (Effect.Paired.refl _ w v hw) fun r r' w v hr => ?_
    obtain ⟨rfl, hw⟩ := hr
    exact ⟨.inl rfl, hw⟩
  | inr hxy => exact ⟨.inr ⟨_, _, rfl, rfl, hxy⟩, hw⟩

/-- The same before every poll. -/
theorem Alike.opening {x : F} {y : F'} {p : Poller W F α} {q : Poller W F' α} (h : p.Alike q x y)
    (opening : Effect W Unit) :
    Poller.Alike (fun x => opening >>= fun _ => p x) (fun y => opening >>= fun _ => q y) x y := by
  refine ⟨p.Alike q, fun x y h => ?_, h⟩
  have hstage : ∀ {F : Type} (p : Poller W F α) (x : F),
      Poller.stage (fun x => opening >>= fun _ => p x) x = opening >>= fun _ => p.stage x :=
    fun p x => bind_assoc ..
  rw [hstage, hstage]
  refine (Effect.Paired.refl opening).bind fun _ _ w v hw => ?_
  exact h.poll w v hw.2

theorem stage_wrapped {G : Type} {p : Poller W F α} {q : Poller W G α} {wrap : F → G}
    (h : ∀ x, q (wrap x) = p x >>= fun r => pure (r.1, wrap r.2)) (x : F) :
    q.stage (wrap x) = p.stage x >>= Stage.around wrap pure := by
  rw [stage, stage, h, bind_assoc, bind_assoc]
  refine bind_congr fun r => ?_
  obtain ⟨answer, x⟩ := r
  cases answer <;> rfl

/-- The same states in other forms. -/
theorem Alike.wrapped {G G' : Type} {p' : Poller W G α} {q' : Poller W G' α} {wrap : F → G} {wrap' : F' → G'}
    (hp : ∀ x, p' (wrap x) = p x >>= fun r => pure (r.1, wrap r.2))
    (hq : ∀ y, q' (wrap' y) = q y >>= fun r => pure (r.1, wrap' r.2)) {x : F} {y : F'} (h : p.Alike q x y) :
    p'.Alike q' (wrap x) (wrap' y) :=
  h.around (stage_wrapped hp) (stage_wrapped hq)

theorem alike_wrapped {G : Type} {p : Poller W F α} {q : Poller W G α} {wrap : F → G}
    (h : ∀ x, q (wrap x) = p x >>= fun r => pure (r.1, wrap r.2)) (x : F) : p.Alike q x (wrap x) := by
  have hsame : ∀ x, p (id x) = p x >>= fun r => pure (r.1, id r.2) := fun x => (bind_pure (p x)).symm
  exact (Alike.refl p x).wrapped hsame h

theorem stage_map (p : Poller W F α) (f : α → γ) (x : F) :
    (p.map f).stage x = p.stage x >>= Stage.around id fun r => pure (Except.map (Except.map f) r) := by
  rw [stage, stage, map, bind_assoc, bind_assoc]
  refine bind_congr fun r => ?_
  obtain ⟨answer, x⟩ := r
  cases answer with
  | ready o => cases o <;> rfl
  | _ => rfl

theorem Alike.map {x : F} {y : F'} (h : p.Alike q x y) (f : α → γ) : (p.map f).Alike (q.map f) x y :=
  h.around (stage_map p f) (stage_map q f)

theorem asked_map (p : Poller W F α) (f : α → γ) (gaps : List (Effect W Unit)) (x : F) :
    (p.map f).asked gaps x = p.asked gaps x >>= fun answers => pure (answers.map (Poll.map f)) := by
  induction gaps generalizing x with
  | nil => rfl
  | cons gap gaps ih =>
    rw [asked_cons, asked_cons, stage_map]
    simp only [bind_assoc]
    refine bind_congr fun _ => bind_congr fun s => ?_
    match s with
    | .inl (.ok (.ok a)) => rfl
    | .inl (.ok (.error e)) => rfl
    | .inl (.error cause) => rfl
    | .inr x =>
      simp only [Stage.around, pure_bind, id_eq, askedAfter, ih, bind_assoc]
      rfl

end Around

/-! ## A private part of the world -/

/-- Poll a state together with its private part of the world; what is closed with is made of both. -/
def owned {γ : Type} (close : S → α → γ) (p : Poller (W × S) F α) : Poller W (F × S) γ := fun xs => do
  let ((answer, x), s) ← (p xs.1).owning xs.2
  pure (answer.map (close s), x, s)

theorem stage_within (p : Poller W F α) (x : F) :
    Poller.stage (fun x => (p x).within S) x = (p.stage x).within S := by
  rw [stage, stage, Effect.within_bind]
  rfl

theorem owned_map {γ δ : Type} (close : S → α → γ) (f : γ → δ) (p : Poller (W × S) F α) :
    (p.owned close).map f = p.owned fun s a => f (close s a) := by
  funext x
  simp only [map, owned, bind_assoc, pure_bind]
  refine bind_congr fun r => ?_
  obtain ⟨⟨answer, x⟩, s⟩ := r
  cases answer with
  | ready o => cases o <;> rfl
  | _ => rfl

/-- States that leave a private part of the world alone. -/
theorem alike_owned_within {p : Poller W F α} {q : Poller (W × S) F α} {K : F → Prop}
    (hq : ∀ x, K x → q x = (p x).within S)
    (hkeeps : ∀ x w, K x → (p x w).Ensures (fun _ => True) fun r _ => K r.2) {x : F} (hx : K x) (s : S) :
    p.Alike (q.owned fun _ a => a) x (x, s) := by
  refine ⟨fun x y => K x ∧ y = (x, s), ?_, hx, rfl⟩
  rintro x _ ⟨hx, rfl⟩
  have howned : (q.owned fun _ a => a) (x, s) = p x >>= fun r => pure (r.1, (r.2, s)) := by
    simp only [owned, hq x hx, Effect.owning_within, bind_assoc, pure_bind]
    exact bind_congr fun r => congrArg (fun answer => pure (answer, (r.2, s))) (Poll.map_id r.1)
  rw [stage, stage, howned, bind_assoc]
  rintro w v rfl
  have hpair := (Effect.Paired.refl (p x) w w rfl).and_ensures (hkeeps x w hx) (hkeeps x w hx)
  refine hpair.bind fun r r' w v hr => ?_
  obtain ⟨hleft, -, rfl, hw⟩ := hr
  obtain ⟨answer, x⟩ := r
  cases answer with
  | pending => exact ⟨.inr ⟨hleft, rfl⟩, hw⟩
  | ready o => exact ⟨.inl rfl, hw⟩
  | panicked cause => exact ⟨.inl rfl, hw⟩

end Poller

end Stepwise
