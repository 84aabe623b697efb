import Grove.Attempt

/-!
# Taking computations apart

What a computation in steps comes to is known from what its steps come to. For
computations that answer or fail these are the equivalences below. For attempts there are
two ways of saying it. The equations of `outcome` follow one attempt from one state. Where
more is known of a state than what it is, `Respects` follows an attempt from two related
states at once: it comes to the same from both, and leaves states that are related again.
An invariant is the case in which the two are equal and have it.
-/

namespace Grove

section Except

variable {ε α β : Type}

theorem bind_eq_ok {first : Except ε α} {next : α → Except ε β} {answer : β} :
    (first >>= next) = .ok answer ↔ ∃ value, first = .ok value ∧ next value = .ok answer :=
  match first with
  | .ok value => ⟨fun h => ⟨value, rfl, h⟩, fun ⟨_, hv, h⟩ => Except.ok.inj hv ▸ h⟩
  | .error _ => ⟨nofun, nofun⟩

theorem map_eq_ok {first : Except ε α} {f : α → β} {answer : β} :
    first.map f = .ok answer ↔ ∃ value, first = .ok value ∧ f value = answer :=
  match first with
  | .ok value =>
      ⟨fun h => ⟨value, rfl, Except.ok.inj h⟩, fun ⟨_, hv, h⟩ => by cases hv; cases h; rfl⟩
  | .error _ => ⟨nofun, nofun⟩

theorem bind_eq_error {first : Except ε α} {next : α → Except ε β} {e : ε} :
    (first >>= next) = .error e ↔
      first = .error e ∨ ∃ value, first = .ok value ∧ next value = .error e :=
  match first with
  | .ok value =>
      ⟨fun h => .inr ⟨value, rfl, h⟩, fun h => h.elim nofun fun ⟨_, hv, h⟩ => Except.ok.inj hv ▸ h⟩
  | .error _ => ⟨fun h => .inl (by cases h; rfl), fun h => h.elim (fun h => by cases h; rfl) nofun⟩

theorem map_eq_error {first : Except ε α} {f : α → β} {e : ε} :
    first.map f = .error e ↔ first = .error e :=
  match first with
  | .ok _ => ⟨nofun, nofun⟩
  | .error _ => ⟨fun h => by cases h; rfl, fun h => by cases h; rfl⟩

/-- A list that is made item by item fails where an item does. -/
theorem cons_eq_error {first : Except ε α} {rest : Except ε (List α)} {e : ε}
    (h : (do return (← first) :: (← rest)) = Except.error e) :
    first = .error e ∨ rest = .error e := by
  rcases bind_eq_error.mp h with h | ⟨a, -, h⟩
  · exact .inl h
  · rcases bind_eq_error.mp h with h | ⟨as, -, h⟩
    · exact .inr h
    · cases h

end Except

namespace Attempt

variable {σ τ α β : Type}

@[simp] theorem outcome_pure (a : α) (s : σ) : (pure a : Attempt σ α).outcome s = (.ok a, s) := rfl

@[simp] theorem outcome_throw (f : Failure) (s : σ) :
    (throw f : Attempt σ α).outcome s = (.error f, s) := rfl

@[simp] theorem outcome_get (s : σ) : (get : Attempt σ σ).outcome s = (.ok s, s) := rfl

@[simp] theorem outcome_set (s t : σ) : (set t : Attempt σ PUnit).outcome s = (.ok ⟨⟩, t) := rfl

@[simp] theorem outcome_modify (f : σ → σ) (s : σ) :
    (modify f : Attempt σ PUnit).outcome s = (.ok ⟨⟩, f s) := rfl

@[simp] theorem outcome_liftM (x : Except Failure α) (s : σ) :
    (liftM x : Attempt σ α).outcome s = (x, s) := rfl

theorem outcome_bind (x : Attempt σ α) (next : α → Attempt σ β) (s : σ) :
    (x >>= next).outcome s =
      match x.outcome s with
      | (.ok a, s) => (next a).outcome s
      | (.error f, s) => (.error f, s) := by
  simp only [outcome, bind, ExceptT.bind, ExceptT.mk, ExceptT.run, StateT.bind, StateT.run,
    ExceptT.bindCont, pure, Id.run]
  rcases x s with ⟨_ | _, s⟩ <;> rfl

theorem outcome_get_bind (next : σ → Attempt σ β) (s : σ) :
    (get >>= next).outcome s = (next s).outcome s := rfl

theorem outcome_bind_eq_ok {x : Attempt σ α} {next : α → Attempt σ β} {s t : σ} {b : β} :
    (x >>= next).outcome s = (.ok b, t) ↔
      ∃ a u, x.outcome s = (.ok a, u) ∧ (next a).outcome u = (.ok b, t) := by
  rw [outcome_bind]
  rcases x.outcome s with ⟨_ | a, u⟩
  · exact ⟨nofun, nofun⟩
  · exact ⟨fun h => ⟨a, u, rfl, h⟩, fun ⟨_, _, hx, h⟩ => by cases hx; exact h⟩

/-- Two attempts in steps come to the same when their steps do. -/
theorem outcome_bind_congr {x y : Attempt σ α} {f g : α → Attempt σ β} {s : σ}
    (hxy : x.outcome s = y.outcome s)
    (hfg : ∀ a u, x.outcome s = (.ok a, u) → (f a).outcome u = (g a).outcome u) :
    (x >>= f).outcome s = (y >>= g).outcome s := by
  rw [outcome_bind, outcome_bind, ← hxy]
  rcases hx : x.outcome s with ⟨_ | a, u⟩
  · rfl
  · exact hfg a u hx

theorem outcome_liftM_bind_eq_ok {x : Except Failure α} {next : α → Attempt σ β} {s t : σ} {b : β} :
    ((liftM x : Attempt σ α) >>= next).outcome s = (.ok b, t) ↔
      ∃ a, x = .ok a ∧ (next a).outcome s = (.ok b, t) := by
  rw [outcome_bind_eq_ok]
  constructor
  · rintro ⟨a, u, hx, h⟩
    rw [outcome_liftM] at hx
    cases hx
    exact ⟨a, rfl, h⟩
  · rintro ⟨a, rfl, h⟩
    exact ⟨a, s, rfl, h⟩

theorem outcome_map (f : α → β) (x : Attempt σ α) (s : σ) :
    (f <$> x).outcome s = ((x.outcome s).1.map f, (x.outcome s).2) := by
  rw [← bind_pure_comp, outcome_bind]
  rcases x.outcome s with ⟨_ | _, _⟩ <;> rfl

theorem outcome_map_eq_error {f : α → β} {x : Attempt σ α} {s t : σ} {e : Failure}
    (h : (f <$> x).outcome s = (.error e, t)) : x.outcome s = (.error e, t) := by
  rw [outcome_map] at h
  rcases hx : x.outcome s with ⟨_ | _, _⟩ <;> rw [hx] at h <;> cases h
  rfl

/-! ## Related states -/

/-- From related states the attempt comes to the same and leaves related states, and what
it answers is as `Q` says. -/
def Respects (R : σ → σ → Prop) (Q : α → Prop) (x : Attempt σ α) : Prop :=
  ∀ s t, R s t → (x.outcome s).1 = (x.outcome t).1 ∧ R (x.outcome s).2 (x.outcome t).2 ∧
    ∀ a, (x.outcome s).1 = .ok a → Q a

variable {R : σ → σ → Prop} {Q : α → Prop}

theorem respects_pure {a : α} (h : Q a) : Respects R Q (pure a) :=
  fun _ _ hst => ⟨rfl, hst, fun _ ha => by cases ha; exact h⟩

theorem respects_throw {f : Failure} : Respects R Q (throw f) := fun _ _ hst => ⟨rfl, hst, nofun⟩

theorem respects_liftM {x : Except Failure α} (h : ∀ a, x = .ok a → Q a) :
    Respects R Q (liftM x) := fun _ _ hst => ⟨rfl, hst, h⟩

theorem Respects.mono {Q' : α → Prop} {x : Attempt σ α} (hx : x.Respects R Q)
    (h : ∀ a, Q a → Q' a) : x.Respects R Q' := by
  intro s t hst
  obtain ⟨hsame, hrelated, hanswer⟩ := hx s t hst
  exact ⟨hsame, hrelated, fun a ha => h a (hanswer a ha)⟩

theorem Respects.bind {Q' : β → Prop} {x : Attempt σ α} {next : α → Attempt σ β}
    (hx : x.Respects R Q) (hnext : ∀ a, Q a → (next a).Respects R Q') :
    (x >>= next).Respects R Q' := by
  intro s t hst
  obtain ⟨hsame, hrelated, hanswer⟩ := hx s t hst
  rw [outcome_bind, outcome_bind]
  rcases hs : x.outcome s with ⟨a, s'⟩
  rcases ht : x.outcome t with ⟨a', t'⟩
  rw [hs, ht] at hsame hrelated
  cases hsame
  cases a with
  | error f => exact ⟨rfl, hrelated, nofun⟩
  | ok a => exact hnext a (hanswer a (by rw [hs])) s' t' hrelated

theorem Respects.map {f : α → β} {x : Attempt σ α} (hx : x.Respects R Q) :
    (f <$> x).Respects R fun _ => True := by
  rw [← bind_pure_comp]
  exact hx.bind fun _ _ => respects_pure trivial

/-- What an attempt reads of its state may depend on what is the same in related states. -/
theorem respects_get {next : σ → Attempt σ α}
    (h : ∀ s t, R s t → next s = next t ∧ (next s).Respects R Q) :
    Respects R Q (get >>= next) := by
  intro s t hst
  obtain ⟨hsame, hnext⟩ := h s t hst
  rw [outcome_get_bind, outcome_get_bind, ← hsame]
  exact hnext s t hst

theorem respects_modify {f : σ → σ} (h : ∀ s t, R s t → R (f s) (f t)) :
    Respects R (fun _ => True) (modify f) := fun s t hst => ⟨rfl, h s t hst, fun _ _ => trivial⟩

/-- What comes of each element is known, and everything that comes out is of an element. -/
theorem Respects.mapM_each {Q : β → α → Prop} {f : β → Attempt σ α} {bs : List β}
    (h : ∀ b ∈ bs, (f b).Respects R (Q b)) :
    (bs.mapM f).Respects R fun as =>
      (∀ a ∈ as, ∃ b ∈ bs, Q b a) ∧ ∀ b ∈ bs, ∃ a ∈ as, Q b a := by
  induction bs with
  | nil => exact respects_pure ⟨nofun, nofun⟩
  | cons b bs ih =>
      rw [List.mapM_cons]
      refine (h b List.mem_cons_self).bind fun a ha => ?_
      refine (ih fun b hb => h b (List.mem_cons_of_mem _ hb)).bind fun as ⟨hfrom, hto⟩ => ?_
      refine respects_pure ⟨List.forall_mem_cons.mpr ⟨⟨b, List.mem_cons_self, ha⟩, ?_⟩,
        List.forall_mem_cons.mpr ⟨⟨a, List.mem_cons_self, ha⟩, ?_⟩⟩
      · intro a' ha'
        obtain ⟨b', hb', hq⟩ := hfrom a' ha'
        exact ⟨b', List.mem_cons_of_mem b hb', hq⟩
      · intro b' hb'
        obtain ⟨a', ha', hq⟩ := hto b' hb'
        exact ⟨a', List.mem_cons_of_mem a ha', hq⟩

theorem Respects.mapM {f : β → Attempt σ α} {bs : List β} (h : ∀ b ∈ bs, (f b).Respects R Q) :
    (bs.mapM f).Respects R fun as => ∀ a ∈ as, Q a :=
  (Respects.mapM_each h).mono fun _ ⟨hfrom, _⟩ a ha => (hfrom a ha).elim fun _ hb => hb.2

theorem Respects.within {S : τ → τ → Prop} {part : τ → σ} {put : τ → σ → τ} {x : Attempt σ α}
    (hx : x.Respects R Q) (hpart : ∀ s t, S s t → R (part s) (part t))
    (hput : ∀ s t a b, S s t → R a b → S (put s a) (put t b)) :
    (x.within part put).Respects S Q := by
  intro s t hst
  obtain ⟨hsame, hrelated, hanswer⟩ := hx _ _ (hpart s t hst)
  exact ⟨hsame, hput s t _ _ hst hrelated, hanswer⟩

/-- An attempt keeps an invariant when it respects equality of the states that have it. -/
theorem respects_invariant {I : σ → Prop} {x : Attempt σ α} :
    x.Respects (fun s t => s = t ∧ I s) Q ↔
      ∀ s, I s → I (x.outcome s).2 ∧ ∀ a, (x.outcome s).1 = .ok a → Q a :=
  ⟨fun hx s hs => have h := hx s s ⟨rfl, hs⟩; ⟨h.2.1.2, h.2.2⟩,
    fun hx s _ ⟨he, hs⟩ => he ▸ ⟨rfl, ⟨rfl, (hx s hs).1⟩, (hx s hs).2⟩⟩

/-- What holds after the first step holds in the end if the second step keeps it. -/
theorem invariant_bind {I : σ → Prop} {x : Attempt σ α} {next : α → Attempt σ β} {s : σ}
    (hx : I (x.outcome s).2)
    (hnext : ∀ a, (next a).Respects (fun s t => s = t ∧ I s) fun _ => True) :
    I ((x >>= next).outcome s).2 := by
  rw [outcome_bind]
  rcases h : x.outcome s with ⟨_ | a, u⟩
  · rwa [h] at hx
  · rw [h] at hx
    exact (respects_invariant.mp (hnext a) u hx).1

end Attempt

end Grove
