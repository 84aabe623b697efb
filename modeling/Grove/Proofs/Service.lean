import Grove.Proofs.Steward

/-!
# What services keep

A service makes stores and stewards when they are first asked for and keeps them, so what
they are depends on what was asked before. `Service.Wired` is what is always true of them:
a store that is kept under a name is the store of that resource, and a steward is wired.
`wired_of_running` has it of every service that can come about, however its requests and
the changes of its backend were ordered.

Two services are alike up to a relation of the states of their backends when they agree on
everything else. What a steward respects of a backend a service respects of services that
are alike.
-/

namespace Grove.Service

variable {σ ρ α : Type} {b : Backend σ ρ} {label : ρ → String} {R : σ → σ → Prop}
  {may : Call → Prop} {t : Forest} {Q : α → Prop}

/-- Stores and stewards are kept under the names of their resources. -/
structure Wired (label : ρ → String) (s : Service σ ρ) : Prop where
  store : ∀ name made, s.stores.lookup name = some made → label made = name
  steward : ∀ name m, s.stewards.lookup name = some m →
    m.resource.name = name ∧ m.Wired label s.tree

/-- Two services of a tree that differ only in the states of their backends. -/
structure Alike (label : ρ → String) (t : Forest) (R : σ → σ → Prop) (s u : Service σ ρ) :
    Prop where
  left : s.tree = t
  right : u.tree = t
  stores : s.stores = u.stores
  stewards : s.stewards = u.stewards
  state : R s.state u.state
  wired : s.Wired label

theorem outcome_onBackend_eq_ok {x : Attempt σ α} {s u : Service σ ρ} {a : α} :
    (onBackend x).outcome s = (.ok a, u) ↔
      ∃ state, x.outcome s.state = (.ok a, state) ∧ u = { s with state } := by
  rw [onBackend, Attempt.outcome_within]
  rcases x.outcome s.state with ⟨answer, state⟩
  constructor
  · intro h
    cases h
    exact ⟨state, rfl, rfl⟩
  · rintro ⟨state, h, rfl⟩
    cases h
    rfl

theorem onBackend_respects {x : Attempt σ α} (hx : x.Respects R Q) :
    (onBackend x : Attempt (Service σ ρ) α).Respects (Alike label t R) Q := by
  refine hx.within (fun _ _ h => h.state) fun s u a c h hac => ?_
  exact ⟨h.left, h.right, h.stores, h.stewards, hac, ⟨h.wired.store, h.wired.steward⟩⟩

theorem resource_respects (name : String) :
    (resource name : Attempt (Service σ ρ) Resource).Respects (Alike label t R)
      fun r => t.get? name = some r := by
  refine Attempt.respects_get fun s u h => ?_
  rw [h.left, h.right]
  refine ⟨rfl, ?_⟩
  cases t.get? name with
  | none => exact Attempt.respects_throw
  | some r => exact Attempt.respects_pure rfl

theorem keepStore_respects {name : String} {made : ρ} (h : label made = name) :
    (modify fun s => { s with stores := (name, made) :: s.stores } :
      Attempt (Service σ ρ) PUnit).Respects (Alike label t R) fun _ => True := by
  refine Attempt.respects_modify fun s u hsu => ?_
  refine ⟨hsu.left, hsu.right, by rw [hsu.stores], hsu.stewards, hsu.state, ?_, hsu.wired.steward⟩
  intro other kept hkept
  rw [List.lookup_cons] at hkept
  split at hkept
  · next hname => cases hkept; rw [h, eq_of_beq hname]
  · exact hsu.wired.store other kept hkept

theorem keepSteward_respects {name : String} {m : Steward ρ} (hname : m.resource.name = name)
    (hm : m.Wired label t) :
    (modify fun s => { s with stewards := (name, m) :: s.stewards } :
      Attempt (Service σ ρ) PUnit).Respects (Alike label t R) fun _ => True := by
  refine Attempt.respects_modify fun s u hsu => ?_
  refine ⟨hsu.left, hsu.right, hsu.stores, by rw [hsu.stewards], hsu.state, hsu.wired.store, ?_⟩
  intro other kept hkept
  rw [List.lookup_cons] at hkept
  split at hkept
  · next heq =>
      cases hkept
      exact ⟨by rw [hname, eq_of_beq heq], by rw [hsu.left]; exact hm⟩
  · exact hsu.wired.steward other kept hkept

section

variable (hb : b.Obeys label R may)
  (hcreate : ∀ name, may ⟨name, .create, none, none⟩)

include hb hcreate

theorem store_respects (name : String) :
    (store b name).Respects (Alike label t R) fun made => label made = name := by
  refine (resource_respects name).bind fun r hr => Attempt.respects_get fun s u h => ?_
  rw [h.stores]
  refine ⟨rfl, ?_⟩
  cases hkept : u.stores.lookup name with
  | some made => exact Attempt.respects_pure (h.wired.store name made (by rw [h.stores, hkept]))
  | none =>
      refine (onBackend_respects (hb.create r (hcreate r.name))).bind fun made hmade => ?_
      rw [(Forest.mem_of_get? hr).2] at hmade
      exact (keepStore_respects hmade).bind fun _ _ => Attempt.respects_pure hmade

theorem parentRef_respects (r : Resource) :
    (parentRef b r).Respects (Alike label t R) fun parent => ∀ link, parent = some link →
      r.parent = some link.resource ∧ label link.store = link.resource := by
  rw [parentRef]
  split
  · next parent field hparent hfield =>
      refine (store_respects hb hcreate parent).bind fun made hmade => Attempt.respects_pure ?_
      rintro link ⟨⟩
      exact ⟨hparent, hmade⟩
  · exact Attempt.respects_pure nofun

/-- A steward is wired when it is made, because the stores it is made of are, and the tree
has its children below it. -/
theorem stewardAt_respects (ht : t.Sound) (levels : Nat) (name : String) :
    (stewardAt b levels name).Respects (Alike label t R) fun m =>
      m.resource.name = name ∧ m.Wired label t := by
  induction levels generalizing name with
  | zero => exact Attempt.respects_throw
  | succ levels ih =>
      refine (resource_respects name).bind fun r hr => Attempt.respects_get fun s u h => ?_
      rw [h.stewards]
      refine ⟨rfl, ?_⟩
      obtain ⟨hmem, rfl⟩ := Forest.mem_of_get? hr
      cases hkept : u.stewards.lookup r.name with
      | some made =>
          obtain ⟨hname, hwired⟩ := h.wired.steward r.name made (by rw [h.stewards, hkept])
          exact Attempt.respects_pure ⟨hname, h.left ▸ hwired⟩
      | none =>
          refine (store_respects hb hcreate r.name).bind fun own hown => ?_
          refine (parentRef_respects hb hcreate r).bind fun parent habove => ?_
          have hchild : ∀ name ∈ r.children, (do
              let child ← resource name
              return (childRef r child, ← stewardAt b levels name) :
                Attempt (Service σ ρ) (ChildRef × Steward ρ)).Respects (Alike label t R)
              fun below => (below.1 = childRef r below.2.resource ∧
                below.2.resource.parent = some r.name) ∧ below.2.Wired label t := by
            intro name hname
            refine (resource_respects name).bind fun child hchild => (ih name).bind fun m hm => ?_
            obtain ⟨hplace, hchildName⟩ := Forest.mem_of_get? hchild
            have hsame : m.resource = child := by
              have hplaced := hm.2.placed
              rw [hm.1, hchild] at hplaced
              exact (Option.some.inj hplaced).symm
            refine Attempt.respects_pure ⟨⟨by rw [hsame], ?_⟩, hm.2⟩
            rw [hsame]
            exact ht.parent_of_child r hmem child hplace (hchildName ▸ hname)
          refine (Attempt.Respects.mapM hchild).bind fun children hbelow => ?_
          have hwired : (Steward.mk r own parent children).Wired label t :=
            .mk hr hown habove (fun below h => (hbelow below h).1) fun below h => (hbelow below h).2
          exact (keepSteward_respects rfl hwired).bind fun _ _ =>
            Attempt.respects_pure ⟨rfl, hwired⟩

theorem steward_respects (ht : t.Sound) (name : String) :
    (steward b name).Respects (Alike label t R) fun m =>
      m.resource.name = name ∧ m.Wired label t := by
  refine Attempt.respects_get fun s u h => ?_
  rw [h.left, h.right]
  exact ⟨rfl, stewardAt_respects hb hcreate ht _ name⟩

end

end Grove.Service
