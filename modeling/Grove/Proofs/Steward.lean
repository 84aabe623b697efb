import Grove.Backend.Observed
import Grove.Proofs.Resource.Forest
import Grove.Service

/-!
# What stewards ask of backends

A steward reaches a backend only through the calls that its operations are made of, so
what is true of those calls is true of the operation. `Backend.Obeys` says that of a
backend: a relation of its states is respected by every call that is admitted. The
relation and what is admitted are left open. With equality of states that have an
invariant this is about what one operation does; with states that differ in a part it is
about what an operation can tell.

Whom a call concerns is known from the store it is put to. A steward that is `Wired` has
the store of its own resource and is linked to those of its relatives, and the ranks of
the tree keep the relatives apart from it.
-/

namespace Grove

/-- Every admitted call respects the relation, and a store that is made is labelled with
the name of its resource. -/
structure Backend.Obeys {σ ρ : Type} (b : Backend σ ρ) (label : ρ → String) (R : σ → σ → Prop)
    (may : Call → Prop) : Prop where
  create : ∀ r, may ⟨r.name, .create, none, none⟩ →
    (b.create r).Respects R fun made => label made = r.name
  add : ∀ s record, may ⟨label s, .add, none, none⟩ → (b.add s record).Respects R fun _ => True
  find : ∀ s c, may ⟨label s, .find, c, none⟩ → (b.find s c).Respects R fun _ => True
  query : ∀ s c o, may ⟨label s, .query, c, some o⟩ → (b.query s c o).Respects R fun _ => True
  count : ∀ s c, may ⟨label s, .count, c, none⟩ → (b.count s c).Respects R fun _ => True
  update : ∀ s c changes, may ⟨label s, .update, c, none⟩ →
    (b.update s c changes).Respects R fun _ => True
  remove : ∀ s c, may ⟨label s, .remove, c, none⟩ → (b.remove s c).Respects R fun _ => True
  now : b.now.Respects R fun _ => True

/-- A backend labels its stores when a store that is made for a resource has its name. -/
def Backend.Labels {σ ρ : Type} (b : Backend σ ρ) (label : ρ → String) : Prop :=
  ∀ r s made, ((b.create r).outcome s).1 = .ok made → label made = r.name

/-- The call leaves the records of a resource alone. -/
def Call.Spares (hidden : String) (call : Call) : Prop :=
  call.resource ≠ hidden ∨ call.operation = .create

def Call.Open (may : Call → Prop) (name : String) : Prop :=
  ∀ operation c o, may ⟨name, operation, c, o⟩

/-- The steward has the store of its resource and is linked to the parent and to children
of it, as the tree has them. -/
inductive Steward.Wired {ρ : Type} (label : ρ → String) (t : Forest) : Steward ρ → Prop
  | mk {r : Resource} {store : ρ} {parent : Option (ParentRef ρ)}
      {children : List (ChildRef × Steward ρ)}
      (placed : t.get? r.name = some r)
      (own : label store = r.name)
      (above : ∀ link, parent = some link →
        r.parent = some link.resource ∧ label link.store = link.resource)
      (below : ∀ below ∈ children, below.1 = Service.childRef r below.2.resource ∧
        below.2.resource.parent = some r.name)
      (wired : ∀ below ∈ children, Steward.Wired label t below.2) :
      Steward.Wired label t (.mk r store parent children)

def Resource.IsRelative (t : Forest) (r : Resource) (name : String) : Prop :=
  r.parent = some name ∨ ∃ child, t.get? name = some child ∧ child.parent = some r.name

namespace Steward

variable {σ ρ : Type} {b : Backend σ ρ} {label : ρ → String} {R : σ → σ → Prop}
  {may : Call → Prop} {t : Forest} {m : Steward ρ}

theorem Wired.placed (hm : m.Wired label t) : t.get? m.resource.name = some m.resource := by
  cases hm with
  | mk placed own above below wired => exact placed

theorem Wired.label_store (hm : m.Wired label t) : label m.store = m.resource.name := by
  cases hm with
  | mk placed own above below wired => exact own

/-! ## Reading -/

theorem stamp_respects (hb : b.Obeys label R may) (record : Record) :
    (m.stamp b record).Respects R fun _ => True := by
  rw [stamp]
  cases m.resource.timestamps with
  | none => exact Attempt.respects_pure trivial
  | some stamps => exact hb.now.bind fun now _ => Attempt.respects_pure trivial

/-- Stamping a record changes nothing but its stamps. -/
theorem get?_of_stamp {record stamped : Record} {s u : σ}
    (h : (m.stamp b record).outcome s = (.ok stamped, u)) {name : String}
    (hname : ∀ stamps, m.resource.timestamps = some stamps →
      name ≠ stamps.created ∧ name ≠ stamps.modified) : stamped.get? name = record.get? name := by
  rw [stamp] at h
  cases hstamps : m.resource.timestamps with
  | none =>
      rw [hstamps] at h
      cases h
      rfl
  | some stamps =>
      rw [hstamps] at h
      obtain ⟨now, _, -, h⟩ := Attempt.outcome_bind_eq_ok.mp h
      cases h
      obtain ⟨hcreated, hmodified⟩ := hname stamps hstamps
      rw [Record.get?_insert, if_neg hmodified, Record.get?_insert, if_neg hcreated]

theorem restamp_respects (hb : b.Obeys label R may) (changes : Record) :
    (m.restamp b changes).Respects R fun _ => True := by
  rw [restamp]
  cases m.resource.timestamps with
  | none => exact Attempt.respects_pure trivial
  | some stamps => exact hb.now.bind fun now _ => Attempt.respects_pure trivial

theorem parentRecord_respects (hb : b.Obeys label R may) {link : ParentRef ρ}
    (hopen : Call.Open may (label link.store)) (record : Record) :
    (parentRecord b link record).Respects R fun _ => True := by
  rw [parentRecord]
  split
  · exact Attempt.respects_pure trivial
  · refine (hb.find _ _ (hopen _ _ _)).bind fun found _ => ?_
    cases found <;> exact Attempt.respects_pure trivial

theorem childRecords_respects (hb : b.Obeys label R may) (link : ChildRef) {child : Steward ρ}
    (hopen : Call.Open may (label child.store)) (record : Record) :
    (m.childRecords b link child record).Respects R fun _ => True :=
  (hb.query _ _ _ (hopen _ _ _)).bind fun _ _ => Attempt.respects_pure trivial

/-- What is read to answer with related records concerns only the relatives asked for. -/
theorem related_respects (hb : b.Obeys label R may) (hm : m.Wired label t) {name : String}
    (hopen : m.resource.IsRelative t name → Call.Open may name) (record : Record) :
    (m.related b record name).Respects R fun _ => True := by
  cases hm with
  | @mk r store parent children placed own above below wired =>
      rw [related]
      cases hlink : Option.filter (fun link => link.resource == name) parent with
      | some link =>
          obtain ⟨hparent, hname⟩ := Option.filter_eq_some_iff.mp hlink
          obtain ⟨hr, hlabel⟩ := above link hparent
          have hname : link.resource = name := by simpa using hname
          rw [hname] at hr hlabel
          rw [Steward.parent, hlink]
          exact parentRecord_respects hb (hlabel ▸ hopen (.inl hr)) record
      | none =>
          rw [Steward.parent, hlink, Steward.children]
          cases hchild : children.find? (·.1.resource == name) with
          | none => exact Attempt.respects_throw
          | some found =>
              obtain ⟨link, child⟩ := found
              have hmem := List.mem_of_find?_eq_some hchild
              obtain ⟨(rfl : link = Service.childRef r child.resource), hparent⟩ := below _ hmem
              have hname : child.resource.name = name := by
                simpa [Service.childRef] using List.find?_some hchild
              have hlabel : label child.store = name := by rw [(wired _ hmem).label_store, hname]
              have hrelative : r.IsRelative t name :=
                .inr ⟨child.resource, hname ▸ (wired _ hmem).placed, hparent⟩
              exact childRecords_respects hb _ (hlabel ▸ hopen hrelative) record

theorem attach_respects (hb : b.Obeys label R may) (hm : m.Wired label t) {names : List String}
    (hopen : ∀ name ∈ names, m.resource.IsRelative t name → Call.Open may name) (record : Record) :
    (m.attach b record names).Respects R fun _ => True := by
  induction names generalizing record with
  | nil => exact Attempt.respects_pure trivial
  | cons name names ih =>
      rw [List.forall_mem_cons] at hopen
      exact (related_respects hb hm hopen.1 record).bind fun value _ => ih hopen.2 _

theorem query_respects (hb : b.Obeys label R may) (hm : m.Wired label t) {c : Option Criteria}
    {o : Paging} (hown : may ⟨m.resource.name, .query, c, some o⟩)
    (hopen : ∀ name ∈ o.fetch, m.resource.IsRelative t name → Call.Open may name) :
    (m.query b c o).Respects R fun _ => True := by
  rw [← hm.label_store] at hown
  refine (hb.query _ _ _ hown).bind fun records _ => ?_
  exact (Attempt.Respects.mapM fun record _ => attach_respects hb hm hopen record).mono
    fun _ _ => trivial

theorem find_respects (hb : b.Obeys label R may) (hm : m.Wired label t) {c : Option Criteria}
    (hown : may ⟨m.resource.name, .find, c, none⟩) : (m.find b c).Respects R fun _ => True :=
  hb.find _ _ (hm.label_store ▸ hown)

theorem count_respects (hb : b.Obeys label R may) (hm : m.Wired label t) {c : Option Criteria}
    (hown : may ⟨m.resource.name, .count, c, none⟩) : (m.count b c).Respects R fun _ => True :=
  hb.count _ _ (hm.label_store ▸ hown)

/-! ## Writing -/

theorem add_respects (hb : b.Obeys label R may) (hm : m.Wired label t) (record : Record)
    (hown : may ⟨m.resource.name, .add, none, none⟩) : (m.add b record).Respects R fun _ => True :=
  (stamp_respects hb record).bind fun _ _ => hb.add _ _ (hm.label_store ▸ hown)

theorem update_respects (hb : b.Obeys label R may) (hm : m.Wired label t) {c : Option Criteria}
    (changes : Record) (hown : may ⟨m.resource.name, .update, c, none⟩) :
    (m.update b c changes).Respects R fun _ => True :=
  (restamp_respects hb changes).bind fun _ _ => hb.update _ _ _ (hm.label_store ▸ hown)

theorem keysFrom_respects (hb : b.Obeys label R may) {store : ρ} {c : Option Criteria}
    (hown : ∀ o, may ⟨label store, .query, c, some o⟩) (windows offset : Nat) :
    (keysFrom b store c windows offset).Respects R fun _ => True := by
  induction windows generalizing offset with
  | zero => exact Attempt.respects_throw
  | succ windows ih =>
      refine (hb.query _ _ _ (hown _)).bind fun page _ => ?_
      split
      · exact Attempt.respects_pure trivial
      · exact (ih _).bind fun _ _ => Attempt.respects_pure trivial

mutual

/-- A removal calls for its own resource with the criteria that it is given, and otherwise
only for resources further down. -/
theorem remove_respects (hb : b.Obeys label R may) {rank : String → Nat} (hrank : t.Ranks rank)
    {m : Steward ρ} (hm : m.Wired label t) {c : Option Criteria}
    (hremove : may ⟨m.resource.name, .remove, c, none⟩)
    (hquery : ∀ o, may ⟨m.resource.name, .query, c, some o⟩)
    (hopen : ∀ name, rank m.resource.name < rank name → Call.Open may name) :
    (m.remove b c).Respects R fun _ => True := by
  match m with
  | .mk r store parent children =>
      cases hm with
      | mk placed own above below wired =>
          have hown : (b.remove store c).Respects R fun _ => True :=
            hb.remove _ _ (by rw [own]; exact hremove)
          have hkeys : (selectedKeys b store c).Respects R fun _ => True :=
            keysFrom_respects hb (by rw [own]; exact hquery) _ _
          rw [remove]
          split
          · refine hkeys.bind fun keys _ => ?_
            split
            · refine (removeBelow_respects hb hrank wired (fun child hchild => ?_) keys).bind
                fun _ _ => hown
              have hlower := hrank _ (List.mem_of_find?_eq_some (wired child hchild).placed) _
                (below child hchild).2
              exact ⟨hopen _ hlower, fun name hname => hopen name (Nat.lt_trans hlower hname)⟩
            · exact hown
          · exact hown

theorem removeBelow_respects (hb : b.Obeys label R may) {rank : String → Nat}
    (hrank : t.Ranks rank) {children : List (ChildRef × Steward ρ)}
    (wired : ∀ below ∈ children, below.2.Wired label t)
    (hopen : ∀ below ∈ children, Call.Open may below.2.resource.name ∧
      ∀ name, rank below.2.resource.name < rank name → Call.Open may name) (keys : List Json) :
    (removeBelow b keys children).Respects R fun _ => True := by
  match children with
  | [] => exact Attempt.respects_pure trivial
  | (link, child) :: rest =>
      rw [List.forall_mem_cons] at wired hopen
      have hrest := removeBelow_respects hb hrank wired.2 hopen.2 keys
      rw [removeBelow]
      split
      · exact (remove_respects hb hrank wired.1 (hopen.1.1 _ _ _) (fun _ => hopen.1.1 _ _ _)
          hopen.1.2).bind fun _ _ => hrest
      · exact hrest

end

end Steward

end Grove
