import Grove.Http.Body
import Grove.Proofs.Outcome

/-!
# Records in the order of their names

The fields of a record stand in the order of their names, so none is there twice. What is
read is like that, and what is put in or taken out keeps it. It matters where records are
given as changes: a field that was there twice, the second time out of its place, could be
taken out or overwritten and still be set by the changes.
-/

namespace Grove

namespace Record

def Ordered (r : Record) : Prop := r.fields.Pairwise fun field later => field.1 < later.1

variable {r changes : Record} {name : String} {value : Json}

theorem mem_insertField {fields : List (String × Json)} {field : String × Json}
    (h : field ∈ insertField name value fields) : field = (name, value) ∨ field ∈ fields := by
  induction fields with
  | nil => exact .inl (List.mem_singleton.mp h)
  | cons first rest ih =>
      rw [insertField] at h
      split at h
      · exact (List.mem_cons.mp h).imp_right (List.mem_cons_of_mem first)
      · split at h
        · exact List.mem_cons.mp h
        · obtain rfl | h := List.mem_cons.mp h
          · exact .inr List.mem_cons_self
          · exact (ih h).imp_right (List.mem_cons_of_mem first)

theorem ordered_empty : empty.Ordered := .nil

theorem Ordered.insert (h : r.Ordered) (name : String) (value : Json) :
    (r.insert name value).Ordered := by
  obtain ⟨fields⟩ := r
  rw [Ordered, Record.insert]
  simp only [Ordered] at h ⊢
  induction fields with
  | nil => exact List.pairwise_singleton _ _
  | cons first rest ih =>
      obtain ⟨hfirst, hrest⟩ := List.pairwise_cons.mp h
      rw [insertField]
      split
      · next hname => exact List.pairwise_cons.mpr ⟨hname ▸ hfirst, hrest⟩
      · next hne =>
          split
          · next hlt =>
              refine List.pairwise_cons.mpr ⟨fun field hfield => ?_, h⟩
              obtain rfl | hfield := List.mem_cons.mp hfield
              · exact hlt
              · exact String.lt_trans hlt (hfirst field hfield)
          · next hnot =>
              have hgt : first.1 < name := by
                rcases Decidable.em (first.1 < name) with hgt | hgt
                · exact hgt
                · have hsame := String.le_antisymm (String.not_lt.mp hgt) (String.not_lt.mp hnot)
                  exact absurd hsame hne
              refine List.pairwise_cons.mpr ⟨fun field hfield => ?_, ih hrest⟩
              obtain rfl | hfield := mem_insertField hfield
              · exact hgt
              · exact hfirst field hfield

theorem Ordered.erase (h : r.Ordered) (name : String) : (r.erase name).Ordered :=
  List.Pairwise.sublist List.filter_sublist h

theorem Ordered.update (h : r.Ordered) (changes : Record) : (r.update changes).Ordered := by
  obtain ⟨fields⟩ := changes
  rw [Record.update]
  induction fields generalizing r with
  | nil => exact h
  | cons field fields ih => exact ih (h.insert field.1 field.2)

theorem ordered_ofList (fields : List (String × Json)) : (ofList fields).Ordered :=
  ordered_empty.update ⟨fields⟩

theorem lookup_eq_none_of_lt {fields : List (String × Json)}
    (h : ∀ field ∈ fields, name < field.1) : fields.lookup name = none := by
  induction fields with
  | nil => rfl
  | cons field rest ih =>
      rw [List.forall_mem_cons] at h
      have hne : name ≠ field.1 := fun heq => String.lt_irrefl field.1 (heq ▸ h.1)
      rw [lookup_cons_ite, if_neg hne, ih h.2]

/-- Ordered changes set each field that they name to the value that they have for it. -/
theorem get?_update_of_ordered (h : changes.Ordered) (r : Record) (name : String) :
    (r.update changes).get? name = (changes.get? name).or (r.get? name) := by
  obtain ⟨fields⟩ := changes
  simp only [Record.update, get?, Ordered] at h ⊢
  induction fields generalizing r with
  | nil => rfl
  | cons field fields ih =>
      obtain ⟨hfirst, hrest⟩ := List.pairwise_cons.mp h
      rw [List.foldl_cons, ih _ hrest, lookup_cons_ite, Record.insert, lookup_insertField]
      by_cases hname : name = field.1
      · rw [if_pos hname, if_pos hname, lookup_eq_none_of_lt (hname ▸ hfirst)]
        rfl
      · rw [if_neg hname, if_neg hname]

end Record

theorem Json.Raw.ordered_of_toJson? {raw : Raw} {members : List (String × Json)}
    (h : raw.toJson? = some (.object members)) : Record.Ordered ⟨members⟩ := by
  cases raw with
  | object fields =>
      obtain ⟨fields, -, hmembers⟩ := Option.map_eq_some_iff.mp h
      cases hmembers
      exact Record.ordered_ofList fields
  | number n | string s | array items =>
      obtain ⟨_, -, hvalue⟩ := Option.map_eq_some_iff.mp h
      cases hvalue
  | null | bool b => cases h

/-- The changes that requests bring are ordered, whatever their bodies are. -/
theorem Http.Request.ordered_of_record {request : Http.Request} {r : Record}
    (h : request.record = .ok r) : r.Ordered := by
  obtain ⟨value, hvalue, h⟩ := bind_eq_ok.mp h
  cases value with
  | object members =>
      cases h
      rw [json] at hvalue
      split at hvalue
      · cases hvalue
      · split at hvalue
        · cases hvalue
        · split at hvalue
          · next hread =>
              cases hvalue
              obtain ⟨raw, -, hraw⟩ := Option.bind_eq_some_iff.mp hread
              exact Json.Raw.ordered_of_toJson? hraw
          · cases hvalue
  | null | bool | number | string | array => cases h

end Grove
