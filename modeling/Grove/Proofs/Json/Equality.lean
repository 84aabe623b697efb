import Grove.Document.Matcher

/-!
# Equality of values

There are two notions of equality. Two values are the same (`Json.same`) when they are built
alike, and this is what a new key is held against. Two values that stand on their own are
equal (`Json.equalScalar`) also when they are numbers that are written differently. Whatever
is the same is equal, and every value is the same as itself, a number included: no number of
a JSON text is without a value.
-/

namespace Grove

namespace Number

theorem same_refl (n : Number) : n.same n = true := by
  cases n <;> simp [same, Double.same]

theorem same_comm (m n : Number) : m.same n = n.same m := by
  cases m <;> cases n <;> simp [same, Double.same, Bool.beq_comm]

theorem toDouble_same_of_same {m n : Number} (h : m.same n = true) :
    m.toDouble.same n.toDouble = true := by
  cases m <;> cases n <;> simp_all [same, toDouble, Double.same]

end Number

namespace Json

mutual

theorem same_refl (v : Json) : v.same v = true := by
  match v with
  | .null => rfl
  | .bool b => simp [same]
  | .number n => rw [same, Number.same_refl]
  | .string s => simp [same]
  | .array items => rw [same, sameItems_refl]
  | .object members => rw [same, sameMembers_refl]

theorem sameItems_refl (vs : List Json) : sameItems vs vs = true := by
  match vs with
  | [] => rfl
  | v :: vs => rw [sameItems, same_refl, sameItems_refl, Bool.and_self]

theorem sameMembers_refl (members : List (String × Json)) : sameMembers members members = true := by
  match members with
  | [] => rfl
  | (name, v) :: members => rw [sameMembers, same_refl, sameMembers_refl, beq_self_eq_true]; rfl

end

mutual

theorem same_comm (v w : Json) : v.same w = w.same v := by
  cases v with
  | null => cases w <;> rfl
  | bool a => cases w <;> simp only [same, Bool.beq_comm]
  | number m => cases w <;> simp only [same, Number.same_comm]
  | string s => cases w <;> simp only [same, Bool.beq_comm]
  | array vs =>
      cases w with
      | array ws => rw [same, same, sameItems_comm]
      | null | bool | number | string | object => rfl
  | object vs =>
      cases w with
      | object ws => rw [same, same, sameMembers_comm]
      | null | bool | number | string | array => rfl

theorem sameItems_comm (vs ws : List Json) : sameItems vs ws = sameItems ws vs := by
  match vs, ws with
  | [], [] | [], _ :: _ | _ :: _, [] => rfl
  | v :: vs, w :: ws => rw [sameItems, sameItems, same_comm, sameItems_comm]

theorem sameMembers_comm (vs ws : List (String × Json)) :
    sameMembers vs ws = sameMembers ws vs := by
  match vs, ws with
  | [], [] | [], _ :: _ | _ :: _, [] => rfl
  | (k, v) :: vs, (l, w) :: ws =>
      rw [sameMembers, sameMembers, same_comm, sameMembers_comm, Bool.beq_comm]

end

end Json

end Grove
