import Grove.Backend.Observed
import Grove.Proofs.Steward

/-!
# What a watch writes down

A watched backend only ever adds to the calls that are written down, and it adds the calls
that are made. So as far as admitted calls go, it keeps it true that everything written
down since some moment was admitted (`observed_obeys`), whatever the backend behind it is.
-/

namespace Grove

variable {σ ρ : Type} {may : Call → Prop} {calls : List Call}

/-- Since the given calls, only admitted ones have been written down. -/
def Observed.Since (calls : List Call) (may : Call → Prop) (o : Observed σ) : Prop :=
  ∃ new, o.calls = calls ++ new ∧ ∀ call ∈ new, may call

namespace Observed

theorem since_self (may : Call → Prop) (o : Observed σ) : o.Since o.calls may :=
  ⟨[], (List.append_nil _).symm, nofun⟩

theorem Since.next {o : Observed σ} (h : o.Since calls may) {call : Call} (hcall : may call) :
    ({ o with calls := o.calls ++ [call] } : Observed σ).Since calls may := by
  obtain ⟨new, hnew, hmay⟩ := h
  refine ⟨new ++ [call], by rw [hnew, List.append_assoc], fun c hc => ?_⟩
  rcases List.mem_append.mp hc with hc | hc
  · exact hmay c hc
  · rw [List.mem_singleton.mp hc]
    exact hcall

theorem outcome_watch {α : Type} (call : Call) (x : Attempt σ α) (o : Observed σ) :
    (watch call x).outcome o =
      if o.refuses call.resource call.operation then
        (.error unavailable, { o with calls := o.calls ++ [call] })
      else ((x.outcome o.state).1,
        { o with calls := o.calls ++ [call], state := (x.outcome o.state).2 }) := by
  rw [watch, Attempt.outcome_get_bind, Attempt.outcome_bind, Attempt.outcome_set]
  by_cases h : o.refuses call.resource call.operation = true
  · simp only [h, if_true]
    rfl
  · simp only [h]
    rfl

theorem calls_watch {α : Type} (call : Call) (x : Attempt σ α) (o : Observed σ) :
    ((watch call x).outcome o).2.calls = o.calls ++ [call] := by
  rw [outcome_watch]
  split <;> rfl

theorem watch_respects {α : Type} {Q : α → Prop} {call : Call} (hcall : may call)
    {x : Attempt σ α} (hx : ∀ s a, (x.outcome s).1 = .ok a → Q a) :
    (watch call x).Respects (fun o u => o = u ∧ o.Since calls may) Q := by
  refine Attempt.respects_invariant.mpr fun o ho => ?_
  rw [outcome_watch]
  split
  · exact ⟨ho.next hcall, nofun⟩
  · exact ⟨ho.next hcall, hx _⟩

end Observed

namespace Backend

theorem observed_labels (b : Backend σ ρ) : b.observed.Labels ObservedStore.resource := by
  intro r o made h
  rw [observed, Observed.outcome_watch] at h
  split at h
  · cases h
  · obtain ⟨store, s, -, hmade⟩ := Attempt.outcome_bind_eq_ok.mp (Prod.ext h rfl)
    cases hmade
    rfl

theorem observed_obeys (b : Backend σ ρ) (calls : List Call) (may : Call → Prop) :
    b.observed.Obeys ObservedStore.resource (fun o u => o = u ∧ o.Since calls may) may where
  create r h := Observed.watch_respects h fun s made hmade => by
    obtain ⟨store, s, -, hmade⟩ := Attempt.outcome_bind_eq_ok.mp (Prod.ext hmade rfl)
    cases hmade
    rfl
  add _ _ h := Observed.watch_respects h fun _ _ _ => trivial
  find _ _ h := Observed.watch_respects h fun _ _ _ => trivial
  query _ _ _ h := Observed.watch_respects h fun _ _ _ => trivial
  count _ _ h := Observed.watch_respects h fun _ _ _ => trivial
  update _ _ _ h := Observed.watch_respects h fun _ _ _ => trivial
  remove _ _ h := Observed.watch_respects h fun _ _ _ => trivial
  now := Attempt.respects_invariant.mpr fun _ ho => ⟨ho, fun _ _ => trivial⟩

end Backend

theorem Steward.since_query (b : Backend σ ρ) {t : Forest} {m : Steward (ObservedStore ρ)}
    (hm : m.Wired ObservedStore.resource t) (c : Option Criteria) (options : Paging)
    (o : Observed σ) :
    ((m.query b.observed c options).outcome o).2.Since
      (o.calls ++ [⟨m.resource.name, .query, c, some options⟩]) fun _ => True := by
  have hcalls : ((b.observed.query m.store c options).outcome o).2.calls =
      o.calls ++ [⟨m.resource.name, .query, c, some options⟩] := by
    rw [← hm.label_store]
    exact Observed.calls_watch _ _ o
  refine Attempt.invariant_bind (hcalls ▸ Observed.since_self _ _) fun records => ?_
  exact (Attempt.Respects.mapM fun record _ => Steward.attach_respects (b.observed_obeys _ _) hm
    (fun _ _ _ _ _ _ => trivial) record).mono fun _ _ => trivial

end Grove
