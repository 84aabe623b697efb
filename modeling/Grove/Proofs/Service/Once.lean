import Grove.Backend.Observed
import Grove.Document.Store
import Grove.Proofs.Service.Complete
import Grove.Proofs.Service.Steps

/-!
# One store and one steward for each resource

A store of documents that keeps nothing on a disk is emptied when it is made, so making it
a second time would lose its records. `Backend.tallied` writes down what comes of every
attempt to make a store. It does so for any backend, so also for one that fails whenever
it likes, and `built_once` says what a service over it has done after any calls for stores
and stewards: no store was made again once it had been made, whatever was made is what
later calls get, and a steward is made of exactly what is kept for its relatives.
-/

namespace Grove

variable {σ ρ α : Type}

/-- A backend's state with what came of every attempt to make a store, in their order. -/
structure Tallied (σ ρ : Type) where
  state : σ
  attempts : List (String × Except Failure ρ) := []

def Tallied.untold (x : Attempt σ α) : Attempt (Tallied σ ρ) α :=
  x.within Tallied.state fun s state => { s with state }

def Backend.tallied (b : Backend σ ρ) : Backend (Tallied σ ρ) ρ where
  create r := .ofOutcome fun s =>
    let came := (b.create r).outcome s.state
    (came.1, ⟨came.2, s.attempts ++ [(r.name, came.1)]⟩)
  keys := b.keys
  add store record := Tallied.untold (b.add store record)
  find store c := Tallied.untold (b.find store c)
  query store c o := Tallied.untold (b.query store c o)
  count store c := Tallied.untold (b.count store c)
  update store c changes := Tallied.untold (b.update store c changes)
  remove store c := Tallied.untold (b.remove store c)
  now := Tallied.untold b.now

namespace Service

inductive Ask where
  | store (name : String)
  | steward (name : String)

def Ask.after (b : Backend σ ρ) (s : Service σ ρ) : Ask → Service σ ρ
  | store name => ((Service.store b name).outcome s).2
  | steward name => ((Service.steward b name).outcome s).2

def asked (b : Backend σ ρ) (s : Service σ ρ) (asks : List Ask) : Service σ ρ :=
  asks.foldl (Ask.after b) s

/-- Whatever is asked from here on, a call for the store gets this one and makes nothing. -/
def StoreLasts (b : Backend σ ρ) (s : Service σ ρ) (name : String) (store : ρ) : Prop :=
  ∀ asks, (Service.store b name).outcome (asked b s asks) = (.ok store, asked b s asks)

/-- Whatever is asked from here on, a call for the steward gets this one and makes nothing. -/
def StewardLasts (b : Backend σ ρ) (s : Service σ ρ) (name : String) (m : Steward ρ) : Prop :=
  ∀ asks, (Service.steward b name).outcome (asked b s asks) = (.ok m, asked b s asks)

/-- The call has made attempts for the names in question only. If it has failed, the last
attempt failed, and in the same way. -/
def Attempted (mine : String → Prop) (answer : Except Failure α)
    (s u : Service (Tallied σ ρ) ρ) : Prop :=
  ∃ new, u.state.attempts = s.state.attempts ++ new ∧ (∀ attempt ∈ new, mine attempt.1) ∧
    ∀ e, answer = .error e → ∃ name, new.getLast? = some (name, .error e)

/-- What is true of a service of a tree between its calls. -/
structure BuiltOnce (b : Backend σ ρ) (t : Forest) (s : Service (Tallied σ ρ) ρ) : Prop where
  tree : s.tree = t
  /-- Making a store succeeds at most once, and is not tried again after that. -/
  once : s.state.attempts.Pairwise fun earlier later =>
    earlier.1 = later.1 → ∃ e, earlier.2 = .error e
  /-- Every store that was made is kept, those that a failed call has made among them. -/
  kept : ∀ name store, (name, .ok store) ∈ s.state.attempts → s.stores.lookup name = some store
  storeLasts : ∀ name store, s.stores.lookup name = some store →
    StoreLasts b.tallied s name store
  stewardLasts : ∀ name m, s.stewards.lookup name = some m → StewardLasts b.tallied s name m
  /-- A name that no resource has is a failure and nothing else. -/
  unknown : ∀ name, t.get? name = none →
    (Service.store b.tallied name).outcome s = (.error (.unknownResource name), s) ∧
    (Service.steward b.tallied name).outcome s = (.error (.unknownResource name), s)
  /-- A call for a store makes no other store. -/
  store : ∀ name r, t.get? name = some r →
    ∀ answer u, (Service.store b.tallied name).outcome s = (answer, u) →
      Attempted (· = name) answer s u ∧
      ∀ made, answer = .ok made → StoreLasts b.tallied u name made
  /-- A call for a steward never runs into the bound on its depth. It makes no stores but
  those of the resource, its parent and what is below. The steward that it gets is made of
  what is kept; a call that fails has made all but what could not be made. -/
  steward : ∀ name r, t.get? name = some r →
    ∀ answer u, (Service.steward b.tallied name).outcome s = (answer, u) →
      (∀ levels, t.size < levels → (stewardAt b.tallied levels name).outcome s = (answer, u)) ∧
      Attempted (fun other => t.Under name other ∨ r.parent = some other) answer s u ∧
      (∀ m, answer = .ok m → u.Joint name m ∧ StewardLasts b.tallied u name m) ∧
      ∀ e, answer = .error e → u.Lacks r

variable {b : Backend σ ρ} {t : Forest} {name : String}

/-! ## The tally -/

section

variable {s u : Service (Tallied σ ρ) ρ} {may : Work ρ → Prop} {w : Work ρ}

def Work.attempts : Work ρ → List (String × Except Failure ρ)
  | refused name e => [(name, .error e)]
  | made name store => [(name, .ok store)]
  | joined _ _ => []

theorem Step.attempts (h : Step b.tallied w s u) :
    u.state.attempts = s.state.attempts ++ w.attempts := by
  cases h with
  | refused known missing came | made known missing came =>
      obtain ⟨hanswer, hstate⟩ := Prod.mk.inj came
      rw [← hstate, hanswer]
      rfl
  | joined missing joint => exact (List.append_nil _).symm

theorem Steps.attempts (h : Steps b.tallied may s u) : ∃ new,
    u.state.attempts = s.state.attempts ++ new ∧
      ∀ attempt ∈ new, ∃ w, may w ∧ attempt ∈ w.attempts := by
  induction h with
  | start => exact ⟨[], (List.append_nil _).symm, nofun⟩
  | @next w u v _ admitted step ih =>
      obtain ⟨new, hnew, hmay⟩ := ih
      refine ⟨new ++ w.attempts, by rw [step.attempts, hnew, List.append_assoc], fun a ha => ?_⟩
      rcases List.mem_append.mp ha with ha | ha
      · exact hmay a ha
      · exact ⟨w, admitted, ha⟩

/-- The stores that are kept are those that were made, and none was tried for after it. -/
structure Booked (s : Service (Tallied σ ρ) ρ) : Prop where
  kept : ∀ name store,
    (name, .ok store) ∈ s.state.attempts ↔ s.stores.lookup name = some store
  once : s.state.attempts.Pairwise fun earlier later =>
    earlier.1 = later.1 → ∃ e, earlier.2 = .error e

theorem Booked.append (hs : Booked s) {r : Resource} (missing : s.stores.lookup r.name = none)
    (answer : Except Failure ρ) :
    (s.state.attempts ++ [(r.name, answer)]).Pairwise fun earlier later =>
      earlier.1 = later.1 → ∃ e, earlier.2 = .error e := by
  refine List.pairwise_append.mpr
    ⟨hs.once, List.pairwise_singleton _ _, fun earlier h later hl => ?_⟩
  rw [List.mem_singleton.mp hl]
  intro hname
  obtain ⟨name, e | store⟩ := earlier
  · exact ⟨e, rfl⟩
  · have hkept := (hs.kept name store).mp h
    rw [show name = r.name from hname, missing] at hkept
    cases hkept

theorem Step.booked (h : Step b.tallied w s u) (hs : Booked s) : Booked u := by
  have hattempts := h.attempts
  cases h with
  | refused known missing came =>
      refine ⟨fun name store => ?_, ?_⟩
      · rw [hattempts, List.mem_append]
        refine ⟨fun h => h.elim (hs.kept name store).mp nofun,
          fun h => .inl ((hs.kept name store).mpr h)⟩
      · rw [hattempts]
        exact hs.append missing _
  | @made _ r made state known missing came =>
      refine ⟨fun name store => ?_, ?_⟩
      · rw [hattempts, List.mem_append]
        constructor
        · rintro (h | h)
          · exact lookup_cons_of_missing missing ((hs.kept name store).mp h)
          · cases List.mem_singleton.mp h
            exact List.lookup_cons_self
        · intro h
          rw [List.lookup_cons] at h
          split at h
          · next hname =>
              cases h
              exact .inr (eq_of_beq hname ▸ List.mem_singleton_self _)
          · exact .inl ((hs.kept name store).mpr h)
      · rw [hattempts]
        exact hs.append missing _
  | joined missing joint => exact ⟨hs.kept, hs.once⟩

theorem Steps.booked (h : Steps b.tallied may s u) (hs : Booked s) : Booked u := by
  induction h with
  | start => exact hs
  | next _ _ step ih => exact step.booked ih

/-- What comes of a call for a steward or a store is in the tally. -/
theorem Comes.attempted {done : α → Service (Tallied σ ρ) ρ → Prop}
    {halted : Service (Tallied σ ρ) ρ → Prop} {answer : Except Failure α} {mine : String → Prop}
    (h : Comes b.tallied may s done halted (answer, u))
    (hmay : ∀ w, may w → ∀ attempt ∈ w.attempts, mine attempt.1) : Attempted mine answer s u := by
  have hmine : ∀ {new : List (String × Except Failure ρ)},
      (∀ attempt ∈ new, ∃ w, may w ∧ attempt ∈ w.attempts) → ∀ attempt ∈ new, mine attempt.1 :=
    fun h attempt hmem => (h attempt hmem).elim fun w hw => hmay w hw.1 attempt hw.2
  cases h with
  | done work got =>
      obtain ⟨new, hnew, h⟩ := work.attempts
      exact ⟨new, hnew, hmine h, nofun⟩
  | @halted name e _ _ work admitted last left =>
      obtain ⟨new, hnew, h⟩ := work.attempts
      refine ⟨new ++ [(name, .error e)], ?_, ?_, ?_⟩
      · rw [last.attempts, hnew, List.append_assoc]
        rfl
      · refine fun attempt hmem => (List.mem_append.mp hmem).elim (hmine h attempt) fun hmem => ?_
        exact hmay _ admitted attempt hmem
      · rintro e ⟨⟩
        exact ⟨name, List.getLast?_concat⟩

end

/-! ## Calls one after the other -/

section

variable {s : Service σ ρ}

theorem Ask.steps (ht : t.Linked) (ask : Ask) (hs : Orderly t s) :
    Steps b (fun _ => True) s (ask.after b s) := by
  have hget : ∀ name, s.tree.get? name = none ∨ ∃ r, t.get? name = some r := fun name => by
    rw [hs.tree]
    cases t.get? name with
    | none => exact .inl rfl
    | some r => exact .inr ⟨r, rfl⟩
  cases ask with
  | store name =>
      rw [Ask.after]
      obtain unknown | ⟨r, known⟩ := hget name
      · rw [outcome_store_of_unknown unknown]
        exact .start
      · exact (store_comes (hs.tree ▸ known) (fun _ => trivial) fun _ => trivial).steps
  | steward name =>
      rw [Ask.after]
      obtain unknown | ⟨r, known⟩ := hget name
      · rw [outcome_steward_of_unknown unknown]
        exact .start
      · exact (steward_comes ht known hs).steps.mono fun _ _ => trivial

theorem asked_steps (ht : t.Linked) (asks : List Ask) (hs : Orderly t s) :
    Steps b (fun _ => True) s (asked b s asks) := by
  induction asks generalizing s with
  | nil => exact .start
  | cons ask asks ih =>
      have hstep := ask.steps (b := b) ht hs
      exact hstep.trans (ih (hstep.orderly hs))

theorem storeLasts_of_kept (ht : t.Linked) (hs : Orderly t s) {store : ρ}
    (h : s.stores.lookup name = some store) : StoreLasts b s name store := by
  intro asks
  obtain ⟨r, known⟩ := hs.known name store h
  have hwork := asked_steps (b := b) ht asks hs
  exact outcome_store_of_kept ((hwork.orderly hs).tree ▸ known) (hwork.grown.store name store h)

theorem stewardLasts_of_kept (ht : t.Linked) (hs : Orderly t s) {m : Steward ρ}
    (h : s.stewards.lookup name = some m) : StewardLasts b s name m := by
  intro asks
  have hwork := asked_steps (b := b) ht asks hs
  have hm := hwork.grown.steward name m h
  exact outcome_steward_of_kept ((hwork.orderly hs).joint name m hm).placed hm

/-! ## Services in use -/

theorem orderly_of_inUse (ht : t.Linked) (h : InUse b t s) : Orderly t s := by
  induction h with
  | fresh state => exact ⟨rfl, nofun, nofun⟩
  | store name _ ih => exact ((Ask.store name).steps (b := b) ht ih).orderly ih
  | steward name _ ih => exact ((Ask.steward name).steps (b := b) ht ih).orderly ih
  | @changed s state _ ih =>
      have hgrown : Grown s { s with state } := ⟨rfl, fun _ _ h => h, fun _ _ h => h⟩
      exact ⟨ih.tree, ih.known, fun name m hm => (ih.joint name m hm).grown hgrown⟩

/-- A steward that is handed out is kept, and is made of what is kept for its relatives. -/
theorem kept_of_steward (ht : t.Linked) (hs : Orderly t s) {r : Resource}
    (known : t.get? r.name = some r) {m : Steward ρ} {u : Service σ ρ}
    (hm : (steward b r.name).outcome s = (.ok m, u)) :
    u.tree = t ∧ u.stewards.lookup r.name = some m ∧ u.Joint r.name m := by
  have hcomes := steward_comes (b := b) ht known hs
  rw [hm] at hcomes
  cases hcomes with
  | done work got => exact ⟨(work.orderly hs).tree, got, (work.orderly hs).joint r.name m got⟩

end

/-! ## What is built once -/

theorem builtOnce_of_booked {s : Service (Tallied σ ρ) ρ} (ht : t.Linked) (hs : Orderly t s)
    (hbooked : Booked s) : BuiltOnce b t s where
  tree := hs.tree
  once := hbooked.once
  kept name store h := (hbooked.kept name store).mp h
  storeLasts name store := storeLasts_of_kept ht hs
  stewardLasts name m := stewardLasts_of_kept ht hs
  unknown name h :=
    ⟨outcome_store_of_unknown (hs.tree ▸ h), outcome_steward_of_unknown (hs.tree ▸ h)⟩
  store name r known answer u hcall := by
    have hcomes : Comes b.tallied (fun w => ∀ attempt ∈ w.attempts, attempt.1 = name) s _ _
        ((Service.store b.tallied name).outcome s) :=
      store_comes (hs.tree ▸ known) (fun e => by simp [Work.attempts])
        fun store => by simp [Work.attempts]
    rw [hcall] at hcomes
    refine ⟨hcomes.attempted fun w h => h, fun made hmade => ?_⟩
    subst hmade
    cases hcomes with
    | done work got => exact storeLasts_of_kept ht (work.orderly hs) got
  steward name r known answer u hcall := by
    have hcomes := steward_comes (b := b.tallied) ht known hs
    rw [hcall] at hcomes
    refine ⟨fun levels h => (steward_levels ht known hs h).trans hcall,
      hcomes.attempted fun w hw attempt hmem => ?_, fun m hm => ?_, fun e he => ?_⟩
    · cases w with
      | refused other _ | made other _ =>
          rw [List.mem_singleton.mp hmem]
          refine hw.imp_right fun ⟨r', hr', hparent⟩ => ?_
          rw [known] at hr'
          exact Option.some.inj hr' ▸ hparent
      | joined other _ => cases hmem
    · subst hm
      cases hcomes with
      | done work got =>
          have hu := work.orderly hs
          exact ⟨hu.joint name m got, stewardLasts_of_kept ht hu got⟩
    · subst he
      cases hcomes with
      | halted work admitted last left => exact left

/-- Whatever a service is asked for, and whenever the backend fails to make a store, there is
one store and one steward for each resource, and what there is stays in use. -/
theorem built_once {c : Config} (ht : Forest.ofConfig c = .ok t) (b : Backend σ ρ) (state : σ)
    (asks : List Ask) :
    BuiltOnce b t (asked b.tallied { tree := t, state := { state } } asks) := by
  have hlinked := Forest.linked_of_ofConfig ht
  have hfresh : Orderly t ({ tree := t, state := { state } } : Service (Tallied σ ρ) ρ) :=
    ⟨rfl, nofun, nofun⟩
  have hwork := asked_steps (b := b.tallied) hlinked asks hfresh
  refine builtOnce_of_booked hlinked (hwork.orderly hfresh) (hwork.booked ⟨?_, .nil⟩)
  exact fun _ _ => ⟨nofun, nofun⟩

def shelves : Config where
  resources := [{ name := "shelves" }, { name := "books", parent := some "shelves" }]

def shelfTree : Forest := ⟨shelves.resources.map shelves.place⟩

def noRoomForBooks : Observed Archive where
  state := { supply := { randomBits := fun _ => 0, clock := fun _ => default } }
  faults := [("books", [.create])]

/-- The steward of the shelves is asked for twice. The store of the shelves is made once, and
the one that fails is tried again. -/
theorem built_once_shelves :
    let s := asked Archive.backend.observed.tallied
      { tree := shelfTree, state := { state := noRoomForBooks } }
      [.steward "shelves", .steward "shelves", .store "shelves"]
    Forest.ofConfig shelves = .ok shelfTree ∧
    BuiltOnce Archive.backend.observed shelfTree s ∧
    s.state.attempts.map (fun attempt => (attempt.1, attempt.2.isOk)) =
      [("shelves", true), ("books", false), ("books", false)] :=
  have ht : Forest.ofConfig shelves = .ok shelfTree :=
    Forest.ofConfig_of_check (by decide +kernel)
  ⟨ht, built_once ht _ _ _, by decide +kernel⟩

end Service

end Grove
