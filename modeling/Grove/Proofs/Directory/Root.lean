import Grove.Proofs.Directory.SignUp

/-!
# The root account

A service looks for a root account by its kind and makes one by signing it up, and a sign-up
goes by the address. So if an account that is not a root account lists the root's address,
there is no root account afterwards, and the service that says it has made one has only added
a way to log in to that account, with a password that everybody knows. It does so again
whenever it starts (`root_made_iff`).
-/

namespace Grove

/-- A time ends in the distance of the local clock. -/
theorem Instant.text_ne_root (t : Instant) : t.text ≠ "root" := by
  obtain ⟨start, htext⟩ : ∃ start, t.text = start ++ "+00:00" := ⟨_, rfl⟩
  intro h
  have hlast := congrArg (fun s : String => s.toList.getLast?) (htext.symm.trans h)
  simp at hlast

namespace Directory

def rootEmail : String := "changeme@root.net"

/-- Whether the search for root accounts selects the account. -/
def isRoot (account : Record) : Bool := Json.equalField (account.get? "kind") (.string "root")

def Rooted (a : Archive) : Prop := ∃ account ∈ a.accounts.records, isRoot account = true

/-- Nothing keeps a root account from being made: nobody has its address, and its kind is not
overwritten by a stamp. -/
structure Free (d : Directory DocumentStore) (a : Archive) : Prop where
  unlisted : ∀ account ∈ a.accounts.records, lists rootEmail account = false
  unstamped : ¬ d.accounts.resource.IsStamp "kind"

/-- What the service answers when it looks for a root account as often as it is started, and
the archive that comes of it. -/
inductive Started (d : Directory DocumentStore) (a : Archive) : List Bool → Archive → Prop
  | never : Started d a [] a
  | again {answers : List Bool} {b c : Archive} {made : Bool} (h : Started d a answers b)
      (hmade : (d.ensureRoot Archive.backend).outcome b = (.ok made, c)) :
      Started d a (answers ++ [made]) c

theorem ensureRoot_eq {σ ρ : Type} (b : Backend σ ρ) (d : Directory ρ) :
    d.ensureRoot b = d.accounts.find b (some rootCriteria) >>= fun
      | some _ => pure false
      | none => (fun _ => true) <$> d.signUp b rootAccount rootLogin := by
  rw [ensureRoot]
  congr 1

theorem firstEmail?_rootAccount : firstEmail? rootAccount = some rootEmail := by
  decide +kernel

/-- The root account that is stored is one, unless the time is written over its kind. -/
theorem isRoot_of_stores {r : Resource} {supply : Supply} {stored : Record}
    (h : r.Stores supply.time rootAccount stored) :
    isRoot stored = true ↔ ¬ r.IsStamp "kind" := by
  rw [isRoot]
  by_cases hstamp : r.IsStamp "kind"
  · rw [h.stamped _ hstamp]
    refine iff_of_false (fun hroot => ?_) (not_not_intro hstamp)
    exact (supply.clock supply.readings).text_ne_root (eq_of_beq hroot)
  · rw [h.get?_of_given hstamp (show rootAccount.get? "kind" = some (.string "root") from rfl) rfl]
    exact iff_of_true rfl hstamp

section Placed

variable {t : Forest} {d : Directory DocumentStore} (hd : Placed t d) {a b : Archive} {made : Bool}

include hd

theorem outcome_findRoot (a : Archive) :
    (d.accounts.find Archive.backend (some rootCriteria)).outcome a =
      (.ok (a.accounts.records.find? isRoot), a) := by
  have hfind := Steward.outcome_find_text hd.accountsComplete "kind" rfl "root" a
  have hkind : Text.has "kind" '.' = false := by decide
  simp only [Matcher.fieldAt_flat hkind, hd.accounts] at hfind
  exact hfind

theorem ensureRoot_of_rooted (h : Rooted a) :
    (d.ensureRoot Archive.backend).outcome a = (.ok false, a) := by
  rw [ensureRoot_eq, Attempt.outcome_bind, outcome_findRoot hd]
  obtain ⟨account, haccount, hroot⟩ := h
  obtain ⟨found, hfound⟩ :=
    Option.isSome_iff_exists.mp (List.find?_isSome.mpr ⟨account, haccount, hroot⟩)
  rw [hfound]
  rfl

theorem ensureRoot_of_not_rooted (hnone : ¬ Rooted a)
    (h : (d.ensureRoot Archive.backend).outcome a = (.ok made, b)) :
    made = true ∧ (∃ login, b.logins = a.logins.push login) ∧ (Rooted b ↔ Free d a) ∧
      (Free d b → Free d a) := by
  have hfind : a.accounts.records.find? isRoot = none :=
    List.find?_eq_none.mpr fun account haccount hroot => hnone ⟨account, haccount, hroot⟩
  rw [ensureRoot_eq, Attempt.outcome_bind, outcome_findRoot hd, hfind] at h
  simp only [Attempt.outcome_map] at h
  rcases hdone : (d.signUp Archive.backend rootAccount rootLogin).outcome a with ⟨f | done, c⟩ <;>
    rw [hdone] at h <;> cases h
  obtain ⟨email, hemail, hlogins, haccounts⟩ := signUp_eq_ok hd hdone
  cases firstEmail?_rootAccount.symm.trans hemail
  refine ⟨rfl, ⟨_, hlogins⟩, ?_⟩
  cases hlisted : a.accounts.records.find? (lists rootEmail) with
  | some found =>
      -- the account is somebody's, and the accounts stay as they are
      rw [hlisted] at haccounts
      have hnotFree : ¬ Free d a := fun hfree => by
        have hfound := hfree.unlisted found (List.mem_of_find?_eq_some hlisted)
        rw [List.find?_some hlisted] at hfound
        cases hfound
      have hrooted : ¬ Rooted c := by
        rw [Rooted, haccounts.2]
        exact hnone
      refine ⟨iff_of_false hrooted hnotFree, fun hfree => ⟨?_, hfree.unstamped⟩⟩
      rw [← haccounts.2]
      exact hfree.unlisted
  | none =>
      -- the root account is the only one that comes in, so all depends on what is stored of it
      rw [hlisted] at haccounts
      obtain ⟨hstores, hpushed⟩ := haccounts
      have hunlisted : ∀ account ∈ a.accounts.records, lists rootEmail account = false :=
        fun account haccount => by simpa using List.find?_eq_none.mp hlisted account haccount
      have hrooted : Rooted c ↔ isRoot done.account = true := by
        rw [Rooted, hpushed, Collection.records_push]
        constructor
        · rintro ⟨account, haccount, hroot⟩
          obtain haccount | haccount := List.mem_append.mp haccount
          · exact absurd ⟨account, haccount, hroot⟩ hnone
          · rwa [List.mem_singleton.mp haccount] at hroot
        · exact fun hroot => ⟨_, List.mem_append_right _ (List.mem_singleton_self _), hroot⟩
      refine ⟨?_, fun hfree => ⟨hunlisted, hfree.unstamped⟩⟩
      rw [hrooted, isRoot_of_stores hstores]
      exact ⟨fun hstamp => ⟨hunlisted, hstamp⟩, Free.unstamped⟩

/-- Where no root account can be made, every start adds a way to log in and says it made one. -/
theorem started_of_not_free {answers : List Bool} (h : Started d a answers b)
    (hnone : ¬ Rooted a) (hfree : ¬ Free d a) :
    ¬ Rooted b ∧ ¬ Free d b ∧ (∀ made ∈ answers, made = true) ∧
      b.logins.rows.length = a.logins.rows.length + answers.length := by
  induction h with
  | never => exact ⟨hnone, hfree, nofun, rfl⟩
  | again h hmade ih =>
      obtain ⟨hnone, hfree, hanswers, hlogins⟩ := ih
      obtain ⟨hmade, ⟨login, hpushed⟩, hrooted, hstill⟩ :=
        ensureRoot_of_not_rooted hd hnone hmade
      refine ⟨fun h => hfree (hrooted.mp h), fun h => hfree (hstill h), ?_, ?_⟩
      · exact List.forall_mem_append.mpr ⟨hanswers, List.forall_mem_singleton.mpr hmade⟩
      · rw [hpushed, Collection.push, List.length_append, hlogins, List.length_append]
        rfl

end Placed

/-- When a service has looked for a root account, there is one if there was one before, or
else if nobody lists its address. From then on it finds this one and changes nothing. If there
is none, the service still says each time that it has made one, and adds a way to log in. -/
theorem root_made_iff {config : Config} {t : Forest} (hc : Forest.ofConfig config = .ok t)
    {s u : Service Archive DocumentStore} (hs : Service.InUse Archive.backend t s)
    {d : Directory DocumentStore}
    (hd : (Directory.ofService Archive.backend).outcome s = (.ok d, u)) {a b : Archive}
    {made : Bool} (h : (d.ensureRoot Archive.backend).outcome a = (.ok made, b)) :
    (made = false ↔ Rooted a) ∧ (made = false → b = a) ∧
    (Rooted b ↔ Rooted a ∨ Free d a) ∧
    (Rooted b → (d.ensureRoot Archive.backend).outcome b = (.ok false, b)) ∧
    (¬ Rooted b → ∀ answers c, Started d b answers c →
      ¬ Rooted c ∧ (∀ made ∈ answers, made = true) ∧
      c.logins.rows.length = b.logins.rows.length + answers.length) := by
  have hplaced := placed_of_service hc hs hd
  by_cases hrooted : Rooted a
  · cases (ensureRoot_of_rooted hplaced hrooted).symm.trans h
    exact ⟨iff_of_true rfl hrooted, fun _ => rfl, iff_of_true hrooted (.inl hrooted),
      fun _ => ensureRoot_of_rooted hplaced hrooted, fun hnone => absurd hrooted hnone⟩
  · obtain ⟨rfl, -, hmade, hstill⟩ := ensureRoot_of_not_rooted hplaced hrooted h
    refine ⟨iff_of_false nofun hrooted, nofun, ?_, ensureRoot_of_rooted hplaced, ?_⟩
    · exact hmade.trans (or_iff_right hrooted).symm
    · intro hnone answers c hstarted
      have hfree : ¬ Free d b := fun hfree => hnone (hmade.mpr (hstill hfree))
      obtain ⟨hnone, -, hanswers, hlogins⟩ := started_of_not_free hplaced hstarted hnone hfree
      exact ⟨hnone, hanswers, hlogins⟩

/-- A club without members gets a root account once. -/
theorem root_made_iff_club :
    Forest.ofConfig club = .ok clubTree ∧ Service.InUse Archive.backend clubTree clubService ∧
    (∃ u, (Directory.ofService Archive.backend).outcome clubService = (.ok clubDirectory, u)) ∧
    Free clubDirectory clubStart ∧
    ∃ b, (clubDirectory.ensureRoot Archive.backend).outcome clubStart = (.ok true, b) ∧
      Rooted b ∧ (clubDirectory.ensureRoot Archive.backend).outcome b = (.ok false, b) := by
  have hs : Service.InUse Archive.backend clubTree clubService := .fresh _
  obtain ⟨u, hd⟩ := club_directory
  have hfree : Free clubDirectory clubStart := by
    refine ⟨nofun, fun ⟨stamps, hstamps, _⟩ => ?_⟩
    cases hstamps
  have hmade : ((clubDirectory.ensureRoot Archive.backend).outcome clubStart).1.toOption =
      some true := by decide +kernel
  rcases h : (clubDirectory.ensureRoot Archive.backend).outcome clubStart with ⟨f | made, b⟩ <;>
    rw [h] at hmade <;> cases hmade
  obtain ⟨-, -, hrooted, hagain, -⟩ := root_made_iff club_tree hs hd h
  have hb : Rooted b := hrooted.mpr (.inr hfree)
  exact ⟨club_tree, hs, ⟨u, hd⟩, hfree, b, rfl, hb, hagain hb⟩

/-- A club with one member, who is not a root account and lists the address of one. -/
def squatted : Archive :=
  { clubStart with collections := [("accounts", ⟨1, [(0, member "ann" [rootEmail])]⟩)] }

/-- The member is in the way of a root account, and gets a way to log in at every start. -/
theorem root_not_made :
    Forest.ofConfig club = .ok clubTree ∧
    (∃ u, (Directory.ofService Archive.backend).outcome clubService = (.ok clubDirectory, u)) ∧
    ∃ b c, (clubDirectory.ensureRoot Archive.backend).outcome squatted = (.ok true, b) ∧
      ¬ Rooted b ∧ (clubDirectory.ensureRoot Archive.backend).outcome b = (.ok true, c) ∧
      b.logins.rows.length = 1 ∧ c.logins.rows.length = 2 := by
  have hrun : (match (clubDirectory.ensureRoot Archive.backend).outcome squatted with
      | (.ok made, b) =>
        match (clubDirectory.ensureRoot Archive.backend).outcome b with
        | (.ok again, c) => some (made, b.accounts.records.any isRoot, again,
            b.logins.rows.length, c.logins.rows.length)
        | (.error _, _) => none
      | (.error _, _) => none) = some (true, false, true, 1, 2) := by decide +kernel
  rcases hfirst : (clubDirectory.ensureRoot Archive.backend).outcome squatted with ⟨f | made, b⟩ <;>
    rw [hfirst] at hrun
  · cases hrun
  rcases hsecond : (clubDirectory.ensureRoot Archive.backend).outcome b with ⟨f | again, c⟩ <;>
    simp only [hsecond, Option.some.injEq, Prod.mk.injEq] at hrun
  · cases hrun
  obtain ⟨rfl, hnone, rfl, hone, htwo⟩ := hrun
  refine ⟨club_tree, club_directory, b, c, rfl, fun ⟨account, haccount, hroot⟩ => ?_, hsecond,
    hone, htwo⟩
  rw [List.any_eq_false] at hnone
  exact hnone account haccount hroot

end Directory

end Grove
