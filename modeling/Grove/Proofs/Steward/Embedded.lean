import Grove.Proofs.Criteria.Values
import Grove.Proofs.Service.Once
import Grove.Proofs.Steward.Cascade

/-!
# What is embedded of a child

A record can be read together with the records of a child that belong to it. They are put into
it under the name of the child, all in one list, and nothing says of the list that it could be
a part. But it is: the records are queried in one window of the usual size, which the caller
cannot widen, so that of more than fifty records only the first fifty are there
(`embedded_children`). A removal that asks for the same records goes on with the next window
until one is not full.
-/

namespace Grove

open Matcher (fieldAt)

variable {σ ρ : Type} {b : Backend σ ρ} {t : Forest}

/-! ## Related records -/

/-- No resource has its parent for a child. -/
theorem Forest.Linked.parent_ne_child (ht : t.Linked) {r child : Resource} {parent : String}
    (hr : r ∈ t.resources) (hparent : r.parent = some parent) (hchild : child ∈ t.resources)
    (hbelow : child.parent = some r.name) : parent ≠ child.name := by
  obtain ⟨rank, hrank, -⟩ := ht.ranked
  have habove := hrank r hr parent hparent
  have hunder := hrank child hchild r.name hbelow
  rintro rfl
  omega

/-- What is related to a resource under the name of a child are the records of the child. -/
theorem Steward.related_of_child (ht : t.Linked) {make : Resource → ρ} {u : Service σ ρ}
    {r child : Resource} (hr : t.get? r.name = some r) {m : Steward ρ}
    (hjoint : u.Joint r.name m) (hm : m.Complete make t) (hresource : m.resource = r)
    (hchild : t.get? child.name = some child) (hparent : child.parent = some r.name)
    (record : Record) :
    ∃ below : Steward ρ, below.store = make child ∧ m.related b record child.name =
      m.childRecords b (Service.childRef r child) below record := by
  subst hresource
  -- The parent is asked for its name first, so it must not be that of the child.
  have hnotParent : m.parent.filter (·.resource == child.name) = none := by
    cases hlink : m.resource.parent with
    | none => rw [hjoint.root hlink]; rfl
    | some parent =>
        obtain ⟨store, -, hm'⟩ := hjoint.above parent hlink
        have hne := ht.parent_ne_child (Forest.mem_of_get? hr).1 hlink
          (Forest.mem_of_get? hchild).1 hparent
        simp [hm', hne]
  cases hm with
  | @mk r parent children placed below every complete =>
      have hsome : (children.find? (·.1.resource == child.name)).isSome := by
        obtain ⟨found, hfound, hsame⟩ := every child hchild hparent
        refine List.find?_isSome.mpr ⟨found, hfound, ?_⟩
        rw [(below found hfound).1, hsame]
        exact beq_self_eq_true _
      obtain ⟨⟨link, found⟩, hfind⟩ := Option.isSome_iff_exists.mp hsome
      have hmem := List.mem_of_find?_eq_some hfind
      obtain ⟨(rfl : link = Service.childRef r found.resource), -⟩ := below _ hmem
      have hname : found.resource.name = child.name := by
        simpa [Service.childRef] using List.find?_some hfind
      obtain rfl : found.resource = child := (complete _ hmem).resource_eq hname hchild
      refine ⟨found, (complete _ hmem).store_eq, ?_⟩
      rw [related, hnotParent]
      simp only [Steward.children, hfind]
      rfl

/-! ## Belonging -/

def Record.having (field key : String) (records : List Record) : List Record :=
  records.filter fun record =>
    Json.equalField (fieldAt record (Text.split '.' field)) (.string key)

/-- Criteria for a text in a field compile unless the field is refused. -/
theorem Criteria.ofCriteria_text (field key : String) :
    Matcher.ofCriteria (some (.eq field (.string key))) =
      match checkName field with
      | .ok () => .ok (.all [.field (Text.split '.' field) [.equals (.string key)]])
      | .error e => .error (.ofCriteria e) := by
  cases hname : checkName field with
  | ok u => exact (ofCriteria_compare hname rfl).mpr ⟨_, fieldChecks_of_not_isTests rfl, rfl⟩
  | error e =>
      have hlevels : (Criteria.eq field (.string key)).levels = 1 := by simp only [eq, levels]
      have hheight : (Criteria.eq field (.string key)).checkHeight = .ok () :=
        (checkHeight_eq_ok_iff _).mpr (by rw [hlevels]; decide)
      have hfilter : Criteria.filter (some (.eq field (.string key))) = .error e := by
        rw [Criteria.filter, hheight]
        simp only [eq, toFilter, hname]
        rfl
      rw [Matcher.ofCriteria, hfilter]

/-- A window of the usual size has the first of the records, in the order of the store. -/
theorem Collection.select_usual (c : Collection) (m : Matcher) :
    c.select m {} = (c.matching m).take 50 := rfl

variable {s u : Service Archive DocumentStore} {m : Steward DocumentStore} {r child : Resource}

theorem Steward.outcome_childRecords (hm : m.Complete .ofResource t) {below : Steward DocumentStore}
    (hbelow : below.store = .ofResource child) {record : Record} {key : String}
    (hkey : record.get? m.resource.keys.primaryKey = some (.string key)) (link : ChildRef)
    (a : Archive) :
    (m.childRecords Archive.backend link below record).outcome a =
      match Criteria.checkName link.field with
      | .ok () => (.ok (.array (((Record.having link.field key
          (a.collection child.name).records).take 50).map fun r => .object r.fields)), a)
      | .error e => (.error (.ofCriteria e), a) := by
  have hown : (record.get? (m.primaryKey Archive.backend)).getD .null = .string key := by
    rw [primaryKey, hm.store_eq, show Archive.backend.keys (.ofResource m.resource) =
      m.resource.keys from rfl, hkey]
    rfl
  rw [childRecords, hown, show Archive.backend.query = DocumentStore.query from rfl, hbelow,
    Attempt.outcome_bind, DocumentStore.outcome_query, Criteria.ofCriteria_text]
  cases hname : Criteria.checkName link.field with
  | error e => rfl
  | ok u =>
      simp only [Except.map, Collection.select_usual, Collection.matching, Criteria.accepts_field,
        List.all_cons, List.all_nil, Bool.and_true, FieldCheck.accepts]
      rfl

/-- The records of a child that a record is read with are the first fifty of those that belong
to it, in the order of the child's store, so they are all of them if and only if there are no
more than fifty. The other fields of the record are what they were and so is every store. If
the field that the child's records belong by has a name that no criteria take, the record
cannot be read with them. -/
theorem embedded_children {config : Config} (ht : Forest.ofConfig config = .ok t)
    (hs : Service.InUse Archive.backend t s) (hr : t.get? r.name = some r)
    (hm : (Service.steward Archive.backend r.name).outcome s = (.ok m, u))
    (hchild : t.get? child.name = some child) (hparent : child.parent = some r.name) (a : Archive)
    {record : Record} {key : String}
    (hkey : record.get? r.keys.primaryKey = some (.string key)) :
    let field := child.fieldOf (Resource.keyParam r.name)
    let belonging := Record.having field key (a.collection child.name).records
    let listed (records : List Record) := Json.array (records.map fun r => .object r.fields)
    (Criteria.checkName field = .ok () →
      ∃ embedded, (m.attach Archive.backend record [child.name]).outcome a = (.ok embedded, a) ∧
        embedded.get? child.name = some (listed (belonging.take 50)) ∧
        (embedded.get? child.name = some (listed belonging) ↔ belonging.length ≤ 50) ∧
        ∀ other, other ≠ child.name → embedded.get? other = record.get? other) ∧
    ∀ e, Criteria.checkName field = .error e →
      (m.attach Archive.backend record [child.name]).outcome a = (.error (.ofCriteria e), a) := by
  intro field belonging listed
  have hlinked := Forest.linked_of_ofConfig ht
  obtain ⟨hname, hcomplete⟩ :=
    Service.complete_of_inUse Archive.backend_makes hlinked.sound hs hm
  obtain rfl := hcomplete.resource_eq hname hr
  obtain ⟨-, -, hjoint⟩ :=
    Service.kept_of_steward hlinked (Service.orderly_of_inUse hlinked hs) hr hm
  obtain ⟨below, hbelow, hrelated⟩ :=
    Steward.related_of_child hlinked hr hjoint hcomplete rfl hchild hparent record
  have hfield : (Service.childRef m.resource child).field = field := by
    rw [Service.childRef_of_child hparent]
  have hread := m.outcome_childRecords hcomplete hbelow hkey (Service.childRef m.resource child) a
  rw [hfield] at hread
  refine ⟨fun hplain => ⟨record.insert child.name (listed (belonging.take 50)), ?_, ?_, ?_, ?_⟩,
    fun e he => ?_⟩
  · rw [hplain] at hread
    rw [Steward.attach, Attempt.outcome_bind, hrelated, hread]
    rfl
  · rw [Record.get?_insert, if_pos rfl]
  · rw [Record.get?_insert, if_pos rfl]
    constructor
    · intro hsame
      have hlength := congrArg List.length (Json.array.inj (Option.some.inj hsame))
      rw [List.length_map, List.length_map, List.length_take] at hlength
      omega
    · intro hfew
      rw [List.take_of_length_le hfew]
  · intro other hother
    rw [Record.get?_insert, if_neg hother]
  · rw [he] at hread
    rw [Steward.attach, Attempt.outcome_bind, hrelated, hread]

/-- The first project is read with the one task that belongs to it. -/
theorem embedded_children_project :
    let s : Service Archive DocumentStore := { tree := boardTree, state := boardArchive }
    let project : Record := ⟨[("uuid", .string "p1")]⟩
    let tasks := boards.place { name := "tasks", parent := some "projects", cascadeDelete := true }
    let projects := boards.place { name := "projects" }
    Forest.ofConfig boards = .ok boardTree ∧ Service.InUse Archive.backend boardTree s ∧
    boardTree.get? projects.name = some projects ∧ boardTree.get? tasks.name = some tasks ∧
    tasks.parent = some projects.name ∧
    project.get? projects.keys.primaryKey = some (.string "p1") ∧
    ∃ m u embedded, (Service.steward Archive.backend projects.name).outcome s = (.ok m, u) ∧
      (m.attach Archive.backend project [tasks.name]).outcome boardArchive =
        (.ok embedded, boardArchive) ∧
      (embedded.get? tasks.name).map Json.compact =
        some "[\x7b\"projectsId\":\"p1\",\"uuid\":\"t1\"\x7d]" ∧
      embedded.get? "uuid" = some (.string "p1") := by
  intro s project tasks projects
  have hs : Service.InUse Archive.backend boardTree s := .fresh _
  have hprojects : boardTree.get? projects.name = some projects := by decide +kernel
  have htasks : boardTree.get? tasks.name = some tasks := by decide +kernel
  have hkey : project.get? projects.keys.primaryKey = some (.string "p1") := rfl
  have hmade : ((Service.steward Archive.backend projects.name).outcome s).1.isOk = true := by
    decide +kernel
  rcases hm : (Service.steward Archive.backend projects.name).outcome s with ⟨f | m, u⟩ <;>
    rw [hm] at hmade
  · cases hmade
  obtain ⟨embedded, hattach, hchildren, -, hothers⟩ :=
    (embedded_children boards_tree hs hprojects hm htasks rfl boardArchive hkey).1
      (by decide +kernel)
  refine ⟨boards_tree, hs, hprojects, htasks, rfl, hkey, m, u, embedded, rfl, hattach,
    ?_, (hothers "uuid" (by decide)).trans rfl⟩
  rw [hchildren]
  decide +kernel

def crowded (tasks : Nat) : Archive where
  collections := [("tasks", .ofRows ((List.range tasks).map fun i =>
    (i, ⟨[("n", .ofInt i), ("projectsId", .string "p1")]⟩)))]
  supply := { randomBits := fun _ => 0, clock := fun _ => default }

/-- Of fifty-one tasks the project is read with fifty. -/
theorem child_left_out :
    let s : Service Archive DocumentStore := { tree := boardTree, state := crowded 51 }
    let project : Record := ⟨[("uuid", .string "p1")]⟩
    Forest.ofConfig boards = .ok boardTree ∧
    (Record.having "projectsId" "p1" ((crowded 51).collection "tasks").records).length = 51 ∧
    ∃ m u embedded a tasks, (Service.steward Archive.backend "projects").outcome s = (.ok m, u) ∧
      (m.attach Archive.backend project ["tasks"]).outcome (crowded 51) = (.ok embedded, a) ∧
      (embedded.get? "tasks").bind Json.array? = some tasks ∧ tasks.length = 50 := by
  intro s project
  have hrun : (match (Service.steward Archive.backend "projects").outcome s with
      | (.ok m, _) =>
        match (m.attach Archive.backend project ["tasks"]).outcome (crowded 51) with
        | (.ok embedded, _) => ((embedded.get? "tasks").bind Json.array?).map List.length
        | (.error _, _) => none
      | (.error _, _) => none) = some 50 := by decide +kernel
  rcases hm : (Service.steward Archive.backend "projects").outcome s with ⟨f | m, u⟩ <;>
    rw [hm] at hrun
  · cases hrun
  rcases hattach : (m.attach Archive.backend project ["tasks"]).outcome (crowded 51) with
    ⟨f | embedded, a⟩ <;> simp only [hattach] at hrun
  · cases hrun
  obtain ⟨tasks, htasks, hlength⟩ := Option.map_eq_some_iff.mp hrun
  exact ⟨boards_tree, by decide +kernel, m, u, embedded, a, tasks, rfl, hattach, htasks, hlength⟩

end Grove
