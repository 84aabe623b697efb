import Grove.Proofs.Http.Isolation
import Grove.Proofs.Service.Once
import Grove.Proofs.Steward.Cascade

/-!
# What a collection lists when its parent is gone

The records below a record are reached in two ways. A path names the parent by a value, and
records are stored and listed with that value in the field that is mapped to the parent. A
removal goes by the keys of the records that it takes. Where a record that goes is keyed by
the value in the path, the two mean the same, and the collection under the path is empty
afterwards. Where none is, everything that was stored under the path stays and is still
listed there (`collection_emptied`).

A path names records by their keys unless the configuration maps its parameter to another
field. So it is such a mapping that leaves records behind (`orphans_of_slug`), or a key that
is a list or has a name that is taken for a path.
-/

namespace Grove

/-- The archive that a request for the resource finds, with its collections open. -/
def Service.archiveFor (s : Service Archive DocumentStore) (name : String) : Archive :=
  ((Service.steward Archive.backend name).outcome s).2.state

def Resource.Keyed (r : Resource) (value : String) (records : List Record) : Prop :=
  ∃ record ∈ records, record.get? r.keys.primaryKey = some (.string value)

/-! ## Keys that are text -/

theorem Json.eq_of_equalField_string {value : String} {key : Json}
    (h : equalField (some (.string value)) key = true) : key = .string value := by
  cases key <;> simp_all [equalField, equalScalar, same]

theorem Json.eq_string_of_equalField {value : String} {key : Json}
    (hlist : ∀ items, key ≠ .array items) (h : equalField (some key) (.string value) = true) :
    key = .string value := by
  cases key with
  | array items => exact absurd rfl (hlist items)
  | null | bool | number | string | object => simp_all [equalField, equalScalar, same]

/-! ## Stewards and lists -/

/-- With a steward the service keeps the stewards of the children. -/
theorem Service.kept_child {σ ρ : Type} {b : Backend σ ρ} {t : Forest} (ht : t.Linked)
    {s u : Service σ ρ} (hs : Orderly t s) {r child : Resource} (known : t.get? r.name = some r)
    {m : Steward ρ} (hm : (steward b r.name).outcome s = (.ok m, u)) (hchild : child ∈ t.resources)
    (hparent : child.parent = some r.name) :
    ∃ below, u.stewards.lookup child.name = some below := by
  obtain ⟨htree, -, hjoint⟩ := kept_of_steward ht hs known hm
  have hmem : child ∈ m.children.map (·.2.resource) := by
    rw [hjoint.children, htree, List.mem_filter, hparent]
    exact ⟨hchild, beq_self_eq_true _⟩
  obtain ⟨below, hbelow, rfl⟩ := List.mem_map.mp hmem
  exact ⟨below.2, (hjoint.below below hbelow).2⟩

/-- Documents are what a list has of them, unless related records are put into them. -/
theorem Steward.outcome_query {m : Steward DocumentStore} {c : Option Criteria} {o : Paging}
    {matcher : Matcher} (hmatcher : Matcher.ofCriteria c = .ok matcher) (a : Archive)
    (h : o.fetch = [] ∨ (a.collection m.store.collection).select matcher o = []) :
    (m.query Archive.backend c o).outcome a =
      (.ok ((a.collection m.store.collection).select matcher o), a) := by
  have hquery : (Archive.backend.query m.store c o).outcome a =
      (.ok ((a.collection m.store.collection).select matcher o), a) := by
    rw [show Archive.backend.query = DocumentStore.query from rfl, DocumentStore.outcome_query,
      hmatcher]
    rfl
  rw [Steward.query, Attempt.outcome_bind, hquery]
  rcases h with h | h
  · have hattach : (fun record => m.attach Archive.backend record o.fetch) =
        fun record => pure (id record) := funext fun record => by rw [h, Steward.attach]; rfl
    simp only [hattach]
    rw [List.mapM_pure, List.map_id]
    rfl
  · rw [h]
    rfl

theorem Collection.select_of_matching_eq_nil {collection : Collection} {matcher : Matcher}
    (h : collection.matching matcher = []) (o : Paging) : collection.select matcher o = [] := by
  rw [Collection.select, h, Record.sortBy, List.mergeSort_nil, ite_self, Window.cut,
    List.drop_nil, List.take_nil]

namespace Http

def Inquiry.page (i : Inquiry) (c : Option Criteria) (o : Paging) (records : List Record)
    (total : Nat) : Response :=
  let documents := Json.array (records.map fun r => .object r.fields)
  .ok (if wantsEnvelope i.query then pageEnvelope c o total documents else documents)

variable {config : Config} {t : Forest} {s : Service Archive DocumentStore}

/-! ## Services in use -/

theorem inUse_of_running {σ ρ : Type} {b : Backend σ ρ} {s : Service σ ρ} (h : Running b t s) :
    Service.InUse b t s :=
  of_running (fun name _ => .steward name) (fun _ state => .changed state) .fresh h

theorem orderly_of_running {σ ρ : Type} {b : Backend σ ρ} (ht : t.Linked) {s : Service σ ρ}
    (h : Running b t s) : Service.Orderly t s :=
  Service.orderly_of_inUse ht (inUse_of_running h)

/-! ## Lists -/

theorem Inquiry.list_of_kept {i : Inquiry} (known : s.tree.get? i.resource.name = some i.resource)
    {m : Steward DocumentStore} (hkept : s.stewards.lookup i.resource.name = some m)
    (hstore : m.store = .ofResource i.resource) {c : Option Criteria} {o : Paging}
    (hlisting : i.listing = .ok (c, o)) {matcher : Matcher}
    (hmatcher : Matcher.ofCriteria c = .ok matcher) {collection : Collection}
    (hcollection : s.state.collection i.resource.name = collection)
    (h : o.fetch = [] ∨ collection.matching matcher = []) :
    (i.list Archive.backend).outcome s =
      (.ok (i.page c o (collection.select matcher o) (collection.matching matcher).length), s) := by
  have hsteward : (i.steward Archive.backend).outcome s = (.ok m, s) :=
    Service.outcome_steward_of_kept known hkept
  have hown : s.state.collection m.store.collection = collection := by
    rw [hstore]
    exact hcollection
  have hquery : (Service.onBackend (m.query Archive.backend c o)).outcome s =
      (.ok (collection.select matcher o), s) := by
    rw [← hown] at h ⊢
    exact Service.outcome_onBackend_eq_ok.mpr ⟨s.state, Steward.outcome_query hmatcher s.state
      (h.imp_right fun hnone => Collection.select_of_matching_eq_nil hnone o), rfl⟩
  have hcount : (Service.onBackend (m.count Archive.backend c)).outcome s =
      (.ok (collection.matching matcher).length, s) := by
    refine Service.outcome_onBackend_eq_ok.mpr ⟨s.state, ?_, rfl⟩
    rw [Steward.count, show Archive.backend.count = DocumentStore.count from rfl,
      DocumentStore.outcome_count, hmatcher, hown]
    rfl
  rw [Inquiry.list, hlisting, Attempt.outcome_bind, Attempt.outcome_liftM]
  simp only []
  rw [Attempt.outcome_bind, hsteward]
  simp only []
  rw [Attempt.outcome_bind, hquery]
  simp only [Inquiry.page]
  cases wantsEnvelope i.query with
  | false => rfl
  | true =>
      simp only [Bool.not_true, Bool.false_eq_true, if_false, if_true]
      rw [Attempt.outcome_bind, hcount]
      rfl

theorem Inquiry.list_of_refused {i : Inquiry}
    (known : s.tree.get? i.resource.name = some i.resource) {m : Steward DocumentStore}
    (hkept : s.stewards.lookup i.resource.name = some m) {c : Option Criteria} {o : Paging}
    (hlisting : i.listing = .ok (c, o)) {f : Failure} (hrefused : Matcher.ofCriteria c = .error f) :
    (i.list Archive.backend).outcome s = (.error f, s) := by
  have hsteward : (i.steward Archive.backend).outcome s = (.ok m, s) :=
    Service.outcome_steward_of_kept known hkept
  have hquery : (m.query Archive.backend c o).outcome s.state = (.error f, s.state) := by
    rw [Steward.query, show Archive.backend.query = DocumentStore.query from rfl,
      Attempt.outcome_bind, DocumentStore.outcome_query, hrefused]
    rfl
  rw [Inquiry.list, hlisting, Attempt.outcome_bind, Attempt.outcome_liftM]
  simp only []
  rw [Attempt.outcome_bind, hsteward]
  simp only [Attempt.outcome_bind, Service.onBackend, Attempt.outcome_within, hquery]

section

variable {σ ρ : Type} {b : Backend σ ρ} {s u : Service σ ρ} {request : Request} {r : Resource}
  {raw : List (String × String)} {task : Task}

theorem respond_of_ok (about : About) (h : Routed s.tree request r raw task)
    (hsize : request.announcesTooMuch = false) {response : Response}
    (hx : ((request.inquiry r raw).perform b task).outcome s = (.ok response, u)) :
    (respond b about request).run s = (request.presented response, u) := by
  rw [respond_of_routed b about h hsize, answered, hx]

theorem respond_of_error (about : About) (h : Routed s.tree request r raw task)
    (hsize : request.announcesTooMuch = false) {f : Failure}
    (hx : ((request.inquiry r raw).perform b task).outcome s = (.error f, u)) :
    (respond b about request).run s = (request.presented (.ofFailure f), u) := by
  rw [respond_of_routed b about h hsize, answered, hx]

end

/-! ## Removals -/

variable {about : About} {parent child : Resource} {delete get : Request}
  {raw raw' : List (String × String)} {params params' : Params}

/-- A removal that is answered well has taken from a child what belonged to the records that
the path addresses, and the child's steward is kept. -/
theorem left_of_delete (hc : Forest.ofConfig config = .ok t) (hs : Running Archive.backend t s)
    (link : t.Cascades parent child) (h : Routed t delete parent raw .delete)
    (hparams : decodeParams raw = .ok params)
    (hstatus : ((respond Archive.backend about delete).run s).1.status = 200) :
    ∃ selected u, Matcher.ofCriteria (parent.pathRestriction params) = .ok selected ∧
      ((respond Archive.backend about delete).run s).2 = u ∧ u.tree = t ∧
      (∀ record, record ∈ (u.state.collection child.name).records ↔
        record ∈ ((s.archiveFor parent.name).collection child.name).records ∧
        ¬ ∃ owner ∈ ((s.archiveFor parent.name).collection parent.name).matching selected,
          parent.Owns child owner record) ∧
      ∃ m, u.stewards.lookup child.name = some m ∧ m.store = .ofResource child := by
  have hlinked := Forest.linked_of_ofConfig hc
  have horderly := orderly_of_running hlinked hs
  have hinUse := inUse_of_running hs
  obtain ⟨response, u, hx, hrun⟩ :=
    outcome_of_status (horderly.tree.symm ▸ h) (by rw [hstatus]; decide)
  obtain ⟨c, m, v, n, removed, hremoval, hm, hremove, rfl⟩ := Inquiry.delete_eq_ok hx
  obtain ⟨params, hpath, rfl⟩ := Inquiry.removal_eq_ok hremoval
  cases hparams.symm.trans hpath
  have hfound : s.archiveFor parent.name = v.state := congrArg (·.2.state) hm
  have hv : Service.InUse Archive.backend t v := by
    have hafter := hinUse.steward parent.name
    rwa [show (Service.steward Archive.backend parent.name).outcome s = (.ok m, v) from hm]
      at hafter
  have hkept := Service.kept_of_inUse Archive.backend_makes hlinked.sound hv
  obtain ⟨rank, hrank⟩ := hlinked.sound.ranked
  obtain ⟨hname, hcomplete⟩ :=
    Service.complete_of_inUse Archive.backend_makes hlinked.sound hinUse hm
  obtain rfl := hcomplete.resource_eq hname link.above
  obtain ⟨selected, hselected, hleft⟩ :=
    Steward.mem_child_of_remove hrank hcomplete hremove link
  refine ⟨selected, { v with state := removed }, hselected, congrArg (·.2) hrun, hkept.tree,
    fun record => ?_, ?_⟩
  · rw [hfound]
    exact hleft record
  · obtain ⟨below, hbelow⟩ := Service.kept_child hlinked horderly link.above hm
      (Forest.mem_of_get? link.below).1 link.parent
    obtain ⟨hchild, hcomplete⟩ := hkept.steward child.name below hbelow
    exact ⟨below, hbelow, hcomplete.resource_eq hchild link.below ▸ hcomplete.store_eq⟩

/-- A path names records by their keys if nothing maps its parameter to another field. -/
theorem keyed_of_addressed {archive : Archive} {selected : Matcher} {value : String}
    (hselected : Matcher.ofCriteria (parent.pathRestriction params) = .ok selected)
    (hvalue : params.lookup parent.ownParam = some value)
    (hkey : parent.fieldOf parent.ownParam = parent.keys.primaryKey)
    (hplain : Text.has parent.keys.primaryKey '.' = false) {owner : Record}
    (howner : owner ∈ (archive.collection parent.name).matching selected)
    (hlist : ∀ items, owner.get? parent.keys.primaryKey ≠ some (.array items)) :
    parent.Keyed value ((archive.collection parent.name).matching selected) := by
  obtain ⟨c, hrestriction, hconfines⟩ :=
    Resource.confines_of_pathRestriction parent.ownParam_mem_pathNames hvalue
  rw [hrestriction] at hselected
  have hfield := hconfines.documents selected hselected owner (List.mem_filter.mp howner).2
  rw [hkey, Matcher.fieldAt_flat hplain] at hfield
  refine ⟨owner, howner, ?_⟩
  cases hheld : owner.get? parent.keys.primaryKey with
  | none =>
      rw [hheld] at hfield
      cases hfield
  | some key =>
      rw [hheld] at hfield hlist
      rw [Json.eq_string_of_equalField (fun items heq => hlist items (congrArg some heq)) hfield]

/-- The records under a path have its value in the field of the parent's key. -/
theorem equalField_of_listing (hc : Forest.ofConfig config = .ok t) (link : t.Cascades parent child)
    (hparams : decodeParams raw = .ok params) {value : String}
    (hvalue : params.lookup parent.ownParam = some value) {c : Option Criteria} {o : Paging}
    (hlisting : (get.inquiry child raw).listing = .ok (c, o)) {m : Matcher}
    (hm : Matcher.ofCriteria c = .ok m) {record : Record} (h : m.accepts record = true) :
    Json.equalField (Matcher.fieldAt record (Text.split '.' (child.fieldOf parent.ownParam)))
      (.string value) = true := by
  have hname : parent.ownParam ∈ child.pathNames := List.mem_append_left _ <|
    Resource.ownParam_mem_ancestorParams hc (Forest.mem_of_get? link.above).1
      (Forest.mem_of_get? link.below).1 link.parent
  obtain ⟨hquery, -, -⟩ := Inquiry.listing_eq_ok hlisting
  rw [optionalParams_of_readable hparams] at hquery
  obtain ⟨d, rfl, hconfines⟩ := Resource.confines_of_withQuery hname hvalue hquery
  exact hconfines.documents m hm record h

/-- After a removal at the path of a record, the collection under the path is empty if one of
the records that are gone has the value in the path for its key. If none has, all that was
stored there with that value is still there and is listed. Where nothing maps the parameter
to another field than the key, a record that the path addresses has that value for its key,
unless its key is a list. -/
theorem collection_emptied (hc : Forest.ofConfig config = .ok t) (about : About)
    (hs : Running Archive.backend t s) (link : t.Cascades parent child)
    (hdelete : Routed t delete parent raw .delete) (hget : Routed t get child raw' .list)
    (hparams : decodeParams raw = .ok params) (hparams' : decodeParams raw' = .ok params')
    {value : String} (hvalue : params.lookup parent.ownParam = some value)
    (hvalue' : params'.lookup parent.ownParam = some value)
    (hstatus : ((respond Archive.backend about delete).run s).1.status = 200) :
    let before := s.archiveFor parent.name
    let after := ((respond Archive.backend about delete).run s).2
    ∃ selected, Matcher.ofCriteria (parent.pathRestriction params) = .ok selected ∧
      let addressed := (before.collection parent.name).matching selected
      (∀ c o, (get.inquiry child raw').listing = .ok (c, o) → get.announcesTooMuch = false →
        (∀ f, Matcher.ofCriteria c = .error f →
          (respond Archive.backend about get).run after =
            (get.presented (.ofFailure f), after)) ∧
        ∀ m, Matcher.ofCriteria c = .ok m →
          (parent.Keyed value addressed → (respond Archive.backend about get).run after =
            (get.presented ((get.inquiry child raw').page c o [] 0), after)) ∧
          (¬ parent.Keyed value addressed →
            let left := after.state.collection child.name
            (∀ record ∈ (before.collection child.name).matching m,
              Matcher.fieldAt record (Text.split '.' (child.fieldOf parent.ownParam)) =
                some (.string value) → record ∈ left.matching m) ∧
            (o.fetch = [] → (respond Archive.backend about get).run after =
              (get.presented ((get.inquiry child raw').page c o (left.select m o)
                (left.matching m).length), after)))) ∧
      (parent.fieldOf parent.ownParam = parent.keys.primaryKey →
        Text.has parent.keys.primaryKey '.' = false →
        (∃ owner ∈ addressed, ∀ items, owner.get? parent.keys.primaryKey ≠ some (.array items)) →
        parent.Keyed value addressed) := by
  intro before after
  obtain ⟨selected, u, hselected, hafter, htree, hleft, below, hbelow, hstore⟩ :=
    left_of_delete hc hs link hdelete hparams hstatus
  replace hafter : after = u := hafter
  clear_value after
  subst hafter
  have hknown : after.tree.get? child.name = some child := htree.symm ▸ link.below
  have hget : Routed after.tree get child raw' .list := htree.symm ▸ hget
  refine ⟨selected, hselected, fun c o hlisting hsize => ⟨fun f hrefused => ?_, fun m hm => ?_⟩,
    fun hkey hplain ⟨owner, howner, hlist⟩ =>
      keyed_of_addressed hselected hvalue hkey hplain howner hlist⟩
  · exact respond_of_error about hget hsize
      (Inquiry.list_of_refused hknown hbelow hlisting hrefused)
  have hanswer : o.fetch = [] ∨ (after.state.collection child.name).matching m = [] →
      (respond Archive.backend about get).run after =
        (get.presented ((get.inquiry child raw').page c o
          ((after.state.collection child.name).select m o)
          ((after.state.collection child.name).matching m).length), after) := fun hfetch =>
    respond_of_ok about hget hsize
      (Inquiry.list_of_kept hknown hbelow hstore hlisting hm rfl hfetch)
  constructor
  · rintro ⟨owner, howner, hkey⟩
    have hnone : (after.state.collection child.name).matching m = [] := by
      refine List.filter_eq_nil_iff.mpr fun record hrecord haccepts => ?_
      have hfield := equalField_of_listing hc link hparams' hvalue' hlisting hm haccepts
      exact ((hleft record).mp hrecord).2 ⟨owner, howner, _, hkey, hfield⟩
    rw [hanswer (.inr hnone), Collection.select_of_matching_eq_nil hnone, hnone, List.length_nil]
  · refine fun hkeyed => ⟨fun record hrecord hfield => ?_, fun hfetch => hanswer (.inl hfetch)⟩
    obtain ⟨hstored, haccepts⟩ := List.mem_filter.mp hrecord
    refine List.mem_filter.mpr ⟨(hleft record).mpr ⟨hstored, ?_⟩, haccepts⟩
    rintro ⟨owner, howner, key, hkey, hequal⟩
    rw [show Resource.keyParam parent.name = parent.ownParam from rfl, hfield] at hequal
    exact hkeyed ⟨owner, howner, Json.eq_of_equalField_string hequal ▸ hkey⟩

/-! ## Projects that are named by a slug -/

/-- Projects whose parameters are mapped to fields, and tasks that go with their project. -/
def slugged (keys : List (String × String)) : Config where
  resources := [{ name := "projects", criteriaKeys := keys },
    { name := "tasks", parent := some "projects", cascadeDelete := true }]

def sluggedTree (keys : List (String × String)) : Forest :=
  ⟨(slugged keys).resources.map (slugged keys).place⟩

def sluggedProject (keys : List (String × String)) : Resource :=
  (slugged keys).place { name := "projects", criteriaKeys := keys }

def sluggedTask (keys : List (String × String)) : Resource :=
  (slugged keys).place { name := "tasks", parent := some "projects", cascadeDelete := true }

theorem cascades_slugged (keys : List (String × String)) :
    (sluggedTree keys).Cascades (sluggedProject keys) (sluggedTask keys) :=
  ⟨rfl, rfl, rfl, rfl⟩

def post (target body : String) : Request where
  method := "POST"
  target := target
  headers := [("content-type", "application/json")]
  body := body

/-- The service after a project has been posted, and a task below it. -/
def stocked (keys : List (String × String)) (name : String) : Service Archive DocumentStore :=
  let project := post "/projects" "\x7b\"uuid\":\"p1\",\"slug\":\"alpha\"\x7d"
  let task := post ("/projects/" ++ name ++ "/tasks") "\x7b\"uuid\":\"t1\"\x7d"
  let s : Service Archive DocumentStore := { tree := sluggedTree keys, state := noRecords }
  ((respond Archive.backend { hostname := "" } task).run
    ((respond Archive.backend { hostname := "" } project).run s).2).2

theorem running_stocked (keys : List (String × String)) (name : String) :
    Running Archive.backend (sluggedTree keys) (stocked keys name) :=
  .answered _ _ (.answered _ _ (.fresh _))

/-- The project that the path names by its slug is gone, and its task is listed below it. -/
theorem orphans_of_slug :
    let t := sluggedTree [("id", "slug")]
    let delete : Request := { method := "DELETE", target := "/projects/alpha" }
    let get : Request := { method := "GET", target := "/projects/alpha/tasks" }
    let s := stocked [("id", "slug")] "alpha"
    let after := (respond Archive.backend { hostname := "" } delete).run s
    Forest.ofConfig (slugged [("id", "slug")]) = .ok t ∧ Running Archive.backend t s ∧
      t.Cascades (sluggedProject [("id", "slug")]) (sluggedTask [("id", "slug")]) ∧
      Routed t delete (sluggedProject [("id", "slug")]) [("projectsId", "alpha")] .delete ∧
      Routed t get (sluggedTask [("id", "slug")]) [("projectsId", "alpha")] .list ∧
      after.1.status = 200 ∧ after.1.sent = "\x7b\"count\":1\x7d" ∧
      ((respond Archive.backend { hostname := "" } get).run after.2).1.sent =
        "[\x7b\"projectsId\":\"alpha\",\"uuid\":\"t1\"\x7d]" := by
  intro t delete get s after
  exact ⟨Forest.ofConfig_of_check (by decide +kernel), running_stocked _ _, cascades_slugged _,
    .item (by decide +kernel) (by decide +kernel),
    .collection (by decide +kernel) (by decide +kernel), by decide +kernel⟩

/-- The project that the path names by its key is gone, and its task with it. -/
theorem collection_emptied_project :
    let t := sluggedTree []
    let delete : Request := { method := "DELETE", target := "/projects/p1" }
    let get : Request := { method := "GET", target := "/projects/p1/tasks?_meta" }
    let raw := [("projectsId", "p1")]
    let s := stocked [] "p1"
    let after := ((respond Archive.backend { hostname := "" } delete).run s).2
    Forest.ofConfig (slugged []) = .ok t ∧ Running Archive.backend t s ∧
      t.Cascades (sluggedProject []) (sluggedTask []) ∧
      Routed t delete (sluggedProject []) raw .delete ∧
      Routed t get (sluggedTask []) raw .list ∧ decodeParams raw = .ok raw ∧
      ((respond Archive.backend { hostname := "" } delete).run s).1.status = 200 ∧
      ((s.archiveFor "projects").collection "tasks").records.length = 1 ∧
      ∃ c o, (get.inquiry (sluggedTask []) raw).listing = .ok (c, o) ∧
        (respond Archive.backend { hostname := "" } get).run after =
          (get.presented ((get.inquiry (sluggedTask []) raw).page c o [] 0), after) := by
  intro t delete get raw s after
  have htree : Forest.ofConfig (slugged []) = .ok t := Forest.ofConfig_of_check (by decide +kernel)
  have hs : Running Archive.backend t s := running_stocked _ _
  have hdelete : Routed t delete (sluggedProject []) raw .delete :=
    .item (by decide +kernel) (by decide +kernel)
  have hget : Routed t get (sluggedTask []) raw .list :=
    .collection (by decide +kernel) (by decide +kernel)
  have hraw : decodeParams raw = .ok raw := by decide +kernel
  have hvalue : raw.lookup (sluggedProject []).ownParam = some "p1" := by decide +kernel
  obtain ⟨hstatus, hstored, howner⟩ :
      ((respond Archive.backend { hostname := "" } delete).run s).1.status = 200 ∧
      ((s.archiveFor "projects").collection "tasks").records.length = 1 ∧
      (match Matcher.ofCriteria ((sluggedProject []).pathRestriction raw) with
        | .ok selected =>
          (((s.archiveFor "projects").collection "projects").matching selected).any fun r =>
            ((r.get? "uuid").bind Json.array?).isNone
        | .error _ => false) = true := by decide +kernel
  have hlisting : (match (get.inquiry (sluggedTask []) raw).listing with
      | .ok (c, _) => (Matcher.ofCriteria c).isOk
      | .error _ => false) = true := by decide +kernel
  obtain ⟨selected, hselected, hlists, hkeyed⟩ := collection_emptied htree { hostname := "" } hs
    (cascades_slugged []) hdelete hget hraw hraw hvalue hvalue hstatus
  rw [hselected] at howner
  obtain ⟨owner, hmem, hkey⟩ := List.any_eq_true.mp howner
  have hlist : ∀ items, owner.get? "uuid" ≠ some (.array items) := fun items heq => by
    rw [heq] at hkey
    cases hkey
  rcases hasks : (get.inquiry (sluggedTask []) raw).listing with f | ⟨c, o⟩ <;>
    rw [hasks] at hlisting
  · cases hlisting
  rcases hm : Matcher.ofCriteria c with f | m <;> simp only [hm] at hlisting
  · cases hlisting
  exact ⟨htree, hs, cascades_slugged [], hdelete, hget, hraw, hstatus, hstored, c, o, rfl,
    ((hlists c o hasks (by decide +kernel)).2 m hm).1
      (hkeyed (by decide +kernel) (by decide +kernel) ⟨owner, hmem, hlist⟩)⟩

end Http

end Grove
