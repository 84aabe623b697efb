import Grove.Proofs.Criteria.Restrict
import Grove.Proofs.Document.Pages
import Grove.Proofs.Http.Emptied

/-!
# Where a new record is listed

A record that is posted to a collection is given the values in the path, each under the name of
the field that its parameter is mapped to. A list of the collection looks for these values in
the same fields, but it does so with criteria, and to criteria a name with a point is a path
into the record and not a name. So a record is listed where it was created as long as every
parameter is mapped to a plain name. Otherwise it is listed only if its body happens to have the
value at the end of the path as well (`created_listed`), and a parameter that is mapped to a name
which criteria refuse leaves the collection without lists.
-/

namespace Grove

/-- The values in a path are found in a record that they were written to: their parameter is one
of those that are written and its field has a plain name, or the field leads to the value. -/
def Resource.Recalls (r : Resource) (params : Params) (record : Record) : Prop :=
  ∀ name ∈ r.pathNames, ∀ value, params.lookup name = some value →
    (name ∈ r.ancestorParams ∧ Text.has (r.fieldOf name) '.' = false) ∨
      Json.equalField (Matcher.fieldAt record (Text.split '.' (r.fieldOf name))) (.string value) =
        true

/-- The record satisfies the query, unless there is none. -/
def Record.Answers (record : Record) (q : Option String) : Prop :=
  ∀ text ∈ q, Text.isAllBlank text = false → ∃ n, Query.parse text = .ok n ∧ n.Holds record

theorem Record.answers_none (record : Record) : record.Answers none := by
  rintro text ⟨⟩

/-! ## What a path recalls -/

namespace Criteria

theorem restrict_none (p : Option Criteria) : restrict p none = p := by
  cases p <;> rfl

theorem withQuery_blank {p c : Option Criteria} {q : Option String} (h : withQuery p q = .ok c)
    (hblank : ∀ text ∈ q, Text.isAllBlank text = true) : c = p := by
  rcases withQuery_eq_ok h with ⟨rfl, -⟩ | ⟨text, n, hq, hnot, -⟩
  · exact restrict_none p
  · rw [hblank text hq] at hnot
    cases hnot

end Criteria

namespace Resource

variable {r : Resource} {params : Params} {record : Record}

/-- To have the values of the path in their fields is to recall them, for a record that they
were written to. -/
theorem recalls_iff (hwritten : ∀ name ∈ r.ancestorParams, ∀ value,
      params.lookup name = some value → record.get? (r.fieldOf name) = some (.string value)) :
    r.Recalls params record ↔ ∀ name ∈ r.pathNames, ∀ value, params.lookup name = some value →
      (Criteria.eq (r.fieldOf name) (.string value)).Holds record := by
  refine forall₂_congr fun name _ => forall₂_congr fun value hvalue => ?_
  rw [Criteria.holds_iff_selects, Criteria.eq, Criteria.selects, Comparison.holds]
  -- A plain name is read as it is written, so a value that was written there is found.
  refine or_iff_right_of_imp ?_
  rintro ⟨hname, hplain⟩
  rw [Matcher.fieldAt_flat hplain, hwritten name hname value hvalue]
  exact Json.same_refl _

theorem accepts_iff_recalls (hwritten : ∀ name ∈ r.ancestorParams, ∀ value,
      params.lookup name = some value → record.get? (r.fieldOf name) = some (.string value))
    {q : Option String} {c : Option Criteria}
    (h : Criteria.withQuery (r.pathRestriction params) q = .ok c) {m : Matcher}
    (hm : Matcher.ofCriteria c = .ok m) :
    m.accepts record = true ↔ r.Recalls params record ∧ record.Answers q := by
  rw [accepts_withQuery h hm, recalls_iff hwritten]
  rfl

/-- Alone, the criteria of a path accept a record that the values were written to exactly if
they are compiled and the record recalls the values. -/
theorem pathRestriction_accepts_iff (hwritten : ∀ name ∈ r.ancestorParams, ∀ value,
      params.lookup name = some value → record.get? (r.fieldOf name) = some (.string value)) :
    (∃ m, Matcher.ofCriteria (r.pathRestriction params) = .ok m ∧ m.accepts record = true) ↔
      (∀ name ∈ r.pathNames, ∀ value, params.lookup name = some value →
        Criteria.checkName (r.fieldOf name) = .ok ()) ∧ r.Recalls params record := by
  have hnoQuery : Criteria.withQuery (r.pathRestriction params) none =
      .ok (r.pathRestriction params) := congrArg Except.ok (Criteria.restrict_none _)
  rw [← ofCriteria_pathRestriction_isOk]
  constructor
  · rintro ⟨m, hm, haccepted⟩
    exact ⟨⟨m, hm⟩, ((accepts_iff_recalls hwritten hnoQuery hm).mp haccepted).1⟩
  · rintro ⟨⟨m, hm⟩, hrecalls⟩
    exact ⟨m, hm, (accepts_iff_recalls hwritten hnoQuery hm).mpr ⟨hrecalls, record.answers_none⟩⟩

end Resource

namespace Http

variable {config : Config} {t : Forest} {s : Service Archive DocumentStore} {about : About}
  {request : Request} {r : Resource} {raw : List (String × String)} {params : Params}

/-! ## Records that were created -/

/-- A record that has been created is in its collection, with the values in the path under the
names of their fields, and the steward of the resource is kept. -/
theorem kept_of_created (hc : Forest.ofConfig config = .ok t) (hs : Running Archive.backend t s)
    (h : Routed t request r raw .create) (hparams : decodeParams raw = .ok params)
    (hapart : r.KeepsApart)
    (hstatus : ((respond Archive.backend about request).run s).1.status = 201) :
    ∃ stored u m, (respond Archive.backend about request).run s =
        (.created (.object stored.fields), u) ∧ u.tree = t ∧
      u.stewards.lookup r.name = some m ∧ m.store = .ofResource r ∧
      stored ∈ (u.state.collection r.name).records ∧
      ∀ name ∈ r.ancestorParams, ∀ value, params.lookup name = some value →
        stored.get? (r.fieldOf name) = some (.string value) := by
  have hlinked := Forest.linked_of_ofConfig hc
  have horderly := orderly_of_running hlinked hs
  have known : t.get? r.name = some r := Forest.get?_of_mem hlinked.sound (mem_of_routed h)
  obtain ⟨response, u, hx, hrun⟩ :=
    outcome_of_status (horderly.tree.symm ▸ h) (by rw [hstatus]; decide)
  obtain ⟨record, m, v, stored, added, hrecord, hm, hadd, rfl, rfl⟩ := Inquiry.create_eq_ok hx
  obtain ⟨htree, hkept, -⟩ := Service.kept_of_steward hlinked horderly known hm
  obtain ⟨hname, hcomplete⟩ := Service.complete_of_inUse Archive.backend_makes hlinked.sound
    (inUse_of_running hs) hm
  obtain rfl := hcomplete.resource_eq hname known
  obtain ⟨given, a, hgiven, hstored⟩ := Attempt.outcome_bind_eq_ok.mp hadd
  obtain ⟨hmem, hfields⟩ := DocumentStore.add_eq_ok hstored
  rw [presented_of_create h] at hrun
  refine ⟨stored, { v with state := added }, m, hrun, htree, hkept, hcomplete.store_eq, ?_,
    fun name hancestor value hvalue => hfields _ _ ?_ rfl⟩
  · rwa [hcomplete.store_eq] at hmem
  · obtain ⟨body, -, rfl⟩ := Inquiry.creation_eq_ok hrecord
    rw [Steward.get?_of_stamp hgiven fun stamps hstamps => hapart.stamps stamps hstamps _ hancestor,
      optionalParams_of_readable hparams, placed_eq]
    exact get?_foldl_putParam hapart.fields hancestor hvalue body

/-- The criteria of the path accept a record that was created there exactly if all the fields
of the path have names that criteria take and the record recalls its values. A list of the
collection is refused or answered with the window of all that its criteria match; the record is
among these if and only if it recalls the values and satisfies the query, and what is matched is
what is on one of the pages. -/
theorem created_listed (hc : Forest.ofConfig config = .ok t) (about : About)
    (hs : Running Archive.backend t s) (h : Routed t request r raw .create)
    (hparams : decodeParams raw = .ok params) (hapart : r.KeepsApart)
    (hstatus : ((respond Archive.backend about request).run s).1.status = 201) :
    let after := ((respond Archive.backend about request).run s).2
    let collection := after.state.collection r.name
    ∃ stored,
      ((respond Archive.backend about request).run s).1 = .created (.object stored.fields) ∧
      stored ∈ collection.records ∧
      (∀ name ∈ r.ancestorParams, ∀ value, params.lookup name = some value →
        stored.get? (r.fieldOf name) = some (.string value)) ∧
      ((∃ m, Matcher.ofCriteria (r.pathRestriction params) = .ok m ∧ m.accepts stored = true) ↔
        (∀ name ∈ r.pathNames, ∀ value, params.lookup name = some value →
          Criteria.checkName (r.fieldOf name) = .ok ()) ∧ r.Recalls params stored) ∧
      ∀ get raw' c o, Routed t get r raw' .list → decodeParams raw' = .ok params →
        get.announcesTooMuch = false → (get.inquiry r raw').listing = .ok (c, o) →
        let q := (get.inquiry r raw').query.lookup "q"
        ((∀ text ∈ q, Text.isAllBlank text = true) → c = r.pathRestriction params) ∧
        (∀ f, Matcher.ofCriteria c = .error f → (respond Archive.backend about get).run after =
          (get.presented (.ofFailure f), after)) ∧
        ∀ m, Matcher.ofCriteria c = .ok m →
          (o.fetch = [] → (respond Archive.backend about get).run after =
            (get.presented ((get.inquiry r raw').page c o (collection.select m o)
              (collection.matching m).length), after)) ∧
          (stored ∈ collection.matching m ↔ r.Recalls params stored ∧ stored.Answers q) ∧
          (collection.rows.length ≤ Text.maxUnsigned32 → o.offset.getD 0 = 0 →
            ((∃ page ≤ Text.maxUnsigned32, stored ∈ collection.select m (o.turned page)) ↔
              stored ∈ collection.matching m)) := by
  intro after collection
  obtain ⟨stored, u, below, hrun, htree, hkept, hstore, hmem, hwritten⟩ :=
    kept_of_created hc hs h hparams hapart hstatus
  have hafter : after = u := congrArg Prod.snd hrun
  clear_value after
  subst hafter
  have known : after.tree.get? r.name = some r :=
    htree.symm ▸ Forest.get?_of_mem (Forest.sound_of_ofConfig hc) (mem_of_routed h)
  refine ⟨stored, congrArg Prod.fst hrun, hmem, hwritten,
    Resource.pathRestriction_accepts_iff hwritten,
    fun get raw' c o hget hparams' hsize hlisting => ?_⟩
  obtain ⟨hquery, -, -⟩ := Inquiry.listing_eq_ok hlisting
  rw [optionalParams_of_readable hparams'] at hquery
  have hget : Routed after.tree get r raw' .list := htree.symm ▸ hget
  refine ⟨fun hblank => Criteria.withQuery_blank hquery hblank, fun f hrefused => ?_,
    fun m hm => ⟨fun hfetch => ?_, ?_, fun hfew hoffset => ?_⟩⟩
  · exact respond_of_error about hget hsize
      (Inquiry.list_of_refused known hkept hlisting hrefused)
  · exact respond_of_ok about hget hsize
      (Inquiry.list_of_kept known hkept hstore hlisting hm rfl (.inl hfetch))
  · exact List.mem_filter.trans ((and_iff_right hmem).trans
      (Resource.accepts_iff_recalls hwritten hquery hm))
  · exact Collection.exists_page_iff hfew hoffset

/-- A login that is created for an account is on one of the pages of its logins. -/
theorem created_listed_login :
    let t : Forest := ⟨ownedLogins.resources.map ownedLogins.place⟩
    let request := post "/accounts/a1/auths" "\x7b\"uuid\":\"l1\"\x7d"
    let get : Request := { method := "GET", target := "/accounts/a1/auths" }
    let raw := [("accountsId", "a1")]
    let s : Service Archive DocumentStore := { tree := t, state := noRecords }
    let after := ((respond Archive.backend { hostname := "" } request).run s).2
    let collection := after.state.collection "auths"
    Forest.ofConfig ownedLogins = .ok t ∧ Running Archive.backend t s ∧
      Routed t request ownedLogin raw .create ∧ decodeParams raw = .ok raw ∧
      ownedLogin.KeepsApart ∧
      ((respond Archive.backend { hostname := "" } request).run s).1.status = 201 ∧
      ∃ stored c o m,
        ((respond Archive.backend { hostname := "" } request).run s).1 =
          .created (.object stored.fields) ∧
        (get.inquiry ownedLogin raw).listing = .ok (c, o) ∧ Matcher.ofCriteria c = .ok m ∧
        (respond Archive.backend { hostname := "" } get).run after =
          (get.presented ((get.inquiry ownedLogin raw).page c o (collection.select m o)
            (collection.matching m).length), after) ∧
        ∃ page ≤ Text.maxUnsigned32, stored ∈ collection.select m (o.turned page) := by
  intro t request get raw s after collection
  have hs : Running Archive.backend t s := .fresh _
  have hrouted : Routed t request ownedLogin raw .create :=
    .collection (by decide +kernel) (by decide +kernel)
  have hget : Routed t get ownedLogin raw .list :=
    .collection (by decide +kernel) (by decide +kernel)
  have hraw : decodeParams raw = .ok raw := by decide +kernel
  have hapart : ownedLogin.KeepsApart := ⟨by decide +kernel, nofun⟩
  have hstatus : ((respond Archive.backend { hostname := "" } request).run s).1.status = 201 := by
    decide +kernel
  have hnames : ownedLogin.pathNames = ["accountsId", "authsId"] := by decide +kernel
  have hplain : ("accountsId" ∈ ownedLogin.ancestorParams ∧
      Text.has (ownedLogin.fieldOf "accountsId") '.' = false) ∧
      raw.lookup "authsId" = none := by decide +kernel
  have hlisting : (match (get.inquiry ownedLogin raw).listing with
      | .ok (c, o) => (Matcher.ofCriteria c).isOk && o.fetch.isEmpty && (o.offset.getD 0 == 0)
      | .error _ => false) = true := by decide +kernel
  have hfew : collection.rows.length ≤ Text.maxUnsigned32 := by decide +kernel
  obtain ⟨stored, hcreated, -, -, -, hlists⟩ :=
    created_listed ownedLogins_tree { hostname := "" } hs hrouted hraw hapart hstatus
  rcases hasks : (get.inquiry ownedLogin raw).listing with f | ⟨c, o⟩ <;> rw [hasks] at hlisting
  · cases hlisting
  rcases hm : Matcher.ofCriteria c with f | m <;> simp only [hm] at hlisting
  · cases hlisting
  have hrecalls : ownedLogin.Recalls raw stored := by
    rw [Resource.Recalls, hnames, List.forall_mem_cons, List.forall_mem_singleton]
    exact ⟨fun _ _ => .inl hplain.1, fun value hvalue => by rw [hplain.2] at hvalue; cases hvalue⟩
  obtain ⟨-, -, hmatched⟩ := hlists get raw c o hget hraw (by decide +kernel) hasks
  obtain ⟨hanswer, hmem, hpage⟩ := hmatched m hm
  rw [Bool.and_eq_true, Bool.and_eq_true] at hlisting
  obtain ⟨⟨-, hfetch⟩, hoffset⟩ := hlisting
  have hquery : stored.Answers ((get.inquiry ownedLogin raw).query.lookup "q") := by
    rw [show (get.inquiry ownedLogin raw).query.lookup "q" = none by decide +kernel]
    exact stored.answers_none
  exact ⟨ownedLogins_tree, hs, hrouted, hraw, hapart, hstatus, stored, c, o, m, hcreated, rfl, hm,
    hanswer (List.isEmpty_iff.mp hfetch),
    (hpage hfew (eq_of_beq hoffset)).mpr (hmem.mpr ⟨hrecalls, hquery⟩)⟩

/-! ## Fields with a point in their names -/

def pointedLogins : Config where
  resources := [{ name := "accounts" },
    { name := "auths", parent := some "accounts", criteriaKeys := [("accountsId", "owner.id")] }]

def pointedLogin : Resource := pointedLogins.place
  { name := "auths", parent := some "accounts", criteriaKeys := [("accountsId", "owner.id")] }

/-- A login that is created with a point in the name of the field is in no list. -/
theorem created_unlisted :
    let t : Forest := ⟨pointedLogins.resources.map pointedLogins.place⟩
    let request := post "/accounts/a1/auths" "\x7b\"uuid\":\"l1\"\x7d"
    let get : Request := { method := "GET", target := "/accounts/a1/auths?_meta" }
    let raw := [("accountsId", "a1")]
    let s : Service Archive DocumentStore := { tree := t, state := noRecords }
    let created := (respond Archive.backend { hostname := "" } request).run s
    Forest.ofConfig pointedLogins = .ok t ∧ Running Archive.backend t s ∧
      Routed t request pointedLogin raw .create ∧ Routed t get pointedLogin raw .list ∧
      decodeParams raw = .ok raw ∧ pointedLogin.KeepsApart ∧
      (∀ name ∈ pointedLogin.ancestorParams, pointedLogin.fieldOf name ≠ "" ∧
        pointedLogin.fieldOf name ≠ pointedLogin.keys.primaryKey) ∧
      created.1.status = 201 ∧
      created.1.sent = "\x7b\"owner.id\":\"a1\",\"uuid\":\"l1\"\x7d" ∧
      (match Matcher.ofCriteria (pointedLogin.pathRestriction raw) with
        | .ok m => (created.2.state.collection "auths").records.map m.accepts
        | .error _ => []) = [false] ∧
      ((respond Archive.backend { hostname := "" } get).run created.2).1.sent =
        "\x7b\"criteria\":\x7b\"op\":\"=\",\"val\":\"a1\",\"var\":\"owner.id\"\x7d," ++
        "\"documents\":[],\"limit\":50,\"offset\":0,\"page\":null,\"totalHits\":0\x7d" := by
  intro t request get raw s created
  exact ⟨Forest.ofConfig_of_check (by decide +kernel), .fresh _,
    .collection (by decide +kernel) (by decide +kernel),
    .collection (by decide +kernel) (by decide +kernel), by decide +kernel,
    ⟨by decide +kernel, nofun⟩, by decide +kernel⟩

end Http

end Grove
