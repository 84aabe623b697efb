import Grove.Http.Route
import Grove.Proofs.Resource.Forest
import Grove.Proofs.Text.Split

/-!
# The parameters of paths

A resource knows the parameters of its path in two ways. They stand in the path, from
which the routes are read, and they are listed by name, for what a request selects. The
two lists are one (`params_collectionPath`, `params_recordPath`) as long as base paths add
no parameters of their own. The names are different from each other, since resources on
one line of the tree have different ranks, so each parameter has the one value that the
route takes for it.
-/

namespace Grove

open Http (Route RouteSegment)

/-- The segment of a route that a segment of a path is written as. -/
def routeSegment (segment : String) : String :=
  match segment.toList with
  | '\x7b' :: rest =>
    if rest.getLast? = some '\x7d' then ":" ++ String.ofList rest.dropLast else segment
  | _ => segment

theorem routePattern_eq (path : String) :
    routePattern path = String.intercalate "/" ((Text.split '/' path).map routeSegment) := rfl

/-- A segment that takes no parameter, neither in braces nor after a colon. -/
def IsLiteral (segment : String) : Prop :=
  Text.has segment ':' = false ∧ ∀ param, segment ≠ Resource.braced param

theorem routeSegment_braced (param : String) :
    routeSegment (Resource.braced param) = ":" ++ param := by
  have hchars : (Resource.braced param).toList = '\x7b' :: (param.toList ++ ['\x7d']) := by
    simp [Resource.braced]
  simp [routeSegment, hchars]

theorem routeSegment_of_isLiteral {segment : String} (h : IsLiteral segment) :
    routeSegment segment = segment := by
  unfold routeSegment
  split
  · next rest hchars =>
      split
      · next hlast =>
          refine absurd ?_ (h.2 (String.ofList rest.dropLast))
          obtain ⟨init, hinit⟩ := List.getLast?_eq_some_iff.mp hlast
          rw [← String.toList_inj, hchars, hinit]
          simp [Resource.braced]
      · rfl
  · rfl

theorem read_colon (param : String) : RouteSegment.read (":" ++ param) = ⟨"", some param⟩ := by
  have hchars : (":" ++ param).toList = ':' :: param.toList := by simp
  simp [RouteSegment.read, hchars, Text.cutAt]

theorem read_of_not_has {segment : String} (h : Text.has segment ':' = false) :
    RouteSegment.read segment = ⟨segment, none⟩ := by
  have hmem : ':' ∉ segment.toList := by simpa [Text.has] using h
  have hall : ∀ c ∈ segment.toList, decide (c ≠ ':') = true :=
    fun c hc => decide_eq_true fun he => hmem (he ▸ hc)
  have hdrop : segment.toList.dropWhile (· ≠ ':') = [] := by
    rw [← List.append_nil segment.toList, List.dropWhile_append_of_pos hall, List.dropWhile_nil]
  simp only [RouteSegment.read, Text.cutAt, hdrop]

theorem has_routeSegment {segment : String} (h : Text.has segment '/' = false) :
    Text.has (routeSegment segment) '/' = false := by
  unfold routeSegment
  split
  · next rest hchars =>
      split
      · have hrest : '/' ∉ rest := by
          have hmem : '/' ∉ segment.toList := by simpa [Text.has] using h
          rw [hchars, List.mem_cons, not_or] at hmem
          exact hmem.2
        have hinit : '/' ∉ rest.dropLast := fun hmem => hrest (List.dropLast_subset _ hmem)
        simpa [Text.has] using hinit
      · exact h
  · exact h

/-! ## Routes of paths -/

def Http.Route.params (route : Route) : List String := route.filterMap (·.param)

theorem params_of_takes? {route : Route} {segments : List String} {raw : List (String × String)}
    (h : route.takes? segments = some raw) : raw.map (·.1) = route.params := by
  induction route generalizing segments raw with
  | nil =>
      cases segments with
      | nil => cases h; rfl
      | cons segment segments => cases h
  | cons pattern route ih =>
      cases segments with
      | nil => cases h
      | cons segment segments =>
          rw [Route.takes?] at h
          simp only [Option.bind_eq_bind, Option.bind_eq_some_iff] at h
          obtain ⟨taken, htaken, rest, hrest, h⟩ := h
          cases h
          rw [List.map_append, ih hrest, Route.params, Route.params, List.filterMap_cons]
          unfold RouteSegment.take? at htaken
          cases hparam : pattern.param with
          | none =>
              rw [hparam] at htaken
              simp only [] at htaken
              split at htaken <;> cases htaken
              rfl
          | some name =>
              rw [hparam] at htaken
              simp only [] at htaken
              split at htaken <;> cases htaken
              rfl

/-- The segments of a route are those of its path, each written the way routes are. -/
theorem split_routePattern {segments : List String} (hne : segments ≠ [])
    (h : ∀ segment ∈ segments, Text.has segment '/' = false) :
    Text.split '/' (routePattern ("/" ++ String.intercalate "/" segments)) =
      ("" :: segments).map routeSegment := by
  have hslash : "/" = String.singleton '/' := rfl
  have hpath :
      "/" ++ String.intercalate "/" segments = String.intercalate "/" ("" :: segments) := by
    rw [String.intercalate_cons_of_ne_nil hne, String.empty_append]
  have hpieces : ∀ segment ∈ "" :: segments, Text.has segment '/' = false :=
    List.forall_mem_cons.mpr ⟨rfl, h⟩
  have hrouted : ∀ segment ∈ ("" :: segments).map routeSegment, Text.has segment '/' = false := by
    intro segment hsegment
    obtain ⟨piece, hpiece, rfl⟩ := List.mem_map.mp hsegment
    exact has_routeSegment (hpieces piece hpiece)
  rw [hpath, routePattern_eq, hslash, Text.split_intercalate (List.cons_ne_nil _ _) hpieces,
    Text.split_intercalate (by simp) hrouted]

theorem read_routePattern {segments : List String} (hne : segments ≠ [])
    (h : ∀ segment ∈ segments, Text.has segment '/' = false) :
    Route.read (routePattern ("/" ++ String.intercalate "/" segments)) =
      ("" :: segments).map fun segment => RouteSegment.read (routeSegment segment) := by
  rw [Route.read, split_routePattern hne h, List.map_map]
  rfl

/-- The parameter that a segment of a path stands for. -/
def segmentParam (segment : String) : Option String :=
  (RouteSegment.read (routeSegment segment)).param

theorem segmentParam_braced (param : String) :
    segmentParam (Resource.braced param) = some param := by
  rw [segmentParam, routeSegment_braced, read_colon]

theorem segmentParam_of_isLiteral {segment : String} (h : IsLiteral segment) :
    segmentParam segment = none := by
  rw [segmentParam, routeSegment_of_isLiteral h, read_of_not_has h.1]

theorem params_read {segments : List String} (hne : segments ≠ [])
    (h : ∀ segment ∈ segments, Text.has segment '/' = false) :
    (Route.read (routePattern ("/" ++ String.intercalate "/" segments))).params =
      segments.filterMap segmentParam := by
  have hempty : segmentParam "" = none := segmentParam_of_isLiteral ⟨rfl, fun param he => by
    simpa [Resource.braced] using congrArg String.toList he⟩
  rw [read_routePattern hne h, Route.params, List.filterMap_map, List.filterMap_cons]
  simp only [Function.comp_apply]
  rw [show (RouteSegment.read (routeSegment "")).param = none from hempty]
  rfl

namespace Config

/-- The base paths of the configuration add no parameters to paths. -/
def PlainBases (c : Config) : Prop :=
  ∀ r ∈ c.resources, ∀ segment ∈ nonEmptySegments (c.basePathOf r), IsLiteral segment

variable {c : Config}

theorem has_name {name : String} (h : isSegment name = true) :
    Text.has name '/' = false ∧ Text.has name '{' = false ∧ Text.has name ':' = false := by
  simpa [isSegment, and_assoc] using h

theorem isLiteral_name {name : String} (h : isSegment name = true) : IsLiteral name := by
  obtain ⟨-, hbrace, hcolon⟩ := has_name h
  refine ⟨hcolon, fun param he => ?_⟩
  rw [he] at hbrace
  simp [Text.has, Resource.braced] at hbrace

theorem has_collectionSegments (hc : c.Checked) {r : ResourceEntry} (hr : r ∈ c.resources) :
    ∀ segment ∈ c.collectionSegments r, Text.has segment '/' = false := by
  intro segment hsegment
  rcases List.mem_append.mp hsegment with hbase | hname
  · exact Text.has_split (List.mem_filter.mp hbase).1
  · rw [List.mem_singleton.mp hname]
    exact (has_name (hc.segments r hr)).1

theorem has_itemSegments (hc : c.Checked) {r : ResourceEntry} (hr : r ∈ c.resources) :
    ∀ segment ∈ c.itemSegments r, Text.has segment '/' = false := by
  intro segment hsegment
  rcases List.mem_append.mp hsegment with hcollection | hkey
  · exact has_collectionSegments hc hr segment hcollection
  · rw [List.mem_singleton.mp hkey]
    have hname := (has_name (hc.segments r hr)).1
    simp only [Text.has, List.contains_eq_mem, decide_eq_false_iff_not] at hname
    simp [Text.has, Resource.braced, Resource.keyParam, hname]

theorem params_collectionSegments (hc : c.Checked) (hbases : c.PlainBases) {r : ResourceEntry}
    (hr : r ∈ c.resources) : (c.collectionSegments r).filterMap segmentParam = [] := by
  rw [List.filterMap_eq_nil_iff]
  intro segment hsegment
  rcases List.mem_append.mp hsegment with hbase | hname
  · exact segmentParam_of_isLiteral (hbases r hr segment hbase)
  · rw [List.mem_singleton.mp hname]
    exact segmentParam_of_isLiteral (isLiteral_name (hc.segments r hr))

theorem params_itemSegments (hc : c.Checked) (hbases : c.PlainBases) {r : ResourceEntry}
    (hr : r ∈ c.resources) :
    (c.itemSegments r).filterMap segmentParam = [Resource.keyParam r.name] := by
  rw [itemSegments, List.filterMap_append, params_collectionSegments hc hbases hr,
    List.filterMap_cons, segmentParam_braced]
  rfl

/-! ## Lines of resources -/

/-- A line starts with its resource, and ranks fall along it. -/
theorem lineage_ranks (hc : c.Checked) (fuel : Nat) {r : ResourceEntry} (hr : r ∈ c.resources) :
    (∃ above, c.lineage fuel r = r :: above) ∧
      (∀ a ∈ c.lineage fuel r, a ∈ c.resources ∧
        c.rank (c.resources.length + 1) a.name ≤ c.rank (c.resources.length + 1) r.name) ∧
      (c.lineage fuel r).Pairwise fun a b =>
        c.rank (c.resources.length + 1) b.name < c.rank (c.resources.length + 1) a.name := by
  induction fuel generalizing r with
  | zero =>
      refine ⟨⟨[], rfl⟩, fun a ha => ?_, List.pairwise_singleton _ _⟩
      rw [List.mem_singleton.mp ha]
      exact ⟨hr, Nat.le_refl _⟩
  | succ fuel ih =>
      rw [lineage]
      split
      · refine ⟨⟨[], rfl⟩, fun a ha => ?_, List.pairwise_singleton _ _⟩
        rw [List.mem_singleton.mp ha]
        exact ⟨hr, Nat.le_refl _⟩
      · next parent hparent =>
          obtain ⟨name, hname, hfind⟩ := Option.bind_eq_some_iff.mp hparent
          have hp : parent ∈ c.resources := List.mem_of_find?_eq_some hfind
          have hparentName : parent.name = name := by simpa using List.find?_some hfind
          have hlower := rank_parent_lt hc hr hname
          rw [← hparentName] at hlower
          obtain ⟨-, hmem, hpairwise⟩ := ih hp
          refine ⟨⟨_, rfl⟩, ?_, ?_⟩
          · refine List.forall_mem_cons.mpr ⟨⟨hr, Nat.le_refl _⟩, fun a ha => ?_⟩
            exact ⟨(hmem a ha).1, Nat.le_trans (hmem a ha).2 (Nat.le_of_lt hlower)⟩
          · refine List.pairwise_cons.mpr ⟨fun a ha => ?_, hpairwise⟩
            exact Nat.lt_of_le_of_lt (hmem a ha).2 hlower

/-- The records on the way to a collection are what the path has parameters for. -/
theorem params_way (hc : c.Checked) (hbases : c.PlainBases) {line : List ResourceEntry}
    (h : ∀ r ∈ line, r ∈ c.resources) :
    (line.flatMap c.itemSegments).filterMap segmentParam =
      line.map fun r => Resource.keyParam r.name := by
  induction line with
  | nil => rfl
  | cons r line ih =>
      rw [List.forall_mem_cons] at h
      rw [List.flatMap_cons, List.filterMap_append, params_itemSegments hc hbases h.1, ih h.2]
      rfl

/-- The path to a collection is made of segments, and its parameters are those of the
ancestors. -/
theorem collectionPath_place (hc : c.Checked) {r : ResourceEntry} (hr : r ∈ c.resources) :
    ∃ segments, segments ≠ [] ∧ (∀ segment ∈ segments, Text.has segment '/' = false) ∧
      (c.place r).collectionPath = "/" ++ String.intercalate "/" segments ∧
      (c.PlainBases → segments.filterMap segmentParam = (c.place r).ancestorParams) := by
  obtain ⟨⟨above, hline⟩, hmem, -⟩ := lineage_ranks hc c.resources.length hr
  rw [hline, List.forall_mem_cons] at hmem
  have hway : ∀ a ∈ above.reverse, a ∈ c.resources :=
    fun a ha => (hmem.2 a (List.mem_reverse.mp ha)).1
  refine ⟨above.reverse.flatMap c.itemSegments ++ c.collectionSegments r, ?_, ?_, ?_, ?_⟩
  · simp [collectionSegments]
  · intro segment hsegment
    rcases List.mem_append.mp hsegment with hitem | hcollection
    · obtain ⟨a, ha, hsegment⟩ := List.mem_flatMap.mp hitem
      exact has_itemSegments hc (hway a ha) segment hsegment
    · exact has_collectionSegments hc hr segment hcollection
  · simp only [place, hline, collectionPath]
  · intro hbases
    rw [List.filterMap_append, params_way hc hbases hway, params_collectionSegments hc hbases hr,
      List.append_nil]
    simp only [place, hline, List.tail_cons]

theorem nodup_pathNames (hc : c.Checked) {r : ResourceEntry} (hr : r ∈ c.resources) :
    (c.place r).pathNames.Nodup := by
  obtain ⟨⟨above, hline⟩, -, hpairwise⟩ := lineage_ranks hc c.resources.length hr
  have hnames : (c.place r).pathNames =
      (c.lineage c.resources.length r).reverse.map fun a => Resource.keyParam a.name := by
    simp [Resource.pathNames, Resource.ownParam, place, hline]
  rw [hnames, List.Nodup, List.pairwise_map, List.pairwise_reverse]
  refine hpairwise.imp fun {a b} hlt heq => ?_
  rw [Resource.keyParam, Resource.keyParam, String.append_left_inj] at heq
  rw [heq] at hlt
  exact Nat.lt_irrefl _ hlt

theorem lineage_parent (hc : c.Checked) {r above : ResourceEntry} (hr : r ∈ c.resources)
    (habove : above ∈ c.resources) (hparent : r.parent = some above.name) :
    ∃ rest, c.lineage c.resources.length r = r :: above :: rest := by
  obtain ⟨fuel, hfuel⟩ : ∃ fuel, c.resources.length = fuel + 1 :=
    Nat.exists_eq_add_one.mpr (List.length_pos_of_mem hr)
  obtain ⟨⟨rest, hrest⟩, -⟩ := lineage_ranks hc fuel habove
  have hfind : r.parent.bind c.find? = some above := by
    rw [hparent]
    exact find?_name hc.nodup habove
  refine ⟨rest, ?_⟩
  rw [hfuel, lineage, hfind]
  exact congrArg (r :: ·) hrest

end Config

namespace Resource

variable {c : Config} {t : Forest} {r : Resource}

theorem params_collectionPath (hc : Forest.ofConfig c = .ok t) (hbases : c.PlainBases)
    (hr : r ∈ t.resources) :
    (Route.read (routePattern r.collectionPath)).params = r.ancestorParams := by
  obtain ⟨hchecked, hresources⟩ := Forest.ofConfig_eq_ok hc
  rw [hresources] at hr
  obtain ⟨entry, hentry, rfl⟩ := List.mem_map.mp hr
  obtain ⟨segments, hne, hslash, hpath, hparams⟩ := Config.collectionPath_place hchecked hentry
  rw [hpath, params_read hne hslash, hparams hbases]

theorem params_recordPath (hc : Forest.ofConfig c = .ok t) (hbases : c.PlainBases)
    (hr : r ∈ t.resources) :
    (Route.read (routePattern r.recordPath)).params = r.pathNames := by
  obtain ⟨hchecked, hresources⟩ := Forest.ofConfig_eq_ok hc
  rw [hresources] at hr
  obtain ⟨entry, hentry, rfl⟩ := List.mem_map.mp hr
  obtain ⟨segments, hne, hslash, hpath, hparams⟩ := Config.collectionPath_place hchecked hentry
  have hown : Text.has (braced (c.place entry).ownParam) '/' = false :=
    Config.has_itemSegments hchecked hentry _ (List.mem_append_right _ (List.mem_singleton_self _))
  have hpath : (c.place entry).recordPath =
      "/" ++ String.intercalate "/" (segments ++ [braced (c.place entry).ownParam]) := by
    rw [recordPath, hpath, String.intercalate_append_of_ne_nil hne (List.cons_ne_nil _ _),
      String.intercalate_singleton]
    simp only [String.append_assoc]
  have hslash : ∀ segment ∈ segments ++ [braced (c.place entry).ownParam],
      Text.has segment '/' = false := by
    intro segment hsegment
    rcases List.mem_append.mp hsegment with hway | hlast
    · exact hslash segment hway
    · rw [List.mem_singleton.mp hlast]
      exact hown
  rw [hpath, params_read (by simp) hslash, List.filterMap_append, hparams hbases,
    List.filterMap_cons, segmentParam_braced]
  rfl

theorem pathNames_nodup (hc : Forest.ofConfig c = .ok t) (hr : r ∈ t.resources) :
    r.pathNames.Nodup := by
  obtain ⟨hchecked, hresources⟩ := Forest.ofConfig_eq_ok hc
  rw [hresources] at hr
  obtain ⟨entry, hentry, rfl⟩ := List.mem_map.mp hr
  exact Config.nodup_pathNames hchecked hentry

theorem ownParam_mem_pathNames (r : Resource) : r.ownParam ∈ r.pathNames :=
  List.mem_append_right _ (List.mem_singleton_self _)

/-- The path of a child has the parameter for a record of its parent. -/
theorem ownParam_mem_ancestorParams (hc : Forest.ofConfig c = .ok t) {parent child : Resource}
    (hparent : parent ∈ t.resources) (hchild : child ∈ t.resources)
    (hlink : child.parent = some parent.name) : parent.ownParam ∈ child.ancestorParams := by
  obtain ⟨hchecked, hresources⟩ := Forest.ofConfig_eq_ok hc
  rw [hresources] at hparent hchild
  obtain ⟨above, habove, rfl⟩ := List.mem_map.mp hparent
  obtain ⟨entry, hentry, rfl⟩ := List.mem_map.mp hchild
  obtain ⟨rest, hline⟩ := Config.lineage_parent hchecked hentry habove hlink
  simp only [ownParam, Config.place, hline, List.tail_cons, List.reverse_cons, List.map_append,
    List.map_singleton]
  exact List.mem_append_right _ (List.mem_singleton_self _)

end Resource

/-! ## Values of parameters -/

namespace Http

theorem decodeParams_eq_ok {raw : List (String × String)} {params : Params}
    (h : decodeParams raw = .ok params) :
    params.reverse.map (·.1) = raw.map (·.1) ∧
      ∀ p ∈ raw, ∃ value, Percent.decode? p.2 = some value ∧ (p.1, value) ∈ params := by
  obtain ⟨decoded, hdecoded, rfl⟩ := map_eq_ok.mp h
  simp only [List.reverse_reverse, List.mem_reverse]
  clear h
  induction raw generalizing decoded with
  | nil =>
      cases hdecoded
      exact ⟨rfl, nofun⟩
  | cons p raw ih =>
      rw [List.mapM_cons] at hdecoded
      obtain ⟨first, hfirst, hdecoded⟩ := bind_eq_ok.mp hdecoded
      obtain ⟨rest, hrest, hdecoded⟩ := bind_eq_ok.mp hdecoded
      cases hdecoded
      obtain ⟨hnames, hvalues⟩ := ih rest hrest
      split at hfirst
      · next value hvalue =>
          cases hfirst
          refine ⟨by rw [List.map_cons, List.map_cons, hnames], List.forall_mem_cons.mpr ⟨?_, ?_⟩⟩
          · exact ⟨value, hvalue, List.mem_cons_self⟩
          · intro q hq
            obtain ⟨other, hother, hmem⟩ := hvalues q hq
            exact ⟨other, hother, List.mem_cons_of_mem _ hmem⟩
      · cases hfirst

/-- Parameters are text exactly when each of them is. -/
theorem decodeParams_isOk {raw : List (String × String)} :
    (∃ params, decodeParams raw = .ok params) ↔ ∀ p ∈ raw, (Percent.decode? p.2).isSome := by
  constructor
  · rintro ⟨params, hparams⟩ p hp
    obtain ⟨value, hvalue, -⟩ := (decodeParams_eq_ok hparams).2 p hp
    rw [hvalue]
    rfl
  · intro h
    suffices hdecoded : ∃ decoded, decodeParams raw = .ok decoded by exact hdecoded
    induction raw with
    | nil => exact ⟨_, rfl⟩
    | cons p raw ih =>
        rw [List.forall_mem_cons] at h
        obtain ⟨value, hvalue⟩ := Option.isSome_iff_exists.mp h.1
        obtain ⟨params, hparams⟩ := ih h.2
        obtain ⟨decoded, hdecoded, rfl⟩ := map_eq_ok.mp hparams
        refine ⟨((p.1, value) :: decoded).reverse, map_eq_ok.mpr ⟨_, ?_, rfl⟩⟩
        rw [List.mapM_cons, hdecoded, hvalue]
        rfl

theorem lookup_of_mem {α : Type} {fields : List (String × α)} (h : (fields.map (·.1)).Nodup)
    {name : String} {value : α} (hmem : (name, value) ∈ fields) :
    fields.lookup name = some value := by
  induction fields with
  | nil => exact absurd hmem List.not_mem_nil
  | cons field fields ih =>
      rw [List.map_cons, List.nodup_cons] at h
      rw [List.lookup_cons]
      rcases List.mem_cons.mp hmem with rfl | hmem
      · rw [beq_self_eq_true]
      · have hne : name ≠ field.1 := fun heq => h.1 (heq ▸ List.mem_map_of_mem hmem)
        rw [beq_false_of_ne hne]
        exact ih h.2 hmem

/-- Where parameters have different names, each has the value that its text stands for. -/
theorem lookup_decodeParams {raw : List (String × String)} {params : Params}
    (h : decodeParams raw = .ok params) (hnodup : (raw.map (·.1)).Nodup) :
    ∀ p ∈ raw, ∃ value, Percent.decode? p.2 = some value ∧ params.lookup p.1 = some value := by
  obtain ⟨hnames, hvalues⟩ := decodeParams_eq_ok h
  rw [← hnames, List.map_reverse, (List.reverse_perm _).nodup_iff] at hnodup
  intro p hp
  obtain ⟨value, hvalue, hmem⟩ := hvalues p hp
  exact ⟨value, hvalue, lookup_of_mem hnodup hmem⟩

end Http

end Grove
