import Grove.Proofs.Resource.Hierarchy
import Grove.Proofs.Resource.Path

/-!
# Where resources are placed

The path to a resource is put together from below: going from parent to parent, each resource is
put in front of what is there already. Whoever uses the path thinks of it from above, where a child
comes after the parameter for one record of its parent. Here the first is shown to come to the
second (`wayTo_under`), so everything that is to hold of paths at every depth follows by going down
the tree once. The parameters that are listed beside a path are one such thing: they are those that
stand in it (`filterMap_braced?_wayTo`).

That there is an end to going up is what the checks were for (`Line.of_rooted`), and the bound on it
does not show (`lineage_eq_of_line`). `placed_coherently` collects what all this makes of a
resource.
-/

namespace Grove

namespace Resource

def braced? (segment : String) : Option String :=
  match segment.toList with
  | '\x7b' :: rest =>
    if rest.getLast? = some '\x7d' then some (String.ofList rest.dropLast) else none
  | _ => none

def pathParams (path : String) : List String := (Text.split '/' path).filterMap braced?

theorem braced?_braced (param : String) : braced? (braced param) = some param := by
  have hchars : (braced param).toList = '\x7b' :: (param.toList ++ ['\x7d']) := by
    simp [braced]
  simp [braced?, hchars]

theorem braced?_of_not_has {segment : String} (h : Text.has segment '\x7b' = false) :
    braced? segment = none := by
  unfold braced?
  split
  · next rest hchars => simp [Text.has, hchars] at h
  · rfl

theorem pathParams_of_segments {segments : List String} (hne : segments ≠ [])
    (h : ∀ segment ∈ segments, Text.has segment '/' = false) :
    pathParams ("/" ++ String.intercalate "/" segments) = segments.filterMap braced? := by
  have hpath :
      "/" ++ String.intercalate "/" segments = String.intercalate "/" ("" :: segments) := by
    rw [String.intercalate_cons_of_ne_nil hne, String.empty_append]
  have hslash : "/" = String.singleton '/' := rfl
  rw [pathParams, hpath, hslash, Text.split_intercalate (List.cons_ne_nil _ _)
    (List.forall_mem_cons.mpr ⟨rfl, h⟩), List.filterMap_cons]
  rfl

end Resource

namespace Config

variable {c : Config} {r above : ResourceEntry} {line : List ResourceEntry}

/-! ## Going up -/

/-- Going from a resource to its parent and on, one passes these until there is no parent. -/
inductive Line (c : Config) : ResourceEntry → List ResourceEntry → Prop
  | top {r : ResourceEntry} (hparent : r.parent = none) : Line c r [r]
  | under {r above : ResourceEntry} {line : List ResourceEntry}
      (hparent : r.parent = some above.name) (habove : above ∈ c.resources)
      (h : Line c above line) : Line c r (r :: line)

theorem Line.of_rooted (h : c.Rooted r) : ∃ line, c.Line r line := by
  induction h with
  | top hparent => exact ⟨_, .top hparent⟩
  | under hparent habove _ ih =>
      obtain ⟨line, hline⟩ := ih
      exact ⟨_, .under hparent habove hline⟩

theorem Line.eq_cons (h : c.Line r line) : ∃ rest, line = r :: rest := by
  cases h with
  | top hparent => exact ⟨_, rfl⟩
  | under hparent habove h => exact ⟨_, rfl⟩

/-- A line is no longer than the number of steps in which the root is reached. -/
theorem Line.length_le (hnodup : (c.resources.map (·.name)).Nodup) (h : c.Line r line)
    (hr : r ∈ c.resources) {fuel : Nat} (hroot : c.reachesRoot fuel r.name = true) :
    line.length ≤ fuel := by
  induction h generalizing fuel with
  | top hparent =>
      cases fuel with
      | zero => cases hroot
      | succ fuel => exact Nat.succ_le_succ (Nat.zero_le fuel)
  | under hparent habove h ih =>
      cases fuel with
      | zero => cases hroot
      | succ fuel =>
          rw [reachesRoot, parentOf_eq hnodup hr, hparent] at hroot
          exact Nat.succ_le_succ (ih habove hroot)

theorem lineage_eq_of_line (hnodup : (c.resources.map (·.name)).Nodup) (h : c.Line r line)
    {fuel : Nat} (hfuel : line.length ≤ fuel + 1) : c.lineage fuel r = line := by
  induction h generalizing fuel with
  | top hparent => cases fuel <;> simp [lineage, hparent]
  | @under r above line hparent habove h ih =>
      cases fuel with
      | zero =>
          obtain ⟨rest, rfl⟩ := h.eq_cons
          simp at hfuel
      | succ fuel =>
          have hfind : r.parent.bind c.find? = some above := by
            rw [hparent]
            exact find?_name hnodup habove
          rw [lineage, hfind]
          exact congrArg (r :: ·) (ih (Nat.le_of_succ_le_succ hfuel))

/-- In a forest the way up is the line of the resource, whatever bound is put on it, if only
there is room for every resource. -/
theorem IsForest.lineage_eq (hc : c.IsForest) (hr : r ∈ c.resources) (h : c.Line r line)
    {fuel : Nat} (hfuel : c.resources.length ≤ fuel) : c.lineage fuel r = line := by
  have hroot := reachesRoot_iff.mpr ((hc.rooted r hr).ends hc.unique hr)
  have hlength := h.length_le hc.unique hr hroot
  exact lineage_eq_of_line hc.unique h (Nat.le_trans hlength (Nat.succ_le_succ hfuel))

/-! ## Coming down -/

def wayTo (c : Config) (r : ResourceEntry) : List String :=
  match c.lineage c.resources.length r with
  | [] => []
  | r :: above => above.reverse.flatMap c.itemSegments ++ c.collectionSegments r

theorem collectionPath_eq (c : Config) (r : ResourceEntry) :
    (c.place r).collectionPath = "/" ++ String.intercalate "/" (c.wayTo r) := by
  simp only [place, wayTo]
  cases c.lineage c.resources.length r <;> rfl

theorem wayTo_of_lineage {rest : List ResourceEntry}
    (h : c.lineage c.resources.length r = r :: rest) :
    c.wayTo r = rest.reverse.flatMap c.itemSegments ++ c.collectionSegments r := by
  rw [wayTo, h]

theorem lineage_top (hparent : r.parent = none) (fuel : Nat) : c.lineage fuel r = [r] := by
  cases fuel <;> simp [lineage, hparent]

theorem wayTo_top (hparent : r.parent = none) : c.wayTo r = c.collectionSegments r := by
  rw [wayTo_of_lineage (lineage_top hparent _)]
  rfl

theorem ancestorParams_top (hparent : r.parent = none) : (c.place r).ancestorParams = [] := by
  simp only [place, lineage_top hparent]
  rfl

theorem IsForest.lineage_under (hc : c.IsForest) (hr : r ∈ c.resources)
    (habove : above ∈ c.resources) (hparent : r.parent = some above.name) :
    ∃ rest, c.lineage c.resources.length above = above :: rest ∧
      c.lineage c.resources.length r = r :: above :: rest := by
  obtain ⟨line, hline⟩ := Line.of_rooted (hc.rooted above habove)
  obtain ⟨rest, rfl⟩ := hline.eq_cons
  exact ⟨rest, hc.lineage_eq habove hline (Nat.le_refl _),
    hc.lineage_eq hr (.under hparent habove hline) (Nat.le_refl _)⟩

/-- The way to a child goes to the parent, on to one of its records, and from there past the
base path of the child to its name. -/
theorem IsForest.wayTo_under (hc : c.IsForest) (hr : r ∈ c.resources)
    (habove : above ∈ c.resources) (hparent : r.parent = some above.name) :
    c.wayTo r = c.wayTo above ++ Resource.braced (Resource.keyParam above.name) ::
      c.collectionSegments r := by
  obtain ⟨rest, hlineage, hunder⟩ := hc.lineage_under hr habove hparent
  rw [wayTo_of_lineage hunder, wayTo_of_lineage hlineage]
  simp [itemSegments, List.append_assoc]

theorem IsForest.ancestorParams_under (hc : c.IsForest) (hr : r ∈ c.resources)
    (habove : above ∈ c.resources) (hparent : r.parent = some above.name) :
    (c.place r).ancestorParams =
      (c.place above).ancestorParams ++ [(c.place above).ownParam] := by
  obtain ⟨rest, hlineage, hunder⟩ := hc.lineage_under hr habove hparent
  simp only [place, Resource.ownParam, hunder, hlineage, List.tail_cons, List.reverse_cons,
    List.map_append, List.map_singleton]

theorem collectionSegments_ne_nil (c : Config) (r : ResourceEntry) :
    c.collectionSegments r ≠ [] := by
  simp [collectionSegments]

theorem IsForest.wayTo_ne_nil (hc : c.IsForest) (hr : r ∈ c.resources) : c.wayTo r ≠ [] := by
  have hne := c.collectionSegments_ne_nil r
  cases hc.rooted r hr with
  | top hparent => rwa [wayTo_top hparent]
  | under hparent habove h =>
      rw [hc.wayTo_under hr habove hparent]
      simp

/-- What holds of the segments of every collection and of every parameter for a record holds
of the segments of every way. -/
theorem IsForest.forall_mem_wayTo (hc : c.IsForest) {p : String → Prop}
    (hitem : ∀ r ∈ c.resources, ∀ segment ∈ c.itemSegments r, p segment)
    (hr : r ∈ c.resources) : ∀ segment ∈ c.wayTo r, p segment := by
  have hcollection : ∀ r ∈ c.resources, ∀ segment ∈ c.collectionSegments r, p segment :=
    fun r hr segment hsegment => hitem r hr segment (List.mem_append_left _ hsegment)
  have hrooted := hc.rooted r hr
  induction hrooted with
  | top hparent =>
      rw [wayTo_top hparent]
      exact hcollection _ hr
  | @under r above hparent habove h ih =>
      rw [hc.wayTo_under hr habove hparent]
      refine List.forall_mem_append.mpr ⟨ih habove, List.forall_mem_cons.mpr ⟨?_, ?_⟩⟩
      · exact hitem above habove _ (List.mem_append_right _ (List.mem_singleton_self _))
      · exact hcollection r hr

theorem IsForest.recordPath_eq (hc : c.IsForest) (hr : r ∈ c.resources) :
    (c.place r).recordPath = "/" ++ String.intercalate "/"
      (c.wayTo r ++ [Resource.braced (Resource.keyParam r.name)]) := by
  rw [Resource.recordPath, collectionPath_eq,
    String.intercalate_append_of_ne_nil (hc.wayTo_ne_nil hr) (List.cons_ne_nil _ _),
    String.intercalate_singleton]
  simp only [String.append_assoc]
  rfl

theorem IsForest.collectionPath_under (hc : c.IsForest) (hr : r ∈ c.resources)
    (habove : above ∈ c.resources) (hparent : r.parent = some above.name) :
    (c.place r).collectionPath = (c.place above).recordPath ++ "/" ++
      String.intercalate "/" (c.collectionSegments r) := by
  rw [collectionPath_eq, hc.recordPath_eq habove, hc.wayTo_under hr habove hparent,
    List.append_cons, String.intercalate_append_of_ne_nil (by simp)
      (c.collectionSegments_ne_nil r)]
  simp only [String.append_assoc]

/-! ## Parameters -/

def Unbraced (c : Config) (rs : List ResourceEntry) : Prop :=
  ∀ r ∈ rs, Text.has (c.basePathOf r) '{' = false

theorem filterMap_braced?_collectionSegments (hc : c.Checked) (hr : r ∈ c.resources)
    (hbase : Text.has (c.basePathOf r) '{' = false) :
    (c.collectionSegments r).filterMap Resource.braced? = [] := by
  rw [List.filterMap_eq_nil_iff]
  intro segment hsegment
  refine Resource.braced?_of_not_has ?_
  rcases List.mem_append.mp hsegment with hsegment | hname
  · exact Text.has_of_mem_split (List.mem_filter.mp hsegment).1 hbase
  · rw [List.mem_singleton.mp hname]
    exact (has_name (hc.segments r hr)).2.1

/-- The parameters in the path are those of the ancestors. -/
theorem IsForest.filterMap_braced?_wayTo (hc : c.IsForest) (hr : r ∈ c.resources)
    (h : c.Line r line) (hbase : c.Unbraced line) :
    (c.wayTo r).filterMap Resource.braced? = (c.place r).ancestorParams := by
  have hchecked := checked_of_check ((check_iff_isForest c).mpr hc)
  induction h with
  | top hparent =>
      rw [wayTo_top hparent, ancestorParams_top hparent]
      exact filterMap_braced?_collectionSegments hchecked hr (List.forall_mem_cons.mp hbase).1
  | under hparent habove h ih =>
      obtain ⟨hown, hbase⟩ := List.forall_mem_cons.mp hbase
      rw [hc.wayTo_under hr habove hparent, hc.ancestorParams_under hr habove hparent,
        List.filterMap_append, ih habove hbase, List.filterMap_cons, Resource.braced?_braced,
        filterMap_braced?_collectionSegments hchecked hr hown]
      rfl

/-! ## The tree -/

/-- The resource that a tree has for an entry of the configuration, with what its place in the
tree says of it. -/
structure Coherent (c : Config) (t : Forest) (r : ResourceEntry) (q : Resource) : Prop where
  found : t.get? r.name = some q
  named : q.name = r.name
  below : q.parent = r.parent
  mem_children : ∀ child, child ∈ q.children ↔
    ∃ under, t.get? child = some under ∧ under.parent = some r.name
  /-- Every child is listed once, in the order of the configuration. -/
  children : q.children.Sublist (c.resources.map (·.name)) ∧ q.children.Nodup
  top : r.parent = none → q.ancestorParams = [] ∧
    q.collectionPath = "/" ++ String.intercalate "/"
      (nonEmptySegments (r.basePath.getD c.basePath) ++ [r.name])
  under : ∀ parent, r.parent = some parent → ∃ above, t.get? parent = some above ∧
    q.ancestorParams = above.ancestorParams ++ [above.ownParam] ∧
    q.collectionPath = above.recordPath ++ "/" ++ String.intercalate "/"
      (nonEmptySegments (r.basePath.getD "") ++ [r.name])
  /-- The way up has an end, and all of it counts. Its base paths alone could put parameters into
  the path that are not those of the ancestors. -/
  line : ∃ line, c.Line r line ∧
    (∀ fuel, c.resources.length ≤ fuel → c.lineage fuel r = line) ∧
    (c.Unbraced line → Resource.pathParams q.collectionPath = q.ancestorParams)
  distinct : q.ancestorParams.Nodup

theorem basePathOf_top (hparent : r.parent = none) :
    c.basePathOf r = r.basePath.getD c.basePath := by
  rw [basePathOf, hparent]
  cases r.basePath <;> rfl

theorem basePathOf_under {parent : String} (hparent : r.parent = some parent) :
    c.basePathOf r = r.basePath.getD "" := by
  rw [basePathOf, hparent]
  cases r.basePath <;> rfl

theorem IsForest.pathParams_place (hc : c.IsForest) (hr : r ∈ c.resources) (h : c.Line r line)
    (hbase : c.Unbraced line) :
    Resource.pathParams (c.place r).collectionPath = (c.place r).ancestorParams := by
  have hchecked := checked_of_check ((check_iff_isForest c).mpr hc)
  rw [collectionPath_eq, Resource.pathParams_of_segments (hc.wayTo_ne_nil hr)
    (hc.forall_mem_wayTo (fun r hr => has_itemSegments hchecked hr) hr)]
  exact hc.filterMap_braced?_wayTo hr h hbase

/-- Every configuration that is accepted has a tree, with one resource for each entry, and each
of them is where the configuration puts it: its path and its parameters go on from those of the
parent, and the parameters in the path are those that are listed, all different. -/
theorem placed_coherently (h : c.check = .ok ()) :
    ∃ t, Forest.ofConfig c = .ok t ∧
      t.resources.map (·.name) = c.resources.map (·.name) ∧
      ∀ r ∈ c.resources, ∃ q, c.Coherent t r q := by
  have hc := (check_iff_isForest c).mp h
  have hchecked := checked_of_check h
  have ht : Forest.ofConfig c = .ok ⟨c.resources.map c.place⟩ :=
    Forest.ofConfig_of_check (by rw [h]; rfl)
  have hsound := Forest.sound_of_ofConfig ht
  have hget : ∀ r ∈ c.resources,
      Forest.get? ⟨c.resources.map c.place⟩ r.name = some (c.place r) := fun r hr =>
    Forest.get?_of_mem hsound (List.mem_map_of_mem hr)
  refine ⟨_, ht, by rw [List.map_map]; rfl, fun r hr => ⟨c.place r, ?_⟩⟩
  obtain ⟨line, hline⟩ := Line.of_rooted (hc.rooted r hr)
  have hlisted : (c.place r).children.Sublist (c.resources.map (·.name)) :=
    List.filter_sublist.map _
  exact
    { found := hget r hr
      named := rfl
      below := rfl
      mem_children := fun child => by
        constructor
        · intro hchild
          obtain ⟨under, hunder, rfl⟩ := List.mem_map.mp hchild
          obtain ⟨hmem, hparent⟩ := List.mem_filter.mp hunder
          exact ⟨c.place under, hget under hmem, eq_of_beq hparent⟩
        · rintro ⟨under, hunder, hparent⟩
          obtain ⟨hmem, rfl⟩ := Forest.mem_of_get? hunder
          exact hsound.child_of_parent _ (List.mem_map_of_mem hr) under hmem hparent
      children := ⟨hlisted, hlisted.nodup hc.unique⟩
      top := fun hparent => by
        refine ⟨ancestorParams_top hparent, ?_⟩
        rw [collectionPath_eq, wayTo_top hparent, collectionSegments, basePathOf_top hparent]
      under := fun parent hparent => by
        obtain ⟨above, habove, rfl⟩ := hc.parents r hr parent hparent
        refine ⟨c.place above, hget above habove, hc.ancestorParams_under hr habove hparent, ?_⟩
        rw [hc.collectionPath_under hr habove hparent, collectionSegments,
          basePathOf_under hparent]
      line := ⟨line, hline, fun fuel hfuel => hc.lineage_eq hr hline hfuel,
        hc.pathParams_place hr hline⟩
      distinct := (nodup_pathNames hchecked hr).of_append_left }

/-- Notes under tasks under projects, the tasks behind a base path with an empty segment. -/
def notebook : Config :=
  ⟨"/api/", [{ name := "notes", parent := some "tasks" },
    { name := "tasks", parent := some "projects", basePath := some "v1//open" },
    { name := "projects" }]⟩

theorem placed_coherently_notes :
    notebook.check = .ok () ∧
    ∃ t notes, Forest.ofConfig notebook = .ok t ∧ t.get? "notes" = some notes ∧
      notes.collectionPath =
        "/api/projects/\x7bprojectsId\x7d/v1/open/tasks/\x7btasksId\x7d/notes" ∧
      notes.ancestorParams = ["projectsId", "tasksId"] ∧
      Resource.pathParams notes.collectionPath = notes.ancestorParams := by
  have hcheck : notebook.check = .ok () := by decide +kernel
  obtain ⟨t, ht, -, hplaced⟩ := placed_coherently hcheck
  obtain ⟨notes, hnotes⟩ := hplaced _ List.mem_cons_self
  have htree : Forest.ofConfig notebook = .ok ⟨notebook.resources.map notebook.place⟩ :=
    Forest.ofConfig_of_check (by decide +kernel)
  cases htree.symm.trans ht
  have hplace : (Forest.get? ⟨notebook.resources.map notebook.place⟩ "notes") =
      some (notebook.place { name := "notes", parent := some "tasks" }) := by decide +kernel
  cases hplace.symm.trans hnotes.found
  obtain ⟨line, -, hline, hparams⟩ := hnotes.line
  have hunbraced : notebook.Unbraced line := by
    rw [Unbraced, ← hline 3 (Nat.le_refl 3)]
    decide +kernel
  exact ⟨hcheck, _, _, ht, hnotes.found, by decide +kernel, by decide +kernel, hparams hunbraced⟩

end Config

end Grove
