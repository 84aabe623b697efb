import Grove.Http.Server
import Grove.Proofs.Resource.Placement

/-!
# Patterns that do not collide

Two patterns that differ only in the names of their parameters take the same paths, and a router
refuses one of them or sends requests astray. That the patterns of a tree differ in more than that
is due to their ends: the pattern of a collection ends with the name of the resource, that of its
records with one segment more (`nodup_map_segments`). Nothing is asked of base paths for this.

Where patterns agree for a while, a parameter that comes next has one name in both. Every parameter
stands right after the segment of the resource whose records it names (`Owned`), so the name can be
read off the segment before it, and segments that agree name it alike (`Owned.eq_of_shape`). For
this no base path may bring in parameters of its own.
-/

namespace Grove

open Http (Route RouteSegment Endpoint)

/-- What a segment of a pattern takes: its own text, any one segment, or all that is left. -/
inductive PatternSegment where
  | literal (text : String)
  | param (name : String)
  | remainder (name : String)
deriving DecidableEq

namespace PatternSegment

/-- The first character of a segment says which it is. -/
def read (segment : String) : PatternSegment :=
  match segment.toList with
  | ':' :: name => .param (String.ofList name)
  | '*' :: name => .remainder (String.ofList name)
  | _ => .literal segment

def isParam : PatternSegment → Bool
  | literal _ => false
  | param _ | remainder _ => true

/-- The segment without the name of its parameter. -/
def shape : PatternSegment → PatternSegment
  | literal text => literal text
  | param _ => param ""
  | remainder _ => remainder ""

theorem read_colon (name : String) : read (":" ++ name) = param name := by
  have hchars : (":" ++ name).toList = ':' :: name.toList := by simp
  rw [read, hchars]
  simp

theorem read_of_head? {segment : String} (hcolon : segment.toList.head? ≠ some ':')
    (hstar : segment.toList.head? ≠ some '*') : read segment = literal segment := by
  unfold read
  split
  · next name hchars => exact absurd (by rw [hchars]; rfl) hcolon
  · next name hchars => exact absurd (by rw [hchars]; rfl) hstar
  · rfl

end PatternSegment

def patternOf (path : String) : List PatternSegment :=
  (Text.split '/' (routePattern path)).map PatternSegment.read

/-- The patterns of a tree: for each resource that of its collection and that of its records. -/
def Forest.patterns (t : Forest) : List (List PatternSegment) :=
  t.resources.flatMap fun r => [patternOf r.collectionPath, patternOf r.recordPath]

def Http.RouteSegment.shape (segment : RouteSegment) : String × Bool :=
  (segment.literal, segment.param.isSome)

theorem routeSegment_of_not_has {segment : String} (h : Text.has segment '\x7b' = false) :
    routeSegment segment = segment := by
  unfold routeSegment
  split
  · next rest hchars => simp [Text.has, hchars] at h
  · rfl

/-! ## Parameters by what stands before them -/

/-- Every parameter stands after the name of the resource whose records it names. The first
argument is the literal segment before these, if there is one. -/
inductive Owned : Option String → List PatternSegment → Prop
  | nil {before : Option String} : Owned before []
  | literal {before : Option String} {text : String} {rest : List PatternSegment}
      (h : Owned (some text) rest) : Owned before (.literal text :: rest)
  | param {name : String} {rest : List PatternSegment} (h : Owned none rest) :
      Owned (some name) (.param (Resource.keyParam name) :: rest)

namespace Owned

variable {before : Option String} {p q : List PatternSegment}

/-- Segments alike but for names have the same names. -/
theorem eq_of_shape (hp : Owned before p) (hq : Owned before q)
    (h : p.map PatternSegment.shape = q.map PatternSegment.shape) : p = q := by
  induction hp generalizing q with
  | nil => exact (List.map_eq_nil_iff.mp h.symm).symm
  | literal _ ih =>
      cases hq with
      | nil => cases h
      | literal hq =>
          simp only [List.map_cons, PatternSegment.shape, List.cons.injEq,
            PatternSegment.literal.injEq] at h
          obtain ⟨rfl, h⟩ := h
          rw [ih hq h]
      | param hq => simp [PatternSegment.shape] at h
  | param _ ih =>
      cases hq with
      | nil => cases h
      | literal hq => simp [PatternSegment.shape] at h
      | param hq => rw [ih hq (List.cons.inj h).2]

theorem shape_of_isParam (h : Owned before p) {a : PatternSegment} (ha : a ∈ p)
    (hparam : a.isParam = true) : a.shape = .param "" := by
  induction h with
  | nil => cases ha
  | literal _ ih =>
      rcases List.mem_cons.mp ha with rfl | ha
      · cases hparam
      · exact ih ha
  | param _ ih =>
      rcases List.mem_cons.mp ha with rfl | ha
      · rfl
      · exact ih ha

theorem of_append (h : Owned before (p ++ q)) : Owned before p := by
  induction p generalizing before with
  | nil => exact .nil
  | cons a p ih =>
      cases h with
      | literal h => exact .literal (ih h)
      | param h => exact .param (ih h)

/-- Where two lists are alike so far and go on with a parameter, it is the same parameter. -/
theorem same_param {first first' rest rest' : List PatternSegment} {a b : PatternSegment}
    (hp : Owned before (first ++ a :: rest)) (hq : Owned before (first' ++ b :: rest'))
    (h : first.map PatternSegment.shape = first'.map PatternSegment.shape)
    (ha : a.isParam = true) (hb : b.isParam = true) : first = first' ∧ a = b := by
  have hshape : a.shape = b.shape := by
    rw [hp.shape_of_isParam (by simp) ha, hq.shape_of_isParam (by simp) hb]
  rw [List.append_cons] at hp hq
  have hsame := hp.of_append.eq_of_shape hq.of_append (by simp [h, hshape])
  obtain ⟨hfirst, hlast⟩ := List.append_inj' hsame rfl
  exact ⟨hfirst, (List.cons.inj hlast).1⟩

theorem append {name : String} (hp : Owned before (p ++ [.literal name]))
    (hq : Owned (some name) q) : Owned before (p ++ .literal name :: q) := by
  induction p generalizing before with
  | nil => exact .literal hq
  | cons a p ih =>
      cases hp with
      | literal hp => exact .literal (ih hp)
      | param hp => exact .param (ih hp)

theorem of_literals (texts : List String) (last : String) :
    Owned before (texts.map .literal ++ [.literal last]) := by
  induction texts generalizing before with
  | nil => exact .literal .nil
  | cons text texts ih => exact .literal ih

end Owned

namespace Config

variable {c : Config} {r : ResourceEntry}

/-- Base paths and names bring no parameters into patterns. -/
structure PlainSegments (c : Config) : Prop where
  bases : ∀ r ∈ c.resources, ∀ segment ∈ nonEmptySegments (c.basePathOf r),
    Text.has segment '\x7b' = false ∧ segment.toList.head? ≠ some ':' ∧
      segment.toList.head? ≠ some '*'
  names : ∀ r ∈ c.resources, r.name.toList.head? ≠ some '*'

def patternSegment (segment : String) : PatternSegment :=
  PatternSegment.read (routeSegment segment)

theorem patternSegment_braced (param : String) :
    patternSegment (Resource.braced param) = .param param := by
  rw [patternSegment, routeSegment_braced, PatternSegment.read_colon]

theorem head?_ne_of_not_has {segment : String} {ch : Char} (h : Text.has segment ch = false) :
    segment.toList.head? ≠ some ch := fun he => by
  have hmem := List.mem_of_head? he
  simp [Text.has] at h
  exact h hmem

theorem map_patternSegment_collectionSegments (hc : c.Checked) (hplain : c.PlainSegments)
    (hr : r ∈ c.resources) :
    (c.collectionSegments r).map patternSegment =
      (c.collectionSegments r).map PatternSegment.literal := by
  refine List.map_congr_left fun segment hsegment => ?_
  rcases List.mem_append.mp hsegment with hbase | hname
  · obtain ⟨hbrace, hcolon, hstar⟩ := hplain.bases r hr segment hbase
    rw [patternSegment, routeSegment_of_not_has hbrace, PatternSegment.read_of_head? hcolon hstar]
  · obtain rfl := List.mem_singleton.mp hname
    obtain ⟨-, hbrace, hcolon⟩ := has_name (hc.segments r hr)
    rw [patternSegment, routeSegment_of_not_has hbrace,
      PatternSegment.read_of_head? (head?_ne_of_not_has hcolon) (hplain.names r hr)]

/-- The pattern of a way ends with the name of the resource, and its parameters are owned. -/
theorem IsForest.owned_wayTo (hc : c.IsForest) (hplain : c.PlainSegments) (hr : r ∈ c.resources)
    (before : Option String) :
    ∃ init, (c.wayTo r).map patternSegment = init ++ [.literal r.name] ∧
      Owned before (init ++ [.literal r.name]) := by
  have hchecked := checked_of_check ((check_iff_isForest c).mpr hc)
  have hown : ∀ {r : ResourceEntry}, r ∈ c.resources →
      (c.collectionSegments r).map patternSegment =
        (nonEmptySegments (c.basePathOf r)).map .literal ++ [.literal r.name] := fun hr => by
    rw [map_patternSegment_collectionSegments hchecked hplain hr, collectionSegments,
      List.map_append, List.map_singleton]
  have hrooted := hc.rooted r hr
  induction hrooted with
  | @top r hparent =>
      exact ⟨_, by rw [wayTo_top hparent, hown hr], .of_literals _ _⟩
  | @under r above hparent habove h ih =>
      obtain ⟨init, hway, howned⟩ := ih habove
      refine ⟨init ++ .literal above.name :: .param (Resource.keyParam above.name) ::
        (nonEmptySegments (c.basePathOf r)).map .literal, ?_, ?_⟩
      · rw [hc.wayTo_under hr habove hparent, List.map_append, List.map_cons, hway, hown hr,
          patternSegment_braced]
        simp
      · rw [List.append_assoc]
        exact howned.append (.param (.of_literals _ _))

/-- The segments of a pattern are those of the way, behind an empty one. -/
theorem IsForest.split_collectionPath (hc : c.IsForest) (hr : r ∈ c.resources) :
    Text.split '/' (routePattern (c.place r).collectionPath) =
      ("" :: c.wayTo r).map routeSegment := by
  have hchecked := checked_of_check ((check_iff_isForest c).mpr hc)
  rw [collectionPath_eq, split_routePattern (hc.wayTo_ne_nil hr)
    (hc.forall_mem_wayTo (fun r hr => has_itemSegments hchecked hr) hr)]

theorem IsForest.split_recordPath (hc : c.IsForest) (hr : r ∈ c.resources) :
    Text.split '/' (routePattern (c.place r).recordPath) =
      ("" :: c.wayTo r).map routeSegment ++ [":" ++ Resource.keyParam r.name] := by
  have hchecked := checked_of_check ((check_iff_isForest c).mpr hc)
  have hslash := hc.forall_mem_wayTo (fun r hr => has_itemSegments hchecked hr) hr
  have hown := has_itemSegments hchecked hr _
    (List.mem_append_right _ (List.mem_singleton_self _))
  rw [hc.recordPath_eq hr, split_routePattern (by simp)
    (List.forall_mem_append.mpr ⟨hslash, List.forall_mem_singleton.mpr hown⟩)]
  simp [routeSegment_braced]

theorem IsForest.owned_patterns (hc : c.IsForest) (hplain : c.PlainSegments)
    (hr : r ∈ c.resources) :
    Owned none (patternOf (c.place r).collectionPath) ∧
      Owned none (patternOf (c.place r).recordPath) := by
  obtain ⟨init, hway, howned⟩ := hc.owned_wayTo hplain hr (some "")
  have hpattern : (("" :: c.wayTo r).map routeSegment).map PatternSegment.read =
      .literal "" :: init ++ [.literal r.name] := by
    rw [List.map_map, List.map_cons]
    exact congrArg (PatternSegment.literal "" :: ·) hway
  rw [patternOf, patternOf, hc.split_collectionPath hr, hc.split_recordPath hr,
    List.map_append, hpattern, List.map_singleton, PatternSegment.read_colon]
  refine ⟨.literal howned, ?_⟩
  rw [List.append_assoc]
  exact .literal (howned.append (.param .nil))

/-! ## Ends -/

theorem IsForest.wayTo_eq_append (hc : c.IsForest) (hr : r ∈ c.resources) :
    ∃ init, c.wayTo r = init ++ [r.name] := by
  cases hc.rooted r hr with
  | top hparent => exact ⟨_, wayTo_top hparent⟩
  | @under r above hparent habove h =>
      refine ⟨c.wayTo above ++ Resource.braced (Resource.keyParam above.name) ::
        nonEmptySegments (c.basePathOf r), ?_⟩
      rw [hc.wayTo_under hr habove hparent, collectionSegments]
      simp

/-- However segments are read, the patterns of a tree come out different if the names of
resources do, and none of them comes out like a parameter. -/
theorem IsForest.nodup_map_segments {β : Type} (hc : c.IsForest) (read : String → β)
    (hname : ∀ r ∈ c.resources, ∀ s ∈ c.resources, read r.name = read s.name → r.name = s.name)
    (hparam : ∀ r ∈ c.resources, ∀ s ∈ c.resources,
      read r.name ≠ read (":" ++ Resource.keyParam s.name)) :
    (c.resources.flatMap fun r => [(c.place r).collectionPath, (c.place r).recordPath].map
      fun path => (Text.split '/' (routePattern path)).map read).Nodup := by
  have hchecked := checked_of_check ((check_iff_isForest c).mpr hc)
  -- the last segment of a collection's pattern, and what is left of a record's without its last
  have hends : ∀ r ∈ c.resources, ∃ way : List β,
      (Text.split '/' (routePattern (c.place r).collectionPath)).map read =
        way ++ [read r.name] ∧
      (Text.split '/' (routePattern (c.place r).recordPath)).map read =
        way ++ [read r.name] ++ [read (":" ++ Resource.keyParam r.name)] := by
    intro r hr
    obtain ⟨init, hway⟩ := hc.wayTo_eq_append hr
    have hown : routeSegment r.name = r.name :=
      routeSegment_of_not_has (has_name (hchecked.segments r hr)).2.1
    refine ⟨(("" :: init).map routeSegment).map read, ?_, ?_⟩
    · rw [hc.split_collectionPath hr, hway]
      simp [hown]
    · rw [hc.split_recordPath hr, hway]
      simp [hown]
  rw [List.nodup_flatMap]
  constructor
  · intro r hr
    obtain ⟨way, hcollection, hrecord⟩ := hends r hr
    simp only [List.map_cons, List.map_nil, hcollection, hrecord]
    simp
  · have hnames : c.resources.Pairwise fun r s => r.name ≠ s.name :=
      List.pairwise_map.mp hc.unique
    refine hnames.imp_of_mem fun {r s} hr hs hne => ?_
    obtain ⟨way, hcollection, hrecord⟩ := hends r hr
    obtain ⟨way', hcollection', hrecord'⟩ := hends s hs
    simp only [Function.onFun, List.map_cons, List.map_nil, hcollection, hrecord, hcollection',
      hrecord']
    have hlast : ∀ {xs ys : List β} {x y : β}, x ≠ y → xs ++ [x] ≠ ys ++ [y] := fun hxy h =>
      hxy (List.cons.inj (List.append_inj' h rfl).2).1
    have hread : read r.name ≠ read s.name := fun h => hne (hname r hr s hs h)
    simp only [List.disjoint_left, List.mem_cons, List.not_mem_nil, or_false]
    rintro pattern (rfl | rfl) (h | h)
    · exact hlast hread h
    · exact hlast (hparam r hr s hs) h
    · exact hlast (hparam s hs r hr).symm h
    · exact hlast hread (List.append_inj' h rfl).1

end Config

/-- No two patterns of a tree are alike but for the names of parameters, and where two are alike
so far and go on with a parameter, both have been the same and it is the same parameter. The
routes that the service reads from the patterns are told apart as well, whatever base paths are
made of. -/
theorem patterns_never_collide {c : Config} {t : Forest} (ht : Forest.ofConfig c = .ok t)
    (hplain : c.PlainSegments) :
    (t.patterns.map (·.map PatternSegment.shape)).Nodup ∧
    (∀ p ∈ t.patterns, ∀ q ∈ t.patterns, ∀ before a rest before' b rest',
      p = before ++ a :: rest → q = before' ++ b :: rest' →
      before.map PatternSegment.shape = before'.map PatternSegment.shape →
      a.isParam = true → b.isParam = true → before = before' ∧ a = b) ∧
    ((t.resources.flatMap Endpoint.ofResource).map (·.1.map RouteSegment.shape)).Nodup := by
  obtain ⟨hchecked, hresources⟩ := Forest.ofConfig_eq_ok ht
  obtain ⟨⟨⟩, hcheck, -⟩ := bind_eq_ok.mp ht
  have hc := (Config.check_iff_isForest c).mp hcheck
  have hcolon : ∀ r ∈ c.resources, Text.has r.name ':' = false := fun r hr =>
    (Config.has_name (hchecked.segments r hr)).2.2
  have hpatterns : ∀ p ∈ t.patterns, Owned none p := by
    intro p hp
    rw [Forest.patterns, hresources, List.flatMap_map] at hp
    obtain ⟨r, hr, hp⟩ := List.mem_flatMap.mp hp
    obtain ⟨hcollection, hrecord⟩ := hc.owned_patterns hplain hr
    rcases List.mem_cons.mp hp with rfl | hp
    · exact hcollection
    · rwa [List.mem_singleton.mp hp]
  refine ⟨?_, ?_, ?_⟩
  · have hname : ∀ r ∈ c.resources, (PatternSegment.read r.name).shape = .literal r.name :=
      fun r hr => by
        rw [PatternSegment.read_of_head? (Config.head?_ne_of_not_has (hcolon r hr))
          (hplain.names r hr), PatternSegment.shape]
    have hends := hc.nodup_map_segments (fun segment => (PatternSegment.read segment).shape)
      (fun r hr s hs h => by simpa [hname r hr, hname s hs] using h)
      (fun r hr s hs => by
        rw [hname r hr, PatternSegment.read_colon, PatternSegment.shape]
        nofun)
    simpa [Forest.patterns, hresources, List.flatMap_map, List.map_flatMap, patternOf,
      Function.comp_def] using hends
  · rintro p hp q hq before a rest before' b rest' rfl rfl hshape ha hb
    exact (hpatterns _ hp).same_param (hpatterns _ hq) hshape ha hb
  · have hends := hc.nodup_map_segments (fun segment => (RouteSegment.read segment).shape)
      (fun r hr s hs h => by
        simpa [read_of_not_has, hcolon r hr, hcolon s hs, RouteSegment.shape] using h)
      (fun r hr s hs => by
        rw [read_of_not_has (hcolon r hr), read_colon]
        simp [RouteSegment.shape])
    simpa [hresources, List.flatMap_map, List.map_flatMap, Endpoint.ofResource, Route.read,
      Function.comp_def] using hends

/-- Tasks come after a base path that is called like another child of their parent, so that three
patterns go on from the parent's record with the same segment. -/
theorem patterns_never_collide_open :
    let c : Config := ⟨"/api", [{ name := "projects" },
      { name := "tasks", parent := some "projects", basePath := some "open" },
      { name := "open", parent := some "projects" }]⟩
    let record := [PatternSegment.literal "", .literal "api", .literal "projects"]
    ∃ t, Forest.ofConfig c = .ok t ∧ c.PlainSegments ∧ t.patterns.length = 6 ∧
      (t.patterns.map (·.map PatternSegment.shape)).Nodup ∧
      record ++ [.param "projectsId", .literal "open", .literal "tasks"] ∈ t.patterns ∧
      record ++ [.param "projectsId", .literal "open", .param "openId"] ∈ t.patterns ∧
      ∀ name rest, record ++ .param name :: rest ∈ t.patterns → name = "projectsId" := by
  intro c record
  have ht : Forest.ofConfig c = .ok ⟨c.resources.map c.place⟩ :=
    Forest.ofConfig_of_check (by decide +kernel)
  have hplain : c.PlainSegments := ⟨by decide +kernel, by decide +kernel⟩
  have htasks : record ++ [.param "projectsId", .literal "open", .literal "tasks"] ∈
      Forest.patterns ⟨c.resources.map c.place⟩ := by decide +kernel
  obtain ⟨hnodup, hnames, -⟩ := patterns_never_collide ht hplain
  have hcount : (Forest.patterns ⟨c.resources.map c.place⟩).length = 6 := by decide +kernel
  refine ⟨_, ht, hplain, hcount, hnodup, htasks, by decide +kernel, fun name rest h => ?_⟩
  obtain ⟨-, hsame⟩ := hnames _ h _ htasks record _ rest record _ _ rfl rfl rfl rfl rfl
  exact PatternSegment.param.inj hsame

end Grove
