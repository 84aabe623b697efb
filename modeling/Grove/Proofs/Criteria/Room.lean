import Grove.Proofs.Criteria.Restrict
import Grove.Proofs.Query.Printing

/-!
# Room for a query under a path

Criteria have so many levels at most, and a query may have all of them: the parser counts its
levels before anything else is known. A path that restricts something then puts its comparisons
and the query into one conjunction, and that is a level more. So a query that is accepted where
nothing restricts it is accepted under a path too if it leaves one level free, and is refused for
its depth if it does not (`runs_under_path_iff_room`). Nothing else about the path matters: its
comparisons have one level each, and their fields are of the names that filters take.
-/

namespace Grove

namespace Criteria

variable {c d : Criteria} {cs : List Criteria} {field : String}

theorem checkName_eq_ok_iff :
    checkName field = .ok () ↔ field ≠ "" ∧ field.toList.head? ≠ some '$' := by
  rw [checkName]
  split
  · next h => exact iff_of_false (by simp) fun hplain => hplain.1 h
  · next hne =>
      split
      · next h => exact iff_of_false (by simp) fun hplain => hplain.2 h
      · next h => exact iff_of_true rfl ⟨hne, h⟩

/-! ## The level of the conjunction -/

theorem levelsOfAll_append (cs ds : List Criteria) :
    levelsOfAll (cs ++ ds) = max (levelsOfAll cs) (levelsOfAll ds) := by
  induction cs with
  | nil => simp [levelsOfAll]
  | cons c cs ih => simp only [List.cons_append, levelsOfAll, ih, Nat.max_assoc]

/-- Comparisons and a query become one conjunction with the query at its end. -/
theorem restrict_allOf (hcs : ∀ d ∈ cs, ∃ field value, d = .eq field value) (hne : cs ≠ []) :
    restrict (allOf cs) (some c) = some (.logical .and (cs ++ [c])) := by
  match cs with
  | [] => exact absurd rfl hne
  | [d] =>
      obtain ⟨field, value, rfl⟩ := hcs d List.mem_cons_self
      rfl
  | d :: e :: rest => rfl

theorem levels_conjoined (hcs : ∀ d ∈ cs, ∃ field value, d = .eq field value) :
    (Criteria.logical .and (cs ++ [c])).levels = c.levels + 1 := by
  have hpath : levelsOfAll cs ≤ 1 := by
    refine levelsOfAll_le fun d hd => ?_
    obtain ⟨field, value, rfl⟩ := hcs d hd
    exact Nat.le_of_eq levels_eq
  have hc := levels_pos c
  rw [levels, levelsOfAll_append, levelsOfAll, levelsOfAll]
  omega

theorem toFilter_conjoined (hcs : ∀ d ∈ cs, ∃ filter, d.toFilter = .ok filter)
    (hc : ∃ filter, c.toFilter = .ok filter) :
    ∃ filter, (Criteria.logical .and (cs ++ [c])).toFilter = .ok filter := by
  obtain ⟨filters, hfilters⟩ :=
    toFilters_isOk.mpr (List.forall_mem_append.mpr ⟨hcs, List.forall_mem_singleton.mpr hc⟩)
  cases hoperands : cs ++ [c] with
  | nil => simp at hoperands
  | cons first rest =>
      rw [hoperands] at hfilters
      exact ⟨_, by simp only [toFilter, hfilters]; rfl⟩

theorem runs_of_toFilter (hvalues : c.EqualsValues) (hlevels : c.levels ≤ maxHeight)
    (h : ∃ filter, c.toFilter = .ok filter) :
    ∃ filter m, Criteria.filter (some c) = .ok filter ∧ Matcher.ofFilter filter = .ok m := by
  obtain ⟨filter, hfilter⟩ := h
  have hfiltered : Criteria.filter (some c) = .ok filter := by
    rw [Criteria.filter, (checkHeight_eq_ok_iff c).mpr hlevels, hfilter]
    rfl
  obtain ⟨m, hm, -⟩ := ofFilter_filter hfiltered hvalues
  exact ⟨filter, m, hfiltered, hm⟩

theorem filter_of_tooDeep (h : maxHeight < c.levels) :
    Criteria.filter (some c) = .error (.tooDeep c.levels) := by
  have hheight : c.checkHeight = .error (.tooDeep c.levels) := by
    rw [checkHeight, height_eq_levels, if_pos h]
  rw [Criteria.filter, hheight]
  rfl

/-- A query that can be read is put under the path as it is read. -/
theorem withQuery_of_parse {q : String} (h : Query.parse q = .ok c) (path : Option Criteria) :
    withQuery path (some q) = .ok (restrict path (some c)) := by
  have htrim := Query.parse_trim_iff.mpr h
  have hne : Text.trim q ≠ "" := by
    intro hempty
    rw [hempty] at htrim
    cases htrim
  have hasked : ((some q).map Text.trim).filter (· ≠ "") = some (Text.trim q) := by
    simp [hne]
  rw [withQuery, hasked]
  simp only [htrim]

end Criteria

namespace Query

def spaced (c : Criteria) : String :=
  String.ofList ([' '].intercalate ((tokens c).map Token.spelling))

theorem parse_spaced {c : Criteria} (hc : Printable c) (hlevels : c.levels ≤ Criteria.maxHeight) :
    parse (spaced c) = .ok c := by
  have hderives : Derives Criteria.maxHeight (tokens c) c :=
    derives_tokens c Criteria.maxHeight hc (Nat.le_succ_of_le hlevels)
  have hne : (tokens c).map Token.spelling ≠ [] := by
    intro hnil
    rw [List.map_eq_nil_iff] at hnil
    rw [hnil] at hderives
    exact not_derives_nil hderives
  have hscan : Token.scan (spaced c) = .ok (tokens c) := by
    refine (scans_of_spaced (legible_tokens c hc) ?_).scan
    rw [spaced, String.toList_ofList]
    exact spaced_intercalate (by decide) (List.all_eq_true.mp (by decide)) hne
  exact parse_eq_ok.mpr ⟨tokens c, hscan, hderives, hlevels⟩

end Query

namespace Resource

open Criteria (maxHeight)

variable {r : Resource} {params : Params} {q : String} {c : Criteria}

theorem eq_of_mem_pathFactors :
    ∀ d ∈ r.pathFactors params, ∃ field value, d = Criteria.eq field value :=
  forall_mem_pathFactors.mpr fun _ _ _ _ => ⟨_, _, rfl⟩

theorem pathFactors_eq_nil_iff :
    r.pathFactors params = [] ↔ ∀ name ∈ r.pathNames, params.lookup name = none := by
  rw [← pathRestriction_eq_none_iff, pathRestriction, Criteria.allOf_eq_none_iff]

/-- Under a path that restricts something, a query has a level more than on its own. -/
theorem withQuery_conjoined (hparse : Query.parse q = .ok c)
    (hpath : ∃ name ∈ r.pathNames, params.lookup name ≠ none) :
    Criteria.withQuery (r.pathRestriction params) (some q) =
        .ok (some (.logical .and (r.pathFactors params ++ [c]))) ∧
      (Criteria.logical .and (r.pathFactors params ++ [c])).levels = c.levels + 1 := by
  have hne : r.pathFactors params ≠ [] := by
    rw [Ne, pathFactors_eq_nil_iff]
    obtain ⟨name, hname, hvalue⟩ := hpath
    exact fun hnone => hvalue (hnone name hname)
  rw [Criteria.withQuery_of_parse hparse, pathRestriction,
    Criteria.restrict_allOf eq_of_mem_pathFactors hne]
  exact ⟨rfl, Criteria.levels_conjoined eq_of_mem_pathFactors⟩

/-- A query that runs on its own runs under a path too, unless the path restricts something and
the query has as many levels as there may be. Then what they make together is refused, for one
level too many. -/
theorem runs_under_path_iff_room
    (hplain : ∀ name ∈ r.pathNames,
      r.fieldOf name ≠ "" ∧ (r.fieldOf name).toList.head? ≠ some '$')
    (params : Params) (hparse : Query.parse q = .ok c) {filter : Json}
    (hfilter : Criteria.filter (some c) = .ok filter) :
    ∃ merged, Criteria.withQuery (r.pathRestriction params) (some q) = .ok (some merged) ∧
      ((∀ name ∈ r.pathNames, params.lookup name = none) ∨ c.height < maxHeight →
        ∃ filter m, Criteria.filter (some merged) = .ok filter ∧
          Matcher.ofFilter filter = .ok m) ∧
      ((∃ name ∈ r.pathNames, params.lookup name ≠ none) → c.height = maxHeight →
        Criteria.filter (some merged) = .error (.tooDeep (maxHeight + 1))) := by
  have hvalues := (Query.asked_of_parse hparse).equalsValues
  obtain ⟨htoFilter, hlevels⟩ := Criteria.filter_eq_ok hfilter
  rw [Criteria.height_eq_levels]
  by_cases hpath : ∃ name ∈ r.pathNames, params.lookup name ≠ none
  · obtain ⟨hmerged, hmore⟩ := withQuery_conjoined hparse hpath
    refine ⟨_, hmerged, fun hroom => ?_, fun _ hfull => ?_⟩
    · have hless : c.levels < maxHeight := by
        obtain ⟨name, hname, hvalue⟩ := hpath
        exact hroom.resolve_left fun hnone => hvalue (hnone name hname)
      refine Criteria.runs_of_toFilter ?_ (by omega) (Criteria.toFilter_conjoined ?_ ⟨_, htoFilter⟩)
      · refine (Criteria.conjunctive_equalsValues _).mpr (List.forall_mem_append.mpr ⟨?_, ?_⟩)
        · exact equalsValues_of_pathFactors
        · exact List.forall_mem_singleton.mpr hvalues
      · refine forall_mem_pathFactors.mpr fun name hname _ _ => ?_
        exact Criteria.toFilter_eq_isOk.mpr (Criteria.checkName_eq_ok_iff.mpr (hplain name hname))
    · rw [Criteria.filter_of_tooDeep (by omega), hmore, hfull]
  · have hnone : ∀ name ∈ r.pathNames, params.lookup name = none :=
      fun name hname => Decidable.not_not.mp fun hvalue => hpath ⟨name, hname, hvalue⟩
    refine ⟨c, ?_, fun _ => ?_, fun h => absurd h hpath⟩
    · rw [Criteria.withQuery_of_parse hparse, pathRestriction_eq_none_iff.mpr hnone]
      rfl
    · exact Criteria.runs_of_toFilter hvalues hlevels ⟨_, htoFilter⟩

def tower : Nat → Criteria
  | 0 => .eq "a" (.ofInt 1)
  | n + 1 => .logical .and [.eq "a" (.ofInt 1), tower n]

theorem levels_tower (n : Nat) : (tower n).levels = n + 1 := by
  induction n with
  | zero => rfl
  | succ n ih =>
      have hleaf : (Criteria.eq "a" (.ofInt 1)).levels = 1 := Criteria.levels_eq
      simp only [tower, Criteria.levels, Criteria.levelsOfAll, hleaf, ih]
      omega

theorem printable_tower (n : Nat) : Query.Printable (tower n) := by
  have hleaf : Query.Printable (.eq "a" (.ofInt 1)) :=
    ⟨by decide, 1, rfl, by decide, by decide⟩
  cases n with
  | zero => exact hleaf
  | succ n => exact ⟨Nat.le_refl 2, hleaf, printable_tower n, trivial⟩

theorem filter_tower {n : Nat} (hn : n < maxHeight) :
    ∃ filter, Criteria.filter (some (tower n)) = .ok filter := by
  have htoFilter : ∀ n, ∃ filter, (tower n).toFilter = .ok filter := by
    have hleaf : ∃ filter, (Criteria.eq "a" (.ofInt 1)).toFilter = .ok filter := ⟨_, rfl⟩
    intro n
    induction n with
    | zero => exact hleaf
    | succ n ih => exact Criteria.toFilter_conjoined (List.forall_mem_singleton.mpr hleaf) ih
  obtain ⟨filter, hfilter⟩ := htoFilter n
  have hheight : (tower n).checkHeight = .ok () :=
    (Criteria.checkHeight_eq_ok_iff _).mpr (by rw [levels_tower]; omega)
  exact ⟨filter, by rw [Criteria.filter, hheight, hfilter]; rfl⟩

def accountLogins : Resource :=
  { (default : Resource) with
    name := "logins", keys := ⟨"uuid", true⟩, ancestorParams := ["accountsId"] }

theorem pathNames_accountLogins : accountLogins.pathNames = ["accountsId", "loginsId"] := by
  decide +kernel

theorem plain_accountLogins : ∀ name ∈ accountLogins.pathNames,
    accountLogins.fieldOf name ≠ "" ∧ (accountLogins.fieldOf name).toList.head? ≠ some '$' := by
  rw [pathNames_accountLogins]
  decide +kernel

/-- A query with one level to spare still runs under a path of two parameters. -/
theorem runs_under_path_iff_room_tower :
    let params : Params := [("accountsId", "A1"), ("loginsId", "L1")]
    ∃ q merged filter m, Query.parse q = .ok (tower 62) ∧ (tower 62).height = 63 ∧
      Criteria.withQuery (accountLogins.pathRestriction params) (some q) = .ok (some merged) ∧
      Criteria.filter (some merged) = .ok filter ∧ Matcher.ofFilter filter = .ok m := by
  intro params
  have hheight : (tower 62).height = 63 := by rw [Criteria.height_eq_levels, levels_tower]
  have hparse := Query.parse_spaced (printable_tower 62) (by rw [levels_tower]; decide)
  obtain ⟨filter, hfilter⟩ := filter_tower (by decide : 62 < maxHeight)
  obtain ⟨merged, hmerged, hruns, -⟩ :=
    runs_under_path_iff_room plain_accountLogins params hparse hfilter
  obtain ⟨filter', m, hfilter', hm⟩ := hruns (.inr (by rw [hheight]; decide))
  exact ⟨_, merged, filter', m, hparse, hheight, hmerged, hfilter', hm⟩

/-- With all the levels that there may be, a query that runs on its own is refused under a
path. -/
theorem full_query_refused_under_path :
    ¬ ∀ (r : Resource) (params : Params) (q : String) (c : Criteria) (filter : Json),
      (∀ name ∈ r.pathNames,
        r.fieldOf name ≠ "" ∧ (r.fieldOf name).toList.head? ≠ some '$') →
      Query.parse q = .ok c → Criteria.filter (some c) = .ok filter →
      ∃ merged filter m, Criteria.withQuery (r.pathRestriction params) (some q) = .ok merged ∧
        Criteria.filter merged = .ok filter ∧ Matcher.ofFilter filter = .ok m := by
  intro h
  have hparse := Query.parse_spaced (printable_tower 63) (by rw [levels_tower]; decide)
  obtain ⟨filter, hfilter⟩ := filter_tower (by decide : 63 < maxHeight)
  obtain ⟨merged, filter', m, hmerged, hfilter', -⟩ :=
    h accountLogins [("accountsId", "A1")] _ _ filter plain_accountLogins hparse hfilter
  have hpath : ∃ name ∈ accountLogins.pathNames,
      List.lookup name [("accountsId", "A1")] ≠ none := by
    rw [pathNames_accountLogins]
    exact ⟨"accountsId", List.mem_cons_self, nofun⟩
  obtain ⟨hconjoined, hlevels⟩ := withQuery_conjoined hparse hpath
  rw [hconjoined] at hmerged
  cases hmerged
  rw [Criteria.filter_of_tooDeep (by rw [hlevels, levels_tower]; decide)] at hfilter'
  cases hfilter'

end Resource

end Grove
