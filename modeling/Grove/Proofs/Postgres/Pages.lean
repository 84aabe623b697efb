import Grove.Proofs.Document.Pages
import Grove.Proofs.Postgres.Contents
import Mathlib.Tactic.Choose

/-!
# Pages of a table

Each page of a list is a statement of its own, and the server puts the rows in order anew for each
of them. It has to keep to the keys that the statement names, and is free where these do not tell
rows apart. So pages fit together, in that no row is on two of them and none is left out, exactly if
each page begins where the order says that one does: with a row that all the rows of the pages
before it are less than (`pages_fit_iff`). A statement without keys is ordered by the primary key,
which is different in all rows, and then every page does. One that names other keys is ordered by
those only.
-/

namespace Grove

open Postgres

variable {ω α : Type} {v : Values α} {s : TableStore} {c : Option Criteria} {w : Sql.Condition}
  {rows : List (List Cell)} {o : Paging}

namespace Postgres.Values

/-- The arrangements by sorting, with two rows exchanged in one of two states. -/
def exchanging (v : Values α) (place : Nat) : v.Arrangement Bool where
  arrange exchange table keys rows :=
    let sorted := rows.mergeSort fun row other => (v.compareByAll table keys row other).isLE
    if exchange then exchanged (v.compareByAll table keys) place sorted else sorted
  arranged exchange _ _ rows := by
    cases exchange with
    | false => exact arranged_mergeSort rows
    | true => exact (arranged_mergeSort rows).exchanged place

end Postgres.Values

namespace TableStore

def order (s : TableStore) (v : Values α) (o : Paging) : List Cell → List Cell → Ordering :=
  v.compareByAll s.table (Sql.orderOf o.sort s.keys.primaryKey)

instance : Std.TransCmp (s.order v o) :=
  inferInstanceAs (Std.TransCmp (v.compareByAll s.table (Sql.orderOf o.sort s.keys.primaryKey)))

/-- Whether a page begins within the range of offsets, or behind all rows. -/
def Reaches (o : Paging) (matching : List (List Cell)) (page : Nat) : Prop :=
  page * o.window.limit ≤ Text.maxUnsigned32 ∨ matching.length ≤ Text.maxUnsigned32

/-- Whatever servers choose that hold the rows, and whatever their states are for the statements of
the pages: rows on the first pages are rows that match, and each of them is there once. When the
pages are enough, all rows that match are there. -/
def PagesFit (s : TableStore) (v : Values α) (w : Sql.Condition) (rows : List (List Cell))
    (o : Paging) : Prop :=
  ∀ (ω : Type) (server : Server ω) (content : ω → Sql.Table → List (List Cell)) (pages : Nat)
    (states after : Nat → ω) (replies : Nat → Postgres.Reply), server.Keeps v content →
    (∀ page < pages, Reaches o (rows.filter (s.selects v w)) page ∧
      content (states page) s.table = rows ∧
      server.answer (.statement (s.selection w (o.turned page)).text
        (s.parameters (s.selection w (o.turned page)))) (states page) =
          (.ok (replies page), after page)) →
    let shown := (List.range pages).flatMap fun page => (replies page).rows
    shown.Nodup ∧ shown ⊆ rows.filter (s.selects v w) ∧
      ((rows.filter (s.selects v w)).length ≤ pages * o.window.limit →
        shown.Perm (rows.filter (s.selects v w)))

/-- A page is cut out of some arrangement of the rows that match. -/
theorem page_of_arranged {server : Server ω} {content : ω → Sql.Table → List (List Cell)}
    (hkeeps : server.Keeps v content) (hc : Criteria.condition c = .ok w)
    (ho : o.offset.getD 0 = 0) {page : Nat} {state after : ω} {reply : Postgres.Reply}
    (hreaches : Reaches o ((content state s.table).filter (s.selects v w)) page)
    (hanswer : server.answer (.statement (s.selection w (o.turned page)).text
      (s.parameters (s.selection w (o.turned page)))) state = (.ok reply, after)) :
    ∃ l, Arranged (s.order v o) ((content state s.table).filter (s.selects v w)) l ∧
      reply.rows = (l.drop (page * o.window.limit)).take o.window.limit := by
  obtain ⟨e, hrequest, hmeaning⟩ := Sql.Request.ofText_select (t := s.table) hc o.sort
    s.keys.primaryKey (o.turned page).window
  obtain ⟨l, harranged, hrows⟩ := hkeeps.select hrequest hanswer
  have hselects : v.selects s.table (s.parameters (s.selection w (o.turned page))) e =
      s.selects v w := s.selects_statement v hmeaning
  rw [hselects] at harranged
  refine ⟨l, harranged, ?_⟩
  rw [hrows, o.window_turned ho]
  rcases hreaches with hrange | hfew
  · rw [Nat.min_eq_left hrange]
    rfl
  · exact Window.cut_turned (harranged.perm.length_eq ▸ hfew) _ _

/-- The pages up to one are what is in front of the next in the arrangement of the last of them. -/
theorem shown_perm {server : Server ω} {content : ω → Sql.Table → List (List Cell)}
    (hkeeps : server.Keeps v content) (hc : Criteria.condition c = .ok w)
    (ho : o.offset.getD 0 = 0)
    (hparted : ∀ page, page * o.window.limit ≤ Text.maxUnsigned32 →
      Parted (s.order v o) (rows.filter (s.selects v w)) (page * o.window.limit))
    {pages : Nat} {states after : Nat → ω} {replies : Nat → Postgres.Reply}
    (hpages : ∀ page < pages, Reaches o (rows.filter (s.selects v w)) page ∧
      content (states page) s.table = rows ∧
      server.answer (.statement (s.selection w (o.turned page)).text
        (s.parameters (s.selection w (o.turned page)))) (states page) =
          (.ok (replies page), after page)) :
    ∃ l, Arranged (s.order v o) (rows.filter (s.selects v w)) l ∧
      ((List.range pages).flatMap fun page => (replies page).rows).Perm
        (l.take (pages * o.window.limit)) := by
  induction pages with
  | zero =>
      refine ⟨_, arranged_mergeSort _, ?_⟩
      rw [List.range_zero, List.flatMap_nil, Nat.zero_mul, List.take_zero]
  | succ pages ih =>
      obtain ⟨l, hl, hshown⟩ := ih fun page hpage => hpages page (Nat.lt_succ_of_lt hpage)
      obtain ⟨hreaches, hcontent, hanswer⟩ := hpages pages (Nat.lt_succ_self pages)
      obtain ⟨l', hl', hrows⟩ := page_of_arranged hkeeps hc ho (hcontent ▸ hreaches) hanswer
      rw [hcontent] at hl'
      have hhere : Parted (s.order v o) (rows.filter (s.selects v w)) (pages * o.window.limit) := by
        rcases Nat.le_total (pages * o.window.limit) Text.maxUnsigned32 with hrange | hbeyond
        · exact hparted pages hrange
        · rcases hreaches with hrange | hfew
          · exact hparted pages hrange
          · exact .inl (Nat.le_trans hfew hbeyond)
      refine ⟨l', hl', ?_⟩
      rw [List.range_succ, List.flatMap_append, List.flatMap_singleton, hrows, Nat.succ_mul,
        List.take_add]
      exact (hshown.trans (hl.take_perm hhere hl')).append_right _

theorem pagesFit_of_parted (hc : Criteria.condition c = .ok w) (ho : o.offset.getD 0 = 0)
    (hnodup : rows.Nodup)
    (hparted : ∀ page, page * o.window.limit ≤ Text.maxUnsigned32 →
      Parted (s.order v o) (rows.filter (s.selects v w)) (page * o.window.limit)) :
    s.PagesFit v w rows o := by
  intro ω server content pages states after replies hkeeps hpages shown
  obtain ⟨l, hl, hshown⟩ := shown_perm hkeeps hc ho hparted hpages
  refine ⟨?_, ?_, fun henough => ?_⟩
  · have hlist : l.Nodup := hl.perm.nodup_iff.mpr (hnodup.filter _)
    exact hshown.nodup_iff.mpr ((List.take_sublist _ l).nodup hlist)
  · intro row hrow
    exact hl.perm.mem_iff.mp (List.mem_of_mem_take (hshown.mem_iff.mp hrow))
  · rw [List.take_of_length_le (hl.perm.length_eq ▸ henough)] at hshown
    exact hshown.trans hl.perm

/-- What a server that may exchange two rows answers. -/
theorem page_of_exchanging (v : Values α) (s : TableStore) (rows : List (List Cell))
    (hc : Criteria.condition c = .ok w) (ho : o.offset.getD 0 = 0) (page : Nat)
    (hrange : page * o.window.limit ≤ Text.maxUnsigned32) (place : Nat) (exchange : Bool) :
    ∃ reply, (v.server (fun _ => rows) (v.exchanging place)).answer
        (.statement (s.selection w (o.turned page)).text
          (s.parameters (s.selection w (o.turned page)))) exchange = (.ok reply, exchange) ∧
      reply.rows = (((v.exchanging place).arrange exchange s.table
        (Sql.orderOf o.sort s.keys.primaryKey) (rows.filter (s.selects v w))).drop
          (page * o.window.limit)).take o.window.limit := by
  refine ⟨_, s.answer_selection v _ _ hc (o.turned page) exchange, ?_⟩
  rw [o.window_turned ho, Nat.min_eq_left hrange]
  rfl

/-- The last item in front of a page's begin is on the page before. -/
theorem mem_page_before {β : Type} {front back : List β} {a : β} {page size : Nat}
    (h : front.length + 1 = (page + 1) * size) (hsize : 0 < size) :
    a ∈ ((front ++ a :: back).drop (page * size)).take size := by
  rw [Nat.succ_mul] at h
  have hrest : size = (front.drop (page * size)).length + 1 := by
    rw [List.length_drop]
    omega
  have htake : ((front.drop (page * size)) ++ a :: back).take
      ((front.drop (page * size)).length + 1) = front.drop (page * size) ++ [a] := by
    rw [List.take_length_add_append]
    rfl
  rw [← hrest] at htake
  rw [List.drop_append_of_le_length (by omega), htake]
  exact List.mem_append_right _ (List.mem_singleton.mpr rfl)

/-- Where two rows on both sides of a page's begin are alike, a server may show one of them on
both pages. -/
theorem parted_of_pagesFit (hc : Criteria.condition c = .ok w) (ho : o.offset.getD 0 = 0)
    (hfit : s.PagesFit v w rows o) {page : Nat}
    (hrange : page * o.window.limit ≤ Text.maxUnsigned32) :
    Parted (s.order v o) (rows.filter (s.selects v w)) (page * o.window.limit) := by
  by_contra hnot
  have hlimit := o.window_limit_pos
  have harranged : Arranged (s.order v o) (rows.filter (s.selects v w)) _ := arranged_mergeSort _
  obtain ⟨front, a, b, back, hsplit, hlength, hba⟩ := harranged.exists_alike hnot
  obtain ⟨before, rfl⟩ : ∃ before, page = before + 1 := by
    refine Nat.exists_eq_succ_of_ne_zero fun hzero => ?_
    rw [hzero, Nat.zero_mul] at hlength
    cases hlength
  have hearlier {p : Nat} (hp : p ≤ before + 1) : p * o.window.limit ≤ Text.maxUnsigned32 :=
    Nat.le_trans (Nat.mul_le_mul_right _ hp) hrange
  -- the rows are exchanged for the page, and not for the ones before it
  have hanswers := fun p (hp : p ≤ before + 1) =>
    page_of_exchanging v s rows hc ho p (hearlier hp) front.length (p == before + 1)
  choose! replies hreplies using hanswers
  have hshown := (hfit Bool _ (fun _ _ => rows) (before + 2) _ _ replies (v.keeps_server _ _)
    fun p hp => ⟨.inl (hearlier (Nat.le_of_lt_succ hp)), rfl,
      (hreplies p (Nat.le_of_lt_succ hp)).1⟩).1
  have hon : a ∈ (replies before).rows := by
    have hkept : (before == before + 1) = false := beq_false_of_ne (Nat.succ_ne_self before).symm
    rw [(hreplies before (Nat.le_succ before)).2, hkept]
    have hfront : a ∈ ((front ++ a :: b :: back).drop (before * o.window.limit)).take
        o.window.limit := mem_page_before hlength hlimit
    rw [← hsplit] at hfront
    exact hfront
  have hagain : a ∈ (replies (before + 1)).rows := by
    have hexchanged : exchanged (s.order v o) front.length (front ++ a :: b :: back) =
        front ++ b :: a :: back := by
      rw [exchanged, List.drop_left, List.take_left]
      exact if_pos hba
    have harrange : (v.exchanging front.length).arrange true s.table
        (Sql.orderOf o.sort s.keys.primaryKey) (rows.filter (s.selects v w)) =
          front ++ b :: a :: back :=
      (congrArg (exchanged (s.order v o) front.length) hsplit).trans hexchanged
    obtain ⟨size, hsize⟩ := Nat.exists_eq_succ_of_ne_zero (Nat.ne_of_gt hlimit)
    rw [(hreplies (before + 1) (Nat.le_refl _)).2, beq_self_eq_true, harrange, ← hlength,
      List.drop_length_add_append, hsize]
    exact List.mem_cons_self
  rw [List.range_succ, List.range_succ, List.flatMap_append, List.flatMap_append,
    List.flatMap_singleton, List.flatMap_singleton, List.nodup_append] at hshown
  exact hshown.2.2 a (List.mem_append_right _ hon) a hagain rfl

/-- The rows of a table with different keys that match are on the pages of a list, each of them on
one, whatever the server chooses, exactly if every page begins where a row does that is greater
than just the rows of the pages before it. This is so if no order is asked for or the primary key is
in it. A page that would begin beyond the range of offsets begins at its end, which does not matter
unless there are rows beyond. Queries answer with the records of the pages. -/
theorem pages_fit_iff (hc : Criteria.condition c = .ok w)
    (hdistinct : rows.Pairwise fun row other =>
      v.order (v.held s.table row s.keys.primaryKey) (v.held s.table other s.keys.primaryKey) ≠ .eq)
    (ho : o.offset.getD 0 = 0) :
    (s.PagesFit v w rows o ↔ ∀ page, page * o.window.limit ≤ Text.maxUnsigned32 →
      Parted (s.order v o) (rows.filter (s.selects v w)) (page * o.window.limit)) ∧
    ((o.sort = [] ∨ ∃ key ∈ o.sort, key.field = s.keys.primaryKey) → s.PagesFit v w rows o) ∧
    (∀ page, (o.turned page).window =
      ⟨o.window.limit, min (page * o.window.limit) Text.maxUnsigned32⟩) ∧
    ∀ (ω : Type) (server : Server ω) (g : Gateway ω) (page : Nat),
      (s.query server c (o.turned page)).outcome g =
        match server.answer (.statement (s.selection w (o.turned page)).text
          (s.parameters (s.selection w (o.turned page)))) g.world with
        | (.ok reply, world) => (.ok reply.records, { g with world })
        | (.error e, world) => (.error e.failure, { g with world }) := by
  have hnodup : rows.Nodup := by
    have := v.ordered
    refine hdistinct.imp fun hne heq => ?_
    rw [heq] at hne
    exact hne Std.ReflCmp.compare_self
  refine ⟨⟨fun hfit page hrange => parted_of_pagesFit hc ho hfit hrange,
    pagesFit_of_parted hc ho hnodup⟩, fun hsort => ?_, o.window_turned ho,
    fun _ server _ page => s.outcome_query server hc (o.turned page)⟩
  refine pagesFit_of_parted hc ho hnodup fun page _ => parted_of_distinct ?_ _
  refine List.Pairwise.filter _ (hdistinct.imp fun {row other} hne heq => hne ?_)
  obtain ⟨key, hkey, hfield⟩ : ∃ key ∈ Sql.orderOf o.sort s.keys.primaryKey,
      key.field = s.keys.primaryKey := by
    rcases hsort with hnone | ⟨key, hkey, hfield⟩
    · rw [hnone]
      exact ⟨_, List.mem_singleton.mpr rfl, rfl⟩
    · refine ⟨key, ?_, hfield⟩
      obtain ⟨first, rest, hsome⟩ := List.exists_cons_of_ne_nil (List.ne_nil_of_mem hkey)
      rw [hsome] at hkey ⊢
      exact hkey
  rw [← hfield]
  exact v.order_eq_of_compareByAll s.table heq hkey

/-- Two open accounts are on the first page and a closed one on the next. Ordered by the key, any
number of accounts would do. -/
theorem pages_fit_iff_states :
    let rows := [accountRow "a" "closed", accountRow "b" "open", accountRow "c" "open"]
    let o : Paging := { sort := [⟨"state", true⟩], limit := some 2 }
    Criteria.condition none = .ok .all ∧
    (rows.Pairwise fun row other => accountValues.order
      (accountValues.held accountTable.table row "uuid")
      (accountValues.held accountTable.table other "uuid") ≠ .eq) ∧
    o.offset.getD 0 = 0 ∧ accountTable.PagesFit accountValues .all rows o := by
  intro rows o
  have hdistinct : rows.Pairwise fun row other => accountValues.order
      (accountValues.held accountTable.table row "uuid")
      (accountValues.held accountTable.table other "uuid") ≠ .eq := by
    simp only [rows, List.pairwise_cons, List.forall_mem_cons]
    refine ⟨⟨by decide +kernel, by decide +kernel, nofun⟩, ⟨by decide +kernel, nofun⟩, nofun, .nil⟩
  refine ⟨rfl, hdistinct, rfl, ?_⟩
  refine (pages_fit_iff (s := accountTable) (c := none) rfl hdistinct rfl).1.mpr fun page _ => ?_
  match page with
  | 0 => exact .inr ⟨accountRow "b" "open", .tail _ (.head _), by decide +kernel⟩
  | 1 => exact .inr ⟨accountRow "a" "closed", .head _, by decide +kernel⟩
  | page + 2 =>
      refine .inl (Nat.le_trans (List.length_filter_le _ _) ?_)
      show 3 ≤ (page + 2) * 2
      omega

/-- Of two open accounts on pages of one, ordered by their states, a server that may choose shows
one on both pages and the other on none. -/
theorem row_on_both_pages :
    let rows := [accountRow "a" "open", accountRow "b" "open"]
    let o : Paging := { sort := [⟨"state", false⟩], limit := some 1 }
    let sent (page : Nat) : Sent :=
      .statement (accountTable.selection .all (o.turned page)).text
        (accountTable.parameters (accountTable.selection .all (o.turned page)))
    Criteria.condition none = .ok .all ∧
    rows.filter (accountTable.selects accountValues .all) = rows ∧
    ∃ (server : Server Bool) (first second : Postgres.Reply),
      server.Keeps accountValues (fun _ _ => rows) ∧
      server.answer (sent 0) false = (.ok first, false) ∧
      server.answer (sent 1) true = (.ok second, true) ∧
      first.rows = [accountRow "a" "open"] ∧ second.rows = [accountRow "a" "open"] := by
  intro rows o sent
  have hmatching : rows.filter (accountTable.selects accountValues .all) = rows := rfl
  have hsorted : (rows.mergeSort fun row other =>
      (accountTable.order accountValues o row other).isLE) = rows :=
    List.mergeSort_of_pairwise (by
      simp only [rows, List.pairwise_cons, List.forall_mem_cons]
      exact ⟨⟨by decide +kernel, nofun⟩, nofun, .nil⟩)
  have hexchanged : exchanged (accountTable.order accountValues o) 0 rows =
      [accountRow "b" "open", accountRow "a" "open"] := by
    have halike : (accountTable.order accountValues o (accountRow "b" "open")
        (accountRow "a" "open")).isLE = true := by decide +kernel
    simp only [rows, exchanged, List.drop_zero, List.take_zero, halike, if_true, List.nil_append]
  have hall : Criteria.condition none = .ok .all := rfl
  have hstart : o.offset.getD 0 = 0 := rfl
  obtain ⟨first, hfirst, hfirstRows⟩ := page_of_exchanging accountValues accountTable rows hall
    hstart 0 (by decide) 0 false
  obtain ⟨second, hsecond, hsecondRows⟩ := page_of_exchanging accountValues accountTable rows hall
    hstart 1 (by decide) 0 true
  refine ⟨rfl, hmatching, _, first, second, accountValues.keeps_server _ _, hfirst, hsecond, ?_, ?_⟩
  · rw [hfirstRows]
    exact congrArg (fun l => (List.drop 0 l).take 1) hsorted
  · rw [hsecondRows]
    exact congrArg (fun l => (List.drop 1 l).take 1)
      ((congrArg (exchanged (accountTable.order accountValues o) 0) hsorted).trans hexchanged)

end TableStore

end Grove
