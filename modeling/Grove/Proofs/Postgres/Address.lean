import Grove.Postgres.Bootstrap
import Grove.Proofs.Text.Split

/-!
# Where the path of an address begins

The name of a database is looked for behind the first slash after the authority. In an
address with a path this is where the path begins, whatever comes in the query behind it. In
an address without one the search goes on through the query: only if there is no slash there
either is the path found missing (`split_iff`). A directory that the query names, as of the
sockets of a server, is taken for the name of a database, and a database of this name is
made.
-/

namespace Grove.Postgres

namespace Address

/-- The parts of an address, `scheme://authority`, a path and a query. -/
structure Parts where
  scheme : List Char
  authority : List Char
  /-- What follows the slash. -/
  path : Option (List Char)
  /-- What follows the question mark. -/
  query : Option (List Char)
  slash_notMem_scheme : '/' ∉ scheme
  slash_notMem_authority : '/' ∉ authority
  mark_notMem_authority : '?' ∉ authority
  mark_notMem_path : ∀ p ∈ path, '?' ∉ p

namespace Parts

/-- A part that may be missing, behind the character that announces it. -/
def announced (mark : Char) : Option (List Char) → List Char
  | none => []
  | some cs => mark :: cs

def text (u : Parts) : String :=
  String.ofList (u.scheme ++ "://".toList ++
    (u.authority ++ (announced '/' u.path ++ announced '?' u.query)))

def server (u : Parts) : String :=
  String.ofList (u.scheme ++ "://".toList ++ u.authority) ++ "/" ++ serverDatabase

end Parts

variable {cs ds : List Char}

/-- The scheme has no slash, so it ends at the mark behind it and not before. -/
theorem afterScheme?_append (h : '/' ∉ cs) (ds : List Char) :
    afterScheme? (cs ++ "://".toList ++ ds) = some (cs ++ "://".toList, ds) := by
  induction cs with
  | nil => rfl
  | cons c cs ih =>
      rw [List.mem_cons, not_or] at h
      have hrest := ih h.2
      rw [List.cons_append, List.cons_append, afterScheme?.eq_def]
      split
      · next heq => cases heq
      · next rest heq =>
          -- the colon is not the one of the mark, as no slash follows it in the scheme
          obtain ⟨-, heq⟩ := List.cons.inj heq
          cases cs with
          | nil => cases heq
          | cons d cs =>
              obtain ⟨rfl, -⟩ := List.cons.inj heq
              exact absurd List.mem_cons_self h.2
      · next heq =>
          cases heq
          rw [hrest]
          rfl

/-- Behind the scheme the address is cut at the first slash. -/
theorem split_ofList (hcs : '/' ∉ cs) (ds : List Char) :
    split (String.ofList (cs ++ "://".toList ++ ds)) =
      match Text.cutAt '/' ds with
      | none => .error (.validation .urlWithoutPath)
      | some (front, back) =>
        .ok (String.ofList (cs ++ "://".toList ++ front) ++ "/" ++ serverDatabase,
          Text.trim (String.ofList (back.takeWhile (· ≠ '?')))) := by
  rw [split, String.toList_ofList, afterScheme?_append hcs]
  rfl

theorem takeWhile_announced (hcs : '?' ∉ cs) (query : Option (List Char)) :
    (cs ++ Parts.announced '?' query).takeWhile (· ≠ '?') = cs := by
  rw [List.takeWhile_append_of_pos (Text.ne_of_notMem hcs)]
  cases query with
  | none => exact List.append_nil cs
  | some q => rw [Parts.announced, List.takeWhile_cons_of_neg (by simp), List.append_nil]

theorem split_of_path (u : Parts) {p : List Char} (hp : u.path = some p) :
    split u.text = .ok (u.server, Text.trim (String.ofList p)) := by
  have hmark := u.mark_notMem_path p hp
  rw [Parts.text, hp, split_ofList u.slash_notMem_scheme, Parts.announced, List.cons_append,
    Text.cutAt_append u.slash_notMem_authority]
  simp only [takeWhile_announced hmark, Parts.server]

theorem slash_notMem_announced (u : Parts) :
    '/' ∉ u.authority ++ Parts.announced '?' u.query ↔ ∀ q, u.query = some q → '/' ∉ q := by
  rw [List.mem_append, not_or, and_iff_right u.slash_notMem_authority]
  cases u.query with
  | none => exact iff_of_true List.not_mem_nil nofun
  | some q => simp [Parts.announced]

theorem split_of_no_path (u : Parts) (hp : u.path = none) :
    split u.text = .error (.validation .urlWithoutPath) ↔ ∀ q, u.query = some q → '/' ∉ q := by
  rw [Parts.text, hp, split_ofList u.slash_notMem_scheme, Parts.announced, List.nil_append,
    ← slash_notMem_announced, ← Text.cutAt_eq_none_iff]
  cases Text.cutAt '/' (u.authority ++ Parts.announced '?' u.query) with
  | none => exact iff_of_true rfl rfl
  | some _ => exact ⟨nofun, nofun⟩

/-- What stands behind the first slash of the query is taken for the path. -/
theorem split_of_slash_in_query (u : Parts) (hp : u.path = none) {front back : List Char}
    (hfront : '/' ∉ front) (hq : u.query = some (front ++ '/' :: back)) :
    split u.text =
      .ok (String.ofList (u.scheme ++ "://".toList ++ (u.authority ++ '?' :: front)) ++ "/" ++
          serverDatabase,
        Text.trim (String.ofList (back.takeWhile (· ≠ '?')))) := by
  have hcut : u.authority ++ '?' :: (front ++ '/' :: back) =
      (u.authority ++ '?' :: front) ++ '/' :: back := by simp
  have hplain : '/' ∉ u.authority ++ '?' :: front := by
    simp [u.slash_notMem_authority, hfront]
  rw [Parts.text, hp, hq, split_ofList u.slash_notMem_scheme, Parts.announced, Parts.announced,
    List.nil_append, hcut, Text.cutAt_append hplain]

/-- A database that the server does not have is made, under the name that was found. -/
theorem ensureDatabase_of_split {url serverUrl name : String} {address : Address}
    (hsplit : split url = .ok (serverUrl, name)) (hnamed : name ≠ "")
    (hother : name ≠ serverDatabase) (hread : read serverUrl = .ok address) (log : List Sent) :
    (ensureDatabase Server.scripted url).outcome ([.ok { rows := [[.bool false]] }], log) =
      (.ok ⟨⟩, [], log ++ [.connect address.target, .statement existsQuery [.text name],
        .statement ("CREATE DATABASE " ++ Sql.quoted name) []]) := by
  have hlog (a b c : Sent) : log ++ [a, b, c] = log ++ [a] ++ [b] ++ [c] := by simp
  rw [ensureDatabase, hsplit, hlog]
  simp only [hnamed, hother, decide_false, Bool.or_self, Bool.false_eq_true, if_false, hread]
  rfl

/-- An address with a path is split where the path begins. One without a path is found to have
none if its query has no slash, and otherwise it is split at the first slash of its query. -/
theorem split_iff (u : Parts) :
    (∀ p, u.path = some p → split u.text = .ok (u.server, Text.trim (String.ofList p))) ∧
    (u.path = none →
      (split u.text = .error (.validation .urlWithoutPath) ↔ ∀ q, u.query = some q → '/' ∉ q) ∧
      ∀ front back, '/' ∉ front → u.query = some (front ++ '/' :: back) →
        split u.text =
          .ok (String.ofList (u.scheme ++ "://".toList ++ (u.authority ++ '?' :: front)) ++ "/" ++
              serverDatabase,
            Text.trim (String.ofList (back.takeWhile (· ≠ '?'))))) :=
  ⟨fun _ => split_of_path u, fun hp => ⟨split_of_no_path u hp, fun _ _ =>
    split_of_slash_in_query u hp⟩⟩

/-- A slash in the query changes nothing behind a path, and is taken for one without it. -/
theorem split_iff_sockets :
    let atPath : Parts := ⟨"postgres".toList, "u:p@h".toList, some " accounts ".toList,
      some "host=/run".toList, by decide, by decide, by decide, by decide⟩
    let bare : Parts := { atPath with path := none, mark_notMem_path := nofun }
    let silent : Parts := { bare with query := none }
    split atPath.text = .ok ("postgres://u:p@h/postgres", "accounts") ∧
    split silent.text = .error (.validation .urlWithoutPath) ∧
    split bare.text = .ok ("postgres://u:p@h?host=/postgres", "run") := by
  intro atPath bare silent
  refine ⟨?_, ?_, ?_⟩
  · exact ((split_iff atPath).1 _ rfl).trans (by decide +kernel)
  · exact ((split_iff silent).2 rfl).1.mpr nofun
  · exact (((split_iff bare).2 rfl).2 "host=".toList "run".toList (by decide) rfl).trans
      (by decide +kernel)

/-- The address names no database. What is made is one by the name of the directory. -/
theorem directory_made :
    let u : Parts := ⟨"postgres".toList, "host".toList, none,
      some "host=/var/run/postgresql".toList, by decide, by decide, by decide, nofun⟩
    u.text = "postgres://host?host=/var/run/postgresql" ∧
    split u.text = .ok ("postgres://host?host=/postgres", "var/run/postgresql") ∧
    (ensureDatabase Server.scripted u.text).outcome ([.ok { rows := [[.bool false]] }], []) =
      (.ok ⟨⟩, [], [.connect "postgres", .statement existsQuery [.text "var/run/postgresql"],
        .statement "CREATE DATABASE \x22var/run/postgresql\x22" []]) := by
  intro u
  have hsplit : split u.text = .ok ("postgres://host?host=/postgres", "var/run/postgresql") := by
    decide +kernel
  have hread : read "postgres://host?host=/postgres" =
      .ok ⟨"/postgres", none, none, none, none⟩ := by
    decide +kernel
  have hmade : "CREATE DATABASE " ++ Sql.quoted "var/run/postgresql" =
      "CREATE DATABASE \x22var/run/postgresql\x22" := by
    decide +kernel
  refine ⟨by decide +kernel, hsplit, ?_⟩
  rw [ensureDatabase_of_split hsplit (by decide) (by decide) hread [], hmade]
  rfl

end Address

end Grove.Postgres
