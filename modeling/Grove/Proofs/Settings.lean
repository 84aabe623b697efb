import Grove.Postgres.Bootstrap
import Grove.Proofs.Outcome
import Grove.Proofs.Text.Numeral

/-!
# Settings that are numbers

Two of the settings are numbers, and one reader takes both from their texts. It accepts the
numbers of sixty-four bits and names the setting that it cannot accept. The timeout is then
kept as it was read. The size of the pool is kept in thirty-two bits, and what does not fit
is not refused: its upper bits are dropped (`numbers_honoured_iff`). A pool that was to have
2^32 connections has none, and never opens (`openPool_ne_ok`).
-/

namespace Grove

namespace StorageKind

theorem read_eq_error {v : String} {e : ConfigProblem} (h : read v = .error e) :
    ∃ problem, e = .validation problem := by
  rw [read] at h
  split at h <;> cases h
  exact ⟨_, rfl⟩

end StorageKind

namespace Settings

variable {get : String → Option String} {name : String} {default n : Nat}

/-- The setting stands for the number: it is written there between blanks, or it is the
default of a setting that is not set. -/
inductive Asks (get : String → Option String) (name : String) (default : Nat) : Nat → Prop
  | unset (h : get name = none) : Asks get name default default
  | written {v : String} {n : Nat} (h : get name = some v)
      (hv : Text.Counts (Text.trimChars v.toList) n) : Asks get name default n

/-- The storage that the settings mean. A database needs an address. -/
inductive Keeps (get : String → Option String) : StorageKind → Prop
  | unset (h : get "STORAGE_BACKEND" = none) : Keeps get .document
  | document {v : String} (h : get "STORAGE_BACKEND" = some v)
      (hv : StorageKind.read v = .ok .document) : Keeps get .document
  | postgres {v url : String} (h : get "STORAGE_BACKEND" = some v)
      (hv : StorageKind.read v = .ok .postgres) (hurl : get "DATABASE_URL" = some url)
      (hblank : Text.isAllBlank url = false) : Keeps get .postgres

theorem asks_of_unset (hget : get name = none) : Asks get name default n ↔ n = default := by
  constructor
  · intro h
    cases h with
    | unset _ => rfl
    | written h _ => rw [hget] at h; cases h
  · rintro rfl
    exact .unset hget

theorem asks_of_written {v : String} (hget : get name = some v) :
    Asks get name default n ↔ Text.Counts (Text.trimChars v.toList) n := by
  constructor
  · intro h
    cases h with
    | unset h => rw [hget] at h; cases h
    | written h hv => cases hget.symm.trans h; exact hv
  · exact .written hget

theorem Asks.unique {m : Nat} (hm : Asks get name default m) (hn : Asks get name default n) :
    m = n := by
  cases hget : get name with
  | none => rw [(asks_of_unset hget).mp hm, (asks_of_unset hget).mp hn]
  | some v => exact ((asks_of_written hget).mp hm).unique ((asks_of_written hget).mp hn)

/-- What is read is what is asked for, as far as sixty-four bits go. -/
theorem number_eq_ok_iff (hdefault : default ≤ Text.maxUnsigned64) :
    number get name default = .ok n ↔ Asks get name default n ∧ n ≤ Text.maxUnsigned64 := by
  rw [number]
  cases hget : get name with
  | none =>
      rw [asks_of_unset hget]
      constructor
      · rintro ⟨⟩
        exact ⟨rfl, hdefault⟩
      · rintro ⟨rfl, -⟩
        rfl
  | some v =>
      have hread : Text.readNat? Text.maxUnsigned64 (Text.trim v) = some n ↔
          Text.Counts (Text.trimChars v.toList) n ∧ n ≤ Text.maxUnsigned64 := by
        rw [Text.readNat?_eq_some_iff, Text.trim, String.toList_ofList]
      rw [asks_of_written hget, ← hread]
      dsimp only
      cases Text.readNat? Text.maxUnsigned64 (Text.trim v) with
      | none => constructor <;> intro h <;> cases h
      | some m => simp

/-- What is not read is named with its setting. -/
theorem number_eq_error {e : ConfigProblem} (h : number get name default = .error e) :
    ∃ v, get name = some v ∧ e = .validation (.notANumber name v) := by
  rw [number] at h
  split at h
  · cases h
  · next v hget =>
      split at h
      · cases h
      · cases h
        exact ⟨v, hget, rfl⟩

/-- The storage that the settings name, once it is known that it can be used. -/
def kind (get : String → Option String) : Except ConfigProblem StorageKind := do
  let named ← match get "STORAGE_BACKEND" with
    | some v => StorageKind.read v
    | none => pure .document
  if named = .postgres && ((get "DATABASE_URL").filter fun s => !Text.isAllBlank s).isNone then
    throw (.validation .backendWithoutUrl)
  return named

def filled (get : String → Option String) (kind : StorageKind) (connections timeout : Nat) :
    Settings where
  bindAddress := (get "BIND_ADDR").getD "127.0.0.1:3000"
  storage := kind
  databaseUrl := (get "DATABASE_URL").filter fun s => !Text.isAllBlank s
  documentPath := (get "DOCUMENT_PATH").getD "data/documents.redb"
  maxConnections := connections % 0x100000000
  acquireTimeoutSeconds := timeout
  resourceConfig := (get "RESOURCE_CONFIG").getD "resources.json"
  apiBasePath := get "API_BASE_PATH"

/-- The storage is found first, then the one number and the other. -/
theorem read_eq : read get = (do
    let kind ← kind get
    let connections ← number get "DB_MAX_CONNECTIONS" 5
    let timeout ← number get "DB_ACQUIRE_TIMEOUT_SECS" 5
    return filled get kind connections timeout) := by
  rw [read, kind]
  cases get "STORAGE_BACKEND" with
  | none => rfl
  | some v =>
      dsimp only
      cases StorageKind.read v with
      | error _ => rfl
      | ok named =>
          cases named with
          | document => rfl
          | postgres =>
              unfold filled
              cases (get "DATABASE_URL").filter fun s => !Text.isAllBlank s with
              | none => rfl
              | some _ => rfl

theorem kind_eq_ok_iff {named : StorageKind} : kind get = .ok named ↔ Keeps get named := by
  rw [kind]
  constructor
  · intro h
    cases hget : get "STORAGE_BACKEND" with
    | none =>
        rw [hget] at h
        cases h
        exact .unset hget
    | some v =>
        rw [hget] at h
        obtain ⟨written, hv, h⟩ := bind_eq_ok.mp h
        cases written with
        | document => cases h; exact .document hget hv
        | postgres =>
            cases hurl : (get "DATABASE_URL").filter fun s => !Text.isAllBlank s with
            | none => rw [hurl] at h; cases h
            | some url =>
                rw [hurl] at h
                cases h
                rw [Option.filter_eq_some_iff] at hurl
                exact .postgres hget hv hurl.1 (by simpa using hurl.2)
  · intro h
    cases h with
    | unset hget => rw [hget]; rfl
    | document hget hv => rw [hget]; exact bind_eq_ok.mpr ⟨_, hv, rfl⟩
    | postgres hget hv hurl hblank =>
        rw [hget]
        refine bind_eq_ok.mpr ⟨_, hv, ?_⟩
        rw [hurl, Option.filter_some_pos (by rw [hblank]; rfl)]
        rfl

/-- The settings can be read if there is a storage for them and both numbers are of sixty-four
bits, and then they are these. -/
theorem read_eq_ok_iff {s : Settings} : read get = .ok s ↔
    ∃ kind connections timeout, Keeps get kind ∧
      (Asks get "DB_MAX_CONNECTIONS" 5 connections ∧ connections ≤ Text.maxUnsigned64) ∧
      (Asks get "DB_ACQUIRE_TIMEOUT_SECS" 5 timeout ∧ timeout ≤ Text.maxUnsigned64) ∧
      s = filled get kind connections timeout := by
  have hdefault : 5 ≤ Text.maxUnsigned64 := by decide
  simp only [read_eq, bind_eq_ok, kind_eq_ok_iff, number_eq_ok_iff hdefault, pure, Except.pure,
    Except.ok.injEq]
  constructor
  · rintro ⟨kind, hkind, connections, hconnections, timeout, htimeout, rfl⟩
    exact ⟨kind, connections, timeout, hkind, hconnections, htimeout, rfl⟩
  · rintro ⟨kind, connections, timeout, hkind, hconnections, htimeout, rfl⟩
    exact ⟨kind, hkind, connections, hconnections, timeout, htimeout, rfl⟩

theorem read_eq_error {e : ConfigProblem} (h : read get = .error e) :
    ∃ problem, e = .validation problem := by
  rw [read_eq] at h
  rcases bind_eq_error.mp h with h | ⟨named, -, h⟩
  · rw [kind] at h
    split at h
    · rcases bind_eq_error.mp h with h | ⟨named, -, h⟩
      · exact StorageKind.read_eq_error h
      · dsimp only at h
        split at h <;> cases h
        exact ⟨_, rfl⟩
    · cases h
  rcases bind_eq_error.mp h with h | ⟨connections, -, h⟩
  · obtain ⟨v, -, rfl⟩ := number_eq_error h
    exact ⟨_, rfl⟩
  rcases bind_eq_error.mp h with h | ⟨timeout, -, h⟩
  · obtain ⟨v, -, rfl⟩ := number_eq_error h
    exact ⟨_, rfl⟩
  · cases h

end Settings

namespace Postgres

variable {ω : Type}

/-- A pool that may hold no connection never opens. -/
theorem openPool_ne_ok (server : Server ω) {s : Settings} (h : s.maxConnections = 0)
    (w : ω) (pool : Pool) (w' : ω) : (openPool server s).outcome w ≠ (.ok pool, w') := by
  intro hopen
  rw [openPool] at hopen
  split at hopen
  · cases hopen
  · obtain ⟨-, v, -, hopen⟩ := Attempt.outcome_bind_eq_ok.mp hopen
    split at hopen
    · cases hopen
    · rw [if_pos h] at hopen
      cases hopen

end Postgres

namespace Settings

/-- Settings are read or found invalid, and they are read exactly if there is a storage for them
and the numbers that two of them ask for are of sixty-four bits. The timeout is what was asked
for. The size of the pool is what was asked for if it is below 2^32, and otherwise what is left
of it in thirty-two bits; where nothing is left, no pool is ever opened. -/
theorem numbers_honoured_iff (get : String → Option String) :
    (∀ e, read get = .error e → ∃ problem, e = .validation problem) ∧
    ((∃ s, read get = .ok s) ↔ (∃ kind, Keeps get kind) ∧
      (∃ n ≤ Text.maxUnsigned64, Asks get "DB_MAX_CONNECTIONS" 5 n) ∧
      ∃ n ≤ Text.maxUnsigned64, Asks get "DB_ACQUIRE_TIMEOUT_SECS" 5 n) ∧
    ∀ s, read get = .ok s →
      (∀ n, Asks get "DB_ACQUIRE_TIMEOUT_SECS" 5 n → s.acquireTimeoutSeconds = n) ∧
      ∀ n, Asks get "DB_MAX_CONNECTIONS" 5 n →
        s.maxConnections = n % 0x100000000 ∧ (s.maxConnections = n ↔ n < 0x100000000) ∧
        (0x100000000 ∣ n → ∀ {ω : Type} (server : Postgres.Server ω) (w : ω) (pool : Postgres.Pool)
          (w' : ω), (Postgres.openPool server s).outcome w ≠ (.ok pool, w')) := by
  refine ⟨fun e => read_eq_error, ?_, fun s hs => ?_⟩
  · constructor
    · rintro ⟨s, hs⟩
      obtain ⟨kind, n, m, hkind, ⟨hn, hnfits⟩, ⟨hm, hmfits⟩, -⟩ := read_eq_ok_iff.mp hs
      exact ⟨⟨kind, hkind⟩, ⟨n, hnfits, hn⟩, ⟨m, hmfits, hm⟩⟩
    · rintro ⟨⟨kind, hkind⟩, ⟨n, hnfits, hn⟩, ⟨m, hmfits, hm⟩⟩
      exact ⟨_, read_eq_ok_iff.mpr ⟨kind, n, m, hkind, ⟨hn, hnfits⟩, ⟨hm, hmfits⟩, rfl⟩⟩
  · obtain ⟨kind, connections, timeout, -, ⟨hconnections, -⟩, ⟨htimeout, -⟩, rfl⟩ :=
      read_eq_ok_iff.mp hs
    refine ⟨fun n hn => htimeout.unique hn, fun n hn => ?_⟩
    obtain rfl : connections = n := hconnections.unique hn
    refine ⟨rfl, Nat.mod_eq_iff_lt (by decide), fun hnone _ server => ?_⟩
    exact Postgres.openPool_ne_ok server (Nat.mod_eq_zero_of_dvd hnone)

/-- Of 2^32 connections and as many seconds, the seconds are left. -/
theorem numbers_honoured_iff_large :
    let homeless := fun name => List.lookup name [("STORAGE_BACKEND", "postgres")]
    let large := fun name => List.lookup name [("STORAGE_BACKEND", "postgres"),
      ("DATABASE_URL", "postgres://h/postgres"), ("DB_MAX_CONNECTIONS", "4294967296"),
      ("DB_ACQUIRE_TIMEOUT_SECS", " +4294967296 ")]
    (∃ problem, read homeless = .error (.validation problem)) ∧
    Asks large "DB_MAX_CONNECTIONS" 5 0x100000000 ∧
    Asks large "DB_ACQUIRE_TIMEOUT_SECS" 5 0x100000000 ∧
    ∃ s, read large = .ok s ∧ s.acquireTimeoutSeconds = 0x100000000 ∧ s.maxConnections = 0 ∧
      ∀ {ω : Type} (server : Postgres.Server ω) (w : ω) (pool : Postgres.Pool) (w' : ω),
        (Postgres.openPool server s).outcome w ≠ (.ok pool, w') := by
  intro homeless large
  have hhomeless : read homeless = .error (.validation .backendWithoutUrl) := by decide +kernel
  have hlarge : read large = .ok (filled large .postgres 0x100000000 0x100000000) := by
    decide +kernel
  have hnumeral : Text.Numeral "4294967296".toList 0x100000000 :=
    Text.readDigits?_eq_some_iff.mp (by decide +kernel)
  have hconnections : Asks large "DB_MAX_CONNECTIONS" 5 0x100000000 :=
    .written rfl (.plain hnumeral)
  have htimeout : Asks large "DB_ACQUIRE_TIMEOUT_SECS" 5 0x100000000 :=
    .written rfl (.plus hnumeral)
  obtain ⟨hproblem, -, -⟩ := numbers_honoured_iff homeless
  obtain ⟨problem, hproblem⟩ := hproblem _ hhomeless
  obtain ⟨-, -, hnumbers⟩ := numbers_honoured_iff large
  obtain ⟨hseconds, hsize⟩ := hnumbers _ hlarge
  obtain ⟨hwrapped, -, hnone⟩ := hsize _ hconnections
  exact ⟨⟨problem, hhomeless.trans (congrArg _ hproblem)⟩, hconnections, htimeout, _, hlarge,
    hseconds _ htimeout, hwrapped, fun server => hnone (Nat.dvd_refl _) server⟩

/-- One connection more than 2^32 is one connection. -/
theorem size_wrapped :
    let get := fun name => List.lookup name [("DB_MAX_CONNECTIONS", "4294967297")]
    Asks get "DB_MAX_CONNECTIONS" 5 4294967297 ∧
    ∃ s, read get = .ok s ∧ s.maxConnections = 1 := by
  intro get
  have hnumeral : Text.Numeral "4294967297".toList 4294967297 :=
    Text.readDigits?_eq_some_iff.mp (by decide +kernel)
  exact ⟨.written rfl (.plain hnumeral), filled get .document 4294967297 5, by decide +kernel, rfl⟩

end Settings

end Grove
