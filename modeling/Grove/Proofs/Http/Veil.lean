import Grove.Proofs.Document.Apart
import Grove.Proofs.Http.Gate
import Grove.Proofs.Http.Handled

/-!
# What a caller cannot see

A caller that may not read a resource learns nothing about its records by reading others,
with one exception. Related records are put into an answer without another look at who
asks: the gate is passed once, for the resource that the request is for. So the records of
a resource show where it is asked for by name as the parent or a child of a resource that
the caller may read (`embedding_reveals`), and nowhere else (`veiled_unless_embedded`).

The proof compares two services that are alike but for those records. A request that the
gate lets pass is for another resource, so its own calls go elsewhere; and what it fetches
are relatives that are not the hidden one.
-/

namespace Grove.Http

/-- The request may read a resource and asks for the hidden one as a relative of it. -/
def Embeds (t : Forest) (request : Request) (hidden : String) : Prop :=
  ∃ r raw task options, Routed t request r raw task ∧
    r.access.admits request.headers.principal? "GET" = true ∧
    Paging.ofParams (Target.read request.target).params = .ok options ∧
    hidden ∈ options.fetch ∧ r.IsRelative t hidden

variable {t : Forest} {request : Request} {r : Resource} {raw : List (String × String)}
  {task : Task} {secret : Resource}

theorem task_of_get (h : Routed t request r raw task) (hget : request.effectiveMethod = "GET") :
    task = .list ∨ task = .retrieve := by
  cases h with
  | collection route method =>
      rw [hget] at method
      exact .inl (Option.some.inj method).symm
  | item route method =>
      rw [hget] at method
      exact .inr (Option.some.inj method).symm

theorem name_ne_of_admits (ht : t.Sound) (hsecret : secret ∈ t.resources) (hr : r ∈ t.resources)
    {caller : Option Principal} (hdenied : secret.access.admits caller "GET" = false)
    (hadmits : r.access.admits caller "GET" = true) : r.name ≠ secret.name := by
  intro hname
  have hsame := Forest.get?_of_mem ht hr
  rw [hname, Forest.get?_of_mem ht hsecret] at hsame
  rw [← Option.some.inj hsame, hdenied] at hadmits
  cases hadmits

theorem open_spares {hidden name : String} (h : name ≠ hidden) :
    Call.Open (Call.Spares hidden) name :=
  fun _ _ _ => .inl h

/-- Reading spares the records of a resource that the caller may not read, unless they are
embedded. -/
theorem admitted_spares (ht : t.Sound) (hsecret : secret ∈ t.resources)
    (hget : request.effectiveMethod = "GET")
    (hdenied : secret.access.admits request.headers.principal? "GET" = false)
    (hembeds : ¬ Embeds t request secret.name) (h : Routed t request r raw task) :
    (request.inquiry r raw).Admitted t (Call.Spares secret.name) task := by
  have hr := mem_of_routed h
  have hrelatives : ∀ o, Paging.ofParams (Target.read request.target).params = .ok o →
      r.access.admits request.headers.principal? "GET" = true →
      ∀ name ∈ o.fetch, r.IsRelative t name → Call.Open (Call.Spares secret.name) name := by
    intro o ho hadmits name hname hrelative
    refine open_spares fun heq => hembeds ?_
    subst heq
    exact ⟨r, raw, task, o, h, hadmits, ho, hname, hrelative⟩
  rcases task_of_get h hget with rfl | rfl
  · intro c o hlisting
    obtain ⟨-, ho, hadmits⟩ := Inquiry.listing_eq_ok hlisting
    simp only [Request.inquiry] at ho
    have hne := name_ne_of_admits ht hsecret hr hdenied hadmits
    exact ⟨.inl hne, .inl hne, hrelatives o ho hadmits⟩
  · intro c o id hretrieval
    obtain ⟨_, -, -, ho, hadmits⟩ := Inquiry.retrieval_eq_ok hretrieval
    simp only [Request.inquiry] at ho
    exact ⟨.inl (name_ne_of_admits ht hsecret hr hdenied hadmits), hrelatives o ho hadmits⟩

/-- To a caller that may not read a resource every request to read gives the same answer
whatever the records of that resource are, unless it embeds them. This is so over every
backend whose stores of other resources do not depend on those records, and over document
stores, which are such a backend. -/
theorem veiled_unless_embedded {c : Config} (hc : Forest.ofConfig c = .ok t) (about : About)
    (hsecret : secret ∈ t.resources) (hget : request.effectiveMethod = "GET")
    (hdenied : secret.access.admits request.headers.principal? "GET" = false)
    (hembeds : ¬ Embeds t request secret.name) :
    (∀ (σ ρ : Type) (b : Backend σ ρ) (label : ρ → String) (R : σ → σ → Prop), b.Labels label →
      b.Obeys label R (Call.Spares secret.name) → ∀ s, Running b t s → ∀ state, R s.state state →
        ((respond b about request).run s).1 = ((respond b about request).run { s with state }).1) ∧
    ∀ s, Running Archive.backend t s → ∀ state, s.state.SameBut secret.name state →
      ((respond Archive.backend about request).run s).1 =
        ((respond Archive.backend about request).run { s with state }).1 := by
  have ht := Forest.sound_of_ofConfig hc
  have hveiled : ∀ (σ ρ : Type) (b : Backend σ ρ) (label : ρ → String) (R : σ → σ → Prop),
      b.Labels label → b.Obeys label R (Call.Spares secret.name) → ∀ s, Running b t s →
      ∀ state, R s.state state →
        ((respond b about request).run s).1 =
          ((respond b about request).run { s with state }).1 := by
    intro σ ρ b label R hlabel hb s hs state hstate
    obtain ⟨htree, hwired⟩ := wired_of_running hlabel ht hs
    have halike : Service.Alike label t R s { s with state } :=
      ⟨htree, htree, rfl, rfl, hstate, hwired⟩
    exact (respond_alike hb (fun _ => .inr rfl) ht about halike fun r raw task h =>
      admitted_spares ht hsecret hget hdenied hembeds h).1
  exact ⟨hveiled, fun s hs state hstate => hveiled _ _ _ _ _ Archive.backend_labels
    (Archive.backend_obeys_sameBut secret.name) s hs state hstate⟩

/-! ## Accounts and their logins

Everybody may read accounts, and nobody but an administrator may read the ways to log in
to them. -/

def guardedLogins : Config where
  resources := [{ name := "accounts" },
    { name := "auths", parent := some "accounts",
      access := { strategies := [("GET", "roles")], rules := [("admin", { read := true })] } }]

def archiveWith (logins : Collection) : Archive where
  collections := [("accounts", ⟨1, [(0, ⟨[("uuid", .string "a1")]⟩)]⟩), ("auths", logins)]
  supply := ⟨fun _ => 0, fun _ => default, 0, 0⟩

def oneLogin : Collection :=
  ⟨1, [(0, ⟨[("accountsId", .string "a1"), ("uuid", .string "s1")]⟩)]⟩

def loginService : Service Archive DocumentStore :=
  { ((Service.steward Archive.backend "accounts").outcome
      { tree := ⟨guardedLogins.resources.map guardedLogins.place⟩, state := archiveWith {} }).2
    with state := archiveWith oneLogin }

theorem archiveWith_sameBut (c d : Collection) :
    (archiveWith c).SameBut "auths" (archiveWith d) := by
  refine ⟨rfl, fun other hother => ?_, .inl ⟨rfl, rfl⟩⟩
  simp only [Archive.collection, archiveWith, List.lookup_cons, beq_false_of_ne hother]

theorem loginService_running :
    Running Archive.backend ⟨guardedLogins.resources.map guardedLogins.place⟩ loginService :=
  .changed _ (.asked _ (.fresh _))

theorem guardedLogins_tree :
    Forest.ofConfig guardedLogins = .ok ⟨guardedLogins.resources.map guardedLogins.place⟩ :=
  Forest.ofConfig_of_check (by decide +kernel)

def logins : Resource := guardedLogins.place
  { name := "auths", parent := some "accounts",
    access := { strategies := [("GET", "roles")], rules := [("admin", { read := true })] } }

theorem logins_mem : logins ∈ guardedLogins.resources.map guardedLogins.place :=
  List.mem_cons_of_mem _ List.mem_cons_self

/-- A stranger who may not read logins is told of them with the accounts. -/
theorem embedding_reveals :
    let t : Forest := ⟨guardedLogins.resources.map guardedLogins.place⟩
    let request : Request := { method := "GET", target := "/accounts?_fetch=auths" }
    Forest.ofConfig guardedLogins = .ok t ∧ logins ∈ t.resources ∧
      logins.access.admits request.headers.principal? "GET" = false ∧
      Running Archive.backend t loginService ∧
      loginService.state.SameBut logins.name (archiveWith {}) ∧
      ((respond Archive.backend { hostname := "" } request).run loginService).1 ≠
        ((respond Archive.backend { hostname := "" } request).run
          { loginService with state := archiveWith {} }).1 := by
  intro t request
  have hsent : ∀ {r r' : Response}, r.sent ≠ r'.sent → r ≠ r' :=
    fun hsent heq => hsent (congrArg Response.sent heq)
  exact ⟨guardedLogins_tree, logins_mem, by decide +kernel, loginService_running,
    archiveWith_sameBut _ _, hsent (by decide +kernel)⟩

/-- Where nothing is fetched, the logins stay out of sight. -/
theorem veiled_unless_embedded_accounts :
    let t : Forest := ⟨guardedLogins.resources.map guardedLogins.place⟩
    let request : Request := { method := "GET", target := "/accounts" }
    logins.access.admits request.headers.principal? "GET" = false ∧
      ¬ Embeds t request logins.name ∧
      ((respond Archive.backend { hostname := "" } request).run loginService).1 =
        ((respond Archive.backend { hostname := "" } request).run
          { loginService with state := archiveWith {} }).1 := by
  intro t request
  have hdenied : logins.access.admits request.headers.principal? "GET" = false := by
    decide +kernel
  have hembeds : ¬ Embeds t request logins.name := by
    rintro ⟨r, raw, task, options, -, -, ho, hmem, -⟩
    rw [show (Target.read request.target).params = [] by decide +kernel] at ho
    cases ho
    exact absurd hmem List.not_mem_nil
  exact ⟨hdenied, hembeds, (veiled_unless_embedded guardedLogins_tree { hostname := "" } logins_mem
    (by decide) hdenied hembeds).2 loginService loginService_running _ (archiveWith_sameBut _ _)⟩

end Grove.Http
