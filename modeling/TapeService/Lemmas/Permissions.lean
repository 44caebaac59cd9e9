import TapeService.Lemmas.Effects

/-!
# The permission tables

What the SQL functions over `users.user_role` and `users.role_source` answer.
-/

namespace TapeService

namespace Platform

/-- The foreign keys of the permission tables and of the documents. -/
structure ForeignKeys (db : Platform) : Prop where
  userRole : ∀ x ∈ db.userRole, x.1 ∈ db.users ∧ x.2 ∈ db.roles.map Prod.fst
  roleSource : ∀ x ∈ db.roleSource, x.1 ∈ db.roles.map Prod.fst ∧ x.2 ∈ db.sources.map Prod.fst
  documents : ∀ d ∈ db.documents, d.sourceid ∈ db.sources.map Prod.fst

/-- The user has a role that scores the documents of the source. -/
def Permits (db : Platform) (userId roleId sourceId : Int) : Prop :=
  (userId, roleId) ∈ db.userRole ∧ (roleId, sourceId) ∈ db.roleSource

instance (db : Platform) (userId roleId sourceId : Int) : Decidable (db.Permits userId roleId sourceId) :=
  inferInstanceAs (Decidable (_ ∧ _))

/-- The tables that no program of the service writes. -/
def tables (db : Platform) : List Int × List (Int × String) × List (Int × Int) × List (Int × Int) :=
  (db.users, db.roles, db.userRole, db.roleSource)

variable {db db' : Platform} {userId roleId sourceId : Int}

theorem mem_usersRoles : roleId ∈ db.usersRoles userId ↔ userId ∈ db.users ∧ (userId, roleId) ∈ db.userRole := by
  simp only [usersRoles, List.mem_insertionSort, List.mem_dedup, List.mem_flatMap, List.mem_filter, List.mem_map,
    decide_eq_true_eq]
  constructor
  · rintro ⟨u, ⟨hu, rfl⟩, ⟨u', r⟩, ⟨hx, rfl⟩, rfl⟩
    exact ⟨hu, hx⟩
  · rintro ⟨hu, hx⟩
    exact ⟨userId, ⟨hu, rfl⟩, (userId, roleId), ⟨hx, rfl⟩, rfl⟩

theorem mem_usersSources :
    sourceId ∈ db.usersSources userId ↔ userId ∈ db.users ∧ ∃ roleId, db.Permits userId roleId sourceId := by
  simp only [usersSources, List.mem_insertionSort, List.mem_dedup, List.mem_flatMap, List.mem_filter, List.mem_map,
    decide_eq_true_eq]
  constructor
  · rintro ⟨u, ⟨hu, rfl⟩, ⟨u', r⟩, ⟨hx, rfl⟩, ⟨r', s⟩, ⟨hy, rfl⟩, rfl⟩
    exact ⟨hu, r', hx, hy⟩
  · rintro ⟨hu, r, hx, hy⟩
    exact ⟨userId, ⟨hu, rfl⟩, (userId, r), ⟨hx, rfl⟩, (r, sourceId), ⟨hy, rfl⟩, rfl⟩

/-- The two joins agree: the roles for a source are those that permit it. -/
theorem mem_usersRolesForSource (hfk : db.ForeignKeys) :
    roleId ∈ db.usersRolesForSource userId sourceId ↔ db.Permits userId roleId sourceId := by
  simp only [usersRolesForSource, List.mem_dedup, List.mem_flatMap, List.mem_filter, List.mem_map, mem_usersRoles,
    decide_eq_true_eq]
  constructor
  · rintro ⟨⟨r, s⟩, ⟨hx, ⟨-, hr⟩, rfl⟩, ⟨r', name⟩, ⟨-, rfl⟩, rfl⟩
    exact ⟨hr, hx⟩
  · rintro ⟨hr, hx⟩
    obtain ⟨hu, hrole⟩ := hfk.userRole _ hr
    obtain ⟨x, hmem, rfl⟩ := List.mem_map.mp hrole
    exact ⟨(x.1, sourceId), ⟨hx, ⟨hu, hr⟩, rfl⟩, x, ⟨hmem, rfl⟩, rfl⟩

theorem usersSources_congr (h : db'.tables = db.tables) : db'.usersSources userId = db.usersSources userId := by
  simp only [tables, Prod.mk.injEq] at h
  simp only [usersSources, h]

theorem usersRolesForSource_congr (h : db'.tables = db.tables) :
    db'.usersRolesForSource userId sourceId = db.usersRolesForSource userId sourceId := by
  simp only [tables, Prod.mk.injEq] at h
  have hroles : db'.usersRoles userId = db.usersRoles userId := by simp only [usersRoles, h]
  simp only [usersRolesForSource, hroles, h]

/-- The documents that a tape is filled with come from the selected sources. -/
theorem document_of_mem_candidates {sources : List Int} {dateFrom dateTo : Option Int} {descending : Bool} {d : Int}
    (h : d ∈ db.candidates userId sources dateFrom dateTo descending) :
    ∃ doc ∈ db.documents, doc.id = d ∧ doc.sourceid ∈ sources := by
  obtain ⟨doc, hdoc, rfl⟩ := List.mem_map.mp h
  have hrow : doc ∈ db.candidateRows userId sources dateFrom dateTo := by
    split at hdoc <;> simpa using hdoc
  simp only [candidateRows, List.mem_filter, decide_eq_true_eq] at hrow
  exact ⟨doc, hrow.1, rfl, hrow.2.1⟩

theorem insertScore_tables {row : ScoreRow} :
    (db.insertScore row).2.tables = db.tables ∧ (db.insertScore row).2.documents = db.documents := by
  obtain ⟨scores, scoreSeq, notifications, h⟩ := @insertScore_frame db row
  rw [h]
  exact ⟨rfl, rfl⟩

end Platform

theorem exec_db_tables {c : Call} {s : State} :
    (exec c s).2.db.tables = s.db.tables ∧ (exec c s).2.db.documents = s.db.documents := by
  by_cases hc : c.EditsScores
  · cases c with
    | scoreSave u d r p t => exact Platform.insertScore_tables
    | _ => exact hc.elim
  · rw [exec_db hc]
    exact ⟨rfl, rfl⟩

theorem Env.apply_tables {e : Env} {s s' : State} (h : e.apply s = some s') : s'.db.tables = s.db.tables := by
  cases e with
  | expireLock u => cases h; rfl
  | insertDocument d =>
      simp only [Env.apply, Option.ite_none_left_eq_some, Option.some.injEq] at h
      obtain ⟨-, rfl⟩ := h
      rfl
  | deleteDocument id =>
      simp only [Env.apply, Option.ite_none_left_eq_some, Option.some.injEq] at h
      obtain ⟨-, rfl⟩ := h
      rfl
  | insertScore row => cases h; exact Platform.insertScore_tables.1

theorem Env.mem_documents {e : Env} {s s' : State} (h : e.apply s = some s') {d : Document}
    (hd : d ∈ s'.db.documents) : d ∈ s.db.documents ∨ e = .insertDocument d := by
  cases e with
  | expireLock u => cases h; exact .inl hd
  | insertDocument d' =>
      simp only [Env.apply, Option.ite_none_left_eq_some, Option.some.injEq] at h
      obtain ⟨-, rfl⟩ := h
      rcases List.mem_append.mp hd with hd | hd
      · exact .inl hd
      · exact .inr (by rw [List.mem_singleton.mp hd])
  | deleteDocument id =>
      simp only [Env.apply, Option.ite_none_left_eq_some, Option.some.injEq] at h
      obtain ⟨-, rfl⟩ := h
      exact .inl (List.mem_of_mem_filter hd)
  | insertScore row =>
      cases h
      exact .inl (by rwa [Platform.insertScore_tables.2] at hd)

end TapeService
