import Mathlib.Data.List.Dedup
import Mathlib.Data.List.Sort
import TapeService.Model.Schemas

/-!
# The platform database

The tables that the service reads, the one that it writes (`score.score`), and the SQL functions and
queries over them. The tables are lists in their physical order, which is also the order among the rows
that an `ORDER BY` leaves tied.
-/

namespace TapeService

open Python

/-- A row of `documents.document`; `published` counts microseconds. -/
structure Document where
  id : Int
  sourceid : Int
  title : String
  weblink : String
  published : Int
  abstract : Option String
  text : Option String
  deriving DecidableEq, Repr

structure ScorePayload where
  score : Rat
  comment : Option String
  deriving DecidableEq, Repr

/-- A row of `score.score`. The references are nullable. -/
structure ScoreRow where
  score : ScorePayload
  comment : Option String
  documentId : Option Int
  userId : Option Int
  roleId : Option Int
  deriving DecidableEq, Repr

/-- PostgreSQL has no U+0000 in a text. -/
def IsText (s : String) : Prop := Char.ofNat 0 ∉ s.toList

instance (s : String) : Decidable (IsText s) := inferInstanceAs (Decidable (¬ _))

/-- The type `integer` has 32 bits. -/
def IsInteger (n : Int) : Prop := -2 ^ 31 ≤ n ∧ n < 2 ^ 31

instance (n : Int) : Decidable (IsInteger n) := inferInstanceAs (Decidable (_ ∧ _))

namespace ScoreRow

variable (row : ScoreRow)

def HasText : Prop := ∀ c ∈ row.comment, IsText c

def HasIntegers : Prop :=
  (∀ u ∈ row.userId, IsInteger u) ∧ (∀ d ∈ row.documentId, IsInteger d) ∧ ∀ r ∈ row.roleId, IsInteger r

instance : Decidable row.HasText := inferInstanceAs (Decidable (∀ _ ∈ _, _))

instance : Decidable row.HasIntegers := inferInstanceAs (Decidable (_ ∧ _ ∧ _))

/-- `score.save` can be called with the row. -/
def Storable : Prop := row.HasText ∧ row.HasIntegers

instance : Decidable row.Storable := inferInstanceAs (Decidable (_ ∧ _))

end ScoreRow

/-- What `score._notify_tape_inserted` sends about an inserted row. -/
structure Notification where
  userId : Option Int
  documentId : Option Int
  deriving DecidableEq, Repr

/-- The text of the notification: `json_build_object('user_id', ..., 'document_id', ...)::text`. -/
def Notification.payload (n : Notification) : Text :=
  dumps (.obj [("user_id", n.userId.elim .null .int), ("document_id", n.documentId.elim .null .int)])

structure Platform where
  documents : List Document
  /-- `score.score` with the id of each row. -/
  scores : List (Int × ScoreRow)
  /-- The next value of the serial `score.score.id`. -/
  scoreSeq : Int
  users : List Int
  roles : List (Int × String)
  /-- `users.user_role`: (user, role). -/
  userRole : List (Int × Int)
  /-- `users.role_source`: (role, source). -/
  roleSource : List (Int × Int)
  sources : List (Int × String)
  /-- The notifications on `tape_score_inserted` that are still to be delivered. -/
  notifications : List Notification

namespace Platform

variable (db : Platform)

/-- The user has a score for the document, under any role. -/
def Scored (userId documentId : Int) : Prop :=
  ∃ s ∈ db.scores, s.2.userId = some userId ∧ s.2.documentId = some documentId

instance (userId documentId : Int) : Decidable (db.Scored userId documentId) :=
  inferInstanceAs (Decidable (∃ s ∈ db.scores, s.2.userId = some userId ∧ s.2.documentId = some documentId))

/-- `users.sources(_id)`. -/
def usersSources (userId : Int) : List Int :=
  let rows := (db.users.filter (· = userId)).flatMap fun u =>
    (db.userRole.filter (·.1 = u)).flatMap fun ur => (db.roleSource.filter (·.1 = ur.2)).map (·.2)
  rows.dedup.insertionSort (· ≤ ·)

/-- `users.roles(_id)`. -/
def usersRoles (userId : Int) : List Int :=
  let rows := (db.users.filter (· = userId)).flatMap fun u =>
    (db.userRole.filter (·.1 = u)).map (·.2)
  rows.dedup.insertionSort (· ≤ ·)

/-- The ids of `users.roles(_uid, _sid)`. -/
def usersRolesForSource (userId sourceId : Int) : List Int :=
  let rows := (db.roleSource.filter fun rs => rs.1 ∈ db.usersRoles userId ∧ rs.2 = sourceId).flatMap fun rs =>
    (db.roles.filter (·.1 = rs.1)).map (·.1)
  rows.dedup

/-- The rows of the candidate query: the selected sources, the closed date range, no score by the user. -/
def candidateRows (userId : Int) (sourceIds : List Int) (dateFrom dateTo : Option Int) : List Document :=
  db.documents.filter fun d =>
    d.sourceid ∈ sourceIds ∧ (∀ t ∈ dateFrom, t ≤ d.published) ∧ (∀ t ∈ dateTo, d.published ≤ t) ∧
      ¬ db.Scored userId d.id

/-- The statement of `candidates_for_user`. -/
def candidates (userId : Int) (sourceIds : List Int) (dateFrom dateTo : Option Int) (descending : Bool) :
    List Int :=
  let rows := db.candidateRows userId sourceIds dateFrom dateTo
  let sorted :=
    if descending then rows.insertionSort fun a b => b.published ≤ a.published
    else rows.insertionSort fun a b => a.published ≤ b.published
  sorted.map (·.id)

/-- `SELECT ... FROM documents.document WHERE id = ANY(ids)`. -/
def documentsById (ids : List Int) : List Document :=
  db.documents.filter (·.id ∈ ids)

/-- `SELECT document_id FROM score.score WHERE user_id = userId AND document_id = ANY(ids)`. -/
def scoredAmong (userId : Int) (ids : List Int) : List Int :=
  db.scores.filterMap fun s =>
    if s.2.userId = some userId then s.2.documentId.filter (· ∈ ids) else none

/-- `score_pk` is unique, where NULLs never clash. -/
def Duplicate (row : ScoreRow) : Prop :=
  ∃ s ∈ db.scores, s.2.userId = row.userId ∧ s.2.roleId = row.roleId ∧ s.2.documentId = row.documentId ∧
    row.userId ≠ none ∧ row.roleId ≠ none ∧ row.documentId ≠ none

instance (row : ScoreRow) : Decidable (db.Duplicate row) :=
  inferInstanceAs (Decidable (∃ s ∈ db.scores, s.2.userId = row.userId ∧ s.2.roleId = row.roleId ∧
    s.2.documentId = row.documentId ∧ row.userId ≠ none ∧ row.roleId ≠ none ∧ row.documentId ≠ none))

def ReferencesExist (row : ScoreRow) : Prop :=
  (∀ d ∈ row.documentId, d ∈ db.documents.map (·.id)) ∧ (∀ u ∈ row.userId, u ∈ db.users) ∧
    ∀ r ∈ row.roleId, r ∈ db.roles.map (·.1)

instance (row : ScoreRow) : Decidable (db.ReferencesExist row) :=
  inferInstanceAs (Decidable (_ ∧ _ ∧ _))

/-- `score.save`: an insert into `score.score` with its trigger. The serial advances even when the insert fails. -/
def insertScore (row : ScoreRow) : Except Exn Int × Platform :=
  if ¬ row.HasText then (.error .dataError, db)
  else if ¬ row.HasIntegers then
    -- A larger id is sent as a `bigint` or a `numeric`, which PostgreSQL does not take for an `integer`.
    (.error .undefinedFunction, db)
  else
    let id := db.scoreSeq
    let db := { db with scoreSeq := db.scoreSeq + 1 }
    if db.Duplicate row then (.error .uniqueViolation, db)
    else if ¬ db.ReferencesExist row then (.error .foreignKeyViolation, db)
    else
      (.ok id,
        { db with
          scores := db.scores ++ [(id, row)]
          notifications := db.notifications ++ [⟨row.userId, row.documentId⟩] })

/-- One user, who may score the documents of one source under one role, and nothing scored yet. -/
def start (documents : List Document) : Platform where
  documents
  scores := []
  scoreSeq := 1
  users := [1]
  roles := [(1, "analyst")]
  userRole := [(1, 1)]
  roleSource := [(1, 1)]
  sources := [(1, "news")]
  notifications := []

end Platform

end TapeService
