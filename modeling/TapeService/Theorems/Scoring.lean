import TapeService.Interleaving.Sequential
import TapeService.Lemmas.Footprints
import TapeService.Lemmas.Permissions

/-!
# The role of a score

`GET /tape` offers for each document the roles under which the user may score it, and `POST /score` takes
any role that exists: the role of a recorded score is one of those offered when the request names one.
-/

namespace TapeService

open Interleaving Interleaving.Program Python

/-- The row that the request asks for. -/
def scoreRow (userId : Int) (payload : ScoreRequest) : ScoreRow :=
  { score := { score := payload.verdict.toScore, comment := payload.comment }
    comment := payload.comment
    documentId := some payload.documentId
    userId := some userId
    roleId := some payload.roleId }

/-- The types of `score.save` or the constraints of `score.score` refuse the row. -/
def Platform.Refuses (db : Platform) (row : ScoreRow) : Prop :=
  ¬ row.Storable ∨ db.Duplicate row ∨ ¬ db.ReferencesExist row

instance (db : Platform) (row : ScoreRow) : Decidable (db.Refuses row) :=
  inferInstanceAs (Decidable (¬ _ ∨ _ ∨ ¬ _))

/-- `_roles_by_source` offers the role to the user for the documents of the source. -/
def Offers (s : State) (userId roleId sourceId : Int) : Prop :=
  ∃ offered roles, (rolesBySource userId [sourceId]).eval exec s = (.ok offered, s) ∧
    (sourceId, roles) ∈ offered ∧ roleId ∈ roles.map (·.id)

/-- Nothing has been inserted, or a score of the user for a document under a role that the user is offered for the
source of the document. -/
def RecordedOffered (userId : Int) (s s' : State) : Prop :=
  s'.db.scores = s.db.scores ∨
    ∃ id row d roleId, s'.db.scores = s.db.scores ++ [(id, row)] ∧ d ∈ s.db.documents ∧
      row.userId = some userId ∧ row.documentId = some d.id ∧ row.roleId = some roleId ∧
      Offers s userId roleId d.sourceid

/-- However the request ends, and whatever fails on the way. -/
def RecordsOffered (s : State) (userId : Int) (payload : ScoreRequest) : Prop :=
  ∀ r s', (submitScore userId payload).Ends exec True s r s' → RecordedOffered userId s s'

namespace Scoring

variable {s s' : State} {userId roleId sourceId : Int} {payload : ScoreRequest}

theorem insertScore_of_not_refuses {db : Platform} {row : ScoreRow} (h : ¬ db.Refuses row) :
    (db.insertScore row).1 = .ok db.scoreSeq ∧
      (db.insertScore row).2.scores = db.scores ++ [(db.scoreSeq, row)] := by
  simp only [Platform.Refuses, not_or, not_not] at h
  obtain ⟨hrow, hdup, hrefs⟩ := h
  rw [Platform.insertScore_accepted hrow hdup hrefs]
  exact ⟨rfl, rfl⟩

/-- What `submit_score` does after the insert. -/
def cleanUp (userId documentId scoreId : Int) : Prog Int := do
  let _ ← removeEntry userId documentId
  publish userId (.tapeEntryRemoved userId documentId)
  return scoreId

theorem cleanUp_uses {documentId scoreId : Int} :
    (cleanUp userId documentId scoreId).Uses fun c : Call => ¬ c.EditsScores :=
  Uses.bind (uses_ask id) fun _ => Uses.bind (uses_ask id) fun _ => trivial

end Scoring

open Scoring

section
variable [DatetimeLib]

/-- The same of a thread of the service that serves the request while the others rest. -/
theorem recordsOffered_iff_served {c : Conf service} {i : Nat} {userId : Int} {payload : ScoreRequest}
    (hi : c.threads[i]? = some ⟨.submitScore userId payload, some (Job.body i (.submitScore userId payload))⟩) :
    RecordsOffered c.world.state userId payload ↔
      ∀ c' t r, Steps (OnlyThread True i) c c' → c'.threads[i]? = some t → t.outcome? = some r →
        RecordedOffered userId c.world.state c'.world.state := by
  constructor
  · intro h c' t r hsteps ht hr
    obtain ⟨q, s', hends, hmap⟩ := ends_andThen.mp (hsteps.ends hi ht hr)
    have hs : s' = c'.world.state := by
      cases q with
      | ok scoreId => exact hmap.2.symm
      | error e => exact hmap.2.symm
    exact hs ▸ h q s' hends
  · intro h r s' hends
    have hbody : (Job.body i (.submitScore userId payload)).Ends exec True c.world.state (r.map .scored) s' :=
      ends_andThen.mpr ⟨r, s', hends, by cases r <;> exact ⟨rfl, rfl⟩⟩
    obtain ⟨c', t, hsteps, rfl, ht, hr⟩ := exists_steps hi hbody
    exact h c' t _ hsteps ht hr

end

/-! ## Examples -/

end TapeService
