import TapeService.Interleaving.Rely
import TapeService.Model.Api
import TapeService.Model.Worker

/-!
# The service

The api, the worker and the listener as one system: any number of threads that each serve one request, one
generation or one notification, over one Redis and one platform database. The surroundings let locks
expire, add and remove documents, and insert scores that do not come from the web.
-/

namespace TapeService

open Interleaving Python

/-- The users, their roles and the sources of the roles stay as they are. -/
inductive Env where
  /-- The TTL of the lock of a user elapses. -/
  | expireLock (userId : Int)
  | insertDocument (d : Document)
  | deleteDocument (id : Int)
  /-- A score that another program inserts, such as the telegram bot. -/
  | insertScore (row : ScoreRow)

def Env.apply (e : Env) (s : State) : Option State :=
  match e with
  | .expireLock userId => some (s.setString (lockKey userId) none)
  | .insertDocument d =>
      if d.id ∈ s.db.documents.map (·.id) ∨ d.sourceid ∉ s.db.sources.map (·.1) then none
      else some { s with db := { s.db with documents := s.db.documents ++ [d] } }
  | .deleteDocument id =>
      -- `score_document_id_fkey` keeps the documents that have a score.
      if some id ∈ s.db.scores.map (·.2.documentId) then none
      else some { s with db := { s.db with documents := s.db.documents.filter (·.id ≠ id) } }
  | .insertScore row => some { s with db := (s.db.insertScore row).2 }

/-- The token that the `i`-th thread draws for the lock; no two threads draw the same. -/
def token (i : Nat) : String := toString (i : Int)

@[simp] theorem token_inj {i j : Nat} : token i = token j ↔ i = j := by
  rw [token, token, toString_inj, Int.natCast_inj]

section
variable [DatetimeLib]

inductive Job where
  /-- `generate_for_user`, as `tick` calls it. -/
  | generate (userId : Int) (dirty : Bool)
  | readTape (userId : Int) (after : Option Nat)
  | submitScore (userId : Int) (payload : ScoreRequest)
  | readConfig (userId : Int)
  | writeConfig (userId : Int) (payload : ConfigUpdate)
  /-- `_handle`, for the next notification. -/
  | handle (n : Notification)

inductive Out where
  | generated (kind : Kind) (added : Nat)
  | page (p : TapePage)
  | scored (scoreId : Int)
  | config (c : ConfigResponse)
  | handled

/-- The user whom the job is about. -/
def Job.user? : Job → Option Int
  | .generate userId _ => some userId
  | .readTape userId _ => some userId
  | .submitScore userId _ => some userId
  | .readConfig userId => some userId
  | .writeConfig userId _ => some userId
  | .handle n => n.userId

/-- A thread starts at any time, the handler of a notification when it is the next one to be delivered. No
notification is lost here; `Listener.deliver` has the connections that lose some. -/
def Job.begin (job : Job) (s : State) : Option State :=
  match job with
  | .handle n =>
      match s.db.notifications with
      | [] => none
      | n' :: ns => if n' = n then some { s with db := { s.db with notifications := ns } } else none
  | _ => some s

def Job.body (i : Nat) : Job → Prog Out
  | .generate userId dirty => (fun x => .generated x.1 x.2) <$> generateForUser (token i) userId dirty
  | .readTape userId after => .page <$> TapeService.readTape userId after
  | .submitScore userId payload => .scored <$> TapeService.submitScore userId payload
  | .readConfig userId => .config <$> TapeService.readConfig userId
  | .writeConfig userId payload => .config <$> TapeService.writeConfig userId payload
  | .handle n => (fun _ => .handled) <$> TapeService.handle n.payload

@[reducible] def service : System where
  toSignature := signature
  Exn := Exn
  State := State
  Job := Job
  Out := Out
  Env := Env
  body := Job.body
  exec := exec
  start := Job.begin
  env := Env.apply

end

section
variable [DatetimeLib]

/-- Nothing is in progress for the user. -/
def Idle (userId : Int) (c : Conf service) : Prop :=
  ∀ t ∈ c.threads, t.job.user? = some userId → t.Ended

instance (userId : Int) (c : Conf service) : Decidable (Idle userId c) :=
  have (t : Thread service) : Decidable t.Ended := inferInstanceAs (Decidable (t.next? = none))
  inferInstanceAs (Decidable (∀ t ∈ c.threads, _))

end

/-! ## A small service

One user and a few articles, for the examples of the theorems.
-/

namespace Sample

open scoped Python.Utc

def article (id : Int) : Document :=
  { id, sourceid := 1, title := "title", weblink := "link", published := id, abstract := none, text := none }

def update (ordering : Ordering) (selectedSourceIds : List Int) : ConfigUpdate :=
  { ordering, displayMode := .compact, pageSize := 20, pageSize_bounds := by decide, dateFrom := none
    dateTo := none, selectedSourceIds }

def request (documentId : Int) : ScoreRequest :=
  { documentId, roleId := 1, verdict := .yes, comment := none, comment_length := by simp }

def start (documents : List Document) : Conf service :=
  .init { redis := .empty, db := .start documents }

/-- The next `n` calls of thread `i`. -/
def runs (i n : Nat) : List (Label service) := List.replicate n (.run i)

/-- The user selects the source, and the tape is built. -/
def build : List (Label service) :=
  .start (.writeConfig 1 (update .asc [1])) :: runs 0 9 ++ .start (.generate 1 true) :: runs 1 30

end Sample

end TapeService
