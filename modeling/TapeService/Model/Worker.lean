import TapeService.Model.TapeStore

/-!
# The worker

The generation of a user's tape, and the handler of the score notifications.
-/

namespace TapeService

open Interleaving Python Client

/-! ## `generate_for_user` -/

section
variable [DatetimeLib]

/-- `candidates_for_user`. -/
def candidatesForUser (userId : Int) (sourceIds : List Int) (dateFrom dateTo : Option Datetime)
    (ordering : String) (excludeIds : List Int) : Prog (List Int) := do
  if sourceIds = [] then
    return []
  else
    let rows ← (ask (.candidates userId sourceIds (dateFrom.map DatetimeLib.timestamptz)
      (dateTo.map DatetimeLib.timestamptz) (ordering = "desc")) : Prog (List Int))
    if excludeIds = [] then
      return rows
    else
      return rows.filter (· ∉ excludeIds)

/-- What the tape is before the appending: how many entries were removed, the position to start from and
the documents that are already in. -/
structure Base where
  removed : Nat
  start : Int
  existing : List Int

def prepare (userId : Int) (dirty : Bool) : Prog Base := do
  if dirty then
    let removed ← deleteAllEntries userId
    return { removed, start := 0, existing := [] }
  else
    let last ← maxPosition userId
    let page ← listEntriesPage userId none 10000
    return { removed := 0, start := last + 1, existing := page.map (·.2) }

/-- The end of a generation that goes wrong after `removed` entries were removed. -/
def failRun (userId runId : Int) (kind : Kind) (removed : Nat) (e : Exn) : Prog (Kind × Nat) := do
  finishRun userId runId .error 0 removed
  publish userId (.tapeRegenerated userId kind 0 removed)
  publish userId (.scheduleCompleted userId runId .error)
  .raise e

def completeRun (userId runId : Int) (kind : Kind) (added removed : Nat) : Prog (Kind × Nat) := do
  finishRun userId runId .ok added removed
  publish userId (.tapeRegenerated userId kind added removed)
  publish userId (.scheduleCompleted userId runId .ok)
  return (kind, added)

/-- The end of a generation that goes well: the frames, the dirty flag and the record of the run. -/
def report (userId : Int) (dirty : Bool) (kind : Kind) (runId : Int) (removed : Nat)
    (appended : List (Int × Int)) : Prog (Kind × Nat) := do
  appended.forM fun entry => publish userId (.tapeEntryAdded userId entry.1 entry.2)
  if dirty then
    clearDirty userId
  completeRun userId runId kind appended.length removed

/-- Fills the tape up from `base` and reports the run. -/
def fill (userId : Int) (cfg : TapeConfig) (sources : List Int) (dirty : Bool) (kind : Kind) (runId : Int)
    (base : Base) : Prog (Kind × Nat) := do
  let docIds ← candidatesForUser userId sources cfg.dateFrom cfg.dateTo cfg.ordering base.existing
  let appended ← appendEntries userId docIds base.start
  report userId dirty kind runId base.removed appended

/-- The part of `generate_for_user` that runs while the lock is held. -/
def regenerate (userId : Int) (dirty : Bool) (cfg : TapeConfig) (sources : List Int) :
    Prog (Kind × Nat) := do
  publish userId (.lockAcquired userId)
  let kind : Kind := if dirty then .full else .incremental
  let runId ← createRun userId kind
  publish userId (.scheduleStarted userId runId kind)
  -- `removed` is still 0 in the handler when `delete_all_entries` itself raises.
  (prepare userId dirty).andThen fun
    | .error e => failRun userId runId kind 0 e
    | .ok base =>
        (fill userId cfg sources dirty kind runId base).tryCatch (failRun userId runId kind base.removed)

/-- `generate_for_user`. The `finally` of the source publishes `lock.released` only when the lock was
obtained, and nothing between obtaining it and noting so can fail. -/
def generateForUser (token : String) (userId : Int) (dirty : Bool) : Prog (Kind × Nat) := do
  match ← getConfig userId with
  | none => return (.skipped, 0)
  | some cfg =>
      let sources ← getConfigSources userId
      if sources = [] then
        if dirty then
          let _ ← deleteAllEntries userId
          clearDirty userId
          return (.skipped, 0)
        else
          return (.skipped, 0)
      else
        let got ← acquireLock userId token
        if got then
          (withLock userId token true (regenerate userId dirty cfg sources)).tryFinally
            (publish userId (.lockReleased userId))
        else
          withLock userId token false (return (.skipped, 0))

end

/-! ## `tick` -/

section
variable [DatetimeLib]

/-- The `try` of the loop: what `generate_for_user` raises is logged. -/
def tickUser (token : String) (userId : Int) (dirty : Bool) : Prog Unit :=
  (generateForUser token userId dirty >>= fun _ => return ()).tryCatch fun _ => return ()

/-- The loop; the `k`-th generation draws the token `tokens k`. -/
def tickUsers (tokens : Nat → String) : Nat → List (Int × Bool) → Prog Unit
  | _, [] => return ()
  | k, (userId, dirty) :: users => do
      tickUser (tokens k) userId dirty
      tickUsers tokens (k + 1) users

def tick (tokens : Nat → String) (scanned : List String) : Prog Unit := do
  let users ← listUsersWithConfig scanned
  tickUsers tokens 0 users

end

/-! ## `ScoreNotifyListener._handle` -/

/-- The user and the document that a payload names. -/
def decodePayload (payload : Text) : Except Python.Error (Int × Int) := do
  let data ← loads payload
  let userId ← (← data.getItem "user_id").toInt
  let docId ← (← data.getItem "document_id").toInt
  return (userId, docId)

/-- `except (KeyError, TypeError, ValueError, json.JSONDecodeError)`; the last is a `ValueError`. -/
def badPayload : Python.Error → Bool
  | .keyError => true
  | .typeError => true
  | .valueError => true
  | .overflowError => false
  | .recursionError => false

def handle (payload : Text) : Prog Unit :=
  match decodePayload payload with
  | .error e => if badPayload e then return () else .raise (.builtin e)
  | .ok (userId, docId) =>
      (do
        let removed ← removeEntry userId docId
        if removed ≠ 0 then
          publish userId (.tapeEntryRemoved userId docId)).tryCatch fun _ => return ()

end TapeService
