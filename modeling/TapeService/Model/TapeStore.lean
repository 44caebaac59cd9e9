import TapeService.Model.Calls

/-!
# The tape store

The functions of the Redis store (configurations, entries, runs), the per-user lock and the event channel,
as programs over the calls.
-/

namespace TapeService

open Interleaving Python

/-! ## The client -/

namespace Client

def hgetall (key : String) : Prog Hash := ask (.hgetall key)

/-- `HGET key field`, as a read of the hash. -/
def hget (key field : String) : Prog (Option String) := do
  let hash ← hgetall key
  return hash.get field

def hset (key : String) (mapping : List (String × String)) : Prog Unit := ask (.hset key mapping)

def smembers (key : String) : Prog (List Int) := ask (.smembers key)

def zrange (key : String) (start stop : Int) : Prog (List (Int × Int)) := ask (.zrange key start stop)

def zrangebyscore (key : String) (after count : Int) : Prog (List (Int × Int)) :=
  ask (.zrangebyscore key after count)

def zcard (key : String) : Prog Nat := ask (.zcard key)

def zaddNx (key : String) (member score : Int) : Prog Nat := ask (.zaddNx key member score)

def zrem (key : String) (member : Int) : Prog Nat := ask (.zrem key member)

def setNxEx (key token : String) : Prog Bool := ask (.setNxEx key token)

def keyExists (key : String) : Prog Bool := ask (.exists key)

def evalRelease (key token : String) : Prog Unit := ask (.evalRelease key token)

def incr (key : String) : Prog Int := ask (.incr key)

def xadd (key : String) (record : RunRecord) : Prog Unit := ask (.xadd key record)

end Client

open Client

/-! ## Events -/

def publish (userId : Int) (event : Frame) : Prog Unit := ask (.publish (channelFor userId) event)

/-! ## Configurations -/

structure TapeConfig [DatetimeLib] where
  userId : Int
  ordering : String
  displayMode : String
  pageSize : Int
  dateFrom : Option Datetime
  dateTo : Option Datetime
  dirty : Bool

def valueOr {α : Type} (o : Option α) : Except Exn α :=
  match o with
  | some a => .ok a
  | none => .error (.builtin .valueError)

section
variable [DatetimeLib]

def isoOrNone (s : Option String) : Except Exn (Option Datetime) :=
  match s with
  | none => .ok none
  | some s => if s = "" then .ok none else (valueOr (DatetimeLib.fromisoformat s)).map some

/-- The record that a non-empty hash is read as. -/
def decodeConfig (userId : Int) (raw : Hash) : Except Exn TapeConfig := do
  let pageSize ← valueOr (Python.int ((raw.get "page_size").getD "20"))
  let dateFrom ← isoOrNone (raw.get "date_from")
  let dateTo ← isoOrNone (raw.get "date_to")
  return {
    userId
    ordering := (raw.get "ordering").getD "desc"
    displayMode := (raw.get "display_mode").getD "compact"
    pageSize
    dateFrom
    dateTo
    dirty := raw.get "dirty" = some "1" }

def getConfig (userId : Int) : Prog (Option TapeConfig) := do
  let raw ← hgetall (cfgKey userId)
  if raw.entries = [] then
    return none
  else
    let cfg ← Program.ofExcept (decodeConfig userId raw)
    return some cfg

/-- The fields that `upsert_config` writes. -/
def configMapping (ordering : Ordering) (displayMode : DisplayMode) (pageSize : Int)
    (dateFrom dateTo : Option Datetime) : List (String × String) :=
  [("ordering", ordering.text),
    ("display_mode", displayMode.text),
    ("page_size", toString pageSize),
    ("date_from", (dateFrom.map DatetimeLib.isoformat).getD ""),
    ("date_to", (dateTo.map DatetimeLib.isoformat).getD ""),
    ("dirty", "1")]

def upsertConfig (userId : Int) (ordering : Ordering) (displayMode : DisplayMode) (pageSize : Int)
    (dateFrom dateTo : Option Datetime) : Prog Unit :=
  hset (cfgKey userId) (configMapping ordering displayMode pageSize dateFrom dateTo)

end

/-- `list_users_with_config`, for the keys that `SCAN` yields. -/
def listUsersWithConfig : List String → Prog (List (Int × Bool))
  | [] => return []
  | key :: keys =>
      if startsWith key "tape:cfg:src:" then listUsersWithConfig keys
      else
        match Python.int (removePrefix key "tape:cfg:") with
        | none => listUsersWithConfig keys
        | some uid => do
            let dirty ← hget key "dirty"
            let out ← listUsersWithConfig keys
            return (uid, dirty = some "1") :: out

def clearDirty (userId : Int) : Prog Unit := hset (cfgKey userId) [("dirty", "0")]

def getConfigSources (userId : Int) : Prog (List Int) := do
  let members ← smembers (cfgSourcesKey userId)
  return members.insertionSort (· ≤ ·)

def setConfigSources (userId : Int) (sourceIds : List Int) : Prog Unit :=
  ask (.multiReplaceSources (cfgSourcesKey userId) sourceIds (cfgKey userId))

/-! ## Entries -/

/-- `[(position, document_id), ...]` up to `limit`, ordered by position. -/
def listEntriesPage (userId : Int) (afterPosition : Option Int) (limit : Int) :
    Prog (List (Int × Int)) := do
  let rows ←
    match afterPosition with
    | none => zrange (entriesKey userId) 0 (limit - 1)
    | some after => zrangebyscore (entriesKey userId) after limit
  return rows.map fun row => (row.2, row.1)

def countEntries (userId : Int) : Prog Nat := zcard (entriesKey userId)

def maxPosition (userId : Int) : Prog Int := do
  let last ← zrange (entriesKey userId) (-1) (-1)
  match last with
  | [] => return -1
  | row :: _ => return row.2

/-- The commands of the pipeline of `append_entries`, with their replies in order. -/
def pipeZaddNx (key : String) : List Int → Int → Prog (List Nat)
  | [], _ => return []
  | docId :: docIds, position => do
      let r ← zaddNx key docId position
      let results ← pipeZaddNx key docIds (position + 1)
      return r :: results

/-- The (position, document) pairs whose command answered 1, in submission order. -/
def appendedPairs (docIds : List Int) (results : List Nat) (startPosition : Int) : List (Int × Int) :=
  (docIds.zip results).zipIdx.filterMap fun x =>
    if x.1.2 = 1 then some (startPosition + x.2, x.1.1) else none

def appendEntries (userId : Int) (docIds : List Int) (startPosition : Int) :
    Prog (List (Int × Int)) := do
  if docIds = [] then
    return []
  else
    let results ← pipeZaddNx (entriesKey userId) docIds startPosition
    return appendedPairs docIds results startPosition

def removeEntry (userId documentId : Int) : Prog Nat := zrem (entriesKey userId) documentId

def deleteAllEntries (userId : Int) : Prog Nat := ask (.multiZcardDel (entriesKey userId))

/-! ## Runs -/

def createRun (userId : Int) (kind : Kind) : Prog Int := do
  let runId ← incr runCounterKey
  xadd (runsKey userId) (.running runId kind)
  return runId

def finishRun (userId runId : Int) (status : Status) (added removed : Nat) : Prog Unit :=
  xadd (runsKey userId) (.finished runId status added removed)

/-! ## The lock -/

def isLocked (userId : Int) : Prog Bool := keyExists (lockKey userId)

/-- Entering `per_user_lock` with the token that it has drawn. -/
def acquireLock (userId : Int) (token : String) : Prog Bool := setNxEx (lockKey userId) token

/-- The body of a `with per_user_lock(...)` that was entered with `got`. -/
def withLock {α : Type} (userId : Int) (token : String) (got : Bool) (body : Prog α) : Prog α :=
  body.tryFinally (if got then evalRelease (lockKey userId) token else pure ())

end TapeService
