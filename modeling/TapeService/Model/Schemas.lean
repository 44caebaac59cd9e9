import TapeService.Python

/-!
# Requests, answers and errors
-/

namespace TapeService

open Python

inductive ErrorCode where
  | invalidRequest
  | unauthorized
  | forbidden
  | notFound
  | conflict
  | alreadyScored
  | rateLimited
  | tapePreparing
  | tapeLocked
  | internal
  deriving DecidableEq, Repr

def ErrorCode.status : ErrorCode → Nat
  | .invalidRequest => 400
  | .unauthorized => 401
  | .forbidden => 403
  | .notFound => 404
  | .conflict => 409
  | .alreadyScored => 409
  | .rateLimited => 429
  | .tapePreparing => 503
  | .tapeLocked => 409
  | .internal => 500

/-- What a call or a handler raises. -/
inductive Exn where
  | builtin (e : Python.Error)
  /-- A Redis or database call that did not get through. -/
  | callFailed
  | uniqueViolation
  | foreignKeyViolation
  /-- psycopg does not send the statement. -/
  | dataError
  /-- No SQL function takes arguments of these types. -/
  | undefinedFunction
  /-- The user has already scored this document under this role. -/
  | alreadyScored
  | apiError (code : ErrorCode) (message : String)
  deriving DecidableEq, Repr

inductive Ordering where
  | asc
  | desc
  deriving DecidableEq, Repr

def Ordering.text : Ordering → String
  | .asc => "asc"
  | .desc => "desc"

inductive DisplayMode where
  | compact
  | detailed
  deriving DecidableEq, Repr

def DisplayMode.text : DisplayMode → String
  | .compact => "compact"
  | .detailed => "detailed"

structure SourceRef where
  id : Int
  name : Option String
  deriving DecidableEq, Repr

structure ConfigResponse [DatetimeLib] where
  ordering : String
  displayMode : String
  pageSize : Int
  dateFrom : Option Datetime
  dateTo : Option Datetime
  dirty : Bool
  selectedSourceIds : List Int
  availableSources : List SourceRef

/-- The body of `PUT /config`; the bounds of the page size are checked on the way in. -/
structure ConfigUpdate [DatetimeLib] where
  ordering : Ordering
  displayMode : DisplayMode
  pageSize : Int
  pageSize_bounds : 1 ≤ pageSize ∧ pageSize ≤ 200
  dateFrom : Option Datetime
  dateTo : Option Datetime
  selectedSourceIds : List Int

inductive Verdict where
  | yes
  | no
  | unsure
  deriving DecidableEq, Repr

/-- `_VERDICT_TO_SCORE`. -/
def Verdict.toScore : Verdict → Rat
  | .yes => 1
  | .no => 0
  | .unsure => 1 / 2

structure ScoreRequest where
  documentId : Int
  roleId : Int
  verdict : Verdict
  comment : Option String
  comment_length : ∀ c ∈ comment, c.length ≤ 2000

structure RoleRef where
  id : Int
  name : Option String
  deriving DecidableEq, Repr

structure TapeDocument where
  id : Int
  sourceId : Int
  title : String
  link : String
  published : Int
  abstract : Option String
  text : Option String
  deriving DecidableEq, Repr

structure TapeItem where
  entryId : Int
  position : Int
  document : TapeDocument
  roles : List RoleRef
  deriving DecidableEq, Repr

inductive PageState where
  | ok
  | empty
  | preparing
  deriving DecidableEq, Repr

structure TapePage where
  items : List TapeItem
  nextPosition : Option Int
  state : PageState
  displayMode : String
  deriving DecidableEq, Repr

/-! ## Events and runs -/

/-- What a generation reports: `skipped` when the lock is taken or no sources are selected. -/
inductive Kind where
  | full
  | incremental
  | skipped
  deriving DecidableEq, Repr

inductive Status where
  | ok
  | error
  deriving DecidableEq, Repr

/-- The frames of the per-user event channel, one constructor for each `make_*` function. -/
inductive Frame where
  | lockAcquired (userId : Int)
  | lockReleased (userId : Int)
  | scheduleQueued (userId : Int) (reason : String)
  | scheduleStarted (userId runId : Int) (kind : Kind)
  | scheduleCompleted (userId runId : Int) (status : Status)
  | tapeEntryAdded (userId position documentId : Int)
  | tapeEntryRemoved (userId documentId : Int)
  | tapeRegenerated (userId : Int) (kind : Kind) (added removed : Nat)
  deriving DecidableEq, Repr

/-- A record of the runs stream. -/
inductive RunRecord where
  | running (id : Int) (kind : Kind)
  | finished (id : Int) (status : Status) (added removed : Nat)
  deriving DecidableEq, Repr

end TapeService
