import TapeService.Model.TapeStore

/-!
# The HTTP handlers

`GET /tape`, `POST /score`, `GET /config` and `PUT /config`, for the user that the session names.
-/

namespace TapeService

open Interleaving Python Client

/-! ## Reads of the platform database -/

def fetchByIds (ids : List Int) : Prog (List Document) :=
  if ids = [] then return [] else ask (.fetchByIds ids)

def fetchRoleNames (ids : List Int) : Prog (List (Int × String)) :=
  if ids = [] then return [] else ask (.roleNames ids)

def fetchSourceNames (ids : List Int) : Prog (List (Int × String)) :=
  if ids = [] then return [] else ask (.sourceNames ids)

def rolesFor (userId sourceId : Int) : Prog (List Int) := ask (.rolesFor userId sourceId)

def sourcesFor (userId : Int) : Prog (List Int) := ask (.sourcesFor userId)

/-! ## `GET /tape` -/

def filterAlreadyScored (userId : Int) (docIds : List Int) : Prog (List Int) :=
  if docIds = [] then return [] else ask (.scoredAmong userId docIds)

def rolesPerSource (userId : Int) : List Int → Prog (List (Int × List Int))
  | [] => return []
  | sid :: sids => do
      let rids ← rolesFor userId sid
      let rest ← rolesPerSource userId sids
      return (sid, rids) :: rest

/-- The roles that the user can score under, for each of the sources. -/
def rolesBySource (userId : Int) (sourceIds : List Int) : Prog (List (Int × List RoleRef)) := do
  let perSource ← rolesPerSource userId sourceIds
  let allRoleIds := (perSource.flatMap (·.2)).dedup
  let names ← fetchRoleNames (allRoleIds.insertionSort (· ≤ ·))
  return perSource.map fun (sid, rids) => (sid, rids.map fun rid => { id := rid, name := names.lookup rid })

def tapeItem (displayMode : String) (rolesBySrc : List (Int × List RoleRef)) (position : Int)
    (d : Document) : TapeItem :=
  { entryId := position
    position
    document :=
      { id := d.id
        sourceId := d.sourceid
        title := d.title
        link := d.weblink
        published := d.published
        abstract := d.abstract
        text := if displayMode = "detailed" then d.text else none }
    roles := (rolesBySrc.lookup d.sourceid).getD [] }

/-- The loop over the rows of a page: scored entries are removed, missing documents are skipped. -/
def pageItems (userId : Int) (displayMode : String) (docs : List Document) (alreadyScored : List Int)
    (rolesBySrc : List (Int × List RoleRef)) : List (Int × Int) → Prog (List TapeItem)
  | [] => return []
  | (position, docId) :: rows => do
      if docId ∈ alreadyScored then
        let removed ← removeEntry userId docId
        if removed ≠ 0 then
          publish userId (.tapeEntryRemoved userId docId)
        pageItems userId displayMode docs alreadyScored rolesBySrc rows
      else
        match docs.find? (·.id = docId) with
        | none => pageItems userId displayMode docs alreadyScored rolesBySrc rows
        | some d =>
            let items ← pageItems userId displayMode docs alreadyScored rolesBySrc rows
            return tapeItem displayMode rolesBySrc position d :: items

/-- The sources of the documents that the page will show. -/
def pageSourceIds (docs : List Document) (alreadyScored docIds : List Int) : List Int :=
  (docIds.filterMap fun d =>
    if d ∈ alreadyScored then none else (docs.find? (·.id = d)).map (·.sourceid)).dedup

section
variable [DatetimeLib]

/-- The page made of the rows that were read. -/
def readRows (userId : Int) (cfg : TapeConfig) (rows : List (Int × Int)) : Prog TapePage := do
  let docIds := rows.map (·.2)
  let docs ← fetchByIds docIds
  let alreadyScored ← filterAlreadyScored userId docIds
  let rolesBySrc ← rolesBySource userId (pageSourceIds docs alreadyScored docIds)
  let items ← pageItems userId cfg.displayMode docs alreadyScored rolesBySrc rows
  let nextPosition :=
    if (rows.length : Int) = cfg.pageSize then rows.getLast?.map (·.1) else none
  return {
    items
    nextPosition
    state := if items = [] then .empty else .ok
    displayMode := cfg.displayMode }

def readTape (userId : Int) (after : Option Nat) : Prog TapePage := do
  let locked ← isLocked userId
  if locked then
    .raise (.apiError .tapeLocked "tape is regenerating")
  else
    match ← getConfig userId with
    | none => return { items := [], nextPosition := none, state := .empty, displayMode := "compact" }
    | some cfg =>
        let rows ← listEntriesPage userId (after.map Int.ofNat) cfg.pageSize
        if rows = [] then
          let total ← countEntries userId
          return {
            items := []
            nextPosition := none
            state := if total = 0 ∧ cfg.dirty then .preparing else .empty
            displayMode := cfg.displayMode }
        else
          readRows userId cfg rows

end

/-! ## `POST /score` -/

/-- `db.score.save`. -/
def scoreSave (userId documentId roleId : Int) (score : ScorePayload) (comment : Option String) :
    Prog Int :=
  (ask (.scoreSave userId documentId roleId score comment)).tryCatch fun
    | .uniqueViolation => .raise .alreadyScored
    | e => .raise e

def submitScore (userId : Int) (payload : ScoreRequest) : Prog Int := do
  let scoreId ←
    (scoreSave userId payload.documentId payload.roleId
      { score := payload.verdict.toScore, comment := payload.comment } payload.comment).tryCatch fun
    | .alreadyScored =>
        .raise (.apiError .alreadyScored "this document has already been scored by you")
    | e => .raise e
  let _ ← removeEntry userId payload.documentId
  publish userId (.tapeEntryRemoved userId payload.documentId)
  return scoreId

/-! ## `GET /config` and `PUT /config` -/

/-- `_hydrate_sources`. -/
def hydrateSources (userId : Int) : Prog (List Int × List SourceRef) := do
  let allowed ← sourcesFor userId
  let names ← fetchSourceNames allowed
  return (allowed, allowed.map fun i => { id := i, name := names.lookup i })

/-- The text of a list of integers. -/
def listText (xs : List Int) : String :=
  "[" ++ ", ".intercalate (xs.map toString) ++ "]"

section
variable [DatetimeLib]

def readConfig (userId : Int) : Prog ConfigResponse := do
  let cfg ← getConfig userId
  let selected ← getConfigSources userId
  let (_, available) ← hydrateSources userId
  match cfg with
  | none => return {
      ordering := "desc"
      displayMode := "compact"
      pageSize := 20
      dateFrom := none
      dateTo := none
      dirty := false
      selectedSourceIds := selected
      availableSources := available }
  | some cfg => return {
      ordering := cfg.ordering
      displayMode := cfg.displayMode
      pageSize := cfg.pageSize
      dateFrom := cfg.dateFrom
      dateTo := cfg.dateTo
      dirty := cfg.dirty
      selectedSourceIds := selected
      availableSources := available }

def writeConfig (userId : Int) (payload : ConfigUpdate) : Prog ConfigResponse := do
  let (allowed, _) ← hydrateSources userId
  let requested := payload.selectedSourceIds.dedup
  let bad := requested.filter (· ∉ allowed)
  if bad ≠ [] then
    .raise (.apiError .forbidden
      ("sources not permitted for this user: " ++ listText (bad.insertionSort (· ≤ ·))))
  else
    upsertConfig userId payload.ordering payload.displayMode payload.pageSize payload.dateFrom payload.dateTo
    setConfigSources userId payload.selectedSourceIds
    publish userId (.scheduleQueued userId "config_dirty")
    readConfig userId

end

end TapeService
