import TapeService.Lemmas.Effects

/-!
# The calls of each program

For every handler, the calls that it can make at all. A property that these calls have wherever they occur
needs no look at the control flow of the handler.
-/

namespace TapeService

open Interleaving Interleaving.Program Python Client

/-- The document that a frame is about, and whether its entry was added. -/
def Frame.entry? : Frame → Option (Int × Bool)
  | .tapeEntryAdded _ _ d => some (d, true)
  | .tapeEntryRemoved _ d => some (d, false)
  | _ => none

/-- The `user_id` of a frame. -/
def Frame.userId : Frame → Int
  | .lockAcquired u => u
  | .lockReleased u => u
  | .scheduleQueued u _ => u
  | .scheduleStarted u _ _ => u
  | .scheduleCompleted u _ _ => u
  | .tapeEntryAdded u _ _ => u
  | .tapeEntryRemoved u _ => u
  | .tapeRegenerated u _ _ _ => u

/-- A frame goes to the channel of the user whom it names. -/
def Call.Addressed : Call → Prop
  | .publish channel event => channel = channelFor event.userId
  | _ => True

/-- The calls of `GET /tape`. -/
def ReadTapeCall (userId : Int) : Call → Prop
  | .exists key => key = lockKey userId
  | .hgetall key => key = cfgKey userId
  | .zrange key _ _ => key = entriesKey userId
  | .zrangebyscore key _ _ => key = entriesKey userId
  | .zcard key => key = entriesKey userId
  | .fetchByIds _ => True
  | .scoredAmong u _ => u = userId
  | .rolesFor u _ => u = userId
  | .roleNames _ => True
  | .zrem key _ => key = entriesKey userId
  | .publish channel event => channel = channelFor userId ∧ ∃ d, event = .tapeEntryRemoved userId d
  | _ => False

/-- The calls of `GET /tape` once its rows are read. -/
def PageCall (userId : Int) : Call → Prop
  | .zcard key => key = entriesKey userId
  | .fetchByIds _ => True
  | .scoredAmong u _ => u = userId
  | .rolesFor u _ => u = userId
  | .roleNames _ => True
  | .zrem key _ => key = entriesKey userId
  | .publish channel event => channel = channelFor userId ∧ ∃ d, event = .tapeEntryRemoved userId d
  | _ => False

/-- The calls of `POST /score`. -/
def SubmitScoreCall (userId documentId : Int) : Call → Prop
  | .scoreSave u d _ _ _ => u = userId ∧ d = documentId
  | .zrem key m => key = entriesKey userId ∧ m = documentId
  | .publish channel event => channel = channelFor userId ∧ event = .tapeEntryRemoved userId documentId
  | _ => False

/-- The calls of `GET /config`. -/
def ReadConfigCall (userId : Int) : Call → Prop
  | .hgetall key => key = cfgKey userId
  | .smembers key => key = cfgSourcesKey userId
  | .sourcesFor u => u = userId
  | .sourceNames _ => True
  | _ => False

/-- The calls of `_handle` for a payload that names the user and the document. -/
def HandleCall (userId documentId : Int) : Call → Prop
  | .zrem key m => key = entriesKey userId ∧ m = documentId
  | .publish channel event => channel = channelFor userId ∧ event = .tapeEntryRemoved userId documentId
  | _ => False

/-- The calls of `generate_for_user`. -/
def GenerateCall (token : String) (userId : Int) (dirty : Bool) : Call → Prop
  | .hgetall key => key = cfgKey userId
  | .smembers key => key = cfgSourcesKey userId
  | .multiZcardDel key => key = entriesKey userId ∧ dirty = true
  | .hset key mapping => key = cfgKey userId ∧ mapping = [("dirty", "0")] ∧ dirty = true
  | .setNxEx key t => key = lockKey userId ∧ t = token
  | .evalRelease key t => key = lockKey userId ∧ t = token
  | .publish channel _ => channel = channelFor userId
  | .incr key => key = runCounterKey
  | .xadd key _ => key = runsKey userId
  | .zrange key _ _ => key = entriesKey userId
  | .candidates u _ _ _ _ => u = userId
  | .zaddNx key _ _ => key = entriesKey userId
  | _ => False

variable {C : Call → Prop} {userId : Int}

theorem uses_ask {c : Call} (h : C c) : (ask c).Uses C := Uses.perform h

/-! ## The store -/

theorem createRun_uses {kind : Kind} (hi : C (.incr runCounterKey))
    (hx : ∀ r, C (.xadd (runsKey userId) r)) : (createRun userId kind).Uses C :=
  Uses.bind (uses_ask hi) fun _ => Uses.bind (uses_ask (hx _)) fun _ => trivial

theorem listEntriesPage_uses {after : Option Int} {limit : Int}
    (hr : ∀ i j, C (.zrange (entriesKey userId) i j))
    (hs : ∀ i j, C (.zrangebyscore (entriesKey userId) i j)) :
    (listEntriesPage userId after limit).Uses C := by
  cases after with
  | none => exact Uses.bind (uses_ask (hr _ _)) fun _ => trivial
  | some a => exact Uses.bind (uses_ask (hs _ _)) fun _ => trivial

theorem maxPosition_uses (hr : C (.zrange (entriesKey userId) (-1) (-1))) :
    (maxPosition userId).Uses C := by
  refine Uses.bind (uses_ask hr) fun last => ?_
  cases last <;> trivial

theorem pipeZaddNx_uses {key : String} (h : ∀ m p, C (.zaddNx key m p)) (docIds : List Int) (p : Int) :
    (pipeZaddNx key docIds p).Uses C := by
  induction docIds generalizing p with
  | nil => trivial
  | cons d ds ih => exact Uses.bind (uses_ask (h d p)) fun _ => Uses.bind (ih _) fun _ => trivial

theorem appendEntries_uses {docIds : List Int} {start : Int}
    (h : ∀ m p, C (.zaddNx (entriesKey userId) m p)) : (appendEntries userId docIds start).Uses C := by
  unfold appendEntries
  split
  · trivial
  · exact Uses.bind (pipeZaddNx_uses h docIds start) fun _ => trivial

theorem getConfigSources_uses (h : C (.smembers (cfgSourcesKey userId))) :
    (getConfigSources userId).Uses C :=
  Uses.bind (uses_ask h) fun _ => trivial

/-! ## Parts of the handlers -/

theorem failRun_uses {runId : Int} {kind : Kind} {removed : Nat} {e : Exn}
    (hx : ∀ r, C (.xadd (runsKey userId) r))
    (hp : ∀ event : Frame, event.entry? = none → event.userId = userId → C (.publish (channelFor userId) event)) :
    (failRun userId runId kind removed e).Uses C :=
  Uses.bind (uses_ask (hx _)) fun _ => Uses.bind (uses_ask (hp _ rfl rfl)) fun _ =>
    Uses.bind (uses_ask (hp _ rfl rfl)) fun _ => trivial

theorem prepare_uses {dirty : Bool} (hm : dirty = true → C (.multiZcardDel (entriesKey userId)))
    (hr : ∀ i j, C (.zrange (entriesKey userId) i j)) : (prepare userId dirty).Uses C := by
  unfold prepare
  split
  · rename_i hdirty
    exact Uses.bind (uses_ask (hm hdirty)) fun _ => trivial
  · exact Uses.bind (maxPosition_uses (hr _ _)) fun _ =>
      Uses.bind (Uses.bind (uses_ask (hr _ _)) fun _ => trivial) fun _ => trivial

theorem completeRun_uses {runId : Int} {kind : Kind} {added removed : Nat}
    (hx : ∀ r, C (.xadd (runsKey userId) r))
    (hp : ∀ event : Frame, event.entry? = none → event.userId = userId → C (.publish (channelFor userId) event)) :
    (completeRun userId runId kind added removed).Uses C :=
  Uses.bind (uses_ask (hx _)) fun _ => Uses.bind (uses_ask (hp _ rfl rfl)) fun _ =>
    Uses.bind (uses_ask (hp _ rfl rfl)) fun _ => trivial

theorem report_uses {appended : List (Int × Int)} {dirty : Bool} {kind : Kind} {runId : Int}
    {removed : Nat} (hd : dirty = true → C (.hset (cfgKey userId) [("dirty", "0")]))
    (hx : ∀ r, C (.xadd (runsKey userId) r))
    (hp : ∀ event : Frame, event.userId = userId → C (.publish (channelFor userId) event)) :
    (report userId dirty kind runId removed appended).Uses C := by
  refine Uses.bind (Uses.forM appended fun entry _ => uses_ask (hp _ rfl)) fun _ => ?_
  split
  · rename_i hdirty
    exact Uses.bind (uses_ask (hd hdirty)) fun _ => completeRun_uses hx fun event _ => hp event
  · exact completeRun_uses hx fun event _ => hp event

theorem fetchByIds_uses {ids : List Int} (h : ∀ ids, C (.fetchByIds ids)) : (fetchByIds ids).Uses C := by
  unfold fetchByIds
  split
  · trivial
  · exact uses_ask (h _)

theorem filterAlreadyScored_uses {ids : List Int} (h : ∀ ids, C (.scoredAmong userId ids)) :
    (filterAlreadyScored userId ids).Uses C := by
  unfold filterAlreadyScored
  split
  · trivial
  · exact uses_ask (h _)

/-- What `_handle` reads out of a notification is what the trigger has written into it. -/
theorem decodePayload_eq_ok {n : Notification} {u d : Int} (h : decodePayload n.payload = .ok (u, d)) :
    n.userId = some u ∧ n.documentId = some d := by
  obtain ⟨userId, documentId⟩ := n
  cases userId with
  | none => cases h
  | some u' =>
      cases documentId with
      | none => cases h
      | some d' => cases h; exact ⟨rfl, rfl⟩

theorem handle_uses {payload : Text} {u d : Int} (h : decodePayload payload = .ok (u, d)) :
    (handle payload).Uses (HandleCall u d) := by
  unfold handle
  rw [h]
  refine Uses.tryCatch (Uses.bind (uses_ask ⟨rfl, rfl⟩) fun removed => ?_) fun _ => trivial
  split
  · exact uses_ask ⟨rfl, rfl⟩
  · trivial

/-- A payload that does not decode leads to no call at all. -/
theorem handle_uses_of_error {payload : Text} {e : Python.Error} (h : decodePayload payload = .error e) :
    (handle payload).Uses C := by
  unfold handle
  rw [h]
  simp only
  split <;> trivial

theorem handle_uses_decoded (payload : Text) :
    (handle payload).Uses fun c => ∃ u d, decodePayload payload = .ok (u, d) ∧ HandleCall u d c := by
  cases h : decodePayload payload with
  | error e => exact handle_uses_of_error h
  | ok x => exact (handle_uses h).mono fun c hc => ⟨x.1, x.2, rfl, hc⟩

theorem rolesBySource_uses {sourceIds : List Int} (hr : ∀ s, C (.rolesFor userId s))
    (hn : ∀ ids, C (.roleNames ids)) : (rolesBySource userId sourceIds).Uses C := by
  have hper : ∀ sids, (rolesPerSource userId sids).Uses C := by
    intro sids
    induction sids with
    | nil => trivial
    | cons sid sids ih => exact Uses.bind (uses_ask (hr _)) fun _ => Uses.bind ih fun _ => trivial
  refine Uses.bind (hper _) fun _ => Uses.bind ?_ fun _ => trivial
  unfold fetchRoleNames
  split
  · trivial
  · exact uses_ask (hn _)

theorem pageItems_uses {displayMode : String} {docs : List Document} {alreadyScored : List Int}
    {rolesBySrc : List (Int × List RoleRef)} {rows : List (Int × Int)}
    (hr : ∀ d ∈ alreadyScored, C (.zrem (entriesKey userId) d))
    (hp : ∀ d ∈ alreadyScored, C (.publish (channelFor userId) (.tapeEntryRemoved userId d))) :
    (pageItems userId displayMode docs alreadyScored rolesBySrc rows).Uses C := by
  induction rows with
  | nil => trivial
  | cons row rows ih =>
      obtain ⟨position, docId⟩ := row
      unfold pageItems
      split
      · rename_i hmem
        refine Uses.bind (uses_ask (hr _ hmem)) fun removed => ?_
        split
        · exact Uses.bind (uses_ask (hp _ hmem)) fun _ => ih
        · exact ih
      · split
        · exact ih
        · exact Uses.bind ih fun _ => trivial

theorem hydrateSources_uses (hs : C (.sourcesFor userId)) (hn : ∀ ids, C (.sourceNames ids)) :
    (hydrateSources userId).Uses C := by
  refine Uses.bind (uses_ask hs) fun allowed => Uses.bind ?_ fun _ => trivial
  unfold fetchSourceNames
  split
  · trivial
  · exact uses_ask (hn _)

theorem submitScore_uses {payload : ScoreRequest} :
    (submitScore userId payload).Uses (SubmitScoreCall userId payload.documentId) := by
  refine Uses.bind (Uses.tryCatch (Uses.tryCatch (uses_ask ⟨rfl, rfl⟩) fun e => ?_) fun e => ?_) fun _ =>
    Uses.bind (uses_ask ⟨rfl, rfl⟩) fun _ => Uses.bind (uses_ask ⟨rfl, rfl⟩) fun _ => trivial
  · split <;> trivial
  · split <;> trivial

/-! ## Plain functions -/

theorem createRun_plain {kind : Kind} : (createRun userId kind).Plain :=
  Plain.bind Plain.perform fun _ => Plain.bind Plain.perform fun _ => trivial

theorem maxPosition_plain : (maxPosition userId).Plain :=
  Plain.bind Plain.perform fun last => by cases last <;> trivial

theorem prepare_plain {dirty : Bool} : (prepare userId dirty).Plain := by
  cases dirty with
  | true => exact Plain.bind Plain.perform fun _ => trivial
  | false =>
      have hpage : (listEntriesPage userId none 10000).Plain := Plain.bind Plain.perform fun _ => trivial
      exact Plain.bind maxPosition_plain fun _ => Plain.bind hpage fun _ => trivial

theorem pipeZaddNx_plain {key : String} (docIds : List Int) (p : Int) : (pipeZaddNx key docIds p).Plain := by
  induction docIds generalizing p with
  | nil => trivial
  | cons d ds ih => exact Plain.bind Plain.perform fun _ => Plain.bind (ih _) fun _ => trivial

theorem appendEntries_plain {docIds : List Int} {start : Int} : (appendEntries userId docIds start).Plain := by
  unfold appendEntries
  split
  · trivial
  · exact Plain.bind (pipeZaddNx_plain docIds start) fun _ => trivial

section
variable [DatetimeLib]

theorem candidatesForUser_plain {sourceIds : List Int} {dateFrom dateTo : Option Datetime} {ordering : String}
    {excludeIds : List Int} : (candidatesForUser userId sourceIds dateFrom dateTo ordering excludeIds).Plain := by
  unfold candidatesForUser
  split
  · trivial
  · refine Plain.bind Plain.perform fun rows => ?_
    split <;> trivial

/-! ## The handlers -/

theorem getConfig_uses (h : C (.hgetall (cfgKey userId))) : (getConfig userId).Uses C := by
  refine Uses.bind (uses_ask h) fun raw => ?_
  split
  · trivial
  · exact Uses.bind (Uses.ofExcept _) fun _ => trivial

theorem candidatesForUser_uses {sourceIds : List Int} {dateFrom dateTo : Option Datetime}
    {ordering : String} {excludeIds : List Int} (h : ∀ s f t o, C (.candidates userId s f t o)) :
    (candidatesForUser userId sourceIds dateFrom dateTo ordering excludeIds).Uses C := by
  unfold candidatesForUser
  split
  · trivial
  · refine Uses.bind (uses_ask (h _ _ _ _)) fun rows => ?_
    split <;> trivial

theorem fill_uses {cfg : TapeConfig} {sources : List Int} {dirty : Bool} {kind : Kind} {runId : Int}
    {base : Base} (hc : ∀ s f t o, C (.candidates userId s f t o))
    (ha : ∀ m p, C (.zaddNx (entriesKey userId) m p))
    (hd : dirty = true → C (.hset (cfgKey userId) [("dirty", "0")]))
    (hx : ∀ r, C (.xadd (runsKey userId) r))
    (hp : ∀ event : Frame, event.userId = userId → C (.publish (channelFor userId) event)) :
    (fill userId cfg sources dirty kind runId base).Uses C :=
  Uses.bind (candidatesForUser_uses hc) fun _ => Uses.bind (appendEntries_uses ha) fun _ =>
    report_uses hd hx hp

theorem regenerate_uses_of {cfg : TapeConfig} {sources : List Int} {dirty : Bool} (hi : C (.incr runCounterKey))
    (hm : dirty = true → C (.multiZcardDel (entriesKey userId)))
    (hr : ∀ i j, C (.zrange (entriesKey userId) i j)) (hc : ∀ s f t o, C (.candidates userId s f t o))
    (ha : ∀ m p, C (.zaddNx (entriesKey userId) m p))
    (hd : dirty = true → C (.hset (cfgKey userId) [("dirty", "0")]))
    (hx : ∀ r, C (.xadd (runsKey userId) r))
    (hp : ∀ event : Frame, event.userId = userId → C (.publish (channelFor userId) event)) :
    (regenerate userId dirty cfg sources).Uses C := by
  refine Uses.bind (uses_ask (hp _ rfl)) fun _ => Uses.bind (createRun_uses hi hx) fun _ =>
    Uses.bind (uses_ask (hp _ rfl)) fun _ => (prepare_uses hm hr).andThen fun r => ?_
  cases r with
  | error e => exact failRun_uses hx fun event _ => hp event
  | ok base => exact Uses.tryCatch (fill_uses hc ha hd hx hp) fun _ => failRun_uses hx fun event _ => hp event

theorem generateForUser_uses_of {t : String} {dirty : Bool} (hcfg : C (.hgetall (cfgKey userId)))
    (hsources : C (.smembers (cfgSourcesKey userId))) (hlock : C (.setNxEx (lockKey userId) t))
    (hrelease : C (.evalRelease (lockKey userId) t)) (hi : C (.incr runCounterKey))
    (hm : dirty = true → C (.multiZcardDel (entriesKey userId)))
    (hr : ∀ i j, C (.zrange (entriesKey userId) i j)) (hc : ∀ s f t o, C (.candidates userId s f t o))
    (ha : ∀ m p, C (.zaddNx (entriesKey userId) m p))
    (hd : dirty = true → C (.hset (cfgKey userId) [("dirty", "0")]))
    (hx : ∀ r, C (.xadd (runsKey userId) r))
    (hp : ∀ event : Frame, event.userId = userId → C (.publish (channelFor userId) event)) :
    (generateForUser t userId dirty).Uses C := by
  refine Uses.bind (getConfig_uses hcfg) fun cfg => ?_
  cases cfg with
  | none => trivial
  | some cfg =>
      refine Uses.bind (getConfigSources_uses hsources) fun sources => ?_
      split
      · split
        · rename_i hdirty
          exact Uses.bind (uses_ask (hm hdirty)) fun _ => Uses.bind (uses_ask (hd hdirty)) fun _ => trivial
        · trivial
      · refine Uses.bind (uses_ask hlock) fun got => ?_
        split
        · exact Uses.tryFinally (Uses.tryFinally (regenerate_uses_of hi hm hr hc ha hd hx hp) (uses_ask hrelease))
            (uses_ask (hp _ rfl))
        · exact Uses.tryFinally trivial trivial

/-- While the lock is held, no call is about the lock. -/
theorem regenerate_uses {t : String} {dirty : Bool} {cfg : TapeConfig} {sources : List Int} :
    (regenerate userId dirty cfg sources).Uses
      fun c : Call => GenerateCall t userId dirty c ∧ ¬ c.EditsLock userId :=
  regenerate_uses_of ⟨rfl, id⟩ (fun h => ⟨⟨rfl, h⟩, id⟩) (fun _ _ => ⟨rfl, id⟩) (fun _ _ _ _ => ⟨rfl, id⟩)
    (fun _ _ => ⟨rfl, id⟩) (fun h => ⟨⟨rfl, rfl, h⟩, id⟩) (fun _ => ⟨rfl, id⟩) fun _ _ => ⟨rfl, id⟩

theorem generateForUser_uses {t : String} {dirty : Bool} :
    (generateForUser t userId dirty).Uses (GenerateCall t userId dirty) :=
  generateForUser_uses_of rfl rfl ⟨rfl, rfl⟩ ⟨rfl, rfl⟩ rfl (fun h => ⟨rfl, h⟩) (fun _ _ => rfl)
    (fun _ _ _ _ => rfl) (fun _ _ => rfl) (fun h => ⟨rfl, rfl, h⟩) (fun _ => rfl) fun _ _ => rfl

theorem readRows_uses {cfg : TapeConfig} {rows : List (Int × Int)} :
    (readRows userId cfg rows).Uses (PageCall userId) := by
  exact Uses.bind (fetchByIds_uses fun _ => trivial) fun docs =>
    Uses.bind (filterAlreadyScored_uses fun _ => rfl) fun scored =>
      Uses.bind (rolesBySource_uses (fun _ => rfl) fun _ => trivial) fun roles =>
        Uses.bind (pageItems_uses (fun _ _ => rfl) fun d _ => ⟨rfl, d, rfl⟩) fun _ => trivial

theorem readTape_uses {after : Option Nat} : (readTape userId after).Uses (ReadTapeCall userId) := by
  refine Uses.bind (uses_ask rfl) fun locked => ?_
  split
  · trivial
  · refine Uses.bind (getConfig_uses rfl) fun cfg => ?_
    cases cfg with
    | none => trivial
    | some cfg =>
        refine Uses.bind (listEntriesPage_uses (fun _ _ => rfl) fun _ _ => rfl) fun rows => ?_
        split
        · exact Uses.bind (uses_ask rfl) fun _ => trivial
        · exact readRows_uses.mono fun c hc => by cases c <;> first | exact hc | exact hc.elim

theorem readConfig_uses : (readConfig userId).Uses (ReadConfigCall userId) := by
  refine Uses.bind (getConfig_uses rfl) fun cfg => Uses.bind (getConfigSources_uses rfl) fun selected =>
    Uses.bind (hydrateSources_uses rfl fun _ => trivial) fun available => ?_
  cases cfg <;> trivial

/-- The calls of `PUT /config`. -/
def WriteConfigCall (userId : Int) (payload : ConfigUpdate) : Call → Prop
  | .hset key mapping => key = cfgKey userId ∧ mapping = configMapping payload.ordering payload.displayMode
      payload.pageSize payload.dateFrom payload.dateTo
  | .multiReplaceSources key sourceIds hashKey =>
      key = cfgSourcesKey userId ∧ sourceIds = payload.selectedSourceIds ∧ hashKey = cfgKey userId
  | .publish channel event => channel = channelFor userId ∧ event = .scheduleQueued userId "config_dirty"
  | c => ReadConfigCall userId c

theorem writeConfig_uses {payload : ConfigUpdate} :
    (writeConfig userId payload).Uses (WriteConfigCall userId payload) := by
  refine Uses.bind (hydrateSources_uses rfl fun _ => trivial) fun allowed => ?_
  obtain ⟨allowed, _⟩ := allowed
  simp only
  split
  · trivial
  · refine Uses.bind (uses_ask ⟨rfl, rfl⟩) fun _ => Uses.bind (uses_ask ⟨rfl, rfl, rfl⟩) fun _ =>
      Uses.bind (uses_ask ⟨rfl, rfl⟩) fun _ => Uses.mono (fun c hc => ?_) readConfig_uses
    cases c <;> first | exact hc | exact hc.elim

/-! ## Jobs -/

/-- The calls of thread `i` when it was started for the job. -/
def JobCall (i : Nat) : Job → Call → Prop
  | .generate userId dirty => GenerateCall (token i) userId dirty
  | .readTape userId _ => ReadTapeCall userId
  | .submitScore userId payload => SubmitScoreCall userId payload.documentId
  | .readConfig userId => ReadConfigCall userId
  | .writeConfig userId payload => WriteConfigCall userId payload
  | .handle n => fun c => ∃ u d, decodePayload n.payload = .ok (u, d) ∧ HandleCall u d c

theorem Job.body_uses (i : Nat) (job : Job) : (Job.body i job).Uses (JobCall i job) := by
  cases job with
  | generate userId dirty => exact Uses.bind generateForUser_uses fun _ => trivial
  | readTape userId after => exact Uses.bind readTape_uses fun _ => trivial
  | submitScore userId payload => exact Uses.bind submitScore_uses fun _ => trivial
  | readConfig userId => exact Uses.bind readConfig_uses fun _ => trivial
  | writeConfig userId payload => exact Uses.bind writeConfig_uses fun _ => trivial
  | handle n => exact Uses.bind (handle_uses_decoded n.payload) fun _ => trivial

theorem Job.body_addressed (i : Nat) (job : Job) : (Job.body i job).Uses Call.Addressed := by
  cases job with
  | generate userId dirty =>
      exact Uses.bind (generateForUser_uses_of trivial trivial trivial trivial trivial (fun _ => trivial)
        (fun _ _ => trivial) (fun _ _ _ _ => trivial) (fun _ _ => trivial) (fun _ => trivial) (fun _ => trivial)
        fun _ h => congrArg channelFor h.symm) fun _ => trivial
  | readTape userId after =>
      refine Uses.bind (readTape_uses.mono fun c hc => ?_) fun _ => trivial
      cases c with
      | publish channel event =>
          obtain ⟨rfl, d, rfl⟩ := hc
          rfl
      | _ => trivial
  | submitScore userId payload =>
      refine Uses.bind (submitScore_uses.mono fun c hc => ?_) fun _ => trivial
      cases c with
      | publish channel event =>
          obtain ⟨rfl, rfl⟩ := hc
          rfl
      | _ => trivial
  | readConfig userId =>
      refine Uses.bind (readConfig_uses.mono fun c hc => ?_) fun _ => trivial
      cases c with
      | publish channel event => exact hc.elim
      | _ => trivial
  | writeConfig userId payload =>
      refine Uses.bind (writeConfig_uses.mono fun c hc => ?_) fun _ => trivial
      cases c with
      | publish channel event =>
          obtain ⟨rfl, rfl⟩ := hc
          rfl
      | _ => trivial
  | handle n =>
      refine Uses.bind ((handle_uses_decoded n.payload).mono fun c hc => ?_) fun _ => trivial
      obtain ⟨u, d, -, hc⟩ := hc
      cases c with
      | publish channel event =>
          obtain ⟨rfl, rfl⟩ := hc
          rfl
      | _ => trivial

end

end TapeService
