import TapeService.Interleaving.Views
import TapeService.Lemmas.Config
import TapeService.Lemmas.Evaluation
import TapeService.Redis.Pipeline

/-!
# What a generation does

A generation that nothing interferes with, seen from its user: what it returns, what it leaves and which
entries it announces are functions of what is stored for the user.
-/

namespace TapeService

open Interleaving Interleaving.Program Python Redis

/-- What the generations of a user go by. -/
structure View where
  cfg : Hash
  sources : List Int
  tape : Tape
  lock : Option String
  db : Platform

def State.view (s : State) (userId : Int) : View :=
  { cfg := s.cfg userId, sources := s.sourceSet userId, tape := s.tape userId, lock := s.lock userId, db := s.db }

@[simp] theorem State.view_cfg {s : State} {userId : Int} : (s.view userId).cfg = s.cfg userId := rfl

@[simp] theorem State.view_sources {s : State} {userId : Int} : (s.view userId).sources = s.sourceSet userId := rfl

@[simp] theorem State.view_tape {s : State} {userId : Int} : (s.view userId).tape = s.tape userId := rfl

@[simp] theorem State.view_lock {s : State} {userId : Int} : (s.view userId).lock = s.lock userId := rfl

@[simp] theorem State.view_db {s : State} {userId : Int} : (s.view userId).db = s.db := rfl

/-- The (position, document) pair of a `tape.entry_added` frame to the user. -/
def Call.entryAdded? (userId : Int) : Call → Option (Int × Int)
  | .publish channel (.tapeEntryAdded u position docId) =>
      if channel = channelFor userId ∧ u = userId then some (position, docId) else none
  | _ => none

@[reducible] def aspect (userId : Int) : Aspect signature Exn State View (Int × Int) where
  exec := exec
  view s := s.view userId
  note? := Call.entryAdded? userId

/-- The call changes nothing that the generations of the user go by. -/
structure Call.Quiet (userId : Int) (c : Call) : Prop where
  tape : ¬ c.EditsTape userId
  cfg : ¬ c.EditsCfg userId
  sources : ¬ c.EditsSources userId
  lock : ¬ c.EditsLock userId
  scores : ¬ c.EditsScores

/-- The pairs whose command answered 1 are those of the members that were not there. -/
theorem appendedPairs_replies {z : Tape} {docIds : List Int} {n : Int} (h : docIds.Nodup) :
    appendedPairs docIds (z.replies docIds n) n = ((numbered docIds n).filter (·.1 ∉ z)).map Prod.swap := by
  rw [ZSet.replies_of_nodup h]
  have hrec : ∀ (ds : List Int) (k : Nat),
      ((ds.zip (ds.map fun m => if m ∈ z then 0 else 1)).zipIdx k).filterMap
        (fun x => if x.1.2 = 1 then some (n + x.2, x.1.1) else none) =
      ((numbered ds (n + k)).filter (·.1 ∉ z)).map Prod.swap := by
    intro ds k
    induction ds generalizing k with
    | nil => rfl
    | cons d ds ih =>
        have hk : n + (k : Int) + 1 = n + ((k + 1 : Nat) : Int) := by omega
        simp only [List.map_cons, List.zip_cons_cons, List.zipIdx_cons, numbered, hk, List.filterMap_cons, ih,
          List.filter_cons]
        by_cases hd : d ∈ z <;> simp [hd]
  simpa [appendedPairs] using hrec docIds 0

/-! ## What is stored for the user -/

namespace View

/-- What the appending starts from. -/
def base (v : View) (dirty : Bool) : Base :=
  if dirty then { removed := v.tape.zcard, start := 0, existing := [] }
  else
    { removed := 0
      start := ((v.tape.rows.getLast?).map Prod.snd).getD (-1) + 1
      existing := (v.tape.rows.take 10000).map Prod.fst }

/-- A full generation deletes all entries first. -/
def cleared (v : View) (dirty : Bool) : View := if dirty then { v with tape := .empty } else v

/-- A full generation clears the dirty flag. -/
def marked (v : View) (dirty : Bool) : View :=
  if dirty then { v with cfg := v.cfg.hset [("dirty", "0")] } else v

section
variable [DatetimeLib] (v : View) (userId : Int) (dirty : Bool) (cfg : TapeConfig)

/-- The answer of the candidate query. -/
def candidates : List Int :=
  v.db.candidates userId (v.sources.insertionSort (· ≤ ·)) (cfg.dateFrom.map DatetimeLib.timestamptz)
    (cfg.dateTo.map DatetimeLib.timestamptz) (cfg.ordering = "desc")

/-- The documents that a generation offers to the tape. -/
def offered : List Int := (v.candidates userId cfg).filter (· ∉ (v.base dirty).existing)

/-- What a generation leaves. -/
def outcome : View :=
  { v.cleared dirty with
      tape := (v.cleared dirty).tape.zaddAll (v.offered userId dirty cfg) (v.base dirty).start }.marked
    dirty

/-- The entries that a generation adds. -/
def appended : List (Int × Int) :=
  appendedPairs (v.offered userId dirty cfg)
    ((v.cleared dirty).tape.replies (v.offered userId dirty cfg) (v.base dirty).start) (v.base dirty).start

/-- A generation finds a config, sources and the lock. -/
structure Ready : Prop where
  configured : v.cfg.entries ≠ []
  decoded : decodeConfig userId v.cfg = .ok cfg
  sources : v.sources ≠ []
  lock : v.lock = none

/-- The config and the source set select the document, and the user has no score for it. -/
def Selects (d : Document) : Prop :=
  d.sourceid ∈ v.sources ∧ (∀ t ∈ cfg.dateFrom, DatetimeLib.timestamptz t ≤ d.published) ∧
    (∀ t ∈ cfg.dateTo, d.published ≤ DatetimeLib.timestamptz t) ∧ ¬ v.db.Scored userId d.id

/-- What a call of `generate_for_user` leaves, whether or not it comes to a generation. -/
def after : View :=
  if v.cfg.entries = [] then v
  else
    match decodeConfig userId v.cfg with
    | .error _ => v
    | .ok cfg =>
        if v.sources = [] then (v.cleared dirty).marked dirty
        else if v.lock = none then v.outcome userId dirty cfg
        else v

theorem candidates_perm :
    (v.candidates userId cfg).Perm ((v.db.candidateRows userId (v.sources.insertionSort (· ≤ ·))
    (cfg.dateFrom.map DatetimeLib.timestamptz) (cfg.dateTo.map DatetimeLib.timestamptz)).map (·.id)) := by
  unfold candidates Platform.candidates
  split <;> exact (List.perm_insertionSort _ _).map _

theorem mem_candidateRows {d : Document} :
    d ∈ v.db.candidateRows userId (v.sources.insertionSort (· ≤ ·)) (cfg.dateFrom.map DatetimeLib.timestamptz)
      (cfg.dateTo.map DatetimeLib.timestamptz) ↔ d ∈ v.db.documents ∧ v.Selects userId cfg d := by
  simp [Platform.candidateRows, Selects, List.mem_insertionSort]

theorem mem_candidates {d : Int} :
    d ∈ v.candidates userId cfg ↔ ∃ doc ∈ v.db.documents, v.Selects userId cfg doc ∧ doc.id = d := by
  rw [(v.candidates_perm userId cfg).mem_iff, List.mem_map]
  simp only [mem_candidateRows, and_assoc]

theorem candidates_nodup (h : (v.db.documents.map (·.id)).Nodup) : (v.candidates userId cfg).Nodup := by
  rw [(v.candidates_perm userId cfg).nodup_iff]
  exact h.sublist (List.filter_sublist.map _)

theorem appended_lock {l : Option String} :
    ({ v with lock := l } : View).appended userId dirty cfg = v.appended userId dirty cfg := by
  cases dirty <;> rfl

theorem outcome_lock {l : Option String} :
    ({ v with lock := l } : View).outcome userId dirty cfg = { v.outcome userId dirty cfg with lock := l } := by
  cases dirty <;> rfl

end

section
variable {v : View}

/-- New entries come after all others. -/
theorem below_base {x : Int × Int} (hx : x ∈ v.tape.rows) : x.2 < (v.base false).start := by
  have hstart : (v.base false).start = ((v.tape.rows.getLast?).map Prod.snd).getD (-1) + 1 := rfl
  cases hlast : v.tape.rows.getLast? with
  | none => simp [List.getLast?_eq_none_iff.mp hlast] at hx
  | some y =>
      have := ZSet.le_getLast hlast hx
      rw [hstart, hlast]
      simp only [Option.map_some, Option.getD_some]
      omega

theorem existing_mem {d : Int} (h : d ∈ (v.base false).existing) : d ∈ v.tape := by
  obtain ⟨x, hx, rfl⟩ := List.mem_map.mp h
  exact ZSet.mem_iff.mpr ⟨x.2, List.mem_of_mem_take hx⟩

variable [DatetimeLib] {userId : Int} {cfg : TapeConfig}

theorem Ready.after {dirty : Bool} (h : v.Ready userId cfg) :
    v.after userId dirty = v.outcome userId dirty cfg := by
  rw [View.after, if_neg h.configured, h.decoded]
  simp only [if_neg h.sources, if_pos h.lock]

theorem Ready.rebuilt (h : v.Ready userId cfg) :
    (v.outcome userId true cfg).Ready userId { cfg with dirty := false } :=
  ⟨Hash.hset_dirty_entries, decodeConfig_clean h.decoded, h.sources, h.lock⟩

theorem Ready.toppedUp (h : v.Ready userId cfg) : (v.outcome userId false cfg).Ready userId cfg :=
  ⟨h.configured, h.decoded, h.sources, h.lock⟩

theorem mem_topUp {d : Int} :
    d ∈ (v.outcome userId false cfg).tape ↔ d ∈ v.tape ∨ d ∈ v.candidates userId cfg := by
  have hmem : d ∈ (v.outcome userId false cfg).tape ↔ d ∈ v.tape ∨ d ∈ v.offered userId false cfg := ZSet.mem_zaddAll
  rw [hmem, View.offered, List.mem_filter]
  by_cases hd : d ∈ (v.base false).existing
  · simp [existing_mem hd]
  · simp [hd]

theorem mem_rebuilt {d : Int} : d ∈ (v.outcome userId true cfg).tape ↔ d ∈ v.candidates userId cfg := by
  have hmem : d ∈ (v.outcome userId true cfg).tape ↔ d ∈ (ZSet.empty : Tape) ∨ d ∈ v.offered userId true cfg :=
    ZSet.mem_zaddAll
  rw [hmem]
  simp [View.offered, View.base]

/-- Nothing is added to a tape that has all candidates. -/
theorem outcome_of_mem (h : ∀ d ∈ v.candidates userId cfg, d ∈ v.tape) : v.outcome userId false cfg = v := by
  have htape : v.tape.zaddAll (v.offered userId false cfg) (v.base false).start = v.tape :=
    ZSet.zaddAll_of_mem fun d hd => h d (List.mem_of_mem_filter hd)
  show ({ v with tape := v.tape.zaddAll (v.offered userId false cfg) (v.base false).start } : View) = v
  rw [htape]

end

end View

section
variable {userId : Int} {c : Call} {s : State} {v : View} {dirty : Bool}

theorem exec_view (h : c.Quiet userId) : (exec c s).2.view userId = s.view userId := by
  simp only [State.view, exec_tape h.tape, exec_cfg h.cfg, exec_sourceSet h.sources, exec_lock h.lock,
    exec_db h.scores]

theorem exec_view_lock
    (h : ¬ c.EditsTape userId ∧ ¬ c.EditsCfg userId ∧ ¬ c.EditsSources userId ∧ ¬ c.EditsScores) :
    (exec c s).2.view userId = { s.view userId with lock := (exec c s).2.lock userId } := by
  simp only [State.view, exec_tape h.1, exec_cfg h.2.1, exec_sourceSet h.2.2.1, exec_db h.2.2.2]

theorem quiet_passes (h : c.Quiet userId) (hn : c.entryAdded? userId = none) : (aspect userId).Passes (ask c) :=
  Aspect.Passes.perform (fun _ => exec_ok h.scores) (fun _ => exec_view h) hn

theorem frame_passes {event : Frame} (h : (Call.publish (channelFor userId) event).entryAdded? userId = none) :
    (aspect userId).Passes (publish userId event) :=
  quiet_passes ⟨id, id, id, id, id⟩ h

theorem entryAdded_yields {x : Int × Int} :
    (aspect userId).Yields (publish userId (.tapeEntryAdded userId x.1 x.2)) v () v [x] := by
  have h : (aspect userId).Yields (publish userId (.tapeEntryAdded userId x.1 x.2)) v () v
      ((Call.publish (channelFor userId) (.tapeEntryAdded userId x.1 x.2)).entryAdded? userId).toList :=
    Aspect.Yields.perform fun s hs => ⟨rfl, hs⟩
  simpa [Call.entryAdded?] using h

/-! ## The stages -/

theorem maxPosition_yields :
    (aspect userId).Yields (maxPosition userId) v (((v.tape.rows.getLast?).map Prod.snd).getD (-1)) v [] :=
  .of_eval (maxPosition_uses rfl) fun s hs => ⟨s, by subst hs; exact maxPosition_eval, hs⟩

theorem firstEntries_yields :
    (aspect userId).Yields (listEntriesPage userId none 10000) v ((v.tape.rows.take 10000).map Prod.swap) v [] := by
  refine .of_eval (listEntriesPage_uses (fun _ _ => rfl) fun _ _ => rfl) fun s hs => ⟨s, ?_, hs⟩
  subst hs
  have hpage : (listEntriesPage userId ((none : Option Nat).map Int.ofNat) 10000).eval exec s = _ :=
    listEntriesPage_eval (by decide)
  simpa [Keyset.page, Keyset.Beyond] using hpage

theorem getConfigSources_yields :
    (aspect userId).Yields (getConfigSources userId) v (v.sources.insertionSort (· ≤ ·)) v [] :=
  .of_eval (getConfigSources_uses rfl) fun s hs => ⟨s, by subst hs; exact getConfigSources_eval, hs⟩

theorem createRun_passes {kind : Kind} : (aspect userId).Passes (createRun userId kind) :=
  fun _ => ⟨_, _, rfl, rfl, rfl⟩

theorem pipeZaddNx_yields {docIds : List Int} {n : Int} :
    (aspect userId).Yields (pipeZaddNx (entriesKey userId) docIds n) v (v.tape.replies docIds n)
      { v with tape := v.tape.zaddAll docIds n } [] := by
  induction docIds generalizing v n with
  | nil => exact .pure
  | cons d ds ih =>
      have hcall : (aspect userId).Yields (ask (.zaddNx (entriesKey userId) d n)) v (if d ∈ v.tape then 0 else 1)
          { v with tape := v.tape.zaddNx d n } [] := by
        refine Aspect.Yields.perform ?_
        rintro s rfl
        exact ⟨rfl, congrArg (fun t => { s.view userId with tape := t }) exec_zaddNx_tape⟩
      exact hcall.bind (ih.bind .pure)

theorem deleteAllEntries_yields :
    (aspect userId).Yields (deleteAllEntries userId) v v.tape.zcard { v with tape := .empty } [] := by
  refine Aspect.Yields.perform ?_
  rintro s rfl
  exact ⟨rfl, congrArg (fun t => { s.view userId with tape := t }) exec_multiZcardDel_tape⟩

theorem clearDirty_yields :
    (aspect userId).Yields (clearDirty userId) v () { v with cfg := v.cfg.hset [("dirty", "0")] } [] := by
  refine Aspect.Yields.perform ?_
  rintro s rfl
  exact ⟨rfl, congrArg (fun h => { s.view userId with cfg := h }) (put_self _ _ _)⟩

theorem acquireLock_yields {t : String} :
    (aspect userId).Yields (acquireLock userId t) v v.lock.isNone { v with lock := v.lock.or (some t) } [] := by
  refine Aspect.Yields.perform ?_
  rintro s rfl
  exact ⟨exec_setNxEx_reply, (exec_view_lock ⟨id, id, id, id⟩).trans (by rw [exec_setNxEx_lock]; rfl)⟩

theorem acquireLock_free {t : String} (h : v.lock = none) :
    (aspect userId).Yields (acquireLock userId t) v true { v with lock := some t } [] := by
  have hgot : (aspect userId).Yields (acquireLock userId t) v v.lock.isNone
      { v with lock := v.lock.or (some t) } [] := acquireLock_yields
  rwa [h] at hgot

theorem acquireLock_held {t : String} (h : v.lock ≠ none) :
    (aspect userId).Yields (acquireLock userId t) v false v [] := by
  obtain ⟨holder, h⟩ := Option.ne_none_iff_exists'.mp h
  have hgot : (aspect userId).Yields (acquireLock userId t) v v.lock.isNone
      { v with lock := v.lock.or (some t) } [] := acquireLock_yields
  have hv : ({ v with lock := v.lock.or (some t) } : View) = v := by rw [h, Option.some_or, ← h]
  have hnone : v.lock.isNone = false := by simp [h]
  rwa [hv, hnone] at hgot

theorem releaseLock_yields {t : String} (h : v.lock = some t) :
    (aspect userId).Yields (Client.evalRelease (lockKey userId) t) v () { v with lock := none } [] := by
  refine Aspect.Yields.perform ?_
  rintro s rfl
  have hlock : s.lock userId = some t := h
  exact ⟨rfl, (exec_view_lock ⟨id, id, id, id⟩).trans (by rw [exec_evalRelease_lock, if_pos hlock])⟩

theorem prepare_yields :
    (aspect userId).Yields (prepare userId dirty) v (v.base dirty) (v.cleared dirty) [] := by
  cases dirty with
  | true => exact deleteAllEntries_yields.bind .pure
  | false =>
      have hbase : v.base false =
          { removed := 0
            start := ((v.tape.rows.getLast?).map Prod.snd).getD (-1) + 1
            existing := ((v.tape.rows.take 10000).map Prod.swap).map (·.2) } := by
        simp [View.base, Function.comp_def]
      rw [hbase]
      exact maxPosition_yields.bind (firstEntries_yields.bind .pure)

theorem appendEntries_yields {docIds : List Int} {n : Int} :
    (aspect userId).Yields (appendEntries userId docIds n) v (appendedPairs docIds (v.tape.replies docIds n) n)
      { v with tape := v.tape.zaddAll docIds n } [] := by
  unfold appendEntries
  split
  · rename_i hnil
    subst hnil
    exact .pure
  · exact pipeZaddNx_yields.bind .pure

theorem completeRun_yields {runId : Int} {kind : Kind} {added removed : Nat} :
    (aspect userId).Yields (completeRun userId runId kind added removed) v (kind, added) v [] := by
  have hx : ∀ r, (Call.xadd (runsKey userId) r).Quiet userId := fun _ => ⟨id, id, id, id, id⟩
  exact (quiet_passes (hx _) rfl).bind fun _ => (frame_passes rfl).bind fun _ =>
    (frame_passes rfl).bind fun _ => .pure

theorem report_yields {runId : Int} {kind : Kind} {removed : Nat} {appended : List (Int × Int)} :
    (aspect userId).Yields (report userId dirty kind runId removed appended) v (kind, appended.length)
      (v.marked dirty)
      appended := by
  have hframes : (aspect userId).Yields
      (appended.forM fun entry => publish userId (.tapeEntryAdded userId entry.1 entry.2)) v () v (appended.map id) :=
    .forM appended fun x => entryAdded_yields
  have h : (aspect userId).Yields (report userId dirty kind runId removed appended) v (kind, appended.length)
      (v.marked dirty) (appended.map id ++ []) := by
    refine hframes.bind ?_
    cases dirty with
    | true => exact clearDirty_yields.bind completeRun_yields
    | false => exact completeRun_yields
  rwa [List.map_id, List.append_nil] at h

theorem withLock_yields {α : Type} {a : α} {v' : View} {out : List (Int × Int)} {t : String} {body : Prog α}
    (hbody : (aspect userId).Yields body v a v' out) (hlock : v'.lock = some t) :
    (aspect userId).Yields ((withLock userId t true body).tryFinally (publish userId (.lockReleased userId))) v a
      { v' with lock := none } out := by
  have hframe : (aspect userId).Passes (publish userId (.lockReleased userId)) := frame_passes rfl
  have h := (hbody.tryFinally (releaseLock_yields hlock)).tryFinally hframe.yields
  rwa [List.append_nil, List.append_nil] at h

end

/-! ## The whole generation -/

section
variable [DatetimeLib] {userId : Int} {v : View} {dirty : Bool} {cfg : TapeConfig} {sources : List Int}

theorem candidatesForUser_yields {dateFrom dateTo : Option Datetime} {ordering : String} {excludeIds : List Int}
    (hs : sources ≠ []) :
    (aspect userId).Yields (candidatesForUser userId sources dateFrom dateTo ordering excludeIds) v
      ((v.db.candidates userId sources (dateFrom.map DatetimeLib.timestamptz) (dateTo.map DatetimeLib.timestamptz)
        (ordering = "desc")).filter (· ∉ excludeIds)) v [] := by
  refine .of_eval (candidatesForUser_uses fun _ _ _ _ => rfl) fun s h => ⟨s, ?_, h⟩
  subst h
  rw [candidatesForUser, if_neg hs, eval_bind_ok (ask_eval _ _)]
  split
  · rename_i hnil
    simp [hnil]
  · rfl

omit [DatetimeLib] in
theorem insertionSort_ne_nil (h : v.sources ≠ []) : v.sources.insertionSort (· ≤ ·) ≠ [] := by
  have := (List.perm_insertionSort (· ≤ ·) v.sources).length_eq
  rw [← List.length_pos_iff] at h ⊢
  omega

theorem fill_yields {kind : Kind} {runId : Int} (hs : v.sources.insertionSort (· ≤ ·) ≠ []) :
    (aspect userId).Yields (fill userId cfg (v.sources.insertionSort (· ≤ ·)) dirty kind runId (v.base dirty))
      (v.cleared dirty) (kind, (v.appended userId dirty cfg).length) (v.outcome userId dirty cfg)
      (v.appended userId dirty cfg) := by
  have hdb : (v.cleared dirty).db = v.db := by cases dirty <;> rfl
  have hdocs : (aspect userId).Yields (candidatesForUser userId (v.sources.insertionSort (· ≤ ·)) cfg.dateFrom
      cfg.dateTo cfg.ordering (v.base dirty).existing) (v.cleared dirty) (v.offered userId dirty cfg)
      (v.cleared dirty) [] := by
    rw [View.offered, View.candidates, ← hdb]
    exact candidatesForUser_yields hs
  exact hdocs.bind (appendEntries_yields.bind report_yields)

theorem regenerate_yields (hs : v.sources.insertionSort (· ≤ ·) ≠ []) :
    (aspect userId).Yields (regenerate userId dirty cfg (v.sources.insertionSort (· ≤ ·))) v
      (if dirty then .full else .incremental, (v.appended userId dirty cfg).length) (v.outcome userId dirty cfg)
      (v.appended userId dirty cfg) := by
  refine (frame_passes rfl).bind fun _ => createRun_passes.bind fun runId => (frame_passes rfl).bind fun _ => ?_
  exact prepare_yields.andThen (fill_yields hs).tryCatch

theorem getConfig_yields (hcfg : v.cfg.entries ≠ []) (hdec : decodeConfig userId v.cfg = .ok cfg) :
    (aspect userId).Yields (getConfig userId) v (some cfg) v [] := by
  refine .of_eval (getConfig_uses rfl) fun s h => ⟨s, ?_, h⟩
  subst h
  have hcfg : (s.cfg userId).entries ≠ [] := hcfg
  have hdec : decodeConfig userId (s.cfg userId) = .ok cfg := hdec
  rw [getConfig_eval, if_neg hcfg, hdec]
  rfl

/-- A generation that obtains the lock. -/
theorem generateForUser_yields {t : String} (h : v.Ready userId cfg) :
    (aspect userId).Yields (generateForUser t userId dirty) v
      (if dirty then .full else .incremental, (v.appended userId dirty cfg).length) (v.outcome userId dirty cfg)
      (v.appended userId dirty cfg) := by
  have hs := insertionSort_ne_nil h.sources
  refine (getConfig_yields h.configured h.decoded).bind_nil (getConfigSources_yields.bind_nil ?_)
  have hbody : (aspect userId).Yields (regenerate userId dirty cfg (v.sources.insertionSort (· ≤ ·)))
      { v with lock := some t } (if dirty then .full else .incremental, (v.appended userId dirty cfg).length)
      { v.outcome userId dirty cfg with lock := some t } (v.appended userId dirty cfg) := by
    rw [← View.outcome_lock, ← View.appended_lock]
    exact @regenerate_yields _ userId { v with lock := some t } dirty cfg hs
  have houtcome : v.outcome userId dirty cfg = { v.outcome userId dirty cfg with lock := none } := by
    rw [← View.outcome_lock, ← h.lock]
  rw [if_neg hs, houtcome]
  have hend := withLock_yields hbody rfl
  exact (acquireLock_free h.lock).bind_nil hend

/-! ## The other ways through -/

theorem getConfig_none_yields (h : v.cfg.entries = []) : (aspect userId).Yields (getConfig userId) v none v [] := by
  refine .of_eval (getConfig_uses rfl) fun s hs => ⟨s, ?_, hs⟩
  subst hs
  have h : (s.cfg userId).entries = [] := h
  rw [getConfig_eval, if_pos h]

theorem generateForUser_unconfigured {t : String} (h : v.cfg.entries = []) :
    (aspect userId).Yields (generateForUser t userId dirty) v (.skipped, 0) v [] :=
  (getConfig_none_yields h).bind_nil .pure

theorem generateForUser_unreadable {s : State} {t : String} {e : Exn} (hcfg : (s.cfg userId).entries ≠ [])
    (hdec : decodeConfig userId (s.cfg userId) = .error e) :
    (generateForUser t userId dirty).eval exec s = (.error e, s) := by
  refine eval_bind_error ?_ _
  rw [getConfig_eval, if_neg hcfg, hdec]
  rfl

theorem generateForUser_no_sources {t : String} (hcfg : v.cfg.entries ≠ [])
    (hdec : decodeConfig userId v.cfg = .ok cfg) (hsources : v.sources = []) :
    (aspect userId).Yields (generateForUser t userId dirty) v (.skipped, 0) ((v.cleared dirty).marked dirty)
      [] := by
  refine (getConfig_yields hcfg hdec).bind_nil (getConfigSources_yields.bind_nil ?_)
  have hs : v.sources.insertionSort (· ≤ ·) = [] := by rw [hsources]; rfl
  rw [if_pos hs]
  cases dirty with
  | true => exact deleteAllEntries_yields.bind_nil (clearDirty_yields.bind_nil .pure)
  | false => exact .pure

theorem generateForUser_locked {t : String} (hcfg : v.cfg.entries ≠ []) (hdec : decodeConfig userId v.cfg = .ok cfg)
    (hsources : v.sources ≠ []) (hlock : v.lock ≠ none) :
    (aspect userId).Yields (generateForUser t userId dirty) v (.skipped, 0) v [] := by
  refine (getConfig_yields hcfg hdec).bind_nil (getConfigSources_yields.bind_nil ?_)
  rw [if_neg (insertionSort_ne_nil hsources)]
  exact (acquireLock_held hlock).bind_nil (Aspect.Yields.pure.tryFinally .pure)

/-- What a call of `generate_for_user` leaves follows from what is stored for the user. -/
theorem generateForUser_view {t : String} (s : State) :
    ((generateForUser t userId dirty).eval exec s).2.view userId = (s.view userId).after userId dirty := by
  have heval : ∀ {a v' out}, (aspect userId).Yields (generateForUser t userId dirty) (s.view userId) a v' out →
      ((generateForUser t userId dirty).eval exec s).2.view userId = v' := by
    intro a v' out h
    obtain ⟨s', h, hs', -⟩ := h s rfl
    rw [h]
    exact hs'
  unfold View.after
  split
  · rename_i hcfg
    exact heval (generateForUser_unconfigured hcfg)
  · rename_i hcfg
    split
    · rename_i e hdec
      rw [generateForUser_unreadable hcfg hdec]
    · rename_i cfg hdec
      split
      · rename_i hsources
        exact heval (generateForUser_no_sources hcfg hdec hsources)
      · rename_i hsources
        split
        · rename_i hlock
          exact heval (generateForUser_yields ⟨hcfg, hdec, hsources, hlock⟩)
        · rename_i hlock
          exact heval (generateForUser_locked hcfg hdec hsources hlock)

/-- A generation that comes to its end with entries to report had a config, sources and the lock. -/
theorem of_generated {s s' : State} {t : String} {kind : Kind} {n : Nat} (hkind : kind ≠ .skipped)
    (h : (generateForUser t userId dirty).eval exec s = (.ok (kind, n), s')) :
    ∃ cfg, (s.view userId).Ready userId cfg := by
  have hskip : ∀ {v' out},
      ¬ (aspect userId).Yields (generateForUser t userId dirty) (s.view userId) (.skipped, 0) v' out := by
    intro v' out hy
    obtain ⟨s'', hy, -⟩ := hy s rfl
    cases hy.symm.trans h
    exact hkind rfl
  have hcfg : (s.cfg userId).entries ≠ [] := fun hcfg => hskip (generateForUser_unconfigured hcfg)
  cases hdec : decodeConfig userId (s.cfg userId) with
  | error e =>
      rw [generateForUser_unreadable hcfg hdec] at h
      cases h
  | ok cfg =>
      have hsources : s.sourceSet userId ≠ [] := fun hs => hskip (generateForUser_no_sources hcfg hdec hs)
      refine ⟨cfg, hcfg, hdec, hsources, ?_⟩
      by_contra hlock
      exact hskip (generateForUser_locked hcfg hdec hsources hlock)

end

end TapeService
