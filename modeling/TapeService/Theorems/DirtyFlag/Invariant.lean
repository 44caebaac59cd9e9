import TapeService.Interleaving.Reading
import TapeService.Lemmas.Config
import TapeService.Lemmas.Outlines

/-!
# What a rebuild has read

How far a thread has come with a rebuild or with a change of the config, and whether what it has read is still what
the completed changes have left. As long as the flag is cleared by up-to-date rebuilds only, the last rebuild is
accounted for.
-/

namespace TapeService

open Interleaving Interleaving.Program Interleaving.Protocol Python

/-- What the platform is asked for when a tape is rebuilt. -/
structure Query where
  sourceIds : List Int
  dateFrom : Option Int
  dateTo : Option Int
  descending : Bool
  deriving DecidableEq

namespace Call

def query? : Call → Option Query
  | .candidates _ sourceIds dateFrom dateTo descending => some ⟨sourceIds, dateFrom, dateTo, descending⟩
  | _ => none

def clearsDirty (userId : Int) : Call → Bool
  | .hset key mapping => key = cfgKey userId ∧ mapping = [("dirty", "0")]
  | _ => false

def writesConfig (userId : Int) : Call → Bool
  | .hset key mapping => key = cfgKey userId ∧ mapping ≠ [("dirty", "0")]
  | _ => false

def replacesSources (userId : Int) : Call → Bool
  | .multiReplaceSources key _ _ => key = cfgSourcesKey userId
  | _ => false

end Call

def readsConfig (userId : Int) : (c : Call) → Except Exn c.Reply → Option Hash
  | .hgetall key, .ok raw => if key = cfgKey userId then some raw else none
  | _, _ => none

def readsSources (userId : Int) : (c : Call) → Except Exn c.Reply → Option (List Int)
  | .smembers key, .ok members => if key = cfgSourcesKey userId then some members else none
  | _, _ => none

/-- What a thread has done of a rebuild, or of a change of the config. -/
structure Progress where
  deleted : Bool
  query : Option Query
  cleared : Bool
  written : Bool
  replaced : Bool
  deriving DecidableEq

namespace Progress

def none : Progress := ⟨false, .none, false, false, false⟩

def after (userId : Int) (p : Progress) (c : Call) : Progress where
  deleted := p.deleted || c.deletesTape userId
  query := c.query?.or p.query
  cleared := p.cleared || c.clearsDirty userId
  written := p.written || c.writesConfig userId
  replaced := p.replaced || c.replacesSources userId

end Progress

namespace DirtyFlag

variable {userId : Int} {c : Call} {s : State}

theorem readsConfig_eq_some {raw : Hash} (h : readsConfig userId c (exec c s).1 = some raw) :
    c = .hgetall (cfgKey userId) ∧ raw = s.cfg userId := by
  cases c with
  | hgetall key =>
      simp only [exec, readsConfig, Option.ite_none_right_eq_some, Option.some.injEq] at h
      obtain ⟨rfl, rfl⟩ := h
      exact ⟨rfl, rfl⟩
  | _ => cases h

theorem readsSources_eq_some {members : List Int} (h : readsSources userId c (exec c s).1 = some members) :
    c = .smembers (cfgSourcesKey userId) ∧ members = s.sourceSet userId := by
  cases c with
  | smembers key =>
      simp only [exec, readsSources, Option.ite_none_right_eq_some, Option.some.injEq] at h
      obtain ⟨rfl, rfl⟩ := h
      exact ⟨rfl, rfl⟩
  | _ => cases h

/-- The calls that neither change the config, the sources or the flag nor delete the tape. -/
def Neutral (userId : Int) (c : Call) : Prop :=
  ¬ c.EditsCfg userId ∧ ¬ c.EditsSources userId ∧ c.deletesTape userId = false

/-- Apart from its queries, a neutral call leaves the progress of its thread as it is. -/
theorem Neutral.after (h : Neutral userId c) (p : Progress) :
    p.after userId c = { p with query := c.query?.or p.query } := by
  obtain ⟨hcfg, hsrc, hdel⟩ := h
  cases c <;> simp_all [Progress.after, Call.clearsDirty, Call.writesConfig, Call.replacesSources,
    Call.EditsCfg, Call.EditsSources]

theorem Neutral.keeps (h : Neutral userId c) :
    c.clearsDirty userId = false ∧ c.writesConfig userId = false ∧ c.replacesSources userId = false := by
  obtain ⟨hcfg, hsrc, hdel⟩ := h
  cases c <;> simp_all [Call.clearsDirty, Call.writesConfig, Call.replacesSources, Call.EditsCfg,
    Call.EditsSources]

/-- The calls that tell nothing of a rebuild or of a change of the config. -/
def Still (userId : Int) (c : Call) : Prop :=
  Neutral userId c ∧ c.query? = none ∧ ∀ r, readsConfig userId c r = none ∧ readsSources userId c r = none

theorem Reports.still (h : Reports userId c) : Still userId c := by
  cases c <;> first
    | exact h.elim
    | exact ⟨⟨id, id, rfl⟩, rfl, fun _ => ⟨rfl, rfl⟩⟩

end DirtyFlag

section
variable [DatetimeLib]

/-- What a rebuild with the given config and sources asks for; without sources it asks for nothing. -/
def TapeConfig.query? (cfg : TapeConfig) (sources : List Int) : Option Query :=
  if sources = [] then none
  else some {
    sourceIds := sources
    dateFrom := cfg.dateFrom.map DatetimeLib.timestamptz
    dateTo := cfg.dateTo.map DatetimeLib.timestamptz
    descending := cfg.ordering = "desc" }

def progress (userId : Int) (i : Nat) : List (Event service) → Progress
  | [] => .none
  | .called j c _ :: log => if j = i then (progress userId i log).after userId c else progress userId i log
  | _ :: log => progress userId i log

/-- What thread `i` has last read of the config, with the threads that have written it since. -/
def configReading (userId : Int) (i : Nat) (log : List (Event service)) : Option (Hash × List Nat) :=
  reading (readsConfig userId) (Call.writesConfig userId) i log

/-- What thread `i` has last read of the sources, with the threads that have replaced them since. -/
def sourcesReading (userId : Int) (i : Nat) (log : List (Event service)) : Option (List Int × List Nat) :=
  reading (readsSources userId) (Call.replacesSources userId) i log

/-- No change that has come after the readings of thread `i` is complete: the sources are those that it has
read, and whoever has written the config since has not replaced the sources yet. -/
def UpToDate (userId : Int) (i : Nat) (log : List (Event service)) : Prop :=
  (∀ x ∈ sourcesReading userId i log, x.2 = []) ∧
    ∀ x ∈ configReading userId i log, ∀ k ∈ x.2, (progress userId k log).replaced = false

instance (userId : Int) (i : Nat) (log : List (Event service)) : Decidable (UpToDate userId i log) :=
  inferInstanceAs (Decidable ((∀ x ∈ sourcesReading userId i log, x.2 = []) ∧
    ∀ x ∈ configReading userId i log, ∀ k ∈ x.2, (progress userId k log).replaced = false))

/-- Whoever clears the dirty flag is up to date. -/
def ClearsUpToDate (userId : Int) (c : Conf service) (l : Label service) : Prop :=
  ∀ x ∈ c.call? l, x.2.clearsDirty userId → UpToDate userId x.1 c.world.log

instance (userId : Int) (c : Conf service) (l : Label service) : Decidable (ClearsUpToDate userId c l) :=
  inferInstanceAs (Decidable (∀ x ∈ c.call? l, _))

/-- The thread that has last deleted the whole tape. -/
def lastRebuild (userId : Int) (log : List (Event service)) : Option Nat :=
  log.findSome? (Event.changer? (Call.deletesTape userId))

/-- Thread `i` has rebuilt the tape with what is stored now: what it has read of the config and the sources
is stored, and what it has asked for is what they say. -/
structure RebuiltAsStored (userId : Int) (i : Nat) (w : World service) : Prop where
  config : ∃ x, configReading userId i w.log = some x ∧
    ∀ field, field ≠ "dirty" → (w.state.cfg userId).get field = x.1.get field
  sources : ∃ x, sourcesReading userId i w.log = some x ∧ w.state.sourceSet userId = x.1
  query : ∃ cfg, decodeConfig userId (w.state.cfg userId) = .ok cfg ∧
    (progress userId i w.log).query = cfg.query? ((w.state.sourceSet userId).insertionSort (· ≤ ·))

namespace DirtyFlag

variable {userId : Int} {i j : Nat} {w : World service} {s : State} {log : List (Event service)}
  {ev : Event service} {c : Call} {r : Except Exn c.Reply}

/-! ## What a log tells -/

theorem progress_cons_of_ne (h : ev.thread? ≠ some i) :
    progress userId i (ev :: log) = progress userId i log := by
  cases ev with
  | called j c r => exact if_neg fun hj => h (congrArg some hj)
  | _ => rfl

@[simp] theorem progress_called :
    progress userId i (.called i c r :: log) = (progress userId i log).after userId c :=
  if_pos rfl

theorem progress_called_of_ne (h : i ≠ j) :
    progress userId j (.called i c r :: log) = progress userId j log :=
  if_neg h

theorem progress_of_fresh (h : w.Fresh i) : progress userId i w.log = .none := by
  obtain ⟨s, log⟩ := w
  induction log with
  | nil => rfl
  | cons ev log ih =>
      rw [progress_cons_of_ne (h ev List.mem_cons_self)]
      exact ih fun ev' hev' => h ev' (List.mem_cons_of_mem _ hev')

/-- What one thread has done, another one does not undo. -/
theorem replaced_cons (k : Nat) (h : c.replacesSources userId = false) :
    (progress userId k (.called i c r :: log)).replaced = (progress userId k log).replaced := by
  by_cases hk : i = k
  · subst hk
    simp [Progress.after, h]
  · rw [progress_called_of_ne hk]

theorem replaced_mono (k : Nat) (h : (progress userId k (ev :: log)).replaced = false) :
    (progress userId k log).replaced = false := by
  cases ev with
  | called j c r =>
      by_cases hk : j = k
      · subst hk
        rw [progress_called] at h
        simp only [Progress.after, Bool.or_eq_false_iff] at h
        exact h.1
      · rwa [progress_called_of_ne hk] at h
  | _ => exact h

theorem UpToDate.cons (h : UpToDate userId j log) (hr : c.replacesSources userId = false)
    (hw : c.writesConfig userId → (progress userId i log).replaced = false) :
    UpToDate userId j (.called i c r :: log) := by
  constructor
  · intro x hx
    cases hread : (Event.called i c r : Event service).reads (readsSources userId) j with
    | some v => rw [sourcesReading, reading_of_reads hread] at hx; cases hx; rfl
    | none =>
        rw [sourcesReading, reading_of_not_reads hread] at hx
        obtain ⟨y, hy, rfl⟩ := Option.map_eq_some_iff.mp hx
        simp [Event.changer?, hr, h.1 y hy]
  · intro x hx k hk
    rw [replaced_cons k hr]
    cases hread : (Event.called i c r : Event service).reads (readsConfig userId) j with
    | some v => rw [configReading, reading_of_reads hread] at hx; cases hx; cases hk
    | none =>
        rw [configReading, reading_of_not_reads hread] at hx
        obtain ⟨y, hy, rfl⟩ := Option.map_eq_some_iff.mp hx
        rcases List.mem_append.mp hk with hk | hk
        · by_cases hwrite : c.writesConfig userId = true
          · simp only [Event.changer?, hwrite, if_true, Option.toList_some, List.mem_singleton] at hk
            exact hk ▸ hw hwrite
          · simp [Event.changer?, hwrite] at hk
        · exact h.2 y hy k hk

/-- Who is up to date after a step in which it does not read was so before. -/
theorem UpToDate.of_cons (h : UpToDate userId j (ev :: log)) (hs : ev.reads (readsSources userId) j = none)
    (hc : ev.reads (readsConfig userId) j = none) : UpToDate userId j log := by
  constructor
  · intro x hx
    obtain ⟨js, hjs, hsub, -⟩ := exists_of_reading_cons hs hx
    exact List.subset_nil.mp (h.1 _ hjs ▸ hsub)
  · intro x hx k hk
    obtain ⟨js, hjs, hsub, -⟩ := exists_of_reading_cons hc hx
    exact replaced_mono k (h.2 _ hjs k (hsub hk))

/-- Once the sources are replaced, nobody who has read them is up to date. -/
theorem not_upToDate_of_replaces (hr : c.replacesSources userId)
    (hs : (sourcesReading userId j log).isSome) (hread : readsSources userId c r = none) :
    ¬ UpToDate userId j (.called i c r :: log) := by
  intro h
  obtain ⟨x, hx⟩ := Option.isSome_iff_exists.mp hs
  have hnone : (Event.called i c r : Event service).reads (readsSources userId) j = none := by
    simp only [Event.reads, hread, ite_self]
  obtain ⟨js, hjs, -, hmem⟩ := exists_of_reading_cons hnone hx
  obtain rfl : js = [] := h.1 _ hjs
  exact List.not_mem_nil (hmem i (if_pos hr))

/-! ## The invariant -/

/-- Thread `i` has deleted the tape and has not cleared the dirty flag yet. -/
def Unfinished (userId : Int) (i : Nat) (log : List (Event service)) : Prop :=
  (progress userId i log).deleted ∧ (progress userId i log).cleared = false

def dirty? (userId : Int) (s : State) : Option String := (s.cfg userId).get "dirty"

/-- The last rebuild is in progress, or it is up to date, or the flag is set and every rebuild in progress is
out of date. Before the first one the flag is not cleared. -/
def Accounted (userId : Int) (w : World service) : Prop :=
  match lastRebuild userId w.log with
  | none => dirty? userId w.state ≠ some "0"
  | some b => Unfinished userId b w.log ∨ UpToDate userId b w.log ∨
      dirty? userId w.state = some "1" ∧ ∀ g, Unfinished userId g w.log → ¬ UpToDate userId g w.log

structure Inv (userId : Int) (w : World service) : Prop where
  config : Current (readsConfig userId) (Call.writesConfig userId)
    (fun raw (s : State) => ∀ field, field ≠ "dirty" → (s.cfg userId).get field = raw.get field) w
  sources : Current (readsSources userId) (Call.replacesSources userId)
    (fun members (s : State) => s.sourceSet userId = members) w
  sourced : ∀ g, (progress userId g w.log).deleted → (sourcesReading userId g w.log).isSome
  accounted : Accounted userId w

def protocol (userId : Int) : Protocol service where
  inv := Inv userId
  guar _ _ _ := True
  rely _ _ _ _ := True
  may w i c := c.clearsDirty userId → UpToDate userId i w.log
  faults := False

/-- A step that is no call tells nothing new. -/
theorem Inv.of_event (h : Inv userId w) (hev : ∀ j c r, ev ≠ .called j c r)
    (hcfg : s.cfg userId = w.state.cfg userId) (hsrc : s.sourceSet userId = w.state.sourceSet userId) :
    Inv userId (w.push ev s) := by
  have hprogress : ∀ g, progress userId g (ev :: w.log) = progress userId g w.log := fun g => by
    cases ev with
    | called j c r => exact absurd rfl (hev j c r)
    | _ => rfl
  have hlast : lastRebuild userId (ev :: w.log) = lastRebuild userId w.log := by
    cases ev with
    | called j c r => exact absurd rfl (hev j c r)
    | _ => rfl
  have hreadings : ∀ g, sourcesReading userId g (ev :: w.log) = sourcesReading userId g w.log ∧
      configReading userId g (ev :: w.log) = configReading userId g w.log :=
    fun g => ⟨reading_cons_of_not_called hev, reading_cons_of_not_called hev⟩
  have huptodate : ∀ g, UpToDate userId g (ev :: w.log) ↔ UpToDate userId g w.log := fun g => by
    simp only [UpToDate, hreadings, hprogress]
  obtain ⟨hconfig, hsources, hsourced, haccounted⟩ := h
  refine ⟨fun g raw hraw field hf => ?_, fun g members hmembers => ?_, fun g hg => ?_, ?_⟩
  · rw [World.push_state, hcfg]
    exact hconfig g raw ((hreadings g).2.symm.trans hraw) field hf
  · show s.sourceSet userId = members
    rw [hsrc]
    exact hsources g members ((hreadings g).1.symm.trans hmembers)
  · rw [World.push_log, hprogress] at hg
    rw [World.push_log, (hreadings g).1]
    exact hsourced g hg
  · simpa only [Accounted, Unfinished, dirty?, World.push_log, World.push_state, hlast, hprogress, huptodate,
      hcfg] using haccounted

/-- A call keeps what is read of the config and the sources current, or it counts as a change of them. -/
theorem Inv.of_call (h : Inv userId w)
    (hsourced : c.deletesTape userId → (sourcesReading userId i w.log).isSome)
    (haccounted : Accounted userId (w.push (.called i c (exec c w.state).1) (exec c w.state).2)) :
    (protocol userId).Good i w (.called i c (exec c w.state).1) (exec c w.state).2 := by
  have hby : ∀ {β : Type} {read? : (c : Call) → Except Exn c.Reply → Option β} {k : Nat} {v : β},
      (Event.called i c (exec c w.state).1 : Event service).reads read? k = some v →
        read? c (exec c w.state).1 = some v := by
    intro β read? k v hv
    simp only [Event.reads, Option.ite_none_right_eq_some] at hv
    exact hv.2
  refine ⟨⟨h.config.push (fun k raw hraw field _ => ?_) fun hkeep raw hraw field hf => ?_,
    h.sources.push (fun k members hmembers => ?_) fun hkeep members hmembers => ?_, fun g hg => ?_,
    haccounted⟩, trivial, fun _ _ => trivial⟩
  · obtain ⟨rfl, rfl⟩ := readsConfig_eq_some (hby hraw)
    rfl
  · rw [exec_cfg_get (fun mapping he => ?_) hf]
    · exact hraw field hf
    · subst he
      simpa [Event.changer?, Call.writesConfig] using hkeep
  · obtain ⟨rfl, rfl⟩ := readsSources_eq_some (hby hmembers)
    rfl
  · rw [exec_sourceSet fun he => ?_]
    · exact hmembers
    · cases c <;> simp_all [Event.changer?, Call.replacesSources, Call.EditsSources]
  · refine reading_isSome_cons ?_
    by_cases hig : i = g
    · subst hig
      rw [World.push_log, progress_called] at hg
      rcases Bool.or_eq_true_iff.mp hg with hg | hg
      · exact h.sourced i hg
      · exact hsourced hg
    · rw [World.push_log, progress_called_of_ne hig] at hg
      exact h.sourced g hg

end DirtyFlag

end

end TapeService
