import TapeService.Theorems.DirtyFlag.Calls

/-!
# The rebuild and the dirty flag

A rebuild reads the config and the sources, deletes the tape, asks for the candidates of what it has read, and clears
the flag in the end.
-/

namespace TapeService

open Interleaving Interleaving.Program Interleaving.Protocol Python

section
variable [DatetimeLib]

namespace DirtyFlag

variable {userId : Int} {i j : Nat} {w : World service} {s : State} {log : List (Event service)}
  {ev : Event service} {c : Call} {r : Except Exn c.Reply}

/-! ## The rebuild -/

/-- Thread `i` has come to `p`, and `cfg` and `sources` are what it has read. -/
structure Run (userId : Int) (i : Nat) (p : Progress) (cfg : TapeConfig) (sources : List Int)
    (w : World service) : Prop where
  place : progress userId i w.log = p
  config : ∃ x, configReading userId i w.log = some x ∧ decodeConfig userId x.1 = .ok cfg
  sources : ∃ x, sourcesReading userId i w.log = some x ∧ x.1.insertionSort (· ≤ ·) = sources

/-- Thread `i` has come to a place that satisfies `A`. -/
def At (userId : Int) (i : Nat) (A : Progress → Prop) (w : World service) : Prop := A (progress userId i w.log)

theorem stable_at {A : Progress → Prop} : (protocol userId).Stable i (At userId i A) := by
  intro w ev s _ _ hev _ _ h
  rwa [At, World.push_log, progress_cons_of_ne hev]

/-- What has been read is not forgotten by a step in which the thread does not read. -/
theorem Run.keep {p q : Progress} {cfg : TapeConfig} {sources : List Int} (h : Run userId i p cfg sources w)
    (hq : progress userId i (ev :: w.log) = q) (hs : ev.reads (readsSources userId) i = none)
    (hc : ev.reads (readsConfig userId) i = none) : Run userId i q cfg sources (w.push ev s) := by
  obtain ⟨-, ⟨x, hx, hcfg⟩, y, hy, hsources⟩ := h
  obtain ⟨js, hjs, -⟩ := exists_of_reading_cons hc hx
  obtain ⟨ks, hks, -⟩ := exists_of_reading_cons hs hy
  exact ⟨hq, ⟨_, hjs, hcfg⟩, _, hks, hsources⟩

theorem stable_run {p : Progress} {cfg : TapeConfig} {sources : List Int} :
    (protocol userId).Stable i (Run userId i p cfg sources) := by
  intro w ev s _ _ hev _ _ h
  exact h.keep ((progress_cons_of_ne hev).trans h.place) (Event.reads_of_thread_ne hev)
    (Event.reads_of_thread_ne hev)

/-- The thread has not deleted the tape, or it has also cleared the flag, and has asked for what it has read. -/
def Ended (userId : Int) (i : Nat) (w : World service) : Prop :=
  (progress userId i w.log).deleted = false ∨
    ∃ cfg sources, Run userId i ⟨true, cfg.query? sources, true, false, false⟩ cfg sources w

theorem stable_ended : (protocol userId).Stable i (Ended userId i) := by
  intro w ev s hw hw' hev hg hr h
  rcases h with h | ⟨cfg, sources, h⟩
  · left
    rwa [World.push_log, progress_cons_of_ne hev]
  · exact .inr ⟨cfg, sources, stable_run w ev s hw hw' hev hg hr h⟩

theorem progress_of_still (hc : Neutral userId c) (hq : c.query? = none) :
    progress userId i (.called i c r :: log) = progress userId i log := by
  rw [progress_called, hc.after, hq, Option.none_or]

theorem still_quiet {A : World service → Prop} (hc : Still userId c)
    (hA : ∀ w, A w → A (w.push (.called i c (exec c w.state).1) (exec c w.state).2)) :
    (protocol userId).Quiet i A c := by
  intro w hw h _ r s hr
  obtain ⟨rfl, rfl⟩ := hr.of_faultless id
  exact ⟨good_of_neutral hw hc.1 (.inl hc.2.2), hA w h⟩

theorem run_quiet {p : Progress} {cfg : TapeConfig} {sources : List Int} (hc : Still userId c) :
    (protocol userId).Quiet i (Run userId i p cfg sources) c :=
  still_quiet hc fun _ h => h.keep ((progress_of_still hc.1 hc.2.1).trans h.place)
    (reads_none_of_ne hc.2.2 i).1 (reads_none_of_ne hc.2.2 i).2

theorem ended_quiet (hc : Still userId c) : (protocol userId).Quiet i (Ended userId i) c := by
  refine still_quiet hc fun w h => ?_
  rcases h with h | ⟨cfg, sources, h⟩
  · left
    rwa [World.push_log, progress_of_still hc.1 hc.2.1]
  · exact .inr ⟨cfg, sources, h.keep ((progress_of_still hc.1 hc.2.1).trans h.place)
      (reads_none_of_ne hc.2.2 i).1 (reads_none_of_ne hc.2.2 i).2⟩

theorem closes_quiet (hc : Closes userId i c) : (protocol userId).Quiet i (Ended userId i) c := by
  rcases hc with hc | rfl
  · exact ended_quiet (Reports.still hc)
  · exact ended_quiet (c := .evalRelease (lockKey userId) (token i)) ⟨⟨id, id, rfl⟩, rfl, fun _ => ⟨rfl, rfl⟩⟩

/-- The thread's own call takes it further; it is one of those that do not read. -/
theorem Run.call {p : Progress} {cfg : TapeConfig} {sources : List Int} (h : Run userId i p cfg sources w)
    (hc : ∀ r, readsConfig userId c r = none ∧ readsSources userId c r = none) :
    Run userId i (p.after userId c) cfg sources (w.push (.called i c r) s) :=
  h.keep (by rw [progress_called, h.place]) (reads_none_of_ne hc i).1 (reads_none_of_ne hc i).2

theorem ended_of_none (h : At userId i (· = .none) w) : Ended userId i w := by
  have h : progress userId i w.log = .none := h
  exact .inl (by rw [h]; rfl)

theorem getConfig_triple :
    (protocol userId).Triple i (At userId i (· = .none)) (getConfig userId)
      (upon (fun cfg => cfg.elim (Ended userId i) fun cfg w => At userId i (· = .none) w ∧
        ∃ x, configReading userId i w.log = some x ∧ decodeConfig userId x.1 = .ok cfg) (Ended userId i)) := by
  refine Triple.seq (Q := fun raw w => At userId i (· = .none) w ∧
    ∃ x, configReading userId i w.log = some x ∧ x.1 = raw) (answered_triple id id stable_at fun w hw h _ => ?_)
    fun raw => ?_
  · have h : progress userId i w.log = .none := h
    have hc : Neutral userId (.hgetall (cfgKey userId)) := ⟨id, id, rfl⟩
    refine ⟨good_of_neutral hw hc (.inr (by rw [h]; rfl)), fun raw _ => ⟨?_, (raw, []), ?_, rfl⟩⟩
    · simp [At, h, hc.after, Call.query?, Progress.none]
    · exact reading_of_reads (by simp [readsConfig])
  · split
    · exact Triple.pure fun w _ h => ended_of_none h.1
    · cases hdecode : decodeConfig userId raw with
      | error e => exact Triple.raise fun w _ h => ended_of_none h.1
      | ok cfg =>
          refine Triple.pure fun w _ h => ⟨h.1, ?_⟩
          obtain ⟨-, x, hx, hraw⟩ := h
          exact ⟨x, hx, hraw ▸ hdecode⟩

theorem getConfigSources_triple {cfg : TapeConfig} :
    (protocol userId).Triple i (fun w => At userId i (· = .none) w ∧
        ∃ x, configReading userId i w.log = some x ∧ decodeConfig userId x.1 = .ok cfg)
      (getConfigSources userId) (upon (fun sources => Run userId i .none cfg sources) (Ended userId i)) := by
  refine Triple.seq (Q := fun members => Run userId i .none cfg (members.insertionSort (· ≤ ·)))
    (answered_triple id id (fun w ev s hw hw' hev hg hr ⟨h, x, hx, hcfg⟩ => ?_) fun w hw ⟨h, x, hx, hcfg⟩ _ => ?_)
    fun members => Triple.pure fun _ _ h => h
  · obtain ⟨js, hjs, -⟩ := exists_of_reading_cons (Event.reads_of_thread_ne hev) hx
    exact ⟨stable_at w ev s hw hw' hev hg hr h, _, hjs, hcfg⟩
  · have h : progress userId i w.log = .none := h
    have hc : Neutral userId (.smembers (cfgSourcesKey userId)) := ⟨id, id, rfl⟩
    refine ⟨good_of_neutral hw hc (.inr (by rw [h]; rfl)), fun members _ => ⟨?_, ?_, (members, []), ?_, rfl⟩⟩
    · simp [h, hc.after, Call.query?, Progress.none]
    · have hread : (Event.called i (.smembers (cfgSourcesKey userId)) (.ok members) : Event service).reads
          (readsConfig userId) i = none := by simp [readsConfig]
      obtain ⟨js, hjs, -⟩ := exists_of_reading_cons hread hx
      exact ⟨_, hjs, hcfg⟩
    · exact reading_of_reads (by simp [readsSources])

theorem delete_triple {cfg : TapeConfig} {sources : List Int} {E : World service → Prop} :
    (protocol userId).Triple i (Run userId i .none cfg sources) (deleteAllEntries userId)
      (upon (fun _ => Run userId i ⟨true, none, false, false, false⟩ cfg sources) E) := by
  refine answered_triple id id stable_run fun w hw h _ => ⟨good_of_delete hw ?_ ?_, fun removed _ => ?_⟩
  · obtain ⟨x, hx, -⟩ := h.sources
    rw [hx]
    rfl
  · rw [h.place]
    rfl
  · have hplace : Progress.none.after userId (.multiZcardDel (entriesKey userId)) =
        ⟨true, none, false, false, false⟩ := by
      simp [Progress.after, Progress.none, Call.deletesTape, Call.query?, Call.clearsDirty, Call.writesConfig,
        Call.replacesSources]
    exact hplace ▸ h.call fun _ => ⟨rfl, rfl⟩

theorem clear_triple {cfg : TapeConfig} {sources : List Int} :
    (protocol userId).Triple i (Run userId i ⟨true, cfg.query? sources, false, false, false⟩ cfg sources)
      (clearDirty userId) (upon (fun _ => Ended userId i) (Ended userId i)) := by
  refine answered_triple id id stable_run fun w hw h hm => ⟨good_of_clear hw ⟨?_, ?_⟩ (hm ?_), fun _ _ => ?_⟩
  · rw [h.place]
  · rw [h.place]
  · simp [Call.clearsDirty]
  · refine .inr ⟨cfg, sources, ?_⟩
    have hplace : Progress.after userId ⟨true, cfg.query? sources, false, false, false⟩
        (.hset (cfgKey userId) [("dirty", "0")]) = ⟨true, cfg.query? sources, true, false, false⟩ := by
      simp [Progress.after, Call.deletesTape, Call.query?, Call.clearsDirty, Call.writesConfig,
        Call.replacesSources]
    exact hplace ▸ h.call fun _ => ⟨rfl, rfl⟩

theorem candidates_triple {cfg : TapeConfig} {sources : List Int} (hsources : sources ≠ []) {base : Base}
    {E : World service → Prop} :
    (protocol userId).Triple i (Run userId i ⟨true, none, false, false, false⟩ cfg sources)
      (candidatesForUser userId sources cfg.dateFrom cfg.dateTo cfg.ordering base.existing)
      (upon (fun _ => Run userId i ⟨true, cfg.query? sources, false, false, false⟩ cfg sources) E) := by
  unfold candidatesForUser
  rw [if_neg hsources]
  refine Triple.seq (Q := fun _ => Run userId i ⟨true, cfg.query? sources, false, false, false⟩ cfg sources)
    (answered_triple id id stable_run fun w hw h _ =>
      ⟨good_of_neutral hw ⟨id, id, rfl⟩ (.inl fun _ => ⟨rfl, rfl⟩), fun rows _ => ?_⟩) fun rows => ?_
  · have hplace : Progress.after userId ⟨true, none, false, false, false⟩
        (.candidates userId sources (cfg.dateFrom.map DatetimeLib.timestamptz)
          (cfg.dateTo.map DatetimeLib.timestamptz) (cfg.ordering = "desc")) =
        ⟨true, cfg.query? sources, false, false, false⟩ := by
      simp [Progress.after, Call.deletesTape, Call.query?, Call.clearsDirty, Call.writesConfig,
        Call.replacesSources, TapeConfig.query?, hsources]
    exact hplace ▸ h.call fun _ => ⟨rfl, rfl⟩
  · split
    · exact Triple.pure fun _ _ h => h
    · exact Triple.pure fun _ _ h => h

theorem ended_of_run {cfg : TapeConfig} {sources : List Int} (h : Run userId i .none cfg sources w) :
    Ended userId i w := by
  left
  rw [h.place]
  rfl

/-- The rebuild has deleted the tape and asked for the documents that its readings call for. -/
def Asked (userId : Int) (i : Nat) (w : World service) : Prop :=
  ∃ cfg sources, Run userId i ⟨true, cfg.query? sources, false, false, false⟩ cfg sources w

theorem stable_asked : (protocol userId).Stable i (Asked userId i) :=
  fun w ev s hw hw' hev hg hr ⟨cfg, sources, h⟩ => ⟨cfg, sources, stable_run w ev s hw hw' hev hg hr h⟩

theorem asked_triple {E : World service → Prop} (hc : Still userId c) (hs : ¬ c.EditsScores) :
    (protocol userId).Triple i (Asked userId i) (ask c) (upon (fun _ => Asked userId i) E) :=
  ask_triple id hs stable_asked (still_quiet hc fun _ ⟨cfg, sources, h⟩ => ⟨cfg, sources, h.keep
    ((progress_of_still hc.1 hc.2.1).trans h.place) (reads_none_of_ne hc.2.2 i).1 (reads_none_of_ne hc.2.2 i).2⟩)

def rebuild (userId : Int) (i : Nat) : GenerateOutline (protocol userId) i userId true where
  begun := At userId i (· = .none)
  configured cfg w := At userId i (· = .none) w ∧
    ∃ x, configReading userId i w.log = some x ∧ decodeConfig userId x.1 = .ok cfg
  sourced := Run userId i .none
  wiped cfg := Run userId i ⟨true, none, false, false, false⟩ cfg []
  held := Run userId i .none
  measured _ _ _ _ := False
  ready cfg sources _ := Run userId i ⟨true, none, false, false, false⟩ cfg sources
  adding _ _ _ := Asked userId i
  announced := Asked userId i
  ended := Ended userId i
  failed := Ended userId i
  getConfig := getConfig_triple
  getConfigSources _ := getConfigSources_triple
  leave := nofun
  wipe _ _ := delete_triple
  wipe_clear _ cfg := by
    have hquery : cfg.query? [] = none := if_pos rfl
    exact hquery ▸ clear_triple
  acquire _ _ _ := Triple.conseq (ask_triple (c := .setNxEx (lockKey userId) (token i)) id id stable_run
    (run_quiet ⟨⟨id, id, rfl⟩, rfl, fun _ => ⟨rfl, rfl⟩⟩)) (fun _ _ h => h) fun r _ _ h => by
      rcases r with _ | _ | _
      · exact h
      · exact ended_of_run h
      · exact h
  held_reports _ _ c hc := ask_triple id (by cases c <;> first | exact id | exact hc.elim) stable_run
    (run_quiet (Reports.still hc))
  delete _ _ _ := delete_triple
  last := nofun
  page := nofun
  candidates cfg sources _ hsources := Triple.conseq (candidates_triple hsources) (fun _ _ h => h) fun r _ _ h => by
    rcases r with _ | _
    · exact h
    · exact ⟨cfg, sources, h⟩
  zadd _ _ _ _ := asked_triple ⟨⟨id, id, rfl⟩, rfl, fun _ => ⟨rfl, rfl⟩⟩ id
  announce added _ := Triple.forM added fun _ => asked_triple ⟨⟨id, id, rfl⟩, rfl, fun _ => ⟨rfl, rfl⟩⟩ id
  clear _ := fun w hw ⟨cfg, sources, h⟩ => clear_triple w hw h
  keep := nofun
  ended_failed _ _ h := h
  ended_stable := stable_ended
  ended_quiet _ := closes_quiet
  failed_stable := stable_ended
  failed_quiet _ := closes_quiet

end DirtyFlag

end

end TapeService
