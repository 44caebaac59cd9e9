import TapeService.Theorems.DirtyFlag.Invariant

/-!
# The calls around the dirty flag

Each call of the service keeps the invariant: those that write the config or the sources set the flag, and the one that
clears it comes from a rebuild that is up to date.
-/

namespace TapeService

open Interleaving Interleaving.Program Interleaving.Protocol Python

section
variable [DatetimeLib]

namespace DirtyFlag

variable {userId : Int} {i j : Nat} {w : World service} {s : State} {log : List (Event service)}
  {ev : Event service} {c : Call} {r : Except Exn c.Reply}

/-! ## The calls -/

theorem lastRebuild_called :
    lastRebuild userId (.called i c r :: log) = if c.deletesTape userId then some i else lastRebuild userId log := by
  unfold lastRebuild
  by_cases h : c.deletesTape userId = true <;> simp [Event.changer?, h]

theorem lastRebuild_isSome (h : (progress userId i log).deleted) : (lastRebuild userId log).isSome := by
  induction log with
  | nil => cases h
  | cons ev log ih =>
      cases ev with
      | called j c r =>
          rw [lastRebuild_called]
          split
          · rfl
          · rename_i hc
            by_cases hj : j = i
            · subst hj
              rw [progress_called] at h
              exact ih ((Bool.or_eq_true_iff.mp h).resolve_right hc)
            · exact ih (progress_called_of_ne hj ▸ h)
      | _ => exact ih h

theorem reads_none_of_ne (h : ∀ r, readsConfig userId c r = none ∧ readsSources userId c r = none) (k : Nat) :
    (Event.called i c r : Event service).reads (readsSources userId) k = none ∧
      (Event.called i c r : Event service).reads (readsConfig userId) k = none := by
  simp only [Event.reads, h, ite_self, and_self]

/-- Only a thread that has not deleted the tape reads the config and the sources. -/
theorem unfinished_reads_none
    (hread : (∀ r, readsConfig userId c r = none ∧ readsSources userId c r = none) ∨
      (progress userId i log).deleted = false) {g : Nat} (hg : Unfinished userId g log) :
    (Event.called i c r : Event service).reads (readsSources userId) g = none ∧
      (Event.called i c r : Event service).reads (readsConfig userId) g = none := by
  rcases hread with hread | hread
  · exact reads_none_of_ne hread g
  · have hgi : (Event.called i c r : Event service).thread? ≠ some g := by
      intro he
      obtain rfl := Option.some.inj he
      rw [Unfinished, hread] at hg
      exact Bool.false_ne_true hg.1
    exact ⟨Event.reads_of_thread_ne hgi, Event.reads_of_thread_ne hgi⟩

theorem unfinished_called (hdel : c.deletesTape userId = false) (hclears : c.clearsDirty userId = false) {g : Nat} :
    Unfinished userId g (.called i c r :: log) ↔ Unfinished userId g log := by
  by_cases hig : i = g
  · subst hig
    simp [Unfinished, Progress.after, hdel, hclears]
  · simp [Unfinished, progress_called_of_ne hig]

theorem good_of_neutral (hw : Inv userId w) (hc : Neutral userId c)
    (hread : (∀ r, readsConfig userId c r = none ∧ readsSources userId c r = none) ∨
      (progress userId i w.log).deleted = false) :
    (protocol userId).Good i w (.called i c (exec c w.state).1) (exec c w.state).2 := by
  obtain ⟨hclears, hwrites, hreplaces⟩ := hc.keeps
  refine hw.of_call (fun hdel => ?_) ?_
  · rw [hc.2.2] at hdel
    cases hdel
  · have h := hw.accounted
    simp only [Accounted, World.push_log, World.push_state, lastRebuild_called, hc.2.2, dirty?,
      exec_cfg hc.1, unfinished_called hc.2.2 hclears] at h ⊢
    cases hlast : lastRebuild userId w.log with
    | none => simpa [hlast] using h
    | some b =>
        simp only [hlast, Bool.false_eq_true, if_false] at h ⊢
        rcases h with h | h | ⟨hdirty, hstale⟩
        · exact .inl h
        · exact .inr (.inl (UpToDate.cons h hreplaces (by simp [hwrites])))
        · refine .inr (.inr ⟨hdirty, fun g hg hup => hstale g hg ?_⟩)
          obtain ⟨hs, hc⟩ := unfinished_reads_none (r := (exec c w.state).1) hread hg
          exact UpToDate.of_cons hup hs hc

theorem good_of_delete (hw : Inv userId w) (hsourced : (sourcesReading userId i w.log).isSome)
    (hcleared : (progress userId i w.log).cleared = false) :
    (protocol userId).Good i w (.called i (.multiZcardDel (entriesKey userId))
      (exec (.multiZcardDel (entriesKey userId)) w.state).1) (exec (.multiZcardDel (entriesKey userId)) w.state).2 := by
  refine hw.of_call (fun _ => hsourced) ?_
  have hdel : (Call.multiZcardDel (entriesKey userId)).deletesTape userId = true := by simp [Call.deletesTape]
  simp only [Accounted, World.push_log, lastRebuild_called, hdel, if_true]
  left
  simp [Unfinished, Progress.after, Call.deletesTape, Call.clearsDirty, hcleared]

/-- The flag is cleared by a rebuild that is up to date. -/
theorem good_of_clear (hw : Inv userId w) (hunfinished : Unfinished userId i w.log)
    (huptodate : UpToDate userId i w.log) :
    (protocol userId).Good i w (.called i (.hset (cfgKey userId) [("dirty", "0")])
      (exec (.hset (cfgKey userId) [("dirty", "0")]) w.state).1)
      (exec (.hset (cfgKey userId) [("dirty", "0")]) w.state).2 := by
  refine hw.of_call (fun h => absurd h Bool.false_ne_true) ?_
  have h := hw.accounted
  obtain ⟨b, hlast⟩ := Option.isSome_iff_exists.mp (lastRebuild_isSome hunfinished.1)
  have hkept : ∀ {g}, UpToDate userId g w.log → UpToDate userId g
      (.called i (.hset (cfgKey userId) [("dirty", "0")]) (exec (.hset (cfgKey userId) [("dirty", "0")]) w.state).1 ::
        w.log) :=
    fun hg => UpToDate.cons hg rfl (by simp [Call.writesConfig])
  simp only [Accounted, World.push_log, lastRebuild_called, Call.deletesTape, Bool.false_eq_true, if_false,
    hlast] at h ⊢
  rcases h with h | h | ⟨-, hstale⟩
  · by_cases hib : i = b
    · subst hib
      exact .inr (.inl (hkept huptodate))
    · left
      rwa [Unfinished, progress_called_of_ne hib]
  · exact .inr (.inl (hkept h))
  · exact absurd huptodate (hstale i hunfinished)

/-- The config is written by a thread that has not replaced the sources yet. -/
theorem good_of_write (hw : Inv userId w) {mapping : List (String × String)}
    (hdirty : ∀ h : Hash, (h.hset mapping).get "dirty" = some "1")
    (hreplaced : (progress userId i w.log).replaced = false) :
    (protocol userId).Good i w (.called i (.hset (cfgKey userId) mapping)
      (exec (.hset (cfgKey userId) mapping) w.state).1) (exec (.hset (cfgKey userId) mapping) w.state).2 := by
  have hne : mapping ≠ [("dirty", "0")] := by
    rintro rfl
    exact absurd (hdirty ∅) (by simp [Hash.get_hset_dirty])
  have hset : dirty? userId (exec (.hset (cfgKey userId) mapping) w.state).2 = some "1" := by
    simp only [dirty?, exec, State.cfg, State.setHash, put_self]
    exact hdirty _
  refine hw.of_call (fun h => absurd h Bool.false_ne_true) ?_
  have h := hw.accounted
  have hunfinished : ∀ {g}, Unfinished userId g (.called i (.hset (cfgKey userId) mapping)
      (exec (.hset (cfgKey userId) mapping) w.state).1 :: w.log) ↔ Unfinished userId g w.log :=
    unfinished_called rfl (by simp [Call.clearsDirty, hne])
  simp only [Accounted, World.push_log, World.push_state, lastRebuild_called, Call.deletesTape,
    Bool.false_eq_true, if_false, hset, hunfinished] at h ⊢
  cases hlast : lastRebuild userId w.log with
  | none => simp
  | some b =>
      simp only [hlast] at h
      rcases h with h | h | ⟨-, hstale⟩
      · exact .inl h
      · exact .inr (.inl (UpToDate.cons h rfl fun _ => hreplaced))
      · refine .inr (.inr ⟨trivial, fun g hg hup => hstale g hg ?_⟩)
        exact UpToDate.of_cons hup (by simp [Event.reads, readsSources]) (by simp [Event.reads, readsConfig])

/-- Once the sources are replaced, every rebuild in progress is out of date. -/
theorem good_of_replace (hw : Inv userId w) {ids : List Int} :
    (protocol userId).Good i w (.called i (.multiReplaceSources (cfgSourcesKey userId) ids (cfgKey userId))
      (exec (.multiReplaceSources (cfgSourcesKey userId) ids (cfgKey userId)) w.state).1)
      (exec (.multiReplaceSources (cfgSourcesKey userId) ids (cfgKey userId)) w.state).2 := by
  have hset : dirty? userId (exec (.multiReplaceSources (cfgSourcesKey userId) ids (cfgKey userId)) w.state).2 =
      some "1" := by
    simp [dirty?, exec, State.cfg, State.setHash, put_self, Hash.get_hset_dirty]
  have hunfinished : ∀ {g}, Unfinished userId g
      (.called i (.multiReplaceSources (cfgSourcesKey userId) ids (cfgKey userId))
        (exec (.multiReplaceSources (cfgSourcesKey userId) ids (cfgKey userId)) w.state).1 :: w.log) ↔
      Unfinished userId g w.log :=
    unfinished_called rfl rfl
  refine hw.of_call (fun h => absurd h Bool.false_ne_true) ?_
  simp only [Accounted, World.push_log, World.push_state, lastRebuild_called, Call.deletesTape,
    Bool.false_eq_true, if_false, hset, hunfinished]
  cases hlast : lastRebuild userId w.log with
  | none => simp
  | some b =>
      refine .inr (.inr ⟨trivial, fun g hg => not_upToDate_of_replaces ?_ (hw.sourced g hg.1) rfl⟩)
      simp [Call.replacesSources]

end DirtyFlag

end

end TapeService
