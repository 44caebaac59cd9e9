import TapeService.Theorems.DirtyFlag.Rebuild

/-!
# The dirty flag

A change of the config is written in two steps, each of which sets the dirty flag; a rebuild reads the config
and the sources, and clears the flag when it is done. Nothing is lost as long as a rebuild clears the flag
only while what it has read is still what the completed changes have left.
-/

namespace TapeService

open Interleaving Interleaving.Program Interleaving.Protocol Python

section
variable [DatetimeLib]

namespace DirtyFlag

variable {userId : Int} {i j : Nat} {w : World service} {s : State} {log : List (Event service)}
  {ev : Event service} {c : Call} {r : Except Exn c.Reply}

/-! ## The other threads -/

/-- A thread that is no rebuild, and whether it has written the config and replaced the sources. -/
def Place (written replaced : Bool) (p : Progress) : Prop :=
  p.deleted = false ∧ p.written = written ∧ p.replaced = replaced

theorem neutral_keeps {α : Type} {written replaced : Bool} {p : Prog α} (hp : p.Uses (Neutral userId)) :
    (protocol userId).Keeps i (At userId i (Place written replaced)) p := by
  refine Keeps.of_uses stable_at (hp.mono fun c hc w hw h _ r s hr => ?_)
  obtain ⟨rfl, rfl⟩ := hr.of_faultless id
  refine ⟨good_of_neutral hw hc (.inr h.1), ?_⟩
  rw [At, World.push_log, progress_called, hc.after]
  exact h

/-- A thread that has changed nothing, or has completed its change. -/
def Complete (userId : Int) (i : Nat) (w : World service) : Prop :=
  ∃ b, At userId i (Place b b) w

theorem neutral_complete {α : Type} {b : Bool} {p : Prog α} (hp : p.Uses (Neutral userId)) :
    (protocol userId).Triple i (At userId i (Place b b)) p
      (upon (fun _ => Complete userId i) (Complete userId i)) :=
  Triple.conseq (neutral_keeps hp) (fun _ _ h => h) fun r _ _ h => by cases r <;> exact ⟨b, h⟩

theorem writeConfig_triple {payload : ConfigUpdate} :
    (protocol userId).Triple i (At userId i (Place false false)) (writeConfig userId payload)
      (upon (fun _ => Complete userId i) (Complete userId i)) := by
  have hread : ∀ c, ReadConfigCall userId c → Neutral userId c := fun c hc => by
    cases c <;> first | exact hc.elim | exact ⟨id, id, rfl⟩
  refine Triple.seq (Q := fun _ => At userId i (Place false false))
    ((neutral_keeps (hydrateSources_uses ⟨id, id, rfl⟩ fun _ => ⟨id, id, rfl⟩)).upon fun _ _ h => ⟨false, h⟩)
    fun allowed => ?_
  obtain ⟨allowed, _⟩ := allowed
  simp only
  split
  · exact Triple.raise fun _ _ h => ⟨false, h⟩
  · refine Triple.seq (Q := fun _ => At userId i (Place true false)) (answered_triple id id stable_at
      fun w hw h _ => ⟨good_of_write hw (fun _ => Hash.get_configMapping_dirty) h.2.2, fun _ _ => ?_⟩) fun _ => ?_
    · obtain ⟨hdel, hwritten, hreplaced⟩ := h
      refine ⟨?_, ?_, ?_⟩
      · simp [Progress.after, Call.deletesTape, hdel]
      · simp [Progress.after, Call.writesConfig, configMapping]
      · simp [Progress.after, Call.replacesSources, hreplaced]
    · refine Triple.seq (Q := fun _ => At userId i (Place true true)) (answered_triple id id stable_at
        fun w hw h _ => ⟨good_of_replace hw, fun _ _ => ?_⟩) fun _ => ?_
      · obtain ⟨hdel, hwritten, hreplaced⟩ := h
        refine ⟨?_, ?_, ?_⟩
        · simp [Progress.after, Call.deletesTape, hdel]
        · simp [Progress.after, Call.writesConfig, hwritten]
        · simp [Progress.after, Call.replacesSources]
      · exact neutral_complete (Uses.bind (uses_ask ⟨id, id, rfl⟩) fun _ => readConfig_uses.mono hread)

theorem JobCall.neutral {job : Job} (hg : job ≠ .generate userId true)
    (hw : ∀ payload, job ≠ .writeConfig userId payload) (h : JobCall i job c) : Neutral userId c := by
  cases job with
  | generate u dirty =>
      have hu : u = userId → dirty = false := fun hu => by
        subst hu
        cases dirty with
        | true => exact absurd rfl hg
        | false => rfl
      cases c <;> simp_all [JobCall, GenerateCall, Neutral, Call.EditsCfg, Call.EditsSources, Call.deletesTape]
  | writeConfig u payload =>
      have hu : u ≠ userId := fun hu => hw payload (hu ▸ rfl)
      cases c <;> simp_all [JobCall, WriteConfigCall, ReadConfigCall, Neutral, Call.EditsCfg, Call.EditsSources,
        Call.deletesTape]
  | handle n =>
      obtain ⟨u, d, -, h⟩ := h
      cases c <;> first | exact h.elim | exact ⟨id, id, rfl⟩
  | _ => cases c <;> first | exact h.elim | exact ⟨id, id, rfl⟩

/-! ## The outline -/

structure Post (userId : Int) (i : Nat) (job : Job) (w : World service) : Prop where
  rebuilt : job = .generate userId true → Ended userId i w
  changed : job ≠ .generate userId true → Complete userId i w

theorem body_triple {job : Job} :
    (protocol userId).Triple i (At userId i (· = .none)) (Job.body i job) fun _ => Post userId i job := by
  by_cases hg : job = .generate userId true
  · subst hg
    exact Triple.map (rebuild userId i).triple fun r _ _ h =>
      ⟨fun _ => by cases r <;> exact h, fun hne => absurd rfl hne⟩
  · have hplace : ∀ w, At userId i (· = .none) w → At userId i (Place false false) w := fun w h => by
      have h : progress userId i w.log = .none := h
      rw [At, h]
      exact ⟨rfl, rfl, rfl⟩
    by_cases hw : ∃ payload, job = .writeConfig userId payload
    · obtain ⟨payload, rfl⟩ := hw
      exact Triple.map (Triple.conseq writeConfig_triple (fun w _ h => hplace w h) fun _ _ _ h => h)
        fun r _ _ h => ⟨fun he => absurd he hg, fun _ => by cases r <;> exact h⟩
    · have huses := (Job.body_uses i job).mono fun c hc =>
        JobCall.neutral hg (fun payload he => hw ⟨payload, he⟩) hc
      exact Triple.conseq (neutral_complete huses) (fun w _ h => hplace w h) fun r _ _ h =>
        ⟨fun he => absurd he hg, fun _ => by cases r <;> exact h⟩

def outline (userId : Int) : Outline service fun c l => l.Faultless ∧ ClearsUpToDate userId c l where
  toProtocol := protocol userId
  post i job _ := Post userId i job
  post_stable i job r w ev s hw hw' hev hg h := by
    refine ⟨fun hj => stable_ended w ev s hw hw' hev hg trivial (h.rebuilt hj), fun hj => ?_⟩
    obtain ⟨b, hb⟩ := h.changed hj
    exact ⟨b, stable_at w ev s hw hw' hev hg trivial hb⟩
  may_ok c i t q hok hi hq := hok.2 (i, q) (Conf.call?_run hi hq)
  may_fail _ _ _ _ _ _ hok _ _ := hok.1.elim
  start_ok c job s _ hw hfresh hs := by
    have hinv : Inv userId (c.world.push (.started c.threads.length job) s) :=
      hw.of_event (by simp) (by rw [State.cfg, Job.begin_redis hs]; rfl)
        (by rw [State.sourceSet, Job.begin_redis hs]; rfl)
    refine ⟨⟨hinv, trivial, fun _ _ => trivial⟩, body_triple _ hinv ?_⟩
    show progress userId c.threads.length (.started c.threads.length job :: c.world.log) = .none
    exact progress_of_fresh hfresh
  crash_ok _ _ hok := hok.1.elim
  env_ok c e s _ hw hs :=
    ⟨hw.of_event (by simp) (Env.apply_cfg hs) (Env.apply_sourceSet hs), trivial, fun _ _ _ _ => trivial⟩

/-! ## Completed runs -/

theorem progress_of_mem (h : .called i c r ∈ log) :
    (c.deletesTape userId → (progress userId i log).deleted) ∧
      (c.writesConfig userId → (progress userId i log).written) := by
  induction log with
  | nil => cases h
  | cons ev log ih =>
      rcases List.mem_cons.mp h with rfl | h
      · rw [progress_called]
        exact ⟨fun hc => by simp [Progress.after, hc], fun hc => by simp [Progress.after, hc]⟩
      · obtain ⟨hdel, hwrite⟩ := ih h
        by_cases hev : ev.thread? = some i
        · cases ev with
          | called j c' r' =>
              cases hev
              rw [progress_called]
              exact ⟨fun hc => by simp [Progress.after, hdel hc], fun hc => by simp [Progress.after, hwrite hc]⟩
          | _ => exact ⟨hdel, hwrite⟩
        · rw [progress_cons_of_ne hev]
          exact ⟨hdel, hwrite⟩

theorem exists_of_lastRebuild (h : lastRebuild userId log = some i) :
    ∃ c r, .called i c r ∈ log ∧ c.deletesTape userId := by
  obtain ⟨ev, hev, hi⟩ := List.exists_of_findSome?_eq_some h
  obtain ⟨c, r, rfl, hc⟩ := Event.eq_of_changer? hi
  exact ⟨c, r, hev, hc⟩

theorem JobCall.eq_writeConfig {job : Job} (h : JobCall i job c) (hc : c.writesConfig userId) :
    ∃ payload, job = .writeConfig userId payload := by
  by_contra hne
  have hgenerate : job ≠ .generate userId true := by
    rintro rfl
    cases c <;> simp_all [JobCall, GenerateCall, Call.writesConfig]
  have hneutral := JobCall.neutral hgenerate (fun payload he => hne ⟨payload, he⟩) h
  rw [hneutral.keeps.2.1] at hc
  cases hc

theorem JobCall.eq_generate {job : Job} (h : JobCall i job c) (hc : c.deletesTape userId) :
    job = .generate userId true := by
  by_contra hne
  have hwrite : ∀ payload, job ≠ .writeConfig userId payload := by
    rintro payload rfl
    cases c <;> simp_all [JobCall, WriteConfigCall, ReadConfigCall, Call.deletesTape]
  rw [(JobCall.neutral hne hwrite h).2.2] at hc
  cases hc

end DirtyFlag

/-- In the runs in which the dirty flag is cleared by rebuilds that are up to date only, a flag that is
cleared at rest means that the tape was last rebuilt with what is stored. -/
theorem rebuiltAsStored_of_clearsUpToDate (db : Platform) {userId : Int} {c : Conf service}
    (h : Reach (fun c l => l.Faultless ∧ ClearsUpToDate userId c l) ⟨.empty, db⟩ c) (hidle : Idle userId c)
    (hclean : (c.world.state.cfg userId).get "dirty" = some "0") :
    ∃ i, lastRebuild userId c.world.log = some i ∧ RebuiltAsStored userId i c.world := by
  have hinit : (DirtyFlag.outline userId).inv ⟨⟨.empty, db⟩, []⟩ :=
    { config := fun _ _ h => by cases h
      sources := fun _ _ h => by cases h
      sourced := fun _ h => by cases h
      accounted := fun h => by cases h }
  have hc : (DirtyFlag.outline userId).Holds c := Outline.holds_of_reach hinit h
  have hpost : ∀ {j q r}, .called j q r ∈ c.world.log → (∀ job, JobCall j job q → job.user? = some userId) →
      ∃ job, JobCall j job q ∧ DirtyFlag.Post userId j job c.world := by
    intro j q r hmem huser
    obtain ⟨t, ht, hq⟩ := h.called Job.body_uses hmem
    have hmem := List.mem_of_getElem? ht
    obtain ⟨r, hr⟩ := h.outcome_of_ended (fun _ _ hok => hok.1) hmem (hidle t hmem (huser _ hq))
    exact ⟨t.job, hq, hc.outcome ht hr⟩
  have haccounted := hc.inv.accounted
  simp only [DirtyFlag.Accounted, DirtyFlag.dirty?, hclean] at haccounted
  cases hlast : lastRebuild userId c.world.log with
  | none => simp [hlast] at haccounted
  | some i =>
      -- The last rebuild has ended, so it has cleared the flag, and nothing has made it out of date.
      obtain ⟨q, r, hmem, hdel⟩ := DirtyFlag.exists_of_lastRebuild hlast
      obtain ⟨job, hq, hpost_i⟩ := hpost hmem fun job hq => by rw [DirtyFlag.JobCall.eq_generate hq hdel]; rfl
      have hdeleted := (DirtyFlag.progress_of_mem hmem).1 hdel
      rcases hpost_i.rebuilt (DirtyFlag.JobCall.eq_generate hq hdel) with hnot | ⟨cfg, sources, hrun⟩
      · rw [hnot] at hdeleted
        cases hdeleted
      · have huptodate : UpToDate userId i c.world.log := by
          simp only [hlast, Option.some.injEq] at haccounted
          rcases haccounted with hunfinished | h | ⟨hdirty, -⟩
          · have := hunfinished.2
            rw [hrun.place] at this
            cases this
          · exact h
          · exact absurd hdirty (by decide)
        obtain ⟨x, hx, hcfg⟩ := hrun.config
        obtain ⟨y, hy, hsources⟩ := hrun.sources
        -- Whoever has written the config since has ended, and has replaced the sources.
        have hnone : x.2 = [] := by
          refine List.eq_nil_iff_forall_not_mem.mpr fun k hk => ?_
          obtain ⟨q, r, hmem, hwrite⟩ := exists_of_mem_reading hx hk
          obtain ⟨job, hq, hpost_k⟩ := hpost hmem fun job hq => by
            obtain ⟨payload, rfl⟩ := DirtyFlag.JobCall.eq_writeConfig hq hwrite
            rfl
          obtain ⟨payload, rfl⟩ := DirtyFlag.JobCall.eq_writeConfig hq hwrite
          obtain ⟨b, -, hwritten, hreplaced⟩ := hpost_k.changed fun he => by cases he
          rw [(DirtyFlag.progress_of_mem hmem).2 hwrite] at hwritten
          rw [huptodate.2 x hx k hk, ← hwritten] at hreplaced
          cases hreplaced
        have hsame := hc.inv.config i x.1 (hx.trans (by rw [← hnone]))
        have hset := hc.inv.sources i y.1 (hy.trans (by rw [← huptodate.1 y hy]))
        refine ⟨i, rfl, ⟨x, hx, hsame⟩, ⟨y, hy, hset⟩, ?_⟩
        refine ⟨_, (decodeConfig_congr hsame).trans (by rw [hcfg]; rfl), ?_⟩
        rw [hrun.place, show c.world.state.sourceSet userId = y.1 from hset, hsources]
        rfl

end

section
open scoped Python.Utc

/-- The ordering is changed after the tape was built, and the tape is built again. -/
def Sample.reordered : List (Label service) :=
  Sample.build ++ .start (.writeConfig 1 (Sample.update .desc [1])) :: Sample.runs 2 9 ++
    .start (.generate 1 true) :: Sample.runs 3 30

theorem reordered_rebuiltAsStored :
    ∃ i, lastRebuild 1 ((Sample.start [Sample.article 7]).play Sample.reordered).world.log = some i ∧
      RebuiltAsStored 1 i ((Sample.start [Sample.article 7]).play Sample.reordered).world := by
  have hobeys : (Sample.start [Sample.article 7]).Obeys (fun c l => l.Faultless ∧ ClearsUpToDate 1 c l)
      Sample.reordered := by
    decide +kernel
  have hreach : Reach (fun c l => l.Faultless ∧ ClearsUpToDate 1 c l) ⟨.empty, .start [Sample.article 7]⟩
      ((Sample.start [Sample.article 7]).play Sample.reordered) := Steps.play hobeys
  exact rebuiltAsStored_of_clearsUpToDate _ hreach (by decide +kernel) (by decide +kernel)

/-- The ordering is changed after the rebuild has read the config, and before it clears the flag. -/
def Sample.lostUpdate : List (Label service) :=
  .start (.writeConfig 1 (Sample.update .asc [1])) :: Sample.runs 0 9 ++
    .start (.generate 1 true) :: Sample.runs 1 2 ++
    .start (.writeConfig 1 (Sample.update .desc [1])) :: Sample.runs 2 9 ++ Sample.runs 1 30

theorem config_change_lost :
    ¬ ∀ (db : Platform) (c : Conf service), Reach (S := service) (fun _ l => l.Faultless) ⟨.empty, db⟩ c →
      Idle 1 c → (c.world.state.cfg 1).get "dirty" = some "0" →
      ∃ i, lastRebuild 1 c.world.log = some i ∧ RebuiltAsStored 1 i c.world := by
  intro h
  have hobeys : (Sample.start [Sample.article 7]).Obeys (fun _ l => l.Faultless) Sample.lostUpdate := by
    decide +kernel
  have hreach : Reach (S := service) (fun _ l => l.Faultless) ⟨.empty, .start [Sample.article 7]⟩
      ((Sample.start [Sample.article 7]).play Sample.lostUpdate) := Steps.play hobeys
  obtain ⟨i, hlast, hrebuilt⟩ := h _ _ hreach (by decide +kernel) (by decide +kernel)
  have hone : lastRebuild 1 ((Sample.start [Sample.article 7]).play Sample.lostUpdate).world.log = some 1 := by
    decide +kernel
  obtain rfl : i = 1 := Option.some.inj (hlast.symm.trans hone)
  obtain ⟨x, hx, hsame⟩ := hrebuilt.config
  have hread : (configReading 1 1 ((Sample.start [Sample.article 7]).play Sample.lostUpdate).world.log).map
      (fun x => x.1.get "ordering") = some (some "asc") := by
    decide +kernel
  have hstored : (((Sample.start [Sample.article 7]).play Sample.lostUpdate).world.state.cfg 1).get "ordering" =
      some "desc" := by
    decide +kernel
  have hasc : x.1.get "ordering" = some "asc" := by simpa [hx] using hread
  exact absurd ((hsame "ordering" (by decide)).symm.trans hstored) (by simp [hasc])

end

end TapeService
