import TapeService.Lemmas.Outlines
import TapeService.Theorems.ConfigStore
import TapeService.Theorems.ConfigUpdates

/-!
# The configs that are read

A config may come from two requests that overlap, the settings from one and the sources from the other. But each of
the two halves is one request's own, and that request has been checked against the whitelist: so it is for whoever
reads the config, the client or the worker, however the requests interleave and whatever fails on the way.
-/

namespace TapeService

open Interleaving Interleaving.Program Interleaving.Protocol Python

section
variable [DatetimeLib]

/-! ## The property -/

/-- Ordering, display mode, page size and the two dates. -/
abbrev Choice := String × String × Int × Option Datetime × Option Datetime

def ConfigUpdate.settings (payload : ConfigUpdate) : Choice :=
  (payload.ordering.text, payload.displayMode.text, payload.pageSize, payload.dateFrom, payload.dateTo)

def ConfigResponse.settings (answer : ConfigResponse) : Choice :=
  (answer.ordering, answer.displayMode, answer.pageSize, answer.dateFrom, answer.dateTo)

def TapeConfig.settings (cfg : TapeConfig) : Choice :=
  (cfg.ordering, cfg.displayMode, cfg.pageSize, cfg.dateFrom, cfg.dateTo)

/-- A thread that was started to write the payload has found its sources to be among those of the user. -/
def Checked (userId : Int) (payload : ConfigUpdate) (log : List (Event service)) : Prop :=
  ∃ i allowed, .started i (.writeConfig userId payload) ∈ log ∧
    .called i (.sourcesFor userId) (.ok allowed) ∈ log ∧ ∀ x ∈ payload.selectedSourceIds, x ∈ allowed

/-- The settings are the defaults, or those of one request. -/
def OneChoice (userId : Int) (log : List (Event service)) (x : Choice) : Prop :=
  x = ("desc", "compact", 20, none, none) ∨ ∃ payload, Checked userId payload log ∧ x = payload.settings

/-- There are no sources, or they are those of one request, each once and sorted. -/
def OneSelection (userId : Int) (log : List (Event service)) (sources : List Int) : Prop :=
  sources = [] ∨ ∃ payload, Checked userId payload log ∧
    sources = payload.selectedSourceIds.dedup.insertionSort (· ≤ ·)

/-- The candidates are asked for as one request has chosen them, from the sources that one request has selected. -/
def OneQuery (log : List (Event service)) : Call → Prop
  | .candidates userId sources dateFrom dateTo descending =>
      OneSelection userId log sources ∧ ∃ x : Choice, OneChoice userId log x ∧
        dateFrom = x.2.2.2.1.map DatetimeLib.timestamptz ∧ dateTo = x.2.2.2.2.map DatetimeLib.timestamptz ∧
        descending = decide (x.1 = "desc")
  | _ => True

namespace ConfigReads

/-! ## What is stored -/

/-- The hash has the fields of the payload. -/
def Has (payload : ConfigUpdate) (cfg : Hash) : Prop :=
  ∀ kv ∈ configMapping payload.ordering payload.displayMode payload.pageSize payload.dateFrom payload.dateTo,
    kv.1 ≠ "dirty" → cfg.get kv.1 = some kv.2

def OneHash (userId : Int) (log : List (Event service)) (cfg : Hash) : Prop :=
  (∀ field, field ≠ "dirty" → cfg.get field = none) ∨ ∃ payload, Checked userId payload log ∧ Has payload cfg

def OneSet (userId : Int) (log : List (Event service)) (ids : List Int) : Prop :=
  ids = [] ∨ ∃ payload, Checked userId payload log ∧ ids = payload.selectedSourceIds.dedup

variable {userId : Int} {log log' : List (Event service)} {payload : ConfigUpdate} {cfg cfg' : Hash} {ids : List Int}
  {w : World service} {ev : Event service} {s : State} {i : Nat}

theorem Checked.mono (hsub : log ⊆ log') (h : Checked userId payload log) : Checked userId payload log' := by
  obtain ⟨i, allowed, hs, hc, hsel⟩ := h
  exact ⟨i, allowed, hsub hs, hsub hc, hsel⟩

theorem OneHash.mono (hsub : log ⊆ log') (h : OneHash userId log cfg)
    (hget : ∀ field, field ≠ "dirty" → cfg'.get field = cfg.get field) : OneHash userId log' cfg' := by
  rcases h with h | ⟨payload, hc, h⟩
  · exact .inl fun field hf => (hget field hf).trans (h field hf)
  · exact .inr ⟨payload, Checked.mono hsub hc, fun kv hkv hf => (hget kv.1 hf).trans (h kv hkv hf)⟩

theorem OneSet.mono (hsub : log ⊆ log') (h : OneSet userId log ids) : OneSet userId log' ids :=
  h.imp_right fun ⟨payload, hc, h⟩ => ⟨payload, Checked.mono hsub hc, h⟩

theorem OneChoice.mono (hsub : log ⊆ log') {x : Choice} (h : OneChoice userId log x) : OneChoice userId log' x :=
  h.imp_right fun ⟨payload, hc, h⟩ => ⟨payload, Checked.mono hsub hc, h⟩

theorem OneSelection.mono (hsub : log ⊆ log') (h : OneSelection userId log ids) : OneSelection userId log' ids :=
  h.imp_right fun ⟨payload, hc, h⟩ => ⟨payload, Checked.mono hsub hc, h⟩

theorem OneQuery.mono (hsub : log ⊆ log') {q : Call} (h : OneQuery log q) : OneQuery log' q := by
  cases q with
  | candidates =>
      obtain ⟨hsel, x, hx, hrest⟩ := h
      exact ⟨OneSelection.mono hsub hsel, x, OneChoice.mono hsub hx, hrest⟩
  | _ => trivial

theorem choice_of_decode (h : OneHash userId log cfg) {x : TapeConfig} (hx : decodeConfig userId cfg = .ok x) :
    OneChoice userId log x.settings := by
  rcases h with hnone | ⟨payload, hc, hhas⟩
  · refine .inl ?_
    simp only [decodeConfig, hnone "ordering" (by decide), hnone "display_mode" (by decide),
      hnone "page_size" (by decide), hnone "date_from" (by decide), hnone "date_to" (by decide)] at hx
    cases hx
    rfl
  · refine .inr ⟨payload, hc, ?_⟩
    obtain ⟨hordering, hmode, hsize, hfrom, hto⟩ : cfg.get "ordering" = some payload.ordering.text ∧
        cfg.get "display_mode" = some payload.displayMode.text ∧
        cfg.get "page_size" = some (toString payload.pageSize) ∧
        cfg.get "date_from" = some ((payload.dateFrom.map DatetimeLib.isoformat).getD "") ∧
        cfg.get "date_to" = some ((payload.dateTo.map DatetimeLib.isoformat).getD "") := by
      simpa [Has, configMapping] using hhas
    simp only [decodeConfig, hordering, hmode, hsize, hfrom, hto, ConfigStore.isoOrNone_isoformat, Option.getD_some,
      int_toString, valueOr] at hx
    cases hx
    rfl

theorem selection_of_set (h : OneSet userId log ids) : OneSelection userId log (ids.insertionSort (· ≤ ·)) := by
  rcases h with rfl | ⟨payload, hc, rfl⟩
  · exact .inl rfl
  · exact .inr ⟨payload, hc, rfl⟩

/-! ## The protocol -/

structure Inv (w : World service) : Prop where
  hash : ∀ userId, OneHash userId w.log (w.state.cfg userId)
  set : ∀ userId, OneSet userId w.log (w.state.sourceSet userId)
  queries : ∀ i q r, .called i q r ∈ w.log → OneQuery w.log q

def protocol : Protocol service where
  inv := Inv
  guar _ _ _ := True
  rely _ _ _ _ := True
  may _ _ _ := True
  faults := True

/-- What the call writes of the config of a user comes from a request that has been checked. -/
def Backed (log : List (Event service)) (q : Call) : Prop :=
  ∀ userId, (∀ m ∈ q.upserts? userId, ∃ payload, Checked userId payload log ∧
      m = configMapping payload.ordering payload.displayMode payload.pageSize payload.dateFrom payload.dateTo) ∧
    ∀ ids ∈ q.replaces? userId, ∃ payload, Checked userId payload log ∧ ids = payload.selectedSourceIds

theorem hash_exec {q : Call} (h : OneHash userId log (s.cfg userId)) (hq : Backed log q) (hsub : log ⊆ log') :
    OneHash userId log' ((exec q s).2.cfg userId) := by
  cases hm : q.upserts? userId with
  | none =>
      refine h.mono hsub fun field hf => exec_cfg_get (fun mapping he => ?_) hf
      subst he
      by_contra hne
      simp [Call.upserts?, hne] at hm
  | some m =>
      obtain ⟨payload, hc, rfl⟩ := (hq userId).1 m hm
      cases q with
      | hset key mapping =>
          obtain ⟨⟨rfl, -⟩, rfl⟩ := by simpa [Call.upserts?] using hm
          refine .inr ⟨payload, Checked.mono hsub hc, fun kv hkv _ => ?_⟩
          simp only [exec, State.cfg, State.setHash, put_self]
          exact Hash.get_hset_of_mem (by simp [configMapping]) hkv
      | _ => cases hm

theorem set_exec {q : Call} (h : OneSet userId log (s.sourceSet userId)) (hq : Backed log q) (hsub : log ⊆ log') :
    OneSet userId log' ((exec q s).2.sourceSet userId) := by
  cases hm : q.replaces? userId with
  | none =>
      rw [exec_sourceSet fun he => ?_]
      · exact h.mono hsub
      · cases q with
        | multiReplaceSources key ids hashKey => simp [Call.replaces?, show key = cfgSourcesKey userId from he] at hm
        | _ => exact he
  | some m =>
      obtain ⟨payload, hc, rfl⟩ := (hq userId).2 m hm
      cases q with
      | multiReplaceSources key ids hashKey =>
          obtain ⟨rfl, rfl⟩ := by simpa [Call.replaces?] using hm
          exact .inr ⟨payload, Checked.mono hsub hc, put_self _ _ _⟩
      | _ => cases hm

theorem good {q : Call} (h : Inv w) (hq : Backed w.log q) (hquery : OneQuery w.log q) {r : Except Exn q.Reply}
    (hr : protocol.Answers q w.state r s) : protocol.Good i w (.called i q r) s := by
  have hsub : w.log ⊆ (w.push (.called i q r) s).log := List.subset_cons_self _ _
  refine ⟨⟨fun u => ?_, fun u => ?_, fun j q' r' hmem => ?_⟩, trivial, fun _ _ => trivial⟩
  · rcases hr.state with rfl | rfl
    · exact (h.hash u).mono hsub fun _ _ => rfl
    · exact hash_exec (h.hash u) hq hsub
  · rcases hr.state with rfl | rfl
    · exact (h.set u).mono hsub
    · exact set_exec (h.set u) hq hsub
  · rcases List.mem_cons.mp hmem with he | hmem
    · cases he
      exact OneQuery.mono hsub hquery
    · exact OneQuery.mono hsub (h.queries j q' r' hmem)

/-! ## The rules -/

variable {A : World service → Prop}

theorem stable (hA : Lasting A) : protocol.Stable i A := fun w ev s _ _ _ _ _ h => hA w ev s h

/-- The calls that neither write a config nor ask for candidates. -/
def Bland (q : Call) : Prop := (∀ userId, ¬ q.Writes userId) ∧ ∀ log, OneQuery log q

theorem Bland.of_none {q : Call} (hu : ∀ userId, q.upserts? userId = none) (hr : ∀ userId, q.replaces? userId = none)
    (hquery : ∀ log, OneQuery log q) : Bland q :=
  ⟨fun u h => h.elim (fun h => h (hu u)) fun h => h (hr u), hquery⟩

theorem backed_of_not_writes {q : Call} (h : ∀ userId, ¬ q.Writes userId) : Backed log q := by
  intro u
  have hnone := not_or.mp (h u)
  refine ⟨fun m hm => ?_, fun m hm => ?_⟩
  · exact absurd (Option.ne_none_iff_exists'.mpr ⟨m, hm⟩) hnone.1
  · exact absurd (Option.ne_none_iff_exists'.mpr ⟨m, hm⟩) hnone.2

theorem Bland.backed {q : Call} (h : Bland q) : Backed log q := backed_of_not_writes h.1

theorem answered_triple (hA : Lasting A) {q : Call} (hq : Bland q) {Q : q.Reply → World service → Prop}
    (hQ : ∀ w, Inv w → A w → ∀ a, (exec q w.state).1 = .ok a → Q a (w.push (.called i q (.ok a)) (exec q w.state).2)) :
    protocol.Triple i A (ask q) (upon Q fun _ => True) := by
  refine Triple.perform (stable hA) fun w hw hAw _ r s hr => ⟨good hw hq.backed (hq.2 _) hr, ?_⟩
  cases r with
  | error e => trivial
  | ok a =>
      obtain ⟨rfl, ha⟩ := hr.of_ok
      exact hQ w hw hAw a ha

theorem keeps {α : Type} {p : Prog α} (hA : Lasting A) (hp : p.Uses Bland) :
    protocol.Triple i A p (upon (fun _ => A) fun _ => True) :=
  (Keeps.of_uses (stable hA) (hp.mono fun _ hq w hw hAw _ _ s hr =>
    ⟨good hw hq.backed (hq.2 _) hr, hA w _ s hAw⟩)).upon fun _ _ _ => trivial

theorem lasting_true : Lasting fun _ : World service => True := fun _ _ _ _ => trivial

theorem lasting_choice {x : Choice} : Lasting fun w : World service => OneChoice userId w.log x :=
  fun _ _ _ => OneChoice.mono (List.subset_cons_self _ _)

theorem lasting_selection : Lasting fun w : World service => OneSelection userId w.log ids :=
  fun _ _ _ => OneSelection.mono (List.subset_cons_self _ _)

theorem lasting_checked : Lasting fun w : World service => Checked userId payload w.log :=
  fun _ _ _ => Checked.mono (List.subset_cons_self _ _)

theorem lasting_mem : Lasting fun w : World service => ev ∈ w.log := fun _ _ _ => List.mem_cons_of_mem _

/-! ## Reading -/

theorem getConfig_triple (hA : Lasting A) : protocol.Triple i A (getConfig userId)
    (upon (fun cfg w => A w ∧ ∀ x ∈ cfg, OneChoice userId w.log x.settings) fun _ => True) := by
  refine Triple.seq (Q := fun raw w => A w ∧ OneHash userId w.log raw) (answered_triple hA ?_ ?_) fun raw => ?_
  · exact .of_none (fun _ => rfl) (fun _ => rfl) fun _ => trivial
  · intro w hw hAw a ha
    cases ha
    exact ⟨hA _ _ _ hAw, (hw.hash userId).mono (List.subset_cons_self _ _) fun _ _ => rfl⟩
  · split
    · exact Triple.pure fun w _ h => ⟨h.1, nofun⟩
    · cases hx : decodeConfig userId raw with
      | error e => exact Triple.raise fun _ _ _ => trivial
      | ok x =>
          refine Triple.pure fun w _ h => ⟨h.1, fun y hy => ?_⟩
          obtain rfl := Option.some.inj hy
          exact choice_of_decode h.2 hx

theorem getConfigSources_triple (hA : Lasting A) : protocol.Triple i A (getConfigSources userId)
    (upon (fun sources w => A w ∧ OneSelection userId w.log sources) fun _ => True) := by
  refine Triple.seq (Q := fun ids w => A w ∧ OneSet userId w.log ids) (answered_triple hA ?_ ?_) fun ids => ?_
  · exact .of_none (fun _ => rfl) (fun _ => rfl) fun _ => trivial
  · intro w hw hAw a ha
    cases ha
    exact ⟨hA _ _ _ hAw, (hw.set userId).mono (List.subset_cons_self _ _)⟩
  · exact Triple.pure fun w _ h => ⟨h.1, selection_of_set h.2⟩

theorem hydrateSources_bland : (hydrateSources userId).Uses Bland :=
  hydrateSources_uses (.of_none (fun _ => rfl) (fun _ => rfl) fun _ => trivial)
    fun _ => .of_none (fun _ => rfl) (fun _ => rfl) fun _ => trivial

/-- The answer shows the settings of one request and the sources of one request. -/
def Shown (userId : Int) (log : List (Event service)) (answer : ConfigResponse) : Prop :=
  OneChoice userId log answer.settings ∧ OneSelection userId log answer.selectedSourceIds

theorem readConfig_triple : protocol.Triple i (fun _ => True) (readConfig userId)
    (upon (fun answer w => Shown userId w.log answer) fun _ => True) := by
  refine Triple.seq (getConfig_triple lasting_true) fun cfg => ?_
  have hcfg : Lasting fun w : World service => True ∧ ∀ x ∈ cfg, OneChoice userId w.log x.settings :=
    fun w ev s h => ⟨trivial, fun x hx => lasting_choice w ev s (h.2 x hx)⟩
  refine Triple.seq (getConfigSources_triple hcfg) fun selected => ?_
  refine Triple.seq (keeps (Lasting.and hcfg lasting_selection) hydrateSources_bland) fun available => ?_
  cases cfg with
  | none => exact Triple.pure fun _ _ h => ⟨.inl rfl, h.2⟩
  | some x => exact Triple.pure fun _ _ h => ⟨h.1.2 x rfl, h.2⟩

/-! ## Writing -/

theorem write_triple {q : Call} (hbacked : ∀ log, Checked userId payload log → Backed log q)
    (hquery : ∀ log, OneQuery log q) :
    protocol.Triple i (fun w => Checked userId payload w.log) (ask q)
      (upon (fun _ w => Checked userId payload w.log) fun _ => True) := by
  refine Triple.perform (stable lasting_checked) fun w hw hc _ r s hr => ⟨good hw (hbacked _ hc) (hquery _) hr, ?_⟩
  cases r with
  | error e => trivial
  | ok a => exact lasting_checked w _ s hc

theorem hydrateSources_triple (hA : Lasting A) : protocol.Triple i A (hydrateSources userId)
    (upon (fun x w => A w ∧ .called i (.sourcesFor userId) (.ok x.1) ∈ w.log) fun _ => True) := by
  refine Triple.seq (Q := fun allowed w => A w ∧ .called i (.sourcesFor userId) (.ok allowed) ∈ w.log)
    (answered_triple hA ?_ fun w _ hAw a _ => ⟨hA _ _ _ hAw, List.mem_cons_self⟩) fun allowed => ?_
  · exact .of_none (fun _ => rfl) (fun _ => rfl) fun _ => trivial
  · refine Triple.seq (keeps (Lasting.and hA lasting_mem) ?_) fun names => Triple.pure fun _ _ h => h
    unfold fetchSourceNames
    split
    · trivial
    · exact uses_ask (.of_none (fun _ => rfl) (fun _ => rfl) fun _ => trivial)

theorem upsert_backed (log : List (Event service)) (hc : Checked userId payload log) :
    Backed log (.hset (cfgKey userId) (configMapping payload.ordering payload.displayMode payload.pageSize
      payload.dateFrom payload.dateTo)) := by
  refine fun u => ⟨fun m hm => ?_, nofun⟩
  obtain ⟨⟨rfl, -⟩, rfl⟩ := by simpa [Call.upserts?] using hm
  exact ⟨payload, hc, rfl⟩

theorem replace_backed (log : List (Event service)) (hc : Checked userId payload log) :
    Backed log (.multiReplaceSources (cfgSourcesKey userId) payload.selectedSourceIds (cfgKey userId)) := by
  refine fun u => ⟨nofun, fun m hm => ?_⟩
  obtain ⟨rfl, rfl⟩ := by simpa [Call.replaces?] using hm
  exact ⟨payload, hc, rfl⟩

theorem writeConfig_triple : protocol.Triple i (fun w => .started i (.writeConfig userId payload) ∈ w.log)
    (writeConfig userId payload) (upon (fun answer w => Shown userId w.log answer) fun _ => True) := by
  refine Triple.seq (hydrateSources_triple lasting_mem) fun x => ?_
  obtain ⟨allowed, available⟩ := x
  simp only
  split
  · exact Triple.raise fun _ _ _ => trivial
  · rename_i hbad
    have hchecked : ∀ w : World service, (.started i (.writeConfig userId payload) ∈ w.log ∧
        .called i (.sourcesFor userId) (.ok allowed) ∈ w.log) → Checked userId payload w.log := by
      refine fun w h => ⟨i, allowed, h.1, h.2, fun x hx => ?_⟩
      by_contra hnot
      have hmem : x ∈ payload.selectedSourceIds.dedup.filter (· ∉ allowed) :=
        List.mem_filter.mpr ⟨List.mem_dedup.mpr hx, by simpa using hnot⟩
      rw [not_not.mp hbad] at hmem
      cases hmem
    refine Triple.conseq ?_ (fun w _ => hchecked w) fun _ _ _ h => h
    refine Triple.seq (write_triple upsert_backed fun _ => trivial) fun _ => ?_
    refine Triple.seq (write_triple replace_backed fun _ => trivial) fun _ => ?_
    refine Triple.seq (keeps lasting_checked (uses_ask (.of_none (fun _ => rfl) (fun _ => rfl) fun _ => trivial)))
      fun _ => Triple.conseq readConfig_triple (fun _ _ _ => trivial) fun _ _ _ h => h

/-! ## The worker -/

theorem bland_of_reports {q : Call} (h : Reports userId q) : Bland q := by
  cases q <;> first
    | exact h.elim
    | exact .of_none (fun _ => rfl) (fun _ => rfl) fun _ => trivial

theorem bland_of_closes {q : Call} (h : Closes userId i q) : Bland q := by
  rcases h with h | rfl
  · exact bland_of_reports h
  · exact .of_none (fun _ => rfl) (fun _ => rfl) fun _ => trivial

theorem clearDirty_bland {key : String} : Bland (.hset key [("dirty", "0")]) :=
  .of_none (fun _ => if_neg fun h => h.2 rfl) (fun _ => rfl) fun _ => trivial

/-- What a worker has read: the settings of one request and the sources of one request. -/
def Read (userId : Int) (cfg : TapeConfig) (sources : List Int) (w : World service) : Prop :=
  OneChoice userId w.log cfg.settings ∧ OneSelection userId w.log sources

theorem lasting_read {cfg : TapeConfig} {sources : List Int} : Lasting (Read userId cfg sources) :=
  Lasting.and lasting_choice lasting_selection

theorem candidates_triple {cfg : TapeConfig} {sources existing : List Int} :
    protocol.Triple i (Read userId cfg sources)
      (candidatesForUser userId sources cfg.dateFrom cfg.dateTo cfg.ordering existing)
      (upon (fun _ _ => True) fun _ => True) := by
  unfold candidatesForUser
  split
  · exact Triple.pure fun _ _ _ => trivial
  · refine Triple.seq (Q := fun _ _ => True) ?_ fun rows => ?_
    · refine Triple.perform (stable lasting_read) fun w hw h _ r s hr =>
        ⟨good hw (backed_of_not_writes fun _ hq => by simp [Call.Writes, Call.upserts?, Call.replaces?] at hq) ?_ hr,
          by cases r <;> trivial⟩
      exact ⟨h.2, _, h.1, rfl, rfl, rfl⟩
    · split <;> exact Triple.pure fun _ _ _ => trivial

theorem any_keeps {α : Type} {p : Prog α} {R : Except Exn α → World service → Prop} (hp : p.Uses Bland)
    (hR : ∀ r w, R r w) : protocol.Triple i A p R :=
  Triple.conseq (keeps lasting_true hp) (fun _ _ _ => trivial) fun r w _ _ => hR r w

def generate (i : Nat) (userId : Int) (dirty : Bool) : GenerateOutline protocol i userId dirty where
  begun _ := True
  configured cfg w := OneChoice userId w.log cfg.settings
  sourced cfg sources w := Read userId cfg sources w
  wiped _ _ := True
  held cfg sources w := Read userId cfg sources w
  measured cfg sources _ w := Read userId cfg sources w
  ready cfg sources _ w := Read userId cfg sources w
  adding _ _ _ _ := True
  announced _ := True
  ended _ := True
  failed _ := True
  getConfig := Triple.conseq (getConfig_triple lasting_true) (fun _ _ h => h) fun r _ _ h => by
    rcases r with e | _ | cfg
    · trivial
    · trivial
    · exact h.2 cfg rfl
  getConfigSources _ := getConfigSources_triple lasting_choice
  leave _ _ _ _ _ := trivial
  wipe _ _ := any_keeps (uses_ask (.of_none (fun _ => rfl) (fun _ => rfl) fun _ => trivial)) fun r _ => by
    cases r <;> trivial
  wipe_clear _ _ := any_keeps (uses_ask clearDirty_bland) fun r _ => by cases r <;> trivial
  acquire _ _ _ := Triple.conseq
    (keeps lasting_read (uses_ask (.of_none (fun _ => rfl) (fun _ => rfl) fun _ => trivial)))
    (fun _ _ h => h) fun r _ _ h => by
      rcases r with e | _ | _
      · trivial
      · trivial
      · exact h
  held_reports _ _ _ hc := keeps lasting_read (uses_ask (bland_of_reports hc))
  delete _ _ _ := keeps lasting_read (uses_ask (.of_none (fun _ => rfl) (fun _ => rfl) fun _ => trivial))
  last _ _ _ := keeps lasting_read (maxPosition_uses (.of_none (fun _ => rfl) (fun _ => rfl) fun _ => trivial))
  page _ _ _ _ := keeps lasting_read (listEntriesPage_uses
    (fun _ _ => .of_none (fun _ => rfl) (fun _ => rfl) fun _ => trivial)
    fun _ _ => .of_none (fun _ => rfl) (fun _ => rfl) fun _ => trivial)
  candidates _ _ _ _ := candidates_triple
  zadd _ _ _ _ := any_keeps (uses_ask (.of_none (fun _ => rfl) (fun _ => rfl) fun _ => trivial)) fun r _ => by
    cases r <;> trivial
  announce added _ := any_keeps (Uses.forM added fun _ _ =>
    uses_ask (.of_none (fun _ => rfl) (fun _ => rfl) fun _ => trivial)) fun r _ => by cases r <;> trivial
  clear _ := any_keeps (uses_ask clearDirty_bland) fun r _ => by cases r <;> trivial
  keep _ _ _ _ := trivial
  ended_failed _ _ _ := trivial
  ended_stable := Stable.true i
  ended_quiet _ hc _ hw _ _ _ _ hr := ⟨good hw (bland_of_closes hc).backed ((bland_of_closes hc).2 _) hr, trivial⟩
  failed_stable := Stable.true i
  failed_quiet _ hc _ hw _ _ _ _ hr := ⟨good hw (bland_of_closes hc).backed ((bland_of_closes hc).2 _) hr, trivial⟩

/-! ## All jobs -/

def Post (job : Job) (r : Except Exn Out) (log : List (Event service)) : Prop :=
  ∀ userId answer, job.user? = some userId → r = .ok (.config answer) → Shown userId log answer

theorem body_triple {job : Job} : protocol.Triple i (fun w => .started i job ∈ w.log) (Job.body i job)
    fun r w => Post job r w.log := by
  cases job with
  | generate u dirty =>
      refine Triple.map (Triple.conseq (generate i u dirty).triple (fun _ _ _ => trivial) fun _ _ _ h => h)
        fun r _ _ _ => ?_
      cases r <;> exact fun _ _ _ he => nomatch he
  | readConfig u =>
      refine Triple.map (Triple.conseq readConfig_triple (fun _ _ _ => trivial) fun _ _ _ h => h) fun r _ _ h => ?_
      intro u' answer hu he
      cases hu
      cases r with
      | ok x =>
          cases he
          exact h
      | error e => cases he
  | writeConfig u payload =>
      refine Triple.map writeConfig_triple fun r _ _ h => ?_
      intro u' answer hu he
      cases hu
      cases r with
      | ok x =>
          cases he
          exact h
      | error e => cases he
  | readTape u after =>
      refine Triple.map (any_keeps (R := fun _ _ => True) (readTape_uses.mono fun q hq => ?_) fun _ _ => trivial)
        fun r _ _ _ => ?_
      · cases q <;> first
          | exact hq.elim
          | exact .of_none (fun _ => rfl) (fun _ => rfl) fun _ => trivial
      · cases r <;> exact fun _ _ _ he => nomatch he
  | submitScore u payload =>
      refine Triple.map (any_keeps (R := fun _ _ => True) (submitScore_uses.mono fun q hq => ?_) fun _ _ => trivial)
        fun r _ _ _ => ?_
      · cases q <;> first
          | exact hq.elim
          | exact .of_none (fun _ => rfl) (fun _ => rfl) fun _ => trivial
      · cases r <;> exact fun _ _ _ he => nomatch he
  | handle n =>
      refine Triple.map (any_keeps (R := fun _ _ => True) ((handle_uses_decoded n.payload).mono fun q hq => ?_)
        fun _ _ => trivial) fun r _ _ _ => ?_
      · obtain ⟨u, d, -, hq⟩ := hq
        cases q <;> first
          | exact hq.elim
          | exact .of_none (fun _ => rfl) (fun _ => rfl) fun _ => trivial
      · cases r <;> exact fun _ _ _ he => nomatch he

theorem Post.mono {job : Job} {r : Except Exn Out} (hsub : log ⊆ log') (h : Post job r log) : Post job r log' :=
  fun u answer hu hr => ⟨OneChoice.mono hsub (h u answer hu hr).1, OneSelection.mono hsub (h u answer hu hr).2⟩

theorem Inv.quiet (h : Inv w) (hcall : ∀ i q r, ev ≠ .called i q r) (hcfg : ∀ userId, s.cfg userId = w.state.cfg userId)
    (hset : ∀ userId, s.sourceSet userId = w.state.sourceSet userId) : Inv (w.push ev s) where
  hash u := by
    rw [World.push_state, hcfg]
    exact (h.hash u).mono (List.subset_cons_self _ _) fun _ _ => rfl
  set u := by
    rw [World.push_state, hset]
    exact (h.set u).mono (List.subset_cons_self _ _)
  queries i q r hmem := by
    rcases List.mem_cons.mp hmem with he | hmem
    · exact absurd he.symm (hcall i q r)
    · exact OneQuery.mono (List.subset_cons_self _ _) (h.queries i q r hmem)

def outline : Outline service fun _ _ => True where
  toProtocol := protocol
  post _ job r w := Post job r w.log
  post_stable _ _ _ _ _ _ _ _ _ _ h := h.mono (List.subset_cons_self _ _)
  may_ok _ _ _ _ _ _ _ := trivial
  may_fail _ _ _ _ _ _ _ _ _ := ⟨trivial, trivial⟩
  start_ok c job s _ hw _ hs := by
    have hredis : s.redis = c.world.state.redis := Job.begin_redis hs
    have hinv : Inv (c.world.push (.started c.threads.length job) s) :=
      hw.quiet (fun _ _ _ he => nomatch he) (fun u => by rw [State.cfg, State.cfg, hredis])
        fun u => by rw [State.sourceSet, State.sourceSet, hredis]
    exact ⟨⟨hinv, trivial, fun _ _ => trivial⟩, body_triple _ hinv List.mem_cons_self⟩
  crash_ok _ _ _ hw :=
    ⟨hw.quiet (fun _ _ _ he => nomatch he) (fun _ => rfl) fun _ => rfl, trivial, fun _ _ => trivial⟩
  env_ok _ _ _ _ hw hs := ⟨hw.quiet (fun _ _ _ he => nomatch he) (fun _ => Env.apply_cfg hs) fun _ =>
    Env.apply_sourceSet hs, trivial, fun _ _ _ _ => trivial⟩

end ConfigReads

/-- From an empty store: what a request shows of a config are the settings of one request and the sources of one
request that have been checked against the whitelist, and what a worker asks the database for are such settings and
sources as well. -/
theorem configs_read_whole {s : State} (hhashes : ∀ key, s.redis.hashes key = ∅) (hsets : ∀ key, s.redis.sets key = [])
    {c : Conf service} (h : Reach (fun _ _ => True) s c) :
    (∀ (i : Nat) t userId answer, c.threads[i]? = some t → t.job.user? = some userId →
      t.returned? = some (.config answer) →
      OneChoice userId c.world.log answer.settings ∧ OneSelection userId c.world.log answer.selectedSourceIds) ∧
    ∀ i q r, .called i q r ∈ c.world.log → OneQuery c.world.log q := by
  have hinit : ConfigReads.Inv ⟨s, []⟩ := by
    refine ⟨fun u => .inl fun field _ => ?_, fun u => .inl (hsets _), fun _ _ _ hmem => absurd hmem List.not_mem_nil⟩
    rw [State.cfg, hhashes]
    rfl
  have hholds : ConfigReads.outline.Holds c := Outline.holds_of_reach hinit h
  exact ⟨fun i t u answer ht hu hr => hholds.outcome ht (Thread.outcome_of_returned hr) u answer hu rfl,
    hholds.inv.queries⟩

end

section
open scoped Python.Utc

/-- Two requests overlap, and what they leave is shown and taken up. -/
def Sample.overlap : Conf service :=
  (Sample.start [Sample.article 6]).play (.start (.writeConfig 1 (Sample.update .desc [1])) ::
    .start (.writeConfig 1 (Sample.update .asc [])) :: Sample.runs 0 3 ++ Sample.runs 1 4 ++ Sample.runs 0 6 ++
    .start (.readConfig 1) :: Sample.runs 2 4 ++ .start (.generate 1 true) :: Sample.runs 3 30)

set_option maxRecDepth 4000 in
theorem configs_read_whole_overlap :
    (∃ payload, Checked 1 payload Sample.overlap.world.log ∧ payload.ordering.text = "asc") ∧
      (∃ payload, Checked 1 payload Sample.overlap.world.log ∧ payload.selectedSourceIds ≠ []) ∧
      OneQuery Sample.overlap.world.log (.candidates 1 [1] none none false) := by
  have hreach : Reach (fun _ _ => True) (Sample.start [Sample.article 6]).world.state Sample.overlap :=
    Steps.play (Conf.Obeys.of_labels fun _ _ _ => trivial)
  obtain ⟨hshown, hqueries⟩ := configs_read_whole (fun _ => rfl) (fun _ => rfl) hreach
  obtain ⟨hsettings, hsources⟩ := hshown 2 _ 1
    ⟨"asc", "compact", 20, none, none, true, [1], [⟨1, some "news"⟩]⟩ rfl rfl rfl
  have hquery : Sample.overlap.world.log[8]? =
      some (.called 3 (.candidates 1 [1] none none false) (.ok [6])) := rfl
  refine ⟨?_, ?_, hqueries 3 _ _ (List.mem_of_getElem? hquery)⟩
  · rcases hsettings with h | ⟨payload, hc, h⟩
    · exact absurd (congrArg Prod.fst h) (by decide)
    · exact ⟨payload, hc, (congrArg Prod.fst h).symm⟩
  · rcases hsources with h | ⟨payload, hc, h⟩
    · cases h
    · exact ⟨payload, hc, fun he => by simp [he] at h⟩

end

end TapeService
