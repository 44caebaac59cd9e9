import TapeService.Lemmas.Footprints

/-!
# Outlines of the generation

What a protocol has to say about `generate_for_user`: an assertion for each of its stages, and the step
from one stage to the next. The control flow of the function is followed here only.
-/

namespace TapeService

open Interleaving Interleaving.Program Interleaving.Protocol Python

/-- The calls that only report: frames about no entry, the run counter and the records of the runs. -/
def Reports (userId : Int) : Call → Prop
  | .publish channel event => channel = channelFor userId ∧ event.entry? = none
  | .incr key => key = runCounterKey
  | .xadd key _ => key = runsKey userId
  | _ => False

/-- The pairs that `append_entries` returns, taken up one command after the other. -/
theorem appendedPairs_cons (docId : Int) (docIds : List Int) (r : Nat) (results : List Nat)
    (position : Int) :
    appendedPairs (docId :: docIds) (r :: results) position =
      (if r = 1 then [(position, docId)] else []) ++ appendedPairs docIds results (position + 1) := by
  have hcast : ∀ k : Nat, position + ((k + 1 : Nat) : Int) = position + 1 + k := by
    intro k
    omega
  simp only [appendedPairs, List.zip_cons_cons, List.zipIdx_cons, List.filterMap_cons, zero_add,
    List.zipIdx_succ, List.filterMap_map, Function.comp_def, hcast]
  split <;> simp_all

variable [DatetimeLib]

/-- The rule for a call that is always answered, where none fails. -/
theorem answered_triple {P : Protocol service} (hP : ¬ P.faults) {i : Nat} {A E : World service → Prop}
    {c : Call} {Q : c.Reply → World service → Prop} (hc : ¬ c.EditsScores) (hA : P.Stable i A)
    (h : ∀ w, P.inv w → A w → P.may w i c →
      P.Good i w (.called i c (exec c w.state).1) (exec c w.state).2 ∧
        ∀ a, (exec c w.state).1 = .ok a → Q a (w.push (.called i c (.ok a)) (exec c w.state).2)) :
    P.Triple i A (ask c) (upon Q E) := by
  refine Triple.perform hA fun w hw hAw hm r s hr => ?_
  obtain ⟨rfl, rfl⟩ := hr.of_faultless hP
  obtain ⟨hg, hq⟩ := h w hw hAw hm
  obtain ⟨a, ha⟩ := exec_ok (s := w.state) hc
  refine ⟨hg, ?_⟩
  rw [ha]
  exact hq a ha

theorem ask_triple {P : Protocol service} (hP : ¬ P.faults) {i : Nat} {A E : World service → Prop} {c : Call}
    (hc : ¬ c.EditsScores) (hA : P.Stable i A) (hq : P.Quiet i A c) :
    P.Triple i A (ask c) (upon (fun _ => A) E) := by
  refine answered_triple hP hc hA fun w hw hAw hm => ?_
  obtain ⟨hg, hA'⟩ := hq w hw hAw hm _ _ (.inl rfl)
  exact ⟨hg, fun a ha => ha ▸ hA'⟩

/-- `max_position` is the position of the one row that it asks for, or -1. -/
theorem maxPosition_triple {P : Protocol service} {i : Nat} {userId : Int} {A E : World service → Prop}
    {Q : Int → World service → Prop}
    (h : P.Triple i A (Client.zrange (entriesKey userId) (-1) (-1))
      (upon (fun rows => Q ((rows.head?.map Prod.snd).getD (-1))) E)) :
    P.Triple i A (maxPosition userId) (upon Q E) := by
  refine Triple.seq h fun rows => ?_
  cases rows <;> exact Triple.pure fun _ _ h => h

/-- The calls of the way out: the reports, and the release of the lock. -/
def Closes (userId : Int) (i : Nat) (c : Call) : Prop :=
  Reports userId c ∨ c = .evalRelease (lockKey userId) (token i)

structure GenerateOutline (P : Protocol service) (i : Nat) (userId : Int) (dirty : Bool) where
  begun : World service → Prop
  configured : TapeConfig → World service → Prop
  sourced : TapeConfig → List Int → World service → Prop
  wiped : TapeConfig → World service → Prop
  held : TapeConfig → List Int → World service → Prop
  /-- The position of the last entry is known. -/
  measured : TapeConfig → List Int → Int → World service → Prop
  ready : TapeConfig → List Int → Base → World service → Prop
  /-- The entries that were added, the documents that are left and the position of the next one. -/
  adding : List (Int × Int) → List Int → Int → World service → Prop
  announced : World service → Prop
  /-- The function returns, and raises. -/
  ended : World service → Prop
  failed : World service → Prop
  getConfig : P.Triple i begun (getConfig userId)
    (upon (fun cfg => cfg.elim ended configured) failed)
  getConfigSources : ∀ cfg, P.Triple i (configured cfg) (getConfigSources userId) (upon (sourced cfg) failed)
  leave : dirty = false → ∀ cfg w, P.inv w → sourced cfg [] w → ended w
  wipe : dirty = true → ∀ cfg,
    P.Triple i (sourced cfg []) (deleteAllEntries userId) (upon (fun _ => wiped cfg) failed)
  wipe_clear : dirty = true → ∀ cfg, P.Triple i (wiped cfg) (clearDirty userId) (upon (fun _ => ended) failed)
  acquire : ∀ cfg sources, sources ≠ [] → P.Triple i (sourced cfg sources) (acquireLock userId (token i))
    (upon (fun got => if got then held cfg sources else ended) failed)
  held_reports : ∀ cfg sources c, Reports userId c →
    P.Triple i (held cfg sources) (ask c) (upon (fun _ => held cfg sources) failed)
  delete : dirty = true → ∀ cfg sources, P.Triple i (held cfg sources) (deleteAllEntries userId)
    (upon (fun removed => ready cfg sources ⟨removed, 0, []⟩) failed)
  last : dirty = false → ∀ cfg sources,
    P.Triple i (held cfg sources) (maxPosition userId) (upon (measured cfg sources) failed)
  page : dirty = false → ∀ cfg sources last,
    P.Triple i (measured cfg sources last) (listEntriesPage userId none 10000)
      (upon (fun page => ready cfg sources ⟨0, last + 1, page.map (·.2)⟩) failed)
  candidates : ∀ cfg sources base, sources ≠ [] → P.Triple i (ready cfg sources base)
    (candidatesForUser userId sources cfg.dateFrom cfg.dateTo cfg.ordering base.existing)
    (upon (fun docIds => adding [] docIds base.start) failed)
  zadd : ∀ added docId docIds position, P.Triple i (adding added (docId :: docIds) position)
    (Client.zaddNx (entriesKey userId) docId position)
    (upon (fun r => adding (if r = 1 then added ++ [(position, docId)] else added) docIds (position + 1)) failed)
  announce : ∀ added position, P.Triple i (adding added [] position)
    (added.forM fun entry => publish userId (.tapeEntryAdded userId entry.1 entry.2))
    (upon (fun _ => announced) failed)
  clear : dirty = true → P.Triple i announced (clearDirty userId) (upon (fun _ => ended) failed)
  keep : dirty = false → ∀ w, P.inv w → announced w → ended w
  ended_failed : ∀ w, P.inv w → ended w → failed w
  ended_stable : P.Stable i ended
  ended_quiet : ∀ c, Closes userId i c → P.Quiet i ended c
  failed_stable : P.Stable i failed
  failed_quiet : ∀ c, Closes userId i c → P.Quiet i failed c

namespace GenerateOutline

variable {P : Protocol service} {i : Nat} {userId : Int} {dirty : Bool}
  (O : GenerateOutline P i userId dirty)
include O

theorem ended_keeps {α : Type} {p : Prog α} (hp : p.Uses (Closes userId i)) :
    P.Triple i O.ended p (upon (fun _ => O.ended) O.failed) :=
  (Keeps.of_uses O.ended_stable (hp.mono O.ended_quiet)).upon O.ended_failed

theorem failed_keeps {α : Type} {p : Prog α} (hp : p.Uses (Closes userId i)) :
    P.Triple i O.failed p (upon (fun _ => O.failed) O.failed) :=
  (Keeps.of_uses O.failed_stable (hp.mono O.failed_quiet)).upon fun _ _ h => h

/-- The way out leads to the end that was reached, unless it raises itself. -/
theorem finally_triple {α : Type} {p : Prog α} {f : Prog Unit} {A : World service → Prop}
    (hp : P.Triple i A p (upon (fun _ => O.ended) O.failed)) (hf : f.Uses (Closes userId i)) :
    P.Triple i A (p.tryFinally f) (upon (fun _ => O.ended) O.failed) := by
  refine Triple.tryFinally hp fun r => ?_
  cases r with
  | ok a => exact Triple.conseq (O.ended_keeps hf) (fun _ _ h => h) fun r _ _ h => by cases r <;> exact h
  | error e => exact Triple.conseq (O.failed_keeps hf) (fun _ _ h => h) fun r _ _ h => by cases r <;> exact h

theorem createRun_triple {cfg : TapeConfig} {sources : List Int} {kind : Kind} :
    P.Triple i (O.held cfg sources) (createRun userId kind) (upon (fun _ => O.held cfg sources) O.failed) :=
  Triple.seq (O.held_reports cfg sources (.incr runCounterKey) rfl) fun runId =>
    Triple.seq (O.held_reports cfg sources (.xadd (runsKey userId) (.running runId kind)) rfl) fun _ =>
      Triple.pure fun _ _ h => h

theorem prepare_triple {cfg : TapeConfig} {sources : List Int} :
    P.Triple i (O.held cfg sources) (prepare userId dirty) (upon (O.ready cfg sources) O.failed) := by
  unfold prepare
  split
  · rename_i hdirty
    exact Triple.seq (O.delete hdirty cfg sources) fun removed => Triple.pure fun _ _ h => h
  · rename_i hdirty
    have hdirty : dirty = false := by simpa using hdirty
    exact Triple.seq (O.last hdirty cfg sources) fun last =>
      Triple.seq (O.page hdirty cfg sources last) fun page => Triple.pure fun _ _ h => h

theorem pipeZaddNx_triple (docIds : List Int) (added : List (Int × Int)) (position : Int) :
    P.Triple i (O.adding added docIds position) (pipeZaddNx (entriesKey userId) docIds position)
      (upon (fun results => O.adding (added ++ appendedPairs docIds results position) []
        (position + docIds.length)) O.failed) := by
  induction docIds generalizing added position with
  | nil => exact Triple.pure fun w _ h => by simpa [appendedPairs] using h
  | cons docId docIds ih =>
      refine Triple.seq (O.zadd added docId docIds position) fun r => ?_
      refine Triple.seq (ih _ (position + 1)) fun results => Triple.pure fun w _ h => ?_
      rw [appendedPairs_cons]
      have hlen : position + 1 + (docIds.length : Int) = position + ((docId :: docIds).length : Int) := by
        simp
        omega
      rw [hlen] at h
      by_cases hr : r = 1 <;> simpa [hr] using h

theorem failRun_triple {runId : Int} {kind : Kind} {removed : Nat} {e : Exn} :
    P.Triple i O.failed (failRun userId runId kind removed e) (upon (fun _ => O.ended) O.failed) := by
  refine Triple.seq (O.failed_keeps (uses_ask (.inl rfl))) fun _ =>
    Triple.seq (O.failed_keeps (uses_ask (.inl ⟨rfl, rfl⟩))) fun _ =>
      Triple.seq (O.failed_keeps (uses_ask (.inl ⟨rfl, rfl⟩))) fun _ => Triple.raise fun _ _ h => h

theorem report_triple {kind : Kind} {runId : Int} {removed : Nat} {appended : List (Int × Int)}
    {position : Int} :
    P.Triple i (O.adding appended [] position) (report userId dirty kind runId removed appended)
      (upon (fun _ => O.ended) O.failed) := by
  refine Triple.seq (O.announce appended position) fun _ => ?_
  have hcomplete : P.Triple i O.ended (completeRun userId runId kind appended.length removed)
      (upon (fun _ => O.ended) O.failed) :=
    O.ended_keeps (completeRun_uses (fun _ => .inl rfl) fun _ h _ => .inl ⟨rfl, h⟩)
  split
  · rename_i hdirty
    exact Triple.seq (O.clear hdirty) fun _ => hcomplete
  · rename_i hdirty
    exact Triple.conseq hcomplete (O.keep (by simpa using hdirty)) fun _ _ _ h => h

theorem fill_triple {cfg : TapeConfig} {sources : List Int} (hsources : sources ≠ []) {kind : Kind}
    {runId : Int} {base : Base} :
    P.Triple i (O.ready cfg sources base) (fill userId cfg sources dirty kind runId base)
      (upon (fun _ => O.ended) O.failed) := by
  refine Triple.seq (O.candidates cfg sources base hsources) fun docIds => ?_
  refine Triple.seq (Q := fun appended w => ∃ position, O.adding appended [] position w) ?_ fun appended => ?_
  · unfold appendEntries
    split
    · rename_i hnil
      subst hnil
      exact Triple.pure fun w _ h => ⟨base.start, h⟩
    · exact Triple.seq (O.pipeZaddNx_triple docIds [] base.start) fun results =>
        Triple.pure fun w _ h => ⟨_, h⟩
  · exact fun w hw ⟨position, h⟩ => O.report_triple w hw h

theorem regenerate_triple {cfg : TapeConfig} {sources : List Int} (hsources : sources ≠ []) :
    P.Triple i (O.held cfg sources) (regenerate userId dirty cfg sources)
      (upon (fun _ => O.ended) O.failed) := by
  have hpublish : ∀ event : Frame, event.entry? = none → P.Triple i (O.held cfg sources)
      (publish userId event) (upon (fun _ => O.held cfg sources) O.failed) :=
    fun event h => O.held_reports cfg sources (.publish (channelFor userId) event) ⟨rfl, h⟩
  refine Triple.seq (hpublish _ rfl) fun _ => Triple.seq O.createRun_triple fun runId =>
    Triple.seq (hpublish _ rfl) fun _ => ?_
  refine Triple.andThen O.prepare_triple fun r => ?_
  cases r with
  | error e => exact O.failRun_triple
  | ok base => exact Triple.tryCatch (O.fill_triple hsources) (fun _ _ _ h => h) fun e => O.failRun_triple

/-- The whole function, from the assertion at its start to the one at its end. -/
theorem triple :
    P.Triple i O.begun (generateForUser (token i) userId dirty) (upon (fun _ => O.ended) O.failed) := by
  refine Triple.seq O.getConfig fun cfg => ?_
  cases cfg with
  | none => exact Triple.pure fun _ _ h => h
  | some cfg =>
      refine Triple.seq (O.getConfigSources cfg) fun sources => ?_
      split
      · rename_i hnil
        subst hnil
        split
        · rename_i hdirty
          exact Triple.seq (O.wipe hdirty cfg) fun _ => Triple.seq (O.wipe_clear hdirty cfg) fun _ =>
            Triple.pure fun _ _ h => h
        · rename_i hdirty
          exact Triple.pure (O.leave (by simpa using hdirty) cfg)
      · rename_i hsources
        refine Triple.seq (O.acquire cfg sources hsources) fun got => ?_
        cases got with
        | false => exact O.ended_keeps (Uses.tryFinally trivial trivial)
        | true =>
            exact O.finally_triple (O.finally_triple (O.regenerate_triple hsources) (uses_ask (.inr rfl)))
              (uses_ask (.inl ⟨rfl, rfl⟩))

end GenerateOutline

/-! ## `GET /tape` -/

/-- What a protocol has to say about `read_tape`: before and after the look at the lock, and once the rows
are read. -/
structure ReadTapeOutline (P : Protocol service) (i : Nat) (userId : Int) (after : Option Nat) where
  begun : World service → Prop
  free : World service → Prop
  shown : List (Int × Int) → World service → Prop
  check : P.Triple i begun (isLocked userId)
    (upon (fun locked => if locked then fun _ => True else free) fun _ => True)
  getConfig : P.Triple i free (getConfig userId) (upon (fun _ => free) fun _ => True)
  rows : ∀ limit, P.Triple i free (listEntriesPage userId (after.map Int.ofNat) limit)
    (upon shown fun _ => True)
  shown_stable : ∀ rows, P.Stable i (shown rows)
  shown_quiet : ∀ rows c, PageCall userId c → P.Quiet i (shown rows) c

namespace ReadTapeOutline

variable {P : Protocol service} {i : Nat} {userId : Int} {after : Option Nat}
  (O : ReadTapeOutline P i userId after)
include O

/-- The page is made without rows, or it goes on from the position of a row that was read. -/
inductive Served (page : TapePage) (w : World service) : Prop
  | unread (hn : page.nextPosition = none) (h : O.free w)
  | read (rows : List (Int × Int)) (hn : ∀ n, page.nextPosition = some n → n ∈ rows.map Prod.fst)
      (h : O.shown rows w)

theorem shown_keeps {α : Type} {rows : List (Int × Int)} {p : Prog α} (hp : p.Uses (PageCall userId)) :
    P.Triple i (O.shown rows) p (upon (fun _ => O.shown rows) fun _ => True) :=
  (Keeps.of_uses (O.shown_stable rows) (hp.mono (O.shown_quiet rows))).upon fun _ _ _ => trivial

theorem readRows_triple {cfg : TapeConfig} {rows : List (Int × Int)} :
    P.Triple i (O.shown rows) (readRows userId cfg rows) (upon O.Served fun _ => True) := by
  refine Triple.seq (O.shown_keeps (fetchByIds_uses fun _ => trivial)) fun docs => ?_
  refine Triple.seq (O.shown_keeps (filterAlreadyScored_uses fun _ => rfl)) fun alreadyScored => ?_
  refine Triple.seq (O.shown_keeps (rolesBySource_uses (fun _ => rfl) fun _ => trivial)) fun rolesBySrc => ?_
  refine Triple.seq (O.shown_keeps (pageItems_uses (fun _ _ => rfl) fun d _ => ⟨rfl, d, rfl⟩)) fun items => ?_
  refine Triple.pure fun w _ h => .read rows (fun n hn => ?_) h
  simp only [Option.ite_none_right_eq_some, Option.map_eq_some_iff] at hn
  obtain ⟨-, row, hrow, rfl⟩ := hn
  exact List.mem_map_of_mem (List.mem_of_getLast? hrow)

theorem triple : P.Triple i O.begun (readTape userId after) (upon O.Served fun _ => True) := by
  refine Triple.seq O.check fun locked => ?_
  cases locked with
  | true => exact Triple.raise fun _ _ _ => trivial
  | false =>
      refine Triple.seq O.getConfig fun cfg => ?_
      cases cfg with
      | none => exact Triple.pure fun _ _ h => .unread rfl h
      | some cfg =>
          refine Triple.seq (O.rows cfg.pageSize) fun rows => ?_
          split
          · exact Triple.seq (O.shown_keeps (uses_ask rfl)) fun total =>
              Triple.pure fun _ _ h => .read rows (fun _ hn => nomatch hn) h
          · exact O.readRows_triple

end ReadTapeOutline

end TapeService
