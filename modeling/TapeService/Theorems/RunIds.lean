import TapeService.Interleaving.Outbox
import TapeService.Lemmas.Outlines
import TapeService.Theorems.RunRecords

/-!
# The runs of all users

The ids of the runs come from one counter, and their records go to the streams of the users. However the
generations interleave, fail and die on the way, an id stays with one run: its records are in one stream, and tell
of an opening and after it of one success and one failure at the most, in this order.
-/

namespace TapeService

open Interleaving Interleaving.Program Interleaving.Protocol Python

/-! ## The property -/

def RunRecord.id : RunRecord → Int
  | .running id _ => id
  | .finished id _ _ _ => id

/-- The records of run `n` in the stream of the user. -/
def State.runRecords (s : State) (userId n : Int) : List RunRecord := (s.runs userId).filter (·.id = n)

/-- What a stream tells of run `n`. -/
inductive Tale (n : Int) : List RunRecord → Prop
  | untold : Tale n []
  | opened (kind : Kind) : Tale n [.running n kind]
  | succeeded (kind : Kind) (added removed : Nat) : Tale n [.running n kind, .finished n .ok added removed]
  | failed (kind : Kind) (removed : Nat) : Tale n [.running n kind, .finished n .error 0 removed]
  /-- One of the last two frames of a success could not be published. -/
  | revoked (kind : Kind) (added removed : Nat) :
      Tale n [.running n kind, .finished n .ok added removed, .finished n .error 0 removed]

namespace RunIds

section
variable {userId n : Int} {s : State} {c : Call}

/-- The call opens and closes no record and counts no run. -/
def Apart : Call → Prop
  | .xadd _ _ => False
  | .incr _ => False
  | _ => True

theorem Apart.ne_xadd (h : Apart c) (key : String) (r : RunRecord) : c ≠ .xadd key r := by
  rintro rfl
  exact h

theorem Apart.ne_incr (h : Apart c) (key : String) : c ≠ .incr key := by
  rintro rfl
  exact h

theorem publish_apart {event : Frame} : (publish userId event).Uses Apart :=
  uses_ask (c := .publish (channelFor userId) event) trivial

theorem clearDirty_apart : (clearDirty userId).Uses Apart :=
  uses_ask (c := .hset (cfgKey userId) [("dirty", "0")]) trivial

theorem exec_runRecords (h : ∀ r, c ≠ .xadd (runsKey userId) r) :
    (exec c s).2.runRecords userId n = s.runRecords userId n :=
  congrArg (List.filter fun r : RunRecord => r.id = n) (RunRecords.exec_runs h)

theorem runRecords_xadd_self {r : RunRecord} (h : r.id = n) :
    (exec (.xadd (runsKey userId) r) s).2.runRecords userId n = s.runRecords userId n ++ [r] := by
  have hruns : (exec (.xadd (runsKey userId) r) s).2.runs userId = s.runs userId ++ [r] := put_self _ _ _
  rw [State.runRecords, hruns, List.filter_append, List.filter_singleton, State.runRecords]
  simp [h]

theorem runRecords_xadd_of_ne {r : RunRecord} {u : Int} (h : r.id ≠ n) :
    (exec (.xadd (runsKey u) r) s).2.runRecords userId n = s.runRecords userId n := by
  by_cases hu : u = userId
  · subst hu
    have hruns : (exec (.xadd (runsKey u) r) s).2.runs u = s.runs u ++ [r] := put_self _ _ _
    rw [State.runRecords, hruns, List.filter_append, State.runRecords]
    simp [h]
  · exact exec_runRecords fun r' he => hu (runsKey_inj.mp (Call.xadd.inj he).1)

end

end RunIds

section
variable [DatetimeLib]

/-- A thread with a run that it has counted. -/
def counted? : Event service → Option (Nat × Int)
  | .called i (.incr key) (.ok n) => if key = runCounterKey then some (i, n) else none
  | _ => none

namespace RunIds

variable {userId n : Int} {w : World service} {ev : Event service} {s : State} {i : Nat} {l : List RunRecord}

/-! ## The protocol -/

structure Inv (w : World service) : Prop where
  increasing : (record counted? w.log).Pairwise fun a b => a.2 < b.2
  below : ∀ x ∈ record counted? w.log, x.2 ≤ w.state.redis.counters runCounterKey
  known : ∀ u n, w.state.runRecords u n ≠ [] → ∃ i, (i, n) ∈ record counted? w.log
  tales : ∀ n, ∃ u, Tale n (w.state.runRecords u n) ∧ ∀ v, v ≠ u → w.state.runRecords v n = []

/-- A step writes records only of runs that its thread has counted. -/
def OwnRecords (w : World service) (ev : Event service) (s : State) : Prop :=
  ∀ n, (∀ i, (i, n) ∈ record counted? w.log → ev.thread? ≠ some i) →
    ∀ u, s.runRecords u n = w.state.runRecords u n

def protocol : Protocol service where
  inv := Inv
  guar := OwnRecords
  rely _ _ _ _ := True
  may _ _ _ := True
  faults := True

theorem Inv.owner (h : Inv w) {i j : Nat} (hi : (i, n) ∈ record counted? w.log)
    (hj : (j, n) ∈ record counted? w.log) : i = j := by
  have hdistinct : ((record counted? w.log).map Prod.snd).Nodup :=
    List.pairwise_map.mpr (h.increasing.imp fun hlt => ne_of_lt hlt)
  exact congrArg Prod.fst (List.inj_on_of_nodup_map hdistinct hi hj rfl)

/-- Thread `i` has counted run `n`, whose records are `l`. -/
structure Owns (i : Nat) (userId n : Int) (l : List RunRecord) (w : World service) : Prop where
  counted : (i, n) ∈ record counted? w.log
  records : w.state.runRecords userId n = l
  others : ∀ v, v ≠ userId → w.state.runRecords v n = []

theorem mem_push {x : Nat × Int} (h : x ∈ record counted? w.log) : x ∈ record counted? (w.push ev s).log := by
  rw [World.push_log, record_cons]
  exact List.mem_append_left _ h

theorem Owns.stable : protocol.Stable i (Owns i userId n l) := by
  intro w ev s hw _ hev hg _ h
  have hsame : ∀ u, s.runRecords u n = w.state.runRecords u n :=
    hg n fun j hj => hw.owner h.counted hj ▸ hev
  exact ⟨mem_push h.counted, (hsame userId).trans h.records, fun v hv => (hsame v).trans (h.others v hv)⟩

theorem Inv.quiet (h : Inv w) (hev : counted? ev = none) (hrecords : ∀ u n, s.runRecords u n = w.state.runRecords u n)
    (hcounter : s.redis.counters runCounterKey = w.state.redis.counters runCounterKey) : Inv (w.push ev s) := by
  have hlog : record counted? (w.push ev s).log = record counted? w.log := record_cons_none hev _
  refine ⟨hlog ▸ h.increasing, fun x hx => ?_, fun u n hne => ?_, fun n => ?_⟩
  · rw [World.push_state, hcounter]
    exact h.below x (hlog ▸ hx)
  · rw [World.push_state, hrecords] at hne
    exact hlog ▸ h.known u n hne
  · simp only [World.push_state, hrecords]
    exact h.tales n

/-! ## Calls -/

theorem Apart.counted {c : Call} (hc : Apart c) (r : Except Exn c.Reply) :
    counted? (.called i c r : Event service) = none := by
  cases c with
  | incr key => exact hc.elim
  | _ => rfl

theorem Apart.effect {c : Call} (hc : Apart c) (hs : s = w.state ∨ s = (exec c w.state).2) :
    (∀ u n, s.runRecords u n = w.state.runRecords u n) ∧
      s.redis.counters runCounterKey = w.state.redis.counters runCounterKey := by
  rcases hs with rfl | rfl
  · exact ⟨fun _ _ => rfl, rfl⟩
  · exact ⟨fun u n => exec_runRecords fun r => hc.ne_xadd _ r, RunRecords.exec_counter (hc.ne_incr _)⟩

theorem Apart.good {c : Call} (hc : Apart c) (hw : Inv w) {r : Except Exn c.Reply}
    (hr : protocol.Answers c w.state r s) : protocol.Good i w (.called i c r) s := by
  obtain ⟨hrecords, hcounter⟩ := hc.effect hr.state
  exact ⟨hw.quiet (hc.counted r) hrecords hcounter, fun n _ u => hrecords u n, fun _ _ => trivial⟩

theorem apart_triple {α : Type} {p : Prog α} (hp : p.Uses Apart) {E : World service → Prop}
    (hE : ∀ w, Owns i userId n l w → E w) :
    protocol.Triple i (Owns i userId n l) p (upon (fun _ => Owns i userId n l) E) := by
  refine Keeps.upon (Keeps.of_uses Owns.stable (hp.mono fun c hc w hw h _ r s hr => ?_)) fun w _ =>
    hE w
  obtain ⟨hrecords, -⟩ := hc.effect hr.state
  exact ⟨hc.good hw hr, mem_push h.counted, (hrecords _ _).trans h.records, fun v hv =>
    (hrecords v n).trans (h.others v hv)⟩

theorem any_triple {α : Type} {p : Prog α} (hp : p.Uses Apart) {A : World service → Prop} :
    protocol.Triple i A p fun _ _ => True :=
  Triple.conseq (Keeps.of_uses (Stable.true i) (hp.mono fun _ hc _ hw _ _ _ _ hr => ⟨hc.good hw hr, trivial⟩))
    (fun _ _ _ => trivial) fun _ _ _ h => h

/-- The next run has no records yet. -/
theorem incr_triple : protocol.Triple i (fun _ => True) (ask (.incr runCounterKey))
    (upon (fun n => Owns i userId n []) fun _ => True) := by
  refine Triple.perform (Stable.true i) fun w hw _ _ r s hr => ?_
  have hrecords : ∀ u n, s.runRecords u n = w.state.runRecords u n := by
    rcases hr.state with rfl | rfl
    · exact fun _ _ => rfl
    · exact fun u n => exec_runRecords nofun
  have hcounter : w.state.redis.counters runCounterKey ≤ s.redis.counters runCounterKey := by
    rcases hr.state with rfl | rfl
    · exact Int.le_refl _
    · simp only [exec, State.setCounter, put_self]
      omega
  cases r with
  | error e =>
      have hlog : record counted? (w.push (.called i (.incr runCounterKey) (.error e)) s).log = record counted? w.log :=
        record_cons_none rfl _
      refine ⟨⟨⟨hlog ▸ hw.increasing, fun x hx => (hw.below x (hlog ▸ hx)).trans hcounter, fun u n hne => ?_,
        fun n => ?_⟩, fun n _ u => hrecords u n, fun _ _ => trivial⟩, trivial⟩
      · rw [World.push_state, hrecords] at hne
        exact hlog ▸ hw.known u n hne
      · simp only [World.push_state, hrecords]
        exact hw.tales n
  | ok n =>
      obtain ⟨rfl, hn⟩ := hr.of_ok
      obtain rfl : w.state.redis.counters runCounterKey + 1 = n := Except.ok.inj hn
      have hlog : record counted? (w.push (.called i (.incr runCounterKey)
          (.ok (w.state.redis.counters runCounterKey + 1))) (exec (.incr runCounterKey) w.state).2).log =
          record counted? w.log ++ [(i, w.state.redis.counters runCounterKey + 1)] :=
        record_cons_some (by simp [counted?]) _
      have hfresh : ∀ u, w.state.runRecords u (w.state.redis.counters runCounterKey + 1) = [] := by
        intro u
        by_contra hne
        obtain ⟨j, hj⟩ := hw.known u _ hne
        have := hw.below _ hj
        omega
      refine ⟨⟨⟨?_, fun x hx => ?_, fun u n hne => ?_, fun n => ?_⟩, fun n _ u => hrecords u n, fun _ _ => trivial⟩,
        hlog ▸ List.mem_append_right _ (List.mem_singleton_self _), (hrecords _ _).trans (hfresh _), fun v _ =>
        (hrecords _ _).trans (hfresh v)⟩
      · rw [hlog]
        refine List.pairwise_append.mpr ⟨hw.increasing, List.pairwise_singleton _ _, fun a ha b hb => ?_⟩
        obtain rfl := List.mem_singleton.mp hb
        have := hw.below a ha
        omega
      · rw [hlog] at hx
        rcases List.mem_append.mp hx with hx | hx
        · exact (hw.below x hx).trans hcounter
        · obtain rfl := List.mem_singleton.mp hx
          simp only [World.push_state, exec, State.setCounter, put_self, le_refl]
      · rw [World.push_state, hrecords] at hne
        obtain ⟨j, hj⟩ := hw.known u n hne
        exact ⟨j, mem_push hj⟩
      · simp only [World.push_state, hrecords]
        exact hw.tales n

theorem xadd_triple {r : RunRecord} (hid : r.id = n) (htale : Tale n (l ++ [r])) :
    protocol.Triple i (Owns i userId n l) (ask (.xadd (runsKey userId) r))
      (upon (fun _ => Owns i userId n (l ++ [r])) fun w => Owns i userId n l w ∨ Owns i userId n (l ++ [r]) w) := by
  refine Triple.perform Owns.stable fun w hw h _ a s ha => ?_
  have hlog : record counted? (w.push (.called i (.xadd (runsKey userId) r) a) s).log = record counted? w.log :=
    record_cons_none rfl _
  have hunchanged : s = w.state → protocol.Good i w (.called i (.xadd (runsKey userId) r) a) s ∧
      Owns i userId n l (w.push (.called i (.xadd (runsKey userId) r) a) s) := by
    rintro rfl
    exact ⟨⟨hw.quiet rfl (fun _ _ => rfl) rfl, fun _ _ _ => rfl, fun _ _ => trivial⟩, mem_push h.counted, h.records,
      h.others⟩
  have hwritten : s = (exec (.xadd (runsKey userId) r) w.state).2 →
      protocol.Good i w (.called i (.xadd (runsKey userId) r) a) s ∧
        Owns i userId n (l ++ [r]) (w.push (.called i (.xadd (runsKey userId) r) a) s) := by
    rintro rfl
    have hself : (exec (.xadd (runsKey userId) r) w.state).2.runRecords userId n = l ++ [r] := by
      rw [runRecords_xadd_self hid, h.records]
    have hothers : ∀ v, v ≠ userId → (exec (.xadd (runsKey userId) r) w.state).2.runRecords v n = [] := by
      intro v hv
      rw [exec_runRecords fun r' he => hv (runsKey_inj.mp (Call.xadd.inj he).1).symm, h.others v hv]
    have hrest : ∀ m, m ≠ n → ∀ u,
        (exec (.xadd (runsKey userId) r) w.state).2.runRecords u m = w.state.runRecords u m := fun m hm u =>
      runRecords_xadd_of_ne fun he => hm (he.symm.trans hid)
    refine ⟨⟨⟨hlog ▸ hw.increasing, fun x hx => hw.below x (hlog ▸ hx), fun u m hne => ?_, fun m => ?_⟩,
      fun m hm u => ?_, fun _ _ => trivial⟩, mem_push h.counted, hself, hothers⟩
    · by_cases hm : m = n
      · exact ⟨i, hm ▸ mem_push h.counted⟩
      · rw [World.push_state, hrest m hm] at hne
        exact hlog ▸ hw.known u m hne
    · by_cases hm : m = n
      · subst hm
        exact ⟨userId, hself ▸ htale, hothers⟩
      · simp only [World.push_state, hrest m hm]
        exact hw.tales m
    · by_cases hmn : m = n
      · exact absurd rfl (hm i (hmn ▸ h.counted))
      · exact hrest m hmn u
  rcases ha.state with hs | hs
  · obtain ⟨hg, ho⟩ := hunchanged hs
    refine ⟨hg, ?_⟩
    cases a with
    | error e => exact .inl ho
    | ok x => exact (hwritten ha.of_ok.1).2
  · obtain ⟨hg, ho⟩ := hwritten hs
    refine ⟨hg, ?_⟩
    cases a with
    | error e => exact .inr ho
    | ok x => exact ho

/-! ## The worker -/

variable {kind : Kind}

theorem createRun_triple : protocol.Triple i (fun _ => True) (createRun userId kind)
    (upon (fun n => Owns i userId n [.running n kind]) fun _ => True) := by
  have hincr : protocol.Triple i _ _ (upon (fun n => Owns i userId n []) fun _ => True) := incr_triple
  refine Triple.seq hincr fun n => Triple.seq ?_ fun _ => Triple.pure fun _ _ h => h
  refine Triple.conseq (xadd_triple (r := .running n kind) rfl (.opened kind)) (fun _ _ h => h) fun r _ _ h => ?_
  cases r with
  | ok a => exact h
  | error e => trivial

/-- Whatever becomes of the handler, it raises. -/
theorem failRun_triple {removed : Nat} {e : Exn} {Q : Kind × Nat → World service → Prop}
    (htale : Tale n (l ++ [.finished n .error 0 removed])) :
    protocol.Triple i (Owns i userId n l) (failRun userId n kind removed e) (upon Q fun _ => True) := by
  refine Triple.seq (Q := fun _ _ => True) ?_ fun _ => ?_
  · exact Triple.conseq (xadd_triple (r := .finished n .error 0 removed) rfl htale) (fun _ _ h => h) fun r _ _ _ => by
      cases r <;> trivial
  · refine Triple.seq (Q := fun _ _ => True) ?_ fun _ => Triple.seq (Q := fun _ _ => True) ?_ fun _ =>
      Triple.raise fun _ _ _ => trivial
    · exact Triple.conseq (any_triple publish_apart) (fun _ _ h => h) fun r _ _ _ => by cases r <;> trivial
    · exact Triple.conseq (any_triple publish_apart) (fun _ _ h => h) fun r _ _ _ => by cases r <;> trivial

/-- The run is open, or has been recorded as a success. -/
def Unsettled (i : Nat) (userId n : Int) (kind : Kind) (removed : Nat) (w : World service) : Prop :=
  Owns i userId n [.running n kind] w ∨
    ∃ added, Owns i userId n [.running n kind, .finished n .ok added removed] w

theorem fill_triple {cfg : TapeConfig} {sources : List Int} {dirty : Bool} {base : Base} :
    protocol.Triple i (Owns i userId n [.running n kind]) (fill userId cfg sources dirty kind n base)
      (upon (fun x => Owns i userId n [.running n x.1, .finished n .ok x.2 base.removed])
        (Unsettled i userId n kind base.removed)) := by
  have hopen : ∀ w, Owns i userId n [.running n kind] w → Unsettled i userId n kind base.removed w := fun _ => .inl
  refine Triple.seq (apart_triple (candidatesForUser_uses fun _ _ _ _ => trivial) hopen) fun docIds => ?_
  refine Triple.seq (apart_triple (appendEntries_uses fun _ _ => trivial) hopen) fun appended => ?_
  refine Triple.seq (apart_triple (Uses.forM appended fun _ _ => publish_apart) hopen) fun _ => ?_
  have hcomplete : protocol.Triple i (Owns i userId n [.running n kind])
      (completeRun userId n kind appended.length base.removed)
      (upon (fun x => Owns i userId n [.running n x.1, .finished n .ok x.2 base.removed])
        (Unsettled i userId n kind base.removed)) := by
    have hclosed : ∀ w, Owns i userId n [.running n kind, .finished n .ok appended.length base.removed] w →
        Unsettled i userId n kind base.removed w := fun _ h => .inr ⟨_, h⟩
    refine Triple.seq (Q := fun _ => Owns i userId n [.running n kind, .finished n .ok appended.length base.removed])
      ?_ fun _ => ?_
    · refine Triple.conseq (xadd_triple (r := .finished n .ok appended.length base.removed) rfl (.succeeded _ _ _))
        (fun _ _ h => h) fun r _ _ h => ?_
      cases r with
      | ok a => exact h
      | error e => exact h.imp_right fun h => ⟨_, h⟩
    · exact Triple.seq (apart_triple publish_apart hclosed) fun _ =>
        Triple.seq (apart_triple publish_apart hclosed) fun _ => Triple.pure fun _ _ h => h
  split
  · exact Triple.seq (apart_triple clearDirty_apart hopen) fun _ => hcomplete
  · exact hcomplete

/-- A generation has told of its run, or skipped it. -/
def Done (i : Nat) (userId : Int) (x : Kind × Nat) (w : World service) : Prop :=
  x.1 = .skipped ∨ ∃ n removed, Owns i userId n [.running n x.1, .finished n .ok x.2 removed] w

theorem Done.stable {x : Kind × Nat} : protocol.Stable i (Done i userId x) := by
  intro w ev s hw hw' hev hg hr h
  exact h.imp_right fun ⟨n, removed, ho⟩ => ⟨n, removed, Owns.stable w ev s hw hw' hev hg hr ho⟩

theorem done_keeps {α : Type} {p : Prog α} (hp : p.Uses Apart) {x : Kind × Nat} :
    protocol.Keeps i (Done i userId x) p := by
  refine Keeps.of_uses Done.stable (hp.mono fun c hc w hw h _ r s hr => ⟨hc.good hw hr, h.imp_right ?_⟩)
  rintro ⟨n, removed, ho⟩
  obtain ⟨hrecords, -⟩ := hc.effect hr.state
  exact ⟨n, removed, mem_push ho.counted, (hrecords _ _).trans ho.records, fun v hv =>
    (hrecords v n).trans (ho.others v hv)⟩

theorem regenerate_triple {cfg : TapeConfig} {sources : List Int} {dirty : Bool} :
    protocol.Triple i (fun _ => True) (regenerate userId dirty cfg sources)
      (upon (fun x => Done i userId x) fun _ => True) := by
  unfold regenerate
  refine Triple.seq (Q := fun _ _ => True) ?_ fun _ => Triple.seq createRun_triple fun n => ?_
  · exact Triple.conseq (any_triple publish_apart) (fun _ _ h => h) fun r _ _ _ => by cases r <;> trivial
  refine Triple.seq (apart_triple publish_apart fun _ _ => trivial) fun _ => ?_
  refine Triple.andThen (apart_triple (prepare_uses (fun _ => trivial) fun _ _ => trivial) fun _ h => h) fun r => ?_
  cases r with
  | error e => exact failRun_triple (.failed _ 0)
  | ok base =>
      refine Triple.tryCatch fill_triple (fun x _ _ h => .inr ⟨n, _, h⟩) fun e w hw h => ?_
      rcases h with h | ⟨added, h⟩
      · exact failRun_triple (.failed _ _) w hw h
      · exact failRun_triple (.revoked _ _ _) w hw h

/-- What is done on the way out of a generation leaves its records alone. -/
theorem finally_triple {p : Prog (Kind × Nat)} {f : Prog Unit} {A : World service → Prop}
    (hp : protocol.Triple i A p (upon (fun x => Done i userId x) fun _ => True)) (hf : f.Uses Apart) :
    protocol.Triple i A (p.tryFinally f) (upon (fun x => Done i userId x) fun _ => True) := by
  refine Triple.tryFinally hp fun r => ?_
  cases r with
  | ok x => exact Triple.conseq (done_keeps hf) (fun _ _ h => h) fun r _ _ h => by cases r <;> first | exact h | trivial
  | error e => exact Triple.conseq (any_triple hf) (fun _ _ h => h) fun r _ _ _ => by cases r <;> trivial

theorem generateForUser_triple {t : String} {dirty : Bool} :
    protocol.Triple i (fun _ => True) (generateForUser t userId dirty)
      (upon (fun x => Done i userId x) fun _ => True) := by
  have hrest : ∀ {α : Type} {p : Prog α}, p.Uses Apart →
      protocol.Triple i (fun _ => True) p (upon (fun _ _ => True) fun _ => True) := fun hp =>
    Triple.conseq (any_triple hp) (fun _ _ h => h) fun r _ _ _ => by cases r <;> trivial
  refine Triple.seq (hrest (getConfig_uses trivial)) fun cfg => ?_
  cases cfg with
  | none => exact Triple.pure fun _ _ _ => .inl rfl
  | some cfg =>
      refine Triple.seq (hrest (getConfigSources_uses trivial)) fun sources => ?_
      split
      · split
        · exact Triple.seq (hrest (uses_ask (c := .multiZcardDel (entriesKey userId)) trivial)) fun _ =>
            Triple.seq (hrest clearDirty_apart) fun _ => Triple.pure fun _ _ _ => .inl rfl
        · exact Triple.pure fun _ _ _ => .inl rfl
      · refine Triple.seq (hrest (uses_ask (c := .setNxEx (lockKey userId) t) trivial)) fun got => ?_
        cases got with
        | true =>
            exact finally_triple (finally_triple regenerate_triple
              (uses_ask (c := .evalRelease (lockKey userId) t) trivial)) publish_apart
        | false => exact finally_triple (Triple.pure fun _ _ _ => .inl rfl) trivial

/-! ## All jobs -/

theorem apart_of_jobCall {job : Job} (hjob : ∀ u dirty, job ≠ .generate u dirty) {c : Call} (h : JobCall i job c) :
    Apart c := by
  cases job with
  | generate u dirty => exact absurd rfl (hjob u dirty)
  | handle m =>
      obtain ⟨u, d, -, h⟩ := h
      cases c <;> first
        | exact h.elim
        | trivial
  | _ =>
      cases c <;> first
        | exact h.elim
        | trivial

def Post (i : Nat) (job : Job) (r : Except Exn Out) (w : World service) : Prop :=
  ∀ u dirty kind added, job = .generate u dirty → r = .ok (.generated kind added) → Done i u (kind, added) w

theorem body_triple {job : Job} : protocol.Triple i (fun _ => True) (Job.body i job) (Post i job) := by
  by_cases hjob : ∃ u dirty, job = .generate u dirty
  · obtain ⟨u, dirty, rfl⟩ := hjob
    refine Triple.map generateForUser_triple fun r w _ h => ?_
    intro u' dirty' kind added hj hr
    cases hj
    cases r with
    | ok x =>
        cases hr
        exact h
    | error e => cases hr
  · refine Triple.conseq (any_triple ((Job.body_uses i job).mono fun c hc =>
      apart_of_jobCall (fun u dirty he => hjob ⟨u, dirty, he⟩) hc)) (fun _ _ h => h) fun r w _ _ => ?_
    exact fun u dirty _ _ he => absurd ⟨u, dirty, he⟩ hjob

def outline : Outline service fun _ _ => True where
  toProtocol := protocol
  post := Post
  post_stable i _ _ w ev s hw hw' hev hg h u dirty kind added hj hr :=
    Done.stable w ev s hw hw' hev hg trivial (h u dirty kind added hj hr)
  may_ok _ _ _ _ _ _ _ := trivial
  may_fail _ _ _ _ _ _ _ _ _ := ⟨trivial, trivial⟩
  start_ok c job s _ hw _ hs := by
    have hredis : s.redis = c.world.state.redis := Job.begin_redis hs
    have hrecords : ∀ u n, s.runRecords u n = c.world.state.runRecords u n := fun u n => by
      rw [State.runRecords, State.runRecords, State.runs, State.runs, hredis]
    have hinv : Inv (c.world.push (.started c.threads.length job) s) := hw.quiet rfl hrecords (by rw [hredis])
    exact ⟨⟨hinv, fun n _ u => hrecords u n, fun _ _ => trivial⟩, body_triple _ hinv trivial⟩
  crash_ok _ _ _ hw := ⟨hw.quiet rfl (fun _ _ => rfl) rfl, fun _ _ _ => rfl, fun _ _ => trivial⟩
  env_ok c e s _ hw hs := by
    have hstreams : s.redis.streams = c.world.state.redis.streams := by rw [Env.apply_redis hs]
    have hcounters : s.redis.counters = c.world.state.redis.counters := by rw [Env.apply_redis hs]
    have hrecords : ∀ u n, s.runRecords u n = c.world.state.runRecords u n := fun u n => by
      rw [State.runRecords, State.runRecords, State.runs, State.runs, hstreams]
    exact ⟨hw.quiet rfl hrecords (by rw [hcounters]), fun n _ u => hrecords u n, fun _ _ _ _ => trivial⟩

end RunIds

/-- Whatever fails, dies or expires, and trimming aside, the records of a run are in the stream of one user and tell of
one opening, then of one success at the most, then of one failure at the most; no run is counted by two threads. A
generation that reports entries has counted a run, whose records tell of its success with the number that it reports. -/
theorem runs_told_apart {s : State} (hs : ∀ key, s.redis.streams key = []) {c : Conf service}
    (h : Reach (fun _ _ => True) s c) :
    (∀ n, ∃ u, Tale n (c.world.state.runRecords u n) ∧ ∀ v, v ≠ u → c.world.state.runRecords v n = []) ∧
    (∀ i j n, .called i (.incr runCounterKey) (.ok n) ∈ c.world.log →
      .called j (.incr runCounterKey) (.ok n) ∈ c.world.log → i = j) ∧
    ∀ i t u dirty kind added, c.threads[i]? = some t → t.job = .generate u dirty →
      t.returned? = some (.generated kind added) → kind ≠ .skipped →
      ∃ n removed, .called i (.incr runCounterKey) (.ok n) ∈ c.world.log ∧
        c.world.state.runRecords u n = [.running n kind, .finished n .ok added removed] := by
  have hempty : ∀ u n, s.runRecords u n = [] := fun u n => by rw [State.runRecords, State.runs, hs, List.filter_nil]
  have hinit : RunIds.Inv ⟨s, []⟩ :=
    ⟨List.Pairwise.nil, nofun, fun u n hne => absurd (hempty u n) hne, fun n =>
      ⟨0, (hempty 0 n).symm ▸ .untold, fun v _ => hempty v n⟩⟩
  have hholds : RunIds.outline.Holds c := Outline.holds_of_reach hinit h
  have hcounted : ∀ i n, (i, n) ∈ record counted? c.world.log ↔
      .called i (.incr runCounterKey) (.ok n) ∈ c.world.log := by
    intro i n
    rw [mem_record]
    constructor
    · rintro ⟨ev, hev, he⟩
      unfold counted? at he
      split at he
      · split at he
        · rename_i hkey
          cases he
          exact hkey ▸ hev
        · cases he
      · cases he
    · exact fun hmem => ⟨_, hmem, by simp [counted?]⟩
  refine ⟨hholds.inv.tales, fun i j n hi hj => ?_, fun i t u dirty kind added ht hjob hr hkind => ?_⟩
  · exact hholds.inv.owner ((hcounted i n).mpr hi) ((hcounted j n).mpr hj)
  · have hdone := hholds.outcome ht (Thread.outcome_of_returned hr) u dirty kind added hjob rfl
    obtain ⟨n, removed, ho⟩ := hdone.resolve_left hkind
    exact ⟨n, removed, (hcounted i n).mp ho.counted, ho.records⟩

end

section
open scoped Python.Utc

/-- A generation that fails after its success has been recorded, and one that tries again. -/
def Sample.retold : Conf service :=
  (Sample.start [Sample.article 6]).play (.start (.writeConfig 1 (Sample.update .asc [1])) :: Sample.runs 0 9 ++
    .start (.generate 1 true) :: Sample.runs 1 13 ++ [.fail 1 .callFailed false] ++ Sample.runs 1 9 ++
    .start (.generate 1 true) :: Sample.runs 2 30)

set_option maxRecDepth 4000 in
theorem runs_told_apart_retold : (∀ v, v ≠ 1 → Sample.retold.world.state.runRecords v 1 = []) ∧
    ∃ n removed, Sample.retold.world.state.runRecords 1 n = [.running n .full, .finished n .ok 1 removed] := by
  have hreach : Reach (fun _ _ => True) (Sample.start [Sample.article 6]).world.state Sample.retold :=
    Steps.play (Conf.Obeys.of_labels fun _ _ _ => trivial)
  obtain ⟨htales, -, hreported⟩ := runs_told_apart (fun _ => rfl) hreach
  refine ⟨?_, ?_⟩
  · obtain ⟨u, -, hothers⟩ := htales 1
    by_cases hu : u = 1
    · exact hu ▸ hothers
    · have hrecords : Sample.retold.world.state.runRecords 1 1 =
          [.running 1 .full, .finished 1 .ok 1 0, .finished 1 .error 0 0] := rfl
      cases hrecords.symm.trans (hothers 1 (Ne.symm hu))
  · obtain ⟨n, removed, -, hrecords⟩ := hreported 2 _ 1 true .full 1 rfl rfl rfl nofun
    exact ⟨n, removed, hrecords⟩

end

end TapeService
