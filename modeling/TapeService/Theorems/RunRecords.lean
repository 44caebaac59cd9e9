import TapeService.Lemmas.Changes
import TapeService.Lemmas.Footprints

/-!
# The records of runs

A generation opens the record of its run before the guarded part and closes it inside of it or in the
handler. Which call raises decides whether the record is closed once, and with the status of the outcome.
-/

namespace TapeService

open Interleaving Interleaving.Program Python

/-! ## The property -/

/-- The runs stream of the user. -/
def State.runs (s : State) (userId : Int) : List RunRecord := s.redis.streams (runsKey userId)

/-- The frames about the runs and the lock. -/
def Frame.announces : Frame → Bool
  | .scheduleStarted _ _ _ => true
  | .scheduleCompleted _ _ _ => true
  | .lockReleased _ => true
  | _ => false

def Call.announced? (userId : Int) : Call → Option Frame
  | .publish channel event => if channel = channelFor userId ∧ event.announces = true then some event else none
  | _ => none

/-- The id of the run that the call opens. -/
def Call.opened? : Call → Option Int
  | .xadd _ (.running id _) => some id
  | _ => none

def RunRecord.closes? (id : Int) : RunRecord → Option Status
  | .finished i status _ _ => if i = id then some status else none
  | _ => none

def Frame.completes? (id : Int) : Frame → Option Status
  | .scheduleCompleted _ i status => if i = id then some status else none
  | _ => none

/-- A call of `generate_for_user`. -/
structure Generation where
  userId : Int
  before : State
  after : State
  result : Except Exn (Kind × Nat)
  log : Log

/-- The status that the records of the call should have. -/
def Generation.status (g : Generation) : Status :=
  match g.result with
  | .ok _ => .ok
  | .error _ => .error

/-- Each record that is opened is closed once before the call exits, and each frame of a start is followed by one
of the end before the lock is announced to be free, both with the status of the outcome. -/
structure Generation.Bracketed (g : Generation) : Prop where
  runs : ∀ v, ∃ records, g.after.runs v = g.before.runs v ++ records ∧ ∀ first id kind later,
    records = first ++ .running id kind :: later → later.filterMap (·.closes? id) = [g.status]
  frames : ∀ v first u id kind later,
    noted (Call.announced? v) g.log = first ++ .scheduleStarted u id kind :: later →
      (later.takeWhile (· ≠ .lockReleased u)).filterMap (·.completes? id) = [g.status]

section
variable [DatetimeLib]

/-- Calls of `generate_for_user`, one after the other. In each of them one call at most raises; between them
anything else may happen, except that nothing else counts runs. -/
inductive Served : State → List Generation → State → Prop
  | nil (s : State) : Served s [] s
  | cons {s t t' s' : State} {token : String} {userId : Int} {dirty : Bool} {r : Except Exn (Kind × Nat)}
      {log : Log} {gs : List Generation}
      (hcounter : t.redis.counters runCounterKey = s.redis.counters runCounterKey)
      (hrun : (generateForUser token userId dirty).Runs exec Eq .callFailed t r t' log) (hone : OneFault log)
      (hrest : Served t' gs s') : Served s (⟨userId, t, t', r, log⟩ :: gs) s'

end

/-- The calls that the records do not survive: the frame of the start comes before the guarded part, two more
frames follow the record that closes the run, and the lock is released after the guarded part. -/
def Call.unguarded : Call → Bool
  | .publish _ (.scheduleStarted _ _ _) => true
  | .publish _ (.tapeRegenerated _ _ _ _) => true
  | .publish _ (.scheduleCompleted _ _ _) => true
  | .evalRelease _ _ => true
  | .publish _ (.lockReleased _) => true
  | _ => false

namespace RunRecords

/-! ## What a run has told so far -/

/-- The call opens or closes no record, counts no run and publishes no frame about one. -/
def Silent : Call → Prop
  | .xadd _ _ => False
  | .incr _ => False
  | .publish _ event => event.announces = false
  | _ => True

structure Told (userId : Int) (start : State) (records : List RunRecord) (said : List Frame) (ids : List Int)
    (counter : Int) (s : State) (log : Log) : Prop where
  runs : s.runs userId = start.runs userId ++ records
  said : noted (Call.announced? userId) log = said
  ids : noted Call.opened? log = ids
  counter : s.redis.counters runCounterKey = counter

/-- The assertion holds, and a call has raised that is one of the unguarded or not. -/
def Hurt (b : Bool) (A : State → Log → Prop) (s : State) (log : Log) : Prop :=
  ∃ d : Call, d.unguarded = b ∧ Upto (some d) A s log

variable {userId : Int} {start s : State} {records : List RunRecord} {said : List Frame} {ids : List Int}
  {counter : Int} {log : Log} {c : Call}

theorem exec_runs (h : ∀ r, c ≠ .xadd (runsKey userId) r) : (exec c s).2.runs userId = s.runs userId := by
  cases c with
  | xadd key r => exact put_of_ne _ _ fun he => h r (he ▸ rfl)
  | setNxEx key t => simp only [exec]; split <;> rfl
  | evalRelease key t => simp only [exec]; split <;> rfl
  | _ => rfl

theorem exec_counter (h : c ≠ .incr runCounterKey) :
    (exec c s).2.redis.counters runCounterKey = s.redis.counters runCounterKey := by
  cases c with
  | incr key => exact put_of_ne _ _ fun he => h (he ▸ rfl)
  | setNxEx key t => simp only [exec]; split <;> rfl
  | evalRelease key t => simp only [exec]; split <;> rfl
  | _ => rfl

theorem Told.raised (h : Told userId start records said ids counter s log) :
    Told userId start records said ids counter s (log ++ [⟨c, s, true⟩]) :=
  ⟨h.runs, noted_raised.trans h.said, noted_raised.trans h.ids, h.counter⟩

theorem Told.silent (h : Told userId start records said ids counter s log) (hc : Silent c) :
    Told userId start records said ids counter (exec c s).2 (log ++ [⟨c, s, false⟩]) := by
  have hx : ∀ r, c ≠ .xadd (runsKey userId) r := by
    rintro r rfl
    exact hc
  have hi : c ≠ .incr runCounterKey := by
    rintro rfl
    exact hc
  have hf : c.announced? userId = none := by
    cases c with
    | publish channel event =>
        have hevent : event.announces = false := hc
        simp [Call.announced?, hevent]
    | _ => rfl
  have ho : c.opened? = none := by
    cases c with
    | xadd key r => exact hc.elim
    | _ => rfl
  refine ⟨(exec_runs hx).trans h.runs, ?_, ?_, (exec_counter hi).trans h.counter⟩
  · rw [noted_answered, hf, h.said, Option.toList_none, List.append_nil]
  · rw [noted_answered, ho, h.ids, Option.toList_none, List.append_nil]

theorem Told.record {r : RunRecord} (h : Told userId start records said ids counter s log) :
    Told userId start (records ++ [r]) said (ids ++ (Call.xadd (runsKey userId) r).opened?.toList) counter
      (exec (.xadd (runsKey userId) r) s).2 (log ++ [⟨.xadd (runsKey userId) r, s, false⟩]) := by
  refine ⟨?_, ?_, ?_, h.counter⟩
  · rw [← List.append_assoc, ← h.runs]
    exact put_self _ _ _
  · rw [noted_answered, h.said]
    exact List.append_nil said
  · rw [noted_answered, h.ids]

theorem Told.frame {event : Frame} (h : Told userId start records said ids counter s log)
    (hevent : event.announces = true) :
    Told userId start records (said ++ [event]) ids counter (exec (.publish (channelFor userId) event) s).2
      (log ++ [⟨.publish (channelFor userId) event, s, false⟩]) := by
  refine ⟨h.runs, ?_, ?_, h.counter⟩
  · rw [noted_answered, h.said]
    simp [Call.announced?, hevent]
  · rw [noted_answered, h.ids]
    exact List.append_nil ids

/-! ## Calls -/

section
variable {E : State → Log → Prop}

variable {f : Option Call}

theorem told_ask {Q : c.Reply → State → Log → Prop}
    (hanswer : ∀ s log, Told userId start records said ids counter s log →
      ∃ a, (exec c s).1 = .ok a ∧ Q a (exec c s).2 (log ++ [⟨c, s, false⟩]))
    (hE : f = none → ∀ s log, Hurt c.unguarded (Told userId start records said ids counter) s log → E s log) :
    Leads exec .callFailed (Upto f (Told userId start records said ids counter)) (ask c)
      (either (fun a => Upto f (Q a)) E) :=
  Leads.call hanswer fun hf s _ h hfault => hE hf s _ ⟨c, rfl, fault?_raised hfault, h.raised⟩

theorem publish_told {event : Frame}
    (hE : f = none → ∀ s log, Hurt (Call.publish (channelFor userId) event).unguarded
      (Told userId start records said ids counter) s log → E s log) :
    Leads exec .callFailed (Upto f (Told userId start records said ids counter)) (publish userId event)
      (either (fun _ => Upto f (Told userId start records (said ++ [event].filter Frame.announces) ids counter))
        E) := by
  refine told_ask (fun s log h => ⟨(), rfl, ?_⟩) hE
  cases hevent : event.announces with
  | true => simpa [hevent] using h.frame hevent
  | false => simpa [hevent] using h.silent (c := .publish _ event) hevent

theorem finishRun_told {id : Int} {status : Status} {added removed : Nat}
    (hE : f = none → ∀ s log, Hurt false (Told userId start records said ids counter) s log → E s log) :
    Leads exec .callFailed (Upto f (Told userId start records said ids counter))
      (finishRun userId id status added removed)
      (either (fun _ => Upto f (Told userId start (records ++ [.finished id status added removed]) said ids counter))
        E) := by
  refine told_ask (fun s log h => ⟨(), rfl, ?_⟩) hE
  have hrecord := h.record (r := .finished id status added removed)
  exact ⟨hrecord.runs, hrecord.said, hrecord.ids.trans (List.append_nil ids), hrecord.counter⟩

/-- The calls of the guarded part, and those before the lock has been taken. -/
structure Guarded (c : Call) : Prop where
  silent : Silent c
  guarded : c.unguarded = false
  answered : ∀ s, ∃ a, (exec c s).1 = .ok a

theorem told_plain {α : Type} {p : Prog α} (hp : p.Plain) (hu : p.Uses Guarded)
    (hE : ∀ s log, Hurt false (Told userId start records said ids counter) s log → E s log) :
    Leads exec .callFailed (Upto none (Told userId start records said ids counter)) p
      (either (fun _ => Upto none (Told userId start records said ids counter)) E) :=
  Leads.plain hp hu (fun _ hc s _ h => (hc.answered s).imp fun _ ha => ⟨ha, h.silent hc.silent⟩)
    fun c hc s _ h hfault => hE s _ ⟨c, hc.guarded, fault?_raised hfault, h.raised⟩

section
variable [DatetimeLib]

/-! ## The ends of a run -/

omit [DatetimeLib] in
/-- The record is closed before the last frames, either of which may raise. -/
theorem completeRun_told {runId : Int} {kind : Kind} {added removed : Nat}
    (hopen : ∀ s log, Hurt false (Told userId start records said ids counter) s log → E s log)
    (hclosed : ∀ s log,
      Hurt true (Told userId start (records ++ [.finished runId .ok added removed]) said ids counter) s log →
      E s log) :
    Leads exec .callFailed (Upto none (Told userId start records said ids counter))
      (completeRun userId runId kind added removed)
      (either (fun _ => Upto none (Told userId start (records ++ [.finished runId .ok added removed])
        (said ++ [.scheduleCompleted userId runId .ok]) ids counter)) E) := by
  refine Leads.seq (finishRun_told fun _ => hopen) fun _ => ?_
  refine Leads.seq (publish_told fun _ => hclosed) fun _ => ?_
  rw [show [Frame.tapeRegenerated userId kind added removed].filter Frame.announces = [] from rfl, List.append_nil]
  refine Leads.seq (publish_told fun _ => hclosed) fun _ => ?_
  exact Leads.pure fun _ _ h => h

omit [DatetimeLib] in
/-- The handler closes the record, whether or not it has been closed before. -/
theorem failRun_told {d : Call} {runId : Int} {kind : Kind} {removed : Nat} {e : Exn}
    {Q : Kind × Nat → State → Log → Prop} :
    Leads exec .callFailed (Upto (some d) (Told userId start records said ids counter))
      (failRun userId runId kind removed e)
      (either Q (Upto (some d) (Told userId start (records ++ [.finished runId .error 0 removed])
        (said ++ [.scheduleCompleted userId runId .error]) ids counter))) := by
  refine Leads.seq (finishRun_told nofun) fun _ => ?_
  refine Leads.seq (publish_told nofun) fun _ => ?_
  rw [show [Frame.tapeRegenerated userId kind 0 removed].filter Frame.announces = [] from rfl, List.append_nil]
  refine Leads.seq (publish_told nofun) fun _ => ?_
  exact Leads.raise fun _ _ h => h

/-- What the guarded part leaves when it goes wrong: nothing, or a record that is closed already. -/
def Failing (userId : Int) (start : State) (records : List RunRecord) (said : List Frame) (ids : List Int)
    (counter runId : Int) (s : State) (log : Log) : Prop :=
  Hurt false (Told userId start records said ids counter) s log ∨ ∃ added removed,
    Hurt true (Told userId start (records ++ [.finished runId .ok added removed]) said ids counter) s log

/-- What the guarded part leaves when it goes well. -/
def Closed (userId : Int) (start : State) (records : List RunRecord) (said : List Frame) (ids : List Int)
    (counter runId : Int) (s : State) (log : Log) : Prop :=
  ∃ added removed, Upto none (Told userId start (records ++ [.finished runId .ok added removed])
    (said ++ [.scheduleCompleted userId runId .ok]) ids counter) s log

omit [DatetimeLib] in
theorem clearDirty_guarded : (clearDirty userId).Uses Guarded := uses_ask ⟨trivial, rfl, fun _ => ⟨_, rfl⟩⟩

omit [DatetimeLib] in
theorem prepare_guarded {dirty : Bool} : (prepare userId dirty).Uses Guarded :=
  prepare_uses (fun _ => ⟨trivial, rfl, fun _ => ⟨_, rfl⟩⟩) fun _ _ => ⟨trivial, rfl, fun _ => ⟨_, rfl⟩⟩

theorem fill_told {cfg : TapeConfig} {sources : List Int} {dirty : Bool} {kind : Kind} {runId : Int} {base : Base} :
    Leads exec .callFailed (Upto none (Told userId start records said ids counter))
      (fill userId cfg sources dirty kind runId base)
      (either (fun _ => Closed userId start records said ids counter runId)
        (Failing userId start records said ids counter runId)) := by
  have hE : ∀ s log, Hurt false (Told userId start records said ids counter) s log →
      Failing userId start records said ids counter runId s log := fun _ _ h => .inl h
  have hcands : ∀ sources dateFrom dateTo descending,
      Guarded (.candidates userId sources dateFrom dateTo descending) :=
    fun _ _ _ _ => ⟨trivial, rfl, fun _ => ⟨_, rfl⟩⟩
  have hadds : ∀ m p, Guarded (.zaddNx (entriesKey userId) m p) := fun _ _ => ⟨trivial, rfl, fun _ => ⟨_, rfl⟩⟩
  have hframes : ∀ entry : Int × Int,
      Guarded (.publish (channelFor userId) (.tapeEntryAdded userId entry.1 entry.2)) :=
    fun _ => ⟨rfl, rfl, fun _ => ⟨_, rfl⟩⟩
  refine Leads.seq (told_plain candidatesForUser_plain (candidatesForUser_uses hcands) hE) fun docIds => ?_
  refine Leads.seq (told_plain appendEntries_plain (appendEntries_uses hadds) hE) fun appended => ?_
  refine Leads.seq (told_plain (Plain.forM _ fun _ => Plain.perform)
    (Uses.forM _ fun entry _ => uses_ask (hframes entry)) hE) fun _ => ?_
  · have hend : Leads exec .callFailed (Upto none (Told userId start records said ids counter))
        (completeRun userId runId kind appended.length base.removed)
        (either (fun _ => Closed userId start records said ids counter runId)
          (Failing userId start records said ids counter runId)) := by
      refine Leads.conseq (completeRun_told (E := Failing userId start records said ids counter runId)
        (fun _ _ h => .inl h) fun _ _ h => .inr ⟨_, _, h⟩) (fun _ _ h => h) ?_
      rintro (e | a) s log h
      · exact h
      · exact ⟨_, _, h⟩
    cases dirty with
    | true => exact Leads.seq (told_plain Plain.perform clearDirty_guarded hE) fun _ => hend
    | false => exact hend

/-- What the handler leaves. -/
def Handled (userId : Int) (start : State) (records : List RunRecord) (said : List Frame) (ids : List Int)
    (counter runId : Int) (s : State) (log : Log) : Prop :=
  (∃ removed, Hurt false (Told userId start (records ++ [.finished runId .error 0 removed])
    (said ++ [.scheduleCompleted userId runId .error]) ids counter) s log) ∨
  ∃ added removed removed', Hurt true (Told userId start
    (records ++ [.finished runId .ok added removed, .finished runId .error 0 removed'])
    (said ++ [.scheduleCompleted userId runId .error]) ids counter) s log

omit [DatetimeLib] in
theorem handler_told {kind : Kind} {runId : Int} {removed : Nat} {e : Exn} {Q : Kind × Nat → State → Log → Prop} :
    Leads exec .callFailed (Failing userId start records said ids counter runId)
      (failRun userId runId kind removed e) (either Q (Handled userId start records said ids counter runId)) := by
  rintro s log (⟨d, hd, h⟩ | ⟨added, removed', d, hd, h⟩) r s' later hrun hone
  · have hend := failRun_told (Q := Q) s log h r s' later hrun hone
    cases r with
    | ok a => exact hend
    | error e => exact .inl ⟨removed, d, hd, hend⟩
  · have hend := failRun_told (Q := Q) s log h r s' later hrun hone
    cases r with
    | ok a => exact hend
    | error e =>
        rw [List.append_assoc] at hend
        exact .inr ⟨added, removed', removed, d, hd, hend⟩

theorem guarded_told {cfg : TapeConfig} {sources : List Int} {dirty : Bool} {kind : Kind} {runId : Int} :
    Leads exec .callFailed (Upto none (Told userId start records said ids counter))
      ((prepare userId dirty).andThen fun
        | .error e => failRun userId runId kind 0 e
        | .ok base => (fill userId cfg sources dirty kind runId base).tryCatch (failRun userId runId kind base.removed))
      (either (fun _ => Closed userId start records said ids counter runId)
        (Handled userId start records said ids counter runId)) := by
  refine Leads.andThen (told_plain (E := Failing userId start records said ids counter runId) prepare_plain
    prepare_guarded fun _ _ h => .inl h) fun r => ?_
  cases r with
  | error e => exact handler_told
  | ok base => exact Leads.tryCatch fill_told (fun _ _ _ h => h) fun e => handler_told

/-! ## The whole generation -/

/-- What has been told when the lock is released, and whether an unguarded call has raised; `k` runs had been
counted before. -/
inductive Outcome (userId k : Int) : Status → Bool → List RunRecord → List Frame → List Int → Int → Prop
  | unopened {counter : Int} (h : k ≤ counter) : Outcome userId k .error false [] [] [] counter
  | unstarted {kind : Kind} : Outcome userId k .error true [.running (k + 1) kind] [] [k + 1] (k + 1)
  | completed {kind : Kind} {added removed : Nat} : Outcome userId k .ok false
      [.running (k + 1) kind, .finished (k + 1) .ok added removed]
      [.scheduleStarted userId (k + 1) kind, .scheduleCompleted userId (k + 1) .ok] [k + 1] (k + 1)
  | failed {kind : Kind} {removed : Nat} : Outcome userId k .error false
      [.running (k + 1) kind, .finished (k + 1) .error 0 removed]
      [.scheduleStarted userId (k + 1) kind, .scheduleCompleted userId (k + 1) .error] [k + 1] (k + 1)
  | twice {kind : Kind} {added removed removed' : Nat} : Outcome userId k .error true
      [.running (k + 1) kind, .finished (k + 1) .ok added removed, .finished (k + 1) .error 0 removed']
      [.scheduleStarted userId (k + 1) kind, .scheduleCompleted userId (k + 1) .error] [k + 1] (k + 1)

/-- The guarded part has come to its end, and no call has raised. -/
def Returned (userId k : Int) (start : State) (s : State) (log : Log) : Prop :=
  ∃ records said ids counter, Outcome userId k .ok false records said ids counter ∧
    Upto none (Told userId start records said ids counter) s log

/-- A call has raised, and what has been told is as after one of the outcomes that go wrong. -/
def Raised (userId k : Int) (start : State) (s : State) (log : Log) : Prop :=
  ∃ b records said ids counter, Outcome userId k .error b records said ids counter ∧
    Hurt b (Told userId start records said ids counter) s log

omit [DatetimeLib] in
theorem incr_told {k : Int} (hE : ∀ s log, Hurt false (Told userId start [] [] [] k) s log → E s log) :
    Leads exec .callFailed (Upto none (Told userId start [] [] [] k)) (Client.incr runCounterKey)
      (either (fun runId => Upto none fun s log => runId = k + 1 ∧ Told userId start [] [] [] (k + 1) s log) E) := by
  refine told_ask (fun s log h => ⟨_, rfl, congrArg (· + 1) h.counter, h.runs, ?_, ?_, ?_⟩) fun _ => hE
  · exact noted_answered.trans ((List.append_nil _).trans h.said)
  · exact noted_answered.trans ((List.append_nil _).trans h.ids)
  · have hcounter : (exec (.incr runCounterKey) s).2.redis.counters runCounterKey =
        s.redis.counters runCounterKey + 1 := by simp [exec, State.setCounter, put_self]
    rw [hcounter, h.counter]

omit [DatetimeLib] in
/-- The run gets an id that no other has, and its record is opened. -/
theorem createRun_told {k : Int} {kind : Kind}
    (hE : ∀ counter, k ≤ counter → ∀ s log, Hurt false (Told userId start [] [] [] counter) s log → E s log) :
    Leads exec .callFailed (Upto none (Told userId start [] [] [] k)) (createRun userId kind)
      (either (fun runId => Upto none fun s log => runId = k + 1 ∧
        Told userId start [.running (k + 1) kind] [] [k + 1] (k + 1) s log) E) := by
  refine Leads.seq (incr_told (hE k le_rfl)) fun runId => Leads.of_fact ?_
  rintro rfl
  have hopen : Leads exec .callFailed (Upto none (Told userId start [] [] [] (k + 1)))
      (Client.xadd (runsKey userId) (.running (k + 1) kind))
      (either (fun _ => Upto none (Told userId start [.running (k + 1) kind] [] [k + 1] (k + 1))) E) :=
    told_ask (fun s log h => ⟨(), rfl, h.record⟩) fun _ => hE _ (by omega)
  exact Leads.seq hopen fun _ => Leads.pure fun _ _ h => ⟨h.1, rfl, h.2⟩

theorem regenerate_told {cfg : TapeConfig} {sources : List Int} {dirty : Bool} {k : Int} :
    Leads exec .callFailed (Upto none (Told userId start [] [] [] k)) (regenerate userId dirty cfg sources)
      (either (fun _ => Returned userId k start) (Raised userId k start)) := by
  have hunopened : ∀ counter, k ≤ counter → ∀ s log, Hurt false (Told userId start [] [] [] counter) s log →
      Raised userId k start s log :=
    fun counter hk _ _ h => ⟨_, _, _, _, _, .unopened hk, h⟩
  refine Leads.seq (publish_told fun _ => hunopened k le_rfl) fun _ => ?_
  refine Leads.seq (createRun_told hunopened) fun runId => Leads.of_fact ?_
  rintro rfl
  refine Leads.seq (publish_told fun _ _ _ h => ⟨_, _, _, _, _, .unstarted, h⟩) fun _ => ?_
  refine Leads.conseq guarded_told (fun _ _ h => h) ?_
  rintro (e | a) s log h
  · obtain ⟨removed, h⟩ | ⟨added, removed, removed', h⟩ := h
    · exact ⟨_, _, _, _, _, .failed, h⟩
    · exact ⟨_, _, _, _, _, .twice, h⟩
  · obtain ⟨added, removed, h⟩ := h
    exact ⟨_, _, _, _, .completed, h⟩

/-- The run has been completed, and then an unguarded call has raised. -/
def Interrupted (userId k : Int) (start : State) (s : State) (log : Log) : Prop :=
  ∃ records said ids counter, Outcome userId k .ok false records said ids counter ∧
    Hurt true (Told userId start records said ids counter) s log

omit [DatetimeLib] in
theorem release_told {f : Option Call} {token : String}
    (hE : f = none → ∀ t l, Hurt true (Told userId start records said ids counter) t l → E t l) :
    Leads exec .callFailed (Upto f (Told userId start records said ids counter))
      (Client.evalRelease (lockKey userId) token)
      (either (fun _ => Upto f (Told userId start records said ids counter)) E) :=
  told_ask (fun _ _ h => ⟨(), rfl, h.silent trivial⟩) hE

theorem locked_told {cfg : TapeConfig} {sources : List Int} {dirty : Bool} {token : String} {k : Int} :
    Leads exec .callFailed (Upto none (Told userId start [] [] [] k))
      (withLock userId token true (regenerate userId dirty cfg sources))
      (either (fun _ => Returned userId k start)
        fun s log => Raised userId k start s log ∨ Interrupted userId k start s log) := by
  refine Leads.tryFinally regenerate_told fun r => ?_
  cases r with
  | ok a =>
      rintro s log ⟨records, said, ids, counter, ho, h⟩ q s' later hrun hone
      have hend := release_told (E := Interrupted userId k start) (fun _ _ _ h => ⟨_, _, _, _, ho, h⟩) s log h q s'
        later hrun hone
      cases q with
      | ok _ => exact ⟨_, _, _, _, ho, hend⟩
      | error e => exact .inr hend
  | error e =>
      rintro s log ⟨b, records, said, ids, counter, ho, d, hd, h⟩ q s' later hrun hone
      have hend := release_told (f := some d) (E := fun _ _ => False) (fun h => nomatch h) s log h q s' later hrun hone
      cases q with
      | ok _ => exact .inl ⟨_, _, _, _, _, ho, d, hd, hend⟩
      | error e => exact hend.elim

/-- What has been told when the call exits. -/
inductive Ending (userId k : Int) : Status → Bool → List RunRecord → List Frame → List Int → Int → Prop
  | skipped {status : Status} : Ending userId k status false [] [] [] k
  | released {status : Status} {b : Bool} {records : List RunRecord} {said : List Frame} {ids : List Int}
      {counter : Int} (h : Outcome userId k status b records said ids counter) :
      Ending userId k status b records (said ++ [.lockReleased userId]) ids counter
  | interrupted {records : List RunRecord} {said last : List Frame} {ids : List Int} {counter : Int}
      (h : Outcome userId k .ok false records said ids counter) (hlast : last = [] ∨ last = [.lockReleased userId]) :
      Ending userId k .error true records (said ++ last) ids counter

def Exits (userId k : Int) (start : State) (status : Status) (s : State) (log : Log) : Prop :=
  ∃ b records said ids counter, Ending userId k status b records said ids counter ∧
    Told userId start records said ids counter s log ∧ (fault? log).any Call.unguarded = b

omit [DatetimeLib] in
theorem Hurt.exits {b : Bool} {k : Int} {status : Status} (he : Ending userId k status b records said ids counter)
    (h : Hurt b (Told userId start records said ids counter) s log) : Exits userId k start status s log := by
  obtain ⟨d, hd, hf, h⟩ := h
  exact ⟨_, _, _, _, _, he, h, by rw [hf]; exact hd⟩

omit [DatetimeLib] in
theorem exits_of_clean {k : Int} {status : Status} (he : Ending userId k status false records said ids counter)
    (h : Upto none (Told userId start records said ids counter) s log) : Exits userId k start status s log :=
  ⟨_, _, _, _, _, he, h.2, by rw [h.1]; rfl⟩

theorem announced_told {cfg : TapeConfig} {sources : List Int} {dirty : Bool} {token : String} {k : Int} :
    Leads exec .callFailed (Upto none (Told userId start [] [] [] k))
      ((withLock userId token true (regenerate userId dirty cfg sources)).tryFinally
        (publish userId (.lockReleased userId)))
      (either (fun _ => Exits userId k start .ok) (Exits userId k start .error)) := by
  refine Leads.tryFinally locked_told fun r => ?_
  cases r with
  | ok a =>
      rintro s log ⟨records, said, ids, counter, ho, h⟩ q s' later hrun hone
      have hE : ∀ s log, Hurt true (Told userId start records said ids counter) s log →
          Exits userId k start .error s log := fun s log h => Hurt.exits (.interrupted ho (.inl rfl)) (by simpa using h)
      have hsaid : Leads exec .callFailed (Upto none (Told userId start records said ids counter))
          (publish userId (.lockReleased userId))
          (either (fun _ => Upto none (Told userId start records (said ++ [.lockReleased userId]) ids counter))
            (Exits userId k start .error)) := publish_told fun _ => hE
      have hend := hsaid s log h q s' later hrun hone
      cases q with
      | ok _ => exact exits_of_clean (.released ho) hend
      | error e => exact hend
  | error e =>
      rintro s log h q s' later hrun hone
      have hlate : ∀ {d : Call} {records said ids counter},
          Upto (some d) (Told userId start records said ids counter) s log →
          (∃ u, q = .ok u) ∧ Upto (some d) (Told userId start records (said ++ [.lockReleased userId]) ids counter) s'
            (log ++ later) := by
        intro d records said ids counter h
        have hend := publish_told (f := some d) (E := fun _ _ => False) (fun h => nomatch h) s log h q s' later
          hrun hone
        cases q with
        | ok u => exact ⟨⟨u, rfl⟩, hend⟩
        | error e => exact hend.elim
      rcases h with ⟨b, records, said, ids, counter, ho, d, hd, h⟩ | ⟨records, said, ids, counter, ho, d, hd, h⟩
      · obtain ⟨⟨u, rfl⟩, hend⟩ := hlate h
        exact Hurt.exits (.released ho) ⟨d, hd, hend⟩
      · obtain ⟨⟨u, rfl⟩, hend⟩ := hlate h
        exact Hurt.exits (.interrupted ho (.inr rfl)) ⟨d, hd, hend⟩

theorem getConfig_told {k : Int} :
    Leads exec .callFailed (Upto none (Told userId start [] [] [] k)) (getConfig userId)
      (either (fun _ => Upto none (Told userId start [] [] [] k)) (Exits userId k start .error)) := by
  have hread : (Client.hgetall (cfgKey userId)).Uses Guarded := uses_ask ⟨trivial, rfl, fun _ => ⟨_, rfl⟩⟩
  refine Leads.seq (told_plain Plain.perform hread fun _ _ h => h.exits .skipped) fun raw => ?_
  split
  · exact Leads.pure fun _ _ h => h
  · refine Leads.seq (Q := fun _ => Upto none (Told userId start [] [] [] k)) (Leads.ofExcept fun s log h => ?_)
      fun cfg => Leads.pure fun _ _ h => h
    cases decodeConfig userId raw with
    | ok cfg => exact h
    | error e => exact exits_of_clean .skipped h

theorem generateForUser_told {token : String} {dirty : Bool} {k : Int} :
    Leads exec .callFailed (Upto none (Told userId start [] [] [] k)) (generateForUser token userId dirty)
      (either (fun _ => Exits userId k start .ok) (Exits userId k start .error)) := by
  have hskip : ∀ s log, Hurt false (Told userId start [] [] [] k) s log → Exits userId k start .error s log :=
    fun _ _ h => h.exits .skipped
  have hdone : Leads exec .callFailed (Upto none (Told userId start [] [] [] k))
      (pure (Kind.skipped, 0))
      (either (fun _ => Exits userId k start .ok) (Exits userId k start .error)) :=
    Leads.pure fun _ _ h => exits_of_clean Ending.skipped h
  refine Leads.seq getConfig_told fun cfg => ?_
  cases cfg with
  | none => exact hdone
  | some cfg =>
      have hmembers : (getConfigSources userId).Uses Guarded :=
        getConfigSources_uses ⟨trivial, rfl, fun _ => ⟨_, rfl⟩⟩
      have hlock : (acquireLock userId token).Uses Guarded := uses_ask ⟨trivial, rfl, fun _ => exec_ok id⟩
      have hdelete : (deleteAllEntries userId).Uses Guarded := uses_ask ⟨trivial, rfl, fun _ => ⟨_, rfl⟩⟩
      refine Leads.seq (told_plain (Plain.bind Plain.perform fun _ => trivial) hmembers hskip) fun sources => ?_
      split
      · cases dirty with
        | false => exact hdone
        | true =>
            refine Leads.seq (told_plain Plain.perform hdelete hskip) fun _ => ?_
            exact Leads.seq (told_plain Plain.perform clearDirty_guarded hskip) fun _ => hdone
      · refine Leads.seq (told_plain Plain.perform hlock hskip) fun got => ?_
        cases got with
        | true => exact announced_told
        | false => exact hdone

end

end

/-! ## What follows for the brackets -/

/-- Each record that is opened is closed once later on, with the status. -/
def RecordsClosed (status : Status) (records : List RunRecord) : Prop :=
  ∀ first id kind later, records = first ++ .running id kind :: later → later.filterMap (·.closes? id) = [status]

/-- Each start that is announced is followed by one end before the release, with the status. -/
def FramesClosed (status : Status) (said : List Frame) : Prop :=
  ∀ first u id kind later, said = first ++ .scheduleStarted u id kind :: later →
    (later.takeWhile (· ≠ .lockReleased u)).filterMap (·.completes? id) = [status]

theorem splits_head {α : Type} {a x : α} {first later rest : List α} (h : a :: rest = first ++ x :: later)
    (hx : x ∉ rest) : a = x ∧ rest = later := by
  cases first with
  | nil => exact List.cons.inj h
  | cons b first =>
      obtain ⟨-, rfl⟩ := List.cons.inj h
      exact absurd (by simp) hx

theorem recordsClosed_cons {status : Status} {id : Int} {kind : Kind} (hrest : ∀ i k, .running i k ∉ records) :
    RecordsClosed status (.running id kind :: records) ↔ records.filterMap (·.closes? id) = [status] := by
  constructor
  · exact fun h => h [] id kind records rfl
  · intro h first i k later hsplit
    obtain ⟨hhead, rfl⟩ := splits_head hsplit (hrest i k)
    cases hhead
    exact h

theorem framesClosed_cons {status : Status} {u id : Int} {kind : Kind}
    (hrest : ∀ w i k, .scheduleStarted w i k ∉ said) :
    FramesClosed status (.scheduleStarted u id kind :: said) ↔
      (said.takeWhile (· ≠ .lockReleased u)).filterMap (·.completes? id) = [status] := by
  constructor
  · exact fun h => h [] u id kind said rfl
  · intro h first w i k later hsplit
    obtain ⟨hhead, rfl⟩ := splits_head hsplit (hrest w i k)
    cases hhead
    exact h

theorem recordsClosed_nil {status : Status} : RecordsClosed status [] := fun first _ _ _ h => by
  cases first <;> cases h

theorem framesClosed_of_not_mem {status : Status} (h : ∀ w i k, .scheduleStarted w i k ∉ said) :
    FramesClosed status said := by
  rintro first w i k later rfl
  exact absurd (by simp) (h w i k)

theorem Outcome.closed_iff {k : Int} {status : Status} {b : Bool}
    (h : Outcome userId k status b records said ids counter) :
    RecordsClosed status records ∧ FramesClosed status (said ++ [.lockReleased userId]) ↔ b = false := by
  cases h with
  | unopened hk => exact iff_of_true ⟨recordsClosed_nil, framesClosed_of_not_mem (by simp)⟩ rfl
  | unstarted => simp [recordsClosed_cons]
  | completed => simp [recordsClosed_cons, framesClosed_cons, RunRecord.closes?, Frame.completes?]
  | failed => simp [recordsClosed_cons, framesClosed_cons, RunRecord.closes?, Frame.completes?]
  | twice => simp [recordsClosed_cons, RunRecord.closes?]

theorem Ending.closed_iff {k : Int} {status : Status} {b : Bool}
    (h : Ending userId k status b records said ids counter) :
    RecordsClosed status records ∧ FramesClosed status said ↔ b = false := by
  cases h with
  | skipped => exact iff_of_true ⟨recordsClosed_nil, framesClosed_of_not_mem (by simp)⟩ rfl
  | released h => exact h.closed_iff
  | interrupted h hlast =>
      cases h with
      | completed => simp [recordsClosed_cons, RunRecord.closes?]

theorem Ending.ids_spec {k : Int} {status : Status} {b : Bool} (h : Ending userId k status b records said ids counter) :
    ids.Nodup ∧ (∀ id ∈ ids, k < id ∧ id ≤ counter) ∧ k ≤ counter := by
  have houtcome : ∀ {status b said}, Outcome userId k status b records said ids counter →
      ids.Nodup ∧ (∀ id ∈ ids, k < id ∧ id ≤ counter) ∧ k ≤ counter := by
    intro status b said h
    cases h with
    | unopened hk => simp [hk]
    | _ => simp
  cases h with
  | skipped => simp
  | released h => exact houtcome h
  | interrupted h hlast => exact houtcome h

section
variable [DatetimeLib] {token : String} {dirty : Bool} {r : Except Exn (Kind × Nat)} {s' : State}

theorem exits (hrun : (generateForUser token userId dirty).Runs exec Eq .callFailed s r s' log) (hone : OneFault log) :
    Exits userId (s.redis.counters runCounterKey) s (Generation.mk userId s s' r log).status s' log := by
  have hstart : Upto none (Told userId s [] [] [] (s.redis.counters runCounterKey)) s [] :=
    ⟨rfl, (List.append_nil _).symm, rfl, rfl, rfl⟩
  have hend := generateForUser_told s [] hstart r s' log hrun hone
  cases r with
  | ok a => exact hend
  | error e => exact hend

theorem others_silent {v : Int} (hv : userId ≠ v)
    (hrun : (generateForUser token userId dirty).Runs exec Eq .callFailed s r s' log) :
    s'.runs v = s.runs v ∧ noted (Call.announced? v) log = [] := by
  constructor
  · have htrans : ∀ a b c : State, b.runs v = a.runs v → c.runs v = b.runs v → c.runs v = a.runs v :=
      fun _ _ _ hb hc => hc.trans hb
    refine hrun.rel (R := fun a b => b.runs v = a.runs v) (fun _ => rfl) htrans (fun _ _ h => h ▸ rfl)
      generateForUser_uses fun c hc t => exec_runs fun record he => ?_
    subst he
    exact hv (runsKey_inj.mp hc).symm
  · refine List.filterMap_eq_nil_iff.mpr fun x hx => ?_
    have hc := hrun.uses generateForUser_uses x hx
    split
    · rfl
    · cases hcall : x.call with
      | publish channel event =>
          rw [hcall] at hc
          have hchannel : channel = channelFor userId := hc
          simp [Call.announced?, hchannel, hv]
      | _ => rfl

omit [DatetimeLib] in
theorem fault_unguarded (hone : OneFault log) :
    (fault? log).any Call.unguarded = false ↔ ∀ x ∈ log, x.failed = true → x.call.unguarded = false := by
  constructor
  · intro h x hx hf
    rw [hone.fault? hx hf] at h
    exact h
  · intro h
    cases hfault : fault? log with
    | none => rfl
    | some c =>
        obtain ⟨x, hx, hf, rfl⟩ := exists_of_fault? hfault
        exact h x hx hf

/-- The brackets of one call match unless an unguarded call of it raises. -/
theorem bracketed_iff_guarded (hrun : (generateForUser token userId dirty).Runs exec Eq .callFailed s r s' log)
    (hone : OneFault log) :
    (Generation.mk userId s s' r log).Bracketed ↔ ∀ x ∈ log, x.failed = true → x.call.unguarded = false := by
  obtain ⟨b, records, said, ids, counter, hend, htold, hb⟩ := exits hrun hone
  rw [← fault_unguarded hone, hb, ← hend.closed_iff]
  constructor
  · intro h
    refine ⟨?_, ?_⟩
    · obtain ⟨records', hrecords, hclosed⟩ := h.runs userId
      obtain rfl := List.append_cancel_left (hrecords.symm.trans htold.runs)
      exact hclosed
    · exact htold.said ▸ h.frames userId
  · rintro ⟨hrecords, hframes⟩
    refine ⟨fun v => ?_, fun v => ?_⟩
    · by_cases hv : userId = v
      · exact hv ▸ ⟨records, htold.runs, hrecords⟩
      · exact ⟨[], (others_silent hv hrun).1.trans (List.append_nil _).symm, recordsClosed_nil⟩
    · by_cases hv : userId = v
      · exact hv ▸ htold.said.symm ▸ hframes
      · rw [(others_silent hv hrun).2]
        exact framesClosed_of_not_mem fun _ _ _ => List.not_mem_nil

/-- No two runs get the same id. -/
theorem opened_nodup {gs : List Generation} (h : Served s gs s') :
    (gs.flatMap fun g => noted Call.opened? g.log).Nodup ∧
      ∀ id ∈ gs.flatMap fun g => noted Call.opened? g.log, s.redis.counters runCounterKey < id := by
  induction h with
  | nil s => simp
  | @cons s t t' s' token userId dirty r log gs hcounter hrun hone hrest ih =>
      obtain ⟨b, records, said, ids, counter, hend, htold, -⟩ := exits hrun hone
      obtain ⟨hnodup, hbounds, hle⟩ := hend.ids_spec
      have hrest : ∀ id ∈ gs.flatMap fun g => noted Call.opened? g.log, counter < id := htold.counter ▸ ih.2
      rw [List.flatMap_cons, htold.ids]
      refine ⟨List.nodup_append.mpr ⟨hnodup, ih.1, fun i hi j hj => ?_⟩, fun id hid => ?_⟩
      · have hij := (hbounds i hi).2.trans_lt (hrest j hj)
        exact hij.ne
      · rw [← hcounter]
        rcases List.mem_append.mp hid with hid | hid
        · exact (hbounds id hid).1
        · exact hle.trans_lt (hrest id hid)

end

end RunRecords

open RunRecords in
/-- The ids are distinct in any case; the brackets match in every call if and only if no unguarded call raises. -/
theorem runs_bracketed_iff [DatetimeLib] {s s' : State} {gs : List Generation} (h : Served s gs s') :
    ((gs.flatMap fun g => noted Call.opened? g.log).Nodup ∧ ∀ g ∈ gs, g.Bracketed) ↔
      ∀ g ∈ gs, ∀ x ∈ g.log, x.failed = true → x.call.unguarded = false := by
  refine (and_iff_right (opened_nodup h).1).trans ?_
  induction h with
  | nil s => simp
  | cons hcounter hrun hone hrest ih =>
      rw [List.forall_mem_cons, List.forall_mem_cons, ih]
      exact and_congr_left' (bracketed_iff_guarded hrun hone)

/-! ## Examples -/

section
open scoped Python.Utc

namespace Sample

def selected : State := ((writeConfig 1 (update .asc [1])).eval exec { redis := .empty, db := .start [article 6] }).2

/-- A full generation, of which the call after the first `n` raises. -/
def interruptedAfter (n : Nat) : Generation :=
  let run := (generateForUser "a" 1 true).play exec .callFailed selected (List.replicate n false ++ [true])
  { userId := 1, before := selected, after := run.2.1, result := run.1, log := run.2.2 }

theorem interruptedAfter_runs {n : Nat} :
    (generateForUser "a" 1 true).Runs exec Eq .callFailed selected (interruptedAfter n).result
      (interruptedAfter n).after (interruptedAfter n).log :=
  runs_play (fun _ => rfl) _ _ _

theorem interruptedAfter_served {n : Nat} (hone : OneFault (interruptedAfter n).log) :
    Served selected [interruptedAfter n] (interruptedAfter n).after :=
  .cons rfl interruptedAfter_runs hone (.nil _)

theorem unselected_single : OneFault (interruptedAfter 8).log := by
  unfold OneFault
  decide +kernel

theorem unannounced_single : OneFault (interruptedAfter 6).log := by
  unfold OneFault
  decide +kernel

end Sample

/-- The candidate query raises, and the handler closes the record. -/
theorem unselected_bracketed :
    ([Sample.interruptedAfter 8].flatMap fun g => noted Call.opened? g.log).Nodup ∧
      ∀ g ∈ [Sample.interruptedAfter 8], g.Bracketed :=
  (runs_bracketed_iff (Sample.interruptedAfter_served Sample.unselected_single)).mpr (by decide +kernel)

/-- The frame of the start raises, and the record stays open. -/
theorem unannounced_not_bracketed :
    Served Sample.selected [Sample.interruptedAfter 6] (Sample.interruptedAfter 6).after ∧
      ¬ (Sample.interruptedAfter 6).Bracketed := by
  refine ⟨Sample.interruptedAfter_served Sample.unannounced_single, fun h => ?_⟩
  have hguarded := (RunRecords.bracketed_iff_guarded Sample.interruptedAfter_runs Sample.unannounced_single).mp h
  have hraised : ∃ x ∈ (Sample.interruptedAfter 6).log, x.failed = true ∧ x.call.unguarded = true := by decide +kernel
  obtain ⟨x, hx, hf, hu⟩ := hraised
  rw [hguarded x hx hf] at hu
  cases hu

end

end TapeService
