import TapeService.Lemmas.Outlines
import TapeService.Theorems.RunRecords

/-!
# The counts that are reported

`tape.regenerated` says how many entries a generation has added and removed. The handler reports none as
added, and a tape that is wiped for want of sources is not reported at all.
-/

namespace TapeService

open Interleaving Interleaving.Program Python

/-! ## The property -/

/-- The counts of a `tape.regenerated` frame to the user. -/
def Call.reported? (userId : Int) : Call → Option (Nat × Nat)
  | .publish channel (.tapeRegenerated _ _ added removed) =>
      if channel = channelFor userId then some (added, removed) else none
  | _ => none

/-- The last counts that were reported are those of the entries that the calls have inserted and deleted; when
none were, the tape is as before. -/
def ReportsTruly (userId : Int) (s s' : State) (log : Log) : Prop :=
  match (noted (Call.reported? userId) log).getLast? with
  | some (added, removed) =>
      added = (log.flatMap (inserted userId)).length ∧ removed = (log.flatMap (deleted userId)).length
  | none => s'.tape userId = s.tape userId

/-- The calls that come after the handler: the release, and its frame. -/
def Call.concludes : Call → Bool
  | .evalRelease _ _ => true
  | .publish _ (.lockReleased _) => true
  | _ => false

/-- A call that the handler sees raises when an entry has been inserted. -/
def FailsLate (userId : Int) (log : Log) : Prop :=
  ∃ first x later, log = first ++ x :: later ∧ x.failed = true ∧ x.call.concludes = false ∧
    first.flatMap (inserted userId) ≠ []

section
variable [DatetimeLib]

/-- There are entries to be wiped, since a config is left without sources, and the deletion gets through. -/
structure WipesSilently (userId : Int) (dirty : Bool) (s : State) (log : Log) : Prop where
  dirty : dirty = true
  configured : (s.cfg userId).entries ≠ []
  readable : ∃ cfg, decodeConfig userId (s.cfg userId) = .ok cfg
  sources : s.sourceSet userId = []
  entries : s.tape userId ≠ .empty
  deleted : ∀ x ∈ log, x.failed = true → x.call = .hset (cfgKey userId) [("dirty", "0")]

def Misreports (userId : Int) (dirty : Bool) (s : State) (log : Log) : Prop :=
  WipesSilently userId dirty s log ∨ FailsLate userId log

end

namespace ReportedCounts

/-! ## The counts so far -/

variable {userId : Int} {s : State} {log : Log} {c : Call} {ins del : Nat} {reports : List (Nat × Nat)} {late : Prop}

/-- The counts of the entries, what has been reported, and whether a call has raised late; the tape is `kept`,
where that is given. -/
structure Tallied (userId : Int) (kept : Option Tape) (ins del : Nat) (reports : List (Nat × Nat)) (late : Prop)
    (s : State) (log : Log) : Prop where
  tape : ∀ t ∈ kept, s.tape userId = t
  added : (log.flatMap (inserted userId)).length = ins
  removed : (log.flatMap (deleted userId)).length = del
  reports : noted (Call.reported? userId) log = reports
  late : FailsLate userId log ↔ late

theorem failsLate_concat {x : Attempt signature State} :
    FailsLate userId (log ++ [x]) ↔ FailsLate userId log ∨
      x.failed = true ∧ x.call.concludes = false ∧ log.flatMap (inserted userId) ≠ [] := by
  constructor
  · rintro ⟨first, y, later, heq, hy⟩
    rcases List.eq_nil_or_concat later with rfl | ⟨later, z, rfl⟩
    · obtain ⟨rfl, hx⟩ := List.append_inj' heq rfl
      obtain rfl := List.singleton_inj.mp hx
      exact .inr hy
    · rw [List.concat_eq_append, ← List.cons_append, ← List.append_assoc] at heq
      obtain ⟨rfl, -⟩ := List.append_inj' heq rfl
      exact .inl ⟨first, y, later, rfl, hy⟩
  · rintro (⟨first, y, later, rfl, hy⟩ | hx)
    · exact ⟨first, y, later ++ [x], by simp, hy⟩
    · exact ⟨log, x, [], rfl, hx⟩

theorem failsLate_answered : FailsLate userId (log ++ [⟨c, s, false⟩]) ↔ FailsLate userId log := by
  simp [failsLate_concat]

theorem not_failsLate (hall : ∀ x ∈ log, x.failed = false) : ¬ FailsLate userId log := by
  rintro ⟨first, x, later, rfl, hf, -⟩
  rw [hall x (by simp)] at hf
  cases hf

theorem Tallied.start : Tallied userId (some (s.tape userId)) 0 0 [] False s [] where
  tape _ ht := Option.some.inj ht
  added := rfl
  removed := rfl
  reports := rfl
  late := iff_of_false (not_failsLate fun _ hx => absurd hx List.not_mem_nil) id

variable {kept : Option Tape}

theorem Tallied.answered (h : Tallied userId kept ins del reports late s log) {kept' : Option Tape}
    (hkept : ∀ t ∈ kept', (exec c s).2.tape userId = t) :
    Tallied userId kept' (ins + (inserted userId ⟨c, s, false⟩).length) (del + (deleted userId ⟨c, s, false⟩).length)
      (reports ++ (c.reported? userId).toList) late (exec c s).2 (log ++ [⟨c, s, false⟩]) where
  tape := hkept
  added := by rw [List.flatMap_append, List.length_append, h.added, List.flatMap_singleton]
  removed := by rw [List.flatMap_append, List.length_append, h.removed, List.flatMap_singleton]
  reports := by rw [noted_answered, h.reports]
  late := failsLate_answered.trans h.late

theorem Tallied.unedited (h : Tallied userId kept ins del reports late s log) (hc : ¬ c.EditsTape userId) :
    Tallied userId kept ins del (reports ++ (c.reported? userId).toList) late (exec c s).2
      (log ++ [⟨c, s, false⟩]) := by
  have hnext := h.answered (c := c) fun t ht => (exec_tape hc).trans (h.tape t ht)
  rwa [inserted_of_not_edits hc, deleted_of_not_edits hc] at hnext

/-- A call that raises changes no count, but it may do so late. -/
theorem Tallied.raised (h : Tallied userId kept ins del reports late s log) (hall : ∀ x ∈ log, x.failed = false) :
    Tallied userId kept ins del reports (c.concludes = false ∧ ins ≠ 0) s (log ++ [⟨c, s, true⟩]) where
  tape := h.tape
  added := by rw [List.flatMap_append, List.flatMap_singleton, inserted_failed, List.append_nil, h.added]
  removed := by rw [List.flatMap_append, List.flatMap_singleton, deleted_failed, List.append_nil, h.removed]
  reports := by rw [noted_raised, h.reports]
  late := by
    rw [failsLate_concat, or_iff_right (not_failsLate hall), ← h.added]
    simp only [true_and, ne_eq, List.length_eq_zero_iff]

/-! ## Calls -/

/-- A call of the handled part has raised; if an entry had been inserted, then it has done so late. -/
def Hurt (userId : Int) (kept : Option Tape) (ins del : Nat) (reports : List (Nat × Nat)) (s : State) (log : Log) :
    Prop :=
  ∃ d, Upto (some d) (Tallied userId kept ins del reports (ins ≠ 0)) s log

/-- The call changes no entry, reports nothing and is made where the handler sees it. -/
structure Silent (userId : Int) (c : Call) : Prop where
  edits : ¬ c.EditsTape userId
  reported : c.reported? userId = none
  handled : c.concludes = false
  answered : ∀ s, ∃ a, (exec c s).1 = .ok a

theorem Tallied.silent (h : Tallied userId kept ins del reports late s log) (hc : ¬ c.EditsTape userId)
    (hr : c.reported? userId = none) :
    Tallied userId kept ins del reports late (exec c s).2 (log ++ [⟨c, s, false⟩]) := by
  have hnext := h.unedited hc
  rwa [hr, Option.toList_none, List.append_nil] at hnext

variable {E : State → Log → Prop}

theorem hurt_of_raised (h : Tallied userId kept ins del reports late s log) (hc : c.concludes = false)
    (hfault : fault? log = none) : Hurt userId kept ins del reports s (log ++ [⟨c, s, true⟩]) := by
  have hraised := h.raised (c := c) (failed_of_fault? hfault)
  rw [hc, eq_self, true_and] at hraised
  exact ⟨c, fault?_raised hfault, hraised⟩

theorem tallied_plain {α : Type} {p : Prog α} (hp : p.Plain) (hu : p.Uses (Silent userId))
    (hE : ∀ s log, Hurt userId kept ins del reports s log → E s log) :
    Leads exec .callFailed (Upto none (Tallied userId kept ins del reports late)) p
      (either (fun _ => Upto none (Tallied userId kept ins del reports late)) E) :=
  Leads.plain hp hu (fun _ hc s _ h => (hc.answered s).imp fun _ ha => ⟨ha, h.silent hc.edits hc.reported⟩)
    fun _ hc s _ h hfault => hE s _ (hurt_of_raised h hc.handled hfault)

theorem tallied_ask {f : Option Call} (hc : ¬ c.EditsTape userId) (hh : c.concludes = false)
    (hreply : ∀ s, ∃ a, (exec c s).1 = .ok a)
    (hE : f = none → ∀ s log, Hurt userId kept ins del reports s log → E s log) :
    Leads exec .callFailed (Upto f (Tallied userId kept ins del reports late)) (ask c)
      (either (fun _ => Upto f (Tallied userId kept ins del (reports ++ (c.reported? userId).toList) late)) E) :=
  Leads.call (fun s _ h => (hreply s).imp fun _ ha => ⟨ha, h.unedited hc⟩)
    fun hf s _ h hfault => hE hf s _ (hurt_of_raised h hh hfault)

theorem publish_tallied {f : Option Call} {event : Frame}
    (hh : (Call.publish (channelFor userId) event).concludes = false)
    (hE : f = none → ∀ s log, Hurt userId kept ins del reports s log → E s log) :
    Leads exec .callFailed (Upto f (Tallied userId kept ins del reports late)) (publish userId event)
      (either (fun _ => Upto f (Tallied userId kept ins del
        (reports ++ ((Call.publish (channelFor userId) event).reported? userId).toList) late)) E) :=
  tallied_ask id hh (fun _ => ⟨(), rfl⟩) hE

theorem finishRun_tallied {f : Option Call} {runId : Int} {status : Status} {added removed : Nat}
    (hE : f = none → ∀ s log, Hurt userId kept ins del reports s log → E s log) :
    Leads exec .callFailed (Upto f (Tallied userId kept ins del reports late))
      (finishRun userId runId status added removed)
      (either (fun _ => Upto f (Tallied userId kept ins del reports late)) E) := by
  have h := @tallied_ask userId (.xadd (runsKey userId) (.finished runId status added removed)) ins del reports late
    kept E f id rfl (fun _ => ⟨(), rfl⟩) hE
  rwa [show (Call.xadd (runsKey userId) (.finished runId status added removed)).reported? userId = none from rfl,
    Option.toList_none, List.append_nil] at h

/-! ## The handled part -/

theorem Tallied.forget (h : Tallied userId kept ins del reports late s log) :
    Tallied userId none ins del reports late s log :=
  ⟨nofun, h.added, h.removed, h.reports, h.late⟩

/-- A full generation deletes what it says that it deletes. -/
theorem prepare_tallied {dirty : Bool} :
    Leads exec .callFailed (Upto none (Tallied userId kept 0 0 [] False)) (prepare userId dirty)
      (either (fun base => Upto none (Tallied userId none 0 base.removed [] False)) (Hurt userId kept 0 0 [])) := by
  cases dirty with
  | true =>
      have hdelete : Leads exec .callFailed (Upto none (Tallied userId kept 0 0 [] False)) (deleteAllEntries userId)
          (either (fun removed => Upto none (Tallied userId none 0 removed [] False)) (Hurt userId kept 0 0 [])) := by
        refine Leads.call (fun s log h => ⟨_, rfl, ?_⟩) fun _ s _ h hfault => hurt_of_raised h rfl hfault
        have hnone : ∀ t ∈ (none : Option Tape), (exec (.multiZcardDel (entriesKey userId)) s).2.tape userId = t :=
          nofun
        have hnext := h.answered hnone
        rw [inserted_multiZcardDel, deleted_multiZcardDel, Nat.zero_add, Nat.zero_add] at hnext
        exact hnext
      exact Leads.seq hdelete fun removed => Leads.pure fun _ _ h => h
  | false =>
      have hranges : ∀ i j, Silent userId (.zrange (entriesKey userId) i j) :=
        fun _ _ => ⟨id, rfl, rfl, fun _ => ⟨_, rfl⟩⟩
      have hpage : (listEntriesPage userId none 10000).Uses (Silent userId) :=
        Uses.bind (uses_ask (hranges _ _)) fun _ => trivial
      refine Leads.seq (tallied_plain maxPosition_plain (maxPosition_uses (hranges _ _)) fun _ _ h => h) fun last => ?_
      refine Leads.seq (tallied_plain (Plain.bind Plain.perform fun _ => trivial) hpage fun _ _ h => h) fun page => ?_
      exact Leads.pure fun _ _ h => ⟨h.1, h.2.forget⟩

/-- What the handled part leaves when it goes wrong. -/
def Failing (userId : Int) (removed : Nat) (s : State) (log : Log) : Prop :=
  ∃ kept ins reports, Hurt userId kept ins removed reports s log

/-- Every pair that is returned stands for one entry that has been inserted. -/
theorem pipeZaddNx_tallied {docIds : List Int} {n : Int} :
    Leads exec .callFailed (Upto none (Tallied userId none ins del reports False))
      (pipeZaddNx (entriesKey userId) docIds n)
      (either (fun results =>
        Upto none (Tallied userId none (ins + (appendedPairs docIds results n).length) del reports False))
        (Failing userId del)) := by
  induction docIds generalizing n ins with
  | nil => exact Leads.pure fun _ _ h => h
  | cons d ds ih =>
      have hadd : Leads exec .callFailed (Upto none (Tallied userId none ins del reports False))
          (Client.zaddNx (entriesKey userId) d n)
          (either (fun r => Upto none (Tallied userId none (ins + if r = 1 then 1 else 0) del reports False))
            (Failing userId del)) := by
        refine Leads.call (fun s log h => ⟨_, rfl, ?_⟩) fun _ s _ h hfault => ⟨_, _, _, hurt_of_raised h rfl hfault⟩
        have hnone : ∀ t ∈ (none : Option Tape), (exec (.zaddNx (entriesKey userId) d n) s).2.tape userId = t := nofun
        have hnext := h.answered hnone
        rw [inserted_zaddNx, deleted_zaddNx, show (Call.zaddNx _ d n).reported? userId = none from rfl,
          Option.toList_none, List.append_nil] at hnext
        by_cases hmem : d ∈ s.tape userId
        · have hreply : d ∈ s.redis.zsets (entriesKey userId) := hmem
          simpa [hmem, hreply] using hnext
        · have hreply : d ∉ s.redis.zsets (entriesKey userId) := hmem
          simpa [hmem, hreply] using hnext
      refine Leads.seq hadd fun r => Leads.seq ih fun results => Leads.pure fun s log h => ?_
      have hlength : (if r = 1 then [(n, d)] else []).length = if r = 1 then 1 else 0 := by split <;> rfl
      rw [appendedPairs_cons, List.length_append, ← Nat.add_assoc, hlength]
      exact h

theorem appendEntries_tallied {docIds : List Int} {n : Int} :
    Leads exec .callFailed (Upto none (Tallied userId none 0 del [] False)) (appendEntries userId docIds n)
      (either (fun appended => Upto none (Tallied userId none appended.length del [] False)) (Failing userId del)) := by
  unfold appendEntries
  split
  · exact Leads.pure fun _ _ h => h
  · refine Leads.seq pipeZaddNx_tallied fun results => Leads.pure fun _ _ h => ?_
    rwa [Nat.zero_add] at h

/-- The counts are reported, and one more frame follows. -/
theorem completeRun_tallied {runId : Int} {kind : Kind} :
    Leads exec .callFailed (Upto none (Tallied userId kept ins del [] False)) (completeRun userId runId kind ins del)
      (either (fun _ => Upto none (Tallied userId kept ins del [(ins, del)] False)) (Failing userId del)) := by
  have hreported : (Call.publish (channelFor userId) (.tapeRegenerated userId kind ins del)).reported? userId =
      some (ins, del) := if_pos rfl
  refine Leads.seq (finishRun_tallied fun _ _ _ h => ⟨_, _, _, h⟩) fun _ => ?_
  refine Leads.seq (publish_tallied rfl fun _ _ _ h => ⟨_, _, _, h⟩) fun _ => ?_
  rw [hreported]
  refine Leads.seq (publish_tallied rfl fun _ _ _ h => ⟨_, _, _, h⟩) fun _ => ?_
  exact Leads.pure fun _ _ h => h

/-- The handler reports that nothing was added. -/
theorem failRun_tallied {d : Call} {runId : Int} {kind : Kind} {e : Exn} {Q : Kind × Nat → State → Log → Prop} :
    Leads exec .callFailed (Upto (some d) (Tallied userId kept ins del reports late))
      (failRun userId runId kind del e)
      (either Q (Upto (some d) (Tallied userId kept ins del (reports ++ [(0, del)]) late))) := by
  have hreported : (Call.publish (channelFor userId) (.tapeRegenerated userId kind 0 del)).reported? userId =
      some (0, del) := if_pos rfl
  refine Leads.seq (finishRun_tallied nofun) fun _ => ?_
  refine Leads.seq (publish_tallied rfl nofun) fun _ => ?_
  rw [hreported]
  refine Leads.seq (publish_tallied rfl nofun) fun _ => ?_
  rw [show (Call.publish (channelFor userId) (.scheduleCompleted userId runId .error)).reported? userId = none from rfl,
    Option.toList_none, List.append_nil]
  exact Leads.raise fun _ _ h => h

section
variable [DatetimeLib]

/-- What has been told when the handled part is left: that nothing was added, or what was. -/
def Handled (userId : Int) (s : State) (log : Log) : Prop :=
  ∃ kept ins del reports, (∃ d, Upto (some d) (Tallied userId kept ins del (reports ++ [(0, del)]) (ins ≠ 0)) s log)

def Completed (userId : Int) (s : State) (log : Log) : Prop :=
  ∃ kept ins del, Upto none (Tallied userId kept ins del [(ins, del)] False) s log

theorem fill_tallied {cfg : TapeConfig} {sources : List Int} {dirty : Bool} {kind : Kind} {runId : Int} {base : Base} :
    Leads exec .callFailed (Upto none (Tallied userId none 0 base.removed [] False))
      (fill userId cfg sources dirty kind runId base)
      (either (fun _ => Completed userId) (Failing userId base.removed)) := by
  have hcands : ∀ sources dateFrom dateTo descending,
      Silent userId (.candidates userId sources dateFrom dateTo descending) :=
    fun _ _ _ _ => ⟨id, rfl, rfl, fun _ => ⟨_, rfl⟩⟩
  have hframes : ∀ entry : Int × Int,
      Silent userId (.publish (channelFor userId) (.tapeEntryAdded userId entry.1 entry.2)) :=
    fun _ => ⟨id, rfl, rfl, fun _ => ⟨_, rfl⟩⟩
  have hclear : (clearDirty userId).Uses (Silent userId) := uses_ask ⟨id, rfl, rfl, fun _ => ⟨_, rfl⟩⟩
  refine Leads.seq (tallied_plain candidatesForUser_plain (candidatesForUser_uses hcands) fun _ _ h => ⟨_, _, _, h⟩)
    fun docIds => ?_
  refine Leads.seq appendEntries_tallied fun appended => ?_
  refine Leads.seq (tallied_plain (Plain.forM _ fun _ => Plain.perform)
    (Uses.forM _ fun entry _ => uses_ask (hframes entry)) fun _ _ h => ⟨_, _, _, h⟩) fun _ => ?_
  have hend : Leads exec .callFailed (Upto none (Tallied userId none appended.length base.removed [] False))
      (completeRun userId runId kind appended.length base.removed)
      (either (fun _ => Completed userId) (Failing userId base.removed)) := by
    refine Leads.conseq completeRun_tallied (fun _ _ h => h) fun r s log h => ?_
    cases r with
    | ok a => exact ⟨_, _, _, h⟩
    | error e => exact h
  cases dirty with
  | true => exact Leads.seq (tallied_plain Plain.perform hclear fun _ _ h => ⟨_, _, _, h⟩) fun _ => hend
  | false => exact hend

omit [DatetimeLib] in
theorem handler_tallied {runId : Int} {kind : Kind} {e : Exn} {Q : Kind × Nat → State → Log → Prop} :
    Leads exec .callFailed (Failing userId del) (failRun userId runId kind del e) (either Q (Handled userId)) := by
  rintro s log ⟨kept, ins, reports, d, h⟩ r s' later hrun hone
  have hend := failRun_tallied (Q := Q) s log h r s' later hrun hone
  cases r with
  | ok a => exact hend
  | error e => exact ⟨kept, ins, del, reports, d, hend⟩

/-! ## The whole generation -/

/-- Nothing has been done to the tape, what was done has been reported, or the handler has reported it. -/
inductive Settled (userId : Int) (t : Tape) (s : State) (log : Log) : Prop
  | untouched (h : Tallied userId (some t) 0 0 [] False s log)
  | reported {ins del : Nat} (h : Tallied userId none ins del [(ins, del)] False s log)
  | handled {ins del : Nat} {reports : List (Nat × Nat)}
      (h : Tallied userId none ins del (reports ++ [(0, del)]) (ins ≠ 0) s log)

variable {t : Tape}

omit [DatetimeLib] in
theorem Settled.of_hurt (h : Hurt userId (some t) 0 0 [] s log) : Settled userId t s log := by
  obtain ⟨d, -, h⟩ := h
  exact .untouched (by simpa using h)

theorem handled_settled {cfg : TapeConfig} {sources : List Int} {dirty : Bool} {kind : Kind} {runId : Int} :
    Leads exec .callFailed (Upto none (Tallied userId (some t) 0 0 [] False))
      ((prepare userId dirty).andThen fun
        | .error e => failRun userId runId kind 0 e
        | .ok base => (fill userId cfg sources dirty kind runId base).tryCatch (failRun userId runId kind base.removed))
      (fun _ => Settled userId t) := by
  have hsettled : ∀ (r : Except Exn (Kind × Nat)) s log,
      either (fun _ => Completed userId) (Handled userId) r s log → Settled userId t s log := by
    rintro (e | a) s log h
    · obtain ⟨kept, ins, del, reports, d, -, h⟩ := h
      exact .handled h.forget
    · obtain ⟨kept, ins, del, -, h⟩ := h
      exact .reported h.forget
  refine Leads.conseq (Leads.andThen prepare_tallied fun r => ?_) (fun _ _ h => h) hsettled
  cases r with
  | error e => exact Leads.conseq handler_tallied (fun _ _ h => ⟨_, _, _, h⟩) fun _ _ _ h => h
  | ok base => exact Leads.tryCatch fill_tallied (fun _ _ _ h => h) fun e => handler_tallied

theorem regenerate_settled {cfg : TapeConfig} {sources : List Int} {dirty : Bool} :
    Leads exec .callFailed (Upto none (Tallied userId (some t) 0 0 [] False)) (regenerate userId dirty cfg sources)
      (fun _ => Settled userId t) := by
  have hrun : ∀ kind, (createRun userId kind).Uses (Silent userId) := fun _ =>
    createRun_uses ⟨id, rfl, rfl, fun _ => ⟨_, rfl⟩⟩ fun _ => ⟨id, rfl, rfl, fun _ => ⟨_, rfl⟩⟩
  have hframe : ∀ event, (Call.publish (channelFor userId) event).reported? userId = none →
      (Call.publish (channelFor userId) event).concludes = false → (publish userId event).Uses (Silent userId) :=
    fun _ hr hc => uses_ask ⟨id, hr, hc, fun _ => ⟨_, rfl⟩⟩
  rw [← either_self]
  refine Leads.seq (tallied_plain Plain.perform (hframe _ rfl rfl) fun _ _ h => .of_hurt h) fun _ => ?_
  refine Leads.seq (tallied_plain createRun_plain (hrun _) fun _ _ h => .of_hurt h) fun runId => ?_
  refine Leads.seq (tallied_plain Plain.perform (hframe _ rfl rfl) fun _ _ h => .of_hurt h) fun _ => ?_
  rw [either_self]
  exact handled_settled

omit [DatetimeLib] in
/-- Whether the release and its frame get through makes no difference. -/
theorem concludes_settled (hc : ¬ c.EditsTape userId) (hr : c.reported? userId = none) (hend : c.concludes = true) :
    Leads exec .callFailed (Settled userId t) (ask c) (fun _ => Settled userId t) := by
  have hraised : ∀ {kept ins del reports late s log}, Tallied userId kept ins del reports late s log →
      (∀ x ∈ log, x.failed = false) → Tallied userId kept ins del reports late s (log ++ [⟨c, s, true⟩]) := by
    intro kept ins del reports late s log h hall
    refine ⟨h.tape, (h.raised hall).added, (h.raised hall).removed, (h.raised hall).reports, ?_⟩
    rw [(h.raised hall).late, ← h.late, hend]
    exact iff_of_false (fun h => nomatch h.1) (not_failsLate hall)
  refine Leads.perform (fun s log h => ?_) fun s log h hall => ?_
  · cases h with
    | untouched h => exact .untouched (h.silent hc hr)
    | reported h => exact .reported (h.silent hc hr)
    | handled h => exact .handled (h.silent hc hr)
  · cases h with
    | untouched h => exact .untouched (hraised h hall)
    | reported h => exact .reported (hraised h hall)
    | handled h => exact .handled (hraised h hall)

theorem locked_settled {cfg : TapeConfig} {sources : List Int} {dirty : Bool} {token : String} :
    Leads exec .callFailed (Upto none (Tallied userId (some t) 0 0 [] False))
      ((withLock userId token true (regenerate userId dirty cfg sources)).tryFinally
        (publish userId (.lockReleased userId)))
      (fun _ => Settled userId t) := by
  have hfinally : ∀ {p : Prog (Kind × Nat)} {f : Prog Unit},
      Leads exec .callFailed (Upto none (Tallied userId (some t) 0 0 [] False)) p (fun _ => Settled userId t) →
      Leads exec .callFailed (Settled userId t) f (fun _ => Settled userId t) →
      Leads exec .callFailed (Upto none (Tallied userId (some t) 0 0 [] False)) (p.tryFinally f)
        (fun _ => Settled userId t) := by
    intro p f hp hf
    refine Leads.tryFinally hp fun r => Leads.conseq hf (fun _ _ h => h) fun q _ _ h => ?_
    cases q with
    | ok a => exact h
    | error e => exact h
  refine hfinally (hfinally regenerate_settled ?_) ?_
  · exact concludes_settled (c := .evalRelease (lockKey userId) token) id rfl rfl
  · exact concludes_settled (c := .publish (channelFor userId) (.lockReleased userId)) id rfl rfl

/-! ## The verdict -/

def Verdict (userId : Int) (dirty : Bool) (start s : State) (log : Log) : Prop :=
  ReportsTruly userId start s log ↔ ¬ Misreports userId dirty start log

variable {start : State} {dirty : Bool}

omit [DatetimeLib] in
theorem Settled.truly_iff (h : Settled userId (start.tape userId) s log) :
    ReportsTruly userId start s log ↔ ¬ FailsLate userId log := by
  cases h with
  | untouched h =>
      rw [ReportsTruly, h.reports, h.late]
      exact iff_of_true (h.tape _ rfl) id
  | reported h =>
      rw [ReportsTruly, h.reports, h.late]
      exact iff_of_true ⟨h.added.symm, h.removed.symm⟩ id
  | handled h =>
      rw [ReportsTruly, h.reports, h.late, List.getLast?_append_of_ne_nil _ (by simp)]
      simp [h.added, h.removed, eq_comm]

theorem Settled.verdict (h : Settled userId (start.tape userId) s log)
    (hw : ¬ WipesSilently userId dirty start log) : Verdict userId dirty start s log := by
  rw [Verdict, Misreports, or_iff_right hw]
  exact h.truly_iff

/-- Nothing but reads so far. -/
def Begun (userId : Int) (start s : State) (log : Log) : Prop :=
  s = start ∧ Tallied userId (some (start.tape userId)) 0 0 [] False s log

theorem read_begun {v : State → c.Reply} (hexec : ∀ s, exec c s = (.ok (v s), s)) (hc : ¬ c.EditsTape userId)
    (hr : c.reported? userId = none) (hh : c.concludes = false) (hne : c ≠ .hset (cfgKey userId) [("dirty", "0")]) :
    Leads exec .callFailed (Upto none (Begun userId start)) (ask c)
      (either (fun a => Upto none fun s log => a = v start ∧ Begun userId start s log)
        (Verdict userId dirty start)) := by
  refine Leads.call (fun s log h => ⟨v s, by rw [hexec], ?_⟩) fun _ s log h hfault => ?_
  · obtain ⟨rfl, h⟩ := h
    have hnext := h.silent hc hr
    rw [hexec] at hnext ⊢
    exact ⟨rfl, rfl, hnext⟩
  · obtain ⟨rfl, h⟩ := h
    refine (Settled.of_hurt (hurt_of_raised h hh hfault)).verdict fun hw => hne ?_
    exact hw.deleted _ (List.mem_append_right _ (List.mem_singleton.mpr rfl)) rfl

/-- The entries have been deleted. -/
def Emptied (userId : Int) (s : State) (log : Log) : Prop :=
  ∃ del, Tallied userId (some .empty) 0 del [] False s log

/-- The tape has been wiped, and nothing has raised but the clearing of the flag. -/
structure Wiped (userId : Int) (s : State) (log : Log) : Prop where
  emptied : Emptied userId s log
  failed : ∀ x ∈ log, x.failed = true → x.call = .hset (cfgKey userId) [("dirty", "0")]

theorem Wiped.verdict (h : Wiped userId s log) (hcfg : (start.cfg userId).entries ≠ [])
    (hdec : ∃ cfg, decodeConfig userId (start.cfg userId) = .ok cfg) (hsources : start.sourceSet userId = []) :
    Verdict userId true start s log := by
  obtain ⟨del, htallied⟩ := h.emptied
  have hempty : s.tape userId = .empty := htallied.tape _ rfl
  have hmis : Misreports userId true start log ↔ start.tape userId ≠ .empty := by
    rw [Misreports, htallied.late, or_false]
    exact ⟨fun hw => hw.entries, fun hne => ⟨rfl, hcfg, hdec, hsources, hne, h.failed⟩⟩
  rw [Verdict, hmis, not_not, ReportsTruly, htallied.reports]
  exact ⟨fun h => h.symm.trans hempty, fun h => hempty.trans h.symm⟩

/-- Without sources the entries are wiped and the flag is cleared. -/
theorem wipe_verdict (hcfg : (start.cfg userId).entries ≠ [])
    (hdec : ∃ cfg, decodeConfig userId (start.cfg userId) = .ok cfg) (hsources : start.sourceSet userId = []) :
    Leads exec .callFailed (Upto none (Begun userId start))
      (do
        let _ ← deleteAllEntries userId
        clearDirty userId
        return (Kind.skipped, 0))
      (fun _ => Verdict userId true start) := by
  have hdelete : Leads exec .callFailed (Upto none (Begun userId start)) (deleteAllEntries userId)
      (either (fun _ => Upto none (Emptied userId)) (Verdict userId true start)) := by
    refine Leads.call (fun s log h => ⟨_, rfl, ?_⟩) fun _ s log h hfault => ?_
    · obtain ⟨rfl, h⟩ := h
      have hempty : ∀ t ∈ some .empty, (exec (.multiZcardDel (entriesKey userId)) s).2.tape userId = t :=
        fun t ht => exec_multiZcardDel_tape.trans (Option.some.inj ht)
      have hnext := h.answered hempty
      rw [inserted_multiZcardDel] at hnext
      exact ⟨_, hnext⟩
    · obtain ⟨rfl, h⟩ := h
      refine (Settled.of_hurt (hurt_of_raised h rfl hfault)).verdict fun hw => ?_
      have hcall := hw.deleted _ (List.mem_append_right _ (List.mem_singleton.mpr rfl)) rfl
      cases hcall
  have hclear : Leads exec .callFailed (Upto none (Emptied userId)) (clearDirty userId)
      (either (fun _ => Upto none (Emptied userId)) (Wiped userId)) := by
    refine Leads.call (fun s log h => ⟨(), rfl, ?_⟩) fun _ s log h hfault => ?_
    · obtain ⟨del, h⟩ := h
      exact ⟨del, h.silent id rfl⟩
    · obtain ⟨del, h⟩ := h
      have hraised := h.raised (c := .hset (cfgKey userId) [("dirty", "0")]) (failed_of_fault? hfault)
      refine ⟨⟨del, by simpa using hraised⟩, fun x hx hf => ?_⟩
      rcases List.mem_append.mp hx with hx | hx
      · rw [failed_of_fault? hfault x hx] at hf
        cases hf
      · rw [List.mem_singleton.mp hx]
  have hverdict : ∀ s log, Wiped userId s log → Verdict userId true start s log :=
    fun _ _ h => h.verdict hcfg hdec hsources
  rw [← either_self]
  refine Leads.seq hdelete fun _ => Leads.seq (Leads.conseq hclear (fun _ _ h => h) fun r s log h => ?_) fun _ =>
    Leads.pure (A := Upto none (Emptied userId)) fun s log h => ?_
  · cases r with
    | ok _ => exact h
    | error e => exact hverdict s log h
  · refine hverdict s log ⟨h.2, fun x hx hf => ?_⟩
    rw [failed_of_fault? h.1 x hx] at hf
    cases hf

theorem getConfig_verdict :
    Leads exec .callFailed (Upto none (Begun userId start)) (getConfig userId)
      (either (fun cfg => Upto none fun s log =>
          ((start.cfg userId).entries ≠ [] ∧ (decodeConfig userId (start.cfg userId)).map some = .ok cfg ∨
            (start.cfg userId).entries = [] ∧ cfg = none) ∧ Begun userId start s log)
        (Verdict userId dirty start)) := by
  have hread : Leads exec .callFailed (Upto none (Begun userId start)) (Client.hgetall (cfgKey userId))
      (either (fun raw => Upto none fun s log => raw = start.cfg userId ∧ Begun userId start s log)
        (Verdict userId dirty start)) := by
    refine read_begun (c := .hgetall (cfgKey userId)) (v := fun s => s.cfg userId) (fun _ => rfl) id rfl rfl ?_
    exact fun h => nomatch h
  refine Leads.seq hread fun raw => Leads.of_fact fun hraw => ?_
  subst hraw
  split
  · rename_i hcfg
    exact Leads.pure fun s log h => ⟨h.1, .inr ⟨hcfg, rfl⟩, h.2⟩
  · rename_i hcfg
    cases hdec : decodeConfig userId (start.cfg userId) with
    | ok cfg => exact Leads.pure fun s log h => ⟨h.1, .inl ⟨hcfg, rfl⟩, h.2⟩
    | error e =>
        refine Leads.raise fun s log h => (Settled.untouched h.2.2).verdict fun hw => ?_
        obtain ⟨cfg, hok⟩ := hw.readable
        cases hdec.symm.trans hok

theorem getConfigSources_verdict :
    Leads exec .callFailed (Upto none (Begun userId start)) (getConfigSources userId)
      (either (fun sources => Upto none fun s log =>
          sources = (start.sourceSet userId).insertionSort (· ≤ ·) ∧ Begun userId start s log)
        (Verdict userId dirty start)) := by
  have hread : Leads exec .callFailed (Upto none (Begun userId start)) (Client.smembers (cfgSourcesKey userId))
      (either (fun members => Upto none fun s log => members = start.sourceSet userId ∧ Begun userId start s log)
        (Verdict userId dirty start)) := by
    refine read_begun (c := .smembers (cfgSourcesKey userId)) (v := fun s => s.sourceSet userId) (fun _ => rfl) id rfl
      rfl ?_
    exact fun h => nomatch h
  exact Leads.seq hread fun members => Leads.of_fact fun hmembers =>
    Leads.pure fun s log h => ⟨h.1, hmembers ▸ rfl, h.2⟩

/-- With a config and sources nothing is wiped silently. -/
theorem enter_verdict {cfg : TapeConfig} {sources : List Int} {token : String}
    (hw : ∀ log, ¬ WipesSilently userId dirty start log) :
    Leads exec .callFailed (Upto none (Begun userId start))
      (do
        let got ← acquireLock userId token
        if got then
          (withLock userId token true (regenerate userId dirty cfg sources)).tryFinally
            (publish userId (.lockReleased userId))
        else
          withLock userId token false (return (Kind.skipped, 0)))
      (fun _ => Verdict userId dirty start) := by
  have hlock : (acquireLock userId token).Uses (Silent userId) := uses_ask ⟨id, rfl, rfl, fun _ => exec_ok id⟩
  rw [← either_self]
  refine Leads.conseq (B := Upto none (Tallied userId (some (start.tape userId)) 0 0 [] False)) ?_
    (fun _ _ h => ⟨h.1, h.2.2⟩) fun _ _ _ h => h
  refine Leads.seq (tallied_plain Plain.perform hlock fun _ _ h => (Settled.of_hurt h).verdict (hw _)) fun got => ?_
  cases got with
  | true =>
      rw [either_self]
      exact Leads.conseq locked_settled (fun _ _ h => h) fun _ _ _ h => h.verdict (hw _)
  | false => exact Leads.pure fun s log h => (Settled.untouched h.2).verdict (hw _)

theorem generateForUser_verdict {token : String} :
    Leads exec .callFailed (Upto none (Begun userId start)) (generateForUser token userId dirty)
      (fun _ => Verdict userId dirty start) := by
  rw [← either_self]
  refine Leads.seq getConfig_verdict fun cfg => Leads.of_fact ?_
  rintro (⟨hcfg, hdec⟩ | ⟨hcfg, rfl⟩)
  · cases hrecord : decodeConfig userId (start.cfg userId) with
    | error e =>
        rw [hrecord] at hdec
        cases hdec
    | ok record =>
        rw [hrecord] at hdec
        cases hdec
        refine Leads.seq getConfigSources_verdict fun sources => Leads.of_fact fun hsources => ?_
        split
        · rename_i hnil
          have hnone : start.sourceSet userId = [] := by
            rw [hsources] at hnil
            exact (hnil ▸ List.perm_insertionSort (· ≤ ·) (start.sourceSet userId)).symm.eq_nil
          cases dirty with
          | true =>
              rw [either_self]
              exact wipe_verdict hcfg ⟨record, hrecord⟩ hnone
          | false => exact Leads.pure fun s log h => (Settled.untouched h.2.2).verdict fun hw => nomatch hw.dirty
        · rename_i hsome
          rw [either_self]
          refine enter_verdict fun log hw => hsome ?_
          rw [hsources, hw.sources]
          rfl
  · exact Leads.pure fun s log h => (Settled.untouched h.2.2).verdict fun hw => hw.configured hcfg

end

end ReportedCounts

open ReportedCounts in
/-- The counts are true unless a call raises late, or the entries are wiped for want of sources. -/
theorem reports_truly_iff [DatetimeLib] {token : String} {userId : Int} {dirty : Bool} {s s' : State}
    {r : Except Exn (Kind × Nat)} {log : Log}
    (hrun : (generateForUser token userId dirty).Runs exec Eq .callFailed s r s' log) (hone : OneFault log) :
    ReportsTruly userId s s' log ↔ ¬ Misreports userId dirty s log := by
  have hbegun : Begun userId s s [] := ⟨rfl, Tallied.start⟩
  exact generateForUser_verdict s [] ⟨rfl, hbegun⟩ r s' log hrun hone

/-! ## Examples -/

section
open scoped Python.Utc

/-- The candidate query raises before anything has been inserted. -/
theorem unselected_reports_truly :
    ReportsTruly 1 Sample.selected (Sample.interruptedAfter 8).after (Sample.interruptedAfter 8).log := by
  refine (reports_truly_iff Sample.interruptedAfter_runs Sample.unselected_single).mpr ?_
  have hsources : Sample.selected.sourceSet 1 ≠ [] := by decide +kernel
  have hnone : (Sample.interruptedAfter 8).log.flatMap (inserted 1) = [] := by decide +kernel
  rintro (hw | ⟨first, x, later, heq, -, -, hins⟩)
  · exact hsources hw.sources
  · have heq : (Sample.interruptedAfter 8).log = first ++ x :: later := heq
    rw [heq, List.flatMap_append] at hnone
    exact hins (List.append_eq_nil_iff.mp hnone).1

/-- The article has been inserted when its frame raises, and the handler reports that nothing was added. -/
theorem unpublished_not_reported :
    (generateForUser "a" 1 true).Runs exec Eq .callFailed Sample.selected (Sample.interruptedAfter 10).result
        (Sample.interruptedAfter 10).after (Sample.interruptedAfter 10).log ∧
      OneFault (Sample.interruptedAfter 10).log ∧
      ¬ ReportsTruly 1 Sample.selected (Sample.interruptedAfter 10).after (Sample.interruptedAfter 10).log := by
  have hsingle : (Sample.interruptedAfter 10).log.countP (·.failed) ≤ 1 := by decide +kernel
  refine ⟨Sample.interruptedAfter_runs, hsingle, ?_⟩
  have hreports : (noted (Call.reported? 1) (Sample.interruptedAfter 10).log).getLast? = some (0, 0) := by
    decide +kernel
  have hadded : ((Sample.interruptedAfter 10).log.flatMap (inserted 1)).length = 1 := by decide +kernel
  rw [ReportsTruly, hreports]
  exact fun h => absurd (h.1.trans hadded) (by decide)

end

end TapeService
