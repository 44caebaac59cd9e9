import TapeService.Interleaving.Outbox
import TapeService.Lemmas.Lock

/-!
# The rounds of the workers

Who follows the event channel of a user sees the generations one after the other, however many workers there are:
each round is `lock.acquired`, `schedule.started`, the entries that were added, `tape.regenerated` with their
number and `schedule.completed`, under a run id that is greater than the ones before. That holds as long as nothing
fails and no lock expires. `lock.released` is not part of a round, for it is published once the lock is free again,
and the next round may have begun by then.
-/

namespace TapeService

open Interleaving Interleaving.Program Interleaving.Protocol Python

/-! ## The property -/

/-- The frames that a worker publishes while it holds the lock. -/
def Frame.inRound : Frame → Bool
  | .lockAcquired _ => true
  | .scheduleStarted _ _ _ => true
  | .tapeEntryAdded _ _ _ => true
  | .tapeRegenerated _ _ _ _ => true
  | .scheduleCompleted _ _ _ => true
  | _ => false

/-- A generation as its frames tell of it. -/
structure Round where
  runId : Int
  kind : Kind
  added : List (Int × Int)
  removed : Nat
  kind_ne : kind ≠ .skipped
  removed_eq : kind = .incremental → removed = 0

namespace Round

def opening (userId runId : Int) (kind : Kind) (added : List (Int × Int)) : List Frame :=
  .lockAcquired userId :: .scheduleStarted userId runId kind ::
    added.map fun entry => .tapeEntryAdded userId entry.1 entry.2

def frames (userId : Int) (r : Round) : List Frame :=
  opening userId r.runId r.kind r.added ++
    [.tapeRegenerated userId r.kind r.added.length r.removed, .scheduleCompleted userId r.runId .ok]

end Round

namespace Rounds

section
variable {userId : Int} {s : State}

theorem fits_nil (n : Int) : ∃ r : Round, r.runId = n ∧ [] <+: r.frames userId :=
  ⟨{ runId := n, kind := .full, added := [], removed := 0, kind_ne := nofun, removed_eq := nofun }, rfl,
    List.nil_prefix⟩

theorem fits_opening {n : Int} {kind : Kind} (hkind : kind ≠ .skipped) (added : List (Int × Int)) (m : Int)
    (h : ∀ k, some n = some k → k = m) :
    ∃ r : Round, r.runId = m ∧ Round.opening userId n kind added <+: r.frames userId := by
  obtain rfl := h n rfl
  exact ⟨⟨n, kind, added, 0, hkind, fun _ => rfl⟩, rfl, List.prefix_append _ _⟩

def counter (s : State) : Int := s.redis.counters runCounterKey

theorem counter_le {c : Call} : counter s ≤ counter (exec c s).2 := by
  cases c with
  | incr key =>
      by_cases hk : runCounterKey = key
      · subst hk
        simp only [counter, exec, State.setCounter, put_self]
        omega
      · simp only [counter, exec, State.setCounter, put_of_ne _ _ hk, le_refl]
  | setNxEx key t =>
      simp only [exec]
      split <;> exact Int.le_refl _
  | evalRelease key t =>
      simp only [exec]
      split <;> exact Int.le_refl _
  | _ => exact Int.le_refl _

/-- The calls that publish no frame of a round and leave the lock alone. -/
def Outside (userId : Int) : Call → Prop
  | .publish channel event => channel = channelFor userId → event.inRound = false
  | c => ¬ c.EditsLock userId

theorem Outside.editsLock {c : Call} (h : Outside userId c) : ¬ c.EditsLock userId := by
  cases c <;> first | exact h | exact id

end

end Rounds

section
variable [DatetimeLib]

def roundFrame? (userId : Int) : Event service → Option Frame
  | .called _ (.publish channel event) _ =>
      if channel = channelFor userId ∧ event.inRound = true then some event else none
  | _ => none

/-- The frames of rounds on the channel of the user, in their order. -/
def roundFrames (userId : Int) (log : List (Event service)) : List Frame := record (roundFrame? userId) log

namespace Rounds

/-! ## Accounting -/

variable {userId : Int} {w : World service} {ev : Event service} {s : State} {i : Nat} {part : List Frame}
  {started : Option Int} {rounds : List Round}

/-- The complete rounds and what has been published of the one under way, with its run id once it has one. -/
structure Told (userId : Int) (rounds : List Round) (part : List Frame) (started : Option Int) (w : World service) :
    Prop where
  frames : roundFrames userId w.log = rounds.flatMap (Round.frames userId) ++ part
  sorted : rounds.Pairwise fun a b => a.runId < b.runId
  bounded : ∀ r ∈ rounds, r.runId ≤ counter w.state
  lasts : ∀ n, started = some n → n ≤ counter w.state ∧ ∀ r ∈ rounds, r.runId < n
  /-- The round under way can still be completed. -/
  fits : ∀ n, (∀ m, started = some m → m = n) → ∃ r : Round, r.runId = n ∧ part <+: r.frames userId

theorem Told.push (h : Told userId rounds part started w) {part' : List Frame}
    (hpart : part' = part ++ (roundFrame? userId ev).toList) (hcounter : counter w.state ≤ counter s)
    (hfits : ∀ n, (∀ m, started = some m → m = n) → ∃ r : Round, r.runId = n ∧ part' <+: r.frames userId) :
    Told userId rounds part' started (w.push ev s) where
  frames := by
    rw [World.push_log, roundFrames, record_cons, ← roundFrames, h.frames, hpart, List.append_assoc]
  sorted := h.sorted
  bounded r hr := (h.bounded r hr).trans hcounter
  lasts n hn := ⟨(h.lasts n hn).1.trans hcounter, (h.lasts n hn).2⟩
  fits := hfits

theorem Told.quiet (h : Told userId rounds part started w) (hev : roundFrame? userId ev = none)
    (hcounter : counter w.state ≤ counter s) : Told userId rounds part started (w.push ev s) :=
  h.push (by rw [hev]; exact (List.append_nil _).symm) hcounter h.fits

theorem Told.complete {r : Round} (h : Told userId rounds (r.frames userId) (some r.runId) w) :
    Told userId (rounds ++ [r]) [] none w where
  frames := by simp [h.frames]
  sorted := List.pairwise_append.mpr ⟨h.sorted, List.pairwise_singleton _ _, fun a ha b hb => by
    obtain rfl := List.mem_singleton.mp hb
    exact (h.lasts _ rfl).2 a ha⟩
  bounded a ha := by
    rcases List.mem_append.mp ha with ha | ha
    · exact h.bounded a ha
    · obtain rfl := List.mem_singleton.mp ha
      exact (h.lasts _ rfl).1
  lasts _ hn := nomatch hn
  fits n _ := fits_nil n

theorem Told.idle (h : Told userId rounds [] started w) : Told userId rounds [] none w where
  frames := h.frames
  sorted := h.sorted
  bounded := h.bounded
  lasts _ hn := nomatch hn
  fits n _ := fits_nil n

/-! ## The protocol -/

def Inv (userId : Int) (w : World service) : Prop :=
  ∃ rounds part started, Told userId rounds part started w ∧ (w.state.lock userId = none → part = [])

/-- Who holds the lock keeps it, and nobody else publishes frames of rounds meanwhile. -/
def protocol (userId : Int) : Protocol service where
  inv := Inv userId
  guar w _ s := counter w.state ≤ counter s
  rely i w ev s := HoldsLock userId i w → s.lock userId = some (token i) ∧ roundFrame? userId ev = none
  may _ _ _ := True
  faults := False

theorem Outside.roundFrame {c : Call} (h : Outside userId c) (r : Except Exn c.Reply) :
    roundFrame? userId (.called i c r : Event service) = none := by
  cases c with
  | publish channel event =>
      refine if_neg fun hc => ?_
      rw [h hc.1] at hc
      cases hc.2
  | _ => rfl

theorem Outside.good {c : Call} (hc : Outside userId c) (h : Inv userId w) :
    (protocol userId).Good i w (.called i c (exec c w.state).1) (exec c w.state).2 := by
  obtain ⟨rounds, part, started, htold, hfree⟩ := h
  refine ⟨⟨rounds, part, started, htold.quiet (hc.roundFrame _) counter_le, fun hl => hfree ?_⟩, counter_le,
    fun j _ hj => ⟨?_, hc.roundFrame _⟩⟩
  · rwa [World.push_state, exec_lock hc.editsLock] at hl
  · rw [exec_lock hc.editsLock]
    exact hj

/-- Thread `i` holds the lock and has come so far with its round. -/
def Within (userId : Int) (i : Nat) (part : List Frame) (started : Option Int) (w : World service) : Prop :=
  HoldsLock userId i w ∧ ∃ rounds, Told userId rounds part started w

theorem Within.stable : (protocol userId).Stable i (Within userId i part started) := by
  rintro w ev s - - - hg hr ⟨hl, rounds, htold⟩
  obtain ⟨hlock, hev⟩ := hr hl
  exact ⟨hlock, rounds, htold.quiet hev hg⟩

theorem Within.outside {c : Call} (hc : Outside userId c) (h : Within userId i part started w)
    (r : Except Exn c.Reply) : Within userId i part started (w.push (.called i c r) (exec c w.state).2) := by
  obtain ⟨hl, rounds, htold⟩ := h
  refine ⟨?_, rounds, htold.quiet (hc.roundFrame r) counter_le⟩
  show State.lock _ _ = _
  rw [World.push_state, exec_lock hc.editsLock]
  exact hl

/-- Nobody but the holder of the lock relies on anything. -/
theorem rely_of_holds (hl : HoldsLock userId i w) : ∀ j, j ≠ i → (protocol userId).rely j w ev s := fun _ hj hl' =>
  absurd (token_inj.mp (Option.some.inj (hl'.symm.trans hl))) hj

/-! ## The worker -/

theorem outside_triple {c : Call} (hc : Outside userId c) (hscores : ¬ c.EditsScores) :
    (protocol userId).Triple i (Within userId i part started) (ask c)
      (upon (fun _ => Within userId i part started) fun _ => False) :=
  answered_triple id hscores Within.stable fun _ hw h _ => ⟨hc.good hw, fun _ _ => h.outside hc _⟩

theorem outside_uses {α : Type} {p : Prog α} (hp : p.Uses (Outside userId)) :
    (protocol userId).Triple i (fun _ => True) p fun _ _ => True :=
  Keeps.of_uses (Stable.true i) (hp.mono fun c hc w hw _ _ r s hr => by
    obtain ⟨rfl, rfl⟩ := hr.of_faultless id
    exact ⟨hc.good hw, trivial⟩)

theorem publish_triple {event : Frame} (hin : event.inRound = true)
    (hfits : ∀ n, (∀ m, started = some m → m = n) → ∃ r : Round, r.runId = n ∧ part ++ [event] <+: r.frames userId) :
    (protocol userId).Triple i (Within userId i part started) (publish userId event)
      (upon (fun _ => Within userId i (part ++ [event]) started) fun _ => False) := by
  refine answered_triple (c := .publish (channelFor userId) event) id id Within.stable
    fun w hw ⟨hl, rounds, htold⟩ _ => ?_
  have hframe : ∀ r : Except Exn Unit,
      roundFrame? userId (.called i (.publish (channelFor userId) event) r : Event service) = some event :=
    fun r => if_pos ⟨rfl, hin⟩
  have hpushed : ∀ r : Except Exn Unit, Told userId rounds (part ++ [event]) started
      (w.push (.called i (.publish (channelFor userId) event) r) w.state) := fun r =>
    htold.push (by rw [hframe]; rfl) (Int.le_refl _) hfits
  refine ⟨⟨⟨rounds, _, started, hpushed _, fun hfree => ?_⟩, Int.le_refl _, rely_of_holds hl⟩, fun _ _ =>
    ⟨hl, rounds, hpushed _⟩⟩
  cases hl.symm.trans hfree

/-- The run id is greater than those of all rounds before. -/
theorem incr_triple (hfits : ∀ n, ∃ r : Round, r.runId = n ∧ part <+: r.frames userId) :
    (protocol userId).Triple i (Within userId i part none) (ask (.incr runCounterKey))
      (upon (fun n => Within userId i part (some n)) fun _ => False) := by
  refine answered_triple id id Within.stable fun w hw h _ => ⟨Outside.good (c := .incr runCounterKey) id hw, ?_⟩
  intro n hn
  obtain ⟨hl, rounds, htold⟩ := h
  obtain rfl : counter w.state + 1 = n := Except.ok.inj hn
  have hcounter : counter (exec (.incr runCounterKey) w.state).2 = counter w.state + 1 := by
    simp only [counter, exec, State.setCounter, put_self]
  have hpushed : Told userId rounds part none (w.push (.called i (.incr runCounterKey) (.ok (counter w.state + 1)))
      (exec (.incr runCounterKey) w.state).2) := htold.quiet rfl counter_le
  refine ⟨hl, rounds, hpushed.frames, hpushed.sorted, hpushed.bounded, fun m hm => ?_, fun m _ => hfits m⟩
  obtain rfl := Option.some.inj hm
  refine ⟨hcounter.ge, fun r hr => ?_⟩
  have := htold.bounded r hr
  omega

theorem outside_plain {α : Type} {p : Prog α} (hp : p.Plain)
    (hu : p.Uses fun c : Call => Outside userId c ∧ ¬ c.EditsScores) :
    (protocol userId).Triple i (Within userId i part started) p
      (upon (fun _ => Within userId i part started) fun _ => False) := by
  induction p with
  | ret a => exact fun _ _ h => h
  | raise e => exact hp.elim
  | call c k ih =>
      refine fun w _ h => ⟨_, h, Within.stable, fun w hw h _ r s hr => ?_⟩
      obtain ⟨rfl, rfl⟩ := hr.of_faultless id
      obtain ⟨a, ha⟩ := exec_ok (s := w.state) hu.1.2
      have hg := hu.1.1.good (i := i) hw
      refine ⟨hg, ?_⟩
      replace ha : (service.exec c w.state).1 = .ok a := ha
      rw [ha]
      rw [show (exec c w.state).1 = .ok a from ha] at hg
      exact ih (.ok a) (hp.2 a) (hu.2 _) _ hg.inv (h.outside hu.1.1 _)

/-- What comes after an exception, where there is none. -/
theorem absurd_triple {α : Type} {p : Prog α} {Q : Except Exn α → World service → Prop} :
    (protocol userId).Triple i (fun _ => False) p Q := fun _ _ h => h.elim

variable {n : Int} {kind : Kind}

theorem announce_triple (hkind : kind ≠ .skipped) (entries done : List (Int × Int)) :
    (protocol userId).Triple i (Within userId i (Round.opening userId n kind done) (some n))
      (entries.forM fun entry => publish userId (.tapeEntryAdded userId entry.1 entry.2))
      (upon (fun _ => Within userId i (Round.opening userId n kind (done ++ entries)) (some n)) fun _ => False) := by
  induction entries generalizing done with
  | nil => exact Triple.pure fun _ _ h => by rwa [List.append_nil]
  | cons entry entries ih =>
      have hsnoc : Round.opening userId n kind done ++ [.tapeEntryAdded userId entry.1 entry.2] =
          Round.opening userId n kind (done ++ [entry]) := by
        simp [Round.opening]
      refine Triple.seq (publish_triple rfl ?_) fun _ => ?_
      · rw [hsnoc]
        exact fits_opening hkind _
      · have hcons : done ++ entry :: entries = done ++ [entry] ++ entries := List.append_cons done entry entries
        rw [hsnoc, hcons]
        exact ih _

theorem createRun_triple (hfits : ∀ n, ∃ r : Round, r.runId = n ∧ part <+: r.frames userId) :
    (protocol userId).Triple i (Within userId i part none) (createRun userId kind)
      (upon (fun n => Within userId i part (some n)) fun _ => False) :=
  Triple.seq (incr_triple hfits) fun n =>
    Triple.seq (outside_triple (c := .xadd (runsKey userId) (.running n kind)) id id) fun _ =>
      Triple.pure fun _ _ h => h

/-- An incremental generation removes nothing. -/
theorem prepare_triple {dirty : Bool} :
    (protocol userId).Triple i (Within userId i part started) (prepare userId dirty)
      (upon (fun base w => Within userId i part started w ∧ (dirty = false → base.removed = 0)) fun _ => False) := by
  unfold prepare
  split
  · rename_i hdirty
    exact Triple.seq (outside_triple (c := .multiZcardDel (entriesKey userId)) id id) fun _ =>
      Triple.pure fun _ _ h => ⟨h, fun hclean => nomatch hclean.symm.trans hdirty⟩
  · exact Triple.seq (outside_plain maxPosition_plain (maxPosition_uses ⟨id, id⟩)) fun _ =>
      Triple.seq (outside_plain (Plain.bind Plain.perform fun _ => trivial)
        (listEntriesPage_uses (fun _ _ => ⟨id, id⟩) fun _ _ => ⟨id, id⟩)) fun _ =>
          Triple.pure fun _ _ h => ⟨h, fun _ => rfl⟩

theorem completeRun_triple {r : Round} :
    (protocol userId).Triple i (Within userId i (Round.opening userId r.runId r.kind r.added) (some r.runId))
      (completeRun userId r.runId r.kind r.added.length r.removed)
      (upon (fun _ => Within userId i [] none) fun _ => False) := by
  have hfits : ∀ part, part <+: r.frames userId → ∀ m, (∀ k, some r.runId = some k → k = m) →
      ∃ r' : Round, r'.runId = m ∧ part <+: r'.frames userId := by
    intro part hpart m hm
    exact ⟨r, hm _ rfl, hpart⟩
  refine Triple.seq (outside_triple (c := .xadd (runsKey userId) (.finished r.runId .ok r.added.length r.removed))
    id id) fun _ => ?_
  refine Triple.seq (publish_triple rfl (hfits _ ⟨[_], by rw [List.append_assoc]; rfl⟩)) fun _ => ?_
  refine Triple.seq (publish_triple rfl (hfits _ (by rw [List.append_assoc]; exact List.prefix_rfl))) fun _ => ?_
  refine Triple.pure fun w _ ⟨hl, rounds, htold⟩ => ⟨hl, rounds ++ [r], Told.complete ?_⟩
  rw [List.append_assoc] at htold
  exact htold

theorem fill_triple {cfg : TapeConfig} {sources : List Int} {dirty : Bool} (hkind : kind ≠ .skipped) {base : Base}
    (hremoved : kind = .incremental → base.removed = 0) :
    (protocol userId).Triple i (Within userId i (Round.opening userId n kind []) (some n))
      (fill userId cfg sources dirty kind n base) (upon (fun _ => Within userId i [] none) fun _ => False) := by
  refine Triple.seq (outside_plain candidatesForUser_plain
    (candidatesForUser_uses fun _ _ _ _ => ⟨id, id⟩)) fun docIds => ?_
  refine Triple.seq (outside_plain appendEntries_plain (appendEntries_uses fun _ _ => ⟨id, id⟩)) fun appended => ?_
  refine Triple.seq (announce_triple hkind appended []) fun _ => ?_
  rw [List.nil_append]
  have hcomplete : (protocol userId).Triple i _ (completeRun userId n kind appended.length base.removed) _ :=
    completeRun_triple (r := ⟨n, kind, appended, base.removed, hkind, hremoved⟩)
  split
  · exact Triple.seq (outside_triple (c := .hset (cfgKey userId) [("dirty", "0")]) id id) fun _ => hcomplete
  · exact hcomplete

theorem regenerate_triple {cfg : TapeConfig} {sources : List Int} {dirty : Bool} :
    (protocol userId).Triple i (Within userId i [] none) (regenerate userId dirty cfg sources)
      (upon (fun _ => Within userId i [] none) fun _ => False) := by
  obtain ⟨kind, hkind, hskipped, hincremental⟩ : ∃ kind : Kind, (if dirty then .full else .incremental) = kind ∧
      kind ≠ .skipped ∧ (kind = .incremental → dirty = false) := by
    cases dirty
    · exact ⟨_, rfl, nofun, fun _ => rfl⟩
    · exact ⟨_, rfl, nofun, nofun⟩
  have hfits : ∀ n, ∃ r : Round, r.runId = n ∧ [Frame.lockAcquired userId] <+: r.frames userId := fun n =>
    ⟨⟨n, .full, [], 0, nofun, nofun⟩, rfl, ⟨_, rfl⟩⟩
  unfold regenerate
  simp only [hkind]
  refine Triple.seq (publish_triple rfl fun n _ => hfits n) fun _ => ?_
  refine Triple.seq (createRun_triple hfits) fun n => ?_
  refine Triple.seq (publish_triple rfl (fits_opening hskipped [])) fun _ => ?_
  refine Triple.andThen prepare_triple fun r => ?_
  cases r with
  | error e => exact absurd_triple
  | ok base =>
      refine Triple.tryCatch (fun w hw ⟨h, hremoved⟩ => ?_) (fun _ _ _ h => h) fun e => absurd_triple
      exact fill_triple hskipped (fun hk => hremoved (hincremental hk)) w hw h

theorem acquire_triple : (protocol userId).Triple i (fun _ => True) (acquireLock userId (token i))
    (upon (fun got => if got then Within userId i [] none else fun _ => True) fun _ => False) := by
  refine answered_triple (c := .setNxEx (lockKey userId) (token i)) id id (Stable.true i) fun w hw _ _ => ?_
  obtain ⟨rounds, part, started, htold, hfree⟩ := hw
  have hpushed : ∀ r : Except Exn Bool, Told userId rounds part started (w.push
      (.called i (.setNxEx (lockKey userId) (token i)) r) (exec (.setNxEx (lockKey userId) (token i)) w.state).2) :=
    fun r => htold.quiet rfl counter_le
  refine ⟨⟨⟨rounds, part, started, hpushed _, fun hl => ?_⟩, counter_le, fun j hj hl => ⟨?_, rfl⟩⟩,
    fun got hgot => ?_⟩
  · rw [World.push_state, exec_setNxEx_lock] at hl
    exact hfree (Option.or_eq_none_iff.mp hl).1
  · exact OwnToken.lock (i := i) (c := .setNxEx (lockKey userId) (token i)) (fun _ => rfl) hj hl
  · cases got with
    | false => trivial
    | true =>
        refine ⟨holdsLock_of_acquired hgot, rounds, ?_⟩
        rw [exec_setNxEx_reply] at hgot
        obtain rfl := hfree (by simpa using Except.ok.inj hgot)
        exact (hpushed _).idle

theorem release_triple : (protocol userId).Triple i (Within userId i [] none)
    (ask (.evalRelease (lockKey userId) (token i))) (upon (fun _ _ => True) fun _ => False) := by
  refine answered_triple (c := .evalRelease (lockKey userId) (token i)) id id Within.stable fun w _ h _ => ?_
  obtain ⟨hl, rounds, htold⟩ := h
  exact ⟨⟨⟨rounds, [], none, htold.quiet rfl counter_le, fun _ => rfl⟩, counter_le, rely_of_holds hl⟩,
    fun _ _ => trivial⟩

theorem JobCall.outside {job : Job} (hjob : ∀ dirty, job ≠ .generate userId dirty) {c : Call}
    (h : JobCall i job c) : Outside userId c := by
  cases job with
  | generate u dirty =>
      have hu : u ≠ userId := fun hu => hjob dirty (hu ▸ rfl)
      cases c <;> first
        | exact id
        | exact h.elim
        | exact fun hk => absurd (channelFor_inj.mp (h.symm.trans hk)) hu
        | exact fun hk => hu (lockKey_inj.mp (h.1.symm.trans hk))
  | readTape u after =>
      cases c with
      | publish channel event =>
          obtain ⟨-, d, rfl⟩ := h
          exact fun _ => rfl
      | setNxEx => exact h.elim
      | evalRelease => exact h.elim
      | _ => exact id
  | submitScore u payload =>
      cases c with
      | publish channel event =>
          obtain ⟨-, rfl⟩ := h
          exact fun _ => rfl
      | setNxEx => exact h.elim
      | evalRelease => exact h.elim
      | _ => exact id
  | readConfig u =>
      cases c <;> first
        | exact h.elim
        | exact id
  | writeConfig u payload =>
      cases c with
      | publish channel event =>
          obtain ⟨-, rfl⟩ := h
          exact fun _ => rfl
      | setNxEx => exact h.elim
      | evalRelease => exact h.elim
      | _ => exact id
  | handle m =>
      obtain ⟨u, d, -, h⟩ := h
      cases c with
      | publish channel event =>
          obtain ⟨-, rfl⟩ := h
          exact fun _ => rfl
      | setNxEx => exact h.elim
      | evalRelease => exact h.elim
      | _ => exact id

theorem generateForUser_triple {dirty : Bool} :
    (protocol userId).Triple i (fun _ => True) (generateForUser (token i) userId dirty) fun _ _ => True := by
  have hrest : ∀ {α : Type} {p : Prog α}, p.Uses (Outside userId) →
      (protocol userId).Triple i (fun _ => True) p fun _ _ => True := outside_uses
  refine Triple.bind (hrest (getConfig_uses id)) (fun cfg => ?_) fun _ _ _ _ => trivial
  cases cfg with
  | none => exact hrest trivial
  | some cfg =>
      refine Triple.bind (hrest (getConfigSources_uses id)) (fun sources => ?_) fun _ _ _ _ => trivial
      split
      · split
        · exact hrest (Uses.bind (uses_ask (c := .multiZcardDel (entriesKey userId)) id) fun _ =>
            Uses.bind (uses_ask (c := .hset (cfgKey userId) [("dirty", "0")]) id) fun _ => trivial)
        · exact hrest trivial
      · refine Triple.bind acquire_triple (fun got => ?_) fun _ _ _ _ => trivial
        cases got with
        | false => exact hrest (Uses.tryFinally trivial trivial)
        | true =>
            refine Triple.tryFinally (Q := fun _ _ => True) ?_ fun r => ?_
            · refine Triple.tryFinally regenerate_triple fun r => ?_
              cases r with
              | ok a => exact Triple.conseq release_triple (fun _ _ h => h) fun r _ _ _ => by cases r <;> trivial
              | error e => exact absurd_triple
            · exact Triple.conseq (hrest (uses_ask (c := .publish (channelFor userId) (.lockReleased userId))
                fun _ => rfl)) (fun _ _ h => h) fun r _ _ _ => by cases r <;> trivial

theorem body_triple {job : Job} :
    (protocol userId).Triple i (fun _ => True) (Job.body i job) fun _ _ => True := by
  by_cases hjob : ∃ dirty, job = .generate userId dirty
  · obtain ⟨dirty, rfl⟩ := hjob
    exact Triple.map generateForUser_triple fun _ _ _ _ => trivial
  · exact outside_uses ((Job.body_uses i job).mono fun c hc => JobCall.outside (fun dirty h => hjob ⟨dirty, h⟩) hc)

def outline (userId : Int) : Outline service fun c l => l.Faultless ∧ NoExpiry c l where
  toProtocol := protocol userId
  post _ _ _ _ := True
  post_stable _ _ _ _ _ _ _ _ _ _ _ := trivial
  may_ok _ _ _ _ _ _ _ := trivial
  may_fail _ _ _ _ _ _ hok _ _ := hok.1.elim
  start_ok c job s _ hw _ hs := by
    obtain ⟨rounds, part, started, htold, hfree⟩ := hw
    have hcounter : counter c.world.state ≤ counter s := by rw [counter, counter, Job.begin_redis hs]
    have hg : (protocol userId).Good c.threads.length c.world (.started c.threads.length job) s := by
      refine ⟨⟨rounds, part, started, htold.quiet rfl hcounter, fun hl => hfree ?_⟩, hcounter, fun j _ hl =>
        ⟨(Job.begin_lock hs).trans hl, rfl⟩⟩
      rwa [World.push_state, Job.begin_lock hs] at hl
    exact ⟨hg, body_triple _ hg.inv trivial⟩
  crash_ok _ _ hok _ := hok.1.elim
  env_ok c e s hok hw hs := by
    obtain ⟨rounds, part, started, htold, hfree⟩ := hw
    have hcounter : counter c.world.state ≤ counter s := by rw [counter, counter, Env.apply_redis hs]
    have hlock : s.lock userId = c.world.state.lock userId := Env.apply_lock hs fun he => by
      subst he
      exact hok.2
    refine ⟨⟨rounds, part, started, htold.quiet rfl hcounter, fun hl => hfree ?_⟩, hcounter, fun j t _ _ hl =>
      ⟨hlock.trans hl, rfl⟩⟩
    rwa [World.push_state, hlock] at hl

theorem Inv.init (s : State) : Inv userId ⟨s, []⟩ := by
  refine ⟨[], [], none, ⟨rfl, List.Pairwise.nil, nofun, nofun, fun n _ => fits_nil n⟩, fun _ => rfl⟩

end Rounds

/-- Where nothing fails and no lock expires, the frames that the workers publish for the user are those of complete
rounds with increasing run ids, and then those of a part of one more round, which has a greater run id still. While
the lock is free there is no such part. -/
theorem frames_in_rounds (userId : Int) {s : State} {c : Conf service}
    (h : Reach (fun c l => l.Faultless ∧ NoExpiry c l) s c) :
    ∃ (rounds : List Round) (last : Round) (part : List Frame),
      roundFrames userId c.world.log = rounds.flatMap (Round.frames userId) ++ part ∧
      part <+: last.frames userId ∧ (rounds ++ [last]).Pairwise (fun a b => a.runId < b.runId) ∧
      (c.world.state.lock userId = none → part = []) := by
  have hholds : (Rounds.outline userId).Holds c := Outline.holds_of_reach (Rounds.Inv.init s) h
  obtain ⟨rounds, part, started, htold, hfree⟩ := hholds.inv
  obtain ⟨last, hlast, hpart⟩ := htold.fits (started.getD (Rounds.counter c.world.state + 1)) fun m hm => by
    rw [hm, Option.getD_some]
  refine ⟨rounds, last, part, htold.frames, hpart, ?_, hfree⟩
  refine List.pairwise_append.mpr ⟨htold.sorted, List.pairwise_singleton _ _, fun a ha b hb => ?_⟩
  obtain rfl := List.mem_singleton.mp hb
  rw [hlast]
  cases started with
  | none =>
      have := htold.bounded a ha
      rw [Option.getD_none]
      omega
  | some n => exact (htold.lasts n rfl).2 a ha

end

section
open scoped Python.Utc

/-- A full generation, an incremental one that finds the lock taken, and one that comes after it. -/
def Sample.rivals : Conf service :=
  (Sample.start [Sample.article 6, Sample.article 7]).play (.start (.writeConfig 1 (Sample.update .asc [1])) ::
    Sample.runs 0 9 ++ .start (.generate 1 true) :: .start (.generate 1 false) :: Sample.runs 1 6 ++
    Sample.runs 2 3 ++ Sample.runs 1 30 ++ .start (.generate 1 false) :: Sample.runs 3 30)

theorem frames_in_rounds_rivals : ∃ rounds : List Round, rounds.Pairwise (fun a b => a.runId < b.runId) ∧
    rounds.flatMap (Round.frames 1) =
      [.lockAcquired 1, .scheduleStarted 1 1 .full, .tapeEntryAdded 1 0 6, .tapeEntryAdded 1 1 7,
        .tapeRegenerated 1 .full 2 0, .scheduleCompleted 1 1 .ok,
        .lockAcquired 1, .scheduleStarted 1 2 .incremental,
        .tapeRegenerated 1 .incremental 0 0, .scheduleCompleted 1 2 .ok] := by
  have hreach : Reach (fun c l => l.Faultless ∧ NoExpiry c l)
      (Sample.start [Sample.article 6, Sample.article 7]).world.state Sample.rivals :=
    Steps.play (by decide +kernel)
  obtain ⟨rounds, last, part, hframes, -, hsorted, hfree⟩ := frames_in_rounds 1 hreach
  refine ⟨rounds, (List.pairwise_append.mp hsorted).1, ?_⟩
  rw [hfree (by decide +kernel), List.append_nil] at hframes
  rw [← hframes]
  decide +kernel

end

end TapeService
