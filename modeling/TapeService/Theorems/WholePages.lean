import TapeService.Interleaving.Reading
import TapeService.Lemmas.Lock

/-!
# Whole pages

A full rebuild empties the tape and fills it again while it holds the lock, and `GET /tape` looks at the
lock once before it reads its page. A rebuild that obtains the lock between the look and the read is not
noticed; any other one is, as long as its lock lasts.
-/

namespace TapeService

open Interleaving Interleaving.Program Interleaving.Protocol Python

/-- How far a full rebuild has got. -/
inductive Phase where
  | idle
  | started
  | locked
  | emptied
  /-- The candidates are known, and so many `ZADD`s are to come. -/
  | filling (left : Nat)
  deriving DecidableEq

namespace Phase

/-- The phase after a call. -/
def after (userId : Int) (p : Phase) (c : Call) (r : Except Exn c.Reply) : Phase :=
  match p, c, r with
  | .started, .setNxEx key _, .ok true => if key = lockKey userId then .locked else .started
  | .locked, .multiZcardDel key, .ok _ => if key = entriesKey userId then .emptied else .locked
  | .emptied, .candidates _ _ _ _ _, .ok docIds => .filling docIds.length
  | .filling (n + 1), .zaddNx key _ _, .ok _ => if key = entriesKey userId then .filling n else .filling (n + 1)
  | p, _, _ => p

/-- The tape has been deleted, and the `ZADD`s have not all been executed. -/
def Refilling : Phase → Prop
  | .emptied => True
  | .filling (_ + 1) => True
  | _ => False

instance (p : Phase) : Decidable p.Refilling :=
  match p with
  | .idle => .isFalse id
  | .started => .isFalse id
  | .locked => .isFalse id
  | .emptied => .isTrue trivial
  | .filling 0 => .isFalse id
  | .filling (_ + 1) => .isTrue trivial

/-- From the lock to the last `ZADD`. -/
def Busy (p : Phase) : Prop := p = .locked ∨ p.Refilling

/-- The calls that take a rebuild from one phase to the next. -/
def Advances : Call → Prop
  | .setNxEx _ _ => True
  | .multiZcardDel _ => True
  | .candidates _ _ _ _ _ => True
  | .zaddNx _ _ _ => True
  | _ => False

variable {userId : Int} {c : Call} {r : Except Exn c.Reply}

theorem after_of_not_advances (h : ¬ Advances c) (p : Phase) : p.after userId c r = p := by
  cases c <;> first | exact absurd trivial h | (cases p <;> first | rfl | (rename_i n; cases n <;> rfl))

@[simp] theorem idle_after : Phase.idle.after userId c r = .idle := by
  cases c <;> rfl

/-- Only the deletion of the tape starts a refilling. -/
theorem Refilling.of_after {p : Phase} (h : (p.after userId c r).Refilling) :
    p.Refilling ∨ c = .multiZcardDel (entriesKey userId) := by
  unfold after at h
  split at h
  · split at h <;> exact h.elim
  · split at h
    · rename_i hkey
      exact .inr (hkey ▸ rfl)
    · exact h.elim
  · exact .inl trivial
  · exact .inl trivial
  · exact .inl h

theorem not_busy_started : ¬ Phase.started.Busy := by
  simp [Busy, Refilling]

theorem not_busy_filled : ¬ (Phase.filling 0).Busy := by
  simp [Busy, Refilling]

end Phase

namespace WholePages

/-- The calls that change neither the phase of a rebuild nor the lock. -/
def Still (userId : Int) (i : Nat) (c : Call) : Prop :=
  ¬ Phase.Advances c ∧ OwnToken userId i c ∧ ¬ c.EditsLock userId

theorem Reports.still {userId : Int} {i : Nat} {c : Call} (h : Reports userId c) : Still userId i c := by
  cases c <;> first | exact h.elim | exact ⟨id, trivial, id⟩

end WholePages

section
variable [DatetimeLib]

/-- The phase of thread `i`; it stays idle unless the thread is a full rebuild of the user's tape. -/
def phase (userId : Int) (i : Nat) : List (Event service) → Phase
  | [] => .idle
  | .started j (.generate u true) :: log => if j = i ∧ u = userId then .started else phase userId i log
  | .called j c r :: log => if j = i then (phase userId i log).after userId c r else phase userId i log
  | _ :: log => phase userId i log

/-- No full rebuild of the user's tape is between the deletion and its last `ZADD`. -/
def Settled (userId : Int) (log : List (Event service)) : Prop :=
  ∀ ev ∈ log, ∀ j ∈ ev.thread?, ¬ (phase userId j log).Refilling

instance (userId : Int) (log : List (Event service)) : Decidable (Settled userId log) :=
  inferInstanceAs (Decidable (∀ ev ∈ log, _))

/-- The reading of the rows of a page. -/
def PageRead (userId : Int) : Call → Prop
  | .zrange key _ _ => key = entriesKey userId
  | .zrangebyscore key _ _ => key = entriesKey userId
  | _ => False

/-- The key of a call that reads a range. -/
def Call.rangeKey? : Call → Option String
  | .zrange key _ _ => some key
  | .zrangebyscore key _ _ => some key
  | _ => none

instance (userId : Int) (c : Call) : Decidable (PageRead userId c) :=
  decidable_of_iff (c.rangeKey? = some (entriesKey userId)) (by cases c <;> simp [Call.rangeKey?, PageRead])

/-- Whatever rows thread `i` has read, it has read them from a settled tape. -/
def ReadsSettled (userId : Int) (i : Nat) (log : List (Event service)) : Prop :=
  ∀ newer older c r, log = newer ++ .called i c r :: older → PageRead userId c → Settled userId older

theorem readsSettled_cons {userId : Int} {i : Nat} {ev : Event service} {log : List (Event service)} :
    ReadsSettled userId i (ev :: log) ↔
      (∀ c r, ev = .called i c r → PageRead userId c → Settled userId log) ∧ ReadsSettled userId i log := by
  constructor
  · refine fun h => ⟨fun c r he => h [] log c r (he ▸ rfl), fun newer older c r he => ?_⟩
    exact h (ev :: newer) older c r (he ▸ rfl)
  · rintro ⟨hev, h⟩ newer older c r he
    cases newer with
    | nil =>
        obtain ⟨rfl, rfl⟩ := List.cons.inj he
        exact hev c r rfl
    | cons ev' newer => exact h newer older c r (List.cons.inj he).2

instance decidableReadsSettled (userId : Int) (i : Nat) :
    ∀ log : List (Event service), Decidable (ReadsSettled userId i log)
  | [] => .isTrue fun newer older c r he => by simp at he
  | ev :: log =>
      have := decidableReadsSettled userId i log
      have : Decidable (∀ c r, ev = .called i c r → PageRead userId c → Settled userId log) :=
        match ev with
        | .called j c r => decidable_of_iff (j = i → PageRead userId c → Settled userId log)
            ⟨fun h c' r' he => by obtain ⟨rfl, rfl, -⟩ := Event.called.inj he; exact h rfl,
              fun h hj => h c r (by rw [hj])⟩
        | .started _ _ => .isTrue (by simp)
        | .crashed _ => .isTrue (by simp)
        | .env _ => .isTrue (by simp)
      decidable_of_iff _ readsSettled_cons.symm

/-- The look at the lock. -/
def looksAtLock (userId : Int) : (c : Call) → Except Exn c.Reply → Option Unit
  | .exists key, _ => if key = lockKey userId then some () else none
  | _, _ => none

/-- When a page is read, no full rebuild that has deleted the tape since the look at the lock is still filling
it. -/
def ReadsBetween (userId : Int) (c : Conf service) (l : Label service) : Prop :=
  ∀ x ∈ c.call? l, PageRead userId x.2 →
    ∀ y ∈ reading (looksAtLock userId) (Call.deletesTape userId) x.1 c.world.log,
      ∀ j ∈ y.2, ¬ (phase userId j c.world.log).Refilling

instance (userId : Int) (c : Conf service) (l : Label service) : Decidable (ReadsBetween userId c l) :=
  inferInstanceAs (Decidable (∀ x ∈ c.call? l, _))

/-- The lock of a full rebuild does not expire before its last `ZADD`. -/
def RebuildOutlived (userId : Int) (c : Conf service) (l : Label service) : Prop :=
  l = .env (.expireLock userId) → ∀ j, ¬ (phase userId j c.world.log).Busy

theorem RebuildOutlived.of_noExpiry {userId : Int} {c : Conf service} {l : Label service} (h : NoExpiry c l) :
    RebuildOutlived userId c l := by
  rintro rfl
  exact h.elim

/-- The user to whom the thread has returned a page. -/
def served? (t : Thread service) : Option Int :=
  match t.job, t.outcome? with
  | .readTape userId _, some (.ok (.page _)) => some userId
  | _, _ => none

theorem served?_eq_some {t : Thread service} {userId : Int} (h : served? t = some userId) :
    ∃ after page, t.job = .readTape userId after ∧ t.outcome? = some (.ok (.page page)) := by
  unfold served? at h
  split at h
  · rename_i after page hjob hr
    cases h
    exact ⟨after, page, hjob, hr⟩
  · cases h

namespace WholePages

variable {userId : Int} {i j : Nat} {w : World service} {s : State} {log : List (Event service)}
  {ev : Event service}

/-! ## Phases -/

theorem phase_cons_of_ne (h : ev.thread? ≠ some i) : phase userId i (ev :: log) = phase userId i log := by
  cases ev with
  | started j job =>
      have hj : j ≠ i := fun he => h (he ▸ rfl)
      cases job with
      | generate u dirty => cases dirty <;> simp [phase, hj]
      | _ => rfl
  | called j c r =>
      have hj : j ≠ i := fun he => h (he ▸ rfl)
      simp [phase, hj]
  | _ => rfl

@[simp] theorem phase_called {c : Call} {r : Except Exn c.Reply} :
    phase userId i (.called i c r :: log) = (phase userId i log).after userId c r := by
  simp [phase]

theorem phase_of_fresh (h : w.Fresh i) : phase userId i w.log = .idle := by
  obtain ⟨s, log⟩ := w
  induction log with
  | nil => rfl
  | cons ev log ih =>
      have hne : ev.thread? ≠ some i := h ev List.mem_cons_self
      rw [phase_cons_of_ne hne]
      exact ih fun ev' hev' => h ev' (List.mem_cons_of_mem _ hev')

/-- Only the deletion of the tape starts a refilling. -/
theorem refilling_of_cons (h : (phase userId j (ev :: log)).Refilling) :
    (phase userId j log).Refilling ∨ ∃ r, ev = .called j (.multiZcardDel (entriesKey userId)) r := by
  by_cases hev : ev.thread? = some j
  · cases ev with
    | started k job =>
        cases hev
        cases job with
        | generate u dirty =>
            cases dirty with
            | false => exact .inl h
            | true =>
                simp only [phase] at h
                split at h
                · exact h.elim
                · exact .inl h
        | _ => exact .inl h
    | called k c r =>
        cases hev
        rw [phase_called] at h
        rcases h.of_after with h | rfl
        · exact .inl h
        · exact .inr ⟨r, rfl⟩
    | crashed k => exact .inl h
    | env e => cases hev
  · rw [phase_cons_of_ne hev] at h
    exact .inl h

theorem settled_of_forall (h : ∀ j, ¬ (phase userId j log).Refilling) : Settled userId log :=
  fun _ _ j _ => h j

/-! ## The protocol -/

/-- A full rebuild holds the lock until its last `ZADD`. -/
def protocol (userId : Int) : Protocol service where
  inv w := ∀ j, (phase userId j w.log).Busy → w.state.lock userId = some (token j)
  guar _ _ _ := True
  rely _ _ _ _ := True
  may w i c := PageRead userId c → ∀ y ∈ reading (looksAtLock userId) (Call.deletesTape userId) i w.log,
    ∀ j ∈ y.2, ¬ (phase userId j w.log).Refilling
  faults := False

theorem good_of_event (hw : (protocol userId).inv w) (hev : ∀ j, j ≠ i → ev.thread? ≠ some j)
    (hlock : ∀ j, j ≠ i → w.state.lock userId = some (token j) → s.lock userId = some (token j))
    (hbusy : (phase userId i (ev :: w.log)).Busy → s.lock userId = some (token i)) :
    (protocol userId).Good i w ev s := by
  refine ⟨fun j hj => ?_, trivial, fun _ _ => trivial⟩
  by_cases hji : j = i
  · subst hji
    exact hbusy hj
  · rw [World.push_log, phase_cons_of_ne (hev j hji)] at hj
    exact hlock j hji (hw j hj)

theorem good_of_call {c : Call} (hw : (protocol userId).inv w) (hown : OwnToken userId i c)
    (hbusy : (phase userId i (.called i c (exec c w.state).1 :: w.log)).Busy →
      (exec c w.state).2.lock userId = some (token i)) {r : Except Exn c.Reply}
    (hr : (protocol userId).Answers c w.state r s) : (protocol userId).Good i w (.called i c r) s := by
  obtain ⟨rfl, rfl⟩ := hr.of_faultless id
  exact good_of_event hw (fun j hj he => hj (Option.some.inj he).symm) (fun j hj => hown.lock hj) hbusy

/-- What thread `i` knows of its phase. -/
def In (userId : Int) (i : Nat) (A : Phase → Prop) (w : World service) : Prop := A (phase userId i w.log)

theorem stable_in {A : Phase → Prop} : (protocol userId).Stable i (In userId i A) := by
  intro w ev s _ _ hev _ _ h
  rwa [In, World.push_log, phase_cons_of_ne hev]

/-- A call that leaves the thread in its phase, and the lock in its hands. -/
theorem quiet_of_not_advances {A : Phase → Prop} {c : Call} (hc : ¬ Phase.Advances c)
    (hown : OwnToken userId i c) (hl : ¬ c.EditsLock userId ∨ ∀ p, A p → ¬ p.Busy) :
    (protocol userId).Quiet i (In userId i A) c := by
  intro w hw hA _ r s hr
  have hphase : ∀ r, phase userId i (.called i c r :: w.log) = phase userId i w.log := fun r => by
    rw [phase_called, Phase.after_of_not_advances hc]
  refine ⟨good_of_call hw hown (fun hbusy => ?_) hr, ?_⟩
  · rw [hphase] at hbusy
    rcases hl with hl | hl
    · rw [exec_lock hl]
      exact hw i hbusy
    · exact absurd hbusy (hl _ hA)
  · rwa [In, World.push_log, hphase]

/-- A thread that is no full rebuild of the user's tape stays idle. -/
theorem idle_step {c : Call} (hown : OwnToken userId i c) (hw : (protocol userId).inv w)
    (hidle : phase userId i w.log = .idle) {r : Except Exn c.Reply}
    (hr : (protocol userId).Answers c w.state r s) :
    (protocol userId).Good i w (.called i c r) s ∧ phase userId i (.called i c r :: w.log) = .idle := by
  refine ⟨good_of_call hw hown (fun hbusy => ?_) hr, ?_⟩
  · simp [hidle, Phase.Busy, Phase.Refilling] at hbusy
  · simp [hidle]

/-! ## The rebuild -/

/-- A call that is answered takes the thread to the next phase; it holds the lock already if it has to. -/
theorem advance_triple {A : Phase → Prop} {c : Call} {Q : c.Reply → Phase → Prop} {E : World service → Prop}
    (hc : ¬ c.EditsScores) (hl : ¬ c.EditsLock userId) (hown : OwnToken userId i c)
    (h : ∀ p, A p → ∀ a, Q a (p.after userId c (.ok a)) ∧ ((p.after userId c (.ok a)).Busy → p.Busy)) :
    (protocol userId).Triple i (In userId i A) (ask c) (upon (fun a => In userId i (Q a)) E) := by
  refine Triple.perform stable_in fun w hw hA _ r s hr => ?_
  obtain ⟨a, ha⟩ := exec_ok (s := w.state) hc
  obtain ⟨hq, hbusy⟩ := h _ hA a
  refine ⟨good_of_call hw hown (fun hb => ?_) hr, ?_⟩
  · rw [ha, phase_called] at hb
    rw [exec_lock hl]
    exact hw i (hbusy hb)
  · obtain ⟨rfl, rfl⟩ := hr.of_faultless id
    rw [ha]
    simpa [upon, In] using hq

theorem acquire_triple :
    (protocol userId).Triple i (In userId i (· = .started)) (acquireLock userId (token i))
      (upon (fun got => if got then In userId i (· = .locked) else In userId i fun p => ¬ p.Busy)
        (In userId i fun p => ¬ p.Busy)) := by
  refine Triple.perform stable_in fun w hw hA _ r s hr => ?_
  have hA : phase userId i w.log = .started := hA
  cases hgot : (exec (.setNxEx (lockKey userId) (token i)) w.state).1 with
  | error e => obtain ⟨a, ha⟩ := exec_ok (c := .setNxEx (lockKey userId) (token i)) (s := w.state) id; simp_all
  | ok got =>
      have hown : OwnToken userId i (.setNxEx (lockKey userId) (token i)) := fun _ => rfl
      refine ⟨good_of_call hw hown (fun hb => ?_) hr, ?_⟩
      · rw [hgot, phase_called, hA] at hb
        cases got with
        | true => exact @holdsLock_of_acquired _ userId i w (.crashed 0) hgot
        | false => simp [Phase.after, Phase.Busy, Phase.Refilling] at hb
      · obtain ⟨rfl, rfl⟩ := hr.of_faultless id
        rw [hgot]
        cases got with
        | true => simp [upon, In, hA, Phase.after]
        | false => simp [upon, In, hA, Phase.after, Phase.Busy, Phase.Refilling]

theorem candidates_triple {cfg : TapeConfig} {sources : List Int} (hsources : sources ≠ []) {base : Base}
    {E : World service → Prop} :
    (protocol userId).Triple i (In userId i fun p => p = .emptied ∧ base.existing = [])
      (candidatesForUser userId sources cfg.dateFrom cfg.dateTo cfg.ordering base.existing)
      (upon (fun docIds => In userId i (· = .filling docIds.length)) E) := by
  unfold candidatesForUser
  rw [if_neg hsources]
  refine Triple.seq (Q := fun rows => In userId i fun p => p = .filling rows.length ∧ base.existing = [])
    (advance_triple id id trivial fun p hp rows => ?_) fun rows => ?_
  · obtain ⟨rfl, hbase⟩ := hp
    exact ⟨⟨rfl, hbase⟩, fun _ => .inr trivial⟩
  · split
    · exact Triple.pure fun _ _ h => h.1
    · rename_i hne
      exact Triple.pure fun _ _ h => absurd h.2 hne

theorem still_quiet {A : Phase → Prop} {c : Call} (h : Still userId i c) :
    (protocol userId).Quiet i (In userId i A) c :=
  quiet_of_not_advances h.1 h.2.1 (.inl h.2.2)

theorem still_keeps {α : Type} {A : Phase → Prop} {p : Prog α} (hp : p.Uses (Still userId i)) :
    (protocol userId).Keeps i (In userId i A) p :=
  Keeps.of_uses stable_in (hp.mono fun _ hc => still_quiet hc)

/-- A phase without the lock lasts, whatever the calls of the program are answered. -/
theorem still_triple {α : Type} {q : Phase} (hq : ¬ q.Busy) {p : Prog α} (hp : p.Uses (Still userId i)) :
    (protocol userId).Triple i (In userId i (· = q)) p
      (upon (fun _ => In userId i (· = q)) (In userId i fun p => ¬ p.Busy)) :=
  (still_keeps hp).upon fun w _ h => by
    have h : phase userId i w.log = q := h
    rwa [In, h]

theorem still_ended {α : Type} {q : Phase} (hq : ¬ q.Busy) {p : Prog α} (hp : p.Uses (Still userId i)) :
    (protocol userId).Triple i (In userId i (· = q)) p
      (upon (fun _ => In userId i fun p => ¬ p.Busy) (In userId i fun p => ¬ p.Busy)) :=
  Triple.conseq (Keeps.upon (still_keeps (A := fun p => ¬ p.Busy) hp) fun _ _ h => h)
    (fun w _ h => by
      have h : phase userId i w.log = q := h
      rwa [In, h]) fun _ _ _ h => h

theorem closes_quiet {c : Call} (hc : Closes userId i c) :
    (protocol userId).Quiet i (In userId i fun p => ¬ p.Busy) c := by
  rcases hc with hc | rfl
  · exact still_quiet (Reports.still hc)
  · exact quiet_of_not_advances (c := .evalRelease (lockKey userId) (token i)) id (fun _ => rfl)
      (.inr fun _ h => h)

def rebuild (userId : Int) (i : Nat) : GenerateOutline (protocol userId) i userId true where
  begun := In userId i (· = .started)
  configured _ := In userId i (· = .started)
  sourced _ _ := In userId i (· = .started)
  wiped _ := In userId i (· = .started)
  held _ _ := In userId i (· = .locked)
  measured _ _ _ _ := False
  ready _ _ base := In userId i fun p => p = .emptied ∧ base.existing = []
  adding _ docIds _ := In userId i (· = .filling docIds.length)
  announced := In userId i (· = .filling 0)
  ended := In userId i fun p => ¬ p.Busy
  failed := In userId i fun p => ¬ p.Busy
  getConfig := Triple.conseq (still_triple Phase.not_busy_started (getConfig_uses ⟨id, trivial, id⟩))
    (fun _ _ h => h) fun r w _ h => by
      rcases r with _ | _ | _
      · exact h
      · have h : phase userId i w.log = .started := h
        simp [upon, In, h, Phase.not_busy_started]
      · exact h
  getConfigSources _ := still_triple Phase.not_busy_started (getConfigSources_uses ⟨id, trivial, id⟩)
  leave := nofun
  wipe _ _ := advance_triple (c := .multiZcardDel (entriesKey userId)) id id trivial fun p hp _ => by
    subst hp
    exact ⟨rfl, id⟩
  wipe_clear _ _ := still_ended Phase.not_busy_started (uses_ask ⟨id, trivial, id⟩)
  acquire _ _ _ := acquire_triple
  held_reports _ _ c hc := ask_triple id (by cases c <;> first | exact id | exact hc.elim) stable_in
    (still_quiet (Reports.still hc))
  delete _ _ _ := advance_triple (c := .multiZcardDel (entriesKey userId)) id id trivial fun p hp _ => by
    subst hp
    exact ⟨⟨by simp [Phase.after], rfl⟩, fun _ => .inl rfl⟩
  last := nofun
  page := nofun
  candidates _ _ _ hsources := candidates_triple hsources
  zadd _ docId docIds position := Triple.conseq (advance_triple (c := .zaddNx (entriesKey userId) docId position)
    (Q := fun _ p => p = .filling docIds.length) (E := In userId i fun p => ¬ p.Busy) id id trivial fun p hp _ => by
      subst hp
      exact ⟨by simp [Phase.after], fun _ => .inr trivial⟩) (fun _ _ h => h) fun r _ _ h => by
        cases r <;> exact h
  announce added _ := still_triple Phase.not_busy_filled (Uses.forM added fun _ _ => uses_ask ⟨id, trivial, id⟩)
  clear _ := still_ended Phase.not_busy_filled (uses_ask ⟨id, trivial, id⟩)
  keep := nofun
  ended_failed _ _ h := h
  ended_stable := stable_in
  ended_quiet _ := closes_quiet
  failed_stable := stable_in
  failed_quiet _ := closes_quiet

/-! ## The reader -/

/-- Thread `i` has read its rows from settled tapes. -/
def Watching (userId : Int) (i : Nat) (w : World service) : Prop :=
  phase userId i w.log = .idle ∧ ReadsSettled userId i w.log

/-- Since thread `i` has looked at the lock, every rebuild that is filling the tape has deleted it. -/
def Covered (userId : Int) (i : Nat) (log : List (Event service)) : Prop :=
  ∃ x, reading (looksAtLock userId) (Call.deletesTape userId) i log = some x ∧
    ∀ j, (phase userId j log).Refilling → j ∈ x.2

theorem covered_cons (hev : ev.reads (looksAtLock userId) i = none) (h : Covered userId i log) :
    Covered userId i (ev :: log) := by
  obtain ⟨x, hx, hcover⟩ := h
  obtain ⟨js, hjs, hsub, hdel⟩ := exists_of_reading_cons hev hx
  refine ⟨_, hjs, fun j hj => ?_⟩
  rcases refilling_of_cons hj with hj | ⟨r, rfl⟩
  · exact hsub (hcover j hj)
  · exact hdel j (by simp [Event.changer?, Call.deletesTape])

theorem stable_watching : (protocol userId).Stable i (Watching userId i) := by
  intro w ev s _ _ hev _ _ ⟨hidle, hreads⟩
  refine ⟨by rwa [World.push_log, phase_cons_of_ne hev], readsSettled_cons.mpr ⟨fun c r he => ?_, hreads⟩⟩
  subst he
  exact absurd rfl hev

theorem stable_free :
    (protocol userId).Stable i fun w => Watching userId i w ∧ Covered userId i w.log := by
  intro w ev s hw hw' hev hg hr ⟨h, hcover⟩
  exact ⟨stable_watching w ev s hw hw' hev hg hr h, covered_cons (Event.reads_of_thread_ne hev) hcover⟩

/-- A call of the reader that is no page read, or one that finds the tape settled. -/
theorem watching_step {c : Call} (hown : OwnToken userId i c) (hw : (protocol userId).inv w)
    (h : Watching userId i w) (hc : PageRead userId c → Settled userId w.log) {r : Except Exn c.Reply}
    (hr : (protocol userId).Answers c w.state r s) :
    (protocol userId).Good i w (.called i c r) s ∧ Watching userId i (w.push (.called i c r) s) := by
  obtain ⟨hg, hidle⟩ := idle_step hown hw h.1 hr
  refine ⟨hg, hidle, readsSettled_cons.mpr ⟨fun c' r' he => ?_, h.2⟩⟩
  cases he
  exact hc

theorem watching_quiet {c : Call} (hown : OwnToken userId i c) (hc : ¬ PageRead userId c) :
    (protocol userId).Quiet i (Watching userId i) c :=
  fun _ hw h _ _ _ hr => watching_step hown hw h (fun hread => absurd hread hc) hr

theorem free_quiet {c : Call} (hown : OwnToken userId i c) (hc : ¬ PageRead userId c)
    (hlook : ∀ r, looksAtLock userId c r = none) :
    (protocol userId).Quiet i (fun w => Watching userId i w ∧ Covered userId i w.log) c := by
  intro w hw ⟨h, hcover⟩ hm r s hr
  obtain ⟨hg, h⟩ := watching_quiet hown hc w hw h hm r s hr
  exact ⟨hg, h, covered_cons (by rw [Event.reads_called, hlook]) hcover⟩

/-- Where the lock is free nobody is filling the tape. -/
theorem check_triple :
    (protocol userId).Triple i (Watching userId i) (isLocked userId)
      (upon (fun locked => if locked then fun _ => True
        else fun w => Watching userId i w ∧ Covered userId i w.log) fun _ => True) := by
  refine Triple.perform stable_watching fun w hw h hm r s hr => ?_
  obtain ⟨hg, h⟩ := watching_quiet (c := .exists (lockKey userId)) trivial id w hw h hm r s hr
  refine ⟨hg, ?_⟩
  obtain ⟨rfl, rfl⟩ := hr.of_faultless id
  rw [exec_exists_reply] at h ⊢
  cases hlock : w.state.lock userId with
  | some t => trivial
  | none =>
      rw [hlock] at h
      refine ⟨h, ((), []), reading_of_reads (by simp [looksAtLock]), fun j hj => ?_⟩
      rcases refilling_of_cons hj with hj | ⟨r, he⟩
      · rw [hw j (.inr hj)] at hlock
        cases hlock
      · cases he

theorem read_triple {c : Call} (hc : PageRead userId c) :
    (protocol userId).Triple i (fun w => Watching userId i w ∧ Covered userId i w.log) (ask c)
      (upon (fun _ => Watching userId i) fun _ => True) := by
  have hown : OwnToken userId i c := by cases c <;> first | exact hc.elim | trivial
  refine Triple.perform stable_free fun w hw ⟨h, js, hjs, hcover⟩ hm r s hr => ?_
  have hsettled : Settled userId w.log := settled_of_forall fun j hj => hm hc js hjs j (hcover j hj) hj
  obtain ⟨hg, h⟩ := watching_step hown hw h (fun _ => hsettled) hr
  refine ⟨hg, ?_⟩
  cases r with
  | ok a => exact h
  | error e => trivial

def reader (userId : Int) (i : Nat) (after : Option Nat) :
    ReadTapeOutline (protocol userId) i userId after where
  begun := Watching userId i
  free w := Watching userId i w ∧ Covered userId i w.log
  shown _ := Watching userId i
  check := check_triple
  getConfig := (Keeps.of_uses stable_free (getConfig_uses (free_quiet trivial id fun _ => rfl))).upon
    fun _ _ _ => trivial
  rows limit := by
    cases after with
    | none => exact Triple.seq (read_triple rfl) fun _ => Triple.pure fun _ _ h => h
    | some a => exact Triple.seq (read_triple rfl) fun _ => Triple.pure fun _ _ h => h
  shown_stable _ := stable_watching
  shown_quiet _ c hc := by
    cases c <;> first | exact hc.elim | exact watching_quiet trivial id

/-! ## The outline -/

/-- The rows of a page that was returned were read from a settled tape. -/
def post (userId : Int) (i : Nat) (job : Job) (r : Except Exn Out) (w : World service) : Prop :=
  ∀ after page, job = .readTape userId after → r = .ok (.page page) → ReadsSettled userId i w.log

theorem readsSettled_of_fresh (h : w.Fresh i) : ReadsSettled userId i w.log := by
  intro newer older c r he
  exact absurd rfl (h (.called i c r) (by simp [he]))

theorem not_busy_begun {job : Job} : ¬ (phase userId i [.started i job]).Busy := by
  cases job with
  | generate u dirty =>
      by_cases hu : u = userId <;> cases dirty <;> simp [phase, hu, Phase.Busy, Phase.Refilling]
  | _ => simp [phase, Phase.Busy, Phase.Refilling]

/-- What thread `i` knows when it is started for the job. -/
def pre (userId : Int) (i : Nat) (job : Job) (w : World service) : Prop :=
  phase userId i w.log = phase userId i [.started i job] ∧ ReadsSettled userId i w.log

theorem body_triple {job : Job} :
    (protocol userId).Triple i (pre userId i job) (Job.body i job) (post userId i job) := by
  by_cases hfull : job = .generate userId true
  · subst hfull
    refine Triple.map (Triple.conseq (rebuild userId i).triple (fun w _ h => ?_) fun _ _ _ h => h)
      fun r w _ _ after page hj => nomatch hj
    show phase userId i w.log = .started
    rw [h.1]
    simp [phase]
  · have hidle : phase userId i [.started i job] = .idle := by
      cases job with
      | generate u dirty =>
          cases dirty with
          | false => rfl
          | true =>
              have hu : u ≠ userId := fun hu => hfull (hu ▸ rfl)
              simp [phase, hu]
      | _ => rfl
    by_cases hread : ∃ after, job = .readTape userId after
    · obtain ⟨after, rfl⟩ := hread
      refine Triple.map (Triple.conseq (reader userId i after).triple (fun w _ h => ?_) fun _ _ _ h => h)
        fun r w _ h after page _ hr => ?_
      · exact ⟨h.1.trans hidle, h.2⟩
      · rcases r with e | page'
        · cases hr
        · cases h with
          | unread _ h => exact h.1.2
          | read _ _ h => exact h.2
    · have hkeeps : (protocol userId).Keeps i (In userId i (· = .idle)) (Job.body i job) :=
        Keeps.of_uses stable_in ((Job.body_uses i job).mono fun c hc w hw h _ r s hr =>
          idle_step (JobCall.ownToken hc) hw h hr)
      exact Triple.conseq hkeeps (fun w _ h => h.1.trans hidle) fun r w _ _ after page hj _ =>
        absurd ⟨after, hj⟩ hread

def outline (userId : Int) : Outline service fun c l =>
    l.Faultless ∧ RebuildOutlived userId c l ∧ ReadsBetween userId c l where
  toProtocol := protocol userId
  post := post userId
  post_stable i _ _ w ev _ _ _ hev _ h after page hj hr :=
    readsSettled_cons.mpr ⟨fun c r he => absurd (he ▸ rfl) hev, h after page hj hr⟩
  may_ok c i t q hok hi hq := hok.2.2 (i, q) (Conf.call?_run hi hq)
  may_fail _ _ _ _ _ _ hok _ _ := hok.1.elim
  start_ok c job s _ hw hfresh hs := by
    have hidle : phase userId c.threads.length c.world.log = .idle := phase_of_fresh hfresh
    have hphase : phase userId c.threads.length (.started c.threads.length job :: c.world.log) =
        phase userId c.threads.length [.started c.threads.length job] := by
      cases job with
      | generate u dirty => cases dirty <;> simp [phase, hidle]
      | _ => exact hidle
    have hg : (protocol userId).Good c.threads.length c.world (.started c.threads.length job) s := by
      refine good_of_event hw (fun j hj he => hj (Option.some.inj he).symm)
        (fun j _ hl => (Job.begin_lock hs).trans hl) fun hbusy => ?_
      rw [hphase] at hbusy
      exact absurd hbusy not_busy_begun
    exact ⟨hg, body_triple _ hg.inv ⟨hphase, readsSettled_cons.mpr ⟨by simp, readsSettled_of_fresh hfresh⟩⟩⟩
  crash_ok _ _ hok := hok.1.elim
  env_ok c e s hok hw hs := by
    refine ⟨fun j hj => ?_, trivial, fun _ _ _ _ => trivial⟩
    refine (Env.apply_lock hs fun he => ?_).trans (hw j hj)
    subst he
    exact hok.2.1 rfl j hj

end WholePages

/-- In the runs in which no full rebuild that has come in between the look at the lock and the read is still
filling the tape, and no lock expires under a full rebuild, every page is read from a settled tape. -/
theorem readsSettled_of_readsBetween {s : State} {userId : Int} {c : Conf service}
    (h : Reach (fun c l => l.Faultless ∧ RebuildOutlived userId c l ∧ ReadsBetween userId c l) s c)
    {i : Nat} (hserved : c.threads[i]?.bind served? = some userId) : ReadsSettled userId i c.world.log := by
  have hinit : (WholePages.outline userId).inv ⟨s, []⟩ := fun j hj => by
    simp [phase, Phase.Busy, Phase.Refilling] at hj
  obtain ⟨t, ht, hserved⟩ := Option.bind_eq_some_iff.mp hserved
  obtain ⟨after, page, hjob, hr⟩ := served?_eq_some hserved
  exact (Outline.holds_of_reach hinit h).outcome ht hr after page hjob rfl

end

section
open scoped Python.Utc

/-- A page is asked for, and read once a rebuild has come and gone. -/
def Sample.rebuilt : List (Label service) :=
  Sample.build ++ .start (.readTape 1 none) :: Sample.runs 2 1 ++
    .start (.generate 1 true) :: Sample.runs 3 30 ++ Sample.runs 2 9

theorem rebuilt_readsSettled :
    ReadsSettled 1 2 ((Sample.start [Sample.article 7]).play Sample.rebuilt).world.log := by
  have hobeys : (Sample.start [Sample.article 7]).Obeys
      (fun c l => l.Faultless ∧ NoExpiry c l ∧ ReadsBetween 1 c l) Sample.rebuilt := by
    decide +kernel
  have hreach : Reach (fun c l => l.Faultless ∧ RebuildOutlived 1 c l ∧ ReadsBetween 1 c l)
      ⟨.empty, .start [Sample.article 7]⟩ ((Sample.start [Sample.article 7]).play Sample.rebuilt) :=
    Steps.play (hobeys.mono fun c l h => ⟨h.1, RebuildOutlived.of_noExpiry h.2.1, h.2.2⟩)
  have hserved : ((Sample.start [Sample.article 7]).play Sample.rebuilt).threads[2]?.bind served? = some 1 := by
    decide +kernel
  exact readsSettled_of_readsBetween hreach hserved

/-- The page is read while the rebuild has emptied the tape. -/
def Sample.halfBuilt : List (Label service) :=
  Sample.build ++ .start (.readTape 1 none) :: Sample.runs 2 1 ++
    .start (.generate 1 true) :: Sample.runs 3 8 ++ Sample.runs 2 9

theorem half_built_page :
    ¬ ∀ (s : State) (c : Conf service) (i : Nat), Reach (S := service) (fun _ l => l.Faultless) s c →
      c.threads[i]?.bind served? = some 1 → ReadsSettled 1 i c.world.log := by
  intro h
  have hobeys : (Sample.start [Sample.article 7]).Obeys (fun _ l => l.Faultless) Sample.halfBuilt := by
    decide +kernel
  have hreach : Reach (S := service) (fun _ l => l.Faultless) ⟨.empty, .start [Sample.article 7]⟩
      ((Sample.start [Sample.article 7]).play Sample.halfBuilt) := Steps.play hobeys
  have hserved : ((Sample.start [Sample.article 7]).play Sample.halfBuilt).threads[2]?.bind served? = some 1 := by
    decide +kernel
  have hreads : ¬ ReadsSettled 1 2 ((Sample.start [Sample.article 7]).play Sample.halfBuilt).world.log := by
    decide +kernel
  exact hreads (h _ _ 2 hreach hserved)

end

end TapeService
