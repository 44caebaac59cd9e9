import TapeService.Lemmas.Lock
import TapeService.Redis.Keyset

/-!
# The positions of a tape

As long as only one thread at a time adds entries, and adds them above everything that is in the tape, the
positions stay pairwise distinct and non-negative, whatever the readers, the listener and other workers
remove meanwhile.
-/

namespace TapeService

open Interleaving Interleaving.Program Interleaving.Protocol Python

/-- The positions are pairwise distinct and non-negative. -/
structure Tape.Valid (t : Tape) : Prop where
  distinct : ∀ d e p, (d, p) ∈ t.rows → (e, p) ∈ t.rows → d = e
  nonneg : ∀ d p, (d, p) ∈ t.rows → 0 ≤ p

theorem Tape.Valid.of_subset {t t' : Tape} (h : t.Valid) (hs : t'.rows ⊆ t.rows) : t'.Valid :=
  ⟨fun d e p hd he => h.distinct d e p (hs hd) (hs he), fun d p hd => h.nonneg d p (hs hd)⟩

theorem Tape.valid_empty : Tape.Valid .empty :=
  ⟨fun _ _ _ h => (nomatch h), fun _ _ h => (nomatch h)⟩

/-- A position above all others keeps the tape valid. -/
theorem Tape.Valid.zaddNx {t : Tape} (h : t.Valid) {m p : Int} (hp : 0 ≤ p)
    (habove : ∀ x ∈ t.rows, x.2 < p) : Tape.Valid (Redis.ZSet.zaddNx t m p) := by
  have hne : ∀ d, (d, p) ∉ t.rows := fun d hd => lt_irrefl _ (habove _ hd)
  refine ⟨fun d e q hd he => ?_, fun d q hd => ?_⟩
  · rcases Redis.ZSet.mem_rows_zaddNx.mp hd with hd | ⟨_, hd⟩ <;>
      rcases Redis.ZSet.mem_rows_zaddNx.mp he with he | ⟨_, he⟩
    · exact h.distinct d e q hd he
    · cases he; exact absurd hd (hne d)
    · cases hd; exact absurd he (hne e)
    · cases hd; cases he; rfl
  · rcases Redis.ZSet.mem_rows_zaddNx.mp hd with hd | ⟨_, hd⟩
    · exact h.nonneg d q hd
    · cases hd; exact hp

/-- The rows are listed by their positions. -/
theorem Tape.Valid.increasing {t : Tape} (h : t.Valid) : Keyset.Increasing Prod.snd t.rows := by
  have hnodup : t.rows.Nodup := t.nodup.of_map
  refine List.Pairwise.imp_of_mem (fun {x y} hx hy hxy => ?_) (t.ranked.and hnodup)
  refine lt_of_le_of_ne hxy.1.le fun he => hxy.2 ?_
  obtain ⟨d, p⟩ := x
  obtain ⟨e, q⟩ := y
  obtain rfl : p = q := he
  rw [h.distinct d e p hx hy]

section
variable [DatetimeLib]

/-- How it is settled, in the runs of `ok`, which thread may add to the tape of the user: the one that has
taken the lock, until it gives it back or dies. -/
structure Tenure (userId : Int) (ok : Conf service → Label service → Prop) where
  holds : Nat → World service → Prop
  /-- The condition under which a thread may perform a call. -/
  may : World service → Nat → Call → Prop
  may_call : ∀ c l i q, ok c l → c.call? l = some (i, q) → may c.world i q
  unique : ∀ i j w, holds i w → holds j w → i = j
  taken : ∀ i w, may w i (.setNxEx (lockKey userId) (token i)) →
    (exec (.setNxEx (lockKey userId) (token i)) w.state).1 = .ok true →
    holds i (w.push (.called i (.setNxEx (lockKey userId) (token i)) (.ok true))
      (exec (.setNxEx (lockKey userId) (token i)) w.state).2)
  called : ∀ i j w (q : Call) (r : Except Exn q.Reply) s, may w j q → OwnToken userId j q →
    (s = w.state ∨ s = (exec q w.state).2) → (∀ a, r = .ok a → (exec q w.state).1 = .ok a) →
    i ≠ j ∨ ¬ q.EditsLock userId → holds i w → holds i (w.push (.called j q r) s)
  started : ∀ i j w job s, w.Fresh j → s.lock userId = w.state.lock userId → holds i w →
    holds i (w.push (.started j job) s)
  crashed : ∀ i j w, i ≠ j → holds i w → holds i (w.push (.crashed j) w.state)
  env : ∀ c e s i t, ok c (.env e) → e.apply c.world.state = some s → c.threads[i]? = some t → ¬ t.Ended →
    holds i c.world → holds i (c.world.push (.env e) s)

namespace Positions

variable {userId : Int} {ok : Conf service → Label service → Prop} {i : Nat} {w : World service}
  {ev : Event service} {s : State}

/-- The one who may add stays it, and the others only remove entries meanwhile. -/
def protocol (T : Tenure userId ok) : Protocol service where
  inv w := (w.state.tape userId).Valid
  guar w _ s := ∀ d p q, (d, p) ∈ (w.state.tape userId).rows → (d, q) ∈ (s.tape userId).rows → p = q
  rely i w ev s := T.holds i w → T.holds i (w.push ev s) ∧ (s.tape userId).rows ⊆ (w.state.tape userId).rows
  may := T.may
  faults := True

variable {T : Tenure userId ok}

/-- Thread `i` may add, and all entries are below position `n`. -/
def Below (T : Tenure userId ok) (i : Nat) (n : Int) (w : World service) : Prop :=
  T.holds i w ∧ 0 ≤ n ∧ ∀ x ∈ (w.state.tape userId).rows, x.2 < n

theorem stable_holds : (protocol T).Stable i (T.holds i) :=
  fun _ _ _ _ _ _ _ hr h => (hr h).1

theorem stable_below {n : Int} : (protocol T).Stable i (Below T i n) :=
  fun _ _ _ _ _ _ _ hr ⟨h, hn, hx⟩ => ⟨(hr h).1, hn, fun x hx' => hx x ((hr h).2 hx')⟩

/-- A step that removes entries at most. -/
theorem good_of_subset (hw : (protocol T).inv w) (ht : (s.tape userId).rows ⊆ (w.state.tape userId).rows)
    (hl : ∀ j, j ≠ i → T.holds j w → T.holds j (w.push ev s)) : (protocol T).Good i w ev s where
  inv := Tape.Valid.of_subset hw ht
  guar _ _ _ hp hq := Redis.ZSet.score_unique hp (ht hq)
  rely j hj h := ⟨hl j hj h, ht⟩

theorem called_holds {c : Call} (hm : T.may w i c) (hc : OwnToken userId i c) {r : Except Exn c.Reply}
    (hr : (protocol T).Answers c w.state r s) {j : Nat} (hj : j ≠ i ∨ ¬ c.EditsLock userId) (h : T.holds j w) :
    T.holds j (w.push (.called i c r) s) := by
  refine T.called j i w c r s hm hc hr.state (fun a ha => ?_) hj h
  subst ha
  exact hr.of_ok.2

theorem good_of_harmless {c : Call} (hm : T.may w i c) (h : Harmless userId i c) (hw : (protocol T).inv w)
    {r : Except Exn c.Reply} (hr : (protocol T).Answers c w.state r s) :
    (protocol T).Good i w (.called i c r) s := by
  refine good_of_subset hw ?_ fun j hj => called_holds hm h.ownToken hr (.inl hj)
  rcases hr.state with rfl | rfl
  · exact fun _ hx => hx
  · refine exec_tape_subset ?_
    rintro m p rfl
    exact h rfl

theorem quiet_of_harmless {c : Call} (hc : Harmless userId i c) : (protocol T).Quiet i (fun _ => True) c :=
  fun _ hw _ hm _ _ hr => ⟨good_of_harmless hm hc hw hr, trivial⟩

/-- A call that edits neither the tape nor the lock. -/
theorem quiet_of_neither {c : Call} {A : World service → Prop}
    (hA : ∀ w ev s, s.tape userId = w.state.tape userId → (T.holds i w → T.holds i (w.push ev s)) →
      A w → A (w.push ev s))
    (ht : ¬ c.EditsTape userId) (hl : ¬ c.EditsLock userId) : (protocol T).Quiet i A c := by
  intro w hw hAw hm r s hr
  have hown : OwnToken userId i c := by
    cases c with
    | setNxEx key t => exact fun hk => absurd hk hl
    | evalRelease key t => exact fun hk => absurd hk hl
    | _ => trivial
  have hs : s.tape userId = w.state.tape userId := by
    rcases hr.state with rfl | rfl
    · rfl
    · exact exec_tape ht
  exact ⟨good_of_subset hw (hs ▸ fun _ hx => hx) fun j _ => called_holds hm hown hr (.inr hl),
    hA _ _ _ hs (called_holds hm hown hr (.inr hl)) hAw⟩

theorem below_push {n : Int} (w : World service) (ev : Event service) (s : State)
    (ht : s.tape userId = w.state.tape userId) (hl : T.holds i w → T.holds i (w.push ev s))
    (h : Below T i n w) : Below T i n (w.push ev s) :=
  ⟨hl h.1, h.2.1, by simpa [ht] using h.2.2⟩

/-! ## The one who adds -/

/-- The step of a `ZADD`, at the position below which all entries are. -/
theorem Below.zaddNx {n m : Int} {r : Except Exn Nat} (hw : (protocol T).inv w) (h : Below T i n w)
    (hm : T.may w i (.zaddNx (entriesKey userId) m n))
    (hr : (protocol T).Answers (.zaddNx (entriesKey userId) m n) w.state r s)
    (hs : s = (exec (.zaddNx (entriesKey userId) m n) w.state).2) :
    (protocol T).Good i w (.called i (.zaddNx (entriesKey userId) m n) r) s ∧
      Below T i (n + 1) (w.push (.called i (.zaddNx (entriesKey userId) m n) r) s) := by
  obtain ⟨hl, hn, hx⟩ := h
  have htape : s.tape userId = (w.state.tape userId).zaddNx m n := hs ▸ exec_zaddNx_tape
  refine ⟨⟨?_, ?_, ?_⟩, called_holds hm trivial hr (.inr id) hl, by omega, ?_⟩
  · show Tape.Valid _
    rw [World.push_state, htape]
    exact Tape.Valid.zaddNx hw hn hx
  · intro d p q hp hq
    rw [htape] at hq
    rcases Redis.ZSet.mem_rows_zaddNx.mp hq with hq | ⟨hnot, hq⟩
    · exact Redis.ZSet.score_unique hp hq
    · cases hq
      exact absurd (Redis.ZSet.mem_iff.mpr ⟨p, hp⟩) hnot
  · exact fun j hj hlj => absurd (T.unique j i w hlj hl) hj
  · intro x hx'
    rw [World.push_state, htape] at hx'
    rcases Redis.ZSet.mem_rows_zaddNx.mp hx' with hx' | ⟨_, rfl⟩
    · exact lt_trans (hx x hx') (by omega)
    · show n < n + 1
      omega

/-- All entries are below the position after the last one. -/
theorem below_last (h : T.holds i w) (hw : (protocol T).inv w) :
    Below T i ((((w.state.tape userId).zrange (-1) (-1)).head?.map Prod.snd).getD (-1) + 1) w := by
  have hw : (w.state.tape userId).Valid := hw
  rw [Redis.ZSet.zrange_last]
  cases hlast : (w.state.tape userId).rows.getLast? with
  | none =>
      have hnil : (w.state.tape userId).rows = [] := List.getLast?_eq_none_iff.mp hlast
      exact ⟨h, by simp, by simp [hnil]⟩
  | some y =>
      have hy := hw.nonneg y.1 y.2 (List.mem_of_getLast? hlast)
      refine ⟨h, by simp; omega, fun x hx => ?_⟩
      have := Redis.ZSet.le_getLast hlast hx
      simp
      omega

theorem acquire_triple :
    (protocol T).Triple i (fun _ => True) (acquireLock userId (token i))
      (upon (fun got => if got then T.holds i else fun _ => True) fun _ => True) := by
  refine Triple.perform (Stable.true i) fun w hw _ hm r s hr => ?_
  refine ⟨good_of_harmless hm (fun _ => rfl) hw hr, ?_⟩
  rcases r with e | _ | _
  · trivial
  · trivial
  · obtain ⟨rfl, hgot⟩ := hr.of_ok
    exact T.taken i w hm hgot

theorem delete_triple :
    (protocol T).Triple i (T.holds i) (deleteAllEntries userId) (upon (fun _ => Below T i 0) fun _ => True) := by
  refine Triple.perform stable_holds fun w hw hl hm r s hr => ?_
  refine ⟨good_of_harmless hm (c := .multiZcardDel (entriesKey userId)) trivial hw hr, ?_⟩
  cases r with
  | error e => trivial
  | ok removed =>
      have hholds := called_holds hm trivial hr (.inr id) hl
      obtain ⟨rfl, -⟩ := hr.of_ok
      refine ⟨hholds, le_rfl, fun x hx => ?_⟩
      rw [World.push_state, exec_multiZcardDel_tape] at hx
      cases hx

/-- The start lies above the last entry, and the others only remove entries afterwards. -/
theorem last_triple :
    (protocol T).Triple i (T.holds i) (maxPosition userId)
      (upon (fun last => Below T i (last + 1)) fun _ => True) := by
  refine maxPosition_triple (Triple.perform stable_holds fun w hw hl hm r s hr => ?_)
  refine ⟨good_of_harmless hm (c := .zrange (entriesKey userId) (-1) (-1)) trivial hw hr, ?_⟩
  cases r with
  | error e => trivial
  | ok rows =>
      have hholds := called_holds hm trivial hr (.inr id) hl
      obtain ⟨rfl, hrows⟩ := hr.of_ok
      obtain rfl : (w.state.tape userId).zrange (-1) (-1) = rows := Except.ok.inj hrows
      exact below_push w _ _ rfl (fun _ => hholds) (below_last hl hw)

theorem zadd_triple {n m : Int} :
    (protocol T).Triple i (Below T i n) (Client.zaddNx (entriesKey userId) m n)
      (upon (fun _ => Below T i (n + 1)) fun _ => True) := by
  refine Triple.perform stable_below fun w hw h hm r s hr => ?_
  cases r with
  | ok a => exact h.zaddNx hw hm hr hr.of_ok.1
  | error e =>
      rcases hr.state with rfl | hs
      · exact ⟨good_of_subset hw (fun _ hx => hx) fun j _ => called_holds hm trivial hr (.inr id), trivial⟩
      · exact ⟨(h.zaddNx hw hm hr hs).1, trivial⟩

def holder (T : Tenure userId ok) (i : Nat) : HolderOutline (protocol T) i userId where
  holds := T.holds i
  below := Below T i
  harmless _ := quiet_of_harmless
  acquire := acquire_triple
  holds_stable := stable_holds
  holds_quiet _ ht hl := quiet_of_neither (fun _ _ _ _ h => h) ht hl
  below_stable _ := stable_below
  below_quiet _ _ ht hl := quiet_of_neither below_push ht hl
  delete := delete_triple
  last := last_triple
  zadd _ _ := zadd_triple

/-! ## The outline -/

/-- The outline of every job over the protocol. -/
def outline (T : Tenure userId ok) : Outline service ok where
  toProtocol := protocol T
  post _ _ _ _ := True
  post_stable _ _ _ _ _ _ _ _ _ _ _ := trivial
  may_ok c i t q hok hi hq := T.may_call c _ i q hok (Conf.call?_run hi hq)
  may_fail c i e done t q hok hi hq := ⟨trivial, T.may_call c (.fail i e done) i q hok (Conf.call?_run hi hq)⟩
  start_ok c job s _ hw hfresh hs := by
    have ht : s.tape userId = c.world.state.tape userId := Job.begin_tape hs
    have hg : (protocol T).Good c.threads.length c.world (.started c.threads.length job) s :=
      good_of_subset hw (ht ▸ fun _ hx => hx) fun j _ => T.started j _ _ _ _ hfresh (Job.begin_lock hs)
    exact ⟨hg, HolderOutline.body_triple (holder T _) _ hg.inv trivial⟩
  crash_ok c i _ hw := good_of_subset hw (fun _ hx => hx) fun j hj => T.crashed j i c.world hj
  env_ok c e s hok hw hs := by
    have ht : s.tape userId = c.world.state.tape userId := Env.apply_tape hs
    refine ⟨Tape.Valid.of_subset hw (ht ▸ fun _ hx => hx), fun d p q hp hq => ?_, fun i t hi hrun hl => ?_⟩
    · rw [ht] at hq
      exact Redis.ZSet.score_unique hp hq
    · exact ⟨T.env c e s i t hok hs hi hrun hl, ht ▸ fun _ hx => hx⟩

theorem holds_of_reach (T : Tenure userId ok) {s : State} (hs : (s.tape userId).Valid) {c : Conf service}
    (h : Reach ok s c) : (outline T).Holds c :=
  Outline.holds_of_reach (O := outline T) hs h

end Positions

end

end TapeService
