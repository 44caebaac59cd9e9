import TapeService.Lemmas.Edits
import TapeService.Lemmas.Lock

/-!
# Positions as keys

A page names its entries by their positions, and the next page is asked for by the last of them. Between
two deletions of the whole tape the positions only grow, provided that whoever asks for the last position
still finds the highest one that was ever assigned.
-/

namespace TapeService

open Interleaving Interleaving.Program Interleaving.Protocol Python

section
variable [DatetimeLib]

/-- Whoever asks for the last position finds one that is not below any of those assigned. -/
def TopKept (userId : Int) (c : Conf service) (l : Label service) : Prop :=
  (c.call? l).map Prod.snd = some (.zrange (entriesKey userId) (-1) (-1)) →
    ∀ x ∈ placed userId c.world.log, ∃ y ∈ (c.world.state.tape userId).rows, x.2 ≤ y.2

instance (userId : Int) (c : Conf service) (l : Label service) : Decidable (TopKept userId c l) :=
  inferInstanceAs (Decidable (_ → _))

/-- Calls are answered, no lock expires under its holder, and the highest position is still there when the
last one is asked for. -/
def KeepsTop (userId : Int) (c : Conf service) (l : Label service) : Prop :=
  l.Answered ∧ LockOutlives c l ∧ TopKept userId c l

/-- Until the tape is deleted as a whole, no position goes from one document to another, and what is added
after a page lies above the position from which that page goes on. -/
structure KeysStable (userId : Int) (ok : Conf service → Label service → Prop) (c₀ : Conf service) :
    Prop where
  one_document : ∀ c d e p, Steps (fun c l => ok c l ∧ ¬ Empties userId c l) c₀ c →
    (d, p) ∈ (c₀.world.state.tape userId).rows → (e, p) ∈ (c.world.state.tape userId).rows → d = e
  above_cursor : ∀ c₁ c₂ c₃ l i t after page n e p,
    Steps (fun c l => ok c l ∧ ¬ Empties userId c l) c₀ c₁ →
    c₀.threads.length ≤ i → c₁.threads[i]? = some t → t.job = .readTape userId after →
    t.outcome? = some (.ok (.page page)) → page.nextPosition = some n →
    Steps (fun c l => ok c l ∧ ¬ Empties userId c l) c₁ c₂ →
    ok c₂ l → ¬ Empties userId c₂ l → c₂.step l = some c₃ →
    (e, p) ∉ (c₂.world.state.tape userId).rows → (e, p) ∈ (c₃.world.state.tape userId).rows → n < p

namespace StableKeys

variable {userId : Int} {i : Nat} {w : World service} {s : State} {log : List (Event service)}

/-- Whether the positions were handed out in increasing order. -/
def Increasing (userId : Int) (log : List (Event service)) : Prop :=
  (placed userId log).Pairwise fun x y => y.2 < x.2

/-- The positions have grown, and every entry of the tape has one of them; the holder of the lock is the only
one to hand out more. -/
def protocol (userId : Int) : Protocol service where
  inv w := Increasing userId w.log ∧ (w.state.tape userId).rows ⊆ placed userId w.log
  guar w ev s := ∀ x ∈ (s.tape userId).rows, x ∉ (w.state.tape userId).rows →
    placed userId (ev :: w.log) = x :: placed userId w.log
  rely i w ev s := w.state.lock userId = some (token i) →
    s.lock userId = some (token i) ∧ placed userId (ev :: w.log) ⊆ placed userId w.log
  may w _ c := c = .zrange (entriesKey userId) (-1) (-1) →
    ∀ x ∈ placed userId w.log, ∃ y ∈ (w.state.tape userId).rows, x.2 ≤ y.2
  faults := False

/-- A step that adds no entry, and leaves the locks of the other threads alone. -/
theorem good_of_edit {ev : Event service} (hw : (protocol userId).inv w)
    (htape : s.tape userId = (edit? userId ev).elim (w.state.tape userId) (Edit.apply (w.state.tape userId)))
    (hev : ∀ d p, edit? userId ev ≠ some (.added d p))
    (hl : ∀ j, j ≠ i → w.state.lock userId = some (token j) → s.lock userId = some (token j)) :
    (protocol userId).Good i w ev s := by
  obtain ⟨hinc, hsub⟩ := hw
  cases hedit : edit? userId ev with
  | none =>
      have hplaced : placed userId (ev :: w.log) = placed userId w.log := by simp [placed, hedit]
      rw [hedit, Option.elim_none] at htape
      refine ⟨⟨?_, ?_⟩, fun x hx hx' => ?_, fun j hj h => ⟨hl j hj h, ?_⟩⟩
      · simpa [Increasing, hplaced] using hinc
      · simpa [htape, hplaced] using hsub
      · exact absurd (htape ▸ hx) hx'
      · simp [hplaced]
  | some edit =>
      cases edit with
      | added d p => exact absurd hedit (hev d p)
      | removed d =>
          have hplaced : placed userId (ev :: w.log) = placed userId w.log := by simp [placed, hedit]
          rw [hedit, Option.elim_some, Edit.apply] at htape
          refine ⟨⟨?_, ?_⟩, fun x hx hx' => ?_, fun j hj h => ⟨hl j hj h, ?_⟩⟩
          · simpa [Increasing, hplaced] using hinc
          · intro x hx
            simp only [World.push_state, htape] at hx
            simpa [hplaced] using hsub (Redis.ZSet.mem_rows_zrem.mp hx).1
          · rw [htape] at hx
            exact absurd (Redis.ZSet.mem_rows_zrem.mp hx).1 hx'
          · simp [hplaced]
      | emptied =>
          have hplaced : placed userId (ev :: w.log) = [] := by simp [placed, hedit]
          rw [hedit, Option.elim_some, Edit.apply] at htape
          refine ⟨⟨?_, ?_⟩, fun x hx hx' => ?_, fun j hj h => ⟨hl j hj h, ?_⟩⟩
          · simp [Increasing, hplaced]
          · simp [htape]
          · simp [htape] at hx
          · simp [hplaced]

theorem good_of_harmless {c : Call} (h : Harmless userId i c) (hw : (protocol userId).inv w)
    {r : Except Exn c.Reply} (hr : (protocol userId).Answers c w.state r s) :
    (protocol userId).Good i w (.called i c r) s := by
  obtain ⟨rfl, rfl⟩ := hr.of_faultless id
  refine good_of_edit hw (exec_edit c w.state userId) (fun d p => Call.edit?_ne_added ?_)
    fun j hj => h.ownToken.lock hj
  rintro m q rfl
  exact h rfl

/-- Thread `i` holds the lock, and every position handed out is below `n`. -/
def Above (userId : Int) (i : Nat) (n : Int) (w : World service) : Prop :=
  HoldsLock userId i w ∧ ∀ x ∈ placed userId w.log, x.2 < n

theorem stable_holds : (protocol userId).Stable i (HoldsLock userId i) :=
  fun _ _ _ _ _ _ _ hr h => (hr h).1

theorem stable_above {n : Int} : (protocol userId).Stable i (Above userId i n) :=
  fun _ _ _ _ _ _ _ hr ⟨h, hx⟩ => ⟨(hr h).1, fun x hx' => hx x ((hr h).2 hx')⟩

/-- A call that edits neither the tape nor the lock leaves the lock and the positions as they are. -/
theorem quiet_of_neither {c : Call} {A : World service → Prop}
    (hA : ∀ w ev s, placed userId (ev :: w.log) = placed userId w.log →
      s.lock userId = w.state.lock userId → A w → A (w.push ev s))
    (ht : ¬ c.EditsTape userId) (hl : ¬ c.EditsLock userId) : (protocol userId).Quiet i A c := by
  intro w hw hAw _ r s hr
  obtain ⟨rfl, rfl⟩ := hr.of_faultless id
  have hedit : edit? userId (.called i c (exec c w.state).1) = none := Call.edit?_of_not_edits ht
  refine ⟨good_of_edit hw (exec_edit c w.state userId) (by simp [hedit])
    fun _ _ h => (exec_lock hl).trans h, hA _ _ _ ?_ (exec_lock hl) hAw⟩
  simp [placed, hedit]

theorem holds_push (w : World service) (ev : Event service) (s : State)
    (_ : placed userId (ev :: w.log) = placed userId w.log)
    (hl : s.lock userId = w.state.lock userId) (h : HoldsLock userId i w) :
    HoldsLock userId i (w.push ev s) :=
  hl.trans h

theorem above_push {n : Int} (w : World service) (ev : Event service) (s : State)
    (hp : placed userId (ev :: w.log) = placed userId w.log)
    (hl : s.lock userId = w.state.lock userId) (h : Above userId i n w) :
    Above userId i n (w.push ev s) :=
  ⟨hl.trans h.1, by simpa [hp] using h.2⟩

/-! ## The holder -/

theorem delete_triple :
    (protocol userId).Triple i (HoldsLock userId i) (deleteAllEntries userId)
      (upon (fun _ => Above userId i 0) fun _ => True) := by
  refine Triple.perform stable_holds fun w hw hl _ r s hr => ?_
  refine ⟨good_of_harmless (c := .multiZcardDel (entriesKey userId)) trivial hw hr, ?_⟩
  obtain ⟨rfl, rfl⟩ := hr.of_faultless id
  have hedit : edit? userId (.called i (.multiZcardDel (entriesKey userId))
      (exec (.multiZcardDel (entriesKey userId)) w.state).1) = some .emptied := if_pos rfl
  refine ⟨?_, ?_⟩
  · show State.lock _ _ = _
    rw [World.push_state, exec_lock (by simp [Call.EditsLock])]
    exact hl
  · simp [placed, hedit]

/-- No position is above the last one that is still there, when the highest one is. -/
theorem above_last (hl : HoldsLock userId i w)
    (htop : ∀ x ∈ placed userId w.log, ∃ y ∈ (w.state.tape userId).rows, x.2 ≤ y.2) :
    Above userId i ((((w.state.tape userId).zrange (-1) (-1)).head?.map Prod.snd).getD (-1) + 1) w := by
  refine ⟨hl, fun x hx => ?_⟩
  obtain ⟨y, hy, hxy⟩ := htop x hx
  rw [Redis.ZSet.zrange_last]
  cases hlast : (w.state.tape userId).rows.getLast? with
  | none =>
      rw [List.getLast?_eq_none_iff.mp hlast] at hy
      cases hy
  | some z =>
      have := Redis.ZSet.le_getLast hlast hy
      simp
      omega

theorem last_triple :
    (protocol userId).Triple i (HoldsLock userId i) (maxPosition userId)
      (upon (fun last => Above userId i (last + 1)) fun _ => True) := by
  refine maxPosition_triple (Triple.perform stable_holds fun w hw hl hm r s hr => ?_)
  refine ⟨good_of_harmless (c := .zrange (entriesKey userId) (-1) (-1)) trivial hw hr, ?_⟩
  obtain ⟨rfl, rfl⟩ := hr.of_faultless id
  exact above_push w _ _ (by simp [placed, edit?, Call.edit?]) rfl (above_last hl (hm rfl))

/-- The holder hands out a position above all others. -/
theorem zadd_triple {n m : Int} :
    (protocol userId).Triple i (Above userId i n) (Client.zaddNx (entriesKey userId) m n)
      (upon (fun _ => Above userId i (n + 1)) fun _ => True) := by
  refine Triple.perform stable_above fun w hw ⟨hl, hx⟩ _ r s hr => ?_
  obtain ⟨rfl, rfl⟩ := hr.of_faultless id
  have hlock : (exec (.zaddNx (entriesKey userId) m n) w.state).2.lock userId = w.state.lock userId :=
    exec_lock (by simp [Call.EditsLock])
  have hrely : ∀ j, j ≠ i → ¬ w.state.lock userId = some (token j) := by
    intro j hj hlj
    rw [hl] at hlj
    exact hj (token_inj.mp (Option.some.inj hlj)).symm
  by_cases hm : m ∈ w.state.tape userId
  · have hedit : edit? userId (.called i (.zaddNx (entriesKey userId) m n)
        (exec (.zaddNx (entriesKey userId) m n) w.state).1) = none := by
      simp [edit?, Call.edit?, exec_zaddNx_reply, hm]
    refine ⟨good_of_edit hw (exec_edit _ w.state userId) (by simp [hedit])
      fun j hj h => absurd h (hrely j hj), hlock.trans hl, fun x hx' => ?_⟩
    simp only [World.push_log, placed, hedit] at hx'
    exact lt_trans (hx x hx') (by omega)
  · have hedit : edit? userId (.called i (.zaddNx (entriesKey userId) m n)
        (exec (.zaddNx (entriesKey userId) m n) w.state).1) = some (.added m n) := by
      simp [edit?, Call.edit?, exec_zaddNx_reply, hm]
    have hplaced : placed userId (.called i (.zaddNx (entriesKey userId) m n)
        (exec (.zaddNx (entriesKey userId) m n) w.state).1 :: w.log) = (m, n) :: placed userId w.log := by
      simp [placed, hedit]
    refine ⟨⟨⟨?_, ?_⟩, ?_, fun j hj h => absurd h (hrely j hj)⟩, hlock.trans hl, ?_⟩
    · simpa [Increasing, hplaced] using ⟨fun d p h => hx (d, p) h, hw.1⟩
    · intro x hx'
      rw [World.push_log, hplaced]
      rw [World.push_state, exec_zaddNx_tape] at hx'
      rcases Redis.ZSet.mem_rows_zaddNx.mp hx' with hx' | ⟨-, rfl⟩
      · exact List.mem_cons_of_mem _ (hw.2 hx')
      · exact List.mem_cons_self
    · intro x hx' hnot
      rw [exec_zaddNx_tape] at hx'
      rcases Redis.ZSet.mem_rows_zaddNx.mp hx' with hx' | ⟨-, rfl⟩
      · exact absurd hx' hnot
      · exact hplaced
    · intro x hx'
      rw [World.push_log, hplaced] at hx'
      rcases List.mem_cons.mp hx' with rfl | hx'
      · show n < n + 1
        omega
      · exact lt_trans (hx x hx') (by omega)

theorem quiet_of_harmless {c : Call} (hc : Harmless userId i c) : (protocol userId).Quiet i (fun _ => True) c :=
  fun _ hw _ _ _ _ hr => ⟨good_of_harmless hc hw hr, trivial⟩

def holder (userId : Int) (i : Nat) : HolderOutline (protocol userId) i userId where
  holds := HoldsLock userId i
  below := Above userId i
  harmless _ := quiet_of_harmless
  acquire := acquireLock_triple (quiet_of_harmless fun _ => rfl)
  holds_stable := stable_holds
  holds_quiet _ ht hl := quiet_of_neither holds_push ht hl
  below_stable _ := stable_above
  below_quiet _ _ ht hl := quiet_of_neither above_push ht hl
  delete := delete_triple
  last := last_triple
  zadd _ _ := zadd_triple

/-! ## The reader -/

/-- At some time since thread `i` has begun, the position was one of those handed out. -/
def Seen (userId : Int) (i : Nat) (n : Int) (w : World service) : Prop :=
  ∃ log, log <:+ w.log ∧ (∃ ev ∈ log, ev.thread? = some i) ∧ ∃ d, (d, n) ∈ placed userId log

theorem persistent_seen {rows : List (Int × Int)} :
    (protocol userId).Persistent fun w => ∀ n ∈ rows.map Prod.fst, Seen userId i n w := by
  intro w ev s _ h n hn
  obtain ⟨log, hlog, hrest⟩ := h n hn
  exact ⟨log, hlog.trans (List.suffix_cons ev w.log), hrest⟩

theorem seen_of_read {c : Call} {rows : List (Int × Int)} (hw : (protocol userId).inv w)
    (hc : ¬ c.EditsTape userId) {r : Except Exn c.Reply}
    (hrows : rows.Sublist (w.state.tape userId).rows) :
    ∀ n ∈ (rows.map fun row => (row.2, row.1)).map Prod.fst, Seen userId i n (w.push (.called i c r) s) := by
  intro n hn
  simp only [List.map_map, List.mem_map, Function.comp_apply] at hn
  obtain ⟨x, hx, rfl⟩ := hn
  have hedit : edit? userId (.called i c r) = none := Call.edit?_of_not_edits hc
  refine ⟨_, List.suffix_refl _, ⟨_, List.mem_cons_self, rfl⟩, x.1, ?_⟩
  simp only [World.push_log, placed, hedit]
  exact hw.2 (hrows.subset hx)

def reader (userId : Int) (i : Nat) (after : Option Nat) :
    ReadTapeOutline (protocol userId) i userId after where
  begun _ := True
  free _ := True
  shown rows w := ∀ n ∈ rows.map Prod.fst, Seen userId i n w
  check := Triple.conseq ((holder userId i).keeps_true (uses_ask (c := .exists (lockKey userId)) trivial))
    (fun _ _ h => h) fun r _ _ _ => by
      rcases r with e | _ | _ <;> trivial
  getConfig := ((holder userId i).keeps_true (getConfig_uses trivial)).upon fun _ _ h => h
  rows limit := by
    cases after with
    | none =>
        refine Triple.seq (Q := fun rows w => ∀ n ∈ (rows.map fun row => (row.2, row.1)).map Prod.fst,
          Seen userId i n w) (Triple.perform (Stable.true i) fun w hw _ _ r s hr => ?_)
          fun rows => Triple.pure fun _ _ h => h
        refine ⟨good_of_harmless (c := .zrange (entriesKey userId) 0 (limit - 1)) trivial hw hr, ?_⟩
        obtain ⟨rfl, rfl⟩ := hr.of_faultless id
        exact seen_of_read hw id Redis.ZSet.zrange_sublist
    | some a =>
        refine Triple.seq (Q := fun rows w => ∀ n ∈ (rows.map fun row => (row.2, row.1)).map Prod.fst,
          Seen userId i n w) (Triple.perform (Stable.true i) fun w hw _ _ r s hr => ?_)
          fun rows => Triple.pure fun _ _ h => h
        refine ⟨good_of_harmless (c := .zrangebyscore (entriesKey userId) a limit) trivial hw hr, ?_⟩
        obtain ⟨rfl, rfl⟩ := hr.of_faultless id
        exact seen_of_read hw id Redis.ZSet.zrangebyscore_sublist
  shown_stable _ := persistent_seen.stable
  shown_quiet rows c hc w hw h _ r s hr := by
    have hg := good_of_harmless (i := i) (by cases c <;> trivial) hw hr
    exact ⟨hg, persistent_seen w _ s hg.guar h⟩

/-! ## The outline -/

/-- The page that `GET /tape` has returned goes on from a position that was handed out. -/
def post (userId : Int) (i : Nat) (job : Job) (r : Except Exn Out) (w : World service) : Prop :=
  ∀ after page n, job = .readTape userId after → r = .ok (.page page) → page.nextPosition = some n →
    Seen userId i n w

theorem body_triple {job : Job} :
    (protocol userId).Triple i (fun _ => True) (Job.body i job) (post userId i job) := by
  by_cases hjob : ∃ after, job = .readTape userId after
  · obtain ⟨after, rfl⟩ := hjob
    refine Triple.map (reader userId i after).triple fun r w _ h after' page n _ hr hn => ?_
    rcases r with e | page'
    · cases hr
    · cases hr
      cases h with
      | unread hnone _ => rw [hnone] at hn; cases hn
      | read rows hrows hshown => exact hshown n (hrows n hn)
  · refine Triple.conseq (holder userId i).body_triple (fun _ _ h => h) fun r w _ _ after page n hj => ?_
    exact absurd ⟨after, hj⟩ hjob

def outline (userId : Int) : Outline service (KeepsTop userId) where
  toProtocol := protocol userId
  post := post userId
  post_stable _ _ _ w ev _ _ _ _ _ h after page n hj hr hn := by
    obtain ⟨log, hlog, hrest⟩ := h after page n hj hr hn
    exact ⟨log, hlog.trans (List.suffix_cons ev w.log), hrest⟩
  may_ok c i t q hok hi hq := by
    rintro rfl
    exact hok.2.2 (by rw [Conf.call?_run hi hq]; rfl)
  may_fail _ _ _ _ _ _ hok _ _ := hok.1.elim
  start_ok c job s _ hw _ hs := by
    have hg : (protocol userId).Good c.threads.length c.world (.started c.threads.length job) s :=
      good_of_edit hw (Job.begin_tape hs) (by simp [edit?]) fun j _ hl => (Job.begin_lock hs).trans hl
    exact ⟨hg, body_triple _ hg.inv trivial⟩
  crash_ok _ _ _ hw := good_of_edit hw rfl (by simp [edit?]) fun _ _ hl => hl
  env_ok c e s hok hw hs := by
    have hg : (protocol userId).Good c.threads.length c.world (.env e) s → _ := fun h => h
    have htape : s.tape userId = c.world.state.tape userId := Env.apply_tape hs
    refine ⟨⟨hw.1, ?_⟩, fun x hx hx' => absurd (htape ▸ hx) hx', fun i t hi hrun hl =>
      ⟨hok.2.1.lock hs hi hrun hl, fun x hx => hx⟩⟩
    rw [World.push_state, htape]
    exact hw.2

theorem Increasing.eq_of_position {log : List (Event service)} (h : Increasing userId log) {d e p : Int}
    (hd : (d, p) ∈ placed userId log) (he : (e, p) ∈ placed userId log) : d = e := by
  have hnodup : ((placed userId log).map Prod.snd).Nodup :=
    List.pairwise_map.mpr (h.imp fun hxy => (ne_of_lt hxy).symm)
  exact congrArg Prod.fst (List.inj_on_of_nodup_map hnodup hd he rfl)

end StableKeys

/-- In the runs in which the highest position is still there whenever the last one is asked for, positions
are stable keys. -/
theorem keysStable_of_keepsTop (db : Platform) {userId : Int} {c : Conf service}
    (h : Reach (KeepsTop userId) ⟨.empty, db⟩ c) : KeysStable userId (KeepsTop userId) c := by
  have hinit : (StableKeys.outline userId).inv ⟨⟨.empty, db⟩, []⟩ := ⟨List.Pairwise.nil, fun _ hx => hx⟩
  have hc : (StableKeys.outline userId).Holds c := Outline.holds_of_reach hinit h
  have hmono : ∀ {c c'}, Steps (fun c l => KeepsTop userId c l ∧ ¬ Empties userId c l) c c' →
      Steps (KeepsTop userId) c c' := fun hs => Steps.mono (fun _ _ h => h.1) hs
  constructor
  · intro c' d e p hs hd he
    obtain ⟨newer, hlog, hnewer⟩ := newer_of_not_empties hs
    have hc' := hc.steps (hmono hs)
    have hd' : (d, p) ∈ placed userId c'.world.log := by
      rw [hlog]
      exact (placed_append hnewer).subset (hc.inv.2 hd)
    exact StableKeys.Increasing.eq_of_position hc'.inv.1 hd' (hc'.inv.2 he)
  · intro c₁ c₂ c₃ l i t after page n e p hs₁ hi ht hjob hr hn hs₂ hok hl hstep hout hin
    have hc₁ := hc.steps (hmono hs₁)
    have hc₂ := hc₁.steps (hmono hs₂)
    obtain ⟨hc₃, ev, hworld, hguar⟩ := hc₂.step hok hstep
    -- The position was handed out after the thread has begun, which is after `c`.
    obtain ⟨log, hlog, ⟨ev', hev', hthread⟩, d, hd⟩ := hc₁.outcome ht hr after page n hjob rfl hn
    obtain ⟨newer₁, hnewer₁, hkept₁⟩ := newer_of_not_empties hs₁
    obtain ⟨newer₂, hnewer₂, hkept₂⟩ := newer_of_not_empties hs₂
    have hd₁ : (d, n) ∈ placed userId c₁.world.log := by
      obtain ⟨newer, hnewer⟩ := hlog
      rw [← hnewer]
      refine (placed_append fun ev hev => hkept₁ ev ?_).subset hd
      rcases List.append_eq_append_iff.mp (hnewer.trans hnewer₁) with ⟨later, hsplit, -⟩ | ⟨earlier, -, hsplit⟩
      · exact hsplit ▸ List.mem_append_left _ hev
      · exact absurd (hc.log_lt ev' (hsplit ▸ List.mem_append_right _ hev') i hthread) (by omega)
    have hd₂ : (d, n) ∈ placed userId c₂.world.log := by
      rw [hnewer₂]
      exact (placed_append hkept₂).subset hd₁
    have hinc : StableKeys.Increasing userId (ev :: c₂.world.log) := by
      have := hc₃.inv.1
      rwa [hworld, World.push_log] at this
    rw [StableKeys.Increasing, hguar (e, p) hin hout] at hinc
    exact List.rel_of_pairwise_cons hinc hd₂

end

section
open scoped Python.Utc

theorem topped_up_keysStable :
    KeysStable 1 (KeepsTop 1) ((Sample.start [Sample.article 7]).play
      (Sample.build ++ .env (.insertDocument (Sample.article 9)) :: .start (.generate 1 false) ::
        Sample.runs 2 30)) := by
  have hobeys : (Sample.start [Sample.article 7]).Obeys
      (fun c l => l.Answered ∧ NoExpiry c l ∧ TopKept 1 c l)
      (Sample.build ++ .env (.insertDocument (Sample.article 9)) :: .start (.generate 1 false) ::
        Sample.runs 2 30) := by
    decide +kernel
  exact keysStable_of_keepsTop (.start [Sample.article 7])
    (Steps.play (hobeys.mono fun c l h => ⟨h.1, LockOutlives.of_noExpiry h.2.1, h.2.2⟩))

/-- A score takes the last entry away, and a new article gets its position. -/
theorem position_reused :
    ¬ ∀ (db : Platform) (c : Conf service), Reach (fun c l => l.Answered ∧ LockOutlives c l) ⟨.empty, db⟩ c →
      KeysStable 1 (fun c l => l.Answered ∧ LockOutlives c l) c := by
  intro h
  have hbuild : (Sample.start [Sample.article 7, Sample.article 8]).Obeys
      (fun c l => l.Answered ∧ NoExpiry c l) Sample.build := by
    decide +kernel
  have hlater : ((Sample.start [Sample.article 7, Sample.article 8]).play Sample.build).Obeys
      (fun c l => (l.Answered ∧ NoExpiry c l) ∧ ¬ Empties 1 c l)
      (.start (.submitScore 1 (Sample.request 8)) :: Sample.runs 2 3 ++
        .env (.insertDocument (Sample.article 9)) :: .start (.generate 1 false) :: Sample.runs 3 30) := by
    decide +kernel
  have hstable := h _ _ (Steps.play (hbuild.mono fun c l h => ⟨h.1, LockOutlives.of_noExpiry h.2⟩))
  have heq := hstable.one_document _ 8 9 1
    (Steps.play (hlater.mono fun c l h => ⟨⟨h.1.1, LockOutlives.of_noExpiry h.1.2⟩, h.2⟩))
    (by decide +kernel) (by decide +kernel)
  cases heq

end

end TapeService
