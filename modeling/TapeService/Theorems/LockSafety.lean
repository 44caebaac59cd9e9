import TapeService.Lemmas.Lock
import TapeService.Model.Expiry

/-!
# Lock safety

A thread that was granted the lock has it to itself until its TTL has elapsed or it asks for the release,
and nobody else touches it. A thread that has left the `with` block has not left its token behind, unless
Redis did not answer one of its two calls about the lock.
-/

namespace TapeService

open Interleaving Interleaving.Program Interleaving.Protocol Python

/-- The call asks for the release of the lock of the user. -/
def Call.ReleasesLock (userId : Int) : Call → Prop
  | .evalRelease key _ => key = lockKey userId
  | _ => False

namespace Timed

variable {s : Timed} {userId : Int} {ttl : Int} {c : Call}

theorem lease_eq {x : String × Int} :
    s.lease userId = some x ↔ s.base.lock userId = some x.1 ∧ s.deadline (lockKey userId) = x.2 := by
  obtain ⟨t, d⟩ := x
  simp [lease, State.lock]

@[simp] theorem exec_base_of_ne (h : ∀ key t, c ≠ .setNxEx key t) :
    (exec ttl c s).2 = { s with base := (TapeService.exec c s.base).2 } := by
  cases c with
  | setNxEx key t => exact absurd rfl (h key t)
  | _ => rfl

theorem exec_now : (exec ttl c s).2.now = s.now := by
  cases c with
  | setNxEx key t =>
      simp only [exec]
      split <;> rfl
  | _ => rfl

/-- Only the script that releases a lock takes it away, and nothing gives it another token or deadline. -/
theorem exec_lease (hc : ¬ c.ReleasesLock userId) {x : String × Int} (hx : s.lease userId = some x) :
    (exec ttl c s).2.lease userId = some x := by
  obtain ⟨hlock, hdl⟩ := lease_eq.mp hx
  rw [lease_eq]
  by_cases he : ∃ key t, c = .setNxEx key t
  · obtain ⟨key, t, rfl⟩ := he
    simp only [exec]
    split
    · by_cases hk : key = lockKey userId
      · subst hk
        have hsome : s.base.redis.strings (lockKey userId) = some x.1 := hlock
        rw [exec_setNxEx_lock, hlock]
        simp [hsome, hdl]
      · refine ⟨(exec_lock (c := .setNxEx key t) hk).trans hlock, ?_⟩
        simp only
        split
        · rw [put_of_ne _ _ (Ne.symm hk), hdl]
        · exact hdl
    · exact ⟨hlock, hdl⟩
  · rw [exec_base_of_ne fun key t h => he ⟨key, t, h⟩]
    refine ⟨(exec_lock fun hl => ?_).trans hlock, hdl⟩
    cases c with
    | setNxEx key t => exact he ⟨key, t, rfl⟩
    | evalRelease key t => exact hc hl
    | _ => exact hl

/-- The script does not take a lock away that holds another token. -/
theorem exec_evalRelease_lease {t : String} {x : String × Int} (hx : s.lease userId = some x) (ht : x.1 ≠ t) :
    (exec ttl (.evalRelease (lockKey userId) t) s).2.lease userId = some x := by
  obtain ⟨hlock, hdl⟩ := lease_eq.mp hx
  refine lease_eq.mpr ⟨?_, hdl⟩
  show (TapeService.exec _ s.base).2.lock userId = _
  rw [exec_evalRelease_lock, hlock, if_neg (by simpa using ht)]

theorem lease_of_granted {t : String}
    (h : (exec ttl (.setNxEx (lockKey userId) t) s).1 = .ok true) :
    (exec ttl (.setNxEx (lockKey userId) t) s).2.lease userId = some (t, s.now + ttl) := by
  simp only [exec] at h ⊢
  split at h
  · rename_i hpos
    have hfree : s.base.lock userId = none := by
      simpa [exec_setNxEx_reply] using h
    have hnone : s.base.redis.strings (lockKey userId) = none := hfree
    rw [if_pos hpos, lease_eq]
    exact ⟨by rw [exec_setNxEx_lock, hfree, Option.none_or], by simp [hnone, put_self]⟩
  · cases h

/-- A lock gets a token from nobody but who asks for it while it is free. -/
theorem exec_lock_new {t : String} (h : s.base.lock userId ≠ some t)
    (h' : (exec ttl c s).2.base.lock userId = some t) :
    c = .setNxEx (lockKey userId) t ∧ (exec ttl c s).1 ≍ (.ok true : Except Exn Bool) := by
  by_cases he : c.EditsLock userId
  · cases c with
    | setNxEx key t' =>
        obtain rfl : key = lockKey userId := he
        simp only [exec] at h' ⊢
        split at h'
        · rename_i hpos
          rw [exec_setNxEx_lock] at h'
          cases hl : s.base.lock userId with
          | none =>
              rw [hl, Option.none_or] at h'
              rw [if_pos hpos, exec_setNxEx_reply, hl, Option.some.inj h']
              exact ⟨rfl, HEq.rfl⟩
          | some t'' =>
              rw [hl, Option.some_or] at h'
              exact absurd (hl.trans h') h
        · exact absurd h' h
    | evalRelease key t' =>
        obtain rfl : key = lockKey userId := he
        rw [exec_base_of_ne (by simp), exec_evalRelease_lock] at h'
        split at h'
        · cases h'
        · exact absurd h' h
    | _ => exact he.elim
  · refine absurd ?_ h
    by_cases hset : ∃ key t', c = .setNxEx key t'
    · obtain ⟨key, t', rfl⟩ := hset
      simp only [exec] at h'
      split at h'
      · rwa [TapeService.exec_lock he] at h'
      · exact h'
    · rw [exec_base_of_ne fun key t' hc => hset ⟨key, t', hc⟩, TapeService.exec_lock he] at h'
      exact h'

theorem advance_lease {n : Nat} {x : String × Int} (hx : s.lease userId = some x) (hn : s.now + n < x.2) :
    (s.advance n).lease userId = some x := by
  obtain ⟨hlock, hdl⟩ := lease_eq.mp hx
  refine lease_eq.mpr ⟨?_, hdl⟩
  show (if _ then _ else _) = _
  rw [if_neg (by omega)]
  exact hlock

end Timed

theorem TimedEnv.apply_other {e : Env} {s s' : Timed} (h : (TimedEnv.other e).apply s = some s') :
    ∃ b, e.apply s.base = some b ∧ (∀ userId, e ≠ .expireLock userId) ∧ { s with base := b } = s' := by
  cases e with
  | expireLock u => cases h
  | insertDocument d =>
      obtain ⟨b, hb, rfl⟩ := Option.map_eq_some_iff.mp h
      exact ⟨b, hb, fun _ he => (nomatch he), rfl⟩
  | deleteDocument id =>
      obtain ⟨b, hb, rfl⟩ := Option.map_eq_some_iff.mp h
      exact ⟨b, hb, fun _ he => (nomatch he), rfl⟩
  | insertScore row =>
      cases h
      exact ⟨_, rfl, fun _ he => (nomatch he), rfl⟩

/-- The answer says that the lock of the user was free and now has the token. -/
def Call.grantsLock (userId : Int) (c : Call) (r : Except Exn c.Reply) : Bool :=
  match c, r with
  | .setNxEx key _, .ok true => key = lockKey userId
  | _, _ => false

theorem Call.eq_of_grantsLock {userId : Int} {c : Call} {r : Except Exn c.Reply} (h : c.grantsLock userId r) :
    ∃ t, c = .setNxEx (lockKey userId) t ∧ HEq r (Except.ok true : Except Exn Bool) := by
  cases c with
  | setNxEx key t =>
      rcases r with e | _ | _
      · cases h
      · cases h
      · exact ⟨t, by rw [of_decide_eq_true h], HEq.rfl⟩
  | _ => cases h

instance (userId : Int) : DecidablePred (Call.ReleasesLock userId)
  | .evalRelease key _ => inferInstanceAs (Decidable (key = lockKey userId))
  | .hgetall _ | .hset _ _ | .smembers _ | .multiReplaceSources _ _ _ | .zrange _ _ _ | .zrangebyscore _ _ _
  | .zcard _ | .zaddNx _ _ _ | .zrem _ _ | .multiZcardDel _ | .setNxEx _ _ | .exists _ | .incr _ | .xadd _ _
  | .publish _ _ | .candidates _ _ _ _ _ | .fetchByIds _ | .scoredAmong _ _ | .rolesFor _ _ | .roleNames _
  | .sourcesFor _ | .sourceNames _ | .scoreSave _ _ _ _ _ => .isFalse id

section
variable [DatetimeLib] {ttl : Int}

namespace LockSafety

/-- What an event makes of the time for which thread `i` has had the lock. -/
def tenure (userId : Int) (i : Nat) (ev : Event (timedService ttl)) (held : Option Int) : Option Int :=
  match ev with
  | .called j c r =>
      if j = i then
        if c.grantsLock userId r then some 0 else if c.ReleasesLock userId then none else held
      else held
  | .env (.tick n) => held.map fun d => d + n
  | _ => held

/-- How long ago thread `i` was granted the lock, unless it has asked for the release since. -/
def heldFor (userId : Int) (i : Nat) (log : List (Event (timedService ttl))) : Option Int :=
  log.foldr (tenure userId i) none

/-- Thread `i` has the lock, and the TTL has not elapsed. -/
def HoldsUnexpired (userId : Int) (i : Nat) (c : Conf (timedService ttl)) : Prop :=
  ∃ d, heldFor userId i c.world.log = some d ∧ d < ttl

variable {userId : Int} {i : Nat}

theorem tenure_called (ev : Event (timedService ttl)) {j : Nat} {q : Call} {r : Except Exn q.Reply}
    {held : Option Int} {d : Int} (hev : ev = .called j q r) (h : tenure userId i ev held = some d) :
    j = i ∧ q.grantsLock userId r ∧ d = 0 ∨ (j = i → ¬ q.ReleasesLock userId) ∧ held = some d := by
  subst hev
  simp only [tenure] at h
  split at h
  · split at h
    · rename_i hj hg
      exact .inl ⟨hj, hg, (Option.some.inj h).symm⟩
    · split at h
      · cases h
      · rename_i hr
        exact .inr ⟨fun _ => hr, h⟩
  · rename_i hj
    exact .inr ⟨fun h => absurd h hj, h⟩

/-- Nobody but the holder takes an unexpired lock away, and nobody changes it. -/
theorem step_lease {c c' : Conf (timedService ttl)} {l : Label (timedService ttl)} (h : Conf.StepTo c l c')
    {x : String × Int} (hx : c.world.state.lease userId = some x)
    (hcall : ∀ j q, c.call? l = some (j, q) → q.ReleasesLock userId →
      ∃ t, q = .evalRelease (lockKey userId) t ∧ x.1 ≠ t)
    (htick : ∀ n, l = .env (.tick n) → c.world.state.now + n < x.2) :
    c'.world.state.lease userId = some x := by
  have hexec : ∀ {j q}, c.call? l = some (j, q) → (Timed.exec ttl q c.world.state).2.lease userId = some x := by
    intro j q hq
    by_cases hr : q.ReleasesLock userId
    · obtain ⟨t, rfl, ht⟩ := hcall j q hq hr
      exact Timed.exec_evalRelease_lease hx ht
    · exact Timed.exec_lease hr hx
  cases h with
  | start hs =>
      obtain ⟨b, hb, rfl⟩ := Option.map_eq_some_iff.mp hs
      rw [Timed.lease_eq] at hx ⊢
      exact ⟨(Job.begin_lock hb).trans hx.1, hx.2⟩
  | run hj => exact hexec (Conf.call?_run hj rfl)
  | @fail j e done job q k hj =>
      cases done
      · exact hx
      · exact hexec (j := j) (by simp [Conf.call?, hj, Thread.next?])
  | crash hj => exact hx
  | @env e s hs =>
      cases e with
      | tick n =>
          cases hs
          exact Timed.advance_lease hx (htick n rfl)
      | other e =>
          obtain ⟨b, hb, hne, rfl⟩ := TimedEnv.apply_other hs
          rw [Timed.lease_eq] at hx ⊢
          exact ⟨(Env.apply_lock hb (hne userId)).trans hx.1, hx.2⟩

/-- Whose request was granted and who has not released since has the lock until the TTL has elapsed. -/
theorem heldFor_lease {start : Timed} {c : Conf (timedService ttl)} (h : Reach (fun _ _ => True) start c)
    {d : Int} (hd : heldFor userId i c.world.log = some d) (hlt : d < ttl) :
    c.world.state.lease userId = some (token i, c.world.state.now - d + ttl) := by
  induction h generalizing d with
  | refl => cases hd
  | @tail c₁ c₂ hreach hstep ih =>
      obtain ⟨l, hok, hl⟩ := hstep
      have hown : ∀ {j q}, c₁.call? l = some (j, q) → OwnToken userId j q := by
        intro j q hq
        obtain ⟨job, hjob⟩ := Reach.call Job.body_uses hreach hok hl hq
        exact hjob.ownToken
      have hkeep : heldFor userId i c₁.world.log = some d →
          (∀ j q, c₁.call? l = some (j, q) → j = i → ¬ q.ReleasesLock userId) →
          (∀ n, l ≠ .env (.tick n)) → c₂.world.state.now = c₁.world.state.now →
          c₂.world.state.lease userId = some (token i, c₂.world.state.now - d + ttl) := by
        intro hheld hcall htick hnow
        refine step_lease (Conf.stepTo_of_step hl) (hnow ▸ ih hheld hlt) (fun j q hq hr => ?_)
          fun n hn => absurd hn (htick n)
        have hj : j ≠ i := fun hj => hcall j q hq hj hr
        cases q with
        | evalRelease key t =>
            obtain rfl : key = lockKey userId := hr
            obtain rfl : t = token j := hown hq rfl
            exact ⟨_, rfl, by simpa using hj.symm⟩
        | _ => exact hr.elim
      cases Conf.stepTo_of_step hl with
      | start hs =>
          obtain ⟨b, -, rfl⟩ := Option.map_eq_some_iff.mp hs
          exact hkeep hd (by simp [Conf.call?]) (by simp) rfl
      | @run j job q k hj =>
          have hcall : c₁.call? (.run j) = some (j, q) := Conf.call?_run hj rfl
          rcases tenure_called (.called j q _ : Event (timedService ttl)) rfl hd with
            ⟨rfl, hgrant, rfl⟩ | ⟨hfree, hheld⟩
          · obtain ⟨t, rfl, hr⟩ := Call.eq_of_grantsLock hgrant
            obtain rfl : t = token j := hown hcall rfl
            show Timed.lease (Timed.exec _ _ _).2 _ = some (_, (Timed.exec _ _ _).2.now - 0 + ttl)
            rw [Timed.lease_of_granted (eq_of_heq hr), Timed.exec_now, Int.sub_zero]
          · refine hkeep hheld (fun j' q' hq hj' => ?_) (by simp) Timed.exec_now
            rw [hcall] at hq
            cases hq
            exact hfree hj'
      | @fail j e done job q k hj =>
          have hcall : c₁.call? (.fail j e done) = some (j, q) := by simp [Conf.call?, hj, Thread.next?]
          rcases tenure_called (.called j q (.error e) : Event (timedService ttl)) rfl hd with
            ⟨rfl, hgrant, rfl⟩ | ⟨hfree, hheld⟩
          · obtain ⟨t, rfl, hr⟩ := Call.eq_of_grantsLock hgrant
            cases hr
          · refine hkeep hheld (fun j' q' hq hj' => ?_) (by simp) ?_
            · rw [hcall] at hq
              cases hq
              exact hfree hj'
            · cases done
              · rfl
              · exact Timed.exec_now
      | crash hj => exact hkeep hd (by simp [Conf.call?]) (by simp) rfl
      | @env e s hs =>
          cases e with
          | tick n =>
              cases hs
              obtain ⟨d, hheld, rfl⟩ := Option.map_eq_some_iff.mp hd
              have hl := ih hheld (by omega)
              show (Timed.advance _ n).lease userId = some (_, c₁.world.state.now + n - (d + n) + ttl)
              rw [Timed.advance_lease hl (by simp only; omega)]
              congr 2
              omega
          | other e =>
              obtain ⟨b, -, -, rfl⟩ := TimedEnv.apply_other hs
              exact hkeep hd (by simp [Conf.call?]) (by simp) rfl

/-! ## Leaving the `with` block -/

/-- The acquisition by thread `i` may have been granted. -/
def Sought (userId : Int) (i : Nat) (log : List (Event (timedService ttl))) : Prop :=
  .called i (.setNxEx (lockKey userId) (token i)) (.ok true) ∈ log ∨
    ∃ e, .called i (.setNxEx (lockKey userId) (token i)) (.error e) ∈ log

/-- Thread `i` was told that its lock is released. -/
def Released (userId : Int) (i : Nat) (log : List (Event (timedService ttl))) : Prop :=
  .called i (.evalRelease (lockKey userId) (token i)) (.ok ()) ∈ log

/-- A token in the lock is that of a thread that sought it and was not told that it is released. -/
def protocol (ttl userId : Int) : Protocol (timedService ttl) where
  inv w := ∀ i, w.state.base.lock userId = some (token i) → Sought userId i w.log ∧ ¬ Released userId i w.log
  guar _ _ _ := True
  rely _ _ _ _ := True
  may _ _ _ := True
  faults := True

/-- Thread `i` has made no call about the lock. -/
def Outside (userId : Int) (i : Nat) (w : World (timedService ttl)) : Prop :=
  ∀ q r, .called i q r ∈ w.own i → ¬ q.EditsLock userId

/-- Thread `i` has asked for the release. -/
def AskedRelease (userId : Int) (i : Nat) (w : World (timedService ttl)) : Prop :=
  ∃ r, .called i (.evalRelease (lockKey userId) (token i)) r ∈ w.own i

/-- Thread `i` was not told that it has the lock, or has asked for its release. -/
def Done (userId : Int) (i : Nat) (w : World (timedService ttl)) : Prop :=
  .called i (.setNxEx (lockKey userId) (token i)) (.ok true) ∉ w.own i ∨ AskedRelease userId i w

/-- A call about the lock bears the token of its thread, and the acquisition comes before the release. -/
theorem inv_called {w : World (timedService ttl)} {q : Call} {r : Except Exn q.Reply} {s : Timed}
    (hw : (protocol ttl userId).inv w) (hown : OwnToken userId i q)
    (hfirst : q = .setNxEx (lockKey userId) (token i) → ¬ Released userId i w.log)
    (hr : (protocol ttl userId).Answers q w.state r s) : (protocol ttl userId).inv (w.push (.called i q r) s) := by
  intro j hj
  by_cases hold : w.state.base.lock userId = some (token j)
  · obtain ⟨hsought, hnot⟩ := hw j hold
    refine ⟨hsought.imp (List.mem_cons_of_mem _) fun ⟨e, he⟩ => ⟨e, List.mem_cons_of_mem _ he⟩, fun hrel => ?_⟩
    rcases List.mem_cons.mp hrel with he | hrel
    · cases he
      obtain ⟨rfl, -⟩ := hr.of_ok
      have hj : (TapeService.exec (.evalRelease (lockKey userId) (token i)) w.state.base).2.lock userId =
          some (token i) := hj
      rw [exec_evalRelease_lock, if_pos hold] at hj
      cases hj
    · exact hnot hrel
  · have hs : s = (Timed.exec ttl q w.state).2 := by
      refine hr.state.resolve_left fun hs => hold ?_
      rw [← hs]
      exact hj
    subst hs
    obtain ⟨rfl, hgot⟩ := Timed.exec_lock_new hold hj
    obtain rfl : j = i := token_inj.mp (hown rfl)
    refine ⟨?_, fun hrel => hfirst rfl ?_⟩
    · rcases r with e | _ | _
      · exact .inr ⟨e, List.mem_cons_self⟩
      · obtain ⟨-, hfalse⟩ := hr.of_ok
        rw [show (Timed.exec ttl _ _).1 = _ from hfalse] at hgot
        cases eq_of_heq hgot
      · exact .inl List.mem_cons_self
    · exact (List.mem_cons.mp hrel).resolve_left fun he => nomatch he

theorem inv_other {w : World (timedService ttl)} {ev : Event (timedService ttl)} {s : Timed}
    (hw : (protocol ttl userId).inv w)
    (hlock : ∀ t, s.base.lock userId = some t → w.state.base.lock userId = some t)
    (hev : ∀ j q r, ev ≠ .called j q r) : (protocol ttl userId).inv (w.push ev s) := by
  intro j hj
  obtain ⟨hsought, hnot⟩ := hw j (hlock _ hj)
  exact ⟨hsought.imp (List.mem_cons_of_mem _) fun ⟨e, he⟩ => ⟨e, List.mem_cons_of_mem _ he⟩,
    fun hrel => hnot ((List.mem_cons.mp hrel).resolve_left fun he => hev _ _ _ he.symm)⟩

theorem good_called {w : World (timedService ttl)} {q : Call} {r : Except Exn q.Reply} {s : Timed}
    (hw : (protocol ttl userId).inv w) (hown : OwnToken userId i q)
    (hfirst : q = .setNxEx (lockKey userId) (token i) → ¬ Released userId i w.log)
    (hr : (protocol ttl userId).Answers q w.state r s) :
    (protocol ttl userId).Good i w (.called i q r) s :=
  ⟨inv_called hw hown hfirst hr, trivial, fun _ _ => trivial⟩

theorem Outside.done {w : World (timedService ttl)} (h : Outside userId i w) : Done userId i w :=
  .inl fun hmem => h _ _ hmem rfl

theorem outside_not_released {w : World (timedService ttl)} (h : Outside userId i w) : ¬ Released userId i w.log :=
  fun hrel => h _ _ (World.mem_own.mpr ⟨hrel, rfl⟩) rfl

theorem keeps {A : World (timedService ttl) → Prop} (hstable : (protocol ttl userId).Stable i A)
    (hA : ∀ w q r s, ¬ q.EditsLock userId → A w → A (w.push (.called i q r) s)) {α : Type} {p : Prog α}
    (hp : p.Uses fun q : Call => ¬ q.EditsLock userId) : (protocol ttl userId).Keeps i A p := by
  refine Keeps.of_uses hstable (hp.mono fun q hq w hw h _ r s hr => ⟨good_called hw ?_ ?_ hr, hA w q r s hq h⟩)
  · cases q <;> first | trivial | exact fun hk => absurd hk hq
  · rintro rfl
    exact absurd rfl hq

theorem stable_outside : (protocol ttl userId).Stable i (Outside userId i) :=
  Stable.own fun own : List (Event (timedService ttl)) => ∀ (q : Call) r, .called i q r ∈ own → ¬ q.EditsLock userId

theorem stable_done : (protocol ttl userId).Stable i (Done userId i) :=
  Stable.own fun own : List (Event (timedService ttl)) =>
    .called i (.setNxEx (lockKey userId) (token i)) (.ok true) ∉ own ∨
    ∃ r, .called i (.evalRelease (lockKey userId) (token i)) r ∈ own

theorem keeps_outside {α : Type} {p : Prog α} (hp : p.Uses fun q : Call => ¬ q.EditsLock userId) :
    (protocol ttl userId).Keeps i (Outside userId i) p := by
  refine keeps stable_outside ?_ hp
  intro w q r s hq h q' r' hmem
  rw [World.own_push rfl] at hmem
  rcases List.mem_cons.mp hmem with he | hmem
  · cases he
    exact hq
  · exact h q' r' hmem

theorem keeps_done {α : Type} {p : Prog α} (hp : p.Uses fun q : Call => ¬ q.EditsLock userId) :
    (protocol ttl userId).Keeps i (Done userId i) p := by
  refine keeps stable_done ?_ hp
  intro w q r s hq h
  unfold Done AskedRelease
  rw [World.own_push rfl]
  refine h.imp (fun hnot hmem => ?_) fun ⟨r', hr'⟩ => ⟨r', List.mem_cons_of_mem _ hr'⟩
  rcases List.mem_cons.mp hmem with he | hmem
  · cases he
    exact hq rfl
  · exact hnot hmem

theorem acquire_triple : (protocol ttl userId).Triple i (Outside userId i)
    (acquireLock userId (token i))
    (upon (fun got => if got then fun _ => True else Done userId i) (Done userId i)) := by
  refine Triple.perform stable_outside fun w hw h _ r s hr => ?_
  refine ⟨good_called hw (fun _ => rfl) (fun _ => outside_not_released h) hr, ?_⟩
  have hnot : r ≠ .ok true → Done userId i (w.push (.called i (.setNxEx (lockKey userId) (token i)) r) s) := by
    intro hne
    refine .inl fun hmem => ?_
    rw [World.own_push rfl] at hmem
    rcases List.mem_cons.mp hmem with he | hmem
    · cases he
      exact hne rfl
    · exact h _ _ hmem rfl
  rcases r with e | _ | _
  · exact hnot nofun
  · exact hnot nofun
  · trivial

theorem release_triple : (protocol ttl userId).Triple i (fun _ => True)
    (Client.evalRelease (lockKey userId) (token i)) fun _ => Done userId i := by
  refine Triple.perform (Stable.true i) fun w hw _ _ r s hr =>
    ⟨good_called hw (fun _ => rfl) (fun he => nomatch he) hr, .inr ⟨r, ?_⟩⟩
  rw [World.own_push rfl]
  exact List.mem_cons_self

theorem regenerate_keeps {dirty : Bool} {cfg : TapeConfig} {sources : List Int} :
    (protocol ttl userId).Keeps i (fun _ => True) (regenerate userId dirty cfg sources) := by
  exact keeps (Stable.true i) (fun _ _ _ _ _ _ => trivial) ((regenerate_uses (t := token i)).mono fun _ h => h.2)

theorem generateForUser_triple {dirty : Bool} : (protocol ttl userId).Triple i (Outside userId i)
    (generateForUser (token i) userId dirty) fun _ => Done userId i := by
  refine Triple.bind (keeps_outside (getConfig_uses id)) (fun cfg => ?_) fun _ _ _ h => h.done
  cases cfg with
  | none => exact Triple.ret fun _ _ h => h.done
  | some cfg =>
      refine Triple.bind (keeps_outside (getConfigSources_uses id)) (fun sources => ?_) fun _ _ _ h => h.done
      split
      · refine Triple.conseq (keeps_outside ?_) (fun _ _ h => h) fun _ _ _ h => h.done
        split
        · exact Uses.bind (uses_ask id) fun _ => Uses.bind (uses_ask id) fun _ => trivial
        · trivial
      · refine Triple.bind acquire_triple (fun got => ?_) fun _ _ _ h => h
        cases got with
        | false => exact keeps_done (Uses.tryFinally trivial trivial)
        | true =>
            have hbody : (protocol ttl userId).Triple i (fun _ => True)
                (withLock userId (token i) true (regenerate userId dirty cfg sources)) fun _ => Done userId i :=
              Triple.tryFinally regenerate_keeps fun _ =>
                Triple.conseq release_triple (fun _ _ h => h) fun r _ _ h => by
                cases r <;> exact h
            exact Triple.tryFinally hbody fun _ => Triple.conseq (keeps_done (uses_ask id)) (fun _ _ h => h)
              fun r _ _ h => by cases r <;> exact h

theorem body_triple {job : Job} : (protocol ttl userId).Triple i (Outside userId i) (Job.body i job)
    fun _ => Done userId i := by
  by_cases hjob : ∃ dirty, job = .generate userId dirty
  · obtain ⟨dirty, rfl⟩ := hjob
    exact Triple.map generateForUser_triple fun _ _ _ h => h
  · have hcalls : ∀ q, JobCall i job q → ¬ q.EditsLock userId := by
      intro q hq he
      refine hjob ?_
      cases job with
      | generate u dirty =>
          cases q with
          | setNxEx key t => exact ⟨dirty, by rw [lockKey_inj.mp (hq.1.symm.trans he)]⟩
          | evalRelease key t => exact ⟨dirty, by rw [lockKey_inj.mp (hq.1.symm.trans he)]⟩
          | _ => exact he.elim
      | handle n =>
          obtain ⟨u, d, -, hq⟩ := hq
          cases q <;> first | exact he.elim | exact hq.elim
      | _ => cases q <;> first | exact he.elim | exact hq.elim
    exact Triple.conseq (keeps_outside ((Job.body_uses i job).mono hcalls)) (fun _ _ h => h) fun _ _ _ h => h.done

def outline (ttl userId : Int) : Outline (timedService ttl) fun _ _ => True where
  toProtocol := protocol ttl userId
  post i _ _ w := Done userId i w
  post_stable _ _ _ w ev s hw hw' hev hg h := stable_done w ev s hw hw' hev hg trivial h
  may_ok _ _ _ _ _ _ _ := trivial
  may_fail _ _ _ _ _ _ _ _ _ := ⟨trivial, trivial⟩
  start_ok c job s _ hw hfresh hs := by
    obtain ⟨b, hb, rfl⟩ := Option.map_eq_some_iff.mp hs
    have hinv : (protocol ttl userId).inv (c.world.push (.started c.threads.length job)
        { c.world.state with base := b }) :=
      inv_other hw (fun t ht => (Job.begin_lock hb).symm.trans ht) fun _ _ _ => nofun
    refine ⟨⟨hinv, trivial, fun _ _ => trivial⟩, body_triple _ hinv fun q r hmem => ?_⟩
    rw [World.own_push rfl, World.own_of_fresh hfresh] at hmem
    simp at hmem
  crash_ok c i _ hw := ⟨inv_other hw (fun _ h => h) fun _ _ _ => nofun, trivial, fun _ _ => trivial⟩
  env_ok c e s _ hw hs := by
    refine ⟨inv_other hw (fun t ht => ?_) fun _ _ _ => nofun, trivial, fun _ _ _ _ => trivial⟩
    cases e with
    | tick n =>
        cases hs
        have ht : (if c.world.state.deadline (lockKey userId) ≤ c.world.state.now + n then none
          else c.world.state.base.lock userId) = some t := ht
        split at ht
        · cases ht
        · exact ht
    | other e =>
        obtain ⟨b, hb, hne, rfl⟩ := TimedEnv.apply_other hs
        exact (Env.apply_lock hb (hne userId)).symm.trans ht

section
variable {userId : Int} {start : Timed} {c : Conf (timedService ttl)} (h : Reach (fun _ _ => True) start c)
include h

theorem HoldsUnexpired.lock {i : Nat} (hi : HoldsUnexpired userId i c) :
    c.world.state.base.lock userId = some (token i) := by
  obtain ⟨d, hd, hlt⟩ := hi
  exact (Timed.lease_eq.mp (heldFor_lease h hd hlt)).1

theorem HoldsUnexpired.unique {i j : Nat} (hi : HoldsUnexpired userId i c) (hj : HoldsUnexpired userId j c) :
    j = i :=
  token_inj.mp (Option.some.inj ((hj.lock h).symm.trans (hi.lock h)))

/-- A lock goes when its holder asks for the release or its TTL elapses, and is as it was before that. -/
theorem lease_kept {i : Nat} {expiry : Int} (hx : c.world.state.lease userId = some (token i, expiry))
    {l : Label (timedService ttl)} {c' : Conf (timedService ttl)} (hl : c.step l = some c') :
    c'.world.state.lease userId = some (token i, expiry) ∨
      (∃ q, c.call? l = some (i, q) ∧ q.ReleasesLock userId) ∨
      ∃ n, l = .env (.tick n) ∧ expiry ≤ c'.world.state.now := by
  by_cases hrel : ∃ q, c.call? l = some (i, q) ∧ q.ReleasesLock userId
  · exact .inr (.inl hrel)
  by_cases htick : ∃ n, l = .env (.tick n) ∧ expiry ≤ c'.world.state.now
  · exact .inr (.inr htick)
  refine .inl (step_lease (Conf.stepTo_of_step hl) hx (fun j q hq hr => ?_) fun n hn => ?_)
  · obtain ⟨job, hjob⟩ := Reach.call Job.body_uses h trivial hl hq
    cases q with
    | evalRelease key t =>
        obtain rfl : key = lockKey userId := hr
        obtain rfl : t = token j := hjob.ownToken rfl
        refine ⟨_, rfl, fun he => hrel ⟨.evalRelease (lockKey userId) (token j), ?_, rfl⟩⟩
        rw [token_inj.mp he]
        exact hq
    | _ => exact hr.elim
  · subst hn
    cases hl
    exact not_le.mp fun hle => htick ⟨n, rfl, hle⟩

end

/-- Redis did not answer thread `i` when it asked for the lock of the user, or for its release. -/
def LockUnanswered (userId : Int) (i : Nat) (c : Conf (timedService ttl)) : Prop :=
  ∃ q e, .called i q (.error e) ∈ c.world.log ∧ q.EditsLock userId

/-- Thread `i` is still before or in its `with` block, unless it has died there. -/
def NotLeft (userId : Int) (i : Nat) (c : Conf (timedService ttl)) : Prop :=
  (∀ t r, c.threads[i]? = some t → t.outcome? ≠ some r) ∧ ∀ q r, .called i q r ∈ c.world.log → ¬ q.ReleasesLock userId

theorem notLeft_of_lock {userId : Int} {start : Timed} (hstart : ∀ i, start.base.lock userId ≠ some (token i))
    {c : Conf (timedService ttl)} (h : Reach (fun _ _ => True) start c) {i : Nat}
    (hl : c.world.state.base.lock userId = some (token i)) : NotLeft userId i c ∨ LockUnanswered userId i c := by
  have hinit : (outline ttl userId).inv ⟨start, []⟩ := fun j hj => absurd hj (hstart j)
  have hO := Outline.holds_of_reach hinit h
  obtain ⟨hsought, hnot⟩ := hO.inv i hl
  by_cases hun : LockUnanswered userId i c
  · exact .inr hun
  have hasked : ¬ AskedRelease userId i c.world := by
    rintro ⟨r, hr⟩
    have hr := (World.mem_own.mp hr).1
    cases r with
    | ok => exact hnot hr
    | error e => exact hun ⟨_, e, hr, rfl⟩
  refine .inl ⟨fun t r ht hr => ?_, fun q r hq hrel => ?_⟩
  · have hdone : Done userId i c.world := hO.outcome ht hr
    have hgranted := hsought.resolve_right fun ⟨e, he⟩ => hun ⟨_, e, he, rfl⟩
    exact hdone.elim (fun hn => hn (World.mem_own.mpr ⟨hgranted, rfl⟩)) hasked
  · obtain ⟨t, -, hjob⟩ := h.called Job.body_uses hq
    cases q with
    | evalRelease key t =>
        obtain rfl : key = lockKey userId := hrel
        obtain rfl : t = token i := hjob.ownToken rfl
        exact hasked ⟨r, World.mem_own.mpr ⟨hq, rfl⟩⟩
    | _ => exact hrel.elim

end LockSafety

open LockSafety

/-- The holder of an unexpired lock is alone, nobody else touches its lock, and whoever has left the `with`
block has not left its token behind. -/
theorem lock_safe {userId : Int} {start : Timed} (hstart : ∀ i, start.base.lock userId ≠ some (token i))
    {c : Conf (timedService ttl)} (h : Reach (fun _ _ => True) start c) :
    (∀ i, HoldsUnexpired userId i c → c.world.state.base.lock userId = some (token i) ∧
      ∀ j, HoldsUnexpired userId j c → j = i) ∧
    (∀ i expiry, c.world.state.lease userId = some (token i, expiry) → ∀ l c', c.step l = some c' →
      c'.world.state.lease userId = some (token i, expiry) ∨
        (∃ q, c.call? l = some (i, q) ∧ q.ReleasesLock userId) ∨
        ∃ n, l = .env (.tick n) ∧ expiry ≤ c'.world.state.now) ∧
    ∀ i, c.world.state.base.lock userId = some (token i) → NotLeft userId i c ∨ LockUnanswered userId i c :=
  ⟨fun _ hi => ⟨hi.lock h, fun _ hj => hi.unique h hj⟩, fun _ _ hx _ _ hl => lease_kept h hx hl,
    fun _ hl => notLeft_of_lock hstart h hl⟩

end

section
open LockSafety
open scoped Python.Utc

def Sample.clocked : Timed :=
  { base := { redis := .empty, db := .start [Sample.article 7] }, now := 0, deadline := fun _ => 0 }

/-- The user selects the source, and a generation makes its first `n` calls. -/
def Sample.locking (n : Nat) : List (Label (timedService 600)) :=
  .start (.writeConfig 1 (Sample.update .asc [1])) :: List.replicate 9 (.run 0) ++
    .start (.generate 1 true) :: List.replicate n (.run 1)

theorem Sample.reach_play (ls : List (Label (timedService 600))) :
    Reach (fun _ _ => True) Sample.clocked ((Conf.init Sample.clocked).play ls) :=
  Steps.play (Conf.Obeys.of_labels fun _ _ _ => trivial)

/-- The holder is slow, but its TTL has not elapsed. -/
def Sample.locked : Conf (timedService 600) :=
  (Conf.init Sample.clocked).play (Sample.locking 5 ++ [.env (.tick 599)])

theorem locked_holder_unique :
    HoldsUnexpired 1 1 Sample.locked ∧ ∀ j, HoldsUnexpired 1 j Sample.locked → j = 1 := by
  have hheld : heldFor 1 1 Sample.locked.world.log = some 599 := by decide +kernel
  have hholds : HoldsUnexpired 1 1 Sample.locked := ⟨599, hheld, by decide⟩
  have hfree : ∀ i, Sample.clocked.base.lock 1 ≠ some (token i) := fun _ => nofun
  have hreach : Reach (fun _ _ => True) Sample.clocked Sample.locked := Sample.reach_play _
  exact ⟨hholds, ((lock_safe hfree hreach).1 1 hholds).2⟩

/-- The call for the release does not get through. -/
def Sample.unreleased : Conf (timedService 600) :=
  (Conf.init Sample.clocked).play (Sample.locking 15 ++ [.fail 1 .callFailed false, .run 1])

theorem unreleased_keeps_token :
    ¬ ∀ c : Conf (timedService 600), Reach (fun _ _ => True) Sample.clocked c →
      ∀ i t r, c.threads[i]? = some t → t.outcome? = some r → c.world.state.base.lock 1 ≠ some (token i) := by
  intro hclaim
  have hout : (Sample.unreleased.threads[1]?.bind Thread.outcome?).isSome := by decide +kernel
  have hlock : Sample.unreleased.world.state.base.lock 1 = some (token 1) := by decide +kernel
  obtain ⟨r, hr⟩ := Option.isSome_iff_exists.mp hout
  obtain ⟨t, ht, hr⟩ := Option.bind_eq_some_iff.mp hr
  exact hclaim _ (Sample.reach_play _) 1 t r ht hr hlock

end

end TapeService
