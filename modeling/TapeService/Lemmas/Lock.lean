import TapeService.Lemmas.Outlines

/-!
# The lock of a user

Nobody takes the lock from its holder before it expires: `SET NX` does not overwrite it, and the release
script looks at the token.
-/

namespace TapeService

open Interleaving Interleaving.Program Interleaving.Protocol Python

/-- The calls of thread `i` that touch the lock with its own token only. -/
def OwnToken (userId : Int) (i : Nat) : Call → Prop
  | .setNxEx key t => key = lockKey userId → t = token i
  | .evalRelease key t => key = lockKey userId → t = token i
  | _ => True

theorem OwnToken.lock {userId : Int} {i : Nat} {c : Call} (h : OwnToken userId i c) {s : State} {j : Nat}
    (hj : j ≠ i) (hs : s.lock userId = some (token j)) : (exec c s).2.lock userId = some (token j) := by
  by_cases he : c.EditsLock userId
  · cases c with
    | setNxEx key t =>
        obtain rfl : key = lockKey userId := he
        rw [exec_setNxEx_lock, hs, Option.some_or]
    | evalRelease key t =>
        obtain rfl : key = lockKey userId := he
        obtain rfl : t = token i := h rfl
        rw [exec_evalRelease_lock, hs, if_neg]
        simpa using hj
    | _ => exact he.elim
  · rw [exec_lock he, hs]

/-- The calls among them that do not add to the tape. -/
def Harmless (userId : Int) (i : Nat) : Call → Prop
  | .zaddNx key _ _ => key ≠ entriesKey userId
  | .setNxEx key t => key = lockKey userId → t = token i
  | .evalRelease key t => key = lockKey userId → t = token i
  | _ => True

theorem Harmless.ownToken {userId : Int} {i : Nat} {c : Call} (h : Harmless userId i c) :
    OwnToken userId i c := by
  cases c <;> first | exact h | trivial

theorem Closes.harmless {c : Call} (h : Closes userId i c) : Harmless userId i c := by
  rcases h with h | rfl
  · cases c <;> trivial
  · exact fun _ => rfl

section
variable [DatetimeLib]

/-- The steps in which no lock expires while its holder is still running. -/
def LockOutlives (c : Conf service) (l : Label service) : Prop :=
  ∀ userId, l = .env (.expireLock userId) →
    ∀ i t, c.threads[i]? = some t → ¬ t.Ended → c.world.state.lock userId ≠ some (token i)

/-- Thread `i` holds the lock. -/
def HoldsLock (userId : Int) (i : Nat) (w : World service) : Prop :=
  w.state.lock userId = some (token i)

variable {userId : Int} {i : Nat}

/-- Every thread draws its own token. -/
theorem JobCall.ownToken {job : Job} {c : Call} (h : JobCall i job c) : OwnToken userId i c := by
  cases job with
  | generate u dirty =>
      cases c <;> first
        | trivial
        | exact fun _ => h.2
  | handle n =>
      obtain ⟨u, d, -, h⟩ := h
      cases c <;> trivial
  | _ => cases c <;> trivial

/-- Only the generations of the user add to the tape. -/
theorem JobCall.harmless {job : Job} (hjob : ∀ dirty, job ≠ .generate userId dirty) {c : Call}
    (h : JobCall i job c) : Harmless userId i c := by
  cases job with
  | generate u dirty =>
      have hu : u ≠ userId := fun hu => hjob dirty (hu ▸ rfl)
      cases c <;> first
        | trivial
        | exact h.elim
        | exact fun hk => hu (entriesKey_inj.mp (h.symm.trans hk))
        | exact fun _ => h.2
  | handle n =>
      obtain ⟨u, d, -, h⟩ := h
      cases c <;> trivial
  | _ => cases c <;> trivial

/-- A true answer to `SET NX` means that the lock is the thread's own. -/
theorem holdsLock_of_acquired {w : World service} {ev : Event service}
    (h : (exec (.setNxEx (lockKey userId) (token i)) w.state).1 = .ok true) :
    HoldsLock userId i (w.push ev (exec (.setNxEx (lockKey userId) (token i)) w.state).2) := by
  rw [exec_setNxEx_reply] at h
  have hfree : w.state.lock userId = none := by simpa using Except.ok.inj h
  show State.lock _ _ = _
  rw [World.push_state, exec_setNxEx_lock, hfree, Option.none_or]

/-- No lock expires in the step. -/
def NoExpiry (_ : Conf service) : Label service → Prop
  | .env (.expireLock _) => False
  | _ => True

instance (c : Conf service) (l : Label service) : Decidable (NoExpiry c l) :=
  match l with
  | .env (.expireLock _) => .isFalse id
  | .env (.insertDocument _) => .isTrue trivial
  | .env (.deleteDocument _) => .isTrue trivial
  | .env (.insertScore _) => .isTrue trivial
  | .start _ => .isTrue trivial
  | .run _ => .isTrue trivial
  | .fail _ _ _ => .isTrue trivial
  | .crash _ => .isTrue trivial

theorem LockOutlives.of_noExpiry {c : Conf service} {l : Label service} (h : NoExpiry c l) :
    LockOutlives c l := by
  rintro userId rfl
  exact h.elim

theorem LockOutlives.lock {c : Conf service} {e : Env} {s : State} (hok : LockOutlives c (.env e))
    (hs : e.apply c.world.state = some s) {t : Thread service} (hi : c.threads[i]? = some t)
    (hrun : ¬ t.Ended) (hl : c.world.state.lock userId = some (token i)) :
    s.lock userId = some (token i) := by
  refine (Env.apply_lock hs fun he => ?_).trans hl
  subst he
  exact hok userId rfl i t hi hrun hl

/-- What a protocol has to say about the holder of the lock, from `SET NX` to the last `ZADD`: once it has
emptied or measured the tape, it knows the position below which all positions are. -/
structure HolderOutline (P : Protocol service) (i : Nat) (userId : Int) where
  holds : World service → Prop
  below : Int → World service → Prop
  harmless : ∀ c, Harmless userId i c → P.Quiet i (fun _ => True) c
  acquire : P.Triple i (fun _ => True) (acquireLock userId (token i))
    (upon (fun got => if got then holds else fun _ => True) fun _ => True)
  holds_stable : P.Stable i holds
  holds_quiet : ∀ c : Call, ¬ c.EditsTape userId → ¬ c.EditsLock userId → P.Quiet i holds c
  below_stable : ∀ n, P.Stable i (below n)
  below_quiet : ∀ n, ∀ c : Call, ¬ c.EditsTape userId → ¬ c.EditsLock userId → P.Quiet i (below n) c
  delete : P.Triple i holds (deleteAllEntries userId) (upon (fun _ => below 0) fun _ => True)
  last : P.Triple i holds (maxPosition userId) (upon (fun last => below (last + 1)) fun _ => True)
  zadd : ∀ m n, P.Triple i (below n) (Client.zaddNx (entriesKey userId) m n)
    (upon (fun _ => below (n + 1)) fun _ => True)

/-- Whose `SET NX` is answered with true holds the lock. -/
theorem acquireLock_triple {P : Protocol service}
    (hq : P.Quiet i (fun _ => True) (.setNxEx (lockKey userId) (token i))) :
    P.Triple i (fun _ => True) (acquireLock userId (token i))
      (upon (fun got => if got then HoldsLock userId i else fun _ => True) fun _ => True) := by
  refine Triple.perform (Stable.true i) fun w hw _ hm r s hr => ?_
  obtain ⟨hg, -⟩ := hq w hw trivial hm r s hr
  refine ⟨hg, ?_⟩
  cases r with
  | error e => trivial
  | ok got =>
      cases got with
      | false => trivial
      | true =>
          obtain ⟨rfl, hgot⟩ := hr.of_ok
          exact holdsLock_of_acquired hgot

namespace HolderOutline

variable {P : Protocol service} (H : HolderOutline P i userId)
include H

theorem keeps_true {α : Type} {p : Prog α} (hp : p.Uses (Harmless userId i)) :
    P.Keeps i (fun _ => True) p :=
  Keeps.of_uses (Stable.true i) (hp.mono H.harmless)

theorem keeps_below {α : Type} {n : Int} {p : Prog α}
    (hp : p.Uses fun c : Call => ¬ c.EditsTape userId ∧ ¬ c.EditsLock userId) :
    P.Triple i (H.below n) p (upon (fun _ => H.below n) fun _ => True) :=
  (Keeps.of_uses (H.below_stable n) (hp.mono fun c hc => H.below_quiet n c hc.1 hc.2)).upon
    fun _ _ _ => trivial

/-- Outside of the part that holds the lock nothing is asked of the worker. -/
def generate (dirty : Bool) : GenerateOutline P i userId dirty where
  begun _ := True
  configured _ _ := True
  sourced _ _ _ := True
  wiped _ _ := True
  held _ _ := H.holds
  measured _ _ last := H.below (last + 1)
  ready _ _ base := H.below base.start
  adding _ _ position := H.below position
  announced _ := True
  ended _ := True
  failed _ := True
  getConfig := Triple.conseq (H.keeps_true (getConfig_uses trivial)) (fun _ _ h => h) fun r _ _ _ => by
    rcases r with e | _ | cfg <;> trivial
  getConfigSources _ := (H.keeps_true (getConfigSources_uses trivial)).upon fun _ _ h => h
  leave _ _ _ _ _ := trivial
  wipe _ _ := (H.keeps_true (uses_ask (c := .multiZcardDel (entriesKey userId)) trivial)).upon fun _ _ h => h
  wipe_clear _ _ := (H.keeps_true (uses_ask (c := .hset (cfgKey userId) _) trivial)).upon fun _ _ h => h
  acquire _ _ _ := H.acquire
  held_reports _ _ c hc := (Keeps.perform H.holds_stable (H.holds_quiet c
    (by cases c <;> simp_all [Reports, Call.EditsTape])
    (by cases c <;> simp_all [Reports, Call.EditsLock]))).upon fun _ _ _ => trivial
  delete _ _ _ := H.delete
  last _ _ _ := H.last
  page _ _ _ _ := H.keeps_below (listEntriesPage_uses (fun _ _ => ⟨id, id⟩) fun _ _ => ⟨id, id⟩)
  candidates _ _ _ _ := H.keeps_below (candidatesForUser_uses fun _ _ _ _ => ⟨id, id⟩)
  zadd _ docId _ position := H.zadd docId position
  announce added _ := Triple.conseq (H.keeps_true (Uses.forM added fun _ _ => uses_ask trivial))
    (fun _ _ _ => trivial) fun r _ _ _ => by cases r <;> trivial
  clear _ := (H.keeps_true (uses_ask (c := .hset (cfgKey userId) _) trivial)).upon fun _ _ h => h
  keep _ _ _ _ := trivial
  ended_failed _ _ _ := trivial
  ended_stable := Stable.true i
  ended_quiet _ hc := H.harmless _ (Closes.harmless hc)
  failed_stable := Stable.true i
  failed_quiet _ hc := H.harmless _ (Closes.harmless hc)

theorem body_triple {job : Job} : P.Triple i (fun _ => True) (Job.body i job) fun _ _ => True := by
  by_cases hjob : ∃ dirty, job = .generate userId dirty
  · obtain ⟨dirty, rfl⟩ := hjob
    exact Triple.map (H.generate dirty).triple fun _ _ _ _ => trivial
  · refine H.keeps_true ((Job.body_uses i job).mono fun c hc => JobCall.harmless (fun dirty h => ?_) hc)
    exact hjob ⟨dirty, h⟩

end HolderOutline

end

end TapeService
