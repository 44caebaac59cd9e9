import TapeService.Interleaving.Sequential
import TapeService.Model.Sessions

/-!
# What the calls about a session do

`issue`, `validate` and `revoke` touch no key but that of their session. Over a session that has been stored by
`issue` or `validate`, each of them is computed here once.
-/

namespace TapeService.Sessions

open Interleaving Interleaving.Program Python

/-! ## The keys -/

theorem key_injective : Function.Injective key := by
  intro a b h
  simpa [key] using h

/-- The calls that write and delete no key but `k`. -/
def Touches (k : String) : Call → Prop
  | .setEx k' _ _ => k' = k
  | .delete k' => k' = k
  | _ => True

theorem exec_touches {k k' : String} {c : Call} (hc : Touches k c) (hk : k' ≠ k) (s : State) :
    (exec c s).2.entries k' = s.entries k' := by
  cases c with
  | get k'' => rfl
  | now => rfl
  | delete k'' =>
      obtain rfl : k'' = k := hc
      exact Function.update_of_ne hk _ _
  | setEx k'' v n =>
      obtain rfl : k'' = k := hc
      by_cases hn : 0 < n
      · simp [exec, State.put, hn, Function.update_of_ne hk]
      · simp [exec, hn]

theorem builtin_uses {α : Type} {C : Call → Prop} (x : Except Error α) : (builtin x).Uses C := by
  cases x <;> trivial

section
variable [DatetimeLib]

theorem refresh_touches {settings : Settings} {h : String} {payload : Json} {created expires now : Datetime} :
    (refresh settings h payload created expires now).Uses (Touches (key h)) := by
  refine Uses.bind (builtin_uses _) fun expired => ?_
  split
  · exact Uses.bind (Uses.perform rfl) fun _ => trivial
  · exact Uses.bind (builtin_uses _) fun _ => Uses.bind (Uses.perform rfl) fun _ =>
      Uses.bind (builtin_uses _) fun _ => trivial

variable [HashLib] {settings : Settings} {raw : String}

theorem validate_touches : (validate settings raw).Uses (Touches (key (hash raw))) := by
  refine Uses.bind (Uses.perform trivial) fun blob => ?_
  rcases blob with _ | blob
  · trivial
  · cases hl : loads blob with
    | error e =>
        simp only [hl]
        split
        · exact Uses.bind (Uses.perform rfl) fun _ => trivial
        · trivial
        · trivial
    | ok payload =>
        simp only [hl]
        refine Uses.bind (Uses.perform trivial) fun _ => Uses.bind (builtin_uses _) fun now => ?_
        split
        · trivial
        · exact Uses.bind (Uses.perform rfl) fun _ => trivial
        · exact refresh_touches

theorem issue_touches {userId : Int} : (issue settings raw userId).Uses (Touches (key (hash raw))) :=
  Uses.bind (Uses.perform trivial) fun _ => Uses.bind (builtin_uses _) fun _ =>
    Uses.bind (builtin_uses _) fun _ => Uses.bind (Uses.perform rfl) fun _ => trivial

theorem body_touches {i : Nat} {job : Job} : (job.body settings i).Uses (Touches job.key) := by
  cases job with
  | issue raw userId => exact Uses.bind issue_touches fun _ => trivial
  | validate raw => exact Uses.bind validate_touches fun _ => trivial
  | validateAsync raw => exact Uses.bind validate_touches fun _ => trivial
  | revoke raw => exact Uses.bind (Uses.perform rfl) fun _ => trivial

end

/-! ## The payload -/

/-- The idle TTL in microseconds. -/
def Settings.idle (settings : Settings) : Int := settings.sessionIdleTtlDays * 86400 * 1000000

/-- The absolute TTL in microseconds. -/
def Settings.absolute (settings : Settings) : Int := settings.sessionAbsoluteTtlDays * 86400 * 1000000

section
variable [DatetimeLib]

/-- The payload that `issue` and `validate` store. -/
def payload (userId : Int) (created expires seen : Datetime) : Json :=
  .obj [("user_id", .int userId), ("created_at", .str (DatetimeLib.isoformat created)),
    ("expires_at", .str (DatetimeLib.isoformat expires)), ("last_seen", .str (DatetimeLib.isoformat seen))]

variable {userId : Int} {created expires seen now : Datetime}

theorem fromisoformat_isoformat (t : Datetime) :
    Datetime.fromisoformat (.str (DatetimeLib.isoformat t)) = .ok t := by
  rw [Datetime.fromisoformat, DatetimeLib.fromisoformat_isoformat]

/-- What `validate` reads is what has been stored. -/
theorem decodeTimes_payload : decodeTimes (payload userId created expires seen) = .ok (created, expires) := by
  have hread : decodeTimes (payload userId created expires seen) =
      (Datetime.fromisoformat (.str (DatetimeLib.isoformat created)) >>= fun created =>
        Datetime.fromisoformat (.str (DatetimeLib.isoformat expires)) >>= fun expires =>
          Datetime.fromisoformat (.str (DatetimeLib.isoformat seen)) >>= fun _ => pure (created, expires)) := rfl
  rw [hread, fromisoformat_isoformat, fromisoformat_isoformat, fromisoformat_isoformat]
  rfl

theorem setItem_payload :
    (payload userId created expires seen).setItem "last_seen" (.str (DatetimeLib.isoformat now)) =
    .ok (payload userId created expires now) := by
  simp [payload, Json.setItem]

theorem decodeUserId_payload : decodeUserId (payload userId created expires seen) = .ok userId := rfl

end

/-! ## The clock -/

theorem get_of_live {s : State} {k : String} {v : Text} {t expiry : Int} (h : s.entries k = some (v, expiry))
    (ht : t < expiry) : State.get { s with now := t } k = some v := by
  simp [State.get, h, ht]

theorem get_of_over {s : State} {k : String} {t : Int}
    (h : ∀ v expiry, s.entries k = some (v, expiry) → expiry ≤ t) :
    State.get { s with now := t } k = none := by
  unfold State.get
  split
  · rename_i blob expiry hv
    exact if_neg (not_lt.mpr (h blob expiry hv))
  · rfl

theorem le_utc [DatetimeLib] {m n : Int} {expires now : Datetime} (hexpires : DatetimeLib.utc m = some expires)
    (hnow : DatetimeLib.utc n = some now) : Datetime.le expires now = .ok (decide (m ≤ n)) := by
  obtain ⟨haware, hm⟩ := DatetimeLib.utc_spec _ _ hexpires
  rw [Datetime.le, if_pos haware, hm, (DatetimeLib.utc_spec _ _ hnow).2]

/-! ## The programs -/

theorem setEx_eval {settings : Settings} {s : State} {k : String} {v : Text}
    (hidle : 0 < settings.sessionIdleTtlDays) :
    (ask (.setEx k v (settings.sessionIdleTtlDays * 86400))).eval exec s =
      (.ok (), s.put k (some (v, s.now + settings.idle))) := by
  rw [ask, eval_perform, exec, if_pos (by omega)]
  rfl

theorem revoke_eval [HashLib] {raw : String} {s : State} :
    (revoke raw).eval exec s = (.ok (), s.put (key (hash raw)) none) := rfl

section
variable [DatetimeLib] {settings : Settings} {s : State} {h : String} {userId : Int}
  {created expires seen now : Datetime}

theorem utc_eval {n : Int} (hn : DatetimeLib.utc n = some now) :
    (builtin (Datetime.utc n)).eval exec s = (.ok now, s) := by
  rw [Datetime.utc, hn]
  rfl

theorem refresh_over {p : Json} (hover : Datetime.le expires now = .ok true) :
    (refresh settings h p created expires now).eval exec s = (.ok none, s.put (key h) none) := by
  unfold refresh
  rw [hover]
  rfl

theorem refresh_renews (hidle : 0 < settings.sessionIdleTtlDays) (hover : Datetime.le expires now = .ok false) :
    (refresh settings h (payload userId created expires seen) created expires now).eval exec s =
      (.ok (some { userId, createdAt := created, expiresAt := expires, lastSeen := now }),
        s.put (key h) (some (dumps (payload userId created expires now), s.now + settings.idle))) := by
  unfold refresh
  rw [hover, setItem_payload]
  refine (eval_bind_ok (setEx_eval hidle) _).trans ?_
  rw [decodeUserId_payload]
  rfl

variable [HashLib] {raw : String}

theorem validate_absent (habsent : s.get (key (hash raw)) = none) :
    (validate settings raw).eval exec s = (.ok none, s) := by
  have hget : (ask (.get (key (hash raw)))).eval exec s = (.ok none, s) := by
    rw [ask, eval_perform, exec, habsent]
    rfl
  unfold validate
  exact eval_bind_ok hget _

theorem validate_present (hpresent : s.get (key (hash raw)) = some (dumps (payload userId created expires seen)))
    (hnow : DatetimeLib.utc s.now = some now) :
    (validate settings raw).eval exec s =
      (refresh settings (hash raw) (payload userId created expires seen) created expires now).eval exec s := by
  have hget : (ask (.get (key (hash raw)))).eval exec s =
      (.ok (some (dumps (payload userId created expires seen))), s) := by
    rw [ask, eval_perform, exec, hpresent]
    rfl
  have hclock : (ask .now).eval exec s = (.ok s.now, s) := rfl
  unfold validate
  refine (eval_bind_ok hget _).trans ?_
  refine (eval_bind_ok hclock _).trans ?_
  refine (eval_bind_ok (utc_eval hnow) _).trans ?_
  rw [decodeTimes_payload]

theorem issue_eval (hidle : 0 < settings.sessionIdleTtlDays) (hnow : DatetimeLib.utc s.now = some now)
    (hexpires : DatetimeLib.utc (s.now + settings.absolute) = some expires) :
    (issue settings raw userId).eval exec s =
      (.ok raw, s.put (key (hash raw)) (some (dumps (payload userId now expires now), s.now + settings.idle))) := by
  have hclock : (ask .now).eval exec s = (.ok s.now, s) := rfl
  unfold issue
  refine (eval_bind_ok hclock _).trans ?_
  refine (eval_bind_ok (utc_eval hnow) _).trans ?_
  refine (eval_bind_ok (utc_eval hexpires) _).trans ?_
  exact eval_bind_ok (setEx_eval hidle) _

/-- A session whose deadline no `datetime` can show is not issued. -/
theorem issue_overflow (hnow : DatetimeLib.utc s.now = some now)
    (hexpires : DatetimeLib.utc (s.now + settings.absolute) = none) :
    (issue settings raw userId).eval exec s = (.error (.builtin .overflowError), s) := by
  have hclock : (ask .now).eval exec s = (.ok s.now, s) := rfl
  have hraises : (builtin (Datetime.utc (s.now + settings.absolute))).eval exec s =
      (.error (.builtin .overflowError), s) := by
    rw [Datetime.utc, hexpires]
    rfl
  unfold issue
  refine (eval_bind_ok hclock _).trans ?_
  refine (eval_bind_ok (utc_eval hnow) _).trans ?_
  exact eval_bind_error hraises _

end

end TapeService.Sessions
