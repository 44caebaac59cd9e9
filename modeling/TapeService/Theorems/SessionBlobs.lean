import TapeService.Lemmas.Conversions
import TapeService.Lemmas.Sessions

/-!
# The blob of a session

`validate` decodes whatever is stored under the key of a session. A blob that is no session should count as
none, but not everything that can be wrong with it is caught.
-/

namespace TapeService.Sessions

open Interleaving Interleaving.Program Python

section
variable [DatetimeLib]

/-! ## The property -/

/-- An object with a `user_id`, with the three times in ISO format, and with an end that is still to come. -/
def WellFormed (now : Datetime) (blob : Text) : Prop :=
  ∃ payload userId created expires, loads blob = .ok payload ∧ payload.intItem "user_id" = .ok userId ∧
    decodeTimes payload = .ok (created, expires) ∧ Datetime.le expires now = .ok false

section
variable [HashLib]

/-- The program returns no session and deletes the key. -/
def Drops (raw : String) (s : State) (p : Prog (Option Session)) : Prop :=
  p.eval exec s = (.ok none, s.put (key (hash raw)) none)

/-- The program returns the session that the blob describes, and writes the blob back with a new `last_seen`. -/
def Refreshes (settings : Settings) (raw : String) (now : Datetime) (blob : Text) (s : State)
    (p : Prog (Option Session)) : Prop :=
  ∃ payload payload' userId created expires, loads blob = .ok payload ∧ payload.intItem "user_id" = .ok userId ∧
    decodeTimes payload = .ok (created, expires) ∧
    payload.setItem "last_seen" (.str (DatetimeLib.isoformat now)) = .ok payload' ∧
    p.eval exec s = (.ok (some { userId, createdAt := created, expiresAt := expires, lastSeen := now }),
      s.put (key (hash raw)) (some (dumps payload', s.now + settings.idle)))

/-- Whatever the blob is, the program takes it for a session or for none. -/
structure Tolerates (settings : Settings) (raw : String) (now : Datetime) (blob : Text) (s : State)
    (p : Prog (Option Session)) : Prop where
  outcome : Refreshes settings raw now blob s p ∨ Drops raw s p
  malformed : ¬ WellFormed now blob → Drops raw s p

end

/-- Bytes that are no text, a text that is nested too deeply, an end without a time zone, and an end still to
come without a user to name or a TTL to set. -/
inductive Breaks (settings : Settings) (now : Datetime) : Text → Prop
  | binary (bytes : List UInt8) : Breaks settings now (.binary bytes)
  | nested (t : String) : Breaks settings now (.nested t)
  | naive {payload : Json} {created expires : Datetime} (htimes : decodeTimes payload = .ok (created, expires))
      (hnaive : DatetimeLib.aware expires = false) : Breaks settings now (.json payload)
  | unnamed {payload : Json} {created expires : Datetime} (htimes : decodeTimes payload = .ok (created, expires))
      (hlater : Datetime.le expires now = .ok false) (hid : ∀ u, payload.intItem "user_id" ≠ .ok u) :
      Breaks settings now (.json payload)
  | unstored {payload : Json} {created expires : Datetime} (htimes : decodeTimes payload = .ok (created, expires))
      (hlater : Datetime.le expires now = .ok false) (hidle : settings.sessionIdleTtlDays ≤ 0) :
      Breaks settings now (.json payload)

namespace Blobs

/-! ## The stages of `validate` -/

variable {settings : Settings} {s : State} {payload : Json} {created expires now : Datetime}

theorem fromisoformat_error {v : Json} {e : Python.Error} (h : Datetime.fromisoformat v = .error e) :
    e = .valueError ∨ e = .typeError := by
  unfold Datetime.fromisoformat at h
  split at h
  · split at h
    · cases h
    · cases h; exact .inl rfl
  · cases h; exact .inr rfl

theorem timeItem_error {α : Type} {key : String} {f : Datetime → Except Python.Error α} {e : Python.Error}
    (h : (payload.getItem key >>= fun v => Datetime.fromisoformat v >>= f) = .error e) :
    e ≠ .overflowError ∨ ∃ t, f t = .error e := by
  rcases raised_of_bind h with h | ⟨v, h⟩
  · left
    rcases Json.getItem_error h with rfl | rfl <;> decide
  rcases raised_of_bind h with h | ht
  · left
    rcases fromisoformat_error h with rfl | rfl <;> decide
  · exact .inr ht

/-- The second `except` names everything that reading the times can raise. -/
theorem decodeTimes_error {e : Python.Error} (h : decodeTimes payload = .error e) : e ≠ .overflowError := by
  rcases timeItem_error h with hcreated | ⟨created, h⟩
  · exact hcreated
  rcases timeItem_error h with hexpires | ⟨expires, h⟩
  · exact hexpires
  rcases timeItem_error h with hseen | ⟨seen, h⟩
  · exact hseen
  · cases h

/-- A payload whose times are read is an object. -/
theorem setItem_of_decodeTimes (h : decodeTimes payload = .ok (created, expires)) (x : Json) :
    ∃ payload', payload.setItem "last_seen" x = .ok payload' := by
  cases payload with
  | obj fields =>
      simp only [Json.setItem]
      split <;> exact ⟨_, rfl⟩
  | _ => cases h

theorem refresh_naive {h : String} (hnaive : DatetimeLib.aware expires = false) :
    (refresh settings h payload created expires now).eval exec s = (.error (.builtin .typeError), s) := by
  have hle : Datetime.le expires now = .error .typeError := by simp [Datetime.le, hnaive]
  unfold refresh
  rw [hle]
  rfl

theorem refresh_unstored {h : String} (htimes : decodeTimes payload = .ok (created, expires))
    (hlater : Datetime.le expires now = .ok false) (hidle : settings.sessionIdleTtlDays ≤ 0) :
    (refresh settings h payload created expires now).eval exec s = (.error .callFailed, s) := by
  obtain ⟨payload', hset⟩ := setItem_of_decodeTimes htimes (.str (DatetimeLib.isoformat now))
  have hrefused : (ask (.setEx (key h) (dumps payload') (settings.sessionIdleTtlDays * 86400))).eval exec s =
      (.error .callFailed, s) := by
    rw [ask, eval_perform, exec, if_neg (by omega)]
  unfold refresh
  rw [hlater, hset]
  exact eval_bind_error hrefused _

theorem refresh_later {h : String} (hlater : Datetime.le expires now = .ok false)
    (hidle : 0 < settings.sessionIdleTtlDays) {payload' : Json}
    (hset : payload.setItem "last_seen" (.str (DatetimeLib.isoformat now)) = .ok payload') :
    (refresh settings h payload created expires now).eval exec s =
      ((match payload.intItem "user_id" with
        | .ok userId => .ok (some { userId, createdAt := created, expiresAt := expires, lastSeen := now })
        | .error e => .error (.builtin e)),
        s.put (key h) (some (dumps payload', s.now + settings.idle))) := by
  have hid : decodeUserId payload' = payload.intItem "user_id" := by
    rw [decodeUserId, Json.getItem_setItem_of_ne hset (by decide)]
    rfl
  unfold refresh
  rw [hlater, hset]
  refine (eval_bind_ok (setEx_eval hidle) _).trans ?_
  rw [hid]
  cases payload.intItem "user_id" <;> rfl

section
variable [HashLib] {raw : String} {blob : Text}

omit [DatetimeLib] in
theorem get_eval (hblob : s.get (key (hash raw)) = some blob) :
    (ask (.get (key (hash raw)))).eval exec s = (decodeReply (some blob), s) := by
  rw [ask, eval_perform, exec, hblob]

theorem validate_binary {bytes : List UInt8} (hblob : s.get (key (hash raw)) = some (.binary bytes)) :
    (validate settings raw).eval exec s = (.error (.builtin .valueError), s) := by
  unfold validate
  exact eval_bind_error (get_eval hblob) _

theorem validate_nested {t : String} (hblob : s.get (key (hash raw)) = some (.nested t)) :
    (validate settings raw).eval exec s = (.error (.builtin .recursionError), s) := by
  unfold validate
  exact eval_bind_ok (get_eval hblob) _

theorem validate_other {t : String} (hblob : s.get (key (hash raw)) = some (.other t)) :
    Drops raw s (validate settings raw) := by
  unfold Drops validate
  exact eval_bind_ok (get_eval hblob) _

variable (hnow : DatetimeLib.utc s.now = some now)
include hnow

theorem validate_untimed {e : Python.Error} (hblob : s.get (key (hash raw)) = some (.json payload))
    (htimes : decodeTimes payload = .error e) : Drops raw s (validate settings raw) := by
  have hclock : (ask .now).eval exec s = (.ok s.now, s) := rfl
  have hcaught : e ≠ .overflowError := decodeTimes_error htimes
  unfold Drops validate
  refine (eval_bind_ok (get_eval hblob) _).trans ?_
  refine (eval_bind_ok hclock _).trans ?_
  refine (eval_bind_ok (utc_eval hnow) _).trans ?_
  rw [htimes]
  cases e with
  | overflowError => exact absurd rfl hcaught
  | _ => rfl

theorem validate_timed (hblob : s.get (key (hash raw)) = some (.json payload))
    (htimes : decodeTimes payload = .ok (created, expires)) :
    (validate settings raw).eval exec s =
      (refresh settings (hash raw) payload created expires now).eval exec s := by
  have hclock : (ask .now).eval exec s = (.ok s.now, s) := rfl
  unfold validate
  refine (eval_bind_ok (get_eval hblob) _).trans ?_
  refine (eval_bind_ok hclock _).trans ?_
  refine (eval_bind_ok (utc_eval hnow) _).trans ?_
  rw [htimes]

theorem validate_raises (hblob : s.get (key (hash raw)) = some blob) (hbreaks : Breaks settings now blob) :
    ∃ e s', (validate settings raw).eval exec s = (.error e, s') := by
  cases hbreaks with
  | binary bytes => exact ⟨_, _, validate_binary hblob⟩
  | nested t => exact ⟨_, _, validate_nested hblob⟩
  | naive htimes hnaive => exact ⟨_, _, (validate_timed hnow hblob htimes).trans (refresh_naive hnaive)⟩
  | unstored htimes hlater hidle =>
      exact ⟨_, _, (validate_timed hnow hblob htimes).trans (refresh_unstored htimes hlater hidle)⟩
  | @unnamed payload created expires htimes hlater hid =>
      rcases le_or_gt settings.sessionIdleTtlDays 0 with hidle | hidle
      · exact ⟨_, _, (validate_timed hnow hblob htimes).trans (refresh_unstored htimes hlater hidle)⟩
      obtain ⟨payload', hset⟩ := setItem_of_decodeTimes htimes (.str (DatetimeLib.isoformat now))
      have hrefresh := (validate_timed hnow hblob htimes).trans (refresh_later hlater hidle hset)
      cases huser : payload.intItem "user_id" with
      | ok u => exact absurd huser (hid u)
      | error e =>
          rw [huser] at hrefresh
          exact ⟨_, _, hrefresh⟩

theorem tolerates_of_not_breaks (hblob : s.get (key (hash raw)) = some blob) (hfine : ¬ Breaks settings now blob) :
    Tolerates settings raw now blob s (validate settings raw) := by
  cases blob with
  | binary bytes => exact absurd (.binary bytes) hfine
  | nested t => exact absurd (.nested t) hfine
  | other t => exact ⟨.inr (validate_other hblob), fun _ => validate_other hblob⟩
  | json payload =>
      cases htimes : decodeTimes payload with
      | error e => exact ⟨.inr (validate_untimed hnow hblob htimes), fun _ => validate_untimed hnow hblob htimes⟩
      | ok times =>
          obtain ⟨created, expires⟩ := times
          have hvalidate : (validate settings raw).eval exec s = _ := validate_timed hnow hblob htimes
          cases hle : Datetime.le expires now with
          | error e =>
              refine absurd (.naive htimes ?_) hfine
              by_contra haware
              rw [Datetime.le, if_pos (eq_true_of_ne_false haware)] at hle
              cases hle
          | ok ended =>
              cases ended with
              | true =>
                  have hdrops : Drops raw s (validate settings raw) := hvalidate.trans (refresh_over hle)
                  exact ⟨.inr hdrops, fun _ => hdrops⟩
              | false =>
                  have hidle : 0 < settings.sessionIdleTtlDays := by
                    by_contra hidle
                    exact hfine (.unstored htimes hle (not_lt.mp hidle))
                  cases huser : payload.intItem "user_id" with
                  | error e => exact absurd (.unnamed htimes hle fun u hu => by cases huser.symm.trans hu) hfine
                  | ok userId =>
                      obtain ⟨payload', hset⟩ :=
                        setItem_of_decodeTimes htimes (.str (DatetimeLib.isoformat now))
                      have hrefresh := hvalidate.trans (refresh_later hle hidle hset)
                      rw [huser] at hrefresh
                      exact ⟨.inl ⟨payload, payload', userId, created, expires, rfl, huser, htimes, hset, hrefresh⟩,
                        fun hill => absurd ⟨payload, userId, created, expires, rfl, huser, htimes, hle⟩ hill⟩

end

end Blobs

open Blobs

variable [HashLib] {settings : Settings} {raw : String} {blob : Text} {now : Datetime} {s : State}

theorem Tolerates.not_raises {p : Prog (Option Session)} (h : Tolerates settings raw now blob s p) {e : Exn}
    {s' : State} : p.eval exec s ≠ (.error e, s') := by
  intro hraises
  rcases h.outcome with ⟨_, _, _, _, _, -, -, -, -, heval⟩ | heval
  · cases heval.symm.trans hraises
  · cases heval.symm.trans hraises

theorem tolerates_iff (hblob : s.get (key (hash raw)) = some blob) (hnow : DatetimeLib.utc s.now = some now) :
    (Tolerates settings raw now blob s (validate settings raw) ∧
        Tolerates settings raw now blob s (validateAsync settings raw)) ↔ ¬ Breaks settings now blob := by
  constructor
  · rintro ⟨h, -⟩ hbreaks
    obtain ⟨e, s', hraises⟩ := validate_raises hnow hblob hbreaks
    exact h.not_raises hraises
  · intro hfine
    have h : Tolerates settings raw now blob s (validate settings raw) := tolerates_of_not_breaks hnow hblob hfine
    exact ⟨h, h⟩

end

/-! ## Examples -/

namespace Sample

open scoped Python.Utc

/-- The blob is stored for a day under the key of the sample session. -/
def storing (blob : Text) : State :=
  { now := 0, entries := Function.update (fun _ => none) (key (hash raw)) (some (blob, 86400 * 1000000)) }

theorem storing_get (blob : Text) : (storing blob).get (key (hash raw)) = some blob := by
  simp [storing, State.get]

/-- A session of nobody, for 30 days. -/
def nobody : Text :=
  .json (.obj [("created_at", .str "0"), ("expires_at", .str "2592000000000"), ("last_seen", .str "0")])

end Sample

open scoped Python.Utc Sessions.Sample in
/-- A text that is no JSON is deleted. -/
theorem scribble_tolerated :
    Tolerates .default Sample.raw (0 : Int) (.other "scribble") (Sample.storing (.other "scribble"))
        (validate .default Sample.raw) ∧
      Tolerates .default Sample.raw (0 : Int) (.other "scribble") (Sample.storing (.other "scribble"))
        (validateAsync .default Sample.raw) :=
  (tolerates_iff (Sample.storing_get _) rfl).mpr fun h => by cases h

open scoped Python.Utc Sessions.Sample in
/-- The `user_id` is missed only after the blob has been written back. -/
theorem nobody_raises :
    ¬ Tolerates .default Sample.raw (0 : Int) Sample.nobody (Sample.storing Sample.nobody)
        (validate .default Sample.raw) := by
  have hraises : ((validate .default Sample.raw).eval exec (Sample.storing Sample.nobody)).1 =
      .error (.builtin .keyError) := rfl
  exact fun h => h.not_raises (Prod.ext hraises rfl)

end TapeService.Sessions
