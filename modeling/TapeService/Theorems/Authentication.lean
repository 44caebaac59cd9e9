import TapeService.Lemmas.Web

/-!
# Authentication

However the requests, the worker and the clock interleave, and whatever fails on the way, the service acts for
a user only in requests that carry the id of a session that a login of that user has been issued, and only
before the absolute deadline of the session.
-/

namespace TapeService.Web

open Interleaving Interleaving.Program Interleaving.Protocol Python

section
variable [DatetimeLib] [HashLib] {settings : Settings}

/-! ## What the log shows -/

/-- Thread `k` was asked to log in, found the token to be that of an expert, and read the clock at `t₀` to issue
a session under the id `raw`. -/
def LogIn (log : List (Event (web settings))) (k : Nat) (raw : String) (userId t₀ : Int) : Prop :=
  ∃ req fwd host rows user, .started k (.inr (.login req fwd host raw)) ∈ log ∧
    .called k (.inr (.inr (.authByToken req.token))) (.ok rows) ∈ log ∧ authedUser rows = some user ∧
    user.isExpert = true ∧ user.userId = userId ∧ .called k (.inr (.inl .now)) (.ok t₀) ∈ log

/-- Thread `i` has found a session of the user under the hash, and read the clock before the session was over. -/
def Valid (log : List (Event (web settings))) (i : Nat) (h : String) (userId : Int) : Prop :=
  ∃ k raw t₀ t, Sessions.hash raw = h ∧ LogIn log k raw userId t₀ ∧ .called i (.inr (.inl .now)) (.ok t) ∈ log ∧
    t < t₀ + settings.absolute

/-- The session id that thread `i` was given is that of a session of the user. -/
def Admitted (log : List (Event (web settings))) (i : Nat) (cookie : Option String) (userId : Int) : Prop :=
  ∃ raw, cookie = some raw ∧ Valid log i (Sessions.hash raw) userId

/-- The calls that a thread may make: those of the handler of its request, once its user is admitted, and the
subscription to the channel of that user. -/
def Allowed (log : List (Event (web settings))) (i : Nat) (job : (web settings).Job) (q : (web settings).Call) :
    Prop :=
  match job, q with
  | .inr req, .inl q => ∃ userId job', req.job? userId = some job' ∧ JobCall i job' q ∧
      Admitted log i req.cookie? userId
  | .inr req, .inr (.inr (.subscribe _ channel)) => ∃ userId, channel = channelFor userId ∧
      Admitted log i req.cookie? userId
  | _, _ => True

/-- A request that is answered with more than a refusal has been admitted. -/
def Answered (log : List (Event (web settings))) (i : Nat) (req : Request) : Out ⊕ Answer → Prop
  | .inl _ => ∃ userId, Admitted log i req.cookie? userId
  | .inr (.me userId) => Admitted log i req.cookie? userId
  | .inr (.loggedOut _) => ∃ userId, Admitted log i req.cookie? userId
  | .inr .disconnected => ∃ userId, Admitted log i req.cookie? userId
  | .inr (.loggedIn _ _) => True
  | .inr .refused => True

namespace Authentication

variable {log log' : List (Event (web settings))} {i k : Nat} {raw : String} {userId t₀ : Int}

theorem LogIn.mono (hsub : log ⊆ log') (h : LogIn log k raw userId t₀) : LogIn log' k raw userId t₀ := by
  obtain ⟨req, fwd, host, rows, user, hs, hc, hu, he, hid, hn⟩ := h
  exact ⟨req, fwd, host, rows, user, hsub hs, hsub hc, hu, he, hid, hsub hn⟩

theorem Valid.mono (hsub : log ⊆ log') {h : String} (hv : Valid log i h userId) : Valid log' i h userId := by
  obtain ⟨k, raw, t₀, t, hh, hl, hn, ht⟩ := hv
  exact ⟨k, raw, t₀, t, hh, LogIn.mono hsub hl, hsub hn, ht⟩

theorem Admitted.mono (hsub : log ⊆ log') {cookie : Option String} (h : Admitted log i cookie userId) :
    Admitted log' i cookie userId := by
  obtain ⟨raw, hc, hv⟩ := h
  exact ⟨raw, hc, Valid.mono hsub hv⟩

theorem Allowed.mono (hsub : log ⊆ log') {job : (web settings).Job} {q : (web settings).Call}
    (h : Allowed log i job q) : Allowed log' i job q := by
  unfold Allowed at h ⊢
  split at h
  · obtain ⟨u, job', hj, hq, ha⟩ := h
    exact ⟨u, job', hj, hq, Admitted.mono hsub ha⟩
  · obtain ⟨u, hch, ha⟩ := h
    exact ⟨u, hch, Admitted.mono hsub ha⟩
  · trivial

theorem Answered.mono (hsub : log ⊆ log') {req : Request} {out : Out ⊕ Answer} (h : Answered log i req out) :
    Answered log' i req out := by
  unfold Answered at h ⊢
  split at h
  all_goals first | exact Admitted.mono hsub h | exact h.imp fun _ => Admitted.mono hsub | trivial

/-- What Redis holds under the key of a session is the payload of a login. -/
def Stored (log : List (Event (web settings))) (key : String) (blob : Text) : Prop :=
  ∃ k raw userId t₀ created expires seen, key = Sessions.key (Sessions.hash raw) ∧ LogIn log k raw userId t₀ ∧
    DatetimeLib.utc t₀ = some created ∧ DatetimeLib.utc (t₀ + settings.absolute) = some expires ∧
    blob = dumps (Sessions.payload userId created expires seen)

theorem Stored.mono (hsub : log ⊆ log') {key : String} {blob : Text} (h : Stored log key blob) :
    Stored log' key blob := by
  obtain ⟨k, raw, u, t₀, created, expires, seen, hk, hl, hc, he, hb⟩ := h
  exact ⟨k, raw, u, t₀, created, expires, seen, hk, LogIn.mono hsub hl, hc, he, hb⟩

/-- Thread `i` has had no answer from `auth_by_token`. -/
def Unasked (log : List (Event (web settings))) (i : Nat) : Prop :=
  ∀ token rows, .called i (.inr (.inr (.authByToken token))) (.ok rows) ∉ log

structure Inv (w : World (web settings)) : Prop where
  stored : ∀ key blob expiry, w.state.2.sessions.entries key = some (blob, expiry) → Stored w.log key blob
  calls : ∀ i q r, .called i q r ∈ w.log → ∃ job, .started i job ∈ w.log ∧ Allowed w.log i job q
  once : ∀ i token rows token' rows', .called i (.inr (.inr (.authByToken token))) (.ok rows) ∈ w.log →
    .called i (.inr (.inr (.authByToken token'))) (.ok rows') ∈ w.log → rows = rows'

def protocol (settings : Settings) : Protocol (web settings) where
  inv := Inv
  guar _ _ _ := True
  rely _ _ _ _ := True
  may _ _ _ := True
  faults := True

variable {w : World (web settings)} {ev : Event (web settings)} {s : (web settings).State}

theorem Inv.push (h : Inv w)
    (hstored : ∀ key x, s.2.sessions.entries key = some x →
      w.state.2.sessions.entries key = some x ∨ Stored w.log key x.1)
    (hcall : ∀ i q r, ev = .called i q r → ∃ job, .started i job ∈ w.log ∧ Allowed w.log i job q)
    (honce : ∀ i token r, ev = .called i (.inr (.inr (.authByToken token))) r → Unasked w.log i) :
    Inv (w.push ev s) where
  stored key blob expiry he := by
    rcases hstored key _ he with he | hs
    · exact Stored.mono (List.subset_cons_self _ _) (h.stored key blob expiry he)
    · exact Stored.mono (List.subset_cons_self _ _) hs
  calls i q r hmem := by
    have hc : ∃ job, .started i job ∈ w.log ∧ Allowed w.log i job q := by
      rcases List.mem_cons.mp hmem with rfl | hmem
      · exact hcall i q r rfl
      · exact h.calls i q r hmem
    obtain ⟨job, hs, ha⟩ := hc
    exact ⟨job, List.mem_cons_of_mem _ hs, Allowed.mono (List.subset_cons_self _ _) ha⟩
  once i token rows token' rows' hmem hmem' := by
    rcases List.mem_cons.mp hmem with he | hmem
    · rcases List.mem_cons.mp hmem' with he' | hmem'
      · rw [← he] at he'
        cases he'
        rfl
      · exact absurd hmem' (honce i token _ he.symm token' rows')
    · rcases List.mem_cons.mp hmem' with he' | hmem'
      · exact absurd hmem (honce i token' _ he'.symm token rows)
      · exact h.once i token rows token' rows' hmem hmem'

/-! ## Rules -/

variable {A : World (web settings) → Prop} {job : (web settings).Job}

theorem stable (hA : Lasting A) : (protocol settings).Stable i A := fun w ev s _ _ _ _ _ h => hA w ev s h

/-- A call that its thread may make keeps the protocol, if what it stores is a session and the thread does not ask
for an account twice. -/
theorem call_good {q : (web settings).Call} {r : Except Exn ((web settings).Reply q)} (h : Inv w)
    (hs : .started i job ∈ w.log) (hq : Allowed w.log i job q)
    (hset : ∀ key v n, q = .inr (.inl (.setEx key v n)) → Stored w.log key v)
    (hauth : ∀ token, q = .inr (.inr (.authByToken token)) → Unasked w.log i)
    (hr : (protocol settings).Answers q w.state r s) : (protocol settings).Good i w (.called i q r) s := by
  refine ⟨h.push (fun key x he => ?_) (fun j q' r' hev => ?_) (fun j token r' hev => ?_), trivial,
    fun _ _ => trivial⟩
  · rcases hr.state with rfl | rfl
    · exact .inl he
    · rcases entries_of_exec he with he | ⟨n, rfl⟩
      · exact .inl he
      · exact .inr (hset key x.1 n rfl)
  · cases hev
    exact ⟨job, hs, hq⟩
  · cases hev
    exact hauth token rfl

/-- A call that stores nothing and asks for no account. -/
def Bland : (web settings).Call → Prop
  | .inr (.inl (.setEx _ _ _)) => False
  | .inr (.inr (.authByToken _)) => False
  | _ => True

theorem bland_good {q : (web settings).Call} {r : Except Exn ((web settings).Reply q)} (hbland : Bland q) (h : Inv w)
    (hs : .started i job ∈ w.log) (hq : Allowed w.log i job q)
    (hr : (protocol settings).Answers q w.state r s) : (protocol settings).Good i w (.called i q r) s :=
  call_good h hs hq (fun _ _ _ he => by subst he; exact hbland.elim) (fun _ he => by subst he; exact hbland.elim) hr

/-- A program of bland calls that the thread may make keeps what has happened. -/
theorem keeps {α : Type} {p : Program (web settings).toSignature Exn α} (hA : Lasting A)
    (hs : ∀ w, A w → .started i job ∈ w.log)
    (hp : p.Uses fun q => Bland q ∧ ∀ w, A w → Allowed w.log i job q) :
    (protocol settings).Triple i A p (upon (fun _ => A) fun _ => True) := by
  refine (Keeps.of_uses (stable hA) (hp.mono fun q hq w hw hAw _ r s hr => ?_)).upon
    fun _ _ _ => trivial
  exact ⟨bland_good hq.1 hw (hs w hAw) (hq.2 w hAw) hr, hA _ _ _ hAw⟩

/-- The rule for a call that the thread may make, and whose answer is to be remembered. -/
theorem ask_triple {q : (web settings).Call} {Q : (web settings).Reply q → World (web settings) → Prop}
    (hA : Lasting A) (hs : ∀ w, A w → .started i job ∈ w.log) (hbland : Bland q)
    (hq : ∀ w, A w → Allowed w.log i job q)
    (hQ : ∀ w a s, Inv w → A w → ((web settings).exec q w.state).1 = .ok a →
      Q a (w.push (.called i q (.ok a)) s)) :
    (protocol settings).Triple i A (perform q) (upon Q fun _ => True) := by
  refine Triple.perform (stable hA) fun w hw hAw _ r s hr =>
    ⟨bland_good hbland hw (hs w hAw) (hq w hAw) hr, ?_⟩
  cases r with
  | ok a => exact hQ w a s hw hAw hr.of_ok.2
  | error e => trivial

/-! ## The sessions -/

variable {req : Request} {raw' h : String} {created expires seen now : Datetime} {t : Int}

/-- A session that is not over is written back as it was, but for the time of its last use. -/
theorem refresh_triple (hraw : Sessions.hash raw = h) (hcreated : DatetimeLib.utc t₀ = some created)
    (hexpires : DatetimeLib.utc (t₀ + settings.absolute) = some expires) (hnow : DatetimeLib.utc t = some now) :
    (protocol settings).Triple i
      (fun w => .started i (.inr req) ∈ w.log ∧ LogIn w.log k raw userId t₀ ∧
        .called i (.inr (.inl .now)) (.ok t) ∈ w.log)
      (runSessions (Sessions.refresh settings.toSettings h (Sessions.payload userId created expires seen)
        created expires now))
      (upon (fun o w => .started i (.inr req) ∈ w.log ∧ ∀ sess, o = some sess → Valid w.log i h sess.userId)
        fun _ => True) := by
  have hA : Lasting fun w : World (web settings) => .started i (.inr req) ∈ w.log ∧
      LogIn w.log k raw userId t₀ ∧ .called i (.inr (.inl .now)) (.ok t) ∈ w.log := fun w ev s ⟨hs, hl, hn⟩ =>
    ⟨List.mem_cons_of_mem _ hs, LogIn.mono (List.subset_cons_self _ _) hl, List.mem_cons_of_mem _ hn⟩
  have hle := Sessions.le_utc hexpires hnow
  by_cases hover : t₀ + settings.absolute ≤ t
  · rw [decide_eq_true hover] at hle
    rw [refresh_of_over hle]
    refine runSessions_seq (Q := fun _ w => .started i (.inr req) ∈ w.log) ?_ fun _ =>
      Triple.pure fun w _ hs => ⟨hs, nofun⟩
    rw [runSessions_ask]
    exact ask_triple hA (fun _ h => h.1) trivial (fun _ _ => trivial) fun w _ s _ h _ => List.mem_cons_of_mem _ h.1
  · rw [decide_eq_false hover] at hle
    rw [refresh_of_live hle]
    refine runSessions_seq (Q := fun _ w => .started i (.inr req) ∈ w.log ∧ Valid w.log i h userId) ?_ fun _ =>
      Triple.pure fun w _ ⟨hs, hv⟩ => ⟨hs, fun sess he => by cases he; exact hv⟩
    rw [runSessions_ask]
    refine Triple.perform (stable hA) fun w hw ⟨hs, hl, hn⟩ _ r s hr => ⟨?_, ?_⟩
    · refine call_good hw hs trivial (fun key v n he => ?_) nofun hr
      cases he
      exact ⟨k, raw, userId, t₀, created, expires, now, by rw [hraw], hl, hcreated, hexpires, rfl⟩
    · cases r with
      | ok a =>
          exact ⟨List.mem_cons_of_mem _ hs, Valid.mono (List.subset_cons_self _ _)
            ⟨k, raw, t₀, t, hraw, hl, hn, lt_of_not_ge hover⟩⟩
      | error e => trivial

/-- A session that `validate` returns is one that a login has been issued. -/
theorem validate_triple : (protocol settings).Triple i (fun w => .started i (.inr req) ∈ w.log)
    (runSessions (Sessions.validate settings.toSettings raw))
    (upon (fun o w => .started i (.inr req) ∈ w.log ∧
      ∀ sess, o = some sess → Valid w.log i (Sessions.hash raw) sess.userId) fun _ => True) := by
  have hA : Lasting fun w : World (web settings) => .started i (.inr req) ∈ w.log :=
    fun w ev s hs => List.mem_cons_of_mem _ hs
  unfold Sessions.validate
  refine runSessions_seq (Q := fun o w => .started i (.inr req) ∈ w.log ∧
    ∀ blob, o = some blob → Stored w.log (Sessions.key (Sessions.hash raw)) blob) ?_ fun o => ?_
  · rw [runSessions_ask]
    refine ask_triple hA (fun _ h => h) trivial (fun _ _ => trivial) fun w o s hw hs ho =>
      ⟨List.mem_cons_of_mem _ hs, fun blob he => ?_⟩
    subst he
    obtain ⟨expiry, he⟩ := entries_of_get (s := w.state.2.sessions) ho
    exact Stored.mono (List.subset_cons_self _ _) (hw.stored _ _ _ he)
  · cases o with
    | none => exact Triple.pure fun w _ h => ⟨h.1, nofun⟩
    | some blob =>
        intro w hw ⟨hs, hblob⟩
        obtain ⟨k, raw', userId, t₀, created, expires, seen, hkey, hl, hcreated, hexpires, rfl⟩ := hblob blob rfl
        have hraw : Sessions.hash raw' = Sessions.hash raw := (Sessions.key_injective hkey).symm
        have hA' : Lasting fun w : World (web settings) => .started i (.inr req) ∈ w.log ∧
            LogIn w.log k raw' userId t₀ := fun w ev s ⟨hs, hl⟩ =>
          ⟨List.mem_cons_of_mem _ hs, LogIn.mono (List.subset_cons_self _ _) hl⟩
        have hloads : loads (dumps (Sessions.payload userId created expires seen)) =
            .ok (Sessions.payload userId created expires seen) := rfl
        simp only [hloads]
        refine runSessions_seq (A := fun w => .started i (.inr req) ∈ w.log ∧ LogIn w.log k raw' userId t₀)
          (Q := fun t w => .started i (.inr req) ∈ w.log ∧ LogIn w.log k raw' userId t₀ ∧
            .called i (.inr (.inl .now)) (.ok t) ∈ w.log) ?_ (fun t => ?_) w hw ⟨hs, hl⟩
        · rw [runSessions_ask]
          exact ask_triple hA' (fun _ h => h.1) trivial (fun _ _ => trivial) fun w t s _ h _ =>
            ⟨List.mem_cons_of_mem _ h.1, LogIn.mono (List.subset_cons_self _ _) h.2, List.mem_cons_self⟩
        · cases hnow : DatetimeLib.utc t with
          | none =>
              rw [show Datetime.utc t = .error .overflowError by rw [Datetime.utc, hnow]]
              exact fun _ _ _ => trivial
          | some now =>
              rw [show Datetime.utc t = .ok now by rw [Datetime.utc, hnow], Sessions.decodeTimes_payload]
              exact refresh_triple hraw hcreated hexpires hnow

/-! ## The requests -/

theorem lasting_started : Lasting fun w : World (web settings) => .started i (.inr req) ∈ w.log :=
  fun _ _ _ hs => List.mem_cons_of_mem _ hs

theorem lasting_admitted {cookie : Option String} : Lasting fun w : World (web settings) =>
    .started i (.inr req) ∈ w.log ∧ Admitted w.log i cookie userId :=
  fun _ _ _ ⟨hs, ha⟩ => ⟨List.mem_cons_of_mem _ hs, Admitted.mono (List.subset_cons_self _ _) ha⟩

theorem currentUser_triple : (protocol settings).Triple i (fun w => .started i (.inr req) ∈ w.log)
    (run (currentUser settings req.cookie?))
    (upon (fun userId w => .started i (.inr req) ∈ w.log ∧ Admitted w.log i req.cookie? userId) fun _ => True) := by
  cases hcookie : req.cookie? with
  | none => exact fun _ _ _ => trivial
  | some raw =>
      unfold currentUser
      by_cases hempty : raw = ""
      · simp only [hempty, ↓reduceIte]
        exact fun _ _ _ => trivial
      · simp only [hempty, ↓reduceIte]
        refine run_seq validate_triple fun o => ?_
        cases o with
        | none => exact fun _ _ _ => trivial
        | some sess => exact Triple.pure fun w _ ⟨hs, hv⟩ => ⟨hs, raw, rfl, hv sess rfl⟩

/-- A session is issued to the expert whom the database has named. -/
theorem issue_triple {body : LoginRequest} {fwd host : Option String} {rows : List (Int × Option Json)}
    {user : AuthedUser} (huser : authedUser rows = some user) (hexpert : user.isExpert = true) :
    (protocol settings).Triple i
      (fun w => .started i (.inr (.login body fwd host raw)) ∈ w.log ∧
        .called i (.inr (.inr (.authByToken body.token))) (.ok rows) ∈ w.log)
      (runSessions (Sessions.issue settings.toSettings raw user.userId)) (upon (fun _ _ => True) fun _ => True) := by
  unfold Sessions.issue
  refine runSessions_seq (Q := fun t w => LogIn w.log i raw user.userId t ∧
    .started i (.inr (.login body fwd host raw)) ∈ w.log) ?_ fun t => ?_
  · rw [runSessions_ask]
    refine ask_triple (fun w ev s ⟨hs, hc⟩ => ⟨List.mem_cons_of_mem _ hs, List.mem_cons_of_mem _ hc⟩)
      (fun _ h => h.1) trivial (fun _ _ => trivial) fun w t s _ ⟨hs, hc⟩ _ =>
        ⟨⟨body, fwd, host, rows, user, List.mem_cons_of_mem _ hs, List.mem_cons_of_mem _ hc, huser, hexpert, rfl,
          List.mem_cons_self⟩, List.mem_cons_of_mem _ hs⟩
  · refine runSessions_seq (Q := fun now w => (LogIn w.log i raw user.userId t ∧
      .started i (.inr (.login body fwd host raw)) ∈ w.log) ∧ DatetimeLib.utc t = some now)
      (runSessions_builtin (fun now hnow w _ h => ⟨h, utc_eq_ok hnow⟩) fun _ _ _ => trivial) fun now => ?_
    refine runSessions_seq (Q := fun expires w => (LogIn w.log i raw user.userId t ∧
      .started i (.inr (.login body fwd host raw)) ∈ w.log) ∧ DatetimeLib.utc t = some now ∧
        DatetimeLib.utc (t + settings.absolute) = some expires)
      (runSessions_builtin (fun expires hexpires w _ h => ⟨h.1, h.2, utc_eq_ok hexpires⟩) fun _ _ _ => trivial)
      fun expires => ?_
    refine runSessions_seq (Q := fun _ _ => True) ?_ fun _ => Triple.pure fun _ _ _ => trivial
    rw [runSessions_ask]
    refine Triple.perform ?_ fun w hw ⟨⟨hl, hs⟩, hcreated, hexpires⟩ _ r s hr => ⟨?_, ?_⟩
    · exact stable fun w ev s ⟨⟨hl, hs⟩, h⟩ =>
        ⟨⟨LogIn.mono (List.subset_cons_self _ _) hl, List.mem_cons_of_mem _ hs⟩, h⟩
    · refine call_good hw hs trivial (fun key v n he => ?_) nofun hr
      cases he
      exact ⟨i, raw, user.userId, t, now, expires, now, rfl, hl, hcreated, hexpires, rfl⟩
    · cases r <;> trivial

/-- The thread has been started for the login, and has not asked for the account. -/
def Asking (i : Nat) (req : Request) (w : World (web settings)) : Prop :=
  .started i (.inr req) ∈ w.log ∧ Unasked w.log i

theorem asking_stable : (protocol settings).Stable i (Asking i req) := by
  intro w ev s _ _ hev _ _ ⟨hs, hu⟩
  refine ⟨List.mem_cons_of_mem _ hs, fun token rows hmem => ?_⟩
  rcases List.mem_cons.mp hmem with rfl | hmem
  · exact hev rfl
  · exact hu token rows hmem

theorem allowed_triple {key : String} : (protocol settings).Triple i (Asking i req) (run (allowed key))
    (upon (fun _ => Asking i req) fun _ => True) := by
  have hquiet : ∀ c : Call, (∀ token, c ≠ .authByToken token) → (∀ j channel, c ≠ .subscribe j channel) →
      (protocol settings).Quiet i (Asking i req) (.inr (.inr c)) := by
    intro c hauth hsubscribe w hw ⟨hs, hu⟩ _ r s hr
    have hallowed : Allowed w.log i (.inr req) (.inr (.inr c)) := by
      cases c with
      | subscribe j channel => exact absurd rfl (hsubscribe j channel)
      | _ => trivial
    refine ⟨call_good hw hs hallowed nofun (fun token he => ?_) hr, List.mem_cons_of_mem _ hs,
      fun token rows hmem => ?_⟩
    · cases he
      exact absurd rfl (hauth token)
    · rcases List.mem_cons.mp hmem with he | hmem
      · cases he
        exact hauth token rfl
      · exact hu token rows hmem
  exact (Keeps.of_uses asking_stable (run_uses (allowed_uses (hquiet _ nofun nofun) (hquiet _ nofun nofun)
    (hquiet _ nofun nofun) fun _ _ => hquiet _ nofun nofun))).upon fun _ _ _ => trivial

theorem login_triple {body : LoginRequest} {fwd host : Option String} : (protocol settings).Triple i
    (Asking i (.login body fwd host raw)) (run (login settings body fwd host raw))
    (upon (fun a w => Answered w.log i (.login body fwd host raw) (.inr a)) fun _ => True) := by
  unfold login
  refine run_seq allowed_triple fun allow => ?_
  by_cases hallow : allow = true
  · simp only [hallow, not_true_eq_false, ↓reduceIte]
    refine run_seq (Q := fun rows w => .started i (.inr (.login body fwd host raw)) ∈ w.log ∧
      .called i (.inr (.inr (.authByToken body.token))) (.ok rows) ∈ w.log) ?_ fun rows => ?_
    · rw [run_ask]
      refine Triple.perform asking_stable fun w hw ⟨hs, hu⟩ _ r s hr =>
        ⟨call_good hw hs trivial nofun (fun _ _ => hu) hr, ?_⟩
      cases r with
      | ok rows => exact ⟨List.mem_cons_of_mem _ hs, List.mem_cons_self⟩
      | error e => trivial
    · cases huser : authedUser rows with
      | none => exact fun _ _ _ => trivial
      | some user =>
          by_cases hexpert : user.isExpert = true
          · simp only [hexpert, not_true_eq_false, ↓reduceIte]
            exact run_seq (issue_triple huser hexpert) fun _ => Triple.pure fun _ _ _ => trivial
          · simp only [hexpert]
            exact fun _ _ _ => trivial
  · simp only [hallow]
    exact fun _ _ _ => trivial

theorem logout_triple {cookie : Option String} : (protocol settings).Triple i
    (fun w => .started i (.inr (.logout cookie)) ∈ w.log) (run (logout settings cookie))
    (upon (fun a w => Answered w.log i (.logout cookie) (.inr a)) fun _ => True) := by
  have huser : (protocol settings).Triple i (fun w => .started i (.inr (.logout cookie)) ∈ w.log)
      (run (currentUser settings cookie)) (upon (fun userId w => .started i (.inr (.logout cookie)) ∈ w.log ∧
        Admitted w.log i cookie userId) fun _ => True) := currentUser_triple
  refine run_seq huser fun userId => ?_
  have hdone : (protocol settings).Triple i (fun w => .started i (.inr (.logout cookie)) ∈ w.log ∧
      Admitted w.log i cookie userId) (run (pure (.loggedOut settings.sessionCookieName)))
      (upon (fun a w => Answered w.log i (.logout cookie) (.inr a)) fun _ => True) :=
    Triple.pure fun w _ ⟨_, ha⟩ => ⟨userId, ha⟩
  cases cookie with
  | none => exact hdone
  | some raw =>
      by_cases hempty : raw = ""
      · simp only [hempty, ↓reduceIte]
        rwa [hempty] at hdone
      · simp only [hempty, ↓reduceIte]
        exact run_seq (keeps lasting_admitted (fun _ h => h.1)
          (run_uses (Uses.inl (Uses.perform ⟨trivial, fun _ _ => trivial⟩)))) fun _ => hdone

theorem me_triple {cookie : Option String} : (protocol settings).Triple i
    (fun w => .started i (.inr (.me cookie)) ∈ w.log) (run (me settings cookie))
    (upon (fun a w => Answered w.log i (.me cookie) (.inr a)) fun _ => True) := by
  have huser : (protocol settings).Triple i (fun w => .started i (.inr (.me cookie)) ∈ w.log)
      (run (currentUser settings cookie)) (upon (fun userId w => .started i (.inr (.me cookie)) ∈ w.log ∧
        Admitted w.log i cookie userId) fun _ => True) := currentUser_triple
  exact run_seq huser fun userId => Triple.pure fun w _ h => h.2

theorem socketSession_triple {cookie : Option String} : (protocol settings).Triple i
    (fun w => .started i (.inr req) ∈ w.log) (run (socketSession settings cookie))
    (upon (fun o w => .started i (.inr req) ∈ w.log ∧ ∀ sess, o = some sess → Admitted w.log i cookie sess.userId)
      fun _ => True) := by
  cases cookie with
  | none => exact Triple.pure fun w _ hs => ⟨hs, nofun⟩
  | some raw =>
      unfold socketSession
      by_cases hempty : raw = ""
      · simp only [hempty, ↓reduceIte]
        exact Triple.pure fun w _ hs => ⟨hs, nofun⟩
      · simp only [hempty, ↓reduceIte]
        refine Triple.conseq validate_triple (fun _ _ h => h) fun r w _ h => ?_
        cases r with
        | ok o => exact ⟨h.1, fun sess he => ⟨raw, rfl, h.2 sess he⟩⟩
        | error e => trivial

theorem wsEndpoint_triple {cookie origin : Option String} {turns : Nat} : (protocol settings).Triple i
    (fun w => .started i (.inr (.ws cookie origin turns)) ∈ w.log) (run (wsEndpoint settings i cookie origin turns))
    (upon (fun a w => Answered w.log i (.ws cookie origin turns) (.inr a)) fun _ => True) := by
  have hrefuse : (protocol settings).Triple i (fun w => .started i (.inr (.ws cookie origin turns)) ∈ w.log)
      (run (do
        ask (.close i 1008)
        return .refused))
      (upon (fun a w => Answered w.log i (.ws cookie origin turns) (.inr a)) fun _ => True) :=
    run_seq (keeps lasting_started (fun _ h => h) (run_uses (ask_uses ⟨trivial, fun _ _ => trivial⟩))) fun _ =>
      Triple.pure fun _ _ _ => trivial
  unfold wsEndpoint
  by_cases horigin : originAllowed settings origin = true
  · simp only [horigin, not_true_eq_false, ↓reduceIte]
    refine run_seq socketSession_triple fun o => ?_
    cases o with
    | none => exact Triple.conseq hrefuse (fun _ _ h => h.1) fun _ _ _ h => h
    | some sess =>
        refine Triple.conseq (B := fun w => .started i (.inr (.ws cookie origin turns)) ∈ w.log ∧
          Admitted w.log i cookie sess.userId) ?_ (fun _ _ h => ⟨h.1, h.2 sess rfl⟩) fun _ _ _ h => h
        refine run_seq (keeps lasting_admitted (fun _ h => h.1) (run_uses (ask_uses ⟨trivial, fun _ _ => trivial⟩)))
          fun _ => run_seq (keeps lasting_admitted (fun _ h => h.1) (run_uses ?_)) fun _ =>
            Triple.pure fun w _ h => ⟨sess.userId, h.2⟩
        refine Uses.tryFinally (Uses.bind (ask_uses ⟨trivial, fun w h => ⟨sess.userId, rfl, h.2⟩⟩) fun _ =>
          forward_uses ⟨trivial, fun _ _ => trivial⟩ (fun _ => ⟨trivial, fun _ _ => trivial⟩) turns)
          (cleanUp_uses ⟨trivial, fun _ _ => trivial⟩ ⟨trivial, fun _ _ => trivial⟩)
  · simp only [horigin]
    exact hrefuse

/-! ## The front -/

/-- What the front does with a request that it has admitted. -/
def Decided (log : List (Event (web settings))) (i : Nat) (req : Request) : Job ⊕ Answer → Prop
  | .inl job => .started i (.inr req) ∈ log ∧
      ∃ userId, req.job? userId = some job ∧ Admitted log i req.cookie? userId
  | .inr a => Answered log i req (.inr a)

theorem let_triple {f : Int → Job} (hjob : ∀ userId, req.job? userId = some (f userId)) :
    (protocol settings).Triple i (fun w => .started i (.inr req) ∈ w.log)
      (run (do
        let userId ← currentUser settings req.cookie?
        return .inl (f userId)))
      (upon (fun x w => Decided w.log i req x) fun _ => True) :=
  run_seq currentUser_triple fun userId => Triple.pure fun _ _ h => ⟨h.1, userId, hjob userId, h.2⟩

theorem answer_triple {p : Prog Answer} {R : World (web settings) → Prop}
    (h : (protocol settings).Triple i R (run p) (upon (fun a w => Answered w.log i req (.inr a)) fun _ => True)) :
    (protocol settings).Triple i R (run (.inr <$> p)) (upon (fun x w => Decided w.log i req x) fun _ => True) :=
  run_seq h fun _ => Triple.pure fun _ _ h => h

theorem guard_triple : (protocol settings).Triple i (Asking i req) (run (guard settings i req))
    (upon (fun x w => Decided w.log i req x) fun _ => True) := by
  cases req with
  | login body fwd host raw =>
      exact answer_triple login_triple
  | logout cookie => exact Triple.conseq (answer_triple logout_triple) (fun _ _ h => h.1) fun _ _ _ h => h
  | me cookie => exact Triple.conseq (answer_triple me_triple) (fun _ _ h => h.1) fun _ _ _ h => h
  | readTape cookie after => exact Triple.conseq (let_triple fun _ => rfl) (fun _ _ h => h.1) fun _ _ _ h => h
  | submitScore cookie payload => exact Triple.conseq (let_triple fun _ => rfl) (fun _ _ h => h.1) fun _ _ _ h => h
  | readConfig cookie => exact Triple.conseq (let_triple fun _ => rfl) (fun _ _ h => h.1) fun _ _ _ h => h
  | writeConfig cookie payload => exact Triple.conseq (let_triple fun _ => rfl) (fun _ _ h => h.1) fun _ _ _ h => h
  | ws cookie origin turns => exact Triple.conseq (answer_triple wsEndpoint_triple) (fun _ _ h => h.1) fun _ _ _ h => h

/-- A request that has been let through is served by the handler of its user. -/
theorem rest_triple (x : Job ⊕ Answer) : (protocol settings).Triple i (fun w => Decided w.log i req x)
    ((front settings).rest i x) (upon (fun out w => Answered w.log i req out) fun _ => True) := by
  cases x with
  | inr a => exact Triple.pure fun _ _ h => h
  | inl job =>
      intro w hw ⟨hs, userId, hjob, ha⟩
      have hA : Lasting fun w : World (web settings) =>
          .started i (.inr req) ∈ w.log ∧ Admitted w.log i req.cookie? userId := lasting_admitted
      have hbody : (protocol settings).Triple i
          (fun w => .started i (.inr req) ∈ w.log ∧ Admitted w.log i req.cookie? userId) (service.body i job).inl
          (upon (fun _ w => .started i (.inr req) ∈ w.log ∧ Admitted w.log i req.cookie? userId) fun _ => True) :=
        keeps hA (fun _ h => h.1) (Uses.inl ((Job.body_uses i job).mono fun q hq =>
          ⟨trivial, fun w h => ⟨userId, job, hjob, hq, h.2⟩⟩))
      exact Triple.seq hbody (fun out => Triple.pure fun w _ h => ⟨userId, h.2⟩) w hw ⟨hs, ha⟩

theorem job_triple {job : Job} : (protocol settings).Triple i (fun w => .started i (.inl job) ∈ w.log)
    ((web settings).body i (.inl job)) fun _ _ => True := by
  have hA : Lasting fun w : World (web settings) => .started i (.inl job) ∈ w.log :=
    fun _ _ _ hs => List.mem_cons_of_mem _ hs
  refine Triple.conseq (keeps hA (fun _ h => h) ?_) (fun _ _ h => h) fun _ _ _ _ => trivial
  exact Uses.bind (Uses.inl (Uses.of_forall (fun q => ⟨trivial, fun _ _ => trivial⟩) _)) fun _ => trivial

theorem request_triple : (protocol settings).Triple i (Asking i req) ((web settings).body i (.inr req))
    fun r w => ∀ req' out, (.inr req : (web settings).Job) = .inr req' → r = .ok out →
      Answered w.log i req' out := by
  have h : (protocol settings).Triple i (Asking i req) (run (guard settings i req) >>= (front settings).rest i)
      (upon (fun out w => Answered w.log i req out) fun _ => True) := Triple.seq guard_triple rest_triple
  intro w hw hA
  refine wp_mono (fun r w _ hr req' out he hout => ?_) hw (h w hw hA)
  cases he
  subst hout
  exact hr

theorem Inv.init {s : (web settings).State} (h : s.2.sessions.entries = fun _ => none) : Inv ⟨s, []⟩ where
  stored key blob expiry he := by
    rw [h] at he
    cases he
  calls _ _ _ hmem := nomatch hmem
  once _ _ _ _ _ hmem := nomatch hmem

theorem Inv.quiet (h : Inv w) (hcall : ∀ i q r, ev ≠ .called i q r)
    (hentries : s.2.sessions.entries = w.state.2.sessions.entries) : Inv (w.push ev s) :=
  h.push (fun _ _ he => .inl (hentries ▸ he)) (fun i q r he => absurd he (hcall i q r))
    fun i _ r he => absurd he (hcall i _ r)

def outline (settings : Settings) : Outline (web settings) fun _ _ => True where
  toProtocol := protocol settings
  post i job r w := ∀ req out, job = .inr req → r = .ok out → Answered w.log i req out
  post_stable i job r w ev s _ _ _ _ h req out hjob hr := Answered.mono (List.subset_cons_self _ _) (h req out hjob hr)
  may_ok _ _ _ _ _ _ _ := trivial
  may_fail _ _ _ _ _ _ _ _ _ := ⟨trivial, trivial⟩
  start_ok c job s _ hw hfresh hs := by
    have hentries : s.2.sessions.entries = c.world.state.2.sessions.entries := by
      cases job with
      | inl job =>
          obtain ⟨s₁, -, rfl⟩ := Option.map_eq_some_iff.mp hs
          rfl
      | inr req =>
          cases hs
          rfl
    have hinv : Inv (c.world.push (.started c.threads.length job) s) := hw.quiet (fun _ _ _ he => nomatch he) hentries
    refine ⟨⟨hinv, trivial, fun _ _ => trivial⟩, ?_⟩
    cases job with
    | inl job =>
        exact Triple.conseq job_triple (fun _ _ h => h) (fun _ _ _ _ req out he => nomatch he) _ hinv
          List.mem_cons_self
    | inr req =>
        refine request_triple _ hinv ⟨List.mem_cons_self, fun token rows hmem => ?_⟩
        rcases List.mem_cons.mp hmem with he | hmem
        · cases he
        · exact hfresh _ hmem rfl
  crash_ok c i _ hw := ⟨hw.quiet (fun _ _ _ he => nomatch he) rfl, trivial, fun _ _ => trivial⟩
  env_ok c e s _ hw hs := by
    have hentries : s.2.sessions.entries = c.world.state.2.sessions.entries := by
      cases e with
      | inl e =>
          obtain ⟨s₁, -, rfl⟩ := Option.map_eq_some_iff.mp hs
          rfl
      | inr e =>
          obtain ⟨s₂, hs₂, rfl⟩ := Option.map_eq_some_iff.mp hs
          cases e <;> cases hs₂ <;> rfl
    exact ⟨hw.quiet (fun _ _ _ he => nomatch he) hentries, trivial, fun _ _ _ _ => trivial⟩

end Authentication

/-- The service acts for a user only in a request that carries the id of a session that was issued to that user by
a login with the token of an expert, and that was not over when the request read the clock. -/
theorem acts_for_admitted {s : (web settings).State} (hs : s.2.sessions.entries = fun _ => none)
    {c : Conf (web settings)} (h : Reach (fun _ _ => True) s c) {i : Nat} {req : Request} {t : Thread (web settings)}
    (ht : c.threads[i]? = some t) (hreq : t.job = .inr req) :
    (∀ q r, .called i (.inl q) r ∈ c.world.log → ∃ userId job, req.job? userId = some job ∧ JobCall i job q ∧
      Admitted c.world.log i req.cookie? userId) ∧
    (∀ j channel r, .called i (.inr (.inr (.subscribe j channel))) r ∈ c.world.log →
      ∃ userId, channel = channelFor userId ∧ Admitted c.world.log i req.cookie? userId) ∧
    ∀ out, t.returned? = some out → Answered c.world.log i req out := by
  have hinv : (Authentication.outline settings).Holds c :=
    Outline.holds_of_reach (Authentication.Inv.init hs) h
  have hcall : ∀ q r, .called i q r ∈ c.world.log → Allowed c.world.log i (.inr req) q := by
    intro q r hmem
    obtain ⟨job, hstarted, hq⟩ := hinv.inv.calls i q r hmem
    obtain ⟨t', ht', rfl⟩ := h.logged i job hstarted
    obtain rfl := Option.some.inj (ht.symm.trans ht')
    rwa [hreq] at hq
  exact ⟨fun q r hmem => hcall _ r hmem, fun j channel r hmem => hcall _ r hmem, fun out hout =>
    hinv.outcome ht (Thread.outcome_of_returned hout) req out hreq rfl⟩

end

section
open scoped Python.Utc Sessions.Sample

/-- The expert logs in and asks who he is. -/
def Sample.asksWho : Conf (web .default) :=
  Sample.start.play (Sample.login ++ .start (.inr (.me (some Sessions.Sample.raw))) :: Sample.runs 1 3)

theorem Sample.asksWho_reach : Reach (fun _ _ => True) Sample.start.world.state Sample.asksWho :=
  Steps.play (Conf.Obeys.of_labels fun _ _ _ => trivial)

theorem acts_for_admitted_me :
    Answered Sample.asksWho.world.log 1 (.me (some Sessions.Sample.raw)) (.inr (.me 1)) :=
  (acts_for_admitted rfl Sample.asksWho_reach
    (t := ⟨.inr (.me (some Sessions.Sample.raw)), some (.ret (.inr (.me 1)))⟩) rfl rfl).2.2 _ rfl

end

section
variable [DatetimeLib] [HashLib] {settings : Settings}

end

section
open scoped Python.Utc Sessions.Sample

end

end TapeService.Web
