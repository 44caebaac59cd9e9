import TapeService.Interleaving.Rely
import TapeService.Lemmas.Footprints
import TapeService.Lemmas.Sessions
import TapeService.Model.Web

/-!
# Programs in front of the service

The rules for the programs of the web, which reach the system through two embeddings, and what the calls do to
the sessions and to the sockets.
-/

namespace TapeService.Web

open Interleaving Interleaving.Program Interleaving.Protocol Python

section
variable [DatetimeLib]

/-- The session id that comes with a request. -/
def Request.cookie? : Request → Option String
  | .login _ _ _ _ => none
  | .logout cookie => cookie
  | .me cookie => cookie
  | .readTape cookie _ => cookie
  | .submitScore cookie _ => cookie
  | .readConfig cookie => cookie
  | .writeConfig cookie _ => cookie
  | .ws cookie _ _ => cookie

/-- The handler of the request, for the user of the session. -/
def Request.job? (userId : Int) : Request → Option Job
  | .readTape _ after => some (.readTape userId after)
  | .submitScore _ payload => some (.submitScore userId payload)
  | .readConfig _ => some (.readConfig userId)
  | .writeConfig _ payload => some (.writeConfig userId payload)
  | _ => none

end

/-! ## Programs -/

theorem ask_uses {C : (Sessions.signature.sum signature).Call → Prop} {c : Call} (hc : C (.inr c)) : (ask c).Uses C :=
  Uses.inr (Uses.perform hc)

theorem sessions_uses {C : (Sessions.signature.sum signature).Call → Prop} {α : Type} (hC : ∀ c, C (.inl c))
    (p : Sessions.Prog α) : (sessions p).Uses C :=
  Uses.inl (Uses.of_forall hC p)

theorem limiter_uses {C : (Sessions.signature.sum signature).Call → Prop} (hget : C (.inr .loginLimiter))
    (hnew : C (.inr .newLimiter)) : limiter.Uses C := by
  refine Uses.bind (ask_uses hget) fun found => ?_
  split
  · exact Uses.bind (ask_uses hnew) fun _ => ask_uses hget
  · exact ask_uses hget

theorem allowed_uses {C : (Sessions.signature.sum signature).Call → Prop} {key : String} (hget : C (.inr .loginLimiter))
    (hnew : C (.inr .newLimiter)) (hclock : C (.inr .monotonic)) (hallow : ∀ j t, C (.inr (.allow j t key))) :
    (allowed key).Uses C := by
  refine Uses.bind (limiter_uses hget hnew) fun bucket => Uses.bind (ask_uses hclock) fun now => ?_
  cases bucket with
  | none => trivial
  | some bucket => exact ask_uses (hallow _ _)

theorem forward_uses {C : (Sessions.signature.sum signature).Call → Prop} {i : Nat} (hlisten : C (.inr (.listen i)))
    (hsend : ∀ data, C (.inr (.sendText i data))) (turns : Nat) : (forward i turns).Uses C := by
  induction turns with
  | zero => trivial
  | succ turns ih =>
      refine Uses.bind (ask_uses hlisten) fun message => ?_
      rcases message with _ | _ | data
      · exact ih
      · exact ih
      · refine Uses.bind (ask_uses (hsend data)) fun connected => ?_
        cases connected
        · trivial
        · exact ih

theorem cleanUp_uses {C : (Sessions.signature.sum signature).Call → Prop} {i : Nat} {channel : String}
    (hunsubscribe : C (.inr (.unsubscribe i channel))) (hclose : C (.inr (.aclose i))) :
    (cleanUp i channel).Uses C :=
  Uses.bind (Uses.tryCatch (ask_uses hunsubscribe) fun _ => trivial) fun _ =>
    Uses.tryCatch (ask_uses hclose) fun _ => trivial

/-- The calls of the web itself, by the request that makes them. -/
def FrontCall [DatetimeLib] (i : Nat) : Request → Call → Prop
  | .login _ _ _ _, .monotonic => True
  | .login _ _ _ _, .loginLimiter => True
  | .login _ _ _ _, .newLimiter => True
  | .login _ fwd host _, .allow _ _ key => key = clientIp fwd host
  | .login body _ _ _, .authByToken token => token = body.token
  | .ws _ _ _, .accept j => j = i
  | .ws _ _ _, .close j code => j = i ∧ code = 1008
  | .ws _ _ _, .subscribe j _ => j = i
  | .ws _ _ _, .listen j => j = i
  | .ws _ _ _, .sendText j _ => j = i
  | .ws _ _ _, .unsubscribe j _ => j = i
  | .ws _ _ _, .aclose j => j = i
  | _, _ => False

section
variable [DatetimeLib] [HashLib] {settings : Settings}

theorem currentUser_uses {C : (Sessions.signature.sum signature).Call → Prop} (hC : ∀ c, C (.inl c))
    (cookie : Option String) : (currentUser settings cookie).Uses C := by
  cases cookie with
  | none => trivial
  | some raw =>
      unfold currentUser
      by_cases hempty : raw = ""
      · simp only [hempty, ↓reduceIte]
        trivial
      · simp only [hempty, ↓reduceIte]
        refine Uses.bind (sessions_uses hC _) fun o => ?_
        cases o <;> trivial

theorem socketSession_uses {C : (Sessions.signature.sum signature).Call → Prop} (hC : ∀ c, C (.inl c))
    (cookie : Option String) : (socketSession settings cookie).Uses C := by
  cases cookie with
  | none => trivial
  | some raw =>
      unfold socketSession
      by_cases hempty : raw = ""
      · simp only [hempty, ↓reduceIte]
        trivial
      · simp only [hempty, ↓reduceIte]
        exact sessions_uses hC _

/-- Once it is through the limiter, a login only asks for the account and issues the session. -/
theorem login_eq (body : LoginRequest) (fwd host : Option String) (raw : String) :
    ∃ f : Bool → Prog Answer, login settings body fwd host raw = allowed (clientIp fwd host) >>= f ∧
      ∀ ok, (f ok).Uses fun c => ok = true ∧ Sum.elim (fun _ => True) (· = .authByToken body.token) c := by
  refine ⟨_, rfl, fun ok => ?_⟩
  by_cases hok : ok = true
  · simp only [hok, not_true_eq_false, ↓reduceIte]
    refine Uses.bind (ask_uses ⟨trivial, rfl⟩) fun rows => ?_
    split
    · trivial
    · split
      · trivial
      · exact Uses.bind (sessions_uses (fun _ => ⟨trivial, trivial⟩) _) fun _ => trivial
  · simp only [hok]
    trivial

theorem guard_uses (i : Nat) (req : Request) :
    (guard settings i req).Uses (Sum.elim (fun _ => True) (FrontCall i req)) := by
  have huser : ∀ {C : Call → Prop} cookie, (currentUser settings cookie).Uses (Sum.elim (fun _ => True) C) :=
    fun cookie => currentUser_uses (fun _ => trivial) cookie
  have hsessions : ∀ {C : Call → Prop} {α : Type} (p : Sessions.Prog α),
      (sessions p).Uses (Sum.elim (fun _ => True) C) := fun p => sessions_uses (fun _ => trivial) p
  cases req with
  | login body fwd host raw =>
      obtain ⟨f, hlogin, hf⟩ := login_eq body fwd host raw
      refine Uses.bind ?_ fun _ => trivial
      rw [hlogin]
      refine Uses.bind (allowed_uses trivial trivial trivial fun _ _ => rfl) fun ok => (hf ok).mono fun c hc => ?_
      cases c with
      | inl c => trivial
      | inr c =>
          obtain rfl : c = .authByToken body.token := hc.2
          rfl
  | logout cookie =>
      refine Uses.bind (Uses.bind (huser cookie) fun userId => ?_) fun _ => trivial
      cases cookie with
      | none => trivial
      | some raw =>
          by_cases hempty : raw = ""
          · simp only [hempty, ↓reduceIte]
            trivial
          · simp only [hempty, ↓reduceIte]
            exact Uses.bind (hsessions _) fun _ => trivial
  | me cookie => exact Uses.bind (Uses.bind (huser cookie) fun _ => trivial) fun _ => trivial
  | readTape cookie after => exact Uses.bind (huser cookie) fun _ => trivial
  | submitScore cookie payload => exact Uses.bind (huser cookie) fun _ => trivial
  | readConfig cookie => exact Uses.bind (huser cookie) fun _ => trivial
  | writeConfig cookie payload => exact Uses.bind (huser cookie) fun _ => trivial
  | ws cookie origin turns =>
      refine Uses.bind ?_ fun _ => trivial
      unfold wsEndpoint
      split
      · exact Uses.bind (ask_uses ⟨rfl, rfl⟩) fun _ => trivial
      · refine Uses.bind (socketSession_uses (fun _ => trivial) cookie) fun o => ?_
        · cases o with
          | none => exact Uses.bind (ask_uses ⟨rfl, rfl⟩) fun _ => trivial
          | some sess =>
              let C : (Sessions.signature.sum signature).Call → Prop :=
                Sum.elim (fun _ => True) (FrontCall i (.ws cookie origin turns))
              exact Uses.bind (ask_uses rfl) fun _ => Uses.bind (Uses.tryFinally
                (Uses.bind (ask_uses rfl) fun _ => forward_uses (C := C) rfl (fun _ => rfl) turns)
                (cleanUp_uses (C := C) rfl rfl)) fun _ => trivial

end

section
variable [DatetimeLib] [HashLib] {settings : Settings} {P : Protocol (web settings)} {i : Nat}
  {A E : World (web settings) → Prop} {α β : Type}

/-- A program of the web as a thread runs it. -/
def run (p : Prog α) : Program (web settings).toSignature Exn α := p.inr

/-- The session calls of the web as a thread runs them. -/
def runSessions (p : Sessions.Prog α) : Program (web settings).toSignature Exn α := run (sessions p)

theorem run_bind (p : Prog α) (f : α → Prog β) :
    (run (p >>= f) : Program (web settings).toSignature Exn β) = run p >>= fun a => run (f a) :=
  inr_bind p f

theorem runSessions_bind (p : Sessions.Prog α) (f : α → Sessions.Prog β) :
    (runSessions (p >>= f) : Program (web settings).toSignature Exn β) =
      runSessions p >>= fun a => runSessions (f a) := by
  rw [runSessions, sessions, inl_bind, run, inr_bind]
  rfl

theorem run_ask (c : Call) :
    (run (ask c) : Program (web settings).toSignature Exn _) =
      perform (S := (web settings).toSignature) (.inr (.inr c)) :=
  congrArg (Program.call (S := (web settings).toSignature) (.inr (.inr c))) (funext fun r => by cases r <;> rfl)

theorem runSessions_ask (c : Sessions.Call) :
    (runSessions (Sessions.ask c) : Program (web settings).toSignature Exn _) =
      perform (S := (web settings).toSignature) (.inr (.inl c)) :=
  congrArg (Program.call (S := (web settings).toSignature) (.inr (.inl c))) (funext fun r => by cases r <;> rfl)

theorem run_uses {C : (web settings).Call → Prop} {p : Prog α} (hp : p.Uses fun q => C (.inr q)) : (run p).Uses C :=
  Uses.inr hp

theorem run_seq {p : Prog α} {f : α → Prog β} {Q : α → World (web settings) → Prop}
    {R : β → World (web settings) → Prop} (hp : P.Triple i A (run p) (upon Q E))
    (hf : ∀ a, P.Triple i (Q a) (run (f a)) (upon R E)) : P.Triple i A (run (p >>= f)) (upon R E) := by
  rw [run_bind]
  exact Triple.seq hp hf

theorem runSessions_seq {p : Sessions.Prog α} {f : α → Sessions.Prog β} {Q : α → World (web settings) → Prop}
    {R : β → World (web settings) → Prop} (hp : P.Triple i A (runSessions p) (upon Q E))
    (hf : ∀ a, P.Triple i (Q a) (runSessions (f a)) (upon R E)) :
    P.Triple i A (runSessions (p >>= f)) (upon R E) := by
  rw [runSessions_bind]
  exact Triple.seq hp hf

theorem run_tryFinally (p : Prog α) (f : Prog Unit) :
    (run (p.tryFinally f) : Program (web settings).toSignature Exn α) = (run p).tryFinally (run f) := by
  refine (inr_andThen p _).trans (congrArg _ (funext fun r => (run_bind f _).trans ?_))
  cases r <;> rfl

theorem runSessions_builtin {x : Except Error α} {Q : α → World (web settings) → Prop}
    (h : ∀ a, x = .ok a → ∀ w, P.inv w → A w → Q a w) (hE : ∀ w, P.inv w → A w → E w) :
    P.Triple i A (runSessions (Sessions.builtin x)) (upon Q E) := by
  cases x with
  | ok a => exact h a rfl
  | error e => exact hE

/-! ## The sessions -/

theorem exec_now {q : (web settings).Call} {s : (web settings).State} :
    ((web settings).exec q s).2.2.sessions.now = s.2.sessions.now := by
  rcases q with q | q | q
  · cases q <;> rfl
  · cases q with
    | setEx k v n =>
        simp only [Sessions.exec]
        split <;> rfl
    | _ => rfl
  · cases q with
    | allow bucket now key =>
        simp only [exec]
        split <;> rfl
    | authByToken token =>
        simp only [exec]
        split <;> rfl
    | sendText j data =>
        simp only [exec]
        split <;> rfl
    | unsubscribe j channel =>
        simp only [exec]
        split <;> rfl
    | _ => rfl

/-- A session that is there after a call was there before it or has just been stored. -/
theorem entries_of_exec {q : (web settings).Call} {s : (web settings).State} {k : String} {x : Text × Int}
    (h : ((web settings).exec q s).2.2.sessions.entries k = some x) :
    s.2.sessions.entries k = some x ∨ ∃ n, q = .inr (.inl (.setEx k x.1 n)) := by
  cases q with
  | inl q =>
      cases q with
      | publish channel event => exact .inl h
      | _ => exact .inl h
  | inr q =>
      cases q with
      | inl q =>
          cases q with
          | get k' => exact .inl h
          | now => exact .inl h
          | delete k' =>
              by_cases hk : k = k'
              · subst hk
                simp [Sessions.exec, Sessions.State.put] at h
              · exact .inl (by simpa [Sessions.exec, Sessions.State.put, Function.update_of_ne hk] using h)
          | setEx k' v n =>
              by_cases hn : 0 < n
              · by_cases hk : k = k'
                · subst hk
                  simp only [Sessions.exec, Sessions.State.put, hn, ↓reduceIte, Function.update_self,
                    Option.some.injEq] at h
                  exact .inr ⟨n, by rw [← h]⟩
                · exact .inl (by simpa [Sessions.exec, Sessions.State.put, hn, Function.update_of_ne hk] using h)
              · exact .inl (by simpa [Sessions.exec, hn] using h)
      | inr q =>
          refine .inl ?_
          cases q with
          | allow bucket now key =>
              simp only [exec] at h
              split at h <;> exact h
          | authByToken token =>
              simp only [exec] at h
              split at h <;> exact h
          | sendText j data =>
              simp only [exec] at h
              split at h <;> exact h
          | unsubscribe j channel =>
              simp only [exec] at h
              split at h <;> exact h
          | _ => exact h

end

section
variable [DatetimeLib] {settings : Sessions.Settings} {h : String} {userId : Int} {created expires seen now : Datetime}

theorem utc_eq_ok {t : Int} (hnow : Datetime.utc t = .ok now) : DatetimeLib.utc t = some now := by
  unfold Datetime.utc at hnow
  split at hnow
  · rename_i hutc
    cases hnow
    exact hutc
  · cases hnow

theorem refresh_of_over {payload : Json} (hover : Datetime.le expires now = .ok true) :
    Sessions.refresh settings h payload created expires now =
      (Sessions.ask (.delete (Sessions.key h)) >>= fun _ => pure none) := by
  unfold Sessions.refresh
  rw [hover]
  rfl

theorem refresh_of_live (hover : Datetime.le expires now = .ok false) :
    Sessions.refresh settings h (Sessions.payload userId created expires seen) created expires now =
      (Sessions.ask (.setEx (Sessions.key h) (dumps (Sessions.payload userId created expires now))
          (settings.sessionIdleTtlDays * 86400)) >>= fun _ =>
        pure (some { userId, createdAt := created, expiresAt := expires, lastSeen := now })) := by
  unfold Sessions.refresh
  rw [hover, Sessions.setItem_payload]
  rfl

end

theorem entries_of_get {s : Sessions.State} {k : String} {blob : Text}
    (h : (Sessions.exec (.get k) s).1 = .ok (some blob)) : ∃ expiry, s.entries k = some (blob, expiry) := by
  have hget : s.get k = some blob := by
    simp only [Sessions.exec] at h
    cases hg : s.get k with
    | none => rw [hg] at h; cases h
    | some v =>
        rw [hg] at h
        cases v <;> cases h <;> rfl
  unfold Sessions.State.get at hget
  split at hget
  · rename_i blob' expiry he
    split at hget
    · cases hget
      exact ⟨expiry, he⟩
    · cases hget
  · cases hget

/-! ## The sockets -/

section
variable {s : State} {i : Nat} {channel : String} {event : Frame}

theorem deliver_of_eq (h : (s.sockets i).channel = some channel) :
    (s.deliver channel event).sockets i =
      { s.sockets i with buffer := (s.sockets i).buffer ++ [.message event] } :=
  if_pos h

theorem deliver_of_ne (h : (s.sockets i).channel ≠ some channel) :
    (s.deliver channel event).sockets i = s.sockets i :=
  if_neg h

end

/-- The socket that the call is about. -/
def Call.socket? : Call → Option Nat
  | .accept i => some i
  | .close i _ => some i
  | .subscribe i _ => some i
  | .listen i => some i
  | .sendText i _ => some i
  | .unsubscribe i _ => some i
  | .aclose i => some i
  | _ => none

/-- What the call makes of its socket. -/
def Call.act : Call → Socket → Socket
  | .accept _, k => { k with accepted := true }
  | .close _ code, k => { k with closed := some code }
  | .subscribe _ channel, k => { k with channel := some channel, buffer := k.buffer ++ [.subscribe] }
  | .listen _, k => { k with buffer := k.buffer.tail }
  | .sendText _ data, k => if k.connected then { k with received := k.received ++ [data] } else k
  | .unsubscribe _ channel, k => if k.channel = some channel then { k with channel := none } else k
  | .aclose _, k => { k with channel := none }
  | _, k => k

theorem exec_socket [HashLib] {settings : Settings} {c : Call} {i : Nat} (hc : c.socket? = some i) (s : State) :
    (exec settings c s).2.sockets i = c.act (s.sockets i) := by
  cases c with
  | sendText j data =>
      obtain rfl := Option.some.inj hc
      by_cases h : (s.sockets j).connected = true
      · simp [exec, Call.act, State.setSocket, h]
      · simp [exec, Call.act, h]
  | unsubscribe j channel =>
      obtain rfl := Option.some.inj hc
      by_cases h : (s.sockets j).channel = some channel
      · simp [exec, Call.act, State.setSocket, h]
      · simp [exec, Call.act, h]
  | accept j | close j code | subscribe j channel | listen j | aclose j =>
      obtain rfl := Option.some.inj hc
      exact Function.update_self _ _ _
  | _ => cases hc

end TapeService.Web
