import TapeService.Interleaving.Front
import TapeService.Model.Login
import TapeService.Model.Service
import TapeService.Model.Sessions

/-!
# The web

What stands between a request and its handler: the session cookie and `current_user`, the login with its
limiter and `users.auth_by_token`, and the WebSocket that forwards the events of a user. The handlers, the
worker and the listener are the service behind this front.
-/

namespace TapeService.Web

open Interleaving Python

structure Settings extends Sessions.Settings where
  sessionCookieName : String
  sessionCookieSecure : Bool
  sessionCookieSamesite : String
  corsAllowOrigins : List String
  loginRateLimitPerIp : Nat
  loginRateLimitWindowSeconds : Nat

/-- `settings.py`. -/
def Settings.default : Settings where
  toSettings := Sessions.Settings.default
  sessionCookieName := "s3p_session"
  sessionCookieSecure := true
  sessionCookieSamesite := "lax"
  corsAllowOrigins := []
  loginRateLimitPerIp := 10
  loginRateLimitWindowSeconds := 300

/-! ## Accounts -/

/-- A row of `users."user"`; `tokenHash` is `auth ->> 'token_hash'`. -/
structure Account where
  id : Int
  privilege : Option Json
  tokenHash : Option String

/-- `users.auth_by_token(_token)`. -/
def usersAuthByToken [HashLib] (accounts : List Account) (token : String) : List (Int × Option Json) :=
  if token.length < 8 then []
  else (accounts.filter (·.tokenHash = some (HashLib.sha256 token))).map fun a => (a.id, a.privilege)

structure AuthedUser where
  userId : Int
  privilege : Json

/-- `value.get(key)`. -/
def getKey (value : Json) (key : String) : Option Json := (value.getItem key).toOption

def isText (s : String) : Json → Bool
  | .str t => t = s
  | _ => false

def AuthedUser.isExpert (user : AuthedUser) : Bool :=
  match user.privilege with
  | .obj fields =>
      (match getKey (.obj fields) "expert" with
        | some (.bool true) => true
        | _ => false) ||
      match getKey (.obj fields) "bot" with
        | some (.arr roles) => roles.any (isText "expert")
        | _ => false
  | .arr roles => roles.any (isText "expert")
  | _ => false

/-- `auth_by_token`, of the rows that the database answers with. An id of 0 is falsy. -/
def authedUser : List (Int × Option Json) → Option AuthedUser
  | [] => none
  | (userId, privilege) :: _ =>
      if userId = 0 then none
      else
        match privilege with
        | none => some { userId, privilege := .obj [] }
        | some .null => some { userId, privilege := .obj [] }
        | some p => some { userId, privilege := p }

/-! ## Calls and their effect -/

/-- What a subscriber receives. -/
inductive Message where
  | subscribe
  | message (event : Frame)
  deriving DecidableEq

/-- A WebSocket: whether it has been accepted, how it was closed, the channel that is subscribed for it with
what is still to be read, whether its client is there and what the client has been sent. -/
structure Socket where
  accepted : Bool
  closed : Option Nat
  channel : Option String
  buffer : List Message
  connected : Bool
  received : List Frame
  deriving DecidableEq

def Socket.opening : Socket where
  accepted := false
  closed := none
  channel := none
  buffer := []
  connected := true
  received := []

inductive Call where
  /-- `time.monotonic()`. -/
  | monotonic
  /-- The module's `_login_limiter`. -/
  | loginLimiter
  /-- `_login_limiter = TokenBucket(...)`. -/
  | newLimiter
  /-- The part of `TokenBucket.allow` that holds the lock of the bucket. -/
  | allow (bucket : Nat) (now : Int) (key : String)
  | authByToken (token : String)
  | accept (socket : Nat)
  | close (socket code : Nat)
  | subscribe (socket : Nat) (channel : String)
  /-- The next message, if there is one yet. -/
  | listen (socket : Nat)
  /-- `send_text`; `false` is a `WebSocketDisconnect`. -/
  | sendText (socket : Nat) (data : Frame)
  | unsubscribe (socket : Nat) (channel : String)
  | aclose (socket : Nat)
  deriving DecidableEq

@[reducible] def Call.Reply : Call → Type
  | .monotonic => Int
  | .loginLimiter => Option Nat
  | .newLimiter => Unit
  | .allow _ _ _ => Bool
  | .authByToken _ => List (Int × Option Json)
  | .accept _ => Unit
  | .close _ _ => Unit
  | .subscribe _ _ => Unit
  | .listen _ => Option Message
  | .sendText _ _ => Bool
  | .unsubscribe _ _ => Unit
  | .aclose _ => Unit

@[reducible] def signature : Signature where
  Call := Call
  Reply := Call.Reply

/-- The calls of the sessions and those of the web itself. -/
abbrev Prog := Program (Sessions.signature.sum signature) Exn

def ask (c : Call) : Prog c.Reply := (@Program.perform signature Exn c).inr

def sessions {α : Type} (p : Sessions.Prog α) : Prog α := p.inl

def raise {α : Type} (e : Exn) : Prog α := .raise e

structure State where
  sessions : Sessions.State
  /-- The buckets that have been made, and the one that `_login_limiter` names. -/
  buckets : List (TokenBucket Int)
  loginLimiter : Option Nat
  accounts : List Account
  sockets : Nat → Socket

namespace State

def setSocket (s : State) (i : Nat) (socket : Socket) : State :=
  { s with sockets := Function.update s.sockets i socket }

/-- What is published on a channel reaches every socket that is subscribed to it. -/
def deliver (s : State) (channel : String) (event : Frame) : State :=
  { s with
    sockets := fun i =>
      if (s.sockets i).channel = some channel then
        { s.sockets i with buffer := (s.sockets i).buffer ++ [.message event] }
      else s.sockets i }

end State

section
variable [HashLib]

/-- One clock shows the time of day and that of the limiter. -/
def exec (settings : Settings) (c : Call) (s : State) : Except Exn c.Reply × State :=
  match c with
  | .monotonic => (.ok s.sessions.now, s)
  | .loginLimiter => (.ok s.loginLimiter, s)
  | .newLimiter =>
      (.ok (), { s with
        buckets := s.buckets ++
          [.new settings.loginRateLimitPerIp (settings.loginRateLimitWindowSeconds * 1000000)]
        loginLimiter := some s.buckets.length })
  | .allow bucket now key =>
      match s.buckets[bucket]? with
      | some b => (.ok (b.allow now key).1, { s with buckets := s.buckets.set bucket (b.allow now key).2 })
      | none => (.error .callFailed, s)
  | .authByToken token =>
      if IsText token then (.ok (usersAuthByToken s.accounts token), s) else (.error .dataError, s)
  | .accept i => (.ok (), s.setSocket i { s.sockets i with accepted := true })
  | .close i code => (.ok (), s.setSocket i { s.sockets i with closed := some code })
  | .subscribe i channel =>
      (.ok (), s.setSocket i
        { s.sockets i with channel := some channel, buffer := (s.sockets i).buffer ++ [.subscribe] })
  | .listen i =>
      (.ok (s.sockets i).buffer.head?, s.setSocket i { s.sockets i with buffer := (s.sockets i).buffer.tail })
  | .sendText i data =>
      if (s.sockets i).connected then
        (.ok true, s.setSocket i { s.sockets i with received := (s.sockets i).received ++ [data] })
      else (.ok false, s)
  | .unsubscribe i channel =>
      (.ok (), if (s.sockets i).channel = some channel then s.setSocket i { s.sockets i with channel := none } else s)
  | .aclose i => (.ok (), s.setSocket i { s.sockets i with channel := none })

end

/-! ## Requests -/

/-- The body of `POST /auth/login`. -/
structure LoginRequest where
  token : String
  token_length : 8 ≤ token.length ∧ token.length ≤ 512

section
variable [DatetimeLib]

inductive Request where
  /-- With the `X-Forwarded-For` header, the address of the connection and the session id that `secrets` would
  yield. -/
  | login (req : LoginRequest) (fwd host : Option String) (raw : String)
  | logout (cookie : Option String)
  | me (cookie : Option String)
  | readTape (cookie : Option String) (after : Option Nat)
  | submitScore (cookie : Option String) (payload : ScoreRequest)
  | readConfig (cookie : Option String)
  | writeConfig (cookie : Option String) (payload : ConfigUpdate)
  /-- `/ws`, for as many turns of its loop. -/
  | ws (cookie origin : Option String) (turns : Nat)

end

/-- The arguments of `set_cookie`. -/
structure Cookie where
  key : String
  value : String
  maxAge : Int
  httponly : Bool
  secure : Bool
  samesite : String
  path : String
  deriving DecidableEq, Repr

inductive Answer where
  | loggedIn (userId : Int) (cookie : Cookie)
  /-- The cookie of this name is deleted. -/
  | loggedOut (cookieName : String)
  | me (userId : Int)
  /-- The socket has been refused. -/
  | refused
  | disconnected
  deriving DecidableEq, Repr

/-! ## `auth/dependencies.py` -/

section
variable [DatetimeLib] [HashLib] (settings : Settings)

def currentUser (cookie : Option String) : Prog Int :=
  match cookie with
  | none => raise (.apiError .unauthorized "missing session cookie")
  | some raw =>
      if raw = "" then raise (.apiError .unauthorized "missing session cookie")
      else do
        match ← sessions (Sessions.validate settings.toSettings raw) with
        | none => raise (.apiError .unauthorized "invalid or expired session")
        | some sess => return sess.userId

/-! ## `api/auth.py` -/

/-- `_limiter`, as the bucket that it names. -/
def limiter : Prog (Option Nat) := do
  let found ← ask .loginLimiter
  if found = none then
    ask .newLimiter
  ask .loginLimiter

/-- `allow` of the limiter. -/
def allowed (key : String) : Prog Bool := do
  let bucket ← limiter
  let now ← ask .monotonic
  match bucket with
  | some bucket => ask (.allow bucket now key)
  | none => raise .callFailed

def login (req : LoginRequest) (fwd host : Option String) (raw : String) : Prog Answer := do
  let allow ← allowed (clientIp fwd host)
  if ¬ allow then
    raise (.apiError .rateLimited "too many login attempts")
  else
    let rows ← ask (.authByToken req.token)
    match authedUser rows with
    | none => raise (.apiError .unauthorized "unknown token")
    | some user =>
        if ¬ user.isExpert then
          raise (.apiError .forbidden "expert privilege required")
        else
          let raw ← sessions (Sessions.issue settings.toSettings raw user.userId)
          return .loggedIn user.userId {
            key := settings.sessionCookieName
            value := raw
            maxAge := settings.sessionAbsoluteTtlDays * 86400
            httponly := true
            secure := settings.sessionCookieSecure
            samesite := settings.sessionCookieSamesite
            path := "/" }

def logout (cookie : Option String) : Prog Answer := do
  let _ ← currentUser settings cookie
  match cookie with
  | none => pure ()
  | some raw =>
      if raw = "" then pure ()
      else sessions (Sessions.revoke raw)
  return .loggedOut settings.sessionCookieName

def me (cookie : Option String) : Prog Answer := do
  let userId ← currentUser settings cookie
  return .me userId

/-! ## `api/ws.py` -/

/-- The loop over what the subscription yields. It ends early when the client has gone. -/
def forward (i : Nat) : Nat → Prog Unit
  | 0 => return ()
  | turns + 1 => do
      match ← (ask (.listen i) : Prog (Option Message)) with
      | some (.message data) =>
          if ← (ask (.sendText i data) : Prog Bool) then forward i turns else return ()
      | _ => forward i turns

/-- The `finally`. -/
def cleanUp (i : Nat) (channel : String) : Prog Unit := do
  (ask (.unsubscribe i channel)).tryCatch fun _ => return ()
  (ask (.aclose i)).tryCatch fun _ => return ()

def originAllowed (origin : Option String) : Bool :=
  match origin with
  | none => true
  | some o => settings.corsAllowOrigins = [] || o = "" || o ∈ settings.corsAllowOrigins

def socketSession (cookie : Option String) : Prog (Option Sessions.Session) :=
  match cookie with
  | none => return none
  | some raw => if raw = "" then return none else sessions (Sessions.validateAsync settings.toSettings raw)

def wsEndpoint (i : Nat) (cookie origin : Option String) (turns : Nat) : Prog Answer := do
  if ¬ originAllowed settings origin then
    ask (.close i 1008)
    return .refused
  else
    match ← socketSession settings cookie with
    | none =>
        ask (.close i 1008)
        return .refused
    | some sess =>
        ask (.accept i)
        (do
          ask (.subscribe i (channelFor sess.userId))
          forward i turns).tryFinally (cleanUp i (channelFor sess.userId))
        return .disconnected

/-! ## The front -/

def guard (i : Nat) : Request → Prog (Job ⊕ Answer)
  | .login req fwd host raw => .inr <$> login settings req fwd host raw
  | .logout cookie => .inr <$> logout settings cookie
  | .me cookie => .inr <$> me settings cookie
  | .readTape cookie after => do
      let userId ← currentUser settings cookie
      return .inl (.readTape userId after)
  | .submitScore cookie payload => do
      let userId ← currentUser settings cookie
      return .inl (.submitScore userId payload)
  | .readConfig cookie => do
      let userId ← currentUser settings cookie
      return .inl (.readConfig userId)
  | .writeConfig cookie payload => do
      let userId ← currentUser settings cookie
      return .inl (.writeConfig userId payload)
  | .ws cookie origin turns => .inr <$> wsEndpoint settings i cookie origin turns

theorem guard_lets (i : Nat) (req : Request) :
    (guard settings i req).Returns (Sum.elim service.Plain fun _ => True) := by
  cases req with
  | login req fwd host raw => exact Program.Returns.bind fun _ => trivial
  | logout cookie => exact Program.Returns.bind fun _ => trivial
  | me cookie => exact Program.Returns.bind fun _ => trivial
  | readTape cookie after => exact Program.Returns.bind fun _ _ => rfl
  | submitScore cookie payload => exact Program.Returns.bind fun _ _ => rfl
  | readConfig cookie => exact Program.Returns.bind fun _ _ => rfl
  | writeConfig cookie payload => exact Program.Returns.bind fun _ _ => rfl
  | ws cookie origin turns => exact Program.Returns.bind fun _ => trivial

end

/-- What happens in front of the service on its own. -/
inductive Env where
  | tick (t : Sessions.Tick)
  /-- The accounts are kept by another program. -/
  | setAccounts (accounts : List Account)
  /-- The client of the socket goes away. -/
  | disconnect (socket : Nat)

def Env.apply (e : Env) (s : State) : Option State :=
  match e with
  | .tick t => some { s with sessions := { s.sessions with now := s.sessions.now + t.micros } }
  | .setAccounts accounts => some { s with accounts }
  | .disconnect i => some (s.setSocket i { s.sockets i with connected := false })

section
variable [DatetimeLib] [HashLib]

@[reducible] def front (settings : Settings) : Front service where
  toSignature := Sessions.signature.sum signature
  State := State
  Request := Request
  Answer := Answer
  Env := Env
  guard := guard settings
  exec
    | .inl c, s => ((Sessions.exec c s.sessions).1, { s with sessions := (Sessions.exec c s.sessions).2 })
    | .inr c, s => exec settings c s
  sees
    | .publish channel event, s => s.deliver channel event
    | _, s => s
  env := Env.apply
  lets := guard_lets settings

/-- The service with the web in front of it. -/
@[reducible] def web (settings : Settings) : System := (front settings).system

end

/-! ## A small deployment

One expert with an empty tape, for the examples of the theorems.
-/

namespace Sample

open scoped Python.Utc Sessions.Sample

def expert : Account where
  id := 1
  privilege := some (.obj [("expert", .bool true)])
  tokenHash := some "a long token"

def start : Conf (web .default) :=
  .init ({ redis := .empty, db := .start [] },
    { sessions := { now := 0, entries := fun _ => none }
      buckets := [.new 10 300000000]
      loginLimiter := some 0
      accounts := [expert]
      sockets := fun _ => .opening })

def body : LoginRequest := { token := "a long token", token_length := by decide }

def runs (i n : Nat) : List (Label (web .default)) := List.replicate n (.run i)

/-- The expert logs in. -/
def login : List (Label (web .default)) := .start (.inr (.login body none none Sessions.Sample.raw)) :: runs 0 7

end Sample

end TapeService.Web
