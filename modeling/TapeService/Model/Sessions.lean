import TapeService.Interleaving.Rely
import TapeService.Model.Schemas

/-!
# The sessions

`store/sessions.py`: a session lives under the hash of its raw id, with a TTL that every validation sets
anew. The sessions have their own part of the keyspace, so they are a system of their own, in which the
surroundings only let time pass.
-/

namespace TapeService.Sessions

open Interleaving Python

structure Settings where
  sessionAbsoluteTtlDays : Int
  sessionIdleTtlDays : Int

/-- `settings.py`. -/
def Settings.default : Settings where
  sessionAbsoluteTtlDays := 30
  sessionIdleTtlDays := 14

structure State where
  /-- Microseconds since the epoch. -/
  now : Int
  /-- A text, and the moment from which on Redis no longer has it. -/
  entries : String → Option (Text × Int)

def State.get (s : State) (key : String) : Option Text :=
  match s.entries key with
  | some (blob, expiry) => if s.now < expiry then some blob else none
  | none => none

def State.put (s : State) (key : String) (v : Option (Text × Int)) : State :=
  { s with entries := Function.update s.entries key v }

/-! ## Calls and their effect -/

inductive Call where
  | get (key : String)
  /-- `SET key value EX seconds`. -/
  | setEx (key : String) (value : Text) (seconds : Int)
  | delete (key : String)
  /-- `datetime.now(UTC)`. -/
  | now

@[reducible] def Call.Reply : Call → Type
  | .get _ => Option Text
  | .setEx _ _ _ => Unit
  | .delete _ => Unit
  | .now => Int

@[reducible] def signature : Signature where
  Call := Call
  Reply := Call.Reply

abbrev Prog := Program signature Exn

def ask (c : Call) : Prog c.Reply := @Program.perform signature Exn c

def raise {α : Type} (e : Exn) : Prog α := .raise e

def builtin {α : Type} : Except Error α → Prog α
  | .ok a => pure a
  | .error e => raise (.builtin e)

/-- `decode_responses=True`: a reply that is not UTF-8 is a `UnicodeDecodeError`, which is a `ValueError`. -/
def decodeReply : Option Text → Except Exn (Option Text)
  | some (.binary _) => .error (.builtin .valueError)
  | reply => .ok reply

def exec (c : Call) (s : State) : Except Exn c.Reply × State :=
  match c with
  | .get key => (decodeReply (s.get key), s)
  | .setEx key value seconds =>
      -- Redis refuses a TTL that is not positive.
      if 0 < seconds then (.ok (), s.put key (some (value, s.now + seconds * 1000000)))
      else (.error .callFailed, s)
  | .delete key => (.ok (), s.put key none)
  | .now => (.ok s.now, s)

/-! ## `store/sessions.py` -/

section
variable [HashLib]

def hash (raw : String) : String := HashLib.sha256 raw

def key (sessionHash : String) : String := "sess:" ++ sessionHash

end

section
variable [DatetimeLib]

structure Session where
  userId : Int
  createdAt : Datetime
  expiresAt : Datetime
  lastSeen : Datetime

/-- The fields that are read under the second `try` of `validate`; `last_seen` is only checked. -/
def decodeTimes (payload : Json) : Except Error (Datetime × Datetime) := do
  let created ← Datetime.fromisoformat (← payload.getItem "created_at")
  let expires ← Datetime.fromisoformat (← payload.getItem "expires_at")
  let _ ← Datetime.fromisoformat (← payload.getItem "last_seen")
  pure (created, expires)

def decodeUserId (payload : Json) : Except Error Int := do
  (← payload.getItem "user_id").toInt

variable [HashLib]

/-- `issue`, for the raw id that `secrets` yields. -/
def issue (settings : Settings) (raw : String) (userId : Int) : Prog String := do
  let micros ← ask .now
  let now ← builtin (Datetime.utc micros)
  let absExpires ← builtin (Datetime.utc (micros + settings.sessionAbsoluteTtlDays * 86400 * 1000000))
  let idleSeconds := settings.sessionIdleTtlDays * 86400
  let payload := Json.obj [
    ("user_id", .int userId),
    ("created_at", .str (DatetimeLib.isoformat now)),
    ("expires_at", .str (DatetimeLib.isoformat absExpires)),
    ("last_seen", .str (DatetimeLib.isoformat now))]
  ask (.setEx (key (hash raw)) (dumps payload) idleSeconds)
  pure raw

/-- What `validate` does once the times of the payload are read. -/
def refresh (settings : Settings) (h : String) (payload : Json) (created expires now : Datetime) :
    Prog (Option Session) := do
  if ← builtin (Datetime.le expires now) then
    ask (.delete (key h))
    pure none
  else
    let payload ← builtin (payload.setItem "last_seen" (.str (DatetimeLib.isoformat now)))
    let idleSeconds := settings.sessionIdleTtlDays * 86400
    ask (.setEx (key h) (dumps payload) idleSeconds)
    let userId ← builtin (decodeUserId payload)
    pure (some { userId, createdAt := created, expiresAt := expires, lastSeen := now })

def validate (settings : Settings) (raw : String) : Prog (Option Session) := do
  let h := hash raw
  match ← (ask (.get (key h)) : Prog (Option Text)) with
  | none => pure none
  | some blob =>
      match loads blob with
      | .error .valueError =>
          ask (.delete (key h))
          pure none
      -- `except (TypeError, ValueError)` lets a `RecursionError` through.
      | .error e => raise (.builtin e)
      | .ok payload =>
          let now ← builtin (Datetime.utc (← (ask .now : Prog Int)))
          match decodeTimes payload with
          | .error .overflowError => raise (.builtin .overflowError)
          | .error _ =>
              ask (.delete (key h))
              pure none
          | .ok (created, expires) => refresh settings h payload created expires now

/-- `validate_async`: the same commands, awaited. -/
def validateAsync (settings : Settings) (raw : String) : Prog (Option Session) := validate settings raw

def revoke (raw : String) : Prog Unit := ask (.delete (key (hash raw)))

/-! ## The sessions as a system -/

inductive Job where
  | issue (raw : String) (userId : Int)
  | validate (raw : String)
  | validateAsync (raw : String)
  | revoke (raw : String)
  deriving DecidableEq

inductive Out where
  | issued (raw : String)
  | session (sess : Option Session)
  | revoked

/-- The key of the session that the job is about. -/
def Job.key : Job → String
  | .issue raw _ => Sessions.key (hash raw)
  | .validate raw => Sessions.key (hash raw)
  | .validateAsync raw => Sessions.key (hash raw)
  | .revoke raw => Sessions.key (hash raw)

def Job.body (settings : Settings) (_ : Nat) : Job → Prog Out
  | .issue raw userId => .issued <$> Sessions.issue settings raw userId
  | .validate raw => .session <$> Sessions.validate settings raw
  | .validateAsync raw => .session <$> Sessions.validateAsync settings raw
  | .revoke raw => (fun _ => .revoked) <$> Sessions.revoke raw

/-- Time passes. -/
structure Tick where
  micros : Nat

@[reducible] def sessions (settings : Settings) : System where
  toSignature := signature
  Exn := Exn
  State := State
  Job := Job
  Out := Out
  Env := Tick
  body := Job.body settings
  exec := exec
  start _ s := some s
  env t s := some { s with now := s.now + t.micros }

end

/-! ## A session -/

namespace Sample

open scoped Python.Utc

def raw : String := "q3Zk9mXv7Rw1TgYb5NcEoH2sLdJfPuAi8VxBtQeMzCrWnSyGhKaUjDlFpO4I6_0-"

/-- SHA-256, as far as the examples need it. -/
scoped instance : HashLib where
  sha256 s := if s = raw then "a440c4535155c6fb75907205d1a30722257637e8d96d424f44e06c1c4ef72c0c" else s

/-- User 1 has been issued a session. -/
def issued : State :=
  ((Conf.init { now := 0, entries := fun _ => none } : Conf (sessions .default)).play
    [.start (.issue raw 1), .run 0, .run 0]).world.state

end Sample

end TapeService.Sessions
