import TapeService.Model.Service

/-!
# The service with a clock

In `service` a lock may expire at any time. Here time passes in ticks, and a string expires once the TTL
with which `SET NX EX` has set it has elapsed.
-/

namespace TapeService

open Interleaving Python

structure Timed where
  base : State
  now : Int
  /-- When the TTL of the string under a key elapses. -/
  deadline : String → Int

namespace Timed

/-- The token in the lock of a user, with the time at which it expires. -/
def lease (s : Timed) (userId : Int) : Option (String × Int) :=
  (s.base.redis.strings (lockKey userId)).map fun t => (t, s.deadline (lockKey userId))

/-- The effect of a call, where locks are set for `ttl`. `SET` refuses a TTL that is not positive. -/
def exec (ttl : Int) (c : Call) (s : Timed) : Except Exn c.Reply × Timed :=
  match c with
  | .setNxEx key t =>
      if 0 < ttl then
        let (r, base) := TapeService.exec (.setNxEx key t) s.base
        let deadline :=
          if (s.base.redis.strings key).isNone then put s.deadline key (s.now + ttl) else s.deadline
        (r, { s with base, deadline })
      else (.error .callFailed, s)
  | c => ((TapeService.exec c s.base).1, { s with base := (TapeService.exec c s.base).2 })

/-- The clock moves on, and what has expired is gone. -/
def advance (s : Timed) (n : Nat) : Timed :=
  { s with
    base := { s.base with
      redis := { s.base.redis with
        strings := fun key => if s.deadline key ≤ s.now + n then none else s.base.redis.strings key } }
    now := s.now + n }

end Timed

inductive TimedEnv where
  /-- Time passes. -/
  | tick (n : Nat)
  /-- What else the surroundings of the service do; a lock expires by the clock only. -/
  | other (e : Env)

def TimedEnv.apply (e : TimedEnv) (s : Timed) : Option Timed :=
  match e with
  | .tick n => some (s.advance n)
  | .other (.expireLock _) => none
  | .other e => (e.apply s.base).map fun base => { s with base }

section
variable [DatetimeLib]

@[reducible] def timedService (ttl : Int) : System where
  toSignature := signature
  Exn := Exn
  State := Timed
  Job := Job
  Out := Out
  Env := TimedEnv
  body := Job.body
  exec := Timed.exec ttl
  start job s := (job.begin s.base).map fun base => { s with base }
  env := TimedEnv.apply

end

end TapeService
