import TapeService.Interleaving.Front
import TapeService.Model.Service

/-!
# The listener

`ScoreNotifyListener`: the main thread of the worker calls `start` and `stop`, and the thread that `start` makes waits
for the notifications of the platform database and handles them one after the other. The other threads and processes
are part of the surroundings here.
-/

namespace TapeService.Listener

open Interleaving Python

/-! ## State -/

/-- A connection to the database. The server sends it the notifications from a place in its queue on. What has been
sent arrives after some time; `notifies` takes all that has arrived, to yield it bit by bit. -/
structure Connection where
  opened : Bool
  listening : Bool
  since : Nat
  sent : List Notification
  arrived : List Notification
  fetched : List Notification

def Connection.new : Connection where
  opened := true
  listening := false
  since := 0
  sent := []
  arrived := []
  fetched := []

def Connection.close (x : Connection) : Connection := { x with opened := false, sent := [], arrived := [] }

def Connection.send (x : Connection) (ns : List Notification) : Connection :=
  if x.opened && x.listening then { x with sent := x.sent ++ ns } else x

/-- The attributes of the object, its threads and the connection of each. -/
structure State where
  thread : Option Nat
  stop : Bool
  conn : Option Nat
  /-- The number of threads that have been made. -/
  made : Nat
  /-- The threads that have been started and do not run yet. -/
  launched : List Nat
  ended : List Nat
  connections : Nat → Connection
  /-- The number of notifications in the queue of the server. -/
  published : Nat
  /-- The main thread is there. -/
  main : Bool

def State.start : State where
  thread := none
  stop := false
  conn := none
  made := 0
  launched := []
  ended := []
  connections _ := Connection.new.close
  published := 0
  main := false

def State.setConnection (s : State) (k : Nat) (x : Connection) : State :=
  { s with connections := Function.update s.connections k x }

/-! ## Calls and their effect -/

inductive Call where
  | getThread
  /-- `self._stop.clear()`. -/
  | clearStop
  /-- `self._thread = threading.Thread(target=self._run)`. -/
  | newThread
  /-- `self._thread.start()`. -/
  | startThread (k : Nat)
  /-- `self._stop.set()`. -/
  | setStop
  | getConn
  | close (k : Nat)
  /-- `self._thread.join(timeout)`, once it returns: the thread has ended, or the time is up. -/
  | join (k : Nat)
  /-- `self._thread = None`. -/
  | clearThread
  | connect (k : Nat)
  /-- `self._conn = conn`. -/
  | setConn (k : Nat)
  | listen (k : Nat)
  | isStopSet
  /-- The next step of the generator `conn.notifies(timeout=1.0)`: it yields, or ends when its second has passed. -/
  | notifies (k : Nat) (expired : Bool)
  /-- `self._conn = None`. -/
  | clearConn
  /-- The thread ends. -/
  | exit (k : Nat)
  deriving DecidableEq

@[reducible] def Call.Reply : Call → Type
  | .getThread => Option Nat
  | .clearStop => Unit
  | .newThread => Nat
  | .startThread _ => Unit
  | .setStop => Unit
  | .getConn => Option Nat
  | .close _ => Unit
  | .join _ => Bool
  | .clearThread => Unit
  | .connect _ => Unit
  | .setConn _ => Unit
  | .listen _ => Unit
  | .isStopSet => Bool
  | .notifies _ _ => Option Notification
  | .clearConn => Unit
  | .exit _ => Unit

@[reducible] def signature : Signature where
  Call := Call
  Reply := Call.Reply

/-- The calls of the handler and those of the listener itself. -/
abbrev Prog := Program (TapeService.signature.sum signature) Exn

def ask (c : Call) : Prog c.Reply := (@Program.perform signature Exn c).inr

def exec (c : Call) (s : State) : Except Exn c.Reply × State :=
  match c with
  | .getThread => (.ok s.thread, s)
  | .clearStop => (.ok (), { s with stop := false })
  | .newThread => (.ok s.made, { s with thread := some s.made, made := s.made + 1 })
  | .startThread k => (.ok (), { s with launched := k :: s.launched })
  | .setStop => (.ok (), { s with stop := true })
  | .getConn => (.ok s.conn, s)
  | .close k => (.ok (), s.setConnection k (s.connections k).close)
  | .join k => (.ok (k ∈ s.ended), s)
  | .clearThread => (.ok (), { s with thread := none })
  | .connect k => (.ok (), s.setConnection k .new)
  | .setConn k => (.ok (), { s with conn := some k })
  | .listen k =>
      if (s.connections k).opened then
        (.ok (), s.setConnection k { s.connections k with listening := true, since := s.published })
      else (.error .callFailed, s)
  | .isStopSet => (.ok s.stop, s)
  | .notifies k expired =>
      match (s.connections k).fetched with
      | n :: ns => (.ok (some n), s.setConnection k { s.connections k with fetched := ns })
      | [] =>
          if ¬ (s.connections k).opened then (.error .callFailed, s)
          else if expired then (.ok none, s)
          else
            match (s.connections k).arrived with
            | [] => (.ok none, s)
            | n :: ns => (.ok (some n), s.setConnection k { s.connections k with arrived := [], fetched := ns })
  | .clearConn => (.ok (), { s with conn := none })
  | .exit k => (.ok (), { s with ended := k :: s.ended })

/-! ## The methods -/

def start : Prog Unit := do
  match ← (ask .getThread : Prog (Option Nat)) with
  | some _ => return ()
  | none =>
      ask .clearStop
      let k ← (ask .newThread : Prog Nat)
      ask (.startThread k)

def stop : Prog Unit := do
  ask .setStop
  if (← (ask .getConn : Prog (Option Nat))).isSome then
    match ← (ask .getConn : Prog (Option Nat)) with
    -- The attribute error is caught.
    | none => pure ()
    | some k => (ask (.close k)).tryCatch fun _ => return ()
  match ← (ask .getThread : Prog (Option Nat)) with
  | none => return ()
  | some k => do
      let _ ← (ask (.join k) : Prog Bool)
      ask .clearThread

/-- The two loops of `_run`, inside of the inner one. -/
def serve (k : Nat) : List Bool → Prog Unit
  | [] => .raise .callFailed
  | expired :: turns => do
      match ← (ask (.notifies k expired) : Prog (Option Notification)) with
      | some n =>
          (handle n.payload).inl
          serve k turns
      | none => if ← (ask .isStopSet : Prog Bool) then return () else serve k turns

def connected (k : Nat) (turns : List Bool) : Prog Unit := do
  ask (.setConn k)
  ask (.listen k)
  if ← (ask .isStopSet : Prog Bool) then return () else serve k turns

/-- `_run`, by thread `k`. For each turn it says whether the second of `notifies` has passed; after them the
connection is lost, if it is not closed before. -/
def run (k : Nat) (turns : List Bool) : Prog Unit :=
  ((do
    ask (.connect k)
    (connected k turns).tryFinally (ask (.close k))).tryCatch fun
      | .callFailed => return ()
      | e => .raise e).tryFinally (ask .clearConn)

/-! ## The system -/

inductive Method where
  | start
  | stop
  deriving DecidableEq

def Method.body : Method → Prog Unit
  | .start => Listener.start
  | .stop => Listener.stop

inductive Job where
  /-- The main thread, which calls the methods one after the other. -/
  | main (methods : List Method)
  /-- Thread `k` of the listener. -/
  | run (k : Nat) (turns : List Bool)

def Job.begin (job : Job) (s : State) : Option State :=
  match job with
  | .main _ => if s.main then none else some { s with main := true }
  | .run k _ => if k ∈ s.launched then some { s with launched := s.launched.erase k } else none

def Job.body : Job → Prog Unit
  | .main methods => methods.forM Method.body
  | .run k turns => (Listener.run k turns).tryFinally (ask (.exit k))

inductive Env where
  /-- A call that another thread or process makes of the store or the database. -/
  | call (c : TapeService.Call)
  | service (e : TapeService.Env)
  /-- The next of what the server has sent arrives. -/
  | arrive (k : Nat)
  /-- A connection breaks. -/
  | lose (k : Nat)

/-- The store and the database, and the state of the listener. -/
abbrev Whole := TapeService.State × State

/-- What has been notified is sent on all connections that listen. -/
def deliver (s : Whole) : Whole :=
  ({ s.1 with db := { s.1.db with notifications := [] } },
    { s.2 with
      connections := fun k => (s.2.connections k).send s.1.db.notifications
      published := s.2.published + s.1.db.notifications.length })

def Env.apply (e : Env) (s : Whole) : Option Whole :=
  match e with
  | .call c => some (deliver ((TapeService.exec c s.1).2, s.2))
  | .service e => (e.apply s.1).map fun s₁ => deliver (s₁, s.2)
  | .arrive k =>
      match (s.2.connections k).sent with
      | [] => none
      | n :: ns =>
          some (s.1, s.2.setConnection k
            { s.2.connections k with sent := ns, arrived := (s.2.connections k).arrived ++ [n] })
  | .lose k => some (s.1, s.2.setConnection k (s.2.connections k).close)

@[reducible] def listener : System where
  toSignature := TapeService.signature.sum signature
  Exn := Exn
  State := Whole
  Job := Job
  Out := Unit
  Env := Env
  body _ := Job.body
  exec
    | .inl c, s => ((TapeService.exec c s.1).1, deliver ((TapeService.exec c s.1).2, s.2))
    | .inr c, s => ((exec c s.2).1, s.1, (exec c s.2).2)
  start job s := (job.begin s.2).map fun s₂ => (s.1, s₂)
  env := Env.apply

end TapeService.Listener
