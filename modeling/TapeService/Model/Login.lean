import Mathlib.Algebra.Order.Group.Int
import TapeService.Model.Calls

/-!
# The throttling of logins

`POST /auth/login` behind the documented reverse proxy, up to the point where the limiter lets a request
pass or refuses it.
-/

namespace TapeService

open Python

/-! ## The limiter -/

/-- `TokenBucket`. A limit is a number of requests, and a window a length of time. -/
structure TokenBucket (τ : Type) where
  capacity : Nat
  window : τ
  /-- The dict of deques; a key that is not in the dict has an empty one. -/
  events : String → List τ

section
variable {τ : Type} [LinearOrder τ] [AddCommGroup τ]

def TokenBucket.new (capacity : Nat) (window : τ) : TokenBucket τ := { capacity, window, events := fun _ => [] }

def TokenBucket.allow (b : TokenBucket τ) (now : τ) (key : String) : Bool × TokenBucket τ :=
  let cutoff := now - b.window
  let q := (b.events key).dropWhile fun t => t < cutoff
  if b.capacity ≤ q.length then (false, { b with events := put b.events key q })
  else (true, { b with events := put b.events key (q ++ [now]) })

end

/-! ## The request -/

/-- A login request: when it arrives, and the `X-Forwarded-For` headers that the client has sent. -/
structure LoginRequest where
  now : Int
  sent : List String

/-- `$proxy_add_x_forwarded_for`: the headers of the client, with the address of the peer appended. -/
def proxyAddXForwardedFor (sent : List String) (peer : String) : String :=
  ", ".intercalate (sent ++ [peer])

/-- `_client_ip`, of the header `X-Forwarded-For` and the address of the connection. -/
def clientIp (fwd : Option String) (host : Option String) : String :=
  match fwd with
  | some fwd => if fwd ≠ "" then String.ofList (strip (splitFirst ',' fwd.toList)) else host.getD "unknown"
  | none => host.getD "unknown"

/-- The key under which a request of the peer is counted. The connection that the api sees is that of the
proxy, from `host`. -/
def loginKey (host : Option String) (peer : String) (sent : List String) : String :=
  clientIp (some (proxyAddXForwardedFor sent peer)) host

/-- The beginning of `login`: `none` is let pass, anything else is raised. -/
def throttle (b : TokenBucket Int) (now : Int) (key : String) : Option Exn × TokenBucket Int :=
  let (allowed, b) := b.allow now key
  (if allowed then none else some (.apiError .rateLimited "too many login attempts"), b)

/-- Which of the requests pass, one after the other. -/
def logins (host : Option String) (peer : String) (b : TokenBucket Int) : List LoginRequest → List Bool
  | [] => []
  | r :: rs =>
      let (refused, b) := throttle b r.now (loginKey host peer r.sent)
      refused.isNone :: logins host peer b rs

end TapeService
