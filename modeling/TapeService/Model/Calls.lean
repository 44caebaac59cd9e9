import Mathlib.Data.List.AList
import TapeService.Interleaving.Program
import TapeService.Redis.ZSet
import TapeService.Model.Platform

/-!
# The calls of the service

Every Redis command, every MULTI pipeline and every SQL statement that the service issues is one call: it
takes effect atomically. The state is the Redis keyspace, one map for each type of value, and the platform
database.
-/

namespace TapeService

open Interleaving Python

/-! ## Keys -/

def cfgKey (userId : Int) : String := "tape:cfg:" ++ toString userId

def cfgSourcesKey (userId : Int) : String := "tape:cfg:src:" ++ toString userId

def entriesKey (userId : Int) : String := "tape:entries:" ++ toString userId

def runsKey (userId : Int) : String := "tape:runs:" ++ toString userId

def lockKey (userId : Int) : String := "tape:lock:" ++ toString userId

def channelFor (userId : Int) : String := "tape:events:" ++ toString userId

def runCounterKey : String := "tape:run:counter"

theorem toString_inj {m n : Int} : toString m = toString n ↔ m = n := by
  constructor
  · intro h
    have := int_toString m
    rw [h, int_toString] at this
    exact (Option.some.inj this).symm
  · rintro rfl
    rfl

theorem append_toString_inj {pre : String} {m n : Int} :
    pre ++ toString m = pre ++ toString n ↔ m = n := by
  rw [String.append_right_inj, toString_inj]

@[simp] theorem cfgKey_inj {m n : Int} : cfgKey m = cfgKey n ↔ m = n := append_toString_inj

@[simp] theorem cfgSourcesKey_inj {m n : Int} : cfgSourcesKey m = cfgSourcesKey n ↔ m = n :=
  append_toString_inj

@[simp] theorem entriesKey_inj {m n : Int} : entriesKey m = entriesKey n ↔ m = n := append_toString_inj

@[simp] theorem runsKey_inj {m n : Int} : runsKey m = runsKey n ↔ m = n := append_toString_inj

@[simp] theorem lockKey_inj {m n : Int} : lockKey m = lockKey n ↔ m = n := append_toString_inj

@[simp] theorem channelFor_inj {m n : Int} : channelFor m = channelFor n ↔ m = n := append_toString_inj

/-! ## The keyspace -/

/-- A hash: fields with their texts. -/
abbrev Hash := AList fun _ : String => String

def Hash.get (h : Hash) (field : String) : Option String := AList.lookup field h

/-- `HSET key mapping`. -/
def Hash.hset (h : Hash) (mapping : List (String × String)) : Hash :=
  mapping.foldl (fun h kv => AList.insert kv.1 kv.2 h) h

/-- The tape of a user: document ids, as the members `str(doc_id)`, with their positions as scores. -/
abbrev Tape := Redis.ZSet (toString : Int → String)

structure Keyspace where
  hashes : String → Hash
  /-- The source sets: the members are the texts `str(s)`. -/
  sets : String → List Int
  zsets : String → Tape
  strings : String → Option String
  streams : String → List RunRecord
  counters : String → Int

def Keyspace.empty : Keyspace where
  hashes _ := ∅
  sets _ := []
  zsets _ := .empty
  strings _ := none
  streams _ := []
  counters _ := 0

structure State where
  redis : Keyspace
  db : Platform

/-! ## Calls and their effect -/

inductive Call where
  | hgetall (key : String)
  | hset (key : String) (mapping : List (String × String))
  | smembers (key : String)
  /-- The pipeline of `set_config_sources`: `DEL` and `SADD` of the set, `HSET dirty 1` of the hash. -/
  | multiReplaceSources (key : String) (sourceIds : List Int) (hashKey : String)
  | zrange (key : String) (start stop : Int)
  | zrangebyscore (key : String) (after count : Int)
  | zcard (key : String)
  | zaddNx (key : String) (member score : Int)
  | zrem (key : String) (member : Int)
  /-- The pipeline of `delete_all_entries`: `ZCARD` and `DEL`. -/
  | multiZcardDel (key : String)
  /-- `SET key token NX EX ttl`. -/
  | setNxEx (key token : String)
  | exists (key : String)
  /-- The script that deletes the key if it holds the token. -/
  | evalRelease (key token : String)
  | incr (key : String)
  | xadd (key : String) (record : RunRecord)
  | publish (channel : String) (event : Frame)
  | candidates (userId : Int) (sourceIds : List Int) (dateFrom dateTo : Option Int) (descending : Bool)
  | fetchByIds (ids : List Int)
  | scoredAmong (userId : Int) (ids : List Int)
  | rolesFor (userId sourceId : Int)
  | roleNames (ids : List Int)
  | sourcesFor (userId : Int)
  | sourceNames (ids : List Int)
  | scoreSave (userId documentId roleId : Int) (score : ScorePayload) (comment : Option String)
  deriving DecidableEq

@[reducible] def Call.Reply : Call → Type
  | .hgetall _ => Hash
  | .hset _ _ => Unit
  | .smembers _ => List Int
  | .multiReplaceSources _ _ _ => Unit
  | .zrange _ _ _ => List (Int × Int)
  | .zrangebyscore _ _ _ => List (Int × Int)
  | .zcard _ => Nat
  | .zaddNx _ _ _ => Nat
  | .zrem _ _ => Nat
  | .multiZcardDel _ => Nat
  | .setNxEx _ _ => Bool
  | .exists _ => Bool
  | .evalRelease _ _ => Unit
  | .incr _ => Int
  | .xadd _ _ => Unit
  | .publish _ _ => Unit
  | .candidates _ _ _ _ _ => List Int
  | .fetchByIds _ => List Document
  | .scoredAmong _ _ => List Int
  | .rolesFor _ _ => List Int
  | .roleNames _ => List (Int × String)
  | .sourcesFor _ => List Int
  | .sourceNames _ => List (Int × String)
  | .scoreSave _ _ _ _ _ => Int

@[reducible] def signature : Signature where
  Call := Call
  Reply := Call.Reply

abbrev Prog := Program signature Exn

def ask (c : Call) : Prog c.Reply := @Program.perform signature Exn c

/-- Replaces the value of one key. -/
def put {β : Type} (f : String → β) (key : String) (v : β) : String → β := Function.update f key v

namespace State

def setHash (s : State) (key : String) (v : Hash) : State :=
  { s with redis := { s.redis with hashes := put s.redis.hashes key v } }

def setSet (s : State) (key : String) (v : List Int) : State :=
  { s with redis := { s.redis with sets := put s.redis.sets key v } }

def setZset (s : State) (key : String) (v : Tape) : State :=
  { s with redis := { s.redis with zsets := put s.redis.zsets key v } }

def setString (s : State) (key : String) (v : Option String) : State :=
  { s with redis := { s.redis with strings := put s.redis.strings key v } }

def setStream (s : State) (key : String) (v : List RunRecord) : State :=
  { s with redis := { s.redis with streams := put s.redis.streams key v } }

def setCounter (s : State) (key : String) (v : Int) : State :=
  { s with redis := { s.redis with counters := put s.redis.counters key v } }

end State

def exec (c : Call) (s : State) : Except Exn c.Reply × State :=
  match c with
  | .hgetall key => (.ok (s.redis.hashes key), s)
  | .hset key mapping => (.ok (), s.setHash key ((s.redis.hashes key).hset mapping))
  | .smembers key => (.ok (s.redis.sets key), s)
  | .multiReplaceSources key sourceIds hashKey =>
      (.ok (), (s.setSet key sourceIds.dedup).setHash hashKey ((s.redis.hashes hashKey).hset [("dirty", "1")]))
  | .zrange key start stop => (.ok ((s.redis.zsets key).zrange start stop), s)
  | .zrangebyscore key after count => (.ok ((s.redis.zsets key).zrangebyscore after count), s)
  | .zcard key => (.ok (s.redis.zsets key).zcard, s)
  | .zaddNx key member score =>
      (.ok (if member ∈ s.redis.zsets key then 0 else 1),
        s.setZset key ((s.redis.zsets key).zaddNx member score))
  | .zrem key member =>
      (.ok (if member ∈ s.redis.zsets key then 1 else 0), s.setZset key ((s.redis.zsets key).zrem member))
  | .multiZcardDel key => (.ok (s.redis.zsets key).zcard, s.setZset key .empty)
  | .setNxEx key token =>
      match s.redis.strings key with
      | none => (.ok true, s.setString key (some token))
      | some _ => (.ok false, s)
  | .exists key => (.ok (s.redis.strings key).isSome, s)
  | .evalRelease key token =>
      (.ok (), if s.redis.strings key = some token then s.setString key none else s)
  | .incr key => (.ok (s.redis.counters key + 1), s.setCounter key (s.redis.counters key + 1))
  | .xadd key record =>
      -- The stream is not trimmed, as `MAXLEN ~ 100` does at some time.
      (.ok (), s.setStream key (s.redis.streams key ++ [record]))
  | .publish _ _ => (.ok (), s)
  | .candidates userId sourceIds dateFrom dateTo descending =>
      (.ok (s.db.candidates userId sourceIds dateFrom dateTo descending), s)
  | .fetchByIds ids => (.ok (s.db.documentsById ids), s)
  | .scoredAmong userId ids => (.ok (s.db.scoredAmong userId ids), s)
  | .rolesFor userId sourceId => (.ok (s.db.usersRolesForSource userId sourceId), s)
  | .roleNames ids => (.ok (s.db.roles.filter (·.1 ∈ ids)), s)
  | .sourcesFor userId => (.ok (s.db.usersSources userId), s)
  | .sourceNames ids => (.ok (s.db.sources.filter (·.1 ∈ ids)), s)
  | .scoreSave userId documentId roleId score comment =>
      let (r, db) := s.db.insertScore
        { score, comment, documentId := some documentId, userId := some userId, roleId := some roleId }
      (r, { s with db })

end TapeService
