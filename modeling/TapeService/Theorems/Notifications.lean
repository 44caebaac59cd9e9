import TapeService.Interleaving.Views
import TapeService.Lemmas.Conversions
import TapeService.Lemmas.Effects
import TapeService.Lemmas.Footprints

/-!
# The notifications

`_handle` is given whatever text somebody sends on the channel. It returns unless `json.loads` or `int` gives
up in a way that its first `except` does not name, and then the LISTEN thread ends.
-/

namespace TapeService

open Interleaving Interleaving.Program Python

/-! ## What a payload says -/

/-- The payload is an object whose `user_id` and `document_id` are converted to these numbers. -/
def Names (payload : Text) (userId documentId : Int) : Prop :=
  ∃ data, loads payload = .ok data ∧ data.intItem "user_id" = .ok userId ∧
    data.intItem "document_id" = .ok documentId

/-- A text that is nested too deeply, or an object with an infinite float where `int` is called on it. -/
inductive Escapes : Text → Prop
  | nested (s : String) : Escapes (.nested s)
  | userId {data x : Json} (hx : data.getItem "user_id" = .ok x) (hinf : x.Infinite) : Escapes (.json data)
  | documentId {data x : Json} {u : Int} (hu : data.intItem "user_id" = .ok u)
      (hx : data.getItem "document_id" = .ok x) (hinf : x.Infinite) : Escapes (.json data)

/-- The whole state, and the frames that a program publishes with their channels. -/
@[reducible] def published : Aspect signature Exn State State (String × Frame) where
  exec := exec
  view s := s
  note?
    | .publish channel event => some (channel, event)
    | _ => none

/-- `_handle` returns, even when its calls raise, and it does with the payload what it is for. -/
structure Survives (payload : Text) (s : State) : Prop where
  returns : ∀ r s', (handle payload).Ends exec True s r s' → r = .ok ()
  removes : ∀ u d, Names payload u d →
    ((handle payload).eval exec s).2 =
        (if d ∈ s.tape u then s.setZset (entriesKey u) ((s.tape u).zrem d) else s) ∧
      published.notes (handle payload) s =
        if d ∈ s.tape u then [(channelFor u, .tapeEntryRemoved u d)] else []
  ignores : (¬ ∃ u d, Names payload u d) →
    ((handle payload).eval exec s).2 = s ∧ published.notes (handle payload) s = []

namespace Notifications

variable {payload : Text} {s : State} {u d : Int} {e : Python.Error}

/-! ## The first `try` -/

theorem decodePayload_json (data : Json) :
    decodePayload (.json data) =
      (data.intItem "user_id" >>= fun u => data.intItem "document_id" >>= fun d => pure (u, d)) := by
  have hassoc : ∀ (x : Except Python.Error Json) (f : Json → Except Python.Error Int)
      (k : Int → Except Python.Error (Int × Int)), (x >>= fun a => f a >>= k) = (x >>= f) >>= k := by
    intro x f k
    cases x <;> rfl
  refine (hassoc (data.getItem "user_id") Json.toInt _).trans (congrArg (data.intItem "user_id" >>= ·) ?_)
  exact funext fun u => hassoc (data.getItem "document_id") Json.toInt _

theorem decodePayload_cases (data : Json) :
    (∃ e, data.intItem "user_id" = .error e ∧ decodePayload (.json data) = .error e) ∨
      (∃ u e, data.intItem "user_id" = .ok u ∧ data.intItem "document_id" = .error e ∧
        decodePayload (.json data) = .error e) ∨
      ∃ u d, data.intItem "user_id" = .ok u ∧ data.intItem "document_id" = .ok d ∧
        decodePayload (.json data) = .ok (u, d) := by
  rw [decodePayload_json]
  cases data.intItem "user_id" with
  | error e => exact .inl ⟨e, rfl, rfl⟩
  | ok u =>
      cases data.intItem "document_id" with
      | error e => exact .inr (.inl ⟨u, e, rfl, rfl, rfl⟩)
      | ok d => exact .inr (.inr ⟨u, d, rfl, rfl, rfl⟩)

theorem names_iff : Names payload u d ↔ decodePayload payload = .ok (u, d) := by
  cases payload with
  | json data =>
      have hnames : Names (.json data) u d ↔ data.intItem "user_id" = .ok u ∧ data.intItem "document_id" = .ok d :=
        ⟨fun ⟨_, h, hud⟩ => by cases h; exact hud, fun hud => ⟨data, rfl, hud⟩⟩
      rw [hnames]
      rcases decodePayload_cases data with ⟨e, hu, h⟩ | ⟨u', e, hu, hd, h⟩ | ⟨u', d', hu, hd, h⟩
      · simp [hu, h]
      · simp [hd, h]
      · simp [hu, hd, h]
  | other t => exact ⟨fun ⟨_, h, _⟩ => (by cases h), fun h => (by cases h)⟩
  | nested t => exact ⟨fun ⟨_, h, _⟩ => (by cases h), fun h => (by cases h)⟩
  | binary t => exact ⟨fun ⟨_, h, _⟩ => (by cases h), fun h => (by cases h)⟩

theorem escapes_json_iff {data : Json} :
    Escapes (.json data) ↔ data.intItem "user_id" = .error .overflowError ∨
      ∃ u, data.intItem "user_id" = .ok u ∧ data.intItem "document_id" = .error .overflowError := by
  constructor
  · intro h
    cases h with
    | userId hx hinf => exact .inl (Json.intItem_eq_overflowError.mpr ⟨_, hx, hinf⟩)
    | documentId hu hx hinf => exact .inr ⟨_, hu, Json.intItem_eq_overflowError.mpr ⟨_, hx, hinf⟩⟩
  · rintro (h | ⟨u, hu, h⟩)
    · obtain ⟨x, hx, hinf⟩ := Json.intItem_eq_overflowError.mp h
      exact .userId hx hinf
    · obtain ⟨x, hx, hinf⟩ := Json.intItem_eq_overflowError.mp h
      exact .documentId hu hx hinf

theorem badPayload_of_intItem {data : Json} {key : String} (h : data.intItem key = .error e) :
    badPayload e = false ↔ e = .overflowError := by
  rcases Json.intItem_error h with rfl | rfl | rfl | rfl <;> simp [badPayload]

/-- The errors that the first `except` does not name are those of the escaping payloads. -/
theorem badPayload_iff (h : decodePayload payload = .error e) : badPayload e = false ↔ Escapes payload := by
  cases payload with
  | other t =>
      cases h
      exact ⟨fun h => (by cases h), fun h => (by cases h)⟩
  | binary t =>
      cases h
      exact ⟨fun h => (by cases h), fun h => (by cases h)⟩
  | nested t =>
      cases h
      exact ⟨fun _ => .nested t, fun _ => rfl⟩
  | json data =>
      rw [escapes_json_iff]
      rcases decodePayload_cases data with ⟨e', hu, h'⟩ | ⟨u, e', hu, hd, h'⟩ | ⟨u, d, -, -, h'⟩
      · cases h.symm.trans h'
        simp [badPayload_of_intItem hu, hu]
      · cases h.symm.trans h'
        simp [badPayload_of_intItem hd, hu, hd]
      · cases h.symm.trans h'

/-- A payload that names a user and a document is converted without an exception. -/
theorem not_escapes (h : decodePayload payload = .ok (u, d)) : ¬ Escapes payload := by
  obtain ⟨data, hdata, hu, hd⟩ := names_iff.mpr h
  cases payload with
  | json v =>
      cases hdata
      simp [escapes_json_iff, hu, hd]
  | other t => cases h
  | nested t => cases h
  | binary t => cases h

/-! ## The second `try` -/

/-- `except Exception` catches whatever the calls raise. -/
theorem returns_of_ends (h : decodePayload payload = .ok (u, d)) {faults : Prop} {r : Except Exn Unit} {s' : State}
    (hends : (handle payload).Ends exec faults s r s') : r = .ok () := by
  unfold handle at hends
  rw [h] at hends
  obtain ⟨q, t, -, hrest⟩ := ends_andThen.mp hends
  cases q <;> exact hrest.1

theorem removeEntry_yields :
    published.Yields (removeEntry u d) s (if d ∈ s.tape u then 1 else 0)
      (s.setZset (entriesKey u) ((s.tape u).zrem d)) [] := by
  refine Aspect.Yields.perform ?_
  rintro s rfl
  exact ⟨rfl, rfl⟩

theorem setZset_zrem_of_not_mem (hd : d ∉ s.tape u) :
    s.setZset (entriesKey u) ((s.tape u).zrem d) = s := by
  have hput : put s.redis.zsets (entriesKey u) (s.redis.zsets (entriesKey u)) = s.redis.zsets :=
    Function.update_eq_self _ _
  rw [Redis.ZSet.zrem_of_not_mem hd, State.tape, State.setZset, hput]

theorem handle_yields (h : decodePayload payload = .ok (u, d)) :
    published.Yields (handle payload) s ()
      (if d ∈ s.tape u then s.setZset (entriesKey u) ((s.tape u).zrem d) else s)
      (if d ∈ s.tape u then [(channelFor u, .tapeEntryRemoved u d)] else []) := by
  unfold handle
  rw [h]
  refine Aspect.Yields.tryCatch (removeEntry_yields.bind_nil ?_)
  by_cases hd : d ∈ s.tape u
  · simp only [if_pos hd]
    exact Aspect.Yields.perform fun s hs => ⟨rfl, hs⟩
  · simp only [if_neg hd, setZset_zrem_of_not_mem hd]
    exact Aspect.Yields.pure

/-- A payload that does not decode leads to no call at all. -/
theorem handle_of_error (h : decodePayload payload = .error e) :
    handle payload = if badPayload e then .ret () else .raise (.builtin e) := by
  unfold handle
  rw [h]
  rfl

end Notifications

open Notifications

/-- Where the first `except` does not match, the exception leaves `_handle`. -/
theorem Survives.not_escapes {payload : Text} {s : State} (h : Survives payload s) : ¬ Escapes payload := by
  intro hesc
  cases hdecode : decodePayload payload with
  | ok x => exact Notifications.not_escapes hdecode hesc
  | error e =>
      have hhandle : handle payload = if badPayload e then .ret () else .raise (.builtin e) :=
        handle_of_error hdecode
      rw [(badPayload_iff hdecode).mpr hesc] at hhandle
      have hraises : (handle payload).Ends exec True s (.error (.builtin e)) s := by
        rw [hhandle]
        exact ⟨rfl, rfl⟩
      cases h.returns _ _ hraises

theorem survives_iff {payload : Text} {s : State} : Survives payload s ↔ ¬ Escapes payload := by
  refine ⟨Survives.not_escapes, fun hesc => ?_⟩
  cases h : decodePayload payload with
  | ok x =>
      obtain ⟨u, d⟩ := x
      refine ⟨fun r s' hends => returns_of_ends h hends, fun u' d' hnames => ?_, fun hno => ?_⟩
      · cases h.symm.trans (names_iff.mp hnames)
        obtain ⟨s', heval, rfl, hnotes⟩ := handle_yields (s := s) h s rfl
        exact ⟨congrArg Prod.snd heval, hnotes⟩
      · exact absurd ⟨u, d, names_iff.mpr h⟩ hno
  | error e =>
      have hhandle : handle payload = .ret () := by
        rw [handle_of_error h, if_pos (eq_true_of_ne_false (mt (badPayload_iff h).mp hesc))]
      refine ⟨fun r s' hends => ?_, fun u d hnames => ?_, fun _ => ?_⟩
      · rw [hhandle] at hends
        exact hends.1
      · cases h.symm.trans (names_iff.mp hnames)
      · rw [hhandle]
        exact ⟨rfl, rfl⟩

/-- `{"user_id": Infinity, "document_id": 7}` -/
def Sample.infinite : Text := .json (.obj [("user_id", .float (.inf false)), ("document_id", .int 7)])

/-- `int` of an infinite float is an `OverflowError`. -/
theorem infinite_not_survived : ¬ Survives Sample.infinite { redis := .empty, db := .start [] } :=
  fun h => h.not_escapes (.userId rfl ⟨false, rfl⟩)

end TapeService
