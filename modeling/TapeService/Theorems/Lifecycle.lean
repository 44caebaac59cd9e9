import TapeService.Limiting.Lease
import TapeService.Lemmas.Sessions

/-!
# The lifecycle of a session

A session is a lease: issued to a user, renewed by every validation, and over when it is revoked, when it has
not been validated for the idle TTL, or at its absolute deadline. Redis keeps the one limit, and the payload,
which every validation writes back, keeps the other.
-/

namespace TapeService.Sessions

open Interleaving Interleaving.Program Python Leases

def Job.raw : Job → String
  | .issue raw _ => raw
  | .validate raw => raw
  | .validateAsync raw => raw
  | .revoke raw => raw

def Job.issued? : Job → Option String
  | .issue raw _ => some raw
  | _ => none

theorem Job.key_eq [HashLib] (job : Job) : job.key = Sessions.key (hash job.raw) := by
  cases job <;> rfl

theorem Job.not_issued_after {before after : List (Int × Job)} {t : Int} {raw : String} {userId : Int}
    (hdistinct : ((before ++ (t, .issue raw userId) :: after).filterMap fun x => x.2.issued?).Nodup) :
    ∀ x ∈ after, x.2.issued? ≠ some raw := by
  intro x hx hraw
  have hissued : (((t, .issue raw userId) :: after : List (Int × Job)).filterMap fun x => x.2.issued?) =
      raw :: after.filterMap fun x => x.2.issued? := List.filterMap_cons_some rfl
  rw [List.filterMap_append, hissued] at hdistinct
  have hcons := (List.nodup_append.mp hdistinct).2.1
  exact (List.nodup_cons.mp hcons).1 (List.mem_filterMap.mpr ⟨x, hx, hraw⟩)

section
variable [DatetimeLib]

/-! ## The property -/

/-- When the id has been validated. -/
def validations (raw : String) (history : List (Int × Job)) : List Int :=
  history.filterMap fun x => if x.2 = .validate raw ∨ x.2 = .validateAsync raw then some x.1 else none

/-- The session that the id stands for at the time: its user and the two ends of its time are those of the one
`issue`, no `revoke` has followed, its time is not over, and its uses have never been the idle TTL apart. -/
def Stands (settings : Settings) (history : List (Int × Job)) (raw : String) (t : Int) (sess : Session) : Prop :=
  ∃ t₀ before after, history = before ++ (t₀, .issue raw sess.userId) :: after ∧
    (∀ x ∈ after, x.2 ≠ .revoke raw) ∧ t < t₀ + settings.absolute ∧
    (t₀ :: validations raw after ++ [t]).IsChain (fun a b => b < a + settings.idle) ∧
    DatetimeLib.utc t₀ = some sess.createdAt ∧ DatetimeLib.utc (t₀ + settings.absolute) = some sess.expiresAt ∧
    DatetimeLib.utc t = some sess.lastSeen

namespace Lifecycle

/-! ## What the jobs do to a session -/

variable {settings : Settings} {raw : String} {t : Int}

/-- What the job does to the session with the id. An `issue` that raises does nothing. -/
def act? (settings : Settings) (raw : String) (x : Int × Job) : Option (Int × Act Int) :=
  if x.2.raw = raw then
    match x.2 with
    | .issue _ userId =>
        if (DatetimeLib.utc (x.1 + settings.absolute)).isSome then some (x.1, .grant userId) else none
    | .validate _ => some (x.1, .use)
    | .validateAsync _ => some (x.1, .use)
    | .revoke _ => some (x.1, .revoke)
  else none

theorem act?_eq_use {x : Int × Job} :
    act? settings raw x = some (t, .use) ↔ x.1 = t ∧ (x.2 = .validate raw ∨ x.2 = .validateAsync raw) := by
  obtain ⟨t', job⟩ := x
  cases job with
  | issue raw' userId => simp [act?]
  | validate raw' => by_cases hraw : raw' = raw <;> simp [act?, Job.raw, hraw]
  | validateAsync raw' => by_cases hraw : raw' = raw <;> simp [act?, Job.raw, hraw]
  | revoke raw' => simp [act?]

theorem act?_eq_grant {x : Int × Job} {userId : Int} :
    act? settings raw x = some (t, .grant userId) ↔
      x = (t, .issue raw userId) ∧ (DatetimeLib.utc (t + settings.absolute)).isSome := by
  obtain ⟨t', job⟩ := x
  cases job with
  | issue raw' userId' =>
      by_cases hraw : raw' = raw
      · simp only [act?, Job.raw, hraw]
        grind
      · simp [act?, Job.raw, hraw]
  | validate raw' => simp [act?]
  | validateAsync raw' => simp [act?]
  | revoke raw' => simp [act?]

theorem act?_eq_revoke {x : Int × Job} : act? settings raw x = some (t, .revoke) ↔ x = (t, .revoke raw) := by
  obtain ⟨t', job⟩ := x
  cases job with
  | issue raw' userId' => simp [act?]
  | validate raw' => simp [act?]
  | validateAsync raw' => simp [act?]
  | revoke raw' => by_cases hraw : raw' = raw <;> simp [act?, Job.raw, hraw]

theorem act?_time {x : Int × Job} {a : Int × Act Int} (h : act? settings raw x = some a) : x.1 = a.1 := by
  obtain ⟨t, act⟩ := a
  cases act with
  | grant userId => rw [(act?_eq_grant.mp h).1]
  | use => exact (act?_eq_use.mp h).1
  | revoke => rw [act?_eq_revoke.mp h]

/-- The acts are uses only if the id is not revoked, and then they are its validations. -/
theorem times_of_uses {history : List (Int × Job)}
    (huses : ∀ x ∈ history.filterMap (act? settings raw), x.2 = .use) :
    (∀ x ∈ history, x.2 ≠ .revoke raw) ∧
      (history.filterMap (act? settings raw)).map Prod.fst = validations raw history := by
  constructor
  · rintro ⟨t, job⟩ hx rfl
    cases huses (t, .revoke) (List.mem_filterMap.mpr ⟨_, hx, act?_eq_revoke.mpr rfl⟩)
  · rw [List.map_filterMap, validations]
    refine List.filterMap_congr fun x hx => ?_
    cases hact : act? settings raw x with
    | none =>
        have hnot : ¬ (x.2 = .validate raw ∨ x.2 = .validateAsync raw) := by
          intro hv
          rw [act?_eq_use.mpr ⟨rfl, hv⟩] at hact
          cases hact
        rw [if_neg hnot]
        rfl
    | some a =>
        obtain ⟨t, act⟩ := a
        obtain rfl : act = .use := huses (t, act) (List.mem_filterMap.mpr ⟨x, hx, hact⟩)
        obtain ⟨rfl, hv⟩ := act?_eq_use.mp hact
        rw [if_pos hv]
        rfl

theorem uses_of_not_issued {history : List (Int × Job)} (hissued : ∀ x ∈ history, x.2.issued? ≠ some raw)
    (hrevoked : ∀ x ∈ history, x.2 ≠ .revoke raw) : ∀ x ∈ history.filterMap (act? settings raw), x.2 = .use := by
  rintro ⟨t, act⟩ ha
  obtain ⟨x, hx, hact⟩ := List.mem_filterMap.mp ha
  cases act with
  | grant userId =>
      obtain ⟨rfl, -⟩ := act?_eq_grant.mp hact
      exact absurd rfl (hissued _ hx)
  | use => rfl
  | revoke =>
      obtain rfl := act?_eq_revoke.mp hact
      exact absurd rfl (hrevoked _ hx)

theorem alive_iff_stands {history : List (Int × Job)} {sess : Session}
    (hdistinct : (history.filterMap fun x => x.2.issued?).Nodup) (hbefore : ∀ x ∈ history, x.1 ≤ t) :
    (∃ l, run settings.idle settings.absolute (history.filterMap (act? settings raw)) = some l ∧
      Alive settings.idle settings.absolute t l ∧ sess.userId = l.owner ∧
      DatetimeLib.utc l.granted = some sess.createdAt ∧
      DatetimeLib.utc (l.granted + settings.absolute) = some sess.expiresAt ∧
      DatetimeLib.utc t = some sess.lastSeen) ↔
      Stands settings history raw t sess := by
  have hacts : ∀ x ∈ history.filterMap (act? settings raw), x.1 ≤ t := by
    intro a ha
    obtain ⟨x, hx, hact⟩ := List.mem_filterMap.mp ha
    exact act?_time hact ▸ hbefore x hx
  constructor
  · rintro ⟨l, hl, halive, huser, hcreated, hexpires, hseen⟩
    obtain ⟨before, after, hsplit, huses, habsolute, hgaps⟩ := (alive_iff hacts).mp ⟨l, hl, halive, rfl, rfl⟩
    obtain ⟨earlier, rest, rfl, -, hrest⟩ := List.filterMap_eq_append_iff.mp hsplit
    obtain ⟨skipped, x, after', rfl, -, hx, rfl⟩ := List.filterMap_eq_cons_iff.mp hrest
    obtain ⟨rfl, -⟩ := act?_eq_grant.mp hx
    obtain ⟨hrevoked, htimes⟩ := times_of_uses huses
    rw [htimes] at hgaps
    refine ⟨l.granted, earlier ++ skipped, after', ?_, hrevoked, habsolute, hgaps, hcreated, hexpires, hseen⟩
    rw [List.append_assoc, huser]
  · rintro ⟨t₀, before, after, rfl, hrevoked, habsolute, hgaps, hcreated, hexpires, hseen⟩
    have huses : ∀ x ∈ after.filterMap (act? settings raw), x.2 = .use :=
      uses_of_not_issued (Job.not_issued_after hdistinct) hrevoked
    have hgrant : act? settings raw (t₀, .issue raw sess.userId) = some (t₀, .grant sess.userId) :=
      act?_eq_grant.mpr ⟨rfl, by rw [hexpires]; rfl⟩
    rw [← (times_of_uses huses).2] at hgaps
    obtain ⟨l, hl, halive, hl₁, rfl⟩ := (alive_iff hacts).mpr
      ⟨before.filterMap (act? settings raw), after.filterMap (act? settings raw),
        by rw [List.filterMap_append, List.filterMap_cons_some hgrant], huses, habsolute, hgaps⟩
    exact ⟨l, hl, halive, hl₁.symm, hcreated, hexpires, hseen⟩

end Lifecycle

variable [HashLib]

/-! ## Histories -/

/-- The jobs, each with the time at which it runs, may have been served one after the other: time does not go back
and is one that a `datetime` can show, no id is issued twice, and the hashes of the ids do not collide. -/
structure Orderly (history : List (Int × Job)) : Prop where
  ordered : (history.map Prod.fst).Pairwise (· ≤ ·)
  distinct : (history.filterMap fun x => x.2.issued?).Nodup
  collisionFree : ∀ x ∈ history, ∀ y ∈ history, hash x.2.raw = hash y.2.raw → x.2.raw = y.2.raw
  inRange : ∀ x ∈ history, ∃ now, DatetimeLib.utc x.1 = some now

/-- What the job returns at the time and leaves. -/
def serve (settings : Settings) (s : State) (x : Int × Job) : Except Exn Out × State :=
  (x.2.body settings 0).eval exec { s with now := x.1 }

/-- The state after the jobs, before which there are no sessions. -/
def served (settings : Settings) (history : List (Int × Job)) : State :=
  history.foldl (fun s x => (serve settings s x).2) { now := 0, entries := fun _ => none }

namespace Lifecycle

/-! ## One job -/

variable {settings : Settings} {raw : String} {s : State} {t T : Int} {job : Job} {l : Lease Int Int}

/-- The entry is that of the lease; without one it is not there, or out of date from `T` on. -/
def Holds (settings : Settings) (raw : String) (T : Int) (s : State) : Option (Lease Int Int) → Prop
  | none => ∀ v expiry, s.entries (key (hash raw)) = some (v, expiry) → expiry ≤ T
  | some l => ∃ created expires seen, DatetimeLib.utc l.granted = some created ∧
      DatetimeLib.utc (l.granted + settings.absolute) = some expires ∧
      s.entries (key (hash raw)) = some (dumps (payload l.owner created expires seen), l.used + settings.idle)

theorem Holds.later {l : Option (Lease Int Int)} (h : Holds settings raw T s l) (ht : T ≤ t) :
    Holds settings raw t s l := by
  cases l with
  | none => exact fun v expiry hv => (h v expiry hv).trans ht
  | some l => exact h

/-- A job about another id leaves the session alone. -/
theorem Holds.frame {l : Option (Lease Int Int)} (h : Holds settings raw T s l)
    (hk : key (hash raw) ≠ job.key) : Holds settings raw T (serve settings s (t, job)).2 l := by
  have hentry : (serve settings s (t, job)).2.entries (key (hash raw)) = s.entries (key (hash raw)) :=
    eval_rel (R := fun s s' : State => s'.entries (key (hash raw)) = s.entries (key (hash raw))) (fun _ => rfl)
      (fun _ _ _ h h' => h'.trans h) body_touches (fun c hc s => exec_touches hc hk s) { s with now := t }
  cases l with
  | none => exact fun v expiry hv => h v expiry (hentry.symm.trans hv)
  | some l =>
      obtain ⟨created, expires, seen, hcreated, hexpires, hl⟩ := h
      exact ⟨created, expires, seen, hcreated, hexpires, hentry.trans hl⟩

/-- A lease that has ended is not found, by Redis or by `validate`. -/
theorem validate_dead {l : Option (Lease Int Int)} {now : Datetime} (h : Holds settings raw T s l) (ht : T ≤ t)
    (hnow : DatetimeLib.utc t = some now)
    (hdead : ∀ l', l = some l' → ¬ Alive settings.idle settings.absolute t l') :
    ∃ s', (validate settings raw).eval exec { s with now := t } = (.ok none, s') ∧ Holds settings raw t s' none := by
  cases l with
  | none => exact ⟨_, validate_absent (get_of_over (h.later ht)), h.later ht⟩
  | some l =>
      obtain ⟨created, expires, seen, hcreated, hexpires, hentry⟩ := h
      by_cases hgap : t < l.used + settings.idle
      · have hover : l.granted + settings.absolute ≤ t := not_lt.mp fun habsolute => hdead l rfl ⟨hgap, habsolute⟩
        have hle : Datetime.le expires now = .ok true := by
          rw [le_utc hexpires hnow, decide_eq_true hover]
        refine ⟨_, (validate_present (get_of_live hentry hgap) hnow).trans (refresh_over hle), ?_⟩
        intro v expiry hv
        simp [State.put] at hv
      · have hexpired : ∀ v expiry, s.entries (key (hash raw)) = some (v, expiry) → expiry ≤ t := by
          intro v expiry hv
          obtain ⟨-, rfl⟩ := Prod.mk.inj (Option.some.inj (hentry.symm.trans hv))
          exact not_lt.mp hgap
        exact ⟨_, validate_absent (get_of_over hexpired), hexpired⟩

theorem validate_alive {now : Datetime} (hidle : 0 < settings.sessionIdleTtlDays)
    (h : Holds settings raw T s (some l))
    (hnow : DatetimeLib.utc t = some now) (halive : Alive settings.idle settings.absolute t l) :
    ∃ created expires s', DatetimeLib.utc l.granted = some created ∧
      DatetimeLib.utc (l.granted + settings.absolute) = some expires ∧
      (validate settings raw).eval exec { s with now := t } =
        (.ok (some { userId := l.owner, createdAt := created, expiresAt := expires, lastSeen := now }), s') ∧
      Holds settings raw t s' (some { l with used := t }) := by
  obtain ⟨created, expires, seen, hcreated, hexpires, hentry⟩ := h
  have hle : Datetime.le expires now = .ok false := by
    rw [le_utc hexpires hnow, decide_eq_false (not_le.mpr halive.2)]
  refine ⟨created, expires, _, hcreated, hexpires,
    (validate_present (get_of_live hentry halive.1) hnow).trans (refresh_renews hidle hle), ?_⟩
  exact ⟨created, expires, now, hcreated, hexpires, by simp [State.put]⟩

theorem validate_use {l : Option (Lease Int Int)} {now : Datetime} (hidle : 0 < settings.sessionIdleTtlDays)
    (h : Holds settings raw T s l) (ht : T ≤ t) (hnow : DatetimeLib.utc t = some now) :
    Holds settings raw t ((validate settings raw).eval exec { s with now := t }).2
      (step settings.idle settings.absolute l (t, .use)) := by
  by_cases halive : ∃ l', l = some l' ∧ Alive settings.idle settings.absolute t l'
  · obtain ⟨l', rfl, halive⟩ := halive
    obtain ⟨created, expires, s', -, -, heval, hs'⟩ := validate_alive hidle h hnow halive
    rw [heval, step_use_of_alive halive]
    exact hs'
  · have hdead : ∀ l', l = some l' → ¬ Alive settings.idle settings.absolute t l' :=
      fun l' hl h => halive ⟨l', hl, h⟩
    obtain ⟨s', heval, hs'⟩ := validate_dead h ht hnow hdead
    rw [heval, step_use_of_dead hdead]
    exact hs'

theorem issue_grants {userId : Int} {now : Datetime} {l : Option (Lease Int Int)}
    (hidle : 0 < settings.sessionIdleTtlDays)
    (h : Holds settings raw T s l) (ht : T ≤ t) (hnow : DatetimeLib.utc t = some now) :
    Holds settings raw t (serve settings s (t, .issue raw userId)).2
      ((act? settings raw (t, .issue raw userId)).toList.foldl (step settings.idle settings.absolute) l) := by
  have hserve : (serve settings s (t, .issue raw userId)).2 =
      ((issue settings raw userId).eval exec { s with now := t }).2 := by
    rw [serve, Job.body, eval_map]
  rw [hserve]
  cases hexpires : DatetimeLib.utc (t + settings.absolute) with
  | none =>
      have hact : act? settings raw (t, .issue raw userId) = none := by simp [act?, Job.raw, hexpires]
      rw [issue_overflow hnow hexpires, hact]
      exact h.later ht
  | some expires =>
      have hact : act? settings raw (t, .issue raw userId) = some (t, .grant userId) := by
        simp [act?, Job.raw, hexpires]
      rw [issue_eval hidle hnow hexpires, hact]
      exact ⟨now, expires, now, hnow, hexpires, by simp [State.put]⟩

/-- Every job does to the session what its act does to the lease. -/
theorem serve_acts {l : Option (Lease Int Int)} {now : Datetime} (hidle : 0 < settings.sessionIdleTtlDays)
    (h : Holds settings raw T s l) (ht : T ≤ t) (hnow : DatetimeLib.utc t = some now)
    (hhash : hash job.raw = hash raw → job.raw = raw) :
    Holds settings raw t (serve settings s (t, job)).2
      ((act? settings raw (t, job)).toList.foldl (step settings.idle settings.absolute) l) := by
  by_cases hraw : job.raw = raw
  · subst hraw
    cases job with
    | issue raw userId => exact issue_grants hidle h ht hnow
    | validate raw =>
        have hact : act? settings raw (t, .validate raw) = some (t, .use) := if_pos rfl
        rw [serve, Job.body, eval_map, Job.raw, hact]
        exact validate_use hidle h ht hnow
    | validateAsync raw =>
        have hact : act? settings raw (t, .validateAsync raw) = some (t, .use) := if_pos rfl
        rw [serve, Job.body, eval_map, Job.raw, hact]
        exact validate_use hidle h ht hnow
    | revoke raw =>
        have hact : act? settings raw (t, .revoke raw) = some (t, .revoke) := if_pos rfl
        rw [serve, Job.body, eval_map, Job.raw, hact, revoke_eval]
        intro v expiry hv
        simp [State.put] at hv
  · have hact : act? settings raw (t, job) = none := if_neg hraw
    have hkey : key (hash raw) ≠ job.key := fun hk => hraw (hhash (key_injective (job.key_eq.symm.trans hk.symm)))
    rw [hact]
    exact (h.later ht).frame hkey

/-! ## A history -/

theorem served_concat {history : List (Int × Job)} {x : Int × Job} :
    served settings (history ++ [x]) = (serve settings (served settings history) x).2 := by
  rw [served, List.foldl_append]
  rfl

/-- After the history the session is what its acts have made of the lease. -/
theorem served_runs {history : List (Int × Job)} (hidle : 0 < settings.sessionIdleTtlDays)
    (hordered : (history.map Prod.fst).Pairwise (· ≤ ·))
    (hrange : ∀ x ∈ history, ∃ now, DatetimeLib.utc x.1 = some now)
    (hhash : ∀ x ∈ history, hash x.2.raw = hash raw → x.2.raw = raw) (hT : ∀ x ∈ history, x.1 ≤ T) :
    Holds settings raw T (served settings history)
      (run settings.idle settings.absolute (history.filterMap (act? settings raw))) := by
  induction history using List.reverseRecOn generalizing T with
  | nil => exact nofun
  | append_singleton history x ih =>
      obtain ⟨t, job⟩ := x
      rw [List.map_append, List.pairwise_append] at hordered
      obtain ⟨hordered, -, hlast⟩ := hordered
      obtain ⟨now, hnow⟩ := hrange (t, job) (by simp)
      have hbefore : ∀ x ∈ history, x.1 ≤ t := fun x hx => hlast x.1 (List.mem_map_of_mem hx) t (by simp)
      have hs := ih hordered (fun x hx => hrange x (List.mem_append_left _ hx))
        (fun x hx => hhash x (List.mem_append_left _ hx)) hbefore
      have hacts := serve_acts hidle hs le_rfl hnow (hhash (t, job) (by simp))
      rw [served_concat, List.filterMap_append, run_append]
      refine Holds.later ?_ (hT (t, job) (by simp))
      cases hact : act? settings raw (t, job) with
      | none => simpa [hact] using hacts
      | some a => simpa [hact] using hacts

theorem validation_eval {history : List (Int × Job)} (hidle : 0 < settings.sessionIdleTtlDays)
    (h : Orderly (history ++ [(t, job)])) (hraw : job.raw = raw) :
    ∃ o, ((validate settings raw).eval exec { served settings history with now := t }).1 = .ok o ∧
      ∀ sess, o = some sess ↔ Stands settings history raw t sess := by
  have hordered := h.ordered
  have hdistinct := h.distinct
  rw [List.map_append, List.pairwise_append] at hordered
  rw [List.filterMap_append] at hdistinct
  have hbefore : ∀ x ∈ history, x.1 ≤ t := fun x hx => hordered.2.2 x.1 (List.mem_map_of_mem hx) t (by simp)
  obtain ⟨now, hnow⟩ := h.inRange (t, job) (by simp)
  have hholds : Holds settings raw t (served settings history)
      (run settings.idle settings.absolute (history.filterMap (act? settings raw))) := by
    refine served_runs hidle hordered.1 (fun x hx => h.inRange x (List.mem_append_left _ hx)) ?_ hbefore
    intro x hx hhash
    subst hraw
    exact h.collisionFree x (List.mem_append_left _ hx) (t, job) (by simp) hhash
  have hstands : ∀ sess, _ ↔ Stands settings history raw t sess :=
    fun sess => alive_iff_stands (List.nodup_append.mp hdistinct).1 hbefore
  by_cases halive : ∃ l, run settings.idle settings.absolute (history.filterMap (act? settings raw)) = some l ∧
      Alive settings.idle settings.absolute t l
  · obtain ⟨l, hl, halive⟩ := halive
    rw [hl] at hholds
    obtain ⟨created, expires, s', hcreated, hexpires, heval, -⟩ := validate_alive hidle hholds hnow halive
    refine ⟨_, congrArg Prod.fst heval, fun sess => ?_⟩
    rw [← hstands]
    constructor
    · intro hsess
      obtain rfl := Option.some.inj hsess
      exact ⟨l, hl, halive, rfl, hcreated, hexpires, hnow⟩
    · rintro ⟨l', hl', -, huser, hcreated', hexpires', hseen⟩
      obtain rfl := Option.some.inj (hl.symm.trans hl')
      obtain rfl := Option.some.inj (hcreated.symm.trans hcreated')
      obtain rfl := Option.some.inj (hexpires.symm.trans hexpires')
      obtain rfl := Option.some.inj (hnow.symm.trans hseen)
      rw [← huser]
  · have hdead : ∀ l, run settings.idle settings.absolute (history.filterMap (act? settings raw)) = some l →
        ¬ Alive settings.idle settings.absolute t l := fun l hl h => halive ⟨l, hl, h⟩
    obtain ⟨s', heval, -⟩ := validate_dead hholds le_rfl hnow hdead
    refine ⟨none, congrArg Prod.fst heval, fun sess => ⟨nofun, fun hsess => ?_⟩⟩
    obtain ⟨l, hl, hlive, -⟩ := (hstands sess).mpr hsess
    exact absurd hlive (hdead l hl)

end Lifecycle

open Lifecycle

/-- A validation returns the session that the id stands for, and none if there is none. -/
theorem validation_returns_standing {settings : Settings} {history : List (Int × Job)} {t : Int} {raw : String}
    {job : Job} (hidle : 0 < settings.sessionIdleTtlDays) (h : Orderly (history ++ [(t, job)]))
    (hjob : job = .validate raw ∨ job = .validateAsync raw) :
    ∃ o, (serve settings (served settings history) (t, job)).1 = .ok (.session o) ∧
      ∀ sess, o = some sess ↔ Stands settings history raw t sess := by
  rcases hjob with rfl | rfl
  · obtain ⟨o, ho, hstands⟩ := validation_eval hidle h rfl
    refine ⟨o, ?_, hstands⟩
    rw [serve, Job.body, eval_map]
    exact congrArg (Except.map Out.session) ho
  · obtain ⟨o, ho, hstands⟩ := validation_eval hidle h rfl
    refine ⟨o, ?_, hstands⟩
    rw [serve, Job.body, eval_map]
    exact congrArg (Except.map Out.session) ho

end

namespace Sample

open scoped Python.Utc

def day : Int := 86400 * 1000000

/-- The session of user 1 is used; that of user 2 is revoked. -/
def twoSessions : List (Int × Job) :=
  [(0, .issue raw 1), (day, .issue "other" 2), (10 * day, .validateAsync raw), (11 * day, .revoke "other")]

theorem twoSessions_orderly : Orderly (twoSessions ++ [(20 * day, .validate raw)]) where
  ordered := by decide
  distinct := by decide
  collisionFree := by decide
  inRange x _ := ⟨x.1, rfl⟩

end Sample

open scoped Python.Utc Sessions.Sample in
/-- User 1 still has the session twenty days after it has been issued. -/
theorem used_session_stands :
    (serve .default (served .default Sample.twoSessions) (20 * Sample.day, .validate Sample.raw)).1 =
        .ok (.session (some ⟨1, (0 : Int), 30 * Sample.day, 20 * Sample.day⟩)) ∧
      ∃ o, (serve .default (served .default Sample.twoSessions) (20 * Sample.day, .validate Sample.raw)).1 =
          .ok (.session o) ∧
        ∀ sess, o = some sess ↔ Stands .default Sample.twoSessions Sample.raw (20 * Sample.day) sess :=
  ⟨by rfl, validation_returns_standing (by decide) Sample.twoSessions_orderly (.inl rfl)⟩

end TapeService.Sessions
