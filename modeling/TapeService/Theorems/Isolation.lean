import TapeService.Lemmas.Generation
import TapeService.Lemmas.Keys

/-!
# Isolation

A tick serves each user as if there were no other: what it leaves of a user is what one generation of that
user alone leaves, whatever goes wrong for the others and however often `SCAN` yields a key.
-/

namespace TapeService

open Interleaving Interleaving.Program Python Redis

/-! ## The property -/

/-- What `SCAN` may yield: the key of every config hash, and the keys of source sets, in any order and any number
of times. -/
structure Scans (s : State) (keys : List String) : Prop where
  complete : ∀ userId, (s.cfg userId).entries ≠ [] → cfgKey userId ∈ keys
  sound : ∀ key ∈ keys, (∃ userId, key = cfgKey userId ∧ (s.cfg userId).entries ≠ []) ∨
    ∃ userId, key = cfgSourcesKey userId

section
variable [DatetimeLib]

/-- How the loop of a tick can end when the calls of the users in `faulty` can raise. -/
inductive Rounds (faulty : Int → Prop) (tokens : Nat → String) : Nat → List (Int × Bool) → State → State → Prop
  | done {k : Nat} {s : State} : Rounds faulty tokens k [] s s
  | round {k : Nat} {userId : Int} {dirty : Bool} {users : List (Int × Bool)} {s s' s'' : State} {r : Except Exn Unit}
      (h : (tickUser (tokens k) userId dirty).Ends exec (faulty userId) s r s')
      (hs : Rounds faulty tokens (k + 1) users s' s'') : Rounds faulty tokens k ((userId, dirty) :: users) s s''

/-- How a tick can end. -/
def TickEnds (faulty : Int → Prop) (tokens : Nat → String) (scanned : List String) (s s' : State) : Prop :=
  ∃ users, (listUsersWithConfig scanned).eval exec s = (.ok users, s) ∧ Rounds faulty tokens 0 users s s'

end

namespace Isolation

section
variable {s : State}

theorem listUsersWithConfig_eval {keys : List String} :
    (listUsersWithConfig keys).eval exec s = (.ok (keys.filterMap fun key => (listedUser? key).map fun userId =>
      (userId, decide ((s.redis.hashes key).get "dirty" = some "1"))), s) := by
  induction keys with
  | nil => rfl
  | cons key keys ih =>
      rw [List.filterMap_cons, listUsersWithConfig, listedUser?]
      by_cases hsources : startsWith key "tape:cfg:src:" = true
      · rw [if_pos hsources, if_pos hsources]
        exact ih
      · rw [if_neg hsources, if_neg hsources]
        cases Python.int (removePrefix key "tape:cfg:") with
        | none => exact ih
        | some userId =>
            have hget : (Client.hget key "dirty").eval exec s = (.ok ((s.redis.hashes key).get "dirty"), s) := rfl
            simp only
            rw [eval_bind_ok hget, eval_bind_ok ih]
            rfl

theorem mem_listed {keys : List String} {users : List (Int × Bool)} (hscan : Scans s keys)
    (h : (listUsersWithConfig keys).eval exec s = (.ok users, s)) {userId : Int} {dirty : Bool} :
    (userId, dirty) ∈ users ↔
      (s.cfg userId).entries ≠ [] ∧ dirty = decide ((s.cfg userId).get "dirty" = some "1") := by
  rw [listUsersWithConfig_eval] at h
  obtain rfl := Except.ok.inj (congrArg Prod.fst h)
  simp only [List.mem_filterMap, Option.map_eq_some_iff, Prod.mk.injEq]
  constructor
  · rintro ⟨key, hkey, u, hu, rfl, rfl⟩
    rcases hscan.sound key hkey with ⟨w, rfl, hw⟩ | ⟨w, rfl⟩
    · obtain rfl := Option.some.inj (listedUser?_cfgKey.symm.trans hu)
      exact ⟨hw, rfl⟩
    · rw [listedUser?_cfgSourcesKey] at hu
      cases hu
  · rintro ⟨hcfg, rfl⟩
    exact ⟨cfgKey userId, hscan.complete userId hcfg, userId, listedUser?_cfgKey, rfl, rfl⟩

/-- The users with a config are listed. -/
theorem served_iff {keys : List String} {users : List (Int × Bool)} (hscan : Scans s keys)
    (hlist : (listUsersWithConfig keys).eval exec s = (.ok users, s)) (v : Int) :
    v ∈ users.map Prod.fst ↔ (s.cfg v).entries ≠ [] := by
  rw [List.mem_map]
  constructor
  · rintro ⟨x, hx, rfl⟩
    exact ((mem_listed hscan hlist).mp hx).1
  · exact fun hcfg => ⟨_, (mem_listed hscan hlist).mpr ⟨hcfg, rfl⟩, rfl⟩

end

/-! ## The others -/

theorem quiet_of_generate {userId v : Int} {dirty : Bool} {t : String} {c : Call}
    (hc : GenerateCall t userId dirty c) (hne : userId ≠ v) : c.Quiet v := by
  cases c with
  | hset key mapping =>
      obtain ⟨rfl, -⟩ := hc
      exact ⟨id, fun h => hne (cfgKey_inj.mp h), id, id, id⟩
  | multiZcardDel key =>
      obtain ⟨rfl, -⟩ := hc
      exact ⟨fun h => hne (entriesKey_inj.mp h), id, id, id, id⟩
  | zaddNx key m p =>
      obtain rfl : key = entriesKey userId := hc
      exact ⟨fun h => hne (entriesKey_inj.mp h), id, id, id, id⟩
  | setNxEx key t =>
      obtain ⟨rfl, -⟩ := hc
      exact ⟨id, id, id, fun h => hne (lockKey_inj.mp h), id⟩
  | evalRelease key t =>
      obtain ⟨rfl, -⟩ := hc
      exact ⟨id, id, id, fun h => hne (lockKey_inj.mp h), id⟩
  | _ => first
      | exact hc.elim
      | exact ⟨id, id, id, id, id⟩

/-! ## Once more -/

theorem hset_dirty_twice {h : Hash} : (h.hset [("dirty", "0")]).hset [("dirty", "0")] = h.hset [("dirty", "0")] :=
  AList.insert_insert h

theorem wiped_twice {w : View} {dirty : Bool} :
    (((w.cleared dirty).marked dirty).cleared dirty).marked dirty = (w.cleared dirty).marked dirty := by
  cases dirty with
  | false => rfl
  | true => simp only [View.marked, View.cleared, if_true, hset_dirty_twice]

section
variable [DatetimeLib] {s s' : State} {userId v : Int} {dirty : Bool} {t : String} {faults : Prop}

theorem tickUser_ends {r : Except Exn Unit} (h : (tickUser t userId dirty).Ends exec faults s r s') :
    ∃ q, (generateForUser t userId dirty).Ends exec faults s q s' := by
  obtain ⟨q, s₁, h, hcatch⟩ := ends_andThen.mp h
  obtain ⟨q', s₂, h, hret⟩ := ends_andThen.mp h
  have h₁ : s₁ = s₂ := by cases q' <;> exact hret.2
  have h₂ : s' = s₁ := by cases q <;> exact hcatch.2
  exact ⟨q', h₂ ▸ h₁ ▸ h⟩

/-- However the round of one user ends, another is as before. -/
theorem round_other {r : Except Exn Unit} (h : (tickUser t userId dirty).Ends exec faults s r s')
    (hne : userId ≠ v) :
    s'.view v = s.view v := by
  obtain ⟨q, h⟩ := tickUser_ends h
  have htrans : ∀ a b c : State, b.view v = a.view v → c.view v = b.view v → c.view v = a.view v :=
    fun _ _ _ hb hc => hc.trans hb
  exact h.rel (R := fun a b => b.view v = a.view v) (fun _ => rfl) htrans generateForUser_uses
    fun c hc s => exec_view (quiet_of_generate hc hne)

/-- The round of a user whose calls do not raise leaves what one generation leaves. -/
theorem round_own {r : Except Exn Unit} (h : (tickUser t userId dirty).Ends exec False s r s') :
    s'.view userId = (s.view userId).after userId dirty := by
  obtain ⟨q, h⟩ := tickUser_ends h
  rw [← generateForUser_view (t := t) s, ends_iff_eval.mp h]

theorem after_no_sources {cfg : TapeConfig} {w : View} (hcfg : w.cfg.entries ≠ [])
    (hdec : decodeConfig userId w.cfg = .ok cfg)
    (hsources : w.sources = []) : w.after userId dirty = (w.cleared dirty).marked dirty := by
  rw [View.after, if_neg hcfg, hdec]
  exact if_pos hsources

theorem rebuilt_twice {cfg : TapeConfig} {w : View} :
    (w.outcome userId true cfg).outcome userId true { cfg with dirty := false } = w.outcome userId true cfg := by
  have hoffered : (w.outcome userId true cfg).offered userId true { cfg with dirty := false } =
      w.offered userId true cfg := rfl
  rw [View.outcome, hoffered]
  simp only [View.outcome, View.marked, View.cleared, View.base, if_true, hset_dirty_twice]

/-- A second generation of the same kind leaves everything as it is. -/
theorem after_after {w : View} : (w.after userId dirty).after userId dirty = w.after userId dirty := by
  have hsame : w.after userId dirty = w → (w.after userId dirty).after userId dirty = w.after userId dirty :=
    fun h => by rw [h, h]
  by_cases hcfg : w.cfg.entries = []
  · exact hsame (if_pos hcfg)
  cases hdec : decodeConfig userId w.cfg with
  | error e => exact hsame (by simp [View.after, hcfg, hdec])
  | ok cfg =>
      by_cases hsources : w.sources = []
      · rw [after_no_sources hcfg hdec hsources]
        cases dirty with
        | false => exact after_no_sources hcfg hdec hsources
        | true =>
            have hcfg' : ((w.cleared true).marked true).cfg = w.cfg.hset [("dirty", "0")] := rfl
            have hsources' : ((w.cleared true).marked true).sources = [] := hsources
            rw [after_no_sources (hcfg' ▸ Hash.hset_dirty_entries) (hcfg' ▸ decodeConfig_clean hdec) hsources',
              wiped_twice]
      · by_cases hlock : w.lock = none
        · have hready : w.Ready userId cfg := ⟨hcfg, hdec, hsources, hlock⟩
          rw [hready.after]
          cases dirty with
          | false =>
              rw [hready.toppedUp.after]
              exact View.outcome_of_mem fun d hd => View.mem_topUp.mpr (.inr hd)
          | true =>
              rw [hready.rebuilt.after, rebuilt_twice]
        · exact hsame (by simp [View.after, hcfg, hdec, hsources, hlock])

/-! ## The whole tick -/

variable {faulty : Int → Prop} {tokens : Nat → String} {k : Nat} {users : List (Int × Bool)}

theorem rounds_other (h : Rounds faulty tokens k users s s') (hv : v ∉ users.map Prod.fst) :
    s'.view v = s.view v := by
  induction h with
  | done => rfl
  | round h hs ih =>
      rw [List.map_cons, List.mem_cons, not_or] at hv
      exact (ih hv.2).trans (round_other h (Ne.symm hv.1))

/-- A user who is served, once or more often, is as after one generation. -/
theorem rounds_own (h : Rounds faulty tokens k users s s') (hf : ¬ faulty v)
    (hflag : ∀ x ∈ users, x.1 = v → x.2 = dirty)
    (hv : v ∈ users.map Prod.fst) : s'.view v = (s.view v).after v dirty := by
  induction h with
  | done => cases hv
  | @round k userId d users s s₁ s' r h hs ih =>
      have hflag' : ∀ x ∈ users, x.1 = v → x.2 = dirty := fun x hx => hflag x (List.mem_cons_of_mem _ hx)
      by_cases hne : userId = v
      · subst hne
        obtain rfl : d = dirty := hflag (userId, d) List.mem_cons_self rfl
        have hown := round_own (h.mono hf)
        by_cases hmore : userId ∈ users.map Prod.fst
        · rw [ih hflag' hmore, hown, after_after]
        · rw [rounds_other hs hmore, hown]
      · rw [ih hflag' ((List.mem_cons.mp hv).resolve_left (Ne.symm hne)), round_other h hne]

/-! ## The loop -/

theorem tickUser_ok {r : Except Exn Unit} (h : (tickUser t userId dirty).Ends exec faults s r s') : r = .ok () := by
  obtain ⟨q, s₁, -, hcatch⟩ := ends_andThen.mp h
  cases q <;> exact hcatch.1

theorem ends_tickUsers {r : Except Exn Unit} :
    (tickUsers tokens k users).Ends exec faults s r s' ↔
      r = .ok () ∧ Rounds (fun _ => faults) tokens k users s s' := by
  induction users generalizing k s with
  | nil =>
      constructor
      · rintro ⟨rfl, rfl⟩
        exact ⟨rfl, .done⟩
      · rintro ⟨rfl, h⟩
        cases h
        exact ⟨rfl, rfl⟩
  | cons x users ih =>
      obtain ⟨userId, dirty⟩ := x
      unfold tickUsers
      rw [bind_eq, ends_andThen]
      constructor
      · rintro ⟨q, s₁, h, hrest⟩
        obtain rfl := tickUser_ok h
        obtain ⟨rfl, hrounds⟩ := ih.mp hrest
        exact ⟨rfl, .round h hrounds⟩
      · rintro ⟨rfl, h⟩
        cases h with
        | @round _ _ _ _ _ s₁ _ r h hs =>
            obtain rfl := tickUser_ok h
            exact ⟨_, s₁, h, ih.mpr ⟨rfl, hs⟩⟩

/-- Without faults, a tick ends as its program does. -/
theorem tickEnds_iff {scanned : List String} :
    TickEnds (fun _ => False) tokens scanned s s' ↔ (tick tokens scanned).eval exec s = (.ok (), s') := by
  unfold tick
  rw [eval_bind_ok listUsersWithConfig_eval, ← ends_iff_eval, ends_tickUsers]
  constructor
  · rintro ⟨users, hlist, h⟩
    rw [listUsersWithConfig_eval] at hlist
    obtain rfl := Except.ok.inj (congrArg Prod.fst hlist)
    exact ⟨rfl, h⟩
  · rintro ⟨-, h⟩
    exact ⟨_, listUsersWithConfig_eval, h⟩

theorem exists_tickEnds (tokens : Nat → String) (scanned : List String) (s : State) :
    ∃ s', TickEnds (fun _ => False) tokens scanned s s' :=
  ⟨_, _, listUsersWithConfig_eval, (ends_tickUsers.mp (ends_eval _ _)).2⟩

theorem view_of_tickEnds {faulty : Int → Prop} {scanned : List String} (hscan : Scans s scanned)
    (h : TickEnds faulty tokens scanned s s') {v : Int} (hv : ¬ faulty v) (hcfg : (s.cfg v).entries ≠ []) (t : String) :
    s'.view v = ((generateForUser t v (decide ((s.cfg v).get "dirty" = some "1"))).eval exec s).2.view v := by
  obtain ⟨users, hlist, hrounds⟩ := h
  rw [generateForUser_view]
  refine rounds_own hrounds hv (fun x hx he => ?_) ((served_iff hscan hlist v).mpr hcfg)
  subst he
  exact ((mem_listed hscan hlist).mp hx).2

theorem view_of_unconfigured {faulty : Int → Prop} {scanned : List String} (hscan : Scans s scanned)
    (h : TickEnds faulty tokens scanned s s') {v : Int} (hcfg : (s.cfg v).entries = []) : s'.view v = s.view v := by
  obtain ⟨users, hlist, hrounds⟩ := h
  exact rounds_other hrounds fun hv => (served_iff hscan hlist v).mp hv hcfg

end

end Isolation

section
variable [DatetimeLib]

/-- The program of a tick ends well and leaves of each user what one generation leaves, when no call raises. -/
theorem tick_generates {s : State} {tokens : Nat → String} {scanned : List String} (hscan : Scans s scanned) :
    ∃ s', (tick tokens scanned).eval exec s = (.ok (), s') ∧
      (∀ v, (s.cfg v).entries ≠ [] → ∀ t,
        s'.view v = ((generateForUser t v (decide ((s.cfg v).get "dirty" = some "1"))).eval exec s).2.view v) ∧
      ∀ v, (s.cfg v).entries = [] → s'.view v = s.view v := by
  obtain ⟨s', h⟩ := Isolation.exists_tickEnds tokens scanned s
  exact ⟨s', Isolation.tickEnds_iff.mp h, fun _ hcfg t => Isolation.view_of_tickEnds hscan h id hcfg t,
    fun _ hcfg => Isolation.view_of_unconfigured hscan h hcfg⟩

end

section
open scoped Python.Utc

namespace Sample

/-- A config of which the tape is to be built. -/
def stored : Hash := Hash.hset ∅ (configMapping .asc .compact 20 none none)

/-- `SCAN` yields one key twice. -/
def scanned : List String := [cfgKey 1, cfgSourcesKey 2, cfgKey 2, cfgKey 1, cfgSourcesKey 1]

end Sample

end

end TapeService
