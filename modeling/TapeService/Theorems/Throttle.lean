import TapeService.Lemmas.Limiter
import TapeService.Lemmas.Web

/-!
# Logins that overtake each other

The limiter of the login is shared by the threads of the api, and a request reads the clock before it takes the
lock of its bucket. So requests are counted under times that are not in order, and buckets can be made twice when
the first logins come together. Still no more than the limit are let pass of those that have come within the last
window.
-/

namespace TapeService.Web

open Interleaving Interleaving.Program Interleaving.Protocol Python

section
variable [DatetimeLib] [HashLib] {settings : Settings}

/-- The length of the window in microseconds. -/
def Settings.window (settings : Settings) : Int := settings.loginRateLimitWindowSeconds * 1000000

/-- The time of a login that the bucket has let pass under the key, as it has read the clock. -/
def passed? (bucket : Nat) (key : String) : Event (web settings) → Option Int
  | .called _ (.inr (.inr (.allow bucket' t key'))) (.ok true) =>
      if bucket' = bucket ∧ key' = key then some t else none
  | _ => none

/-- The times of the logins that the bucket has let pass under the key, the latest first. -/
def passes (log : List (Event (web settings))) (bucket : Nat) (key : String) : List Int :=
  log.filterMap (passed? bucket key)

/-- The thread serves a login that a bucket has let pass under the address of its client. -/
def LetPass (log : List (Event (web settings))) (i : Nat) : Prop :=
  ∃ body fwd host raw bucket t, .started i (.inr (.login body fwd host raw)) ∈ log ∧
    .called i (.inr (.inr (.allow bucket t (clientIp fwd host)))) (.ok true) ∈ log

theorem LetPass.mono {log log' : List (Event (web settings))} {i : Nat} (h : log ⊆ log') (hp : LetPass log i) :
    LetPass log' i :=
  let ⟨body, fwd, host, raw, bucket, t, hs, ha⟩ := hp
  ⟨body, fwd, host, raw, bucket, t, h hs, h ha⟩

namespace Throttle

/-- What is left of a bucket that started out empty covers the logins that it has let pass. -/
def Bucket (settings : Settings) (log : List (Event (web settings))) (now : Int) (j : Nat)
    (b : TokenBucket Int) : Prop :=
  b.capacity = settings.loginRateLimitPerIp ∧ b.window = settings.window ∧
    ∀ key, SlidingWindow.Covers b.capacity b.window (passes log j key) (b.events key) now

structure Inv (settings : Settings) (fixed : Option Nat) (w : World (web settings)) : Prop where
  buckets : ∀ j b, w.state.2.buckets[j]? = some b → Bucket settings w.log w.state.2.sessions.now j b
  absent : ∀ j key, w.state.2.buckets.length ≤ j → passes w.log j key = []
  /-- A limiter that is in place stays, and counts all logins. -/
  fixed : ∀ j, fixed = some j → w.state.2.loginLimiter = some j ∧
    ∀ i j' t key r, .called i (.inr (.inr (.allow j' t key))) r ∈ w.log → j' = j
  lookups : ∀ i token r, .called i (.inr (.inr (.authByToken token))) r ∈ w.log → LetPass w.log i

def protocol (settings : Settings) (fixed : Option Nat) : Protocol (web settings) where
  inv := Inv settings fixed
  guar w _ s := w.state.2.sessions.now ≤ s.2.sessions.now
  rely _ _ _ _ := True
  may _ _ _ := True
  faults := True

variable {fixed : Option Nat} {w : World (web settings)} {ev : Event (web settings)} {s : (web settings).State}
  {i : Nat}

theorem Bucket.mono {log : List (Event (web settings))} {now now' : Int} {j : Nat} {b : TokenBucket Int}
    (h : Bucket settings log now j b) (hn : now ≤ now') : Bucket settings log now' j b :=
  ⟨h.1, h.2.1, fun key => (h.2.2 key).mono hn⟩

/-- The step lets no login pass. -/
def Silent (ev : Event (web settings)) : Prop := ∀ j key, passed? j key ev = none

theorem passes_cons {log : List (Event (web settings))} (h : Silent ev) (j : Nat) (key : String) :
    passes (ev :: log) j key = passes log j key :=
  List.filterMap_cons_none (h j key)

theorem Inv.lookups_push (h : Inv settings fixed w)
    (hlookup : ∀ i token r, ev = .called i (.inr (.inr (.authByToken token))) r → LetPass w.log i) {token : String}
    {r : Except Exn (List (Int × Option Json))}
    (hmem : .called i (.inr (.inr (.authByToken token))) r ∈ (w.push ev s).log) :
    LetPass (w.push ev s).log i := by
  refine LetPass.mono (List.subset_cons_self _ _) ?_
  rcases List.mem_cons.mp hmem with he | hmem
  · exact hlookup i token r he.symm
  · exact h.lookups i token r hmem

theorem Inv.quiet (h : Inv settings fixed w) (hsilent : Silent ev)
    (hfixed : ∀ i j t key r, ev = .called i (.inr (.inr (.allow j t key))) r → ∀ j', fixed = some j' → j = j')
    (hlookup : ∀ i token r, ev = .called i (.inr (.inr (.authByToken token))) r → LetPass w.log i)
    (hbuckets : s.2.buckets = w.state.2.buckets) (hlimiter : s.2.loginLimiter = w.state.2.loginLimiter)
    (hnow : w.state.2.sessions.now ≤ s.2.sessions.now) : Inv settings fixed (w.push ev s) where
  buckets j b hb := by
    have hbucket := (h.buckets j b (hbuckets ▸ hb)).mono hnow
    exact ⟨hbucket.1, hbucket.2.1, fun key => by
      rw [World.push_log, passes_cons hsilent]
      exact hbucket.2.2 key⟩
  absent j key hj := by
    rw [World.push_log, passes_cons hsilent]
    exact h.absent j key (hbuckets ▸ hj)
  fixed j hj := by
    refine ⟨hlimiter.trans (h.fixed j hj).1, fun i j' t key r hmem => ?_⟩
    rcases List.mem_cons.mp hmem with he | hmem
    · exact hfixed i j' t key r he.symm j hj
    · exact (h.fixed j hj).2 i j' t key r hmem
  lookups _ _ _ hmem := h.lookups_push hlookup hmem

/-! ## The calls -/

/-- The calls that neither make a bucket nor count a login. -/
def Apart : (web settings).Call → Prop
  | .inr (.inr .newLimiter) => False
  | .inr (.inr (.allow _ _ _)) => False
  | _ => True

/-- The call asks for an account. -/
def Looks : (web settings).Call → Prop
  | .inr (.inr (.authByToken _)) => True
  | _ => False

theorem exec_buckets {q : (web settings).Call} (hq : Apart q) {s : (web settings).State} :
    ((web settings).exec q s).2.2.buckets = s.2.buckets ∧
      ((web settings).exec q s).2.2.loginLimiter = s.2.loginLimiter := by
  rcases q with q | q | q
  · cases q <;> exact ⟨rfl, rfl⟩
  · exact ⟨rfl, rfl⟩
  · cases q with
    | newLimiter => exact hq.elim
    | allow bucket now key => exact hq.elim
    | authByToken token =>
        simp only [exec]
        split <;> exact ⟨rfl, rfl⟩
    | sendText j data =>
        simp only [exec]
        split <;> exact ⟨rfl, rfl⟩
    | unsubscribe j channel =>
        simp only [exec]
        split <;> exact ⟨rfl, rfl⟩
    | _ => exact ⟨rfl, rfl⟩

theorem apart_silent {q : (web settings).Call} (hq : Apart q) (r : Except Exn ((web settings).Reply q)) :
    Silent (.called i q r) := by
  intro j key
  rcases q with q | q | q
  · rfl
  · rfl
  · cases q <;> first | rfl | exact hq.elim

theorem now_of_answers {q : (web settings).Call} {r : Except Exn ((web settings).Reply q)}
    (hr : (protocol settings fixed).Answers q w.state r s) : s.2.sessions.now = w.state.2.sessions.now := by
  rcases hr.state with rfl | rfl
  · rfl
  · exact exec_now

theorem apart_good {q : (web settings).Call} (hq : Apart q) (hlooks : Looks q → LetPass w.log i)
    {r : Except Exn ((web settings).Reply q)} (h : Inv settings fixed w)
    (hr : (protocol settings fixed).Answers q w.state r s) :
    (protocol settings fixed).Good i w (.called i q r) s := by
  have hkept : s.2.buckets = w.state.2.buckets ∧ s.2.loginLimiter = w.state.2.loginLimiter := by
    rcases hr.state with rfl | rfl
    · exact ⟨rfl, rfl⟩
    · exact exec_buckets hq
  refine ⟨h.quiet (apart_silent hq r) (fun j j' t key r' he => ?_) (fun j token r' he => ?_) hkept.1 hkept.2
    (now_of_answers hr).ge, (now_of_answers hr).ge, fun _ _ => trivial⟩
  · cases he
    exact hq.elim
  · cases he
    exact hlooks trivial

/-- A bucket is asked about a login. -/
def asked (i j : Nat) (t : Int) (key : String) (r : Except Exn Bool) : Event (web settings) :=
  .called i (.inr (.inr (.allow j t key))) r

theorem asked_silent {j : Nat} {t : Int} {key : String} (e : Exn) :
    Silent (asked i j t key (.error e) : Event (web settings)) :=
  fun _ _ => rfl

theorem passes_asked {log : List (Event (web settings))} {j j' : Nat} {t : Int} {key key' : String} {ok : Bool} :
    passes (asked i j t key (.ok ok) :: log) j' key' =
      if (j = j' ∧ key = key') ∧ ok = true then t :: passes log j' key' else passes log j' key' := by
  cases ok with
  | false =>
      rw [if_neg fun h => nomatch h.2]
      exact passes_cons (fun _ _ => rfl) j' key'
  | true =>
      by_cases hmine : j = j' ∧ key = key'
      · rw [if_pos ⟨hmine, rfl⟩]
        exact List.filterMap_cons_some (if_pos hmine)
      · rw [if_neg fun h => hmine h.1]
        exact List.filterMap_cons_none (if_neg hmine)

theorem passes_asked_of_ne {log : List (Event (web settings))} {j j' : Nat} {t : Int} {key key' : String}
    (h : ¬ (j = j' ∧ key = key')) (r : Except Exn Bool) :
    passes (asked i j t key r :: log) j' key' = passes log j' key' := by
  cases r with
  | ok ok => rw [passes_asked, if_neg fun hc => h hc.1]
  | error e => exact passes_cons (asked_silent e) j' key'

/-- A request that is counted by a bucket leaves it covering what it has let pass, also if the answer is lost. -/
theorem Bucket.allow {log : List (Event (web settings))} {now t : Int} {j : Nat} {b : TokenBucket Int}
    {key : String} (h : Bucket settings log now j b) (ht : t ≤ now) {r : Except Exn Bool}
    (hr : r = .ok (b.allow t key).1 ∨ ∃ e, r = .error e) :
    Bucket settings (asked i j t key r :: log) now j (b.allow t key).2 := by
  refine ⟨TokenBucket.allow_capacity.trans h.1, TokenBucket.allow_window.trans h.2.1, fun key' => ?_⟩
  rw [TokenBucket.allow_capacity, TokenBucket.allow_window]
  by_cases hkey : key = key'
  · subst hkey
    rw [TokenBucket.allow_events_self]
    rcases hr with rfl | ⟨e, rfl⟩
    · rw [passes_asked, TokenBucket.allow_answer]
      simpa only [and_self, true_and] using (h.2.2 key).allow ht
    · rw [passes_cons (asked_silent e)]
      exact (h.2.2 key).lost ht
  · rw [TokenBucket.allow_events_of_ne (Ne.symm hkey), passes_asked_of_ne fun hc => hkey hc.2]
    exact h.2.2 key'

theorem Inv.allow (h : Inv settings fixed w) {j : Nat} {t : Int} {key : String} (ht : t ≤ w.state.2.sessions.now)
    (hj : ∀ j', fixed = some j' → j = j') {r : Except Exn Bool}
    (hr : (protocol settings fixed).Answers (.inr (.inr (.allow j t key))) w.state r s) :
    Inv settings fixed (w.push (asked i j t key r) s) := by
  have hasked : ∀ i' k t' key' r',
      (asked i j t key r : Event (web settings)) = .called i' (.inr (.inr (.allow k t' key'))) r' →
        ∀ j', fixed = some j' → k = j' := by
    intro i' k t' key' r' he
    cases he
    exact hj
  have hquiet : ∀ e, r = .error e → s = w.state → Inv settings fixed (w.push (asked i j t key r) s) := by
    rintro e rfl rfl
    exact h.quiet (asked_silent e) hasked (fun _ _ _ he => by cases he) rfl rfl (Int.le_refl _)
  cases hb : w.state.2.buckets[j]? with
  | none =>
      have hexec : (web settings).exec (.inr (.inr (.allow j t key))) w.state = (.error .callFailed, w.state) := by
        simp only [exec, hb]
        rfl
      rcases hr with hr | ⟨-, hs, e, he⟩
      · rw [hexec] at hr
        cases hr
        exact hquiet _ rfl rfl
      · rw [hexec] at hs
        exact hquiet e he (hs.elim id id)
  | some b =>
      have hexec : (web settings).exec (.inr (.inr (.allow j t key))) w.state =
          (.ok (b.allow t key).1, w.state.1,
            { w.state.2 with buckets := w.state.2.buckets.set j (b.allow t key).2 }) := by
        simp only [exec, hb]
        rfl
      have hlt : j < w.state.2.buckets.length := (List.getElem?_eq_some_iff.mp hb).1
      have hcounted : (r = .ok (b.allow t key).1 ∨ ∃ e, r = .error e) →
          s = ((web settings).exec (.inr (.inr (.allow j t key))) w.state).2 →
          Inv settings fixed (w.push (asked i j t key r) s) := by
        intro hanswer hs
        rw [hexec] at hs
        subst hs
        refine ⟨fun j' b' hb' => ?_, fun j' key' hj' => ?_, fun j' hj' => ⟨(h.fixed j' hj').1, ?_⟩,
          fun _ _ _ hmem => h.lookups_push (fun _ _ _ he => by cases he) hmem⟩
        · by_cases hjj : j = j'
          · subst hjj
            have hself : (w.state.2.buckets.set j (b.allow t key).2)[j]? = some (b.allow t key).2 :=
              List.getElem?_set_self hlt
            cases hself.symm.trans hb'
            exact (h.buckets j b hb).allow ht hanswer
          · have hother : (w.state.2.buckets.set j (b.allow t key).2)[j']? = w.state.2.buckets[j']? :=
              List.getElem?_set_ne hjj
            have hbucket := h.buckets j' b' (hother.symm.trans hb')
            refine ⟨hbucket.1, hbucket.2.1, fun key' => ?_⟩
            rw [World.push_log, passes_asked_of_ne fun hc => hjj hc.1]
            exact hbucket.2.2 key'
        · have hlen : w.state.2.buckets.length ≤ j' := by simpa using hj'
          rw [World.push_log, passes_asked_of_ne fun hc => by omega]
          exact h.absent j' key' hlen
        · intro i' k t' key' r' hmem
          rcases List.mem_cons.mp hmem with he | hmem
          · exact hasked i' k t' key' r' he.symm j' hj'
          · exact (h.fixed j' hj').2 i' k t' key' r' hmem
      rcases hr with hr | ⟨-, hs, e, he⟩
      · exact hcounted (.inl (by rw [hexec] at hr; cases hr; rfl)) (by rw [hr])
      · rcases hs with hs | hs
        · exact hquiet e he hs
        · exact hcounted (.inr ⟨e, he⟩) hs

theorem Inv.newLimiter (h : Inv settings none w) {r : Except Exn Unit}
    (hr : (protocol settings none).Answers (.inr (.inr .newLimiter)) w.state r s) :
    Inv settings none (w.push (.called i (.inr (.inr .newLimiter)) r) s) := by
  have hsilent : Silent (.called i (.inr (.inr .newLimiter)) r : Event (web settings)) := fun _ _ => rfl
  rcases hr.state with rfl | rfl
  · exact h.quiet hsilent nofun (fun _ _ _ he => nomatch he) rfl rfl (Int.le_refl _)
  · refine ⟨fun j b hb => ?_, fun j key hj => ?_, nofun,
      fun _ _ _ hmem => h.lookups_push (fun _ _ _ he => nomatch he) hmem⟩
    · have hb' : (w.state.2.buckets ++
          [.new settings.loginRateLimitPerIp settings.window])[j]? = some b := hb
      by_cases hj : j < w.state.2.buckets.length
      · rw [List.getElem?_append_left hj] at hb'
        have hbucket := h.buckets j b hb'
        refine ⟨hbucket.1, hbucket.2.1, fun key => ?_⟩
        rw [World.push_log, passes_cons hsilent]
        exact hbucket.2.2 key
      · rw [List.getElem?_append_right (Nat.not_lt.mp hj)] at hb'
        have hzero : j - w.state.2.buckets.length = 0 := by
          have := (List.getElem?_eq_some_iff.mp hb').1
          simpa using this
        rw [hzero] at hb'
        cases hb'
        refine ⟨rfl, rfl, fun key => ?_⟩
        rw [World.push_log, passes_cons hsilent, h.absent j key (Nat.not_lt.mp hj)]
        exact SlidingWindow.Covers.nil
    · have hlen : w.state.2.buckets.length ≤ j := by
        have : (w.state.2.buckets ++ [TokenBucket.new settings.loginRateLimitPerIp settings.window]).length ≤ j := hj
        simp only [List.length_append] at this
        omega
      rw [World.push_log, passes_cons hsilent]
      exact h.absent j key hlen

/-! ## The programs -/

theorem lasting_started {job : (web settings).Job} : Lasting fun w : World (web settings) => .started i job ∈ w.log :=
  fun _ _ _ h => List.mem_cons_of_mem _ h

theorem lasting_letPass : Lasting fun w : World (web settings) => LetPass w.log i :=
  fun _ _ _ h => h.mono (List.subset_cons_self _ _)

theorem stable {A : World (web settings) → Prop} (hA : Lasting A) : (protocol settings fixed).Stable i A :=
  fun w ev s _ _ _ _ _ h => hA w ev s h

theorem keeps {α : Type} {A : World (web settings) → Prop} (hA : Lasting A)
    {p : Program (web settings).toSignature Exn α}
    (hp : p.Uses fun q => Apart q ∧ ∀ w, A w → Looks q → LetPass w.log i) :
    (protocol settings fixed).Triple i A p fun _ _ => True :=
  Triple.conseq (Keeps.of_uses (stable hA) (hp.mono fun _ hq w hw hAw _ _ s hr =>
    ⟨apart_good hq.1 (hq.2 w hAw) hw hr, hA w _ s hAw⟩)) (fun _ _ h => h) fun _ _ _ _ => trivial

variable {job : (web settings).Job}

/-- Whoever asks for the limiter gets the one that is in place. -/
theorem limiter_triple : (protocol settings fixed).Triple i (fun w => .started i job ∈ w.log) (run limiter)
    (upon (fun bucket w => .started i job ∈ w.log ∧ ∀ j, fixed = some j → bucket = some j) fun _ => True) := by
  have hget : (protocol settings fixed).Triple i (fun w => .started i job ∈ w.log) (run (ask .loginLimiter))
      (upon (fun found w => .started i job ∈ w.log ∧ ∀ j, fixed = some j → found = some j) fun _ => True) := by
    rw [run_ask]
    refine Triple.perform (stable lasting_started) fun w hw hs _ r s hr =>
      ⟨apart_good (q := .inr (.inr .loginLimiter)) trivial False.elim hw hr, ?_⟩
    cases r with
    | error e => trivial
    | ok found =>
        have hfound : w.state.2.loginLimiter = found := Except.ok.inj hr.of_ok.2
        exact ⟨List.mem_cons_of_mem _ hs, fun j hj => hfound ▸ (hw.fixed j hj).1⟩
  refine run_seq hget fun found w hw ⟨hs, hfound⟩ => ?_
  by_cases hnone : found = none
  · simp only [hnone, ↓reduceIte]
    cases fixed with
    | some j => cases hnone.symm.trans (hfound j rfl)
    | none =>
        refine run_seq (A := fun w => .started i job ∈ w.log) (Q := fun _ w => .started i job ∈ w.log) ?_
          (fun _ => hget) w hw hs
        rw [run_ask]
        refine Triple.perform (stable lasting_started) fun w hw hs _ r s hr =>
          ⟨⟨hw.newLimiter hr, (now_of_answers hr).ge, fun _ _ => trivial⟩, ?_⟩
        cases r with
        | error e => trivial
        | ok _ => exact List.mem_cons_of_mem _ hs
  · simp only [hnone, ↓reduceIte]
    exact hget w hw hs

/-- The clock is read before the bucket is asked: by then it may show a later time. -/
theorem allowed_triple {body : LoginRequest} {fwd host : Option String} {raw : String} :
    (protocol settings fixed).Triple i (fun w => .started i (.inr (.login body fwd host raw)) ∈ w.log)
      (run (allowed (clientIp fwd host)))
      (upon (fun ok w => ok = true → LetPass w.log i) fun _ => True) := by
  refine run_seq limiter_triple fun bucket => ?_
  refine run_seq (Q := fun t w => .started i (.inr (.login body fwd host raw)) ∈ w.log ∧
    (∀ j, fixed = some j → bucket = some j) ∧ t ≤ w.state.2.sessions.now) ?_ fun t => ?_
  · rw [run_ask]
    refine Triple.perform (fun _ _ _ _ _ _ _ _ h => ⟨List.mem_cons_of_mem _ h.1, h.2⟩) fun w hw hbucket _ r s hr =>
      ⟨apart_good (q := .inr (.inr .monotonic)) trivial False.elim hw hr, ?_⟩
    cases r with
    | error e => trivial
    | ok t =>
        have ht : w.state.2.sessions.now = t := Except.ok.inj hr.of_ok.2
        exact ⟨List.mem_cons_of_mem _ hbucket.1, hbucket.2, ht ▸ (now_of_answers hr).ge⟩
  · cases bucket with
    | none => exact fun _ _ _ => trivial
    | some j =>
        rw [run_ask]
        refine Triple.perform
          (fun w ev s _ _ _ hg _ h => ⟨List.mem_cons_of_mem _ h.1, h.2.1, le_trans h.2.2 hg⟩)
          fun w hw ⟨hs, hbucket, ht⟩ _ r s hr =>
            ⟨⟨hw.allow ht (fun j' hj' => Option.some.inj (hbucket j' hj')) hr, (now_of_answers hr).ge,
              fun _ _ => trivial⟩, ?_⟩
        cases r with
        | error e => trivial
        | ok ok =>
            intro hok
            subst hok
            exact ⟨body, fwd, host, raw, j, t, List.mem_cons_of_mem _ hs, List.mem_cons_self⟩

theorem apart_of_front {req : Request} (hreq : ∀ body fwd host raw, req ≠ .login body fwd host raw)
    {q : Sessions.Call ⊕ Call} (h : Sum.elim (fun _ => True) (FrontCall i req) q) :
    Apart (.inr q : (web settings).Call) ∧ ¬ Looks (.inr q : (web settings).Call) := by
  cases q with
  | inl q => exact ⟨trivial, id⟩
  | inr q =>
      cases req with
      | login body fwd host raw => exact absurd rfl (hreq body fwd host raw)
      | _ => cases q <;> first | exact ⟨trivial, id⟩ | exact h.elim

/-- Only a login that has been let pass asks for an account. -/
theorem login_triple {body : LoginRequest} {fwd host : Option String} {raw : String} :
    (protocol settings fixed).Triple i (fun w => .started i (.inr (.login body fwd host raw)) ∈ w.log)
      (run (login settings body fwd host raw)) (upon (fun _ _ => True) fun _ => True) := by
  obtain ⟨f, hlogin, hf⟩ := login_eq body fwd host raw
  rw [hlogin]
  refine run_seq allowed_triple fun ok => ?_
  have hA : Lasting fun w : World (web settings) => ok = true → LetPass w.log i :=
    fun w ev s h hok => lasting_letPass w ev s (h hok)
  have hrest : (protocol settings fixed).Triple i (fun w => ok = true → LetPass w.log i) (run (f ok))
      fun _ _ => True :=
    keeps hA (run_uses ((hf ok).mono fun c ⟨hok, hc⟩ => ⟨by
      cases c with
      | inl c => trivial
      | inr c =>
          obtain rfl : c = .authByToken body.token := hc
          trivial, fun _ h _ => h hok⟩))
  exact Triple.conseq hrest (fun _ _ h => h) fun r _ _ _ => by cases r <;> trivial

theorem guard_triple {req : Request} : (protocol settings fixed).Triple i (fun w => .started i (.inr req) ∈ w.log)
    (run (guard settings i req)) (upon (fun _ _ => True) fun _ => True) := by
  by_cases hreq : ∃ body fwd host raw, req = .login body fwd host raw
  · obtain ⟨body, fwd, host, raw, rfl⟩ := hreq
    exact run_seq login_triple fun _ => Triple.pure fun _ _ _ => trivial
  · have hkeeps : (protocol settings fixed).Triple i (fun w => .started i (.inr req) ∈ w.log)
        (run (guard settings i req)) fun _ _ => True :=
      keeps lasting_started (run_uses ((guard_uses i req).mono fun q hq =>
        have hapart := apart_of_front (fun body fwd host raw he => hreq ⟨body, fwd, host, raw, he⟩) hq
        ⟨hapart.1, fun _ _ hlooks => absurd hlooks hapart.2⟩))
    exact Triple.conseq hkeeps (fun _ _ h => h) fun r _ _ _ => by cases r <;> trivial

theorem body_triple : (protocol settings fixed).Triple i (fun w => .started i job ∈ w.log)
    ((web settings).body i job) fun _ _ => True := by
  have hinner : ∀ job : Job, (protocol settings fixed).Triple i (fun _ => True)
      ((Sum.inl <$> (service.body i job).inl : Program (web settings).toSignature Exn (Out ⊕ Answer)))
      fun _ _ => True := fun job =>
    keeps (fun _ _ _ _ => trivial) (Uses.bind (Uses.inl (Uses.of_forall (fun _ => ⟨trivial, fun _ _ => False.elim⟩) _))
      fun _ => trivial)
  cases job with
  | inl job => exact Triple.conseq (hinner job) (fun _ _ _ => trivial) fun _ _ _ h => h
  | inr req =>
      have h : (protocol settings fixed).Triple i (fun w => .started i (.inr req) ∈ w.log)
          (run (guard settings i req) >>= (front settings).rest i) (upon (fun _ _ => True) fun _ => True) := by
        refine Triple.seq guard_triple fun x => ?_
        cases x with
        | inl job => exact Triple.conseq (hinner job) (fun _ _ h => h) fun r _ _ _ => by cases r <;> trivial
        | inr a => exact Triple.pure fun _ _ _ => trivial
      exact Triple.conseq h (fun _ _ h => h) fun _ _ _ _ => trivial

/-- The other steps leave the buckets alone, and time does not run backwards. -/
theorem Inv.other (h : Inv settings fixed w) (hcall : ∀ i q r, ev ≠ .called i q r)
    (hs : s.2.buckets = w.state.2.buckets ∧ s.2.loginLimiter = w.state.2.loginLimiter ∧
      w.state.2.sessions.now ≤ s.2.sessions.now) : Inv settings fixed (w.push ev s) := by
  refine h.quiet (fun j key => ?_) (fun i _ _ _ r he => absurd he (hcall i _ r))
    (fun i _ r he => absurd he (hcall i _ r)) hs.1 hs.2.1 hs.2.2
  cases ev with
  | called i q r => exact absurd rfl (hcall i q r)
  | _ => rfl

theorem start_keeps {job : (web settings).Job} {s s' : (web settings).State}
    (h : (web settings).start job s = some s') : s'.2 = s.2 := by
  cases job with
  | inl job =>
      obtain ⟨s₁, -, rfl⟩ := Option.map_eq_some_iff.mp h
      rfl
  | inr req =>
      cases h
      rfl

theorem env_keeps {e : (web settings).Env} {s s' : (web settings).State} (h : (web settings).env e s = some s') :
    s'.2.buckets = s.2.buckets ∧ s'.2.loginLimiter = s.2.loginLimiter ∧ s.2.sessions.now ≤ s'.2.sessions.now := by
  cases e with
  | inl e =>
      obtain ⟨s₁, -, rfl⟩ := Option.map_eq_some_iff.mp h
      exact ⟨rfl, rfl, Int.le_refl _⟩
  | inr e =>
      obtain ⟨s₂, hs₂, rfl⟩ := Option.map_eq_some_iff.mp h
      cases e with
      | tick t =>
          cases hs₂
          exact ⟨rfl, rfl, by simp⟩
      | _ =>
          cases hs₂
          exact ⟨rfl, rfl, Int.le_refl _⟩

def outline (settings : Settings) (fixed : Option Nat) : Outline (web settings) fun _ _ => True where
  toProtocol := protocol settings fixed
  post _ _ _ _ := True
  post_stable _ _ _ _ _ _ _ _ _ _ _ := trivial
  may_ok _ _ _ _ _ _ _ := trivial
  may_fail _ _ _ _ _ _ _ _ _ := ⟨trivial, trivial⟩
  start_ok c job s _ hw _ hs := by
    have hs' := start_keeps hs
    have hinv : Inv settings fixed (c.world.push (.started c.threads.length job) s) :=
      hw.other (fun _ _ _ he => nomatch he) ⟨by rw [hs'], by rw [hs'], by rw [hs']⟩
    exact ⟨⟨hinv, by simp only [protocol, hs', le_refl], fun _ _ => trivial⟩, body_triple _ hinv List.mem_cons_self⟩
  crash_ok c i _ hw :=
    ⟨hw.other (fun _ _ _ he => nomatch he) ⟨rfl, rfl, Int.le_refl _⟩, Int.le_refl _, fun _ _ => trivial⟩
  env_ok c e s _ hw hs :=
    ⟨hw.other (fun _ _ _ he => nomatch he) (env_keeps hs), (env_keeps hs).2.2, fun _ _ _ _ => trivial⟩

theorem Inv.init {s : (web settings).State}
    (hs : ∀ b ∈ s.2.buckets, b = .new settings.loginRateLimitPerIp settings.window)
    (hfixed : ∀ j, fixed = some j → s.2.loginLimiter = some j) : Inv settings fixed ⟨s, []⟩ where
  buckets j b hb := by
    obtain rfl := hs b (List.mem_of_getElem? hb)
    exact ⟨rfl, rfl, fun _ => SlidingWindow.Covers.nil⟩
  absent _ _ _ := rfl
  fixed j hj := ⟨hfixed j hj, nofun⟩
  lookups _ _ _ hmem := nomatch hmem

end Throttle

/-- In every run no bucket has let pass, in the last window, more logins of one client than the limit. A limiter that
is in place at the start counts them all, and nobody's token is looked up before a limiter has let the login pass. -/
theorem logins_throttled {s : (web settings).State}
    (hs : ∀ b ∈ s.2.buckets, b = .new settings.loginRateLimitPerIp settings.window) {c : Conf (web settings)}
    (h : Reach (fun _ _ => True) s c) :
    (∀ j key, (passes c.world.log j key).countP (fun t => c.world.state.2.sessions.now - settings.window ≤ t) ≤
      settings.loginRateLimitPerIp) ∧
    (∀ j, s.2.loginLimiter = some j → c.world.state.2.loginLimiter = some j ∧
      ∀ i j' t key r, .called i (.inr (.inr (.allow j' t key))) r ∈ c.world.log → j' = j) ∧
    ∀ i token r, .called i (.inr (.inr (.authByToken token))) r ∈ c.world.log → LetPass c.world.log i := by
  have hinv : ∀ fixed, (∀ j, fixed = some j → s.2.loginLimiter = some j) →
      Throttle.Inv settings fixed c.world := fun fixed hfixed =>
    (Outline.holds_of_reach (O := Throttle.outline settings fixed) (Throttle.Inv.init hs hfixed) h).inv
  refine ⟨fun j key => ?_, fun j hj => ?_, (hinv none nofun).lookups⟩
  · by_cases hj : j < c.world.state.2.buckets.length
    · obtain ⟨hcapacity, hwindow, hcovers⟩ := (hinv none nofun).buckets j _ (List.getElem?_eq_getElem hj)
      have hbound := (hcovers key).bounded
      rwa [hcapacity, hwindow] at hbound
    · rw [(hinv none nofun).absent j key (Nat.not_lt.mp hj)]
      exact Nat.zero_le _
  · exact (hinv (some j) fun j' hj' => Option.some.inj hj' ▸ hj).fixed j rfl

end

section
open scoped Python.Utc Sessions.Sample

/-- Two logins come at once: the second reads the clock later and is counted first. -/
def Sample.overtakes : Conf (web .default) :=
  let login := .start (.inr (.login Sample.body none none Sessions.Sample.raw))
  Sample.start.play (login :: Sample.runs 0 3 ++ login :: .env (.inr (.tick ⟨5⟩)) :: Sample.runs 1 4 ++ Sample.runs 0 1)

theorem logins_throttled_overtakes :
    (∀ j key, (passes Sample.overtakes.world.log j key).countP
      (fun t => Sample.overtakes.world.state.2.sessions.now - 300000000 ≤ t) ≤ 10) ∧
    (∀ j, some 0 = some j → Sample.overtakes.world.state.2.loginLimiter = some j ∧
      ∀ i j' t key r, .called i (.inr (.inr (.allow j' t key))) r ∈ Sample.overtakes.world.log → j' = j) ∧
    ∀ i token r, .called i (.inr (.inr (.authByToken token))) r ∈ Sample.overtakes.world.log →
      LetPass Sample.overtakes.world.log i :=
  logins_throttled (fun _ hb => List.mem_singleton.mp hb) (Steps.play (Conf.Obeys.of_labels fun _ _ _ => trivial))

example : passes Sample.overtakes.world.log 0 "unknown" = [0, 5] := rfl

end

end TapeService.Web
