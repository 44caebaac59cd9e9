import Mathlib.Logic.Relation
import TapeService.Interleaving.Program

/-!
# Threads over a shared state

A system starts threads, each running the program of one job, and interleaves their calls: one step
performs one call of one thread. A call can also raise, without any effect or with its answer lost, and a
thread can die between two calls. Everything that happens is appended to a log, so that a statement
about a run is a statement about the log that the run leaves.
-/

namespace Interleaving

structure System extends Signature where
  /-- What a call raises. -/
  Exn : Type
  State : Type
  /-- What a thread is started for. -/
  Job : Type
  /-- What a thread ends with. -/
  Out : Type
  /-- What the surroundings can do on their own. -/
  Env : Type
  /-- The program of a job. The number identifies the thread. -/
  body : Nat → Job → Program toSignature Exn Out
  /-- The atomic effect of a call that is answered. -/
  exec : (c : Call) → State → Except Exn (Reply c) × State
  start : Job → State → Option State
  env : Env → State → Option State

inductive Event (S : System) where
  | started (i : Nat) (job : S.Job)
  | called (i : Nat) (c : S.Call) (r : Except S.Exn (S.Reply c))
  | crashed (i : Nat)
  | env (e : S.Env)

/-- The thread that an event belongs to. -/
def Event.thread? {S : System} : Event S → Option Nat
  | .started i _ => some i
  | .called i _ _ => some i
  | .crashed i => some i
  | .env _ => none

/-- The thread that is started in the event. -/
def Event.started? {S : System} : Event S → Option Nat
  | .started i _ => some i
  | _ => none

/-- The thread that was started last. -/
def latest? {S : System} (log : List (Event S)) : Option Nat := log.findSome? Event.started?

theorem latest?_cons {S : System} {ev : Event S} {log : List (Event S)} :
    latest? (ev :: log) = ev.started?.or (latest? log) := by
  unfold latest?
  rw [List.findSome?_cons]
  cases ev.started? <;> rfl

/-- The thread of the event, with what `f` finds in its call. -/
def Event.made? {S : System} {β : Type} (f : S.Call → Option β) : Event S → Option (Nat × β)
  | .called i c _ => (f c).map fun v => (i, v)
  | _ => none

/-- What `f` finds in the last call in which it finds something, with the thread of the call. -/
def lastMade? {S : System} {β : Type} (f : S.Call → Option β) (log : List (Event S)) : Option (Nat × β) :=
  log.findSome? (Event.made? f)

theorem lastMade?_cons {S : System} {β : Type} {f : S.Call → Option β} {ev : Event S} {log : List (Event S)} :
    lastMade? f (ev :: log) = (ev.made? f).or (lastMade? f log) := by
  unfold lastMade?
  rw [List.findSome?_cons]
  cases ev.made? f <;> rfl

/-- The shared state together with everything that has happened so far, the newest event first. -/
structure World (S : System) where
  state : S.State
  log : List (Event S)

variable {S : System}

def World.push (w : World S) (ev : Event S) (s : S.State) : World S :=
  { state := s, log := ev :: w.log }

@[simp] theorem World.push_state (w : World S) (ev : Event S) (s : S.State) :
    (w.push ev s).state = s := rfl

@[simp] theorem World.push_log (w : World S) (ev : Event S) (s : S.State) :
    (w.push ev s).log = ev :: w.log := rfl

/-- No event of thread `i` has happened yet. -/
def World.Fresh (w : World S) (i : Nat) : Prop :=
  ∀ ev ∈ w.log, ev.thread? ≠ some i

/-- The events of thread `i`, the newest first. -/
def World.own (w : World S) (i : Nat) : List (Event S) :=
  w.log.filter fun ev => ev.thread? = some i

theorem World.own_push_of_ne {w : World S} {i : Nat} {ev : Event S} {s : S.State}
    (h : ev.thread? ≠ some i) : (w.push ev s).own i = w.own i := by
  simp [own, h]

theorem World.own_push {w : World S} {i : Nat} {ev : Event S} {s : S.State}
    (h : ev.thread? = some i) : (w.push ev s).own i = ev :: w.own i := by
  simp [own, h]

theorem World.mem_own {w : World S} {i : Nat} {ev : Event S} :
    ev ∈ w.own i ↔ ev ∈ w.log ∧ ev.thread? = some i := by
  simp [own]

theorem World.own_of_fresh {w : World S} {i : Nat} (h : w.Fresh i) : w.own i = [] :=
  List.filter_eq_nil_iff.mpr fun ev hev => by simpa using h ev hev

/-- A thread; `code` is what is left of its program, and is gone once the thread has died. -/
structure Thread (S : System) where
  job : S.Job
  code : Option (Program S.toSignature S.Exn S.Out)

/-- The next call of the thread, if it still has one to make. -/
def Thread.next? (t : Thread S) : Option S.Call :=
  match t.code with
  | some (.call c _) => some c
  | _ => none

/-- The thread has come to its end: it has returned, raised or died. -/
def Thread.Ended (t : Thread S) : Prop := t.next? = none

/-- What the thread returned or raised. -/
def Thread.outcome? (t : Thread S) : Option (Except S.Exn S.Out) :=
  match t.code with
  | some (.ret a) => some (.ok a)
  | some (.raise e) => some (.error e)
  | _ => none

/-- What the thread has returned. -/
def Thread.returned? (t : Thread S) : Option S.Out := t.outcome?.bind Except.toOption

theorem Thread.outcome_of_returned {t : Thread S} {out : S.Out} (h : t.returned? = some out) :
    t.outcome? = some (.ok out) := by
  obtain ⟨r, hr, hout⟩ := Option.bind_eq_some_iff.mp h
  cases r with
  | ok a => cases hout; exact hr
  | error e => cases hout

structure Conf (S : System) where
  world : World S
  threads : List (Thread S)

def Conf.init (s : S.State) : Conf S := { world := ⟨s, []⟩, threads := [] }

inductive Label (S : System) where
  /-- A thread is started for a job. -/
  | start (job : S.Job)
  /-- Thread `i` performs its next call. -/
  | run (i : Nat)
  /-- The next call of thread `i` raises: before it takes effect, or after that when `done`. -/
  | fail (i : Nat) (e : S.Exn) (done : Bool)
  /-- Thread `i` dies before its next call. -/
  | crash (i : Nat)
  | env (e : S.Env)

def Conf.step (l : Label S) (c : Conf S) : Option (Conf S) :=
  match l with
  | .start job =>
      (S.start job c.world.state).map fun s =>
        { world := c.world.push (.started c.threads.length job) s
          threads := c.threads ++ [⟨job, some (S.body c.threads.length job)⟩] }
  | .run i =>
      match c.threads[i]? with
      | some ⟨job, some (.call q k)⟩ =>
          let (r, s) := S.exec q c.world.state
          some { world := c.world.push (.called i q r) s
                 threads := c.threads.set i ⟨job, some (k r)⟩ }
      | _ => none
  | .fail i e done =>
      match c.threads[i]? with
      | some ⟨job, some (.call q k)⟩ =>
          let s := if done then (S.exec q c.world.state).2 else c.world.state
          some { world := c.world.push (.called i q (.error e)) s
                 threads := c.threads.set i ⟨job, some (k (.error e))⟩ }
      | _ => none
  | .crash i =>
      match c.threads[i]? with
      | some ⟨job, some (.call _ _)⟩ =>
          some { world := c.world.push (.crashed i) c.world.state
                 threads := c.threads.set i ⟨job, none⟩ }
      | _ => none
  | .env e =>
      (S.env e c.world.state).map fun s =>
        { world := c.world.push (.env e) s, threads := c.threads }

/-- The thread and the call that a label is about. -/
def Conf.call? (c : Conf S) : Label S → Option (Nat × S.Call)
  | .run i => (c.threads[i]?.bind Thread.next?).map fun q => (i, q)
  | .fail i _ _ => (c.threads[i]?.bind Thread.next?).map fun q => (i, q)
  | _ => none

theorem Conf.call?_run {c : Conf S} {i : Nat} {t : Thread S} {q : S.Call} (ht : c.threads[i]? = some t)
    (hq : t.next? = some q) : c.call? (.run i) = some (i, q) := by
  simp [call?, ht, hq]

/-- A call that a step performs is in the log after the step. -/
theorem Conf.called_of_step {c c' : Conf S} {l : Label S} (h : c.step l = some c') {i : Nat} {q : S.Call}
    (hq : c.call? l = some (i, q)) : ∃ r, .called i q r ∈ c'.world.log := by
  cases l with
  | run j =>
      simp only [step] at h
      split at h
      · rename_i hj
        simp only [call?, hj, Option.bind_some, Thread.next?, Option.map_some, Option.some.injEq,
          Prod.mk.injEq] at hq
        obtain ⟨rfl, rfl⟩ := hq
        cases h
        exact ⟨_, List.mem_cons_self⟩
      · cases h
  | fail j e done =>
      simp only [step] at h
      split at h
      · rename_i hj
        simp only [call?, hj, Option.bind_some, Thread.next?, Option.map_some, Option.some.injEq,
          Prod.mk.injEq] at hq
        obtain ⟨rfl, rfl⟩ := hq
        cases h
        exact ⟨_, List.mem_cons_self⟩
      · cases h
  | _ => cases hq

/-- The calls of the labels that do not fail are answered. -/
def Label.Answered : Label S → Prop
  | .fail _ _ _ => False
  | _ => True

/-- No call fails and no thread dies. -/
def Label.Faultless : Label S → Prop
  | .fail _ _ _ => False
  | .crash _ => False
  | _ => True

instance (l : Label S) : Decidable l.Answered :=
  match l with
  | .start _ => .isTrue trivial
  | .run _ => .isTrue trivial
  | .fail _ _ _ => .isFalse id
  | .crash _ => .isTrue trivial
  | .env _ => .isTrue trivial

instance (l : Label S) : Decidable l.Faultless :=
  match l with
  | .start _ => .isTrue trivial
  | .run _ => .isTrue trivial
  | .fail _ _ _ => .isFalse id
  | .crash _ => .isFalse id
  | .env _ => .isTrue trivial

/-- What a step is, by its label. -/
inductive Conf.StepTo : Conf S → Label S → Conf S → Prop
  | start {c : Conf S} {job s} (h : S.start job c.world.state = some s) :
      StepTo c (.start job)
        { world := c.world.push (.started c.threads.length job) s
          threads := c.threads ++ [⟨job, some (S.body c.threads.length job)⟩] }
  | run {c : Conf S} {i job q k} (h : c.threads[i]? = some ⟨job, some (.call q k)⟩) :
      StepTo c (.run i)
        { world := c.world.push (.called i q (S.exec q c.world.state).1) (S.exec q c.world.state).2
          threads := c.threads.set i ⟨job, some (k (S.exec q c.world.state).1)⟩ }
  | fail {c : Conf S} {i e done job q k} (h : c.threads[i]? = some ⟨job, some (.call q k)⟩) :
      StepTo c (.fail i e done)
        { world := c.world.push (.called i q (.error e))
            (if done then (S.exec q c.world.state).2 else c.world.state)
          threads := c.threads.set i ⟨job, some (k (.error e))⟩ }
  | crash {c : Conf S} {i job q k} (h : c.threads[i]? = some ⟨job, some (.call q k)⟩) :
      StepTo c (.crash i)
        { world := c.world.push (.crashed i) c.world.state
          threads := c.threads.set i ⟨job, none⟩ }
  | env {c : Conf S} {e s} (h : S.env e c.world.state = some s) :
      StepTo c (.env e) { world := c.world.push (.env e) s, threads := c.threads }

theorem Conf.stepTo_of_step {l : Label S} {c c' : Conf S} (h : c.step l = some c') :
    StepTo c l c' := by
  cases l with
  | start job =>
      obtain ⟨s, hs, rfl⟩ := Option.map_eq_some_iff.mp h
      exact .start hs
  | run i =>
      simp only [step] at h
      split at h
      · rename_i hi
        cases h
        exact .run hi
      · cases h
  | fail i e done =>
      simp only [step] at h
      split at h
      · rename_i hi
        cases h
        exact .fail hi
      · cases h
  | crash i =>
      simp only [step] at h
      split at h
      · rename_i hi
        cases h
        exact .crash hi
      · cases h
  | env e =>
      obtain ⟨s, hs, rfl⟩ := Option.map_eq_some_iff.mp h
      exact .env hs

/-! ## Runs -/

/-- `c'` is reached from `c` by steps that all satisfy `ok`. -/
def Steps (ok : Conf S → Label S → Prop) : Conf S → Conf S → Prop :=
  Relation.ReflTransGen fun c c' => ∃ l, ok c l ∧ c.step l = some c'

/-- The configurations reached from the state `s` by steps that all satisfy `ok`. -/
def Reach (ok : Conf S → Label S → Prop) (s : S.State) (c : Conf S) : Prop :=
  Steps ok (Conf.init s) c

theorem Steps.trans {ok : Conf S → Label S → Prop} {c₁ c₂ c₃ : Conf S} (h : Steps ok c₁ c₂)
    (h' : Steps ok c₂ c₃) : Steps ok c₁ c₃ :=
  Relation.ReflTransGen.trans h h'

theorem Steps.mono {ok ok' : Conf S → Label S → Prop} (h : ∀ c l, ok c l → ok' c l)
    {c c' : Conf S} (hs : Steps ok c c') : Steps ok' c c' :=
  Relation.ReflTransGen.mono (fun _ _ ⟨l, hl, hst⟩ => ⟨l, h _ l hl, hst⟩) _ _ hs

/-- Follows a schedule; a label that is not enabled is passed over. -/
def Conf.play (c : Conf S) : List (Label S) → Conf S
  | [] => c
  | l :: ls => ((c.step l).getD c).play ls

/-- Every label of the schedule satisfies `ok` where it comes up. -/
def Conf.Obeys (ok : Conf S → Label S → Prop) (c : Conf S) : List (Label S) → Prop
  | [] => True
  | l :: ls => ok c l ∧ ((c.step l).getD c).Obeys ok ls

instance Conf.decidableObeys {ok : Conf S → Label S → Prop} [∀ c l, Decidable (ok c l)] :
    ∀ (ls : List (Label S)) (c : Conf S), Decidable (c.Obeys ok ls)
  | [], _ => .isTrue trivial
  | l :: ls, c =>
      have : Decidable (((c.step l).getD c).Obeys ok ls) := decidableObeys ls _
      inferInstanceAs (Decidable (ok c l ∧ _))

theorem Conf.Obeys.mono {ok ok' : Conf S → Label S → Prop} {ls : List (Label S)} {c : Conf S}
    (h : c.Obeys ok ls) (hok : ∀ c l, ok c l → ok' c l) : c.Obeys ok' ls := by
  induction ls generalizing c with
  | nil => trivial
  | cons l ls ih => exact ⟨hok c l h.1, ih h.2⟩

theorem Conf.Obeys.of_labels {ok : Conf S → Label S → Prop} {ls : List (Label S)} {c : Conf S}
    (h : ∀ l ∈ ls, ∀ c, ok c l) : c.Obeys ok ls := by
  induction ls generalizing c with
  | nil => trivial
  | cons l ls ih => exact ⟨h l (by simp) c, ih fun l' hl' => h l' (by simp [hl'])⟩

theorem Steps.play {ok : Conf S → Label S → Prop} {ls : List (Label S)} {c : Conf S}
    (h : c.Obeys ok ls) : Steps ok c (c.play ls) := by
  induction ls generalizing c with
  | nil => exact .refl
  | cons l ls ih =>
      obtain ⟨hl, hls⟩ := h
      cases hstep : c.step l with
      | none =>
          simp only [Conf.play, hstep, Option.getD_none] at hls ⊢
          exact ih hls
      | some c₁ =>
          simp only [Conf.play, hstep, Option.getD_some] at hls ⊢
          exact .head ⟨l, hl, hstep⟩ (ih hls)

/-- The log of a run only grows. -/
theorem Conf.StepTo.log_eq {c c' : Conf S} {l : Label S} (h : StepTo c l c') :
    ∃ ev, c'.world.log = ev :: c.world.log := by
  cases h <;> exact ⟨_, rfl⟩

theorem Steps.log_suffix {ok : Conf S → Label S → Prop} {c c' : Conf S} (h : Steps ok c c') :
    c.world.log <:+ c'.world.log := by
  induction h with
  | refl => exact List.suffix_refl _
  | tail _ hstep ih =>
      obtain ⟨l, _, hl⟩ := hstep
      obtain ⟨ev, hev⟩ := (Conf.stepTo_of_step hl).log_eq
      exact ih.trans (hev ▸ List.suffix_cons ev _)

/-- What a run adds to the log is added by one of its steps. -/
theorem Steps.exists_step {ok : Conf S → Label S → Prop} {c c' : Conf S} (h : Steps ok c c') {ev : Event S}
    (hmem : ev ∈ c'.world.log) (hnew : ev ∉ c.world.log) :
    ∃ c₁ l c₂, Steps ok c c₁ ∧ ok c₁ l ∧ c₁.step l = some c₂ ∧ Steps ok c₂ c' ∧
      c₂.world.log = ev :: c₁.world.log := by
  induction h with
  | refl => exact absurd hmem hnew
  | @tail c₁ c₂ hs hstep ih =>
      obtain ⟨l, hl, hst⟩ := hstep
      obtain ⟨ev', hev'⟩ := (Conf.stepTo_of_step hst).log_eq
      rw [hev'] at hmem
      rcases List.mem_cons.mp hmem with rfl | hmem
      · exact ⟨c₁, l, c₂, hs, hl, hst, .refl, hev'⟩
      · obtain ⟨d, l', d', h₁, hok, h₂, h₃, h₄⟩ := ih hmem
        exact ⟨d, l', d', h₁, hok, h₂, .tail h₃ ⟨l, hl, hst⟩, h₄⟩

/-- An answer in the log is the one that the call got in the state in which it was performed. -/
theorem Conf.exec_of_called {c c' : Conf S} {l : Label S} (h : c.step l = some c') {i : Nat} {q : S.Call}
    {a : S.Reply q} (hlog : c'.world.log = .called i q (.ok a) :: c.world.log) :
    c.call? l = some (i, q) ∧ (S.exec q c.world.state).1 = .ok a := by
  cases Conf.stepTo_of_step h with
  | start hs => simp at hlog
  | @run j job q' k hj =>
      simp only [World.push_log, List.cons.injEq, and_true] at hlog
      cases hq : (S.exec q' c.world.state).1 with
      | ok a' =>
          rw [hq] at hlog
          cases hlog
          exact ⟨by simp [call?, hj, Thread.next?], hq⟩
      | error e =>
          rw [hq] at hlog
          cases hlog
  | fail hj => simp at hlog; obtain ⟨-, rfl, h⟩ := hlog; cases h
  | crash hj => simp at hlog
  | env hs => simp at hlog

/-- The job that the log names is the job that the thread has. -/
def Conf.Logged (c : Conf S) : Prop :=
  ∀ i job, .started i job ∈ c.world.log → ∃ t, c.threads[i]? = some t ∧ t.job = job

theorem Conf.logged_set {c : Conf S} {i : Nat} {job : S.Job} {code code'} {w : World S}
    (h : c.Logged) (hi : c.threads[i]? = some ⟨job, code⟩)
    (hw : ∀ j job, .started j job ∈ w.log → .started j job ∈ c.world.log) :
    Conf.Logged { world := w, threads := c.threads.set i ⟨job, code'⟩ } := by
  intro j job' hmem
  obtain ⟨t, ht, rfl⟩ := h j job' (hw j job' hmem)
  by_cases hj : i = j
  · subst hj
    rw [hi] at ht
    cases ht
    exact ⟨_, List.getElem?_set_self (List.getElem?_eq_some_iff.mp hi).1, rfl⟩
  · exact ⟨t, by rw [List.getElem?_set_ne hj, ht], rfl⟩

theorem Conf.StepTo.logged {c c' : Conf S} {l : Label S} (hs : StepTo c l c') (h : c.Logged) :
    c'.Logged := by
  cases hs with
  | @start job s hs =>
      intro i job' hmem
      rcases List.mem_cons.mp hmem with he | hmem
      · cases he
        exact ⟨⟨job, some (S.body c.threads.length job)⟩, by simp, rfl⟩
      · obtain ⟨t, ht, rfl⟩ := h i job' hmem
        have hlt := (List.getElem?_eq_some_iff.mp ht).1
        exact ⟨t, by rw [List.getElem?_append_left hlt, ht], rfl⟩
  | run hi => exact Conf.logged_set h hi fun j job hm => by simpa using hm
  | fail hi => exact Conf.logged_set h hi fun j job hm => by simpa using hm
  | crash hi => exact Conf.logged_set h hi fun j job hm => by simpa using hm
  | env hs => exact fun i job hmem => h i job (by simpa using hmem)

theorem Reach.logged {ok : Conf S → Label S → Prop} {s : S.State} {c : Conf S} (h : Reach ok s c) :
    c.Logged := by
  induction h with
  | refl => exact fun _ _ hmem => (nomatch hmem)
  | tail _ hstep ih =>
      obtain ⟨l, _, hl⟩ := hstep
      exact (Conf.stepTo_of_step hl).logged ih

/-- Every thread has been started for its job. -/
theorem Reach.started {ok : Conf S → Label S → Prop} {s : S.State} {c : Conf S} (h : Reach ok s c) {i : Nat}
    {t : Thread S} (ht : c.threads[i]? = some t) : .started i t.job ∈ c.world.log := by
  induction h generalizing i t with
  | refl => simp [Conf.init] at ht
  | @tail c₁ c₂ _ hstep ih =>
      obtain ⟨l, _, hl⟩ := hstep
      have hset : ∀ {j job code code'}, c₁.threads[j]? = some ⟨job, code⟩ →
          (c₁.threads.set j ⟨job, code'⟩)[i]? = some t → .started i t.job ∈ c₁.world.log := by
        intro j job code code' hj hi
        by_cases hij : j = i
        · subst hij
          rw [List.getElem?_set_self (List.getElem?_eq_some_iff.mp hj).1] at hi
          cases hi
          exact ih (t := ⟨job, code⟩) hj
        · exact ih (by rwa [List.getElem?_set_ne hij] at hi)
      cases Conf.stepTo_of_step hl with
      | start hs =>
          by_cases hi : i < c₁.threads.length
          · rw [List.getElem?_append_left hi] at ht
            exact List.mem_cons_of_mem _ (ih ht)
          · rw [List.getElem?_append_right (by omega)] at ht
            obtain ⟨hlt, he⟩ := List.getElem?_eq_some_iff.mp ht
            simp only [List.length_singleton] at hlt
            obtain rfl : i = c₁.threads.length := by omega
            simp only [Nat.sub_self, List.getElem_cons_zero] at he
            exact he ▸ List.mem_cons_self
      | run hj => exact List.mem_cons_of_mem _ (hset hj ht)
      | fail hj => exact List.mem_cons_of_mem _ (hset hj ht)
      | crash hj => exact List.mem_cons_of_mem _ (hset hj ht)
      | env hs => exact List.mem_cons_of_mem _ (ih ht)

/-- Where no thread dies, a thread that has ended has an outcome. -/
theorem Reach.outcome_of_ended {ok : Conf S → Label S → Prop} {s : S.State} {c : Conf S}
    (h : Reach ok s c) (hok : ∀ c l, ok c l → l.Faultless) {t : Thread S} (ht : t ∈ c.threads)
    (hend : t.Ended) : ∃ r, t.outcome? = some r := by
  have hcode : t.code ≠ none := by
    clear hend
    induction h with
    | refl => cases ht
    | @tail c₁ c₂ _ hstep ih =>
        obtain ⟨l, hl, hst⟩ := hstep
        have hset : ∀ {i job q} {k : _ → Program S.toSignature S.Exn S.Out} {p},
            c₁.threads[i]? = some ⟨job, some (.call q k)⟩ → t ∈ c₁.threads.set i ⟨job, some p⟩ →
            t.code ≠ none := by
          intro i job q k p _ hmem
          rcases List.mem_or_eq_of_mem_set hmem with hmem | rfl
          · exact ih hmem
          · simp
        cases Conf.stepTo_of_step hst with
        | start hs =>
            rcases List.mem_append.mp ht with ht | ht
            · exact ih ht
            · obtain rfl := List.mem_singleton.mp ht
              simp
        | run hi => exact hset hi ht
        | fail hi => exact hset hi ht
        | crash hi => exact (hok _ _ hl).elim
        | env hs => exact ih ht
  obtain ⟨job, code⟩ := t
  rcases code with _ | (_ | _ | _)
  · exact absurd rfl hcode
  · exact ⟨_, rfl⟩
  · exact ⟨_, rfl⟩
  · cases hend

end Interleaving
