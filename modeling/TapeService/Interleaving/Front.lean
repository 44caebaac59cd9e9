import TapeService.Interleaving.System

/-!
# A system behind a front

Requests reach a system through a front, which has calls and a state of its own. The front answers a request
itself, or lets it through as a job of the system; jobs of the background do not pass the front.

Every run of the whole is a run of the system behind the front (`Front.refines`). A request that is still in
the front is a thread that has not yet made a call, of whatever job it will turn out to be let through as: so
the run of the system is chosen from the end of the run of the whole.
-/

namespace Interleaving

@[reducible] def Signature.sum (S T : Signature) : Signature where
  Call := S.Call ⊕ T.Call
  Reply := Sum.elim S.Reply T.Reply

namespace Program

variable {S T : Signature} {ε α β : Type}

def inl : Program S ε α → Program (S.sum T) ε α
  | .ret a => .ret a
  | .raise e => .raise e
  | .call c k => .call (.inl c) fun r => (k r).inl

def inr : Program T ε α → Program (S.sum T) ε α
  | .ret a => .ret a
  | .raise e => .raise e
  | .call c k => .call (.inr c) fun r => (k r).inr

@[simp] theorem inl_ofExcept (r : Except ε α) : (ofExcept r : Program S ε α).inl (T := T) = ofExcept r := by
  cases r <;> rfl

@[simp] theorem inr_ofExcept (r : Except ε α) : (ofExcept r : Program T ε α).inr (S := S) = ofExcept r := by
  cases r <;> rfl

theorem inl_perform (c : S.Call) :
    (perform c : Program S ε _).inl (T := T) = (perform (S := S.sum T) (.inl c) : Program (S.sum T) ε _) := by
  exact congrArg (Program.call (S := S.sum T) (.inl c)) (funext fun r => inl_ofExcept r)

theorem inr_perform (c : T.Call) :
    (perform c : Program T ε _).inr (S := S) = (perform (S := S.sum T) (.inr c) : Program (S.sum T) ε _) := by
  exact congrArg (Program.call (S := S.sum T) (.inr c)) (funext fun r => inr_ofExcept r)

theorem inl_andThen (p : Program S ε α) (f : Except ε α → Program S ε β) :
    (p.andThen f).inl (T := T) = p.inl.andThen fun r => (f r).inl := by
  induction p with
  | ret a => rfl
  | raise e => rfl
  | call c k ih => exact congrArg (Program.call (S := S.sum T) (.inl c)) (funext fun r => ih r)

theorem inr_andThen (p : Program T ε α) (f : Except ε α → Program T ε β) :
    (p.andThen f).inr (S := S) = p.inr.andThen fun r => (f r).inr := by
  induction p with
  | ret a => rfl
  | raise e => rfl
  | call c k ih => exact congrArg (Program.call (S := S.sum T) (.inr c)) (funext fun r => ih r)

theorem inl_bind (p : Program S ε α) (f : α → Program S ε β) :
    (p >>= f).inl (T := T) = p.inl >>= fun a => (f a).inl := by
  rw [bind_eq, bind_eq, inl_andThen]
  congr 1
  funext r
  cases r <;> rfl

theorem inr_bind (p : Program T ε α) (f : α → Program T ε β) :
    (p >>= f).inr (S := S) = p.inr >>= fun a => (f a).inr := by
  rw [bind_eq, bind_eq, inr_andThen]
  congr 1
  funext r
  cases r <;> rfl

theorem Uses.inl {C : (S.sum T).Call → Prop} {p : Program S ε α} (hp : p.Uses fun c => C (.inl c)) :
    p.inl.Uses C := by
  induction p with
  | ret a => trivial
  | raise e => trivial
  | call c k ih => exact ⟨hp.1, fun r => ih r (hp.2 r)⟩

theorem Uses.inr {C : (S.sum T).Call → Prop} {p : Program T ε α} (hp : p.Uses fun c => C (.inr c)) :
    p.inr.Uses C := by
  induction p with
  | ret a => trivial
  | raise e => trivial
  | call c k ih => exact ⟨hp.1, fun r => ih r (hp.2 r)⟩

/-- Whatever the program returns satisfies `Q`. -/
def Returns (Q : α → Prop) : Program S ε α → Prop
  | .ret a => Q a
  | .raise _ => True
  | .call _ k => ∀ r, (k r).Returns Q

theorem Returns.andThen {Q : β → Prop} {p : Program S ε α} {f : Except ε α → Program S ε β}
    (hf : ∀ r, (f r).Returns Q) : (p.andThen f).Returns Q := by
  induction p with
  | ret a => exact hf _
  | raise e => exact hf _
  | call c k ih => exact fun r => ih r

theorem Returns.bind {Q : β → Prop} {p : Program S ε α} {f : α → Program S ε β}
    (hf : ∀ a, (f a).Returns Q) : (p >>= f).Returns Q := by
  refine Returns.andThen fun r => ?_
  cases r with
  | ok a => exact hf a
  | error e => trivial

/-- The program can return `a`. -/
def Gives (a : α) : Program S ε α → Prop
  | .ret b => b = a
  | .raise _ => False
  | .call _ k => ∃ r, (k r).Gives a

theorem Returns.of_gives {Q : α → Prop} {p : Program S ε α} (hp : p.Returns Q) {a : α} (ha : p.Gives a) : Q a := by
  induction p with
  | ret b => exact ha ▸ hp
  | raise e => exact ha.elim
  | call c k ih =>
      obtain ⟨r, hr⟩ := ha
      exact ih r (hp r) hr

end Program

open Program

/-! ## Fronts -/

variable {S : System}

/-- A job that can be started at any time, and whose start changes nothing. -/
def System.Plain (S : System) (job : S.Job) : Prop := ∀ s, S.start job s = some s

structure Front (S : System) extends Signature where
  State : Type
  Request : Type
  Answer : Type
  Env : Type
  /-- What becomes of a request. The number identifies the thread. -/
  guard : Nat → Request → Program toSignature S.Exn (S.Job ⊕ Answer)
  exec : (c : Call) → State → Except S.Exn (Reply c) × State
  /-- What the front sees of a call of the system that takes effect. -/
  sees : S.Call → State → State
  env : Env → State → Option State
  /-- A job that is let through can be started at any time. -/
  lets : ∀ i req, (guard i req).Returns (Sum.elim S.Plain fun _ => True)

namespace Front

variable (F : Front S)

/-- The job that has been let through, or the front's own answer. -/
def rest (i : Nat) : S.Job ⊕ F.Answer → Program (S.toSignature.sum F.toSignature) S.Exn (S.Out ⊕ F.Answer)
  | .inl job => .inl <$> (S.body i job).inl
  | .inr a => .ret (.inr a)

@[reducible] def system : System where
  toSignature := S.toSignature.sum F.toSignature
  Exn := S.Exn
  State := S.State × F.State
  Job := S.Job ⊕ F.Request
  Out := S.Out ⊕ F.Answer
  Env := S.Env ⊕ F.Env
  body i
    | .inl job => .inl <$> (S.body i job).inl
    | .inr req => (F.guard i req).inr >>= F.rest i
  exec
    | .inl c, s => ((S.exec c s.1).1, (S.exec c s.1).2, F.sees c s.2)
    | .inr c, s => ((F.exec c s.2).1, s.1, (F.exec c s.2).2)
  start
    | .inl job, s => (S.start job s.1).map fun s₁ => (s₁, s.2)
    | .inr _, s => some s
  env
    | .inl e, s => (S.env e s.1).map fun s₁ => (s₁, s.2)
    | .inr e, s => (F.env e s.2).map fun s₂ => (s.1, s₂)

/-! ## What the system behind the front sees -/

/-- The event as the system behind the front sees it. -/
def behind? : Event F.system → Option (Event S)
  | .called i (.inl c) r => some (.called i c r)
  | .env (.inl e) => some (.env e)
  | _ => none

/-- The calls and what the surroundings do. -/
def shown? : Event S → Option (Event S)
  | .called i c r => some (.called i c r)
  | .env e => some (.env e)
  | _ => none

/-- What is seen behind the front has happened there. -/
theorem eq_of_behind {F : Front S} {ev : Event F.system} {i : Nat} {q : S.Call} {r : Except S.Exn (S.Reply q)}
    (h : F.behind? ev = some (.called i q r)) : ev = .called i (.inl q) r := by
  unfold behind? at h
  split at h
  · cases h
    rfl
  · cases h
  · cases h

/-- The jobs as which a thread can be let through. -/
def As (i : Nat) : S.Job ⊕ F.Request → S.Job → Prop
  | .inl job, job' => job' = job
  | .inr req, job' => (F.guard i req).Gives (.inl job')

/-- A thread of the whole and the thread that stands for it behind the front. As long as the request is in the
front, and for ever if it does not leave it, that is a thread of some `job` that has not begun. -/
inductive Behind (i : Nat) (job : S.Job) : Thread F.system → Thread S → Prop where
  | waiting {req : F.Request} {g : Program F.toSignature S.Exn (S.Job ⊕ F.Answer)}
      (hundecided : ∀ job', g ≠ .ret (.inl job'))
      (hgives : ∀ job', g.Gives (.inl job') → (F.guard i req).Gives (.inl job')) :
      Behind i job ⟨.inr req, some (g.inr >>= F.rest i)⟩ ⟨job, some (S.body i job)⟩
  | lost {req : F.Request} : Behind i job ⟨.inr req, none⟩ ⟨job, some (S.body i job)⟩
  | through {wjob : S.Job ⊕ F.Request} {job' : S.Job} {p : Program S.toSignature S.Exn S.Out}
      (has : F.As i wjob job') : Behind i job ⟨wjob, some (.inl <$> p.inl)⟩ ⟨job', some p⟩
  | dead {wjob : S.Job ⊕ F.Request} {job' : S.Job} (has : F.As i wjob job') :
      Behind i job ⟨wjob, none⟩ ⟨job', none⟩

/-- The two configurations agree on the state behind the front, on everything that has been done to it, and on
every thread; `jobs` are the jobs of the requests that are still in the front. -/
structure Sim (jobs : Nat → S.Job) (c : Conf F.system) (d : Conf S) : Prop where
  state : d.world.state = c.world.state.1
  shown : d.world.log.filterMap shown? = c.world.log.filterMap F.behind?
  length : d.threads.length = c.threads.length
  threads : ∀ i t, c.threads[i]? = some t → ∃ t', d.threads[i]? = some t' ∧ F.Behind i (jobs i) t t'

variable {F} {jobs : Nat → S.Job} {c : Conf F.system} {d : Conf S}

theorem Sim.step (h : F.Sim jobs c d) {jobs' : Nat → S.Job} {i : Nat} (hjobs : ∀ j, j ≠ i → jobs' j = jobs j)
    {t : Thread F.system} {t' : Thread S} {w : World F.system} {d' : Conf S} (hi : i < c.threads.length)
    (hstate : d'.world.state = w.state.1)
    (hshown : d'.world.log.filterMap shown? = w.log.filterMap F.behind?)
    (hothers : d'.threads = d.threads.set i t') (ht : F.Behind i (jobs' i) t t') :
    F.Sim jobs' { world := w, threads := c.threads.set i t } d' := by
  refine ⟨hstate, hshown, by simp [hothers, h.length], fun j u hu => ?_⟩
  by_cases hj : i = j
  · subst hj
    obtain rfl : t = u := by simpa [List.getElem?_set_self hi] using hu
    exact ⟨t', by rw [hothers, List.getElem?_set_self (h.length ▸ hi)], ht⟩
  · simp only [List.getElem?_set_ne hj] at hu
    obtain ⟨u', hu', hb⟩ := h.threads j u hu
    exact ⟨u', by rw [hothers, List.getElem?_set_ne hj, hu'], hjobs j (Ne.symm hj) ▸ hb⟩

theorem Sim.start (h : F.Sim jobs c d) {jobs' : Nat → S.Job} (hjobs : ∀ j < c.threads.length, jobs' j = jobs j)
    {t : Thread F.system} {t' : Thread S} {w : World F.system} {d' : Conf S}
    (hstate : d'.world.state = w.state.1)
    (hshown : d'.world.log.filterMap shown? = w.log.filterMap F.behind?)
    (hothers : d'.threads = d.threads ++ [t'])
    (ht : F.Behind c.threads.length (jobs' c.threads.length) t t') :
    F.Sim jobs' { world := w, threads := c.threads ++ [t] } d' := by
  refine ⟨hstate, hshown, by simp [hothers, h.length], fun j u hu => ?_⟩
  by_cases hj : j < c.threads.length
  · rw [List.getElem?_append_left hj] at hu
    obtain ⟨u', hu', hb⟩ := h.threads j u hu
    exact ⟨u', by rw [hothers, List.getElem?_append_left (h.length ▸ hj), hu'], hjobs j hj ▸ hb⟩
  · rw [List.getElem?_append_right (by omega)] at hu
    obtain ⟨hlt, he⟩ := List.getElem?_eq_some_iff.mp hu
    simp only [List.length_singleton] at hlt
    obtain rfl : j = c.threads.length := by omega
    simp only [Nat.sub_self, List.getElem_cons_zero] at he
    exact ⟨t', by rw [hothers, ← h.length]; simp, he ▸ ht⟩

/-! ## Threads -/

theorem set_of_getElem? {α : Type} {l : List α} {i : Nat} {a : α} (h : l[i]? = some a) : l.set i a = l := by
  obtain ⟨hlt, rfl⟩ := List.getElem?_eq_some_iff.mp h
  exact List.set_getElem_self hlt

/-- Once its front has come to `g`, a request is matched by a thread that has not begun: of the job that `g` has
returned, if it has, and of any job otherwise. -/
theorem exists_behind {i : Nat} {job : S.Job} (hjob : S.Plain job) {req : F.Request}
    {g : Program F.toSignature S.Exn (S.Job ⊕ F.Answer)}
    (hgives : ∀ job', g.Gives (.inl job') → (F.guard i req).Gives (.inl job')) :
    ∃ job', S.Plain job' ∧
      F.Behind i job ⟨.inr req, some (g.inr >>= F.rest i)⟩ ⟨job', some (S.body i job')⟩ := by
  by_cases hg : ∃ job', g = .ret (.inl job')
  · obtain ⟨job', rfl⟩ := hg
    have hgiven : (F.guard i req).Gives (.inl job') := hgives job' rfl
    exact ⟨job', Returns.of_gives (F.lets i req) hgiven, .through hgiven⟩
  · exact ⟨job, hjob, .waiting (fun job' he => hg ⟨job', he⟩) hgives⟩

/-- A thread whose next call is one of the front has a request that is still in the front. -/
theorem Behind.of_front {i : Nat} {job : S.Job} {wjob : S.Job ⊕ F.Request} {q : F.Call}
    {k : Except S.Exn (F.Reply q) → Program F.system.toSignature S.Exn F.system.Out} {t' : Thread S}
    (h : F.Behind i job ⟨wjob, some (.call (.inr q) k)⟩ t') :
    t' = ⟨job, some (S.body i job)⟩ ∧
      ∃ (req : F.Request) (g : Except S.Exn (F.Reply q) → Program F.toSignature S.Exn (S.Job ⊕ F.Answer)),
        wjob = .inr req ∧ (∀ r, k r = (g r).inr >>= F.rest i) ∧
          ∀ r job', (g r).Gives (.inl job') → (F.guard i req).Gives (.inl job') := by
  generalize ht : (⟨wjob, some (.call (.inr q) k)⟩ : Thread F.system) = t at h
  cases h with
  | @waiting req g hundecided hgives =>
      obtain ⟨rfl, hcode⟩ := Thread.mk.inj ht
      cases g with
      | ret a =>
          cases a with
          | inl job' => exact absurd rfl (hundecided job')
          | inr a => cases hcode
      | raise e => cases hcode
      | call q' g =>
          cases hcode
          exact ⟨rfl, req, g, rfl, fun r => rfl, fun r job' hr => hgives job' ⟨r, hr⟩⟩
  | lost => cases ht
  | @through _ _ p has =>
      obtain ⟨-, hcode⟩ := Thread.mk.inj ht
      cases p with
      | ret a => cases hcode
      | raise e => cases hcode
      | call q' k' => cases hcode
  | dead has => cases ht

/-- A thread whose next call is one of the system behind the front has been let through. -/
theorem Behind.of_through {i : Nat} {job : S.Job} {wjob : S.Job ⊕ F.Request} {q : S.Call}
    {k : Except S.Exn (S.Reply q) → Program F.system.toSignature S.Exn F.system.Out} {t' : Thread S}
    (h : F.Behind i job ⟨wjob, some (.call (.inl q) k)⟩ t') :
    ∃ job' k', t' = ⟨job', some (.call q k')⟩ ∧ F.As i wjob job' ∧ ∀ r, k r = .inl <$> (k' r).inl := by
  generalize ht : (⟨wjob, some (.call (.inl q) k)⟩ : Thread F.system) = t at h
  cases h with
  | @waiting req g hundecided hgives =>
      obtain ⟨-, hcode⟩ := Thread.mk.inj ht
      cases g with
      | ret a =>
          cases a with
          | inl job' => exact absurd rfl (hundecided job')
          | inr a => cases hcode
      | raise e => cases hcode
      | call q' g => cases hcode
  | lost => cases ht
  | @through _ job' p has =>
      obtain ⟨rfl, hcode⟩ := Thread.mk.inj ht
      cases p with
      | ret a => cases hcode
      | raise e => cases hcode
      | call q' k' =>
          cases hcode
          exact ⟨job', k', rfl, has, fun r => rfl⟩
  | dead has => cases ht

/-- What the system behind the front has answered is the answer of the thread that stands for it. -/
theorem Behind.of_returned {i : Nat} {job : S.Job} {wjob : S.Job ⊕ F.Request} {out : S.Out} {t' : Thread S}
    (h : F.Behind i job ⟨wjob, some (.ret (.inl out))⟩ t') :
    ∃ job', t' = ⟨job', some (.ret out)⟩ ∧ F.As i wjob job' := by
  generalize ht : (⟨wjob, some (.ret (.inl out))⟩ : Thread F.system) = t at h
  cases h with
  | @waiting req g hundecided hgives =>
      obtain ⟨-, hcode⟩ := Thread.mk.inj ht
      cases g with
      | ret a =>
          cases a with
          | inl job' => exact absurd rfl (hundecided job')
          | inr a => cases hcode
      | raise e => cases hcode
      | call q g => cases hcode
  | lost => cases ht
  | @through _ job' p has =>
      obtain ⟨rfl, hcode⟩ := Thread.mk.inj ht
      cases p with
      | ret a =>
          cases hcode
          exact ⟨job', rfl, has⟩
      | raise e => cases hcode
      | call q' k' => cases hcode
  | dead has => cases ht

/-! ## The refinement -/

section
/-- Some run of the system behind the front matches the run of the whole, whatever the requests that are still in
the front will be let through as. -/
def Matched (F : Front S) (Q : Label S → Prop) (s : S.State) (c : Conf F.system) : Prop :=
  ∀ jobs : Nat → S.Job, (∀ i, S.Plain (jobs i)) → ∃ d, Reach (fun _ l => Q l) s d ∧ F.Sim jobs c d

variable {Q : Label S → Prop} {s₁ : S.State} {c : Conf F.system} {i : Nat} {wjob : S.Job ⊕ F.Request}

/-- A call of the front moves nothing behind it. -/
theorem Matched.front (h : F.Matched Q s₁ c) {q : F.Call}
    {k : Except S.Exn (F.Reply q) → Program F.system.toSignature S.Exn F.system.Out}
    (hi : c.threads[i]? = some ⟨wjob, some (.call (.inr q) k)⟩) {w : World F.system} {ev : Event F.system}
    (hstate : w.state.1 = c.world.state.1) (hlog : w.log = ev :: c.world.log) (hev : F.behind? ev = none)
    (r : Except S.Exn (F.Reply q)) :
    F.Matched Q s₁ { world := w, threads := c.threads.set i ⟨wjob, some (k r)⟩ } := by
  intro jobs hplain
  have hlt := (List.getElem?_eq_some_iff.mp hi).1
  obtain ⟨d₀, -, hsim₀⟩ := h jobs hplain
  obtain ⟨t₀, -, hb₀⟩ := hsim₀.threads i _ hi
  obtain ⟨-, req, g, rfl, hk, hgives⟩ := hb₀.of_front
  obtain ⟨job, hjob, hb⟩ := exists_behind (hplain i) (hgives r)
  obtain ⟨d, hd, hsim⟩ := h (Function.update jobs i job) fun j => by
    by_cases hj : j = i
    · subst hj
      simpa using hjob
    · simpa [Function.update_of_ne hj] using hplain j
  obtain ⟨t', ht', hb'⟩ := hsim.threads i _ hi
  obtain ⟨rfl, -⟩ := hb'.of_front
  rw [Function.update_self] at ht'
  refine ⟨d, hd, hsim.step (fun j hj => (Function.update_of_ne hj _ _).symm) hlt (hsim.state.trans hstate.symm) ?_
    (set_of_getElem? ht').symm (hk r ▸ hb)⟩
  rw [hlog, List.filterMap_cons_none hev, hsim.shown]

/-- A call of a job that has been let through is made behind the front. -/
theorem Matched.through (h : F.Matched Q s₁ c) {q : S.Call}
    {k : Except S.Exn (S.Reply q) → Program F.system.toSignature S.Exn F.system.Out}
    (hi : c.threads[i]? = some ⟨wjob, some (.call (.inl q) k)⟩) {w : World F.system}
    {r : Except S.Exn (S.Reply q)} (hlog : w.log = .called i (.inl q) r :: c.world.log) {l : Label S} (hl : Q l)
    (hstep : ∀ (d : Conf S) job k', d.world.state = c.world.state.1 →
      d.threads[i]? = some ⟨job, some (.call q k')⟩ → d.step l =
        some { world := d.world.push (.called i q r) w.state.1, threads := d.threads.set i ⟨job, some (k' r)⟩ }) :
    F.Matched Q s₁ { world := w, threads := c.threads.set i ⟨wjob, some (k r)⟩ } := by
  intro jobs hplain
  obtain ⟨d, hd, hsim⟩ := h jobs hplain
  obtain ⟨t', ht', hb⟩ := hsim.threads i _ hi
  obtain ⟨job, k', rfl, has, hk⟩ := hb.of_through
  refine ⟨_, hd.tail ⟨l, hl, hstep d job k' hsim.state ht'⟩,
    hsim.step (fun _ _ => rfl) (List.getElem?_eq_some_iff.mp hi).1 rfl ?_ rfl (hk r ▸ .through has)⟩
  rw [hlog]
  exact congrArg _ hsim.shown

theorem Matched.crash (h : F.Matched Q s₁ c) (hQ : Q (.crash i)) {q : F.system.Call}
    {k : Except S.Exn (F.system.Reply q) → Program F.system.toSignature S.Exn F.system.Out}
    (hi : c.threads[i]? = some ⟨wjob, some (.call q k)⟩) :
    F.Matched Q s₁
      { world := c.world.push (.crashed i) c.world.state, threads := c.threads.set i ⟨wjob, none⟩ } := by
  intro jobs hplain
  obtain ⟨d, hd, hsim⟩ := h jobs hplain
  have hlt := (List.getElem?_eq_some_iff.mp hi).1
  obtain ⟨t', ht', hb⟩ := hsim.threads i _ hi
  cases q with
  | inl q =>
      obtain ⟨job, k', rfl, has, -⟩ := hb.of_through
      have hstep : d.step (.crash i) =
          some { world := d.world.push (.crashed i) d.world.state, threads := d.threads.set i ⟨job, none⟩ } := by
        simp only [Conf.step, ht']
      exact ⟨_, hd.tail ⟨.crash i, hQ, hstep⟩,
        hsim.step (fun _ _ => rfl) hlt hsim.state hsim.shown rfl (.dead has)⟩
  | inr q =>
      obtain ⟨rfl, req, g, rfl, -⟩ := hb.of_front
      exact ⟨d, hd, hsim.step (fun _ _ => rfl) hlt hsim.state hsim.shown (set_of_getElem? ht').symm .lost⟩

theorem Matched.startJob (h : F.Matched Q s₁ c) (hQ : ∀ job, Q (.start job)) {job : S.Job} {s : S.State}
    (hs : S.start job c.world.state.1 = some s) :
    F.Matched Q s₁
      { world := c.world.push (.started c.threads.length (.inl job)) (s, c.world.state.2)
        threads := c.threads ++ [⟨.inl job, some (F.system.body c.threads.length (.inl job))⟩] } := by
  intro jobs hplain
  obtain ⟨d, hd, hsim⟩ := h jobs hplain
  have hstep : d.step (.start job) =
      some { world := d.world.push (.started d.threads.length job) s
             threads := d.threads ++ [⟨job, some (S.body d.threads.length job)⟩] } := by
    simp only [Conf.step, hsim.state, hs, Option.map_some]
  exact ⟨_, hd.tail ⟨.start job, hQ job, hstep⟩,
    hsim.start (fun _ _ => rfl) rfl hsim.shown rfl (hsim.length ▸ .through rfl)⟩

/-- The thread of a request is matched by one of the job as which the request will be let through. -/
theorem Matched.startRequest (h : F.Matched Q s₁ c) (hQ : ∀ job, Q (.start job)) {req : F.Request} :
    F.Matched Q s₁
      { world := c.world.push (.started c.threads.length (.inr req)) c.world.state
        threads := c.threads ++ [⟨.inr req, some (F.system.body c.threads.length (.inr req))⟩] } := by
  intro jobs hplain
  obtain ⟨job, hjob, hb⟩ := exists_behind (hplain c.threads.length) (g := F.guard c.threads.length req) fun _ hg => hg
  obtain ⟨d, hd, hsim⟩ := h jobs hplain
  have hstep : d.step (.start job) =
      some { world := d.world.push (.started d.threads.length job) d.world.state
             threads := d.threads ++ [⟨job, some (S.body d.threads.length job)⟩] } := by
    simp only [Conf.step, hjob d.world.state, Option.map_some]
  exact ⟨_, hd.tail ⟨.start job, hQ job, hstep⟩,
    hsim.start (fun _ _ => rfl) hsim.state hsim.shown rfl (by simpa only [hsim.length] using hb)⟩

theorem Matched.env (h : F.Matched Q s₁ c) {e : F.system.Env} (hQ : ∀ e', e = .inl e' → Q (.env e'))
    {s : S.State × F.State} (hs : F.system.env e c.world.state = some s) :
    F.Matched Q s₁ { world := c.world.push (.env e) s, threads := c.threads } := by
  intro jobs hplain
  obtain ⟨d, hd, hsim⟩ := h jobs hplain
  cases e with
  | inl e =>
      obtain ⟨s₁', hs₁, rfl⟩ := Option.map_eq_some_iff.mp hs
      have hstep : d.step (.env e) = some { world := d.world.push (.env e) s₁', threads := d.threads } := by
        simp only [Conf.step, hsim.state, hs₁, Option.map_some]
      exact ⟨_, hd.tail ⟨.env e, hQ e rfl, hstep⟩,
        ⟨rfl, congrArg (Event.env e :: ·) hsim.shown, hsim.length, hsim.threads⟩⟩
  | inr e =>
      obtain ⟨s₂, -, rfl⟩ := Option.map_eq_some_iff.mp hs
      exact ⟨d, hd, ⟨hsim.state, hsim.shown, hsim.length, hsim.threads⟩⟩

/-- The steps that `ok` admits are admitted by `Q` where they are made behind the front. -/
structure Admits (F : Front S) (ok : Conf F.system → Label F.system → Prop) (Q : Label S → Prop) : Prop where
  start : ∀ job, Q (.start job)
  run : ∀ c i, ok c (.run i) → Q (.run i)
  fail : ∀ c i e done, ok c (.fail i e done) → Q (.fail i e done)
  crash : ∀ c i, ok c (.crash i) → Q (.crash i)
  env : ∀ c e, ok c (.env (.inl e)) → Q (.env e)

theorem Admits.all : F.Admits (fun _ _ => True) fun _ => True :=
  ⟨fun _ => trivial, fun _ _ _ => trivial, fun _ _ _ _ _ => trivial, fun _ _ _ => trivial, fun _ _ _ => trivial⟩

theorem Matched.step {ok : Conf F.system → Label F.system → Prop} (hok : F.Admits ok Q) (h : F.Matched Q s₁ c)
    {l : Label F.system} (hl : ok c l) {c' : Conf F.system} (hstep : c.step l = some c') : F.Matched Q s₁ c' := by
  cases Conf.stepTo_of_step hstep with
  | @start job s hs =>
      cases job with
      | inl job =>
          obtain ⟨s₁', hs₁, rfl⟩ := Option.map_eq_some_iff.mp hs
          exact h.startJob hok.start hs₁
      | inr req =>
          cases hs
          exact h.startRequest hok.start
  | @run i job q k hi =>
      cases q with
      | inl q =>
          refine h.through hi rfl (hok.run c i hl) fun d job k' hd hi' => ?_
          simp only [Conf.step, hi', hd]
          rfl
      | inr q =>
          refine h.front (w := c.world.push _ _) hi ?_ rfl ?_ _
          · rfl
          · rfl
  | @fail i e done job q k hi =>
      cases q with
      | inl q =>
          refine h.through hi rfl (hok.fail c i e done hl) fun d job k' hd hi' => ?_
          simp only [Conf.step, hi', hd]
          cases done <;> rfl
      | inr q =>
          have hstate : (if done then (F.system.exec (.inr q) c.world.state).2 else c.world.state).1 =
              c.world.state.1 := by
            cases done <;> rfl
          refine h.front (w := c.world.push _ _) hi hstate rfl ?_ _
          rfl
  | crash hi => exact h.crash (hok.crash c _ hl) hi
  | env hs => exact h.env (fun e he => hok.env c e (he ▸ hl)) hs

/-- Every run of the whole is a run of the system behind the front. -/
theorem refines {ok : Conf F.system → Label F.system → Prop} (hok : F.Admits ok Q) {s : S.State × F.State}
    (h : Reach ok s c) : F.Matched Q s.1 c := by
  induction h with
  | refl => exact fun jobs _ => ⟨Conf.init s.1, .refl, ⟨rfl, rfl, rfl, fun i t ht => by simp [Conf.init] at ht⟩⟩
  | tail _ hstep ih =>
      obtain ⟨l, hl, hst⟩ := hstep
      exact ih.step hok hl hst

end

end Front

end Interleaving
