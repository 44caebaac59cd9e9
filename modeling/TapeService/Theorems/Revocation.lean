import TapeService.Interleaving.Reading
import TapeService.Lemmas.Sessions

/-!
# Revocation

`validate` reads the session and writes it back, and the write does not look at what happened in between.
When a `revoke` comes between the two, the session lives again.
-/

namespace TapeService.Sessions

open Interleaving Interleaving.Program Interleaving.Protocol Python

theorem exec_entries {k : String} {s : State} {q : Call} (hq : ∀ v n, q ≠ .setEx k v n) (h : s.entries k = none) :
    (exec q s).2.entries k = none := by
  cases q with
  | get k' => exact h
  | now => exact h
  | delete k' =>
      by_cases hk : k' = k
      · simp [exec, State.put, hk]
      · simp [exec, State.put, Function.update_of_ne (Ne.symm hk), h]
  | setEx k' v n =>
      have hk : k ≠ k' := by
        rintro rfl
        exact hq v n rfl
      by_cases hn : 0 < n <;> simp [exec, State.put, hn, Function.update_of_ne hk, h]

/-- The calls that write no key but `k`. -/
def Writes (k : String) : Call → Prop
  | .setEx k' _ _ => k' = k
  | _ => True

theorem Touches.writes {k : String} {q : Call} (hq : Touches k q) : Writes k q := by
  cases q with
  | setEx k' v n => exact hq
  | _ => trivial

section
variable [DatetimeLib]

def Out.session? : Out → Option Session
  | .session sess => sess
  | _ => none

theorem eq_of_session? {out : Out} {sess : Session} (h : out.session? = some sess) :
    out = .session (some sess) := by
  cases out with
  | session s => exact congrArg Out.session h
  | _ => cases h

end

section
variable [DatetimeLib] [HashLib] {settings : Settings}

/-! ## The property -/

/-- The job validates the session with this id. -/
def Job.validates (raw : String) : Job → Prop
  | .validate raw' => raw' = raw
  | .validateAsync raw' => raw' = raw
  | _ => False

/-- Once a `revoke` of the id has completed in `c`, no validation that starts afterwards returns a session. -/
def RevocationFinal (raw : String) (c c' : Conf (sessions settings)) : Prop :=
  (∃ t ∈ c.threads, t.job = .revoke raw ∧ t.returned?.isSome) →
    ∀ i t, c.threads.length ≤ i → c'.threads[i]? = some t → t.job.validates raw →
      t.returned?.bind Out.session? = none

/-! ## The condition -/

/-- The session that is read, if it is there. -/
def found? (k : String) (q : Call) (r : Except Exn q.Reply) : Option Text :=
  match q, r with
  | .get k', .ok (some blob) => if k' = k then some blob else none
  | _, _ => none

def Call.deletes (k : String) : Call → Bool
  | .delete k' => k' = k
  | _ => false

/-- Thread `j` is started to revoke. -/
def Revokes (j : Nat) : Event (sessions settings) → Prop
  | .started i (.revoke _) => i = j
  | _ => False

instance (j : Nat) (ev : Event (sessions settings)) : Decidable (Revokes j ev) := by
  unfold Revokes
  split <;> infer_instance

def Revoker (log : List (Event (sessions settings))) (j : Nat) : Prop := ∃ ev ∈ log, Revokes j ev

instance (log : List (Event (sessions settings))) (j : Nat) : Decidable (Revoker log j) :=
  inferInstanceAs (Decidable (∃ ev ∈ log, _))

/-- What thread `i` writes under the key was there when it read it, and no `revoke` has deleted it since. -/
def WritesUnrevoked (k : String) (w : World (sessions settings)) (i : Nat) : Call → Prop
  | .setEx k' _ _ => k' = k → ∀ x ∈ reading (found? k) (Call.deletes k) i w.log, ∀ j ∈ x.2, ¬ Revoker w.log j
  | _ => True

instance (k : String) (w : World (sessions settings)) (i : Nat) (q : Call) :
    Decidable (WritesUnrevoked k w i q) := by
  unfold WritesUnrevoked
  split <;> infer_instance

/-- The id is not issued again, as ids are never issued twice. -/
def NotReissued (raw : String) : Label (sessions settings) → Prop
  | .start (.issue raw' _) => key (hash raw') ≠ key (hash raw)
  | _ => True

instance (raw : String) (l : Label (sessions settings)) : Decidable (NotReissued raw l) := by
  unfold NotReissued
  split <;> infer_instance

/-- No validation writes a session back that a `revoke` has deleted since the validation read it. -/
def WritesBackUnrevoked (raw : String) (c : Conf (sessions settings)) (l : Label (sessions settings)) : Prop :=
  NotReissued raw l ∧ ∀ x ∈ c.call? l, WritesUnrevoked (key (hash raw)) c.world x.1 x.2

instance (raw : String) (c : Conf (sessions settings)) (l : Label (sessions settings)) :
    Decidable (WritesBackUnrevoked raw c l) :=
  inferInstanceAs (Decidable (_ ∧ _))

namespace Revocation

variable {k : String} {i : Nat} {w : World (sessions settings)} {log : List (Event (sessions settings))}
  {ev : Event (sessions settings)} {s : State}

/-- A `revoke` has deleted the key and has been told so. -/
def Revoked (k : String) (log : List (Event (sessions settings))) : Prop :=
  ∃ j, Event.called (S := sessions settings) j (.delete k) (.ok ()) ∈ log ∧ Revoker log j

theorem Revoker.mono {log' : List (Event (sessions settings))} {j : Nat} (h : Revoker log j)
    (hl : log ⊆ log') : Revoker log' j := by
  obtain ⟨ev, hev, hrev⟩ := h
  exact ⟨ev, hl hev, hrev⟩

theorem Revoked.mono {log' : List (Event (sessions settings))} (h : Revoked k log) (hl : log ⊆ log') :
    Revoked k log' := by
  obtain ⟨j, hj, hr⟩ := h
  exact ⟨j, hl hj, Revoker.mono hr hl⟩

/-- The thread has begun when the key was revoked already. -/
def RevokedBefore (k : String) (i : Nat) (log : List (Event (sessions settings))) : Prop :=
  ∃ newer job older, log = newer ++ .started i job :: older ∧ Revoked k older

theorem RevokedBefore.revoked (h : RevokedBefore k i log) : Revoked k log := by
  obtain ⟨newer, job, older, rfl, hold⟩ := h
  exact hold.mono fun ev hev => List.mem_append_right _ (List.mem_cons_of_mem _ hev)

theorem not_revokedBefore_cons (hev : ∀ job, ev ≠ .started i job) (h : ¬ RevokedBefore k i log) :
    ¬ RevokedBefore k i (ev :: log) := by
  rintro ⟨newer, job, older, hsplit, hold⟩
  cases newer with
  | nil => exact hev job (List.cons.inj hsplit).1
  | cons ev' newer => exact h ⟨newer, job, older, (List.cons.inj hsplit).2, hold⟩

/-- Only a call can revoke. -/
theorem revoked_of_not_called (hev : ∀ j q r, ev ≠ .called j q r)
    (hfresh : ∀ j job, ev = .started j job → w.Fresh j)
    (h : Revoked k (ev :: w.log)) : Revoked k w.log := by
  obtain ⟨j, hj, ev', hev', hrev⟩ := h
  rcases List.mem_cons.mp hj with he | hcall
  · exact absurd he.symm (hev _ _ _)
  · rcases List.mem_cons.mp hev' with rfl | hev'
    · cases ev' with
      | started j' job =>
          cases job with
          | revoke raw => exact absurd (congrArg some hrev.symm) (hfresh j' _ rfl _ hcall)
          | _ => exact hrev.elim
      | _ => exact hrev.elim
    · exact ⟨j, hcall, ev', hev', hrev⟩

theorem revoked_of_called {j : Nat} {q : Call} {r : Except Exn q.Reply}
    (h : Revoked k (.called j q r :: log : List (Event (sessions settings)))) :
    Revoked k log ∨ q = .delete k ∧ (∃ a, r = .ok a) ∧ Revoker log j := by
  obtain ⟨j', hj, ev', hev', hrev⟩ := h
  have hrevoker : Revoker log j' := by
    rcases List.mem_cons.mp hev' with rfl | hev'
    · exact hrev.elim
    · exact ⟨ev', hev', hrev⟩
  rcases List.mem_cons.mp hj with he | hj
  · cases he
    exact .inr ⟨rfl, ⟨_, rfl⟩, hrevoker⟩
  · exact .inl ⟨j', hj, hrevoker⟩

/-- What the threads keep true: a revoked key is gone, and who has read it before is not up to date. -/
def protocol (k : String) : Protocol (sessions settings) where
  inv w := (Revoked k w.log → w.state.entries k = none) ∧
    ∀ i blob js, reading (found? k) (Call.deletes k) i w.log = some (blob, js) → Revoked k w.log →
      ∃ j ∈ js, Revoker w.log j
  guar _ _ _ := True
  rely _ _ _ _ := True
  may := WritesUnrevoked k
  faults := True

theorem entries_of_found {q : Call} {r : Except Exn q.Reply} {blob : Text} {s' : State}
    (hr : (protocol k : Protocol (sessions settings)).Answers q s r s') (h : found? k q r = some blob) :
    s.entries k ≠ none := by
  cases q with
  | get k' =>
      rcases r with e | _ | b
      · cases h
      · cases h
      · simp only [found?, Option.ite_none_right_eq_some, Option.some.injEq] at h
        obtain ⟨rfl, rfl⟩ := h
        intro hnone
        have hget := hr.of_ok.2
        simp [exec, State.get, hnone, decodeReply] at hget
  | _ => cases h

/-- A call keeps the protocol unless it writes a session that is revoked. -/
theorem good_called {q : Call} {r : Except Exn q.Reply} (hw : (protocol k : Protocol (sessions settings)).inv w)
    (hr : (protocol k : Protocol (sessions settings)).Answers q w.state r s)
    (hq : ∀ v n, q = .setEx k v n → ¬ Revoked k w.log) :
    (protocol k : Protocol (sessions settings)).Good i w (.called i q r) s := by
  refine ⟨⟨fun hrev => ?_, fun i' blob js hread hrev => ?_⟩, trivial, fun _ _ => trivial⟩
  · rcases revoked_of_called hrev with hold | ⟨rfl, ⟨a, rfl⟩, -⟩
    · rcases hr.state with rfl | rfl
      · exact hw.1 hold
      · exact exec_entries (fun v n he => hq v n he hold) (hw.1 hold)
    · obtain rfl := hr.of_ok.1
      simp [exec, State.put]
  · have hrecord := revoked_of_called hrev
    cases hfound : (Event.called i q r : Event (sessions settings)).reads (found? k) i' with
    | some b =>
        -- What is read is there, so it was not revoked, and reading revokes nothing.
        obtain rfl : i = i' := by
          by_contra hne
          rw [Event.reads_of_thread_ne (by simpa [Event.thread?] using hne)] at hfound
          cases hfound
        rw [Event.reads_called] at hfound
        rcases hrecord with hold | ⟨rfl, -, -⟩
        · exact absurd (hw.1 hold) (entries_of_found hr hfound)
        · cases hfound
    | none =>
        rw [World.push_log, reading_of_not_reads hfound] at hread
        obtain ⟨x, hx, he⟩ := Option.map_eq_some_iff.mp hread
        cases he
        rcases hrecord with hold | ⟨rfl, -, hrevoker⟩
        · obtain ⟨j, hj, hrevoker⟩ := hw.2 i' x.1 x.2 hx hold
          exact ⟨j, List.mem_append_right _ hj, Revoker.mono hrevoker (List.subset_cons_self _ _)⟩
        · refine ⟨i, List.mem_append_left _ ?_, Revoker.mono hrevoker (List.subset_cons_self _ _)⟩
          simp [Event.changer?, Call.deletes]

theorem good_of_not_called (hw : (protocol k : Protocol (sessions settings)).inv w)
    (hev : ∀ j q r, ev ≠ .called j q r)
    (hfresh : ∀ j job, ev = .started j job → w.Fresh j) (hs : s.entries = w.state.entries) :
    (protocol k : Protocol (sessions settings)).Good i w ev s := by
  have hold : Revoked k (ev :: w.log) → Revoked k w.log :=
    revoked_of_not_called hev hfresh
  refine ⟨⟨fun hrev => ?_, fun i' blob js hread hrev => ?_⟩, trivial, fun _ _ => trivial⟩
  · rw [World.push_state, hs]
    exact hw.1 (hold hrev)
  · rw [World.push_log, reading_cons_of_not_called hev] at hread
    obtain ⟨j, hj, hrevoker⟩ := hw.2 i' blob js hread (hold hrev)
    exact ⟨j, hj, Revoker.mono hrevoker (List.subset_cons_self _ _)⟩

/-! ## A validation -/

/-- The thread has read the session, and the key was not revoked when the thread has begun. -/
def Found (k : String) (i : Nat) (w : World (sessions settings)) : Prop :=
  (reading (found? k) (Call.deletes k) i w.log).isSome ∧ ¬ RevokedBefore k i w.log

theorem stable_found : (protocol k : Protocol (sessions settings)).Stable i (Found k i) := by
  intro w ev s _ _ hev _ _ h
  exact ⟨reading_isSome_cons h.1, not_revokedBefore_cons (fun job he => hev (he ▸ rfl)) h.2⟩

/-- Who has found the session may make any call: what it writes back is not revoked. -/
theorem quiet_found (q : Call) : (protocol k : Protocol (sessions settings)).Quiet i (Found k i) q := by
  intro w hw h hm r s hr
  refine ⟨good_called hw hr fun v n he hrev => ?_, reading_isSome_cons h.1,
    not_revokedBefore_cons (fun _ => nofun) h.2⟩
  subst he
  obtain ⟨⟨blob, js⟩, hread⟩ := Option.isSome_iff_exists.mp h.1
  obtain ⟨j, hj, hrevoker⟩ := hw.2 i blob js hread hrev
  exact hm rfl _ hread j hj hrevoker

theorem get_triple :
    (protocol k : Protocol (sessions settings)).Triple i (fun _ => True) (ask (.get k))
      (upon (fun blob w => blob.isSome → Found k i w) fun _ => True) := by
  refine Triple.perform (Stable.true i) fun w hw _ _ r s hr => ⟨good_called hw hr nofun, ?_⟩
  rcases r with e | _ | blob
  · trivial
  · exact nofun
  · intro _
    have hfound : found? k (.get k) (.ok (some blob)) = some blob := if_pos rfl
    have hread : (Event.called i (.get k) (.ok (some blob)) : Event (sessions settings)).reads (found? k) i =
        some blob := Event.reads_called.trans hfound
    refine ⟨by simp [reading_of_reads hread], not_revokedBefore_cons (fun _ => nofun) fun hbefore => ?_⟩
    exact entries_of_found hr hfound (hw.1 hbefore.revoked)

/-- A validation finds the session or returns none. -/
theorem validate_triple {raw : String} (hk : key (hash raw) = k) :
    (protocol k : Protocol (sessions settings)).Triple i (fun _ => True) (validate settings raw)
      (upon (fun sess w => sess.isSome → ¬ RevokedBefore k i w.log) fun _ => True) := by
  subst hk
  refine Triple.seq get_triple fun blob => ?_
  cases blob with
  | none => exact Triple.pure fun _ _ _ => nofun
  | some blob =>
      exact Triple.conseq ((Keeps.of_uses stable_found (Program.Uses.of_forall quiet_found _)).upon
        fun _ _ _ => trivial) (fun w _ h => h rfl) fun r w _ h => by
          cases r with
          | ok sess => exact fun _ => h.2
          | error e => trivial

/-! ## The outline -/

/-- What a validation and a `revoke` have done once they have ended. -/
def post (raw : String) (i : Nat) (job : Job) (r : Except Exn Out) (w : World (sessions settings)) : Prop :=
  (job.validates raw → ∀ sess, r = .ok (.session (some sess)) → ¬ RevokedBefore (key (hash raw)) i w.log) ∧
    (job = .revoke raw → ∀ out, r = .ok out → Revoked (key (hash raw)) w.log)

theorem revoke_triple {raw : String} (hk : key (hash raw) = k) :
    (protocol k : Protocol (sessions settings)).Triple i (fun w => .started i (.revoke raw) ∈ w.log)
      (revoke raw) (upon (fun _ w => Revoked k w.log) fun _ => True) := by
  subst hk
  refine Triple.perform (fun _ _ _ _ _ _ _ _ h => List.mem_cons_of_mem _ h) fun w hw hA _ r s hr =>
    ⟨good_called hw hr nofun, ?_⟩
  cases r with
  | error e => trivial
  | ok a => exact ⟨i, List.mem_cons_self, _, List.mem_cons_of_mem _ hA, rfl⟩

/-- A job that is not about the session keeps the protocol. -/
theorem other_triple {job : Job} (hk : job.key ≠ k) :
    (protocol k : Protocol (sessions settings)).Keeps i (fun _ => True) (job.body settings i) :=
  Keeps.of_uses (Stable.true i) (body_touches.mono fun q hq w hw _ _ r s hr =>
    ⟨good_called hw hr fun v n he => by subst he; exact absurd hq.writes (Ne.symm hk), trivial⟩)

/-- A validation ends as `post` says. -/
theorem validated_post {raw : String} {job : Job} {p : Prog (Option Session)} {A : World (sessions settings) → Prop}
    (hjob : job ≠ .revoke raw)
    (hp : (protocol (key (hash raw)) : Protocol (sessions settings)).Triple i A p
      (upon (fun sess w => sess.isSome → ¬ RevokedBefore (key (hash raw)) i w.log) fun _ => True)) :
    (protocol (key (hash raw)) : Protocol (sessions settings)).Triple i A (.session <$> p) (post raw i job) := by
  refine Triple.map hp fun r w _ h => ⟨fun _ sess hr => ?_, fun hj => absurd hj hjob⟩
  cases r with
  | error e => cases hr
  | ok sess' =>
      cases hr
      exact h rfl

theorem body_triple {raw : String} {job : Job} (hjob : NotReissued raw (.start job : Label (sessions settings))) :
    (protocol (key (hash raw)) : Protocol (sessions settings)).Triple i (fun w => .started i job ∈ w.log)
      (job.body settings i) (post raw i job) := by
  by_cases hk : job.key = key (hash raw)
  · cases job with
    | issue raw' userId => exact absurd hk hjob
    | validate raw' =>
        exact validated_post nofun (Triple.conseq (validate_triple hk) (fun _ _ _ => trivial) fun _ _ _ h => h)
    | validateAsync raw' =>
        exact validated_post nofun (Triple.conseq (validate_triple hk) (fun _ _ _ => trivial) fun _ _ _ h => h)
    | revoke raw' =>
        refine Triple.map (revoke_triple hk) fun r w _ h => ⟨nofun, fun _ _ hr => ?_⟩
        cases r with
        | ok _ => exact h
        | error e => cases hr
  · refine Triple.conseq (other_triple hk) (fun _ _ _ => trivial) fun r w _ _ => ⟨fun hj => ?_, fun hj => ?_⟩
    · cases job <;> simp_all [Job.validates, Job.key]
    · exact absurd (congrArg Job.key hj) hk

def outline (raw : String) : Outline (sessions settings) (WritesBackUnrevoked raw) where
  toProtocol := protocol (key (hash raw))
  post := post raw
  post_stable i job r w ev s _ _ hev _ h :=
    ⟨fun hj sess hr => not_revokedBefore_cons (fun _ he => hev (he ▸ rfl)) (h.1 hj sess hr),
      fun hj out hr => (h.2 hj out hr).mono (List.subset_cons_self _ _)⟩
  may_ok c i t q hok hi hq := hok.2 _ (Conf.call?_run hi hq)
  may_fail c i e done t q hok hi hq := ⟨trivial, hok.2 _ (Conf.call?_run hi hq)⟩
  start_ok c job s hok hw hfresh hs := by
    have hg : (protocol (key (hash raw))).Good c.threads.length c.world (.started c.threads.length job) s :=
      good_of_not_called hw nofun (fun j job' he => by cases he; exact hfresh) (by cases hs; rfl)
    exact ⟨hg, body_triple hok.1 _ hg.inv List.mem_cons_self⟩
  crash_ok c i _ hw := good_of_not_called hw nofun nofun rfl
  env_ok c e s _ hw hs := by
    have hg : (protocol (key (hash raw))).Good 0 c.world (.env e) s :=
      good_of_not_called hw nofun nofun (by cases hs; rfl)
    exact ⟨hg.inv, trivial, fun _ _ _ _ => trivial⟩

end Revocation

/-- When no validation writes back what a `revoke` has deleted since, a revocation is final. -/
theorem revocationFinal_of_writesBackUnrevoked {raw : String} {s : State} {c c' : Conf (sessions settings)}
    (h : Reach (WritesBackUnrevoked raw) s c) (hs : Steps (WritesBackUnrevoked raw) c c') :
    RevocationFinal raw c c' := by
  rintro ⟨t₀, ht₀, hjob₀, hout₀⟩ i t hi ht hjob
  have hinit : (Revocation.outline raw : Outline (sessions settings) _).inv ⟨s, []⟩ :=
    ⟨fun ⟨_, hj, _⟩ => (nomatch hj), fun _ _ _ hread => (nomatch hread)⟩
  have hc : (Revocation.outline raw).Holds c := Outline.holds_of_reach hinit h
  obtain ⟨i₀, hi₀⟩ := List.mem_iff_getElem?.mp ht₀
  obtain ⟨out₀, hout₀⟩ := Option.isSome_iff_exists.mp hout₀
  have hrevoked := (hc.outcome hi₀ (Thread.outcome_of_returned hout₀)).2 hjob₀ out₀ rfl
  rw [Option.eq_none_iff_forall_not_mem]
  intro sess hsess
  obtain ⟨out, hout, hsess⟩ := Option.bind_eq_some_iff.mp hsess
  have hpost := (hc.steps hs).outcome ht (Thread.outcome_of_returned hout)
  refine hpost.1 hjob sess (congrArg Except.ok (eq_of_session? hsess)) ?_
  -- The validation has begun after the configuration `c`, whose log shows the revocation.
  obtain ⟨newer, hnewer⟩ := hs.log_suffix
  have hstarted : .started i t.job ∈ c'.world.log := Reach.started (Steps.trans h hs) ht
  rw [← hnewer, List.mem_append] at hstarted
  rcases hstarted with hstarted | hstarted
  · obtain ⟨later, earlier, rfl⟩ := List.append_of_mem hstarted
    refine ⟨later, t.job, earlier ++ c.world.log, by rw [← hnewer]; simp, ?_⟩
    exact hrevoked.mono (List.subset_append_right _ _)
  · exact absurd (hc.log_lt _ hstarted i rfl) (by omega)

end

section
open scoped Python.Utc Sessions.Sample

/-- A validation, then a `revoke`, then another validation. -/
theorem sequential_revocationFinal :
    RevocationFinal Sample.raw
      ((Conf.init Sample.issued : Conf (sessions .default)).play
        [.start (.validate Sample.raw), .run 0, .run 0, .run 0, .start (.revoke Sample.raw), .run 1])
      ((Conf.init Sample.issued : Conf (sessions .default)).play
        [.start (.validate Sample.raw), .run 0, .run 0, .run 0, .start (.revoke Sample.raw), .run 1,
          .start (.validateAsync Sample.raw), .run 2]) := by
  have hbefore : (Conf.init Sample.issued : Conf (sessions .default)).Obeys (WritesBackUnrevoked Sample.raw)
      [.start (.validate Sample.raw), .run 0, .run 0, .run 0, .start (.revoke Sample.raw), .run 1] := by
    decide +kernel
  have hafter : ((Conf.init Sample.issued : Conf (sessions .default)).play
      [.start (.validate Sample.raw), .run 0, .run 0, .run 0, .start (.revoke Sample.raw), .run 1]).Obeys
      (WritesBackUnrevoked Sample.raw) [.start (.validateAsync Sample.raw), .run 2] := by
    decide +kernel
  exact revocationFinal_of_writesBackUnrevoked (Steps.play hbefore) (Steps.play hafter)

/-- A `revoke` comes between the read and the write of a validation. -/
theorem revoked_session_revived :
    ¬ ∀ (s : State) (c c' : Conf (sessions .default)),
      Reach (fun _ l => l.Faultless ∧ NotReissued Sample.raw l) s c →
      Steps (fun _ l => l.Faultless ∧ NotReissued Sample.raw l) c c' → RevocationFinal Sample.raw c c' := by
  intro h
  have hbefore : (Conf.init Sample.issued : Conf (sessions .default)).Obeys
      (fun _ l => l.Faultless ∧ NotReissued Sample.raw l)
      [.start (.validate Sample.raw), .run 0, .start (.revoke Sample.raw), .run 1] := by
    decide +kernel
  have hafter : ((Conf.init Sample.issued : Conf (sessions .default)).play
      [.start (.validate Sample.raw), .run 0, .start (.revoke Sample.raw), .run 1]).Obeys
      (fun _ l => l.Faultless ∧ NotReissued Sample.raw l)
      [.run 0, .run 0, .start (.validate Sample.raw), .run 2, .run 2, .run 2] := by
    decide +kernel
  have hfinal := h _ _ _ (Steps.play hbefore) (Steps.play hafter) (by decide +kernel) 2
  have haccepted : ((((Conf.init Sample.issued : Conf (sessions .default)).play
      [.start (.validate Sample.raw), .run 0, .start (.revoke Sample.raw), .run 1]).play
      [.run 0, .run 0, .start (.validate Sample.raw), .run 2, .run 2, .run 2]).threads[2]?.any fun t =>
        t.job = .validate Sample.raw ∧ (t.returned?.bind Out.session?).isSome) = true := by
    decide +kernel
  obtain ⟨t, ht, hjob⟩ := Option.any_eq_true _ _ |>.mp haccepted
  obtain ⟨hjob, hsess⟩ := of_decide_eq_true hjob
  rw [hfinal t (by decide +kernel) ht (hjob ▸ rfl)] at hsess
  cases hsess

end

end TapeService.Sessions
