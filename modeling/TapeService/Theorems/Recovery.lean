import TapeService.Lemmas.Outlines
import TapeService.Lemmas.Config

/-!
# Recovery

However often a generation is cut short, the next one that completes leaves the tape and the dirty flag
that one uninterrupted generation would have left.

What a completed generation would make of the stored data is a function of the data (`target`), and no
step of a generation changes it, whether the step is answered, raises or is the last one.
-/

namespace TapeService

open Interleaving Interleaving.Program Interleaving.Protocol Python Redis

/-! ## The property -/

section
variable [DatetimeLib]

/-- Attempts one after the other: each is started with the stored dirty flag when the lock is gone, and
only the last one runs. -/
def Attempts (userId : Int) (c : Conf service) : Label service → Prop
  | .start (.generate u dirty) =>
      u = userId ∧ (dirty = true ↔ (c.world.state.cfg userId).get "dirty" = some "1") ∧
        c.world.state.lock userId = none
  | .start _ => False
  | .run i => latest? c.world.log = some i
  | .fail i _ _ => latest? c.world.log = some i
  | .crash _ => True
  | .env (.expireLock _) => True
  | .env _ => False

instance (userId : Int) (c : Conf service) (l : Label service) : Decidable (Attempts userId c l) :=
  match l with
  | .start (.generate u _) => inferInstanceAs (Decidable (u = userId ∧ _))
  | .start (.readTape _ _) => .isFalse id
  | .start (.submitScore _ _) => .isFalse id
  | .start (.readConfig _) => .isFalse id
  | .start (.writeConfig _ _) => .isFalse id
  | .start (.handle _) => .isFalse id
  | .run i => inferInstanceAs (Decidable (latest? c.world.log = some i))
  | .fail i _ _ => inferInstanceAs (Decidable (latest? c.world.log = some i))
  | .crash _ => .isTrue trivial
  | .env (.expireLock _) => .isTrue trivial
  | .env (.insertDocument _) => .isFalse id
  | .env (.deleteDocument _) => .isFalse id
  | .env (.insertScore _) => .isFalse id

/-- No thread is started but the first. -/
def Single (c : Conf service) : Label service → Prop
  | .start _ => c.threads.length = 0
  | _ => True

instance (c : Conf service) (l : Label service) : Decidable (Single c l) :=
  match l with
  | .start _ => inferInstanceAs (Decidable (c.threads.length = 0))
  | .run _ => .isTrue trivial
  | .fail _ _ _ => .isTrue trivial
  | .crash _ => .isTrue trivial
  | .env _ => .isTrue trivial

/-- A single attempt in which nothing fails. -/
def Uninterrupted (userId : Int) (c : Conf service) (l : Label service) : Prop :=
  Attempts userId c l ∧ l.Faultless ∧ Single c l

instance (userId : Int) (c : Conf service) (l : Label service) : Decidable (Uninterrupted userId c l) :=
  inferInstanceAs (Decidable (_ ∧ _ ∧ _))

/-- The last attempt has run to completion. -/
def Completed (c : Conf service) : Prop :=
  ∃ i ∈ latest? c.world.log, ∃ t ∈ c.threads[i]?, t.returned?.isSome

instance (c : Conf service) : Decidable (Completed c) :=
  inferInstanceAs (Decidable (∃ i ∈ latest? c.world.log, _))

end

/-! ## The data -/

namespace Recovery

/-- What a generation goes by, but for the lock. -/
structure Data where
  cfg : Hash
  sources : List Int
  tape : Tape
  db : Platform

def data (userId : Int) (s : State) : Data := ⟨s.cfg userId, s.sourceSet userId, s.tape userId, s.db⟩

namespace Data

/-- The documents of the tape, in their order. -/
def docs (d : Data) : List Int := d.tape.members

/-- The stored dirty flag. -/
def flag (d : Data) : Option String := d.cfg.get "dirty"

end Data

variable {userId : Int} {c : Call} {s : State}

theorem exec_data (ht : ¬ c.EditsTape userId) (hc : ¬ c.EditsCfg userId) (hs : ¬ c.EditsSources userId)
    (hdb : ¬ c.EditsScores) : data userId (exec c s).2 = data userId s := by
  simp only [data, exec_tape ht, exec_cfg hc, exec_sourceSet hs, exec_db hdb]

theorem Closes.data {i : Nat} (hc : Closes userId i c) : data userId (exec c s).2 = data userId s := by
  rcases hc with hc | rfl
  · cases c <;> first
      | exact hc.elim
      | exact exec_data id id id id
  · exact exec_data (c := .evalRelease _ _) id id id id

/-- All positions are below `n`. -/
def Below (n : Int) (d : Data) : Prop := ∀ x ∈ d.tape.rows, x.2 < n

/-- The tape is filled up by one document more. -/
theorem docs_zaddNx {d : Data} {m n : Int} (h : Below n d) :
    ({ d with tape := d.tape.zaddNx m n } : Data).docs = insertLast d.docs m :=
  ZSet.members_zaddNx_of_gt h

theorem Below.zaddNx {d : Data} {m n : Int} (h : Below n d) :
    Below (n + 1) { d with tape := d.tape.zaddNx m n } := by
  intro x hx
  rcases ZSet.mem_rows_zaddNx.mp hx with hx | ⟨-, rfl⟩
  · exact lt_trans (h x hx) (by omega)
  · exact Int.lt_succ n

section
variable [DatetimeLib]

/-- The answer of the candidate query to the stored config and sources. -/
def wanted (userId : Int) (d : Data) : List Int :=
  if d.cfg.entries = [] then []
  else
    match decodeConfig userId d.cfg with
    | .error _ => []
    | .ok cfg => d.db.candidates userId (d.sources.insertionSort (· ≤ ·))
        (cfg.dateFrom.map DatetimeLib.timestamptz) (cfg.dateTo.map DatetimeLib.timestamptz) (cfg.ordering = "desc")

/-- The documents and the dirty flag that a generation leaves. -/
def target (userId : Int) (d : Data) : List Int × Option String :=
  if d.flag = some "1" then (fillUp [] (wanted userId d), some "0")
  else (fillUp d.docs (wanted userId d), d.flag)

/-- The data still leads where `d₀` leads. -/
structure Leads (userId : Int) (d₀ d : Data) : Prop where
  wanted : wanted userId d = wanted userId d₀
  target : target userId d = target userId d₀

/-! ## The protocol -/

variable {i : Nat} {dirty : Bool} {d₀ : Data} {w : World service}

def protocol (userId : Int) (d₀ : Data) : Protocol service where
  inv w := Leads userId d₀ (data userId w.state)
  guar w ev s := ∀ j, latest? (ev :: w.log) = some j → ev.thread? ≠ some j →
    latest? w.log = some j ∧ data userId s = data userId w.state ∧
      (w.state.lock userId = none → s.lock userId = none)
  rely _ _ _ _ := True
  may w i _ := latest? w.log = some i
  faults := True

/-- As long as no other attempt has been started, the data satisfies `D`. -/
def Now (userId : Int) (i : Nat) (D : Data → Prop) (w : World service) : Prop :=
  latest? w.log = some i → D (data userId w.state)

/-- The lock is not taken yet. -/
def Free (userId : Int) (i : Nat) (D : Data → Prop) (w : World service) : Prop :=
  latest? w.log = some i → w.state.lock userId = none ∧ D (data userId w.state)

theorem stable_now {D : Data → Prop} : (protocol userId d₀).Stable i (Now userId i D) := by
  intro w ev s _ _ hev hg _ h hlast
  obtain ⟨hlast, hdata, -⟩ := hg i hlast hev
  rw [World.push_state, hdata]
  exact h hlast

theorem stable_free {D : Data → Prop} : (protocol userId d₀).Stable i (Free userId i D) := by
  intro w ev s _ _ hev hg _ h hlast
  obtain ⟨hlast, hdata, hlock⟩ := hg i hlast hev
  rw [World.push_state, hdata]
  exact ⟨hlock (h hlast).1, (h hlast).2⟩

theorem latest?_called {c : Call} {r : Except Exn c.Reply} {log : List (Event service)} :
    latest? (.called i c r :: log) = latest? log :=
  latest?_cons

theorem good_called {r : Except Exn c.Reply} (hm : latest? w.log = some i) (h : Leads userId d₀ (data userId s)) :
    (protocol userId d₀).Good i w (.called i c r) s := by
  refine ⟨h, fun j hj hne => ?_, fun _ _ => trivial⟩
  rw [latest?_called, hm] at hj
  exact absurd hj hne

/-- The rule for a call of the last attempt. -/
theorem call_triple {D : Data → Prop} {Q : c.Reply → Data → Prop}
    (h : ∀ s, Leads userId d₀ (data userId s) → D (data userId s) →
      Leads userId d₀ (data userId (exec c s).2) ∧ ∀ a, (exec c s).1 = .ok a → Q a (data userId (exec c s).2)) :
    (protocol userId d₀).Triple i (Now userId i D) (ask c) (upon (fun a => Now userId i (Q a)) fun _ => True) := by
  refine Triple.perform stable_now fun w hw hA hm r s hr => ?_
  obtain ⟨hleads, hpost⟩ := h w.state hw (hA hm)
  refine ⟨good_called hm ?_, ?_⟩
  · rcases hr.state with rfl | rfl
    · exact hw
    · exact hleads
  · cases r with
    | error e => trivial
    | ok a =>
        obtain ⟨rfl, ha⟩ := hr.of_ok
        exact fun _ => hpost a ha

/-- The rule for a call that leaves the data as it is. -/
theorem read_triple {D : Data → Prop} {Q : c.Reply → Data → Prop}
    (hc : ∀ s, data userId (exec c s).2 = data userId s)
    (hQ : ∀ s a, (exec c s).1 = .ok a → D (data userId s) → Q a (data userId s)) :
    (protocol userId d₀).Triple i (Now userId i D) (ask c) (upon (fun a => Now userId i (Q a)) fun _ => True) := by
  refine call_triple fun s hs h => ?_
  rw [hc]
  exact ⟨hs, fun a ha => hQ s a ha h⟩

/-- The rule for a call before the lock is taken. -/
theorem free_triple {D : Data → Prop} {Q : c.Reply → Data → Prop} (hc : ∀ s, (exec c s).2 = s)
    (hQ : ∀ s a, (exec c s).1 = .ok a → D (data userId s) → Q a (data userId s)) :
    (protocol userId d₀).Triple i (Free userId i D) (ask c)
      (upon (fun a => Free userId i (Q a)) fun _ => True) := by
  refine Triple.perform stable_free fun w hw hA hm r s hr => ?_
  have hs : s = w.state := by
    rcases hr.state with rfl | rfl
    · rfl
    · exact hc _
  subst hs
  refine ⟨good_called hm hw, ?_⟩
  cases r with
  | error e => trivial
  | ok a => exact fun _ => ⟨(hA hm).1, hQ w.state a hr.of_ok.2 (hA hm).2⟩

theorem closes_quiet {D : Data → Prop} (hc : Closes userId i c) :
    (protocol userId d₀).Quiet i (Now userId i D) c := by
  intro w hw h hm r s hr
  have hs : data userId s = data userId w.state := by
    rcases hr.state with rfl | rfl
    · rfl
    · exact Closes.data hc
  refine ⟨good_called hm (hs ▸ hw), fun _ => ?_⟩
  rw [World.push_state, hs]
  exact h hm

theorem reports_triple {D : Data → Prop} (hc : Reports userId c) :
    (protocol userId d₀).Triple i (Now userId i D) (ask c) (upon (fun _ => Now userId i D) fun _ => True) :=
  (Keeps.perform stable_now (closes_quiet (.inl hc))).upon fun _ _ _ => trivial

/-! ## The stages of an attempt -/

/-- The attempt was started with the stored flag. -/
def Flagged (dirty : Bool) (d : Data) : Prop := dirty = true ↔ d.flag = some "1"

/-- The attempt has read the stored config. -/
def Decoded (userId : Int) (cfg : TapeConfig) (d : Data) : Prop :=
  d.cfg.entries ≠ [] ∧ decodeConfig userId d.cfg = .ok cfg

/-- The candidate query of the attempt asks for what is wanted. -/
def Asks (userId : Int) (cfg : TapeConfig) (sources : List Int) (d : Data) : Prop :=
  d.db.candidates userId sources (cfg.dateFrom.map DatetimeLib.timestamptz)
    (cfg.dateTo.map DatetimeLib.timestamptz) (cfg.ordering = "desc") = wanted userId d

/-- What a full generation starts from is empty, and what an incremental one takes to be in the tape is. -/
structure Prepared (dirty : Bool) (base : Base) (d : Data) : Prop where
  below : Below base.start d
  existing : ∀ m ∈ base.existing, m ∈ d.docs
  emptied : dirty = true → d.docs = []

/-- Adding the documents that are left yields the tape that is wanted, and nothing else is missing. -/
structure Filling (userId : Int) (docIds : List Int) (d : Data) : Prop where
  result : fillUp d.docs docIds = (target userId d).1
  missing : (wanted userId d).filter (· ∉ d.docs) = docIds.filter (· ∉ d.docs)

/-- There is nothing left to do. -/
def Done (userId : Int) (d : Data) : Prop := target userId d = (d.docs, d.flag)

/-! ## What the calls make of the data -/

variable {d : Data}

theorem asks_of_decoded {cfg : TapeConfig} {sources : List Int} (h : Decoded userId cfg d)
    (hs : sources = d.sources.insertionSort (· ≤ ·)) : Asks userId cfg sources d := by
  simp [Asks, wanted, h.1, h.2, hs]

theorem wanted_of_no_sources {cfg : TapeConfig} (h : Asks userId cfg [] d) : wanted userId d = [] := by
  rw [← h]
  simp [Platform.candidates, Platform.candidateRows]

theorem target_of_flag (h : d.flag = some "1") : target userId d = (fillUp [] (wanted userId d), some "0") :=
  if_pos h

theorem target_of_not_flag (h : ¬ d.flag = some "1") :
    target userId d = (fillUp d.docs (wanted userId d), d.flag) :=
  if_neg h

theorem done_of_no_config (h : d.cfg.entries = []) : Done userId d := by
  have hflag : d.flag = none := by
    have hempty : d.cfg = ∅ := AList.ext h
    simp [Data.flag, Hash.get, hempty]
  have hwanted : wanted userId d = [] := if_pos h
  rw [Done, target_of_not_flag (by simp [hflag]), hwanted, fillUp_nil]

theorem done_of_nothing_wanted (hflag : ¬ d.flag = some "1") (h : wanted userId d = []) : Done userId d := by
  rw [Done, target_of_not_flag hflag, h, fillUp_nil]

theorem Filling.of_prepared {base : Base} (hflag : Flagged dirty d) (h : Prepared dirty base d) :
    Filling userId ((wanted userId d).filter (· ∉ base.existing)) d := by
  constructor
  · by_cases hd : dirty = true
    · have hnil : base.existing = [] := by
        rw [List.eq_nil_iff_forall_not_mem]
        intro m hm
        simpa [h.emptied hd] using h.existing m hm
      simp [target_of_flag (hflag.mp hd), h.emptied hd, hnil]
    · rw [target_of_not_flag (mt hflag.mpr hd), fillUp_filter h.existing]
  · rw [List.filter_filter]
    refine List.filter_congr fun m _ => ?_
    have := h.existing m
    grind

theorem Filling.zaddNx {m n : Int} {docIds : List Int} (hb : Below n d) (h : Filling userId (m :: docIds) d) :
    target userId { d with tape := d.tape.zaddNx m n } = target userId d ∧
      Filling userId docIds { d with tape := d.tape.zaddNx m n } := by
  have hmissing : (wanted userId d).filter (· ∉ insertLast d.docs m) =
      docIds.filter (· ∉ insertLast d.docs m) := by
    rw [filter_insertLast, h.missing, ← filter_insertLast, List.filter_cons_of_neg (by simp)]
  have hresult : fillUp (insertLast d.docs m) docIds = (target userId d).1 := h.result
  have htarget : target userId { d with tape := d.tape.zaddNx m n } = target userId d := by
    by_cases hflag : d.flag = some "1"
    · rw [target_of_flag hflag]
      exact target_of_flag hflag
    · rw [target_of_not_flag hflag] at hresult ⊢
      refine (target_of_not_flag (d := { d with tape := d.tape.zaddNx m n }) hflag).trans ?_
      rw [docs_zaddNx hb]
      exact Prod.ext ((fillUp_congr hmissing).trans hresult) rfl
  refine ⟨htarget, ?_, ?_⟩
  · rw [docs_zaddNx hb, htarget]
    exact hresult
  · rw [docs_zaddNx hb]
    exact hmissing

theorem target_emptied (h : d.flag = some "1") : target userId { d with tape := .empty } = target userId d := by
  rw [target_of_flag h]
  exact target_of_flag h

/-- The dirty flag is cleared when all that is wanted is there. -/
theorem cleared (hflag : d.flag = some "1") (hresult : d.docs = (target userId d).1)
    (hmissing : ∀ m ∈ wanted userId d, m ∈ d.docs) :
    Leads userId d { d with cfg := d.cfg.hset [("dirty", "0")] } ∧
      Done userId { d with cfg := d.cfg.hset [("dirty", "0")] } := by
  have hget : ∀ field, field ≠ "dirty" → (d.cfg.hset [("dirty", "0")]).get field = d.cfg.get field :=
    fun field hf => by rw [Hash.get_hset_dirty, if_neg hf]
  have hclear : ({ d with cfg := d.cfg.hset [("dirty", "0")] } : Data).flag = some "0" := by
    simp [Data.flag, Hash.get_hset_dirty]
  have hwanted : wanted userId { d with cfg := d.cfg.hset [("dirty", "0")] } = wanted userId d := by
    have hne : d.cfg.entries ≠ [] := by
      intro h
      have hempty : d.cfg = ∅ := AList.ext h
      simp [Data.flag, Hash.get, hempty] at hflag
    have hne' : (d.cfg.hset [("dirty", "0")]).entries ≠ [] := by
      simp [Hash.hset, AList.insert]
    simp only [wanted, if_neg hne, if_neg hne', decodeConfig_congr hget]
    cases decodeConfig userId d.cfg <;> rfl
  have htarget : target userId { d with cfg := d.cfg.hset [("dirty", "0")] } = (d.docs, some "0") := by
    rw [target_of_not_flag (by simp [hclear]), hwanted, hclear]
    exact Prod.ext (fillUp_of_subset hmissing) rfl
  refine ⟨⟨hwanted, ?_⟩, ?_⟩
  · rw [htarget, hresult, target_of_flag hflag]
  · rw [Done, htarget, hclear]
    rfl

/-! ## An attempt -/

theorem getConfig_triple :
    (protocol userId d₀).Triple i (Free userId i (Flagged dirty)) (getConfig userId)
      (upon (fun cfg => cfg.elim (Now userId i (Done userId))
        fun cfg => Free userId i fun d => Flagged dirty d ∧ Decoded userId cfg d) fun _ => True) := by
  refine Triple.seq (Q := fun raw => Free userId i fun d => Flagged dirty d ∧ d.cfg = raw)
    (free_triple (fun _ => rfl) fun s a ha h => ⟨h, Except.ok.inj ha⟩) fun raw => ?_
  split
  · rename_i hnil
    refine Triple.pure fun w _ h hm => done_of_no_config ?_
    rw [(h hm).2.2, hnil]
  · rename_i hne
    cases hdecode : decodeConfig userId raw with
    | error e => exact Triple.raise fun _ _ _ => trivial
    | ok cfg =>
        refine Triple.pure fun w _ h hm => ⟨(h hm).1, (h hm).2.1, ?_⟩
        rw [Decoded, (h hm).2.2]
        exact ⟨hne, hdecode⟩

theorem acquire_triple {D : Data → Prop} {E : World service → Prop} :
    (protocol userId d₀).Triple i (Free userId i D) (acquireLock userId (token i))
      (upon (fun got => if got then Now userId i D else E) fun _ => True) := by
  refine Triple.perform stable_free fun w hw hA hm r s hr => ?_
  have hs : data userId s = data userId w.state := by
    rcases hr.state with rfl | rfl
    · rfl
    · exact exec_data (c := .setNxEx _ _) id id id id
  refine ⟨good_called hm (hs ▸ hw), ?_⟩
  cases r with
  | error e => trivial
  | ok got =>
      have hgot : got = true := by
        have := hr.of_ok.2
        rw [exec_setNxEx_reply, (hA hm).1] at this
        exact (Except.ok.inj this).symm
      subst hgot
      intro _
      rw [World.push_state, hs]
      exact (hA hm).2

theorem delete_triple {A : World service → Prop} {D : Data → Prop} {Q : Nat → Data → Prop}
    (hA : ∀ w, A w → Now userId i D w) (hflag : ∀ d, D d → d.flag = some "1")
    (hQ : ∀ d n, D d → Q n { d with tape := .empty }) :
    (protocol userId d₀).Triple i A (deleteAllEntries userId) (upon (fun n => Now userId i (Q n)) fun _ => True) := by
  refine Triple.conseq (call_triple (D := D) (Q := Q) fun s hs h => ?_) (fun w _ hw => hA w hw) fun _ _ _ h => h
  have hdata : data userId (exec (.multiZcardDel (entriesKey userId)) s).2 =
      { data userId s with tape := .empty } := by
    rw [data, exec_multiZcardDel_tape]
    rfl
  rw [hdata]
  exact ⟨⟨hs.wanted, (target_emptied (hflag _ h)).trans hs.target⟩, fun n _ => hQ _ n h⟩

theorem clear_triple {D : Data → Prop} (hflag : ∀ d, D d → d.flag = some "1")
    (hresult : ∀ d, D d → d.docs = (target userId d).1 ∧ ∀ m ∈ wanted userId d, m ∈ d.docs) :
    (protocol userId d₀).Triple i (Now userId i D) (clearDirty userId)
      (upon (fun _ => Now userId i (Done userId)) fun _ => True) := by
  refine call_triple fun s hs h => ?_
  have hdata : data userId (exec (.hset (cfgKey userId) [("dirty", "0")]) s).2 =
      { data userId s with cfg := (data userId s).cfg.hset [("dirty", "0")] } := by
    simp [data, exec, State.cfg, State.setHash, put_self, State.sourceSet, State.tape]
  obtain ⟨hleads, hdone⟩ := cleared (hflag _ h) (hresult _ h).1 (hresult _ h).2
  rw [hdata]
  exact ⟨⟨hleads.wanted.trans hs.wanted, hleads.target.trans hs.target⟩, fun _ _ => hdone⟩

theorem last_triple {D : Data → Prop} :
    (protocol userId d₀).Triple i (Now userId i D) (maxPosition userId)
      (upon (fun last => Now userId i fun d => D d ∧ Below (last + 1) d) fun _ => True) := by
  refine maxPosition_triple
    (read_triple (c := .zrange (entriesKey userId) (-1) (-1)) (fun _ => rfl) fun s rows ha h => ⟨h, ?_⟩)
  obtain rfl : (s.tape userId).zrange (-1) (-1) = rows := Except.ok.inj ha
  rw [ZSet.zrange_last]
  intro x hx
  cases hlast : (s.tape userId).rows.getLast? with
  | none =>
      have hx : x ∈ (s.tape userId).rows := hx
      rw [List.getLast?_eq_none_iff.mp hlast] at hx
      cases hx
  | some y =>
      have hle := ZSet.le_getLast hlast hx
      simp
      omega

theorem page_triple {D : Data → Prop} {limit : Int} :
    (protocol userId d₀).Triple i (Now userId i D) (listEntriesPage userId none limit)
      (upon (fun page => Now userId i fun d => D d ∧ ∀ m ∈ page.map Prod.snd, m ∈ d.docs) fun _ => True) := by
  refine Triple.seq (read_triple (c := .zrange (entriesKey userId) 0 (limit - 1))
    (Q := fun rows d => D d ∧ ∀ m ∈ rows.map Prod.fst, m ∈ d.docs) (fun _ => rfl) fun s rows ha h => ⟨h, ?_⟩)
    fun rows => Triple.pure fun w _ h => by simpa using h
  obtain rfl : (s.tape userId).zrange 0 (limit - 1) = rows := Except.ok.inj ha
  exact fun m hm => (ZSet.zrange_sublist.map Prod.fst).subset hm

theorem candidates_triple {cfg : TapeConfig} {sources : List Int} (hsources : sources ≠ []) {base : Base} :
    (protocol userId d₀).Triple i
      (Now userId i fun d => Flagged dirty d ∧ Asks userId cfg sources d ∧ Prepared dirty base d)
      (candidatesForUser userId sources cfg.dateFrom cfg.dateTo cfg.ordering base.existing)
      (upon (fun docIds => Now userId i fun d => Flagged dirty d ∧ Below base.start d ∧ Filling userId docIds d)
        fun _ => True) := by
  rw [candidatesForUser, if_neg hsources]
  refine Triple.seq (read_triple (Q := fun (rows : List Int) d => Flagged dirty d ∧ Below base.start d ∧
    Filling userId (rows.filter (· ∉ base.existing)) d) (fun _ => rfl) fun s rows ha h => ?_) fun rows => ?_
  · obtain rfl : _ = rows := Except.ok.inj ha
    obtain ⟨hflag, hasks, hbase⟩ := h
    refine ⟨hflag, hbase.below, ?_⟩
    have hasks : s.db.candidates userId sources _ _ _ = wanted userId (data userId s) := hasks
    rw [hasks]
    exact .of_prepared hflag hbase
  · split
    · rename_i hnil
      refine Triple.pure fun w _ h hm => ?_
      simpa [hnil] using h hm
    · exact Triple.pure fun w _ h => h

theorem zadd_triple {m : Int} {docIds : List Int} {position : Int} :
    (protocol userId d₀).Triple i
      (Now userId i fun d => Flagged dirty d ∧ Below position d ∧ Filling userId (m :: docIds) d)
      (Client.zaddNx (entriesKey userId) m position)
      (upon (fun _ => Now userId i fun d => Flagged dirty d ∧ Below (position + 1) d ∧ Filling userId docIds d)
        fun _ => True) := by
  refine call_triple fun s hs ⟨hflag, hbelow, hfill⟩ => ?_
  have hdata : data userId (exec (.zaddNx (entriesKey userId) m position) s).2 =
      { data userId s with tape := (data userId s).tape.zaddNx m position } := by
    rw [data, exec_zaddNx_tape]
    rfl
  obtain ⟨htarget, hfill'⟩ := Filling.zaddNx hbelow hfill
  rw [hdata]
  exact ⟨⟨hs.wanted, htarget.trans hs.target⟩, fun _ _ => ⟨hflag, hbelow.zaddNx, hfill'⟩⟩

/-- Nothing is left to be added. -/
theorem Filling.docs (h : Filling userId [] d) :
    d.docs = (target userId d).1 ∧ ∀ m ∈ wanted userId d, m ∈ d.docs := by
  refine ⟨h.result, fun m hm => ?_⟩
  simpa using List.filter_eq_nil_iff.mp h.missing m hm

def attempt (userId : Int) (d₀ : Data) (i : Nat) (dirty : Bool) :
    GenerateOutline (protocol userId d₀) i userId dirty where
  begun := Free userId i (Flagged dirty)
  configured cfg := Free userId i fun d => Flagged dirty d ∧ Decoded userId cfg d
  sourced cfg sources := Free userId i fun d => Flagged dirty d ∧ Asks userId cfg sources d
  wiped _ := Now userId i fun d => d.flag = some "1" ∧ d.docs = [] ∧ wanted userId d = []
  held cfg sources := Now userId i fun d => Flagged dirty d ∧ Asks userId cfg sources d
  measured cfg sources last := Now userId i fun d => (Flagged dirty d ∧ Asks userId cfg sources d) ∧ Below (last + 1) d
  ready cfg sources base := Now userId i fun d => Flagged dirty d ∧ Asks userId cfg sources d ∧ Prepared dirty base d
  adding _ docIds position := Now userId i fun d => Flagged dirty d ∧ Below position d ∧ Filling userId docIds d
  announced := Now userId i fun d => Flagged dirty d ∧ Filling userId [] d
  ended := Now userId i (Done userId)
  failed _ := True
  getConfig := getConfig_triple
  getConfigSources cfg := Triple.seq (free_triple (c := .smembers (cfgSourcesKey userId))
    (Q := fun members d => Flagged dirty d ∧ Asks userId cfg (members.insertionSort (· ≤ ·)) d) (fun _ => rfl)
    fun s members ha h => ⟨h.1, asks_of_decoded h.2 (congrArg _ (Except.ok.inj ha).symm)⟩)
    fun members => Triple.pure fun _ _ h => h
  leave hd cfg w _ h hm := done_of_nothing_wanted (fun hf => by simpa [hd] using (h hm).2.1.mpr hf)
    (wanted_of_no_sources (h hm).2.2)
  wipe hd cfg := delete_triple (D := fun d => Flagged dirty d ∧ Asks userId cfg [] d) (fun w h hm => (h hm).2)
    (fun d h => h.1.mp hd) fun d n h => ⟨h.1.mp hd, rfl, wanted_of_no_sources h.2⟩
  wipe_clear _ _ := clear_triple (fun d h => h.1) fun d h => by simp [target_of_flag h.1, h.2.1, h.2.2]
  acquire _ _ _ := acquire_triple
  held_reports _ _ _ hc := reports_triple hc
  delete hd cfg sources := delete_triple (fun w h => h) (fun d h => h.1.mp hd) fun d n h =>
    ⟨h.1, h.2, ⟨fun x hx => (nomatch hx), fun m hm => (nomatch hm), fun _ => rfl⟩⟩
  last _ _ _ := last_triple
  page hd cfg sources last := Triple.conseq page_triple (fun _ _ h => h) fun r w _ h => by
    rcases r with e | page
    · trivial
    · exact fun hm => ⟨(h hm).1.1.1, (h hm).1.1.2, (h hm).1.2, (h hm).2, fun h => by simp [hd] at h⟩
  candidates _ _ _ hsources := candidates_triple hsources
  zadd _ _ _ _ := zadd_triple
  announce added position :=
    Triple.conseq (Triple.forM added fun entry => read_triple (fun _ => rfl) fun _ _ _ h => h)
    (fun w _ h hm => ⟨(h hm).1, (h hm).2.2⟩) fun _ _ _ h => h
  clear hd := clear_triple (fun d h => h.1.mp hd) fun d h => h.2.docs
  keep hd w _ h hm := by
    obtain ⟨hflag, hfill⟩ := h hm
    have hnot : ¬ (data userId w.state).flag = some "1" := fun hf => by simpa [hd] using hflag.mpr hf
    rw [Done, target_of_not_flag hnot, fillUp_of_subset hfill.docs.2]
  ended_failed _ _ _ := trivial
  ended_stable := stable_now
  ended_quiet _ := closes_quiet
  failed_stable := Stable.true i
  failed_quiet c hc w hw _ hm r s hr :=
    ⟨(closes_quiet (D := fun _ => True) hc w hw (fun _ => trivial) hm r s hr).1, trivial⟩

/-! ## The outline -/

/-- An attempt that has returned has left nothing to do. -/
def post (userId : Int) (i : Nat) (_ : Job) (r : Except Exn Out) (w : World service) : Prop :=
  ∀ out, r = .ok out → Now userId i (Done userId) w

theorem good_of_same {ev : Event service} (hw : (protocol userId d₀).inv w)
    (hev : ∀ j, latest? (ev :: w.log) = some j → ev.thread? ≠ some j → latest? w.log = some j)
    (hdata : data userId s = data userId w.state) (hlock : w.state.lock userId = none → s.lock userId = none) :
    (protocol userId d₀).Good i w ev s := by
  refine ⟨?_, fun j hj hne => ⟨hev j hj hne, hdata, hlock⟩, fun _ _ => trivial⟩
  show Leads userId d₀ (data userId s)
  rw [hdata]
  exact hw

def outline (userId : Int) (d₀ : Data) : Outline service (Attempts userId) where
  toProtocol := protocol userId d₀
  post := post userId
  post_stable i job r w ev s hw hw' hev hg h out hr := stable_now w ev s hw hw' hev hg trivial (h out hr)
  may_ok _ _ _ _ hok _ _ := hok
  may_fail _ _ _ _ _ _ hok _ _ := ⟨trivial, hok⟩
  start_ok c job s hok hw _ hs := by
    cases job with
    | generate u dirty =>
        obtain ⟨rfl, hdirty, hlock⟩ := hok
        cases hs
        have hg : (protocol u d₀).Good c.threads.length c.world (.started c.threads.length (.generate u dirty))
            c.world.state := by
          refine good_of_same hw (fun j hj hne => ?_) rfl id
          rw [latest?_cons] at hj
          exact absurd hj hne
        refine ⟨hg, Triple.map (attempt u d₀ c.threads.length dirty).triple (fun r w _ h out hr => ?_) _ hg.inv
          fun _ => ⟨hlock, hdirty⟩⟩
        cases r with
        | error e => cases hr
        | ok x => exact h
    | _ => exact hok.elim
  crash_ok c i _ hw := good_of_same hw (fun j hj _ => hj) rfl id
  env_ok c e s hok hw hs := by
    cases e with
    | expireLock u =>
        cases hs
        have hg : (protocol userId d₀).Good 0 c.world (.env (.expireLock u)) _ :=
          good_of_same (s := c.world.state.setString (lockKey u) none) hw (fun j hj _ => hj) rfl fun h => by
            by_cases hk : lockKey userId = lockKey u
            · rw [State.lock, hk]
              exact put_self _ _ _
            · exact (put_of_ne _ _ hk).trans h
        exact ⟨hg.inv, hg.guar, fun _ _ _ _ => trivial⟩
    | _ => exact hok.elim

/-- Where the last attempt has completed, nothing is left to do, and the data leads where it led before. -/
theorem target_of_completed {s : State} {c : Conf service} (h : Reach (Attempts userId) s c) (hc : Completed c) :
    target userId (data userId s) = ((data userId c.world.state).docs, (data userId c.world.state).flag) := by
  obtain ⟨i, hlast, t, ht, hout⟩ := hc
  obtain ⟨out, hout⟩ := Option.isSome_iff_exists.mp hout
  have hinit : (outline userId (data userId s)).inv ⟨s, []⟩ := ⟨rfl, rfl⟩
  have hholds := Outline.holds_of_reach hinit h
  have hdone : Done userId (data userId c.world.state) :=
    hholds.outcome ht (Thread.outcome_of_returned hout) out rfl hlast
  exact hholds.inv.target.symm.trans hdone

end

end Recovery

section
variable [DatetimeLib]

/-- After any number of attempts that were cut short, one that completes leaves what one uninterrupted
attempt leaves. -/
theorem recovers {userId : Int} {s : State} {c c' : Conf service} (h : Reach (Attempts userId) s c)
    (hc : Completed c) (h' : Reach (Uninterrupted userId) s c') (hc' : Completed c') :
    (c.world.state.tape userId).members = (c'.world.state.tape userId).members ∧
      (c.world.state.cfg userId).get "dirty" = (c'.world.state.cfg userId).get "dirty" := by
  have heq := (Recovery.target_of_completed h hc).symm.trans
    (Recovery.target_of_completed (Steps.mono (fun _ _ hok => hok.1) h') hc')
  exact Prod.mk.inj heq

end

section
open scoped Python.Utc

namespace Sample

/-- Two articles, and a config that has just been saved. -/
def configured : State :=
  ((start [article 7, article 8]).play (.start (.writeConfig 1 (update .asc [1])) :: runs 0 9)).world.state

end Sample

/-- A rebuild dies after the first entry, another one fails after the second, and the third one completes. -/
theorem interrupted_recovers :
    let c : Conf service := (Conf.init Sample.configured).play (.start (.generate 1 true) :: Sample.runs 0 10 ++
      .crash 0 :: .env (.expireLock 1) :: .start (.generate 1 true) :: Sample.runs 1 10 ++
      .fail 1 .callFailed true :: Sample.runs 1 30 ++ .start (.generate 1 true) :: Sample.runs 2 30)
    let c' : Conf service := (Conf.init Sample.configured).play (.start (.generate 1 true) :: Sample.runs 0 30)
    (c.world.state.tape 1).members = (c'.world.state.tape 1).members ∧
      (c.world.state.cfg 1).get "dirty" = (c'.world.state.cfg 1).get "dirty" := by
  intro c c'
  have hobeys : (Conf.init Sample.configured : Conf service).Obeys (Attempts 1)
      (.start (.generate 1 true) :: Sample.runs 0 10 ++
      .crash 0 :: .env (.expireLock 1) :: .start (.generate 1 true) :: Sample.runs 1 10 ++
      .fail 1 .callFailed true :: Sample.runs 1 30 ++ .start (.generate 1 true) :: Sample.runs 2 30) := by
    decide +kernel
  have hobeys' : (Conf.init Sample.configured : Conf service).Obeys (Uninterrupted 1)
      (.start (.generate 1 true) :: Sample.runs 0 30) := by
    decide +kernel
  have hcompleted : Completed c := by decide +kernel
  have hcompleted' : Completed c' := by decide +kernel
  exact recovers (Steps.play hobeys) hcompleted (Steps.play hobeys') hcompleted'

end

end TapeService
