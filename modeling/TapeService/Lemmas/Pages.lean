import TapeService.Lemmas.Outlines
import TapeService.Redis.Keyset

/-!
# What a page is made of

The page that a request returns, as a function of the answers that its own calls got.
-/

namespace TapeService

open Interleaving Interleaving.Program Interleaving.Protocol Python

/-- The first page of a tape holds its first entries. -/
theorem zrange_page {t : Tape} {limit : Int} (hl : 1 ≤ limit) :
    t.zrange 0 (limit - 1) = Keyset.page Prod.snd none limit.toNat t.rows := by
  rw [Redis.ZSet.zrange_zero hl]
  simp [Keyset.page, Keyset.Beyond]

/-- The next page of a tape holds the next entries. -/
theorem zrangebyscore_page {t : Tape} {after limit : Int} (hl : 1 ≤ limit) :
    t.zrangebyscore after limit = Keyset.page Prod.snd (some after) limit.toNat t.rows := by
  rw [Redis.ZSet.zrangebyscore, if_neg (by omega)]
  simp [Keyset.page, Keyset.Beyond]

/-- The document and the position of an item. -/
def TapeItem.entry (item : TapeItem) : Int × Int := (item.document.id, item.position)

/-- The rows that come with a document and have no score. -/
def shownRows (docs : List Document) (alreadyScored : List Int) (rows : List (Int × Int)) : List (Int × Int) :=
  rows.filter fun x => x.1 ∉ alreadyScored ∧ (docs.find? (·.id = x.1)).isSome

section
variable {docs : List Document} {alreadyScored : List Int} {row : Int × Int} {rows : List (Int × Int)}

theorem shownRows_cons_of_scored (h : row.1 ∈ alreadyScored) :
    shownRows docs alreadyScored (row :: rows) = shownRows docs alreadyScored rows :=
  List.filter_cons_of_neg (by simp [h])

theorem shownRows_cons_of_missing (h : docs.find? (·.id = row.1) = none) :
    shownRows docs alreadyScored (row :: rows) = shownRows docs alreadyScored rows :=
  List.filter_cons_of_neg (by simp only [h]; simp)

theorem shownRows_cons {d : Document} (hscored : row.1 ∉ alreadyScored) (h : docs.find? (·.id = row.1) = some d) :
    shownRows docs alreadyScored (row :: rows) = row :: shownRows docs alreadyScored rows :=
  List.filter_cons_of_pos (by simp only [h]; simp [hscored])

end

section
variable [DatetimeLib]

/-- Thread `i` has read the rows, each a member with its score. -/
def RowsRead (userId : Int) (i : Nat) (after : Option Nat) (limit : Int) (rows : List (Int × Int))
    (w : World service) : Prop :=
  match after with
  | none => .called i (.zrange (entriesKey userId) 0 (limit - 1)) (.ok rows) ∈ w.log
  | some a => .called i (.zrangebyscore (entriesKey userId) a limit) (.ok rows) ∈ w.log

/-- What the items are made of. -/
inductive Composed (userId : Int) (i : Nat) (rows : List (Int × Int)) (items : List TapeItem) (w : World service) : Prop
  | nothing (hrows : rows = []) (hitems : items = [])
  | filtered (docs : List Document) (alreadyScored : List Int)
      (hdocs : .called i (.fetchByIds (rows.map Prod.fst)) (.ok docs) ∈ w.log)
      (hscored : .called i (.scoredAmong userId (rows.map Prod.fst)) (.ok alreadyScored) ∈ w.log)
      (hitems : items.map TapeItem.entry = shownRows docs alreadyScored rows)

/-- What the page is made of: without a config it is empty. -/
inductive PageMade (userId : Int) (i : Nat) (after : Option Nat) (page : TapePage) (w : World service) : Prop
  | unconfigured (raw : Hash) (hraw : .called i (.hgetall (cfgKey userId)) (.ok raw) ∈ w.log) (h : raw.entries = [])
      (hitems : page.items = []) (hnext : page.nextPosition = none)
  | configured (raw : Hash) (cfg : TapeConfig) (rows : List (Int × Int))
      (hraw : .called i (.hgetall (cfgKey userId)) (.ok raw) ∈ w.log) (hcfg : decodeConfig userId raw = .ok cfg)
      (hrows : RowsRead userId i after cfg.pageSize rows w) (hitems : Composed userId i rows page.items w)
      (hnext : page.nextPosition =
        if (rows.length : Int) = cfg.pageSize then rows.getLast?.map Prod.snd else none)

variable {userId : Int} {i : Nat} {after : Option Nat}

theorem lasting_mem (ev : Event service) : Lasting (S := service) fun w => ev ∈ w.log :=
  fun _ _ _ h => List.mem_cons_of_mem _ h

theorem RowsRead.lasting {limit : Int} {rows : List (Int × Int)} :
    Lasting (RowsRead userId i after limit rows) := by
  cases after <;> exact lasting_mem _

theorem lasting_and {A B : World service → Prop} (hA : Lasting A) (hB : Lasting B) : Lasting fun w => A w ∧ B w :=
  fun w ev s h => ⟨hA w ev s h.1, hB w ev s h.2⟩

theorem PageMade.lasting {page : TapePage} : Lasting (PageMade userId i after page) := by
  intro w ev s h
  cases h with
  | unconfigured raw hraw h hitems hnext => exact .unconfigured raw (lasting_mem _ _ _ _ hraw) h hitems hnext
  | configured raw cfg rows hraw hcfg hrows hitems hnext =>
      refine .configured raw cfg rows (lasting_mem _ _ _ _ hraw) hcfg (RowsRead.lasting _ _ _ hrows) ?_ hnext
      cases hitems with
      | nothing hrows hitems => exact .nothing hrows hitems
      | filtered docs alreadyScored hdocs hscored hitems =>
          exact .filtered docs alreadyScored (lasting_mem _ _ _ _ hdocs) (lasting_mem _ _ _ _ hscored) hitems

/-! ## The handler -/

theorem pageItems_triple {A : World service → Prop} (hA : Lasting A) {displayMode : String} {docs : List Document}
    {alreadyScored : List Int} {rolesBySrc : List (Int × List RoleRef)} (rows : List (Int × Int)) :
    free.Triple i A (pageItems userId displayMode docs alreadyScored rolesBySrc rows)
      (upon (fun items w => A w ∧ items.map TapeItem.entry = shownRows docs alreadyScored (rows.map Prod.swap))
        fun _ => True) := by
  induction rows with
  | nil => exact Triple.pure fun _ _ h => ⟨h, rfl⟩
  | cons row rows ih =>
      obtain ⟨position, docId⟩ := row
      unfold pageItems
      split
      · rename_i hscored
        have hrest : free.Triple i A (pageItems userId displayMode docs alreadyScored rolesBySrc rows)
            (upon (fun items w => A w ∧ items.map TapeItem.entry =
              shownRows docs alreadyScored (((position, docId) :: rows).map Prod.swap)) fun _ => True) := by
          rw [List.map_cons, shownRows_cons_of_scored hscored]
          exact ih
        refine Triple.seq (hA.keeps _) fun removed => ?_
        split
        · exact Triple.seq (hA.keeps _) fun _ => hrest
        · exact hrest
      · rename_i hscored
        cases hd : docs.find? (·.id = docId) with
        | none =>
            rw [List.map_cons, shownRows_cons_of_missing hd]
            exact ih
        | some d =>
            have hid : d.id = docId := by simpa using List.find?_some hd
            refine Triple.seq ih fun items => Triple.pure fun w _ h => ⟨h.1, ?_⟩
            have hentry : (tapeItem displayMode rolesBySrc position d).entry = (docId, position) := by
              simp [TapeItem.entry, tapeItem, hid]
            rw [List.map_cons, List.map_cons, hentry, h.2]
            exact (shownRows_cons hscored hd).symm

/-- Thread `i` has read the config: the hash that it got decodes to it. -/
def ConfigRead (userId : Int) (i : Nat) (cfg : Option TapeConfig) (w : World service) : Prop :=
  ∃ raw, .called i (.hgetall (cfgKey userId)) (.ok raw) ∈ w.log ∧
    match cfg with
    | none => raw.entries = []
    | some cfg => decodeConfig userId raw = .ok cfg

theorem ConfigRead.lasting {cfg : Option TapeConfig} : Lasting (ConfigRead userId i cfg) :=
  fun _ _ _ ⟨raw, hraw, h⟩ => ⟨raw, lasting_mem _ _ _ _ hraw, h⟩

theorem getConfig_triple :
    free.Triple i (fun _ => True) (getConfig userId) (upon (ConfigRead userId i) fun _ => True) := by
  have htrue : Lasting (S := service) fun _ => True := fun _ _ _ h => h
  refine Triple.seq htrue.triple fun raw => ?_
  split
  · rename_i hnil
    exact Triple.pure fun w _ h => ⟨raw, h.2, hnil⟩
  · cases hcfg : decodeConfig userId raw with
    | error e => exact Triple.raise fun _ _ _ => trivial
    | ok cfg => exact Triple.pure fun w _ h => ⟨raw, h.2, hcfg⟩

theorem listEntriesPage_triple {A : World service → Prop} (hA : Lasting A) {limit : Int} :
    free.Triple i A (listEntriesPage userId (after.map Int.ofNat) limit)
      (upon (fun rows w => A w ∧ RowsRead userId i after limit (rows.map Prod.swap) w) fun _ => True) := by
  cases after with
  | none =>
      exact Triple.seq hA.triple fun rows => Triple.pure fun w _ h =>
        ⟨h.1, by simpa [RowsRead, Function.comp_def] using h.2⟩
  | some a =>
      exact Triple.seq hA.triple fun rows => Triple.pure fun w _ h =>
        ⟨h.1, by simpa [RowsRead, Function.comp_def] using h.2⟩

theorem readRows_triple {cfg : TapeConfig} {rows : List (Int × Int)} (hne : rows ≠ []) :
    free.Triple i (fun w => ConfigRead userId i (some cfg) w ∧
        RowsRead userId i after cfg.pageSize (rows.map Prod.swap) w) (readRows userId cfg rows)
      (upon (PageMade userId i after) fun _ => True) := by
  have hids : rows.map Prod.snd = (rows.map Prod.swap).map Prod.fst := by simp [Function.comp_def]
  have hne' : rows.map Prod.snd ≠ [] := by simpa using hne
  have hread : Lasting fun w => ConfigRead userId i (some cfg) w ∧
      RowsRead userId i after cfg.pageSize (rows.map Prod.swap) w := lasting_and ConfigRead.lasting RowsRead.lasting
  unfold readRows fetchByIds filterAlreadyScored
  simp only [if_neg hne']
  refine Triple.seq hread.triple fun docs => ?_
  have hdocs := lasting_and hread (lasting_mem (.called i (.fetchByIds (rows.map Prod.snd)) (.ok docs)))
  refine Triple.seq hdocs.triple fun alreadyScored => ?_
  have hscored := lasting_and hdocs
    (lasting_mem (.called i (.scoredAmong userId (rows.map Prod.snd)) (.ok alreadyScored)))
  refine Triple.seq (hscored.keeps _) fun rolesBySrc => ?_
  refine Triple.seq (pageItems_triple hscored rows) fun items => Triple.pure fun w _ h => ?_
  obtain ⟨⟨⟨⟨⟨raw, hraw, hcfg⟩, hrows⟩, hdocs⟩, hscored⟩, hitems⟩ := h
  refine .configured raw cfg (rows.map Prod.swap) hraw hcfg hrows ?_ (by simp [Function.comp_def])
  exact .filtered docs alreadyScored (hids ▸ hdocs) (hids ▸ hscored) hitems

theorem readTape_triple :
    free.Triple i (fun _ => True) (readTape userId after) (upon (PageMade userId i after) fun _ => True) := by
  have htrue : Lasting (S := service) fun _ => True := fun _ _ _ h => h
  refine Triple.seq (htrue.keeps _) fun locked => ?_
  cases locked with
  | true => exact Triple.raise fun _ _ _ => trivial
  | false =>
      refine Triple.seq getConfig_triple fun cfg => ?_
      cases cfg with
      | none => exact Triple.pure fun w _ ⟨raw, hraw, h⟩ => .unconfigured raw hraw h rfl rfl
      | some cfg =>
          refine Triple.seq (listEntriesPage_triple ConfigRead.lasting) fun rows => ?_
          by_cases hnil : rows = []
          · subst hnil
            refine Triple.seq (lasting_and ConfigRead.lasting RowsRead.lasting |>.keeps _) fun total =>
              Triple.pure fun w _ h => ?_
            obtain ⟨⟨raw, hraw, hcfg⟩, hrows⟩ := h
            exact .configured raw cfg [] hraw hcfg hrows (.nothing rfl rfl) (by simp)
          · simp only [if_neg hnil]
            exact readRows_triple hnil

/-! ## The outline -/

/-- Nothing is asked of the steps; a page that has been returned is made of what its request read. -/
def Pages.outline (ok : Conf service → Label service → Prop) : Outline service ok where
  toProtocol := free
  post i job r w := ∀ userId after page, job = .readTape userId after → r = .ok (.page page) →
    PageMade userId i after page w
  post_stable _ _ _ _ _ _ _ _ _ _ h userId after page hjob hr := PageMade.lasting _ _ _ (h userId after page hjob hr)
  may_ok _ _ _ _ _ _ _ := trivial
  may_fail _ _ _ _ _ _ _ _ _ := ⟨trivial, trivial⟩
  start_ok c job s _ _ _ _ := by
    refine ⟨⟨trivial, trivial, fun _ _ => trivial⟩, ?_⟩
    by_cases hjob : ∃ userId after, job = .readTape userId after
    · obtain ⟨userId, after, rfl⟩ := hjob
      refine Triple.map readTape_triple (fun r w _ h => ?_) _ trivial trivial
      rintro _ _ page ⟨rfl, rfl⟩ hr
      cases r with
      | error e => cases hr
      | ok page' => cases hr; exact h
    · refine Triple.conseq (Lasting.keeps (A := fun _ => True) (fun _ _ _ h => h) _) (fun _ _ h => h)
        (fun r w _ _ => ?_) _ trivial trivial
      exact fun userId after page h => absurd ⟨userId, after, h⟩ hjob
  crash_ok _ _ _ _ := ⟨trivial, trivial, fun _ _ => trivial⟩
  env_ok _ _ _ _ _ _ := ⟨trivial, trivial, fun _ _ _ _ => trivial⟩

/-- The page that the thread has returned, with the user and the cursor that it was asked with. -/
def page? (t : Thread service) : Option (Int × Option Nat × TapePage) :=
  match t.job, t.outcome? with
  | .readTape userId after, some (.ok (.page page)) => some (userId, after, page)
  | _, _ => none

theorem page?_eq_some {t : Thread service} {page : TapePage} (h : page? t = some (userId, after, page)) :
    t.job = .readTape userId after ∧ t.outcome? = some (.ok (.page page)) := by
  unfold page? at h
  split at h
  · rename_i hjob hr
    cases h
    exact ⟨hjob, hr⟩
  · cases h

/-- A page that a request has returned is made of what the request read. -/
theorem pageMade_of_returned {ok : Conf service → Label service → Prop} {s : State} {c : Conf service}
    (h : Reach ok s c) {page : TapePage} (hpage : c.threads[i]?.bind page? = some (userId, after, page)) :
    PageMade userId i after page c.world := by
  obtain ⟨t, ht, hpage⟩ := Option.bind_eq_some_iff.mp hpage
  obtain ⟨hjob, hr⟩ := page?_eq_some hpage
  exact (Outline.holds_of_reach (O := Pages.outline ok) trivial h).outcome ht hr userId after page hjob rfl

end

end TapeService
