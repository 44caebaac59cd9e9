import TapeService.Lemmas.Pages
import TapeService.Lemmas.Positions

/-!
# Paging

A client that follows the cursors gets every entry that stays in the tape exactly once, whatever is
removed or topped up meanwhile, as long as the top-ups do not overlap each other.
-/

namespace TapeService

open Interleaving Interleaving.Protocol Python

/-! ## Generations that do not overlap -/

/-- The call is a `SET NX` of the lock of the user. -/
def Call.asksForLock (userId : Int) : Call → Bool
  | .setNxEx key _ => key = lockKey userId
  | _ => false

section
variable [DatetimeLib]

/-- The thread that is between obtaining the lock of the user and giving it back. -/
def generating? (userId : Int) : List (Event service) → Option Nat
  | [] => none
  | .called i (.setNxEx key _) (.ok true) :: log => if key = lockKey userId then some i else generating? userId log
  | .called i (.evalRelease key _) _ :: log =>
      if key = lockKey userId ∧ generating? userId log = some i then none else generating? userId log
  | .crashed i :: log => if generating? userId log = some i then none else generating? userId log
  | _ :: log => generating? userId log

/-- The lock is obtained only while no other generation of the user is going on. -/
def MayObtain (userId : Int) (w : World service) (q : Call) : Prop :=
  q.asksForLock userId → w.state.lock userId = none → generating? userId w.log = none

def OneAtATime (userId : Int) (c : Conf service) (l : Label service) : Prop :=
  ∀ x ∈ c.call? l, MayObtain userId c.world x.2

instance (userId : Int) (w : World service) (q : Call) : Decidable (MayObtain userId w q) :=
  inferInstanceAs (Decidable (_ → _ → _))

instance (userId : Int) (c : Conf service) (l : Label service) : Decidable (OneAtATime userId c l) :=
  inferInstanceAs (Decidable (∀ x ∈ c.call? l, _))

variable {userId : Int}

theorem generating_called_of_not_edits {i : Nat} {q : Call} {r : Except Exn q.Reply} {log : List (Event service)}
    (h : ¬ q.EditsLock userId) : generating? userId (.called i q r :: log) = generating? userId log := by
  cases q with
  | setNxEx key t =>
      have hkey : key ≠ lockKey userId := h
      rcases r with e | _ | _
      · rfl
      · rfl
      · exact if_neg hkey
  | evalRelease key t =>
      have hkey : key ≠ lockKey userId := h
      exact if_neg fun hk => hkey hk.1
  | _ => rfl

/-- The one that is going on may add. -/
def Tenure.byTurns (userId : Int) : Tenure userId (OneAtATime userId) where
  holds i w := generating? userId w.log = some i
  may w _ q := MayObtain userId w q
  may_call c l i q hok hq := hok (i, q) hq
  unique i j w hi hj := Option.some.inj (hi.symm.trans hj)
  taken i w _ _ := if_pos rfl
  called i j w q r s hmay hown _ hr hij h := by
    by_cases hq : q.EditsLock userId
    · have hne : i ≠ j := hij.resolve_right fun hn => hn hq
      cases q with
      | setNxEx key t =>
          obtain rfl : key = lockKey userId := hq
          rcases r with e | _ | _
          · exact h
          · exact h
          · have hgot := hr true rfl
            rw [exec_setNxEx_reply] at hgot
            have hfree : w.state.lock userId = none := by simpa using Except.ok.inj hgot
            rw [hmay (decide_eq_true rfl) hfree] at h
            cases h
      | evalRelease key t =>
          refine (if_neg fun hk => hne ?_).trans h
          exact Option.some.inj (h.symm.trans hk.2)
      | _ => exact hq.elim
    · exact (generating_called_of_not_edits hq).trans h
  started _ _ _ _ _ _ _ h := h
  crashed i j w hij h := (if_neg fun hj => hij (Option.some.inj (h.symm.trans hj))).trans h
  env _ _ _ _ _ _ _ _ _ h := h

/-! ## The client -/

/-- A config of the user is stored, with a page size of at least 1. -/
def Paged (userId : Int) (c : Conf service) : Prop :=
  (c.world.state.cfg userId).entries ≠ [] ∧
    ∃ cfg ∈ (decodeConfig userId (c.world.state.cfg userId)).toOption, 1 ≤ cfg.pageSize

instance (userId : Int) (c : Conf service) : Decidable (Paged userId c) :=
  inferInstanceAs (Decidable (_ ∧ _))

def Paging (userId : Int) (c : Conf service) (l : Label service) : Prop :=
  Paged userId c ∧ OneAtATime userId c l

instance (userId : Int) (c : Conf service) (l : Label service) : Decidable (Paging userId c l) :=
  inferInstanceAs (Decidable (_ ∧ _))

/-- The document is in the tape at position `p`, exists and has no score. -/
def Kept (userId d p : Int) (c : Conf service) : Prop :=
  (d, p) ∈ (c.world.state.tape userId).rows ∧ d ∈ c.world.state.db.documents.map (·.id) ∧
    ¬ c.world.state.db.Scored userId d

instance (userId d p : Int) (c : Conf service) : Decidable (Kept userId d p c) :=
  inferInstanceAs (Decidable (_ ∧ _))

/-- Thread `i`, started after `c`, has answered the request with the page by `c'`. -/
structure Request (ok : Conf service → Label service → Prop) (userId : Int) (after : Option Nat) (page : TapePage)
    (i : Nat) (c c' : Conf service) : Prop where
  steps : Steps ok c c'
  later : c.threads.length ≤ i
  answered : c'.threads[i]?.bind page? = some (userId, after, page)

/-- The client follows the cursors to the end: the pages, each with the cursor that it was asked with. -/
inductive Traversal (ok : Conf service → Label service → Prop) (userId : Int) :
    Option Nat → List (Option Nat × TapePage) → Conf service → Conf service → Prop
  | last {after page i c c'} (h : Request ok userId after page i c c') (hnext : page.nextPosition = none) :
      Traversal ok userId after [(after, page)] c c'
  | next {after page i n pages c c₁ c'} (h : Request ok userId after page i c c₁)
      (hnext : page.nextPosition = some (Int.ofNat n)) (hrest : Traversal ok userId (some n) pages c₁ c') :
      Traversal ok userId after ((after, page) :: pages) c c'

/-- When the score query of thread `i` ran, no document of the page had a score. -/
def UnscoredAtQuery (ok : Conf service → Label service → Prop) (userId : Int) (page : TapePage) (i : Nat)
    (c c' : Conf service) : Prop :=
  ∃ c₁ l c₂ ids, Steps ok c c₁ ∧ ok c₁ l ∧ c₁.step l = some c₂ ∧ Steps ok c₂ c' ∧
    c₁.call? l = some (i, .scoredAmong userId ids) ∧
    ∀ item ∈ page.items, ¬ c₁.world.state.db.Scored userId item.document.id

variable {ok : Conf service → Label service → Prop} {after : Option Nat} {page : TapePage} {i : Nat}
  {c c' : Conf service} {s : State}

/-- What the request got from a call is what the call answers at some moment of the request. -/
theorem Request.exists_moment (hreach : Reach (OneAtATime userId) s c)
    (h : Request ok userId after page i c c') {q : Call}
    {a : q.Reply} (hmem : .called i q (.ok a) ∈ c'.world.log) :
    ∃ c₁ l c₂, Steps ok c c₁ ∧ ok c₁ l ∧ c₁.step l = some c₂ ∧ Steps ok c₂ c' ∧ c₁.call? l = some (i, q) ∧
      (exec q c₁.world.state).1 = .ok a := by
  have hnew : .called i q (.ok a) ∉ c.world.log := by
    intro hold
    have := (Outline.holds_of_reach (O := Pages.outline (OneAtATime userId)) trivial hreach).log_lt _ hold i rfl
    have := h.later
    omega
  obtain ⟨c₁, l, c₂, h₁, hok, hstep, h₂, hlog⟩ := h.steps.exists_step hmem hnew
  obtain ⟨hq, ha⟩ := Conf.exec_of_called hstep hlog
  exact ⟨c₁, l, c₂, h₁, hok, hstep, h₂, hq, ha⟩

/-! ## The rows behind a page -/

/-- The page shows rows, and among them those that are kept. -/
structure Shows (ok : Conf service → Label service → Prop) (userId : Int) (page : TapePage)
    (rows : List (Int × Int)) : Prop where
  sublist : (page.items.map TapeItem.entry).Sublist rows
  kept : ∀ d p, (∀ c l, ok c l → Kept userId d p c) →
    (d ∈ page.items.map (·.document.id) ↔ (d, p) ∈ rows)

/-- The tape may be like this when a page is read. -/
def Readable (ok : Conf service → Label service → Prop) (userId : Int) (rows : List (Int × Int)) : Prop :=
  Keyset.Increasing Prod.snd rows ∧ (∀ x ∈ rows, 0 ≤ x.2) ∧
    ∀ d p, (∀ c l, ok c l → Kept userId d p c) → (d, p) ∈ rows

/-- The rows that are read are the next ones beyond the cursor. -/
theorem RowsRead.eq_page (hreach : Reach (OneAtATime userId) s c) (h : Request ok userId after page i c c')
    {n : Int} (hn : 1 ≤ n) {rows : List (Int × Int)} (hrows : RowsRead userId i after n rows c'.world) :
    ∃ c₁ l, Steps ok c c₁ ∧ ok c₁ l ∧
      rows = Keyset.page Prod.snd (after.map Int.ofNat) n.toNat (c₁.world.state.tape userId).rows := by
  cases after with
  | none =>
      obtain ⟨c₁, l, -, h₁, hok, -, -, -, ha⟩ := h.exists_moment hreach hrows
      refine ⟨c₁, l, h₁, hok, ?_⟩
      have ha : (c₁.world.state.tape userId).zrange 0 (n - 1) = rows := Except.ok.inj ha
      rw [← ha, zrange_page hn]
      rfl
  | some a =>
      obtain ⟨c₁, l, -, h₁, hok, -, -, -, ha⟩ := h.exists_moment hreach hrows
      refine ⟨c₁, l, h₁, hok, ?_⟩
      have ha : (c₁.world.state.tape userId).zrangebyscore a n = rows := Except.ok.inj ha
      rw [← ha, zrangebyscore_page hn]
      rfl

/-- What is made of the rows of a tape shows them. -/
theorem Composed.shows (hreach : Reach (OneAtATime userId) s c) (h : Request ok userId after page i c c')
    {rows trows : List (Int × Int)}
    (hsub : rows.Sublist trows) (huniq : ∀ d p q, (d, p) ∈ trows → (d, q) ∈ trows → p = q)
    (hkept : ∀ d p, (∀ c l, ok c l → Kept userId d p c) → (d, p) ∈ trows)
    (hitems : Composed userId i rows page.items c'.world) :
    Shows ok userId page rows ∧ (page.items = [] ∨ UnscoredAtQuery ok userId page i c c') := by
  cases hitems with
  | nothing hrows hitems =>
      subst hrows
      refine ⟨⟨by simp [hitems], fun d p _ => by simp [hitems]⟩, .inl hitems⟩
  | filtered docs alreadyScored hdocs hscored hitems =>
      obtain ⟨c₁, l₁, -, -, hok₁, -, -, -, hdocs⟩ := h.exists_moment hreach hdocs
      obtain ⟨c₂, l₂, c₃, h₁, hok₂, hstep, h₂, hcall, hscored⟩ := h.exists_moment hreach hscored
      have hdocs : c₁.world.state.db.documentsById (rows.map Prod.fst) = docs := Except.ok.inj hdocs
      have hscored : c₂.world.state.db.scoredAmong userId (rows.map Prod.fst) = alreadyScored := Except.ok.inj hscored
      have hsubl : (page.items.map TapeItem.entry).Sublist rows := hitems ▸ List.filter_sublist
      refine ⟨⟨hsubl, fun d p hk => ⟨fun hd => ?_, fun hrow => ?_⟩⟩,
        .inr ⟨c₂, l₂, c₃, _, h₁, hok₂, hstep, h₂, hcall, fun item hitem hs => ?_⟩⟩
      · obtain ⟨item, hitem, rfl⟩ := List.mem_map.mp hd
        have hrow : (item.document.id, item.position) ∈ rows := hsubl.subset (List.mem_map_of_mem hitem)
        exact huniq _ _ _ (hkept _ p hk) (hsub.subset hrow) ▸ hrow
      · have hd : d ∈ rows.map Prod.fst := List.mem_map_of_mem hrow
        obtain ⟨-, hex, -⟩ := hk c₁ l₁ hok₁
        obtain ⟨-, -, hns⟩ := hk c₂ l₂ hok₂
        have hshown : (d, p) ∈ page.items.map TapeItem.entry := by
          refine hitems ▸ List.mem_filter.mpr ⟨hrow, ?_⟩
          have hfind : (docs.find? (·.id = d)).isSome := by
            obtain ⟨x, hx, rfl⟩ := List.mem_map.mp hex
            refine List.find?_isSome.mpr ⟨x, ?_, by simp⟩
            exact hdocs ▸ List.mem_filter.mpr ⟨hx, by simpa using hd⟩
          have hnot : d ∉ alreadyScored := fun hin => hns (Platform.scored_of_mem_scoredAmong (hscored ▸ hin))
          simp only [hnot, hfind, not_false_eq_true, and_self, decide_true]
        obtain ⟨item, hitem, he⟩ := List.mem_map.mp hshown
        exact List.mem_map.mpr ⟨item, hitem, congrArg Prod.fst he⟩
      · have hmem : item.entry ∈ shownRows docs alreadyScored rows := hitems ▸ List.mem_map_of_mem hitem
        obtain ⟨hrow, hnot⟩ := List.mem_filter.mp hmem
        have hnot : item.document.id ∉ alreadyScored := (of_decide_eq_true hnot).1
        exact hnot (hscored ▸ Platform.mem_scoredAmong.mpr ⟨hs, List.mem_map_of_mem hrow⟩)

/-- The page that a request returns shows the next rows beyond its cursor. -/
theorem Request.shows (hok : ∀ c l, ok c l → Paging userId c l) (hs : (s.tape userId).Valid)
    (hreach : Reach (OneAtATime userId) s c) (h : Request ok userId after page i c c') :
    ∃ n rows, 1 ≤ n ∧ Readable ok userId rows ∧
      page.nextPosition = Keyset.next Prod.snd n (Keyset.page Prod.snd (after.map Int.ofNat) n rows) ∧
      Shows ok userId page (Keyset.page Prod.snd (after.map Int.ofNat) n rows) ∧
      (page.items = [] ∨ UnscoredAtQuery ok userId page i c c') := by
  have hmono : ∀ {c₁ c₂}, Steps ok c₁ c₂ → Steps (OneAtATime userId) c₁ c₂ := Steps.mono fun c l hl => (hok c l hl).2
  have hmade : PageMade userId i after page c'.world :=
    pageMade_of_returned (hreach.trans (hmono h.steps)) h.answered
  -- The config that the request has read.
  have hpaged : ∀ raw, .called i (.hgetall (cfgKey userId)) (.ok raw) ∈ c'.world.log →
      raw.entries ≠ [] ∧ ∃ cfg ∈ (decodeConfig userId raw).toOption, 1 ≤ cfg.pageSize := by
    intro raw hraw
    obtain ⟨c₁, l, -, -, hl, -, -, -, ha⟩ := h.exists_moment hreach hraw
    have ha : c₁.world.state.cfg userId = raw := Except.ok.inj ha
    exact ha ▸ (hok c₁ l hl).1
  cases hmade with
  | unconfigured raw hraw hnil => exact absurd hnil (hpaged raw hraw).1
  | configured raw cfg rows hraw hcfg hrows hitems hnext =>
      have hsize : 1 ≤ cfg.pageSize := by
        obtain ⟨-, cfg', hcfg', hn⟩ := hpaged raw hraw
        rw [hcfg] at hcfg'
        exact Option.some.inj hcfg' ▸ hn
      obtain ⟨c₁, l₁, h₁, hok₁, heq⟩ := hrows.eq_page hreach h hsize
      have hvalid : (c₁.world.state.tape userId).Valid :=
        (Positions.holds_of_reach (.byTurns userId) hs (hreach.trans (hmono h₁))).inv
      have hkept : ∀ d p, (∀ c l, ok c l → Kept userId d p c) → (d, p) ∈ (c₁.world.state.tape userId).rows :=
        fun d p hk => (hk c₁ l₁ hok₁).1
      refine ⟨cfg.pageSize.toNat, (c₁.world.state.tape userId).rows, by omega,
        ⟨hvalid.increasing, fun x hx => hvalid.nonneg x.1 x.2 hx, hkept⟩, ?_, heq ▸ ?_⟩
      · rw [← heq, hnext, Keyset.next]
        have : (rows.length : Int) = cfg.pageSize ↔ rows.length = cfg.pageSize.toNat := by omega
        simp only [this]
      · exact hitems.shows hreach h (heq ▸ Keyset.page_sublist)
          (fun _ _ _ hp hq => Redis.ZSet.score_unique hp hq) hkept

/-- The rows behind the pages of a traversal are a walk over the tape. -/
theorem Traversal.walk (hok : ∀ c l, ok c l → Paging userId c l) (hs : (s.tape userId).Valid)
    {pages : List (Option Nat × TapePage)} (hreach : Reach (OneAtATime userId) s c)
    (h : Traversal ok userId after pages c c') :
    ∃ rows, Keyset.Walk Prod.snd (Readable ok userId) (after.map Int.ofNat) rows ∧
      List.Forall₂ (fun x rows => Shows ok userId x.2 rows) pages rows := by
  induction h with
  | last h hnext =>
      obtain ⟨n, rows, hn, hrows, heq, hshows, -⟩ := h.shows hok hs hreach
      exact ⟨_, .last hn hrows (heq ▸ hnext), .cons hshows .nil⟩
  | next h hnext _ ih =>
      obtain ⟨n, rows, hn, hrows, heq, hshows, -⟩ := h.shows hok hs hreach
      obtain ⟨rest, hwalk, hall⟩ := ih (hreach.trans (h.steps.mono fun c l hl => (hok c l hl).2))
      exact ⟨_, .step hn hrows (heq ▸ hnext) hwalk, .cons hshows hall⟩

theorem Traversal.cursors (hok : ∀ c l, ok c l → Paging userId c l) (hs : (s.tape userId).Valid)
    {pages : List (Option Nat × TapePage)} (hreach : Reach (OneAtATime userId) s c)
    (h : Traversal ok userId after pages c c') :
    ∀ x ∈ pages, ∀ n ∈ x.2.nextPosition, 0 ≤ n ∧ ∀ a ∈ x.1, (a : Int) < n := by
  have key : ∀ {after page i c c'}, Reach (OneAtATime userId) s c → Request ok userId after page i c c' →
      ∀ n ∈ page.nextPosition, 0 ≤ n ∧ ∀ a ∈ after, (a : Int) < n := by
    intro after page i c c' hreach h n hn
    obtain ⟨k, rows, -, hrows, heq, -, -⟩ := h.shows hok hs hreach
    have hnext := heq.symm.trans hn
    refine ⟨?_, fun a ha => Keyset.lt_next hnext _ (Option.mem_map_of_mem _ ha)⟩
    obtain ⟨-, y, hy, rfl⟩ := Keyset.exists_of_next hnext
    exact hrows.2.1 y (Keyset.page_sublist.subset (List.mem_of_getLast? hy))
  induction h with
  | last h hnext => simpa using key hreach h
  | next h hnext _ ih =>
      intro x hx
      rcases List.mem_cons.mp hx with rfl | hx
      · exact key hreach h
      · exact ih (hreach.trans (h.steps.mono fun c l hl => (hok c l hl).2)) x hx

theorem sublist_of_shows {pages : List (Option Nat × TapePage)} {rows : List (List (Int × Int))}
    (h : List.Forall₂ (fun x rows => Shows ok userId x.2 rows) pages rows) :
    ((pages.flatMap fun x => x.2.items).map TapeItem.entry).Sublist rows.flatten := by
  induction h with
  | nil => exact .slnil
  | cons h _ ih => simpa using h.sublist.append ih

theorem countP_eq_of_shows {d p : Int} (hk : ∀ c l, ok c l → Kept userId d p c)
    {pages : List (Option Nat × TapePage)} {rows : List (List (Int × Int))}
    (h : List.Forall₂ (fun x rows => Shows ok userId x.2 rows) pages rows) :
    pages.countP (fun x => d ∈ x.2.items.map (·.document.id)) = rows.countP ((d, p) ∈ ·) := by
  induction h with
  | nil => rfl
  | @cons x rows _ _ h _ ih => simp only [List.countP_cons, ih, h.kept d p hk]

/-- Following the cursors from the first page to the last, the client gets the entries by increasing position,
every one that is kept meanwhile in exactly one page, and none that had a score when its page was made. -/
theorem traversal_once (hok : ∀ c l, ok c l → Paging userId c l) (hs : (s.tape userId).Valid)
    {pages : List (Option Nat × TapePage)} (hreach : Reach (OneAtATime userId) s c)
    (h : Traversal ok userId none pages c c') :
    (∀ d p, (∀ c l, ok c l → Kept userId d p c) →
      pages.countP (fun x => d ∈ x.2.items.map (·.document.id)) = 1) ∧
    ((pages.flatMap fun x => x.2.items).Pairwise fun x y => x.position < y.position) ∧
    (∀ x ∈ pages, ∀ n ∈ x.2.nextPosition, 0 ≤ n ∧ ∀ a ∈ x.1, (a : Int) < n) ∧
    ∀ after page i c₁ c₂, Steps ok c c₁ → Request ok userId after page i c₁ c₂ →
      page.items = [] ∨ UnscoredAtQuery ok userId page i c₁ c₂ := by
  obtain ⟨rows, hwalk, hall⟩ := h.walk hok hs hreach
  refine ⟨fun d p hk => ?_, ?_, h.cursors hok hs hreach, fun after page i c₁ c₂ hsteps hreq => ?_⟩
  · have honce : rows.countP ((d, p) ∈ ·) = 1 :=
      hwalk.once (fun rows hr => ⟨hr.1, hr.2.2 d p hk⟩) fun a ha => nomatch ha
    rw [← honce]
    exact countP_eq_of_shows hk hall
  · have hsub := sublist_of_shows hall
    have hpair : Keyset.Increasing Prod.snd ((pages.flatMap fun x => x.2.items).map TapeItem.entry) :=
      (hwalk.increasing fun rows hr => hr.1).sublist hsub
    exact List.Pairwise.of_map TapeItem.entry (fun _ _ h => h) hpair
  · obtain ⟨-, -, -, -, -, -, hscored⟩ :=
      hreq.shows hok hs (hreach.trans (hsteps.mono fun c l hl => (hok c l hl).2))
    exact hscored

end

section
open scoped Python.Utc

namespace Sample

/-- A tape of two articles that is read one entry at a time. -/
def single : Conf service :=
  (start [article 7, article 8]).play
    (.start (.writeConfig 1 { update .asc [1] with pageSize := 1, pageSize_bounds := by decide }) :: runs 0 9 ++
      .start (.generate 1 true) :: runs 1 30)

/-- The steps of the client's first three requests. Meanwhile the first article is scored, and a new one comes in
and goes away again. -/
def firstPage : List (Label service) := .start (.readTape 1 none) :: runs 2 10

def secondPage : List (Label service) :=
  .start (.submitScore 1 (request 7)) :: runs 3 3 ++ .env (.insertDocument (article 9)) ::
    .start (.generate 1 false) :: runs 4 30 ++ .start (.readTape 1 (some 0)) :: runs 5 10

def lastPage : List (Label service) :=
  .start (.submitScore 1 (request 9)) :: runs 6 3 ++ .start (.readTape 1 (some 1)) :: runs 7 10

/-- A page with one article. -/
def page (position id : Int) : TapePage :=
  { items := [tapeItem "compact" [(1, [⟨1, some "analyst"⟩])] position (article id)], nextPosition := some position
    state := .ok, displayMode := "compact" }

def noMore : TapePage := { items := [], nextPosition := none, state := .empty, displayMode := "compact" }

def pages : List (Option Nat × TapePage) := [(none, page 0 7), (some 0, page 1 8), (some 1, noMore)]

end Sample

theorem single_traversal_once :
    ∃ c, Traversal (fun c l => Paging 1 c l ∧ Kept 1 8 1 c) 1 none Sample.pages Sample.single c ∧
      Sample.pages.countP (fun x => 8 ∈ x.2.items.map (·.document.id)) = 1 := by
  let ok (c : Conf service) (l : Label service) : Prop := Paging 1 c l ∧ Kept 1 8 1 c
  let c₁ : Conf service := Sample.single.play Sample.firstPage
  let c₂ : Conf service := c₁.play Sample.secondPage
  have hbuilt : Reach (OneAtATime 1) (Sample.start [Sample.article 7, Sample.article 8]).world.state Sample.single :=
    Steps.play (by decide +kernel)
  have h₁ : Request ok 1 none (Sample.page 0 7) 2 Sample.single c₁ :=
    ⟨Steps.play (by decide +kernel), by decide +kernel, by decide +kernel⟩
  have h₂ : Request ok 1 (some 0) (Sample.page 1 8) 5 c₁ c₂ :=
    ⟨Steps.play (by decide +kernel), by decide +kernel, by decide +kernel⟩
  have h₃ : Request ok 1 (some 1) Sample.noMore 7 c₂ (c₂.play Sample.lastPage) :=
    ⟨Steps.play (by decide +kernel), by decide +kernel, by decide +kernel⟩
  have hpages : Traversal ok 1 none Sample.pages Sample.single (c₂.play Sample.lastPage) :=
    .next h₁ rfl (.next h₂ rfl (.last h₃ rfl))
  have hempty : ((Sample.start [Sample.article 7, Sample.article 8]).world.state.tape 1).Valid := Tape.valid_empty
  exact ⟨_, hpages, (traversal_once (fun _ _ h => h.1) hempty hbuilt hpages).1 8 1 fun _ _ h => h.2⟩

/-! ## Top-ups that overlap -/

/-- The step is none of a full rebuild: those alone delete the tape. -/
def NoRebuild (userId : Int) (c : Conf service) (l : Label service) : Prop :=
  ∀ x ∈ c.call? l, x.2.deletesTape userId = false

instance (userId : Int) (c : Conf service) (l : Label service) : Decidable (NoRebuild userId c l) :=
  inferInstanceAs (Decidable (∀ x ∈ c.call? l, _))

namespace Sample

theorem twoPerPage : (1 : Int) ≤ 2 ∧ (2 : Int) ≤ 200 := by decide

/-- A tape of two articles that is read two entries at a time. -/
def paired : Conf service :=
  (start [article 7, article 8]).play
    (.start (.writeConfig 1 { update .asc [1] with pageSize := 2, pageSize_bounds := twoPerPage }) :: runs 0 9 ++
      .start (.generate 1 true) :: runs 1 30)

/-- The lock of a top-up expires before it adds its article. A second top-up has measured the tape by then, and
finds another article. -/
def topUps : List (Label service) :=
  .env (.insertDocument (article 9)) :: .start (.generate 1 false) :: runs 3 10 ++ .env (.expireLock 1) ::
    .start (.generate 1 false) :: runs 4 8 ++ runs 3 1 ++ runs 4 1 ++ .env (.insertDocument (article 10)) ::
    runs 4 9 ++ runs 3 8

/-- A page of the articles with their positions. -/
def pageOf (rows : List (Int × Int)) (nextPosition : Int) : TapePage :=
  { items := rows.map fun row => tapeItem "compact" [(1, [⟨1, some "analyst"⟩])] row.1 (article row.2)
    nextPosition := some nextPosition, state := .ok, displayMode := "compact" }

def tiedPages : List (Option Nat × TapePage) :=
  [(none, pageOf [(0, 7), (1, 8)] 1), (some 1, pageOf [(2, 10), (2, 9)] 2), (some 2, noMore)]

end Sample

/-- Two articles have come to the same position. -/
theorem overlapping_not_increasing :
    ∃ c, (Sample.paired.world.state.tape 1).Valid ∧
      Traversal (fun c l => Paged 1 c ∧ NoRebuild 1 c l) 1 none Sample.tiedPages Sample.paired c ∧
        ¬ (Sample.tiedPages.flatMap fun x => x.2.items).Pairwise fun x y => x.position < y.position := by
  let ok (c : Conf service) (l : Label service) : Prop := Paged 1 c ∧ NoRebuild 1 c l
  let c₁ : Conf service := Sample.paired.play Sample.firstPage
  let c₂ : Conf service := c₁.play (Sample.topUps ++ .start (.readTape 1 (some 1)) :: Sample.runs 5 10)
  have hbuilt : Reach (OneAtATime 1) (Sample.start [Sample.article 7, Sample.article 8]).world.state Sample.paired :=
    Steps.play (by decide +kernel)
  have h₁ : Request ok 1 none (Sample.pageOf [(0, 7), (1, 8)] 1) 2 Sample.paired c₁ :=
    ⟨Steps.play (by decide +kernel), by decide +kernel, by decide +kernel⟩
  have h₂ : Request ok 1 (some 1) (Sample.pageOf [(2, 10), (2, 9)] 2) 5 c₁ c₂ :=
    ⟨Steps.play (by decide +kernel), by decide +kernel, by decide +kernel⟩
  have h₃ : Request ok 1 (some 2) Sample.noMore 6 c₂
      (c₂.play (.start (.readTape 1 (some 2)) :: Sample.runs 6 6)) :=
    ⟨Steps.play (by decide +kernel), by decide +kernel, by decide +kernel⟩
  have hempty : ((Sample.start [Sample.article 7, Sample.article 8]).world.state.tape 1).Valid := Tape.valid_empty
  have hvalid := (Positions.holds_of_reach (.byTurns 1) hempty hbuilt).inv
  refine ⟨_, hvalid, .next h₁ rfl (.next h₂ rfl (.last h₃ rfl)), ?_⟩
  decide +kernel

end

end TapeService
