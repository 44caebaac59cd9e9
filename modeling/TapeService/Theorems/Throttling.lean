import TapeService.Lemmas.Limiter

/-!
# The throttling of logins

The limiter counts by the first address in `X-Forwarded-For`, which the client writes, and the proxy appends
the true one at the end. A client that varies what it sends has as many limits as it likes.
-/

namespace TapeService

open Python

/-- How many of the requests have passed in the interval of length `window` that starts at `t`. -/
def passedWithin (window : Nat) (t : Int) (rs : List LoginRequest) (answers : List Bool) : Nat :=
  (rs.zip answers).countP fun x => x.2 ∧ t ≤ x.1.now ∧ x.1.now ≤ t + window

/-- In no interval do more requests pass than the limit, whatever headers of `H` the client sends. -/
def Throttled (host : Option String) (peer : String) (capacity window : Nat) (H : List String → Prop) : Prop :=
  ∀ rs : List LoginRequest, rs.Pairwise (fun r r' => r.now ≤ r'.now) → (∀ r ∈ rs, H r.sent) →
    ∀ t, passedWithin window t rs (logins host peer (.new capacity window) rs) ≤ capacity

/-- The answers do not depend on which headers of `H` the client sends. -/
def HeaderBlind (host : Option String) (peer : String) (capacity window : Nat) (H : List String → Prop) : Prop :=
  ∀ rs rs' : List LoginRequest, rs.Pairwise (fun r r' => r.now ≤ r'.now) → rs.map (·.now) = rs'.map (·.now) →
    (∀ r ∈ rs, H r.sent) → (∀ r ∈ rs', H r.sent) →
      logins host peer (.new capacity window) rs = logins host peer (.new capacity window) rs'

/-- Whom the headers name: the first value up to its first comma, stripped. If the client sends none, there is only the
peer, which the proxy appends. -/
def namedClient (host : Option String) (peer : String) : List String → String
  | [] => clientIp (some peer) host
  | first :: _ => String.ofList (strip (splitFirst ',' first.toList))

/-- All headers of `H` name the same client, or no request passes anyway. -/
def OneKey (host : Option String) (peer : String) (capacity : Nat) (H : List String → Prop) : Prop :=
  capacity = 0 ∨ ∀ sent sent', H sent → H sent' → namedClient host peer sent = namedClient host peer sent'

namespace Throttling

variable {host : Option String} {peer : String} {b : TokenBucket Int} {capacity window : Nat}

/-- An address names itself. -/
theorem namedClient_nil (hp : peer ≠ "") (hc : ',' ∉ peer.toList) (hs : peer.toList.any isSpace = false) :
    namedClient host peer [] = peer := by
  have hnone : ∀ c ∈ peer.toList, isSpace c = false := fun c hmem =>
    Bool.eq_false_iff.mpr (List.any_eq_false.mp hs c hmem)
  have hfirst : splitFirst ',' peer.toList = peer.toList := by
    refine List.takeWhile_eq_self_iff.mpr fun c hmem => ?_
    simp only [ne_eq, decide_not, Bool.not_eq_true', decide_eq_false_iff_not]
    rintro rfl
    exact hc hmem
  simp only [namedClient, clientIp, if_pos hp, hfirst, strip, trim_of_none hnone, String.ofList_toList]

theorem loginKey_cons {first : String} {rest : List String} :
    loginKey host peer (first :: rest) = String.ofList (strip (splitFirst ',' first.toList)) := by
  have hproxy : (proxyAddXForwardedFor (first :: rest) peer).toList =
      first.toList ++ ',' :: (" " ++ ", ".intercalate (rest ++ [peer])).toList := by
    rw [proxyAddXForwardedFor, List.cons_append, String.intercalate_cons_of_ne_nil (by simp)]
    simp
  have hne : proxyAddXForwardedFor (first :: rest) peer ≠ "" := by
    intro h
    rw [h] at hproxy
    simp at hproxy
  have hsplit : ∀ xs ys : List Char, splitFirst ',' (xs ++ ',' :: ys) = splitFirst ',' xs := by
    intro xs ys
    induction xs with
    | nil => rfl
    | cons x xs ih => simp only [splitFirst, List.cons_append, List.takeWhile_cons] at ih ⊢; rw [ih]
  simp only [loginKey, clientIp, if_pos hne, hproxy, hsplit]

theorem loginKey_eq {sent : List String} : loginKey host peer sent = namedClient host peer sent := by
  cases sent with
  | nil => rfl
  | cons first rest => exact loginKey_cons

theorem logins_cons {r : LoginRequest} {rs : List LoginRequest} :
    logins host peer b (r :: rs) =
      (b.allow r.now (loginKey host peer r.sent)).1 ::
        logins host peer (b.allow r.now (loginKey host peer r.sent)).2 rs := by
  simp only [logins, throttle]
  cases (b.allow r.now (loginKey host peer r.sent)).1 <;> rfl

theorem logins_congr {rs rs' : List LoginRequest}
    (h : rs.map (fun r => (r.now, loginKey host peer r.sent)) = rs'.map fun r => (r.now, loginKey host peer r.sent)) :
    logins host peer b rs = logins host peer b rs' := by
  induction rs generalizing rs' b with
  | nil =>
      obtain rfl := List.map_eq_nil_iff.mp h.symm
      rfl
  | cons r rs ih =>
      cases rs' with
      | nil => cases h
      | cons r' rs' =>
          simp only [List.map_cons, List.cons.injEq, Prod.mk.injEq] at h
          rw [logins_cons, logins_cons, h.1.1, h.1.2, ih h.2]

theorem passedWithin_cons {t : Int} {r : LoginRequest} {rs : List LoginRequest} {a : Bool} {answers : List Bool} :
    passedWithin window t (r :: rs) (a :: answers) =
      SlidingWindow.within (window : Int) t (if a then [r.now] else []) + passedWithin window t rs answers := by
  cases a <;> simp [passedWithin, SlidingWindow.within, List.countP_cons, Nat.add_comm]

theorem passedWithin_le {key : String} {rs : List LoginRequest} {passed : List Int} {now t : Int}
    (hwindow : b.window = window) (hkey : ∀ r ∈ rs, loginKey host peer r.sent = key)
    (hsorted : rs.Pairwise fun r r' => r.now ≤ r'.now) (hnow : ∀ r ∈ rs, now ≤ r.now)
    (hrec : SlidingWindow.Records b.capacity b.window passed (b.events key) now) :
    SlidingWindow.within b.window t passed + passedWithin window t rs (logins host peer b rs) ≤ b.capacity := by
  induction rs generalizing b passed now with
  | nil => exact hrec.bounded t
  | cons r rs ih =>
      obtain ⟨hr, hrs⟩ := List.pairwise_cons.mp hsorted
      have hstep := hrec.allow (hnow r List.mem_cons_self)
      rw [← TokenBucket.allow_events_self, ← TokenBucket.allow_answer] at hstep
      have hrest := ih (b := (b.allow r.now key).2) (by simpa using hwindow)
        (fun r' hr' => hkey r' (List.mem_cons_of_mem _ hr')) hrs hr (by simpa using hstep)
      rw [logins_cons, passedWithin_cons, hkey r List.mem_cons_self]
      have hone : SlidingWindow.within (window : Int) t passed + SlidingWindow.within (window : Int) t
          (if (b.allow r.now key).1 then [r.now] else []) = SlidingWindow.within (window : Int) t
            (if (b.allow r.now key).1 then passed ++ [r.now] else passed) := by
        split <;> simp [SlidingWindow.within]
      rw [TokenBucket.allow_window, TokenBucket.allow_capacity, hwindow] at hrest
      rw [hwindow]
      omega

theorem logins_of_zero {rs : List LoginRequest} (hb : b.capacity = 0) :
    logins host peer b rs = .replicate rs.length false := by
  induction rs generalizing b with
  | nil => rfl
  | cons r rs ih =>
      rw [logins_cons, TokenBucket.allow_answer, ih (by simpa using hb)]
      simp [SlidingWindow.allow, hb, List.replicate_succ]

theorem passedWithin_replicate {t : Int} {rs : List LoginRequest} {n : Nat} :
    passedWithin window t rs (.replicate n false) = 0 := by
  refine List.countP_eq_zero.mpr fun x hx => ?_
  rw [List.eq_of_mem_replicate (List.of_mem_zip hx).2]
  simp

theorem logins_replicate {sent : List String} {n m : Nat} {rs : List LoginRequest} (hwindow : 0 ≤ b.window)
    (hn : n + m ≤ b.capacity) (hb : b.events (loginKey host peer sent) = .replicate n 0) :
    logins host peer b (.replicate m ⟨0, sent⟩ ++ rs) = .replicate m true ++
      logins host peer { b with events := put b.events (loginKey host peer sent) (.replicate (n + m) 0) } rs := by
  induction m generalizing n b with
  | zero => simp [put, ← hb]
  | succ m ih =>
      have hallow : b.allow 0 (loginKey host peer sent) =
          (true, { b with events := put b.events (loginKey host peer sent) (.replicate (n + 1) 0) }) := by
        rw [TokenBucket.allow_eq, hb, SlidingWindow.allow_replicate (by omega) hwindow]
      have hrest := ih (b := { b with events := put b.events (loginKey host peer sent) (.replicate (n + 1) 0) })
        (n := n + 1) hwindow (show n + 1 + m ≤ b.capacity by omega) (put_self _ _ _)
      rw [List.replicate_succ, List.cons_append, logins_cons, hallow, hrest]
      simp only [put, Function.update_idem, Nat.add_assoc, Nat.add_comm 1 m]
      rfl

/-- Between the last request that the limit allows and the next, the client may change its key. -/
theorem logins_full {sent sent' : List String} (hcap : 0 < capacity) :
    logins host peer (.new capacity window) (.replicate capacity ⟨0, sent⟩ ++ [⟨0, sent'⟩]) =
      .replicate capacity true ++ [decide (loginKey host peer sent ≠ loginKey host peer sent')] := by
  have hwindow : 0 ≤ (TokenBucket.new capacity (window : Int)).window := by simp [TokenBucket.new]
  rw [logins_replicate (n := 0) hwindow (by simp [TokenBucket.new]) rfl, logins_cons, TokenBucket.allow_eq]
  by_cases hkey : loginKey host peer sent = loginKey host peer sent'
  · simp [hkey, put_self, TokenBucket.new, SlidingWindow.allow_full, logins]
  · have hempty : SlidingWindow.allow capacity (window : Int) 0 [] = (true, [0]) :=
      SlidingWindow.allow_replicate (n := 0) hcap (by simp)
    simp [hkey, put_of_ne _ _ (Ne.symm hkey), TokenBucket.new, hempty, logins]

end Throttling

open Throttling

section
variable {host : Option String} {peer : String} {capacity window : Nat} {H : List String → Prop}

theorem OneKey.throttled (h : OneKey host peer capacity H) : Throttled host peer capacity window H := by
  intro rs hsorted hH t
  rcases h with h | h
  · rw [logins_of_zero (by exact h), passedWithin_replicate]
    exact Nat.zero_le _
  · cases rs with
    | nil => exact Nat.zero_le _
    | cons r rs =>
        have hnow : ∀ r' ∈ r :: rs, r.now ≤ r'.now := by
          intro r' hr'
          rcases List.mem_cons.mp hr' with rfl | hr'
          · exact le_rfl
          · exact (List.pairwise_cons.mp hsorted).1 r' hr'
        have hle := passedWithin_le (b := .new capacity window) (t := t)
          rfl (fun r' hr' => loginKey_eq.trans (h _ _ (hH r' hr') (hH r List.mem_cons_self))) hsorted hnow .nil
        exact (Nat.le_add_left _ _).trans hle

theorem OneKey.headerBlind (h : OneKey host peer capacity H) : HeaderBlind host peer capacity window H := by
  intro rs rs' _ hnow hH hH'
  rcases h with h | h
  · have hlen : rs.length = rs'.length := by simpa using congrArg List.length hnow
    rw [logins_of_zero (by exact h), logins_of_zero (by exact h), hlen]
  · refine logins_congr (List.ext_getElem (by simpa using congrArg List.length hnow) fun n hn hn' => ?_)
    simp only [List.length_map] at hn hn'
    have htime : rs[n].now = rs'[n].now := by
      have := congrArg (·[n]?) hnow
      simpa [hn, hn'] using this
    simp only [List.getElem_map, Prod.mk.injEq]
    rw [loginKey_eq, loginKey_eq]
    exact ⟨htime, h _ _ (hH _ (List.getElem_mem hn)) (hH' _ (List.getElem_mem hn'))⟩

/-- The requests of a client that uses up its limit under one key and goes on under another. -/
def evading (capacity : Nat) (sent sent' : List String) : List LoginRequest :=
  .replicate capacity ⟨0, sent⟩ ++ [⟨0, sent'⟩]

theorem now_of_mem_evading {sent sent' : List String} {r : LoginRequest} (hr : r ∈ evading capacity sent sent') :
    r.now = 0 := by
  rcases List.mem_append.mp hr with hr | hr
  · rw [List.eq_of_mem_replicate hr]
  · rw [List.mem_singleton.mp hr]

theorem evading_sorted {sent sent' : List String} :
    (evading capacity sent sent').Pairwise fun r r' => r.now ≤ r'.now :=
  List.pairwise_of_forall_mem_list fun r hr r' hr' => by rw [now_of_mem_evading hr, now_of_mem_evading hr']

theorem mem_evading {sent sent' : List String} (hs : H sent) (hs' : H sent') :
    ∀ r ∈ evading capacity sent sent', H r.sent := by
  intro r hr
  rcases List.mem_append.mp hr with hr | hr
  · rwa [List.eq_of_mem_replicate hr]
  · rwa [List.mem_singleton.mp hr]

theorem Throttled.oneKey (h : Throttled host peer capacity window H) : OneKey host peer capacity H := by
  by_contra hnot
  simp only [OneKey, not_or, not_forall] at hnot
  obtain ⟨hcap, sent, sent', hs, hs', hne⟩ := hnot
  rw [← loginKey_eq, ← loginKey_eq] at hne
  have hle := h (evading capacity sent sent') evading_sorted (mem_evading hs hs') 0
  have hall : logins host peer (.new capacity window) (evading capacity sent sent') =
      .replicate (capacity + 1) true := by
    rw [evading, logins_full (Nat.pos_of_ne_zero hcap), List.replicate_succ', decide_eq_true hne]
  have hpassed : passedWithin window 0 (evading capacity sent sent') (.replicate (capacity + 1) true) =
      capacity + 1 := by
    have hcount : passedWithin window 0 (evading capacity sent sent') (.replicate (capacity + 1) true) =
        ((evading capacity sent sent').zip (.replicate (capacity + 1) true)).length := by
      refine List.countP_eq_length.mpr fun x hx => ?_
      obtain ⟨hr, ha⟩ := List.of_mem_zip hx
      rw [now_of_mem_evading hr, List.eq_of_mem_replicate ha]
      simp
    rw [hcount]
    simp [evading]
  rw [hall, hpassed] at hle
  omega

/-- A client that can leave the header out and can write someone else into it is not limited. -/
theorem not_throttled_of_forged (hcap : capacity ≠ 0) (hp : peer ≠ "") (hc : ',' ∉ peer.toList)
    (hs : peer.toList.any isSpace = false) (forged : List String) (hH : H []) (hH' : H forged)
    (hforged : namedClient host peer forged ≠ peer) : ¬ Throttled host peer capacity window H := by
  intro h
  rcases h.oneKey with hzero | hone
  · exact hcap hzero
  · exact hforged ((hone _ _ hH' hH).trans (namedClient_nil hp hc hs))

theorem HeaderBlind.oneKey (h : HeaderBlind host peer capacity window H) : OneKey host peer capacity H := by
  by_contra hnot
  simp only [OneKey, not_or, not_forall] at hnot
  obtain ⟨hcap, sent, sent', hs, hs', hne⟩ := hnot
  rw [← loginKey_eq, ← loginKey_eq] at hne
  have heq := h (evading capacity sent sent') (evading capacity sent sent) evading_sorted (by simp [evading])
    (mem_evading hs hs') (mem_evading hs hs)
  rw [evading, evading, logins_full (Nat.pos_of_ne_zero hcap), logins_full (Nat.pos_of_ne_zero hcap)] at heq
  simp [hne] at heq

end

/-- Exactly when all that the client can send names the same client is the limit a limit on the client, and exactly
then the answers do not depend on what it sends. -/
theorem throttled_iff_oneKey (host : Option String) (peer : String) (capacity window : Nat)
    (H : List String → Prop) :
    (Throttled host peer capacity window H ↔ OneKey host peer capacity H) ∧
      (HeaderBlind host peer capacity window H ↔ OneKey host peer capacity H) :=
  ⟨⟨Throttled.oneKey, OneKey.throttled⟩, HeaderBlind.oneKey, OneKey.headerBlind⟩

/-- Ten attempts are used up, and the eleventh comes with a forged address. -/
theorem forged_not_throttled : ¬ Throttled none "203.0.113.9" 10 300 fun _ => True :=
  not_throttled_of_forged (by decide) (by decide) (by decide +kernel) rfl ["198.51.100.7"] trivial trivial
    (by decide +kernel)

end TapeService
