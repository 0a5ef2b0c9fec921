import TsCommons.Foundations.Execution
import TsCommons.Foundations.InsertionMap
import Mathlib.Algebra.Order.Ring.Rat
import Mathlib.Logic.Function.Basic
import Mathlib.Tactic.Linarith

/-!
# The rate limit of the API keys

The requests of a key are counted from a first one on, for as long as the
window lasts; the first request after that starts to count anew.  So requests
from the end of one window and from the start of the next may lie close
together.  The windows depend on the times of the requests alone, and so does
whether the limit is kept: a request among the first of its window is to be far
enough from its counterpart in the window before.
-/

namespace TsCommons.Security

open Foundations

structure RateLimitConfig where
  maxRequests : ℕ
  windowMs : ℚ
deriving DecidableEq

structure WindowEntry where
  count : ℕ
  windowStart : ℚ
deriving DecidableEq

structure ApiKeyUsageTracker where
  rateLimitConfig : Option RateLimitConfig
  rateWindows : InsertionMap String WindowEntry
deriving DecidableEq

namespace ApiKeyUsageTracker

def create (rateLimitConfig : Option RateLimitConfig) : ApiKeyUsageTracker :=
  ⟨rateLimitConfig, .empty⟩

def isRateLimited (tracker : ApiKeyUsageTracker) (keyId : String)
    (now : ℚ) : Bool :=
  match tracker.rateLimitConfig with
  | none => false
  | some config =>
      match tracker.rateWindows.get keyId with
      | none => false
      | some entry =>
          if now - entry.windowStart > config.windowMs then false
          else entry.count ≥ config.maxRequests

/-- The entry after a request. -/
def nextEntry (windowMs : ℚ) (now : ℚ) : Option WindowEntry → WindowEntry
  | none => ⟨1, now⟩
  | some entry =>
      if now - entry.windowStart > windowMs then ⟨1, now⟩
      else ⟨entry.count + 1, entry.windowStart⟩

def incrementRateCounter (tracker : ApiKeyUsageTracker) (keyId : String)
    (now : ℚ) : ApiKeyUsageTracker :=
  match tracker.rateLimitConfig with
  | none => tracker
  | some config =>
      { tracker with
        rateWindows := tracker.rateWindows.set keyId
          (nextEntry config.windowMs now (tracker.rateWindows.get keyId)) }

/-! ## Requests that are let in -/

/-- `admitted` are the times at which requests of a key were let in. -/
structure State where
  tracker : ApiKeyUsageTracker
  now : ℚ
  admitted : String → List ℚ

def State.initial (config : RateLimitConfig) (now : ℚ) : State :=
  ⟨.create (some config), now, fun _ => []⟩

structure Request where
  keyId : String
  time : ℚ
deriving DecidableEq

/-- A request is let in and counted unless its key is rate-limited. -/
def step (state : State) (request : Request) : Option State :=
  if state.now ≤ request.time then
    if state.tracker.isRateLimited request.keyId request.time then
      some { state with now := request.time }
    else
      some
        { tracker := state.tracker.incrementRateCounter request.keyId
            request.time
          now := request.time
          admitted := Function.update state.admitted request.keyId
            (state.admitted request.keyId ++ [request.time]) }
  else none

/-- How many of the times lie in the interval of this length. -/
def within (windowMs start : ℚ) (times : List ℚ) : ℕ :=
  times.countP fun time => start ≤ time ∧ time ≤ start + windowMs

/-- How many of the times are at most as old as the window is long. -/
def recent (windowMs now : ℚ) (times : List ℚ) : ℕ :=
  times.countP fun time => now - time ≤ windowMs

/-- No interval of the length of the window has more requests of one key than
are allowed. -/
def SlidingWindow (config : RateLimitConfig) (state : State) : Prop :=
  ∀ keyId start,
    within config.windowMs start (state.admitted keyId) ≤ config.maxRequests

/-! ## Windows of requests -/

/-- The times of the requests with the key. -/
def timesOf (requests : List Request) (keyId : String) : List ℚ :=
  (requests.filter (·.keyId = keyId)).map Request.time

/-- A request goes into the newest window, or starts a new one when it comes
later after the first request of that window than the window is long. -/
def joinWindow (windowMs : ℚ) (windows : List (List ℚ)) (time : ℚ) :
    List (List ℚ) :=
  match windows with
  | (start :: rest) :: older =>
      if time - start > windowMs then [time] :: (start :: rest) :: older
      else (start :: rest ++ [time]) :: older
  | older => [time] :: older

/-- Requests at these times, cut into windows, of which the newest comes
first. -/
def windowsOf (windowMs : ℚ) (times : List ℚ) : List (List ℚ) :=
  times.foldl (joinWindow windowMs) []

/-- Counting no more than the first `maxRequests` requests of a window, a
request and the one `maxRequests` places before it, if that is in the window
before, are further apart than the window is long. -/
def Apart (config : RateLimitConfig) (later earlier : List ℚ) : Prop :=
  ∀ pair ∈ (earlier.take config.maxRequests).zip
      ((later.take config.maxRequests).drop
        (config.maxRequests - earlier.length)),
    pair.2 - pair.1 > config.windowMs

instance Apart.decidable (config : RateLimitConfig) :
    DecidableRel (Apart config) := fun _ _ =>
  inferInstanceAs (Decidable (∀ pair ∈ _, _ > _))

/-- The requests at these times keep their distance from one window to the
next. -/
def Spaced (config : RateLimitConfig) (times : List ℚ) : Prop :=
  (windowsOf config.windowMs times).IsChain (Apart config)

instance Spaced.decidable (config : RateLimitConfig) (times : List ℚ) :
    Decidable (Spaced config times) :=
  inferInstanceAs (Decidable (List.IsChain _ _))

variable {config : RateLimitConfig} {state next : State} {request : Request}
  {requests : List Request} {windowMs now start time : ℚ}
  {entry : Option WindowEntry} {times window last : List ℚ}
  {older : List (List ℚ)} {keyId : String} {maxRequests : ℕ}

theorem windowsOf_concat (windowMs : ℚ) (times : List ℚ) (time : ℚ) :
    windowsOf windowMs (times ++ [time]) =
      joinWindow windowMs (windowsOf windowMs times) time :=
  List.foldl_concat ..

theorem timesOf_concat (requests : List Request) (request : Request)
    (keyId : String) :
    timesOf (requests ++ [request]) keyId =
      if request.keyId = keyId then
        timesOf requests keyId ++ [request.time]
      else timesOf requests keyId := by
  unfold timesOf
  rw [List.filter_append, List.filter_singleton]
  by_cases hkey : request.keyId = keyId
  · rw [if_pos hkey, decide_eq_true hkey, cond_true, List.map_append]
    rfl
  · rw [if_neg hkey, decide_eq_false hkey, cond_false, List.append_nil]

/-- Less than so many of the times are recent if and only if the one with so
many from it to the end is not. -/
theorem recent_lt_iff (windowMs now : ℚ)
    (hsorted : times.Pairwise (· ≤ ·)) {count : ℕ} (hcount : 0 < count) :
    recent windowMs now times < count ↔
      (count ≤ times.length → ∀ time ∈ times[times.length - count]?,
        now - time > windowMs) := by
  induction times with
  | nil =>
      refine iff_of_true hcount fun hle => ?_
      have hzero := Nat.le_zero.mp hle
      omega
  | cons first rest ih =>
      obtain ⟨hfirst, hrest⟩ := List.pairwise_cons.mp hsorted
      rw [recent, List.countP_cons]
      by_cases hold : now - first > windowMs
      · have hnot : ¬ decide (now - first ≤ windowMs) = true := by
          simpa only [decide_eq_true_iff, not_le] using hold
        rw [if_neg hnot, Nat.add_zero, ← recent, ih hrest]
        rcases Nat.lt_trichotomy rest.length count with hlt | rfl | hgt
        · refine iff_of_true (fun hle => absurd hle (by omega)) ?_
          intro hle time htime
          have hindex : (first :: rest).length - count = 0 := by
            simp only [List.length_cons] at hle ⊢
            omega
          rw [hindex, List.getElem?_cons_zero, Option.mem_some_iff] at htime
          exact htime ▸ hold
        · have hindex : (first :: rest).length - rest.length =
              rest.length - rest.length + 1 := by
            simp only [List.length_cons]
            omega
          rw [hindex, List.getElem?_cons_succ]
          exact imp_congr_left (iff_of_true le_rfl (Nat.le_succ _))
        · have hindex : (first :: rest).length - count =
              rest.length - count + 1 := by
            simp only [List.length_cons]
            omega
          rw [hindex, List.getElem?_cons_succ]
          exact imp_congr_left (iff_of_true hgt.le
            (hgt.le.trans (Nat.le_succ _)))
      · have hall : rest.countP (fun time => now - time ≤ windowMs) =
            rest.length := by
          apply List.countP_eq_length.mpr
          intro time hmem
          have hle := hfirst time hmem
          simp only [decide_eq_true_iff]
          linarith
        rw [if_pos (decide_eq_true (not_lt.mp hold)), hall]
        constructor
        · intro hlt hle
          simp only [List.length_cons] at hle
          omega
        · intro hfar
          by_contra hnot
          have hle : count ≤ (first :: rest).length := by
            simp only [List.length_cons]
            omega
          have hlt : (first :: rest).length - count <
              (first :: rest).length := by omega
          have hget := List.getElem?_eq_getElem hlt
          have hmem := List.getElem_mem hlt
          have hgap := hfar hle _ (Option.mem_def.mpr hget)
          rcases List.mem_cons.mp hmem with hsame | hlater
          · rw [hsame] at hgap
            exact hold hgap
          · have hle := hfirst _ hlater
            linarith [not_lt.mp hold]

theorem forall_mem_zip_concat {α β : Type*} {P : α × β → Prop} {left : List α}
    {right : List β} {last : β} :
    (∀ pair ∈ left.zip (right ++ [last]), P pair) ↔
      (∀ pair ∈ left.zip right, P pair) ∧
        ∀ first ∈ left[right.length]?, P (first, last) := by
  induction right generalizing left with
  | nil =>
      cases left with
      | nil => simp
      | cons first rest => simp
  | cons next right ih =>
      cases left with
      | nil => simp
      | cons first rest =>
          rw [List.cons_append, List.zip_cons_cons, List.forall_mem_cons, ih,
            List.zip_cons_cons, List.forall_mem_cons, List.length_cons,
            List.getElem?_cons_succ, and_assoc]

/-- One more request among the first of its window has a counterpart in the
window before if that one took in enough of them. -/
theorem apart_concat (hlength : window.length < config.maxRequests)
    (hsorted : last.Pairwise (· ≤ ·)) :
    Apart config (window ++ [time]) last ↔
      Apart config window last ∧
        recent config.windowMs time (last.take config.maxRequests) +
          window.length < config.maxRequests := by
  have hearlier : (last.take config.maxRequests).length =
      min config.maxRequests last.length := List.length_take
  have hrecent := recent_lt_iff config.windowMs time
    (hsorted.sublist (List.take_sublist config.maxRequests last))
    (Nat.sub_pos_of_lt hlength)
  have hlimit : recent config.windowMs time (last.take config.maxRequests) +
      window.length < config.maxRequests ↔
        recent config.windowMs time (last.take config.maxRequests) <
          config.maxRequests - window.length := by omega
  have hall : (window ++ [time]).length ≤ config.maxRequests := by
    rw [List.length_append, List.length_singleton]
    exact hlength
  rw [hlimit, hrecent, Apart, Apart, List.take_of_length_le hall,
    List.take_of_length_le hlength.le]
  by_cases hcounterpart : config.maxRequests - window.length ≤
      (last.take config.maxRequests).length
  · have hdrop : config.maxRequests - last.length ≤ window.length := by
      omega
    have hindex : (last.take config.maxRequests).length -
        (config.maxRequests - window.length) =
          (window.drop (config.maxRequests - last.length)).length := by
      rw [List.length_drop]
      omega
    rw [List.drop_append_of_le_length hdrop, hindex, forall_mem_zip_concat]
    exact and_congr_right' ⟨fun hgap _ => hgap, fun hgap => hgap hcounterpart⟩
  · have hnew : (window ++ [time]).drop (config.maxRequests - last.length) =
        [] := by
      rw [List.drop_eq_nil_iff, List.length_append, List.length_singleton]
      omega
    have hold : window.drop (config.maxRequests - last.length) = [] := by
      rw [List.drop_eq_nil_iff]
      omega
    rw [hnew, hold, List.zip_nil_right]
    exact (and_iff_left fun hle => absurd hle hcounterpart).symm

/-- A request after the first ones of its window changes nothing. -/
theorem apart_concat_of_le (hlength : config.maxRequests ≤ window.length) :
    Apart config (window ++ [time]) last ↔ Apart config window last := by
  rw [Apart, Apart, List.take_append_of_le_length hlength]

/-! ## The intervals -/

/-- An interval with the last request in it has what is recent, at most. -/
theorem within_concat_le (hbound : recent windowMs now times < maxRequests)
    (hwithin : within windowMs start times ≤ maxRequests) :
    within windowMs start (times ++ [now]) ≤ maxRequests := by
  rw [within, List.countP_append, List.countP_singleton]
  split
  · rename_i hinside
    rw [decide_eq_true_iff] at hinside
    have hle : within windowMs start times ≤ recent windowMs now times := by
      apply List.countP_mono_left
      intro time _ htime
      simp only [decide_eq_true_iff] at htime ⊢
      linarith [hinside.2, htime.1]
    rw [within] at hle
    omega
  · exact hwithin

/-- The interval that ends with the last request has all that is recent. -/
theorem within_concat_eq (hwindow : 0 ≤ windowMs)
    (hle : ∀ time ∈ times, time ≤ now) :
    within windowMs (now - windowMs) (times ++ [now]) =
      recent windowMs now times + 1 := by
  rw [within, List.countP_append, List.countP_singleton, if_pos, recent]
  · congr 1
    apply List.countP_congr
    intro time hmem
    have hbefore := hle time hmem
    simp only [decide_eq_true_iff]
    constructor
    · exact fun hinside => by linarith [hinside.1]
    · exact fun hrecent => ⟨by linarith, by linarith⟩
  · rw [decide_eq_true_iff]
    exact ⟨by linarith, by linarith⟩

/-- A request that is let in keeps to the limit if few enough before it are
recent. -/
theorem forall_within_concat_iff (hwindow : 0 ≤ windowMs)
    (hle : ∀ time ∈ times, time ≤ now) :
    (∀ start, within windowMs start (times ++ [now]) ≤ maxRequests) ↔
      (∀ start, within windowMs start times ≤ maxRequests) ∧
        recent windowMs now times < maxRequests := by
  constructor
  · intro hall
    constructor
    · intro start
      refine le_trans ?_ (hall start)
      rw [within, within, List.countP_append]
      exact Nat.le_add_right _ _
    · have hlast := hall (now - windowMs)
      rwa [within_concat_eq hwindow hle] at hlast
  · rintro ⟨hall, hbound⟩ start
    exact within_concat_le hbound (hall start)

/-! ## The requests of a key -/

/-- What the tracker keeps of the requests of a key: the count and the start of
the newest window.  Those let in before it are from the window before that one,
or are no longer recent. -/
structure Tracks (config : RateLimitConfig) (now : ℚ) (last : List ℚ)
    (start : ℚ) (rest : List ℚ) (entry : Option WindowEntry)
    (admitted : List ℚ) : Prop where
  entry_eq :
    entry = some ⟨min config.maxRequests (start :: rest).length, start⟩
  inside : ∀ time ∈ start :: rest,
    start ≤ time ∧ time ≤ start + config.windowMs ∧ time ≤ now
  sorted : (start :: rest).Pairwise (· ≤ ·)
  lastSorted : last.Pairwise (· ≤ ·)
  lastBefore : ∀ time ∈ last, time < start
  admitted_eq : ∃ far, admitted = far ++ last.take config.maxRequests ++
      (start :: rest).take config.maxRequests ∧
    ∀ time ∈ far, time + config.windowMs < start

def KeyInvariant (config : RateLimitConfig) (now : ℚ)
    (entry : Option WindowEntry) (admitted : List ℚ) :
    List (List ℚ) → Prop
  | [] => entry = none ∧ admitted = []
  | (start :: rest) :: older =>
      Tracks config now (older.headD []) start rest entry admitted
  | [] :: _ => False

section Key

variable {rest admitted : List ℚ} {windows : List (List ℚ)}

theorem recent_append (windowMs now : ℚ) (times others : List ℚ) :
    recent windowMs now (times ++ others) =
      recent windowMs now times + recent windowMs now others :=
  List.countP_append

theorem recent_eq_zero (hold : ∀ time ∈ times, time + windowMs < now) :
    recent windowMs now times = 0 := by
  apply List.countP_eq_zero.mpr
  intro time hmem
  have hfar := hold time hmem
  simp only [decide_eq_true_iff, not_le]
  linarith

theorem recent_eq_length (hnew : ∀ time ∈ times, now ≤ time + windowMs) :
    recent windowMs now times = times.length := by
  apply List.countP_eq_length.mpr
  intro time hmem
  have hnear := hnew time hmem
  simp only [decide_eq_true_iff]
  linarith

/-- In the newest window all requests are recent, and of those before it only
some of the window before. -/
theorem Tracks.recent_inside
    (htracks : Tracks config now last start rest entry admitted)
    (hstart : start ≤ time) (hinside : time - start ≤ config.windowMs)
    (hroom : (start :: rest).length < config.maxRequests) :
    recent config.windowMs time admitted =
      recent config.windowMs time (last.take config.maxRequests) +
        (start :: rest).length := by
  obtain ⟨far, hadmitted, hfar⟩ := htracks.admitted_eq
  have hzero : recent config.windowMs time far = 0 :=
    recent_eq_zero fun earlier hmem => (hfar earlier hmem).trans_le hstart
  have hall : recent config.windowMs time (start :: rest) =
      (start :: rest).length := by
    refine recent_eq_length fun other hmem => ?_
    have hafter := (htracks.inside other hmem).1
    linarith
  rw [hadmitted, recent_append, recent_append, hzero, zero_add,
    List.take_of_length_le hroom.le, hall]

/-- When a window starts, of the requests before it only some of the last
window are recent. -/
theorem Tracks.recent_over
    (htracks : Tracks config now last start rest entry admitted)
    (hwindow : 0 ≤ config.windowMs)
    (hover : time - start > config.windowMs) :
    recent config.windowMs time admitted =
      recent config.windowMs time
        ((start :: rest).take config.maxRequests) := by
  obtain ⟨far, hadmitted, hfar⟩ := htracks.admitted_eq
  have hzero : recent config.windowMs time
      (far ++ last.take config.maxRequests) = 0 := by
    refine recent_eq_zero fun earlier hmem => ?_
    have hbefore : earlier < start := by
      rcases List.mem_append.mp hmem with hmem | hmem
      · linarith [hfar earlier hmem]
      · exact htracks.lastBefore earlier (List.mem_of_mem_take hmem)
    linarith
  rw [hadmitted, recent_append, hzero, zero_add]

theorem Tracks.mono
    (htracks : Tracks config now last start rest entry admitted)
    (hle : now ≤ time) :
    Tracks config time last start rest entry admitted :=
  { htracks with
    inside := fun other hmem =>
      ⟨(htracks.inside other hmem).1, (htracks.inside other hmem).2.1,
        (htracks.inside other hmem).2.2.trans hle⟩ }

/-- A request in the window of the others. -/
theorem Tracks.join
    (htracks : Tracks config now last start rest entry admitted)
    (hle : now ≤ time) (hinside : time - start ≤ config.windowMs)
    {next : Option WindowEntry} {allowed : List ℚ}
    (hentry : next = some
      ⟨min config.maxRequests (start :: (rest ++ [time])).length, start⟩)
    (hallowed : ∀ before, admitted =
        before ++ (start :: rest).take config.maxRequests →
      allowed = before ++
        (start :: (rest ++ [time])).take config.maxRequests) :
    Tracks config time last start (rest ++ [time]) next allowed := by
  have hlast : ∀ other ∈ start :: rest, other ≤ time := fun other hmem =>
    (htracks.inside other hmem).2.2.trans hle
  obtain ⟨far, hadmitted, hfar⟩ := htracks.admitted_eq
  refine ⟨hentry, ?_, ?_, htracks.lastSorted, htracks.lastBefore,
    far, hallowed _ hadmitted, hfar⟩
  · intro other hmem
    rw [← List.cons_append, List.mem_append, List.mem_singleton] at hmem
    rcases hmem with hmem | rfl
    · obtain ⟨hafter, hwithin, -⟩ := htracks.inside other hmem
      exact ⟨hafter, hwithin, hlast other hmem⟩
    · exact ⟨hlast start List.mem_cons_self, by linarith, le_rfl⟩
  · rw [← List.cons_append, List.pairwise_append]
    refine ⟨htracks.sorted, List.pairwise_singleton _ _, ?_⟩
    intro other hmem new hnew
    rw [List.mem_singleton.mp hnew]
    exact hlast other hmem

/-- A request that starts a window. -/
theorem Tracks.open
    (htracks : Tracks config now last start rest entry admitted)
    (hwindow : 0 ≤ config.windowMs) (hpos : 1 ≤ config.maxRequests)
    (hover : time - start > config.windowMs) :
    Tracks config time (start :: rest) time [] (some ⟨1, time⟩)
      (admitted ++ [time]) := by
  obtain ⟨far, hadmitted, hfar⟩ := htracks.admitted_eq
  have hone : min config.maxRequests [time].length = 1 := by
    rw [List.length_singleton]
    omega
  refine ⟨by rw [hone], ?_, List.pairwise_singleton _ _, htracks.sorted, ?_,
    far ++ last.take config.maxRequests, ?_, ?_⟩
  · intro other hmem
    rw [List.mem_singleton.mp hmem]
    exact ⟨le_rfl, le_add_of_nonneg_right hwindow, le_rfl⟩
  · intro other hmem
    linarith [(htracks.inside other hmem).2.1]
  · rw [hadmitted, List.take_of_length_le (l := [time]) (by simpa using hpos)]
  · intro earlier hmem
    have hbefore : earlier < start := by
      rcases List.mem_append.mp hmem with hmem | hmem
      · linarith [hfar earlier hmem]
      · exact htracks.lastBefore earlier (List.mem_of_mem_take hmem)
    linarith

theorem KeyInvariant.turnDown
    (hinv : KeyInvariant config now entry admitted windows)
    (hle : now ≤ time) {found : WindowEntry} (hentry : entry = some found)
    (hinside : time - found.windowStart ≤ config.windowMs)
    (hfull : config.maxRequests ≤ found.count) :
    KeyInvariant config time entry admitted
        (joinWindow config.windowMs windows time) ∧
      ((joinWindow config.windowMs windows time).IsChain (Apart config) ↔
        windows.IsChain (Apart config)) := by
  match windows, hinv with
  | [], hinv =>
      rw [hinv.1] at hentry
      cases hentry
  | (start :: rest) :: older, htracks =>
      rw [htracks.entry_eq] at hentry
      cases hentry
      have hlength : config.maxRequests ≤ (start :: rest).length :=
        hfull.trans (Nat.min_le_right _ _)
      have htake : ((start :: rest) ++ [time]).take config.maxRequests = _ :=
        List.take_append_of_le_length hlength
      rw [joinWindow, if_neg (not_lt.mpr hinside)]
      constructor
      · refine htracks.join hle hinside ?_ ?_
        · rw [htracks.entry_eq]
          simp only [List.length_cons, List.length_append] at hlength ⊢
          congr 2
          omega
        · intro before hadmitted
          rw [hadmitted, ← List.cons_append, htake]
      · cases older with
        | nil => exact iff_of_true (.singleton _) (.singleton _)
        | cons last oldest =>
            rw [List.isChain_cons_cons, List.isChain_cons_cons,
              apart_concat_of_le hlength]

theorem KeyInvariant.letIn
    (hinv : KeyInvariant config now entry admitted windows)
    (hwindow : 0 ≤ config.windowMs) (hpos : 1 ≤ config.maxRequests)
    (hle : now ≤ time)
    (hfree : ∀ found, entry = some found →
      time - found.windowStart ≤ config.windowMs →
        found.count < config.maxRequests) :
    KeyInvariant config time (some (nextEntry config.windowMs time entry))
        (admitted ++ [time]) (joinWindow config.windowMs windows time) ∧
      ((joinWindow config.windowMs windows time).IsChain (Apart config) ↔
        windows.IsChain (Apart config) ∧
          recent config.windowMs time admitted < config.maxRequests) := by
  match windows, hinv with
  | [], hinv =>
      obtain ⟨rfl, rfl⟩ := hinv
      refine ⟨?_, iff_of_true (.singleton _) ⟨.nil, hpos⟩⟩
      refine ⟨?_, ?_, List.pairwise_singleton _ _, .nil,
        List.forall_mem_nil _, [], ?_, List.forall_mem_nil _⟩
      · rw [List.length_singleton, Nat.min_eq_right hpos]
        rfl
      · intro other hmem
        rw [List.mem_singleton.mp hmem]
        exact ⟨le_rfl, le_add_of_nonneg_right hwindow, le_rfl⟩
      · rw [List.take_of_length_le (l := [time]) hpos, List.headD_nil,
          List.take_nil]
        rfl
  | (start :: rest) :: older, htracks =>
      have hentry := htracks.entry_eq
      by_cases hover : time - start > config.windowMs
      · rw [joinWindow, if_pos hover, hentry, nextEntry, if_pos hover,
          List.isChain_cons_cons, htracks.recent_over hwindow hover]
        refine ⟨htracks.open hwindow hpos hover, ?_⟩
        have happart : Apart config ([] ++ [time]) (start :: rest) ↔ _ :=
          apart_concat hpos htracks.sorted
        rw [List.nil_append, List.length_nil, Nat.add_zero] at happart
        rw [happart, and_comm]
        refine and_congr_right' (and_iff_right fun pair hpair => ?_)
        rw [List.take_nil, List.drop_nil, List.zip_nil_right] at hpair
        cases hpair
      · have hinside := not_lt.mp hover
        have hcount : min config.maxRequests (start :: rest).length <
            config.maxRequests := hfree _ hentry hinside
        have hroom : (start :: rest).length < config.maxRequests := by
          omega
        have hstart : start ≤ time :=
          (htracks.inside start List.mem_cons_self).2.2.trans hle
        have hall : (start :: (rest ++ [time])).length ≤
            config.maxRequests := by
          rw [List.length_cons, List.length_append]
          exact hroom
        rw [joinWindow, if_neg hover, hentry, nextEntry, if_neg hover,
          htracks.recent_inside hstart hinside hroom]
        constructor
        · refine htracks.join hle hinside ?_ ?_
          · rw [Nat.min_eq_right hroom.le, Nat.min_eq_right hall]
            simp
          · intro before hadmitted
            rw [hadmitted, List.take_of_length_le hroom.le,
              List.take_of_length_le hall, List.append_assoc]
            rfl
        · cases older with
          | nil =>
              refine iff_of_true (.singleton _) ⟨.singleton _, ?_⟩
              rw [List.headD_nil, List.take_nil]
              exact (Nat.zero_add _).trans_lt hroom
          | cons last oldest =>
              have hsorted : last.Pairwise (· ≤ ·) := htracks.lastSorted
              rw [List.isChain_cons_cons, List.isChain_cons_cons,
                apart_concat hroom hsorted]
              exact and_right_comm

theorem KeyInvariant.mono
    (hinv : KeyInvariant config now entry admitted windows)
    (hle : now ≤ time) : KeyInvariant config time entry admitted windows := by
  match windows, hinv with
  | [], hinv => exact hinv
  | (_ :: _) :: _, htracks => exact Tracks.mono htracks hle

theorem KeyInvariant.le
    (hinv : KeyInvariant config now entry admitted windows)
    (hwindow : 0 ≤ config.windowMs) : ∀ time ∈ admitted, time ≤ now := by
  match windows, hinv with
  | [], hinv =>
      rw [hinv.2]
      exact List.forall_mem_nil _
  | (start :: rest) :: older, htracks =>
      intro time hmem
      have hstart := (htracks.inside start List.mem_cons_self).2.2
      obtain ⟨far, hadmitted, hfar⟩ := htracks.admitted_eq
      rw [hadmitted, List.mem_append, List.mem_append] at hmem
      rcases hmem with (hmem | hmem) | hmem
      · linarith [hfar time hmem]
      · have hbefore := htracks.lastBefore time (List.mem_of_mem_take hmem)
        exact hbefore.le.trans hstart
      · exact (htracks.inside time (List.mem_of_mem_take hmem)).2.2

end Key

/-! ## The runs -/

theorem isRateLimited_iff {tracker : ApiKeyUsageTracker}
    (hconfig : tracker.rateLimitConfig = some config) :
    tracker.isRateLimited keyId time = true ↔
      ∃ found, tracker.rateWindows.get keyId = some found ∧
        time - found.windowStart ≤ config.windowMs ∧
          config.maxRequests ≤ found.count := by
  rw [isRateLimited, hconfig]
  cases hget : tracker.rateWindows.get keyId with
  | none => simp
  | some found =>
      by_cases hover : time - found.windowStart > config.windowMs
      · simp only [if_pos hover, Bool.false_eq_true, Option.some.injEq,
          exists_eq_left', not_le.mpr hover, false_and]
      · simp only [if_neg hover, decide_eq_true_iff, Option.some.injEq,
          exists_eq_left', not_lt.mp hover, true_and, ge_iff_le]

/-- The two kinds of steps: a request is turned down, or it is let in. -/
theorem step_cases (hstep : step state request = some next) :
    state.now ≤ request.time ∧
      ((state.tracker.isRateLimited request.keyId request.time = true ∧
          next = { state with now := request.time }) ∨
        (state.tracker.isRateLimited request.keyId request.time = false ∧
          next =
            { tracker := state.tracker.incrementRateCounter request.keyId
                request.time
              now := request.time
              admitted := Function.update state.admitted request.keyId
                (state.admitted request.keyId ++ [request.time]) })) := by
  rw [step, Option.ite_none_right_eq_some] at hstep
  obtain ⟨hle, hnext⟩ := hstep
  refine ⟨hle, ?_⟩
  split at hnext
  · rename_i hlimited
    exact .inl ⟨hlimited, (Option.some.inj hnext).symm⟩
  · rename_i hfree
    exact .inr ⟨Bool.eq_false_of_not_eq_true hfree,
      (Option.some.inj hnext).symm⟩


/-- Each key has kept to the limit so far if and only if its requests are
spaced. -/
structure Invariant (config : RateLimitConfig) (requests : List Request)
    (state : State) : Prop where
  config_eq : state.tracker.rateLimitConfig = some config
  keys : ∀ keyId, KeyInvariant config state.now
    (state.tracker.rateWindows.get keyId) (state.admitted keyId)
      (windowsOf config.windowMs (timesOf requests keyId))
  limit : ∀ keyId,
    (∀ start, within config.windowMs start (state.admitted keyId) ≤
      config.maxRequests) ↔ Spaced config (timesOf requests keyId)

theorem Invariant.initial (config : RateLimitConfig) (now : ℚ) :
    Invariant config [] (.initial config now) :=
  ⟨rfl, fun _ => ⟨rfl, rfl⟩, fun _ =>
    iff_of_true (fun _ => Nat.zero_le _) .nil⟩

theorem Invariant.step (hinv : Invariant config requests state)
    (hwindow : 0 ≤ config.windowMs) (hpos : 1 ≤ config.maxRequests)
    (hstep : ApiKeyUsageTracker.step state request = some next) :
    Invariant config (requests ++ [request]) next := by
  have hkey := hinv.keys request.keyId
  obtain ⟨hle, ⟨hlimited, rfl⟩ | ⟨hfree, rfl⟩⟩ := step_cases hstep
  · obtain ⟨found, hget, hinside, hfull⟩ :=
      (isRateLimited_iff hinv.config_eq).mp hlimited
    obtain ⟨hnext, hspaced⟩ := hkey.turnDown hle hget hinside hfull
    refine ⟨hinv.config_eq, fun keyId => ?_, fun keyId => ?_⟩
    · rw [timesOf_concat]
      split
      · rename_i heq
        rw [← heq, windowsOf_concat]
        exact hnext
      · exact (hinv.keys keyId).mono hle
    · rw [timesOf_concat]
      split
      · rename_i heq
        rw [Spaced, windowsOf_concat, ← heq, hspaced]
        exact hinv.limit request.keyId
      · exact hinv.limit keyId
  · have hroom : ∀ found,
        state.tracker.rateWindows.get request.keyId = some found →
          request.time - found.windowStart ≤ config.windowMs →
            found.count < config.maxRequests := by
      intro found hget hinside
      by_contra hfull
      rw [(isRateLimited_iff hinv.config_eq).mpr
        ⟨found, hget, hinside, not_lt.mp hfull⟩] at hfree
      cases hfree
    obtain ⟨hnext, hspaced⟩ := hkey.letIn hwindow hpos hle hroom
    refine ⟨?_, fun keyId => ?_, fun keyId => ?_⟩
    · rw [incrementRateCounter, hinv.config_eq]
    · simp only [incrementRateCounter, hinv.config_eq]
      rw [timesOf_concat, InsertionMap.get_set]
      by_cases heq : request.keyId = keyId
      · subst heq
        rw [if_pos rfl, if_pos rfl, Function.update_self, windowsOf_concat]
        exact hnext
      · rw [if_neg heq, if_neg (Ne.symm heq),
          Function.update_of_ne (Ne.symm heq)]
        exact (hinv.keys keyId).mono hle
    · rw [timesOf_concat]
      dsimp only
      by_cases heq : request.keyId = keyId
      · subst heq
        rw [if_pos rfl, Function.update_self, Spaced, windowsOf_concat,
          hspaced, forall_within_concat_iff hwindow fun time hmem =>
            (hkey.le hwindow time hmem).trans hle, hinv.limit]
        rfl
      · rw [if_neg heq, Function.update_of_ne (Ne.symm heq)]
        exact hinv.limit keyId

theorem Invariant.run (hwindow : 0 ≤ config.windowMs)
    (hpos : 1 ≤ config.maxRequests)
    (hrun : exec ApiKeyUsageTracker.step (.initial config now) requests =
      some state) : Invariant config requests state := by
  induction requests using List.reverseRecOn generalizing state with
  | nil =>
      cases hrun
      exact .initial config now
  | append_singleton requests request ih =>
      obtain ⟨middle, hbefore, hlast⟩ := exec_append_eq_some.mp hrun
      exact (ih hbefore).step hwindow hpos (exec_singleton_eq_some.mp hlast)

theorem within_le_of_step (hstep : step state request = some next)
    (keyId : String) (start : ℚ) :
    within windowMs start (state.admitted keyId) ≤
      within windowMs start (next.admitted keyId) := by
  obtain ⟨-, ⟨-, rfl⟩ | ⟨-, rfl⟩⟩ := step_cases hstep
  · exact le_rfl
  · dsimp only
    by_cases heq : keyId = request.keyId
    · subst heq
      rw [Function.update_self, within, within, List.countP_append]
      exact Nat.le_add_right _ _
    · rw [Function.update_of_ne heq]

/-- In a run every state keeps to the limit if and only if the requests of each
key, let in or not, are spaced. -/
theorem slidingWindow_iff (config : RateLimitConfig)
    (hpos : 1 ≤ config.maxRequests) (hwindow : 1 ≤ config.windowMs) (now : ℚ)
    (requests : List Request) (state : State)
    (hrun : exec step (.initial config now) requests = some state) :
    Throughout step (SlidingWindow config) (.initial config now) requests ↔
      ∀ keyId, Spaced config (timesOf requests keyId) := by
  have hinv := Invariant.run (zero_le_one.trans hwindow) hpos hrun
  rw [throughout_iff_last (fun _ _ _ hstep hlaw keyId start =>
    (within_le_of_step hstep keyId start).trans (hlaw keyId start)) hrun]
  exact forall_congr' hinv.limit

def twoPerSecond : RateLimitConfig := ⟨2, 1000⟩

/-- Requests at the start and at the end of a window. -/
def bothEnds : List Request := [⟨"key", 0⟩, ⟨"key", 1000⟩]

/-- Two more, each far enough from its counterpart. -/
def calm : List Request := [⟨"key", 1500⟩, ⟨"key", 2500⟩]

/-- Two more right after the window. -/
def burst : List Request := [⟨"key", 1001⟩, ⟨"key", 1002⟩]

theorem spaced_calm (keyId : String) :
    Spaced twoPerSecond (timesOf (bothEnds ++ calm) keyId) := by
  by_cases heq : "key" = keyId
  · subst heq
    decide +kernel
  · have hnone : timesOf (bothEnds ++ calm) keyId = [] := by
      simp [timesOf, bothEnds, calm, heq]
    rw [hnone]
    exact .nil

theorem slidingWindow_iff_samples :
    Throughout step (SlidingWindow twoPerSecond) (.initial twoPerSecond 0)
      (bothEnds ++ calm) ∧
    ¬ Throughout step (SlidingWindow twoPerSecond) (.initial twoPerSecond 0)
      (bothEnds ++ burst) := by
  have hwindow : 1 ≤ twoPerSecond.windowMs := by norm_num [twoPerSecond]
  constructor
  · have hsome :
        (exec step (.initial twoPerSecond 0) (bothEnds ++ calm)).isSome := by
      decide +kernel
    obtain ⟨state, hrun⟩ := Option.isSome_iff_exists.mp hsome
    exact (slidingWindow_iff twoPerSecond (by decide) hwindow 0
      (bothEnds ++ calm) state hrun).mpr spaced_calm
  · have hsome :
        (exec step (.initial twoPerSecond 0) (bothEnds ++ burst)).isSome := by
      decide +kernel
    obtain ⟨state, hrun⟩ := Option.isSome_iff_exists.mp hsome
    rw [slidingWindow_iff twoPerSecond (by decide) hwindow 0
      (bothEnds ++ burst) state hrun]
    exact fun hspaced => absurd (hspaced "key") (by decide +kernel)

/-- Three requests are let in within two milliseconds. -/
theorem admits_burst :
    ∃ state : State,
      exec step (.initial twoPerSecond 0) (bothEnds ++ burst) = some state ∧
      within 1000 1000 (state.admitted "key") = 3 ∧
      ¬ SlidingWindow twoPerSecond state := by
  have hend : (exec step (.initial twoPerSecond 0) (bothEnds ++ burst)).any
      (fun state => decide (within 1000 1000 (state.admitted "key") = 3)) =
        true := by
    decide +kernel
  obtain ⟨state, hrun, hcount⟩ := (Option.any_eq_true _ _).mp hend
  have hthree := of_decide_eq_true hcount
  refine ⟨state, hrun, hthree, fun hlaw => ?_⟩
  have hbound := hlaw "key" 1000
  rw [twoPerSecond, hthree] at hbound
  exact absurd hbound (by decide)

end ApiKeyUsageTracker

end TsCommons.Security
