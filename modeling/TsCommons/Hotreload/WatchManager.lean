import TsCommons.Foundations.InsertionMap
import TsCommons.Hotreload.Glob
import Mathlib.Data.Rat.Defs

/-!
# The watch manager

An event that is not ignored is put into an entry for each pattern that its
path matches.  An entry collects the events of a path until none has come for
the debounce time of the pattern, and is handed out by a flush.  It is found
under the text of the glob and the path.
-/

namespace TsCommons.Hotreload

open Foundations

inductive WatchMode
  | compile
  | test
  | both
deriving DecidableEq

inductive WatchEventKind
  | add
  | change
  | remove
deriving DecidableEq

structure WatchEvent where
  path : Text
  kind : WatchEventKind
  timestamp : ℚ
deriving DecidableEq

structure WatchPattern where
  glob : Text
  mode : WatchMode
  debounceMs : ℚ
deriving DecidableEq

structure WatchConfig where
  patterns : List WatchPattern
  ignored : List Text

/-- The pattern stands with its index in the configuration, and an event with
its index in the event log, since there may be equal ones. -/
structure DebounceEntry where
  pattern : WatchPattern × ℕ
  events : List (WatchEvent × ℕ)
  scheduledAt : ℚ
deriving DecidableEq

/-- `text.includes(part)` -/
def includes (text part : Text) : Bool :=
  text.tails.any fun rest => part.isPrefixOf rest

def isIgnored (path : Text) (ignored : List Text) : Bool :=
  ignored.any fun ig => includes path ig

/-- The patterns that the path matches, or `none` where a glob throws. -/
def matchingPatterns (path : Text) :
    List (WatchPattern × ℕ) → Option (List (WatchPattern × ℕ))
  | [] => some []
  | pattern :: rest =>
      (matchesGlob path pattern.1.glob).bind fun found =>
        (matchingPatterns path rest).map fun others =>
          if found then pattern :: others else others

structure WatchManager where
  config : WatchConfig
  debounceMap : InsertionMap Text DebounceEntry
  eventLog : List WatchEvent

/-- `${pattern.glob}:${event.path}` -/
def debounceKey (pattern : WatchPattern) (path : Text) : Text :=
  pattern.glob ++ ':' :: path

/-- The event joins the entry under its key, or begins one. -/
def scheduleDebounce (event : WatchEvent × ℕ) (pattern : WatchPattern × ℕ)
    (now : ℚ) (debounceMap : InsertionMap Text DebounceEntry) :
    InsertionMap Text DebounceEntry :=
  let key := debounceKey pattern.1 event.1.path
  match debounceMap.get key with
  | some existing =>
      debounceMap.set key { existing with
        events := existing.events ++ [event]
        scheduledAt := now + pattern.1.debounceMs }
  | none =>
      debounceMap.set key
        ⟨pattern, [event], now + pattern.1.debounceMs⟩

namespace WatchManager

def create (config : WatchConfig) : WatchManager := ⟨config, .empty, []⟩

/-- The clock is read again for each pattern, `elapsed` after `now`.  The
result is `none` where a glob throws. -/
def receive (manager : WatchManager) (event : WatchEvent) (now : ℚ)
    (elapsed : ℕ → ℕ) :
    WatchManager × Option (List (WatchPattern × ℕ)) :=
  if isIgnored event.path manager.config.ignored then (manager, some [])
  else
    let logged := { manager with eventLog := manager.eventLog ++ [event] }
    match matchingPatterns event.path manager.config.patterns.zipIdx with
    | none => (logged, none)
    | some matched =>
        ({ logged with
          debounceMap := matched.foldl
            (fun debounceMap pattern =>
              scheduleDebounce (event, manager.eventLog.length) pattern
                (now + elapsed pattern.2) debounceMap)
            manager.debounceMap },
          some matched)

/-- The loop deletes no entry but the one it is at. -/
def flush (manager : WatchManager) (now : ℚ) :
    WatchManager × List DebounceEntry :=
  ({ manager with
    debounceMap :=
      manager.debounceMap.filter fun _ entry => !(entry.scheduledAt ≤ now) },
    manager.debounceMap.values.filter fun entry => entry.scheduledAt ≤ now)

end WatchManager

/-! ## Matching patterns -/

variable {path : Text} {patterns matched : List (WatchPattern × ℕ)}
  {pattern : WatchPattern × ℕ}

theorem matchingPatterns_cons_eq_some :
    matchingPatterns path (pattern :: patterns) = some matched ↔
      ∃ found others, matchesGlob path pattern.1.glob = some found ∧
        matchingPatterns path patterns = some others ∧
        matched = if found then pattern :: others else others := by
  simp only [matchingPatterns, Option.bind_eq_some_iff,
    Option.map_eq_some_iff]
  constructor
  · rintro ⟨found, hfound, others, hothers, rfl⟩
    exact ⟨found, others, hfound, hothers, rfl⟩
  · rintro ⟨found, others, hfound, hothers, rfl⟩
    exact ⟨found, hfound, others, hothers, rfl⟩

theorem mem_matchingPatterns
    (hmatched : matchingPatterns path patterns = some matched) :
    pattern ∈ matched ↔
      pattern ∈ patterns ∧ matchesGlob path pattern.1.glob = some true := by
  induction patterns generalizing matched with
  | nil =>
      cases hmatched
      simp
  | cons first rest ih =>
      obtain ⟨found, others, hfound, hothers, rfl⟩ :=
        matchingPatterns_cons_eq_some.mp hmatched
      cases found with
      | true =>
          rw [if_pos rfl, List.mem_cons, List.mem_cons, ih hothers,
            or_and_right]
          refine or_congr_left (iff_self_and.mpr ?_)
          rintro rfl
          exact hfound
      | false =>
          rw [if_neg Bool.false_ne_true, ih hothers, List.mem_cons,
            or_and_right, or_iff_right]
          rintro ⟨rfl, htrue⟩
          rw [hfound] at htrue
          cases htrue

theorem sublist_matchingPatterns
    (hmatched : matchingPatterns path patterns = some matched) :
    matched.Sublist patterns := by
  induction patterns generalizing matched with
  | nil =>
      cases hmatched
      exact .slnil
  | cons first rest ih =>
      obtain ⟨found, others, -, hothers, rfl⟩ :=
        matchingPatterns_cons_eq_some.mp hmatched
      cases found with
      | true => exact (ih hothers).cons_cons first
      | false => exact (ih hothers).cons first

end TsCommons.Hotreload
