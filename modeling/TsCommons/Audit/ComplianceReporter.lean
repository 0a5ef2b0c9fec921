import TsCommons.Audit.AuditService
import Mathlib.Algebra.BigOperators.Group.List.Lemmas

/-!
# Compliance reports

A report counts the entries of a period by action, user and resource.  The
counts are properties of plain objects, which begin as what the objects
inherit: a name such as `constructor` is not counted from zero.
-/

namespace TsCommons.Audit

open Foundations

variable {V : Type}

/-- What a property holds: a number, or a text once something that is no
number was added to. -/
inductive Count
  | number (n : ℕ)
  | text (value : String)
deriving DecidableEq

def Count.succ : Count → Count
  | .number n => .number (n + 1)
  | .text value => .text (value ++ "1")

/-- `inherited` are the texts of the properties of `Object.prototype`.  What
is assigned to `__proto__` is ignored, as it is no object. -/
def increment (inherited : String → Option String)
    (counts : InsertionMap String Count) (key : String) :
    InsertionMap String Count :=
  let old := (counts.get key).or ((inherited key).map Count.text)
  if key = "__proto__" then counts
  else counts.set key (old.getD (.number 0)).succ

/-- The loop over the keys. -/
def tally (inherited : String → Option String) (keys : List String) :
    InsertionMap String Count :=
  keys.foldl (increment inherited) .empty

structure Period where
  start : ℕ
  stop : ℕ
deriving DecidableEq

structure ComplianceReport where
  generatedAt : ℕ
  period : Period
  totalEvents : ℕ
  byAction : InsertionMap String Count
  byUser : InsertionMap String Count
  byResource : InsertionMap String Count
deriving DecidableEq

namespace ComplianceReporter

def generate (inherited : String → Option String) (now : ℕ)
    (logs : List (AuditLog V)) (period : Period) : ComplianceReport :=
  let counts := logs.foldl
    (fun counts log =>
      (increment inherited counts.1 log.action,
        increment inherited counts.2.1 log.userId,
        increment inherited counts.2.2 log.resource))
    (.empty, .empty, .empty)
  ⟨now, period, logs.length, counts.1, counts.2.1, counts.2.2⟩

def generateFromStorage (inherited : String → Option String) (now : ℕ)
    (storage : InMemoryAuditStorage V) (period : Period) :
    ComplianceReport :=
  let logs := storage.query
    { fromDate := some period.start, toDate := some period.stop }
  generate inherited now logs period

end ComplianceReporter

/-! ## What is counted -/

def ones (n : ℕ) : String := String.ofList (List.replicate n '1')

theorem append_ones_append (text : String) (n : ℕ) :
    text ++ ones n ++ "1" = text ++ ones (n + 1) := by
  rw [String.append_assoc]
  congr 1
  apply String.toList_inj.mp
  simp only [ones, String.toList_append, String.toList_ofList,
    List.replicate_succ']
  rfl

/-- What `n` of a key come to. -/
def countOf (inherited : String → Option String) (key : String) (n : ℕ) :
    Option Count :=
  if n = 0 then none
  else
    match inherited key with
    | none => some (.number n)
    | some text => some (.text (text ++ ones n))

/-- No object inherits a property under the key. -/
def Plain (inherited : String → Option String) (key : String) : Prop :=
  inherited key = none ∧ key ≠ "__proto__"

instance (inherited : String → Option String) :
    DecidablePred (Plain inherited) :=
  fun key => inferInstanceAs (Decidable (inherited key = none ∧ _))

/-- A key that no object inherits is counted, one that all objects inherit
gets a one behind its text for each time, and `__proto__` is left out.  The
numbers add up to those of the keys that no object inherits. -/
structure TallyLaw (inherited : String → Option String) (keys : List String)
    (counts : InsertionMap String Count) : Prop where
  get_eq : ∀ key, key ≠ "__proto__" →
    counts.get key = countOf inherited key (keys.count key)
  dropped : counts.get "__proto__" = none
  total : (counts.values.map fun
      | .number n => n
      | .text _ => 0).sum = keys.countP (Plain inherited)

variable {inherited : String → Option String} {keys : List String}
  {key : String}

theorem succ_countOf (inherited : String → Option String) (key : String)
    (n : ℕ) :
    some (((countOf inherited key n).or
      ((inherited key).map Count.text)).getD (.number 0)).succ =
        countOf inherited key (n + 1) := by
  cases hinherited : inherited key with
  | none =>
      cases n with
      | zero => simp [countOf, hinherited, Count.succ]
      | succ n => simp [countOf, hinherited, Count.succ]
  | some text =>
      cases n with
      | zero => simp [countOf, hinherited, Count.succ, ones]
      | succ n => simp [countOf, hinherited, Count.succ, append_ones_append]

theorem get_increment_of_ne (counts : InsertionMap String Count)
    {other : String} (hne : key ≠ other) :
    (increment inherited counts other).get key = counts.get key := by
  rw [increment]
  split
  next => rfl
  next => exact InsertionMap.get_set_of_ne _ _ hne

theorem get_tally (hkey : key ≠ "__proto__") :
    (tally inherited keys).get key =
      countOf inherited key (keys.count key) := by
  induction keys using List.reverseRecOn with
  | nil => rfl
  | append_singleton keys last ih =>
      rw [tally, List.foldl_concat, ← tally, List.count_append]
      by_cases hlast : key = last
      · subst hlast
        rw [increment, if_neg hkey, InsertionMap.get_set_self, ih,
          List.count_singleton_self, succ_countOf]
      · have hzero : [last].count key = 0 :=
          List.count_eq_zero_of_not_mem (by simpa using hlast)
        rw [get_increment_of_ne _ hlast, ih, hzero, Nat.add_zero]

theorem get_tally_proto :
    (tally inherited keys).get "__proto__" = none := by
  induction keys using List.reverseRecOn with
  | nil => rfl
  | append_singleton keys last ih =>
      rw [tally, List.foldl_concat, ← tally]
      by_cases hlast : last = "__proto__"
      · rw [increment, if_pos hlast, ih]
      · rw [get_increment_of_ne _ (Ne.symm hlast), ih]

theorem mem_keys_tally :
    key ∈ (tally inherited keys).keys ↔ key ∈ keys ∧ key ≠ "__proto__" := by
  rw [InsertionMap.mem_keys_iff]
  by_cases hproto : key = "__proto__"
  · rw [hproto, get_tally_proto]
    exact iff_of_false Bool.false_ne_true fun hboth => hboth.2 rfl
  · rw [get_tally hproto, countOf, and_iff_left hproto]
    by_cases hzero : keys.count key = 0
    · rw [if_pos hzero]
      exact iff_of_false Bool.false_ne_true (List.count_eq_zero.mp hzero)
    · rw [if_neg hzero]
      have hmem := List.count_pos_iff.mp (Nat.pos_of_ne_zero hzero)
      refine iff_of_true ?_ hmem
      split <;> rfl

theorem sum_map_ite_zero (P : String → Prop) [DecidablePred P]
    (count : String → ℕ) (keys : List String) :
    (keys.map fun key => if P key then count key else 0).sum =
      ((keys.filter P).map count).sum := by
  induction keys with
  | nil => rfl
  | cons first rest ih =>
      rw [List.map_cons, List.sum_cons, ih, List.filter_cons]
      by_cases hfirst : P first
      · rw [if_pos hfirst, if_pos (decide_eq_true hfirst), List.map_cons,
          List.sum_cons]
      · rw [if_neg hfirst, if_neg (by simpa using hfirst), Nat.zero_add]

/-- The counts of keys that nothing inherits add up. -/
theorem sum_values_tally :
    ((tally inherited keys).values.map fun
      | .number n => n
      | .text _ => 0).sum = keys.countP (Plain inherited) := by
  have hvalues : ((tally inherited keys).values.map fun
      | .number n => n
      | .text _ => 0) = (tally inherited keys).keys.map fun key =>
        if Plain inherited key then keys.count key else 0 := by
    rw [InsertionMap.values, InsertionMap.keys, List.map_map, List.map_map]
    apply List.map_congr_left
    intro entry hentry
    have hget := InsertionMap.get_eq_some_iff.mpr hentry
    have hproto : entry.1 ≠ "__proto__" := by
      intro heq
      rw [heq, get_tally_proto] at hget
      cases hget
    rw [get_tally hproto, countOf] at hget
    split at hget
    next => cases hget
    next =>
      simp only [Function.comp_apply]
      cases hinherited : inherited entry.1 with
      | none =>
          rw [hinherited, Option.some.injEq] at hget
          rw [← hget, if_pos ⟨hinherited, hproto⟩]
      | some text =>
          rw [hinherited, Option.some.injEq] at hget
          have hnot : ¬ Plain inherited entry.1 := by
            intro hplain
            rw [hplain.1] at hinherited
            cases hinherited
          rw [← hget, if_neg hnot]
  have hperm : ((tally inherited keys).keys.filter (Plain inherited)).Perm
      (keys.dedup.filter (Plain inherited)) := by
    apply (List.perm_ext_iff_of_nodup
      ((tally inherited keys).nodup.filter _)
      ((List.nodup_dedup keys).filter _)).mpr
    intro key
    rw [List.mem_filter, List.mem_filter, List.mem_dedup]
    refine and_congr_left fun hplain => ?_
    exact mem_keys_tally.trans
      (and_iff_left (of_decide_eq_true hplain).2)
  rw [hvalues, sum_map_ite_zero, (hperm.map _).sum_eq]
  exact List.sum_map_count_dedup_filter_eq_countP _ keys

theorem tallyLaw_tally (inherited : String → Option String)
    (keys : List String) :
    TallyLaw inherited keys (tally inherited keys) :=
  ⟨fun _ => get_tally, get_tally_proto, sum_values_tally⟩

theorem foldl_counts (logs : List (AuditLog V))
    (counts : InsertionMap String Count × InsertionMap String Count ×
      InsertionMap String Count) :
    logs.foldl
      (fun counts log =>
        (increment inherited counts.1 log.action,
          increment inherited counts.2.1 log.userId,
          increment inherited counts.2.2 log.resource)) counts =
      ((logs.map AuditLog.action).foldl (increment inherited) counts.1,
        (logs.map AuditLog.userId).foldl (increment inherited) counts.2.1,
        (logs.map AuditLog.resource).foldl (increment inherited)
          counts.2.2) := by
  induction logs generalizing counts with
  | nil => rfl
  | cons log rest ih => rw [List.foldl_cons, ih]; rfl

theorem matchesLog_period (log : AuditLog V) (period : Period) :
    matchesLog log
        { fromDate := some period.start, toDate := some period.stop } =
      decide (period.start ≤ log.timestamp ∧
        log.timestamp ≤ period.stop) := by
  by_cases hstart : log.timestamp < period.start
  · have hnot : ¬ period.start ≤ log.timestamp := by omega
    simp [matchesLog, matchesScalar, matchesDateRange, hstart, hnot]
  · have hle : period.start ≤ log.timestamp := by omega
    by_cases hstop : period.stop < log.timestamp
    · have hnot : ¬ log.timestamp ≤ period.stop := by omega
      simp [matchesLog, matchesScalar, matchesDateRange, hstart, hstop, hnot]
    · have hge : log.timestamp ≤ period.stop := by omega
      simp [matchesLog, matchesScalar, matchesDateRange, hstart, hstop, hle,
        hge]

/-- A report of a period counts the entries that the storage has of it. -/
theorem report_law (inherited : String → Option String) (now : ℕ)
    (storage : InMemoryAuditStorage V) (period : Period) :
    let logs := storage.logs.filter fun log =>
      period.start ≤ log.timestamp ∧ log.timestamp ≤ period.stop
    let report := ComplianceReporter.generateFromStorage inherited now storage
      period
    report.totalEvents = logs.length ∧
      TallyLaw inherited (logs.map AuditLog.action) report.byAction ∧
      TallyLaw inherited (logs.map AuditLog.userId) report.byUser ∧
      TallyLaw inherited (logs.map AuditLog.resource) report.byResource := by
  intro logs report
  have hlogs : storage.query
      { fromDate := some period.start, toDate := some period.stop } =
        logs := by
    refine (slice_zero _).trans ?_
    apply List.filter_congr
    intro log _
    exact matchesLog_period log period
  have hreport : report = ComplianceReporter.generate inherited now logs
      period := by
    rw [← hlogs]
    rfl
  rw [hreport, ComplianceReporter.generate, foldl_counts]
  exact ⟨rfl, tallyLaw_tally _ _, tallyLaw_tally _ _, tallyLaw_tally _ _⟩

end TsCommons.Audit
