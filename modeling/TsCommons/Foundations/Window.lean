import Mathlib.Data.List.TakeWhile

/-!
# A bounded window over a list

A consumer that repeatedly takes the first few entries of a list that satisfy
a test sees, of an entry, either the entry itself or nothing but a full window
of entries before it.
-/

namespace TsCommons.Foundations

variable {α : Type*}

/-- Fewer entries pass a test that a passing entry has dropped out of. -/
theorem countP_lt_of_dropped {entry : α} {entries : List α}
    {smaller larger : α → Bool}
    (himp : ∀ other ∈ entries, smaller other = true → larger other = true)
    (hmem : entry ∈ entries) (hlarger : larger entry = true)
    (hsmaller : smaller entry = false) :
    entries.countP smaller < entries.countP larger := by
  obtain ⟨front, back, rfl⟩ := List.append_of_mem hmem
  have hfront : front.countP smaller ≤ front.countP larger :=
    List.countP_mono_left fun other hother =>
      himp other (List.mem_append_left _ hother)
  have hback : back.countP smaller ≤ back.countP larger :=
    List.countP_mono_left fun other hother =>
      himp other (List.mem_append_right _ (List.mem_cons_of_mem _ hother))
  simp only [List.countP_append, List.countP_cons, hlarger, hsmaller]
  simp only [if_true, Bool.false_eq_true, if_false]
  omega

variable [DecidableEq α]

/-- The entries before the first occurrence of one. -/
def before (entry : α) (entries : List α) : List α :=
  entries.takeWhile fun other => other ≠ entry

/-- The first entries, at most `limit` many, that satisfy the test. -/
def window (limit : ℕ) (test : α → Bool) (entries : List α) : List α :=
  (entries.filter test).take limit

theorem eq_before_append {entry : α} {entries : List α}
    (hmem : entry ∈ entries) :
    ∃ after, entries = before entry entries ++ entry :: after := by
  obtain ⟨front, after, rfl, hnot⟩ := List.eq_append_cons_of_mem hmem
  refine ⟨after, ?_⟩
  have hfront : before entry (front ++ entry :: after) = front := by
    rw [before, List.takeWhile_append_of_pos]
    · simp
    · intro other hother
      simpa using fun heq : other = entry => hnot (heq ▸ hother)
  rw [hfront]

theorem length_before_lt {entry : α} {entries : List α}
    (hmem : entry ∈ entries) :
    (before entry entries).length < entries.length := by
  obtain ⟨after, hafter⟩ := eq_before_append hmem
  have hlength := congrArg List.length hafter
  rw [List.length_append, List.length_cons] at hlength
  omega

theorem not_mem_before (entry : α) (entries : List α) :
    entry ∉ before entry entries := by
  intro hmem
  have hne := List.mem_takeWhile_imp hmem
  simp at hne

variable {limit : ℕ} {test : α → Bool} {entry : α} {entries : List α}

theorem filter_eq_before_append (hmem : entry ∈ entries)
    (htest : test entry = true) :
    ∃ after, entries.filter test =
      (before entry entries).filter test ++ entry :: after := by
  obtain ⟨after, hafter⟩ := eq_before_append hmem
  refine ⟨after.filter test, ?_⟩
  have hfilter := congrArg (List.filter test) hafter
  rw [List.filter_append, List.filter_cons_of_pos htest] at hfilter
  exact hfilter

/-- An entry that has fewer than `limit` passing entries before it is seen. -/
theorem mem_window_of_lt (hmem : entry ∈ entries) (htest : test entry = true)
    (hlt : (before entry entries).countP test < limit) :
    entry ∈ window limit test entries := by
  obtain ⟨after, hafter⟩ := filter_eq_before_append hmem htest
  rw [window, hafter, List.take_append, List.mem_append]
  right
  rw [List.countP_eq_length_filter] at hlt
  obtain ⟨room, hroom⟩ : ∃ room,
      limit - ((before entry entries).filter test).length = room + 1 :=
    ⟨limit - ((before entry entries).filter test).length - 1, by omega⟩
  rw [hroom, List.take_succ_cons]
  exact List.mem_cons_self

/-- With `limit` or more of them before it, only entries before it are seen. -/
theorem window_eq_of_le (hmem : entry ∈ entries) (htest : test entry = true)
    (hle : limit ≤ (before entry entries).countP test) :
    window limit test entries =
      ((before entry entries).filter test).take limit := by
  obtain ⟨after, hafter⟩ := filter_eq_before_append hmem htest
  rw [List.countP_eq_length_filter] at hle
  rw [window, hafter, List.take_append_of_le_length hle]

/-- Behind `limit` entries that pass the test, an entry is never seen. -/
theorem not_mem_window_of_le (hmem : entry ∈ entries)
    (htest : test entry = true)
    (hle : limit ≤ (before entry entries).countP test) :
    entry ∉ window limit test entries := by
  rw [window_eq_of_le hmem htest hle]
  intro hwindow
  have hbefore := List.mem_of_mem_take hwindow
  exact not_mem_before entry entries (List.mem_filter.mp hbefore).1

/-- With fewer than `limit` blocked entries before it, an entry is seen, or
one before it that is not blocked. -/
theorem mem_window_or_exists_before {blocked : α → Bool}
    (hmem : entry ∈ entries) (htest : test entry = true)
    (hblocked : (before entry entries).countP blocked < limit) :
    entry ∈ window limit test entries ∨
      ∃ other ∈ before entry entries,
        other ∈ window limit test entries ∧ blocked other = false := by
  by_cases hlt : (before entry entries).countP test < limit
  · exact .inl (mem_window_of_lt hmem htest hlt)
  · have hle := Nat.le_of_not_lt hlt
    have hwindow := window_eq_of_le hmem htest hle
    by_contra hnone
    rw [not_or, not_exists] at hnone
    have hall : ∀ other ∈ window limit test entries,
        blocked other = true := by
      intro other hother
      have hbefore := hother
      rw [hwindow] at hbefore
      have hfilter := List.mem_of_mem_take hbefore
      have hother' := hnone.2 other
      simpa [(List.mem_filter.mp hfilter).1, hother] using hother'
    have hlength : (window limit test entries).length = limit := by
      rw [hwindow, List.length_take, ← List.countP_eq_length_filter]
      omega
    have hcount : (window limit test entries).countP blocked = limit := by
      rw [List.countP_eq_length.mpr hall, hlength]
    have hsublist : (window limit test entries).Sublist
        (before entry entries) := by
      rw [hwindow]
      exact (List.take_sublist _ _).trans List.filter_sublist
    have hmono := hsublist.countP_le (p := blocked)
    omega

end TsCommons.Foundations
