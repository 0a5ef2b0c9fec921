import TsCommons.Foundations.InsertionSet

/-!
# Who has stayed longest

A history of arrivals and departures, the last one first.  A second arrival of
one who is there changes nothing.  The queue of those who are there stands in
the order in which they have come, so its head is the one who has stayed
longest.
-/

namespace TsCommons.Foundations

inductive Movement (κ : Type*)
  | arrive (key : κ)
  | leave (key : κ)
  | leaveAll
deriving DecidableEq

namespace Movement

variable {κ : Type*} [DecidableEq κ]

/-- Those who are there, in the order in which they have come. -/
def queue : List (Movement κ) → List κ
  | [] => []
  | .arrive key :: earlier => InsertionSet.place key (queue earlier)
  | .leave key :: earlier => (queue earlier).filter (· ≠ key)
  | .leaveAll :: _ => []

/-- The number of movements before the arrival after which the key has been
there all the time. -/
def arrivedAt (key : κ) : List (Movement κ) → Option ℕ
  | [] => none
  | .arrive other :: earlier =>
      if other = key then
        some ((arrivedAt key earlier).getD earlier.length)
      else arrivedAt key earlier
  | .leave other :: earlier =>
      if other = key then none else arrivedAt key earlier
  | .leaveAll :: _ => none

def ArrivedBefore (movements : List (Movement κ)) (first second : κ) : Prop :=
  ∃ early late, arrivedAt first movements = some early ∧
    arrivedAt second movements = some late ∧ early < late

variable {key other : κ} {movements : List (Movement κ)}

theorem arrivedAt_lt {time : ℕ} (htime : arrivedAt key movements = some time) :
    time < movements.length := by
  induction movements generalizing time with
  | nil => cases htime
  | cons movement earlier ih =>
      rw [List.length_cons]
      cases movement with
      | arrive other =>
          rw [arrivedAt] at htime
          split at htime
          · rw [Option.some.injEq] at htime
            subst time
            cases harrived : arrivedAt key earlier with
            | none => exact Nat.lt_succ_self _
            | some time => exact Nat.lt_succ_of_lt (ih harrived)
          · exact Nat.lt_succ_of_lt (ih htime)
      | leave other =>
          rw [arrivedAt] at htime
          split at htime
          · cases htime
          · exact Nat.lt_succ_of_lt (ih htime)
      | leaveAll => cases htime

theorem mem_queue_iff :
    key ∈ queue movements ↔ (arrivedAt key movements).isSome := by
  induction movements with
  | nil => simp [queue, arrivedAt]
  | cons movement earlier ih =>
      cases movement with
      | arrive other =>
          rw [queue, InsertionSet.mem_place, arrivedAt, ih]
          by_cases heq : other = key
          · simp [heq]
          · simp [heq, Ne.symm heq]
      | leave other =>
          rw [queue, List.mem_filter, arrivedAt, ih]
          by_cases heq : other = key
          · simp [heq]
          · simp [heq, Ne.symm heq]
      | leaveAll => simp [queue, arrivedAt]

theorem arrivedAt_arrive_of_mem (hmem : other ∈ queue movements) (key : κ) :
    arrivedAt key (.arrive other :: movements) = arrivedAt key movements := by
  rw [arrivedAt]
  split
  · rename_i heq
    subst heq
    obtain ⟨time, htime⟩ := Option.isSome_iff_exists.mp (mem_queue_iff.mp hmem)
    rw [htime, Option.getD_some]
  · rfl

theorem ArrivedBefore.congr {later : List (Movement κ)} {first second : κ}
    (hbefore : ArrivedBefore movements first second)
    (hfirst : arrivedAt first later = arrivedAt first movements)
    (hsecond : arrivedAt second later = arrivedAt second movements) :
    ArrivedBefore later first second := by
  obtain ⟨early, late, hearly, hlate, hlt⟩ := hbefore
  exact ⟨early, late, hfirst.trans hearly, hsecond.trans hlate, hlt⟩

/-- The queue stands in the order of the arrivals. -/
theorem pairwise_queue (movements : List (Movement κ)) :
    (queue movements).Pairwise (ArrivedBefore movements) := by
  induction movements with
  | nil => exact List.Pairwise.nil
  | cons movement earlier ih =>
      cases movement with
      | arrive key =>
          by_cases hmem : key ∈ queue earlier
          · rw [queue, InsertionSet.place, if_pos hmem]
            refine ih.imp fun hbefore => hbefore.congr ?_ ?_
            · exact arrivedAt_arrive_of_mem hmem _
            · exact arrivedAt_arrive_of_mem hmem _
          · have hstays : ∀ other ∈ queue earlier,
                arrivedAt other (.arrive key :: earlier) =
                  arrivedAt other earlier := by
              intro other hother
              have hne : key ≠ other := by
                rintro rfl
                exact hmem hother
              rw [arrivedAt, if_neg hne]
            have hnone : arrivedAt key earlier = none := by
              rw [← Option.not_isSome_iff_eq_none, ← mem_queue_iff]
              exact hmem
            rw [queue, InsertionSet.place, if_neg hmem, List.pairwise_append]
            refine ⟨?_, List.pairwise_singleton _ _, ?_⟩
            · refine ih.imp_of_mem fun hfirst hsecond hbefore => ?_
              exact hbefore.congr (hstays _ hfirst) (hstays _ hsecond)
            · intro other hother last hlast
              rw [List.mem_singleton] at hlast
              subst last
              obtain ⟨time, htime⟩ :=
                Option.isSome_iff_exists.mp (mem_queue_iff.mp hother)
              refine ⟨time, earlier.length, (hstays other hother).trans htime,
                ?_, arrivedAt_lt htime⟩
              rw [arrivedAt, if_pos rfl, hnone, Option.getD_none]
      | leave key =>
          have hstays : ∀ other ∈ (queue earlier).filter (· ≠ key),
              arrivedAt other (.leave key :: earlier) =
                arrivedAt other earlier := by
            intro other hother
            have hne : other ≠ key := by
              simpa using (List.mem_filter.mp hother).2
            rw [arrivedAt, if_neg (Ne.symm hne)]
          rw [queue]
          refine (ih.filter _).imp_of_mem fun hfirst hsecond hbefore => ?_
          exact hbefore.congr (hstays _ hfirst) (hstays _ hsecond)
      | leaveAll => exact List.Pairwise.nil

theorem queue_leaves (keys : List κ) (movements : List (Movement κ)) :
    queue (keys.map .leave ++ movements) =
      (queue movements).filter (· ∉ keys) := by
  induction keys with
  | nil => simp
  | cons key rest ih =>
      rw [List.map_cons, List.cons_append, queue, ih, List.filter_filter]
      apply List.filter_congr
      intro other _
      simp

/-- The head of the queue has stayed longest. -/
theorem arrivedBefore_of_head? {movements : List (Movement κ)}
    (hhead : (queue movements).head? = some key)
    (hother : other ∈ queue movements) (hne : other ≠ key) :
    ArrivedBefore movements key other := by
  have hsorted := pairwise_queue movements
  cases hqueue : queue movements with
  | nil =>
      rw [hqueue] at hhead
      cases hhead
  | cons first rest =>
      rw [hqueue] at hhead hother hsorted
      cases hhead
      rcases List.mem_cons.mp hother with heq | hrest
      · exact absurd heq hne
      · exact List.rel_of_pairwise_cons hsorted hrest

end Movement

end TsCommons.Foundations
