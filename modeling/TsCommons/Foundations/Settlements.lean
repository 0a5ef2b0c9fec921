import Mathlib.Data.List.Nodup
import Mathlib.Tactic.Common

/-!
# Logs of settlements

The calls that settle numbered promises, in their order.  Items that wait for
one result each are settled in the order in which they stand.
-/

namespace TsCommons.Foundations

variable {α σ : Type*} {promise : ℕ} {number : α → ℕ}
  {settles : α → ℕ → List σ} {items : List α} {item : α}

/-- The calls that settle the promise. -/
def settlementsOf (promise : ℕ) (log : List (ℕ × σ)) : List σ :=
  (log.filter fun call => call.1 = promise).map Prod.snd

/-- The calls that settle the items from their positions, the first of which
is `start`. -/
def settleAll (number : α → ℕ) (settles : α → ℕ → List σ) (start : ℕ)
    (items : List α) : List (ℕ × σ) :=
  (items.zipIdx start).flatMap fun entry =>
    (settles entry.1 entry.2).map fun settlement =>
      (number entry.1, settlement)

theorem settlementsOf_append (promise : ℕ) (before after : List (ℕ × σ)) :
    settlementsOf promise (before ++ after) =
      settlementsOf promise before ++ settlementsOf promise after := by
  unfold settlementsOf
  rw [List.filter_append, List.map_append]

theorem settlementsOf_eq_nil {log : List (ℕ × σ)}
    (hother : ∀ call ∈ log, call.1 ≠ promise) :
    settlementsOf promise log = [] := by
  unfold settlementsOf
  rw [List.map_eq_nil_iff, List.filter_eq_nil_iff]
  intro call hcall
  simpa using hother call hcall

theorem settlementsOf_map_self (promise : ℕ) (settlements : List σ) :
    settlementsOf promise
        (settlements.map fun settlement => (promise, settlement)) =
      settlements := by
  unfold settlementsOf
  rw [List.filter_eq_self.mpr (by simp), List.map_map]
  exact List.map_id settlements

theorem mem_settleAll {start : ℕ} {call : ℕ × σ}
    (hcall : call ∈ settleAll number settles start items) :
    ∃ item ∈ items, number item = call.1 := by
  obtain ⟨entry, hentry, hmem⟩ := List.mem_flatMap.mp hcall
  obtain ⟨settlement, -, rfl⟩ := List.mem_map.mp hmem
  exact ⟨entry.1, List.fst_mem_of_mem_zipIdx hentry, rfl⟩

theorem settlementsOf_settleAll_of_not_mem {start : ℕ}
    (hnot : promise ∉ items.map number) :
    settlementsOf promise (settleAll number settles start items) = [] := by
  apply settlementsOf_eq_nil
  intro call hcall heq
  obtain ⟨item, hitem, hnumber⟩ := mem_settleAll hcall
  exact hnot (List.mem_map.mpr ⟨item, hitem, hnumber.trans heq⟩)

theorem settlementsOf_settleAll {start position : ℕ}
    (hdistinct : (items.map number).Nodup)
    (hitem : items[position]? = some item) :
    settlementsOf (number item) (settleAll number settles start items) =
      settles item (start + position) := by
  induction items generalizing start position with
  | nil => simp at hitem
  | cons first rest ih =>
      rw [List.map_cons, List.nodup_cons] at hdistinct
      have hsplit : settleAll number settles start (first :: rest) =
          (settles first start).map (fun settlement =>
            (number first, settlement)) ++
            settleAll number settles (start + 1) rest := rfl
      rw [hsplit, settlementsOf_append]
      cases position with
      | zero =>
          obtain rfl : first = item := by simpa using hitem
          rw [settlementsOf_map_self,
            settlementsOf_settleAll_of_not_mem hdistinct.1, List.append_nil,
            Nat.add_zero]
      | succ position =>
          have hrest : rest[position]? = some item := by simpa using hitem
          have hne : number first ≠ number item := by
            intro heq
            exact hdistinct.1 (List.mem_map.mpr
              ⟨item, List.mem_of_getElem? hrest, heq.symm⟩)
          have hnone : settlementsOf (number item) ((settles first start).map
              fun settlement => (number first, settlement)) = [] := by
            apply settlementsOf_eq_nil
            intro call hcall
            obtain ⟨settlement, -, rfl⟩ := List.mem_map.mp hcall
            exact hne
          rw [hnone, List.nil_append, ih hdistinct.2 hrest]
          congr 1
          omega

/-- Each item is settled once, with a value of its own. -/
theorem settleAll_singleton (value : α → σ) (start : ℕ) (items : List α) :
    settleAll number (fun item _ => [value item]) start items =
      items.map fun item => (number item, value item) := by
  induction items generalizing start with
  | nil => rfl
  | cons first rest ih =>
      have hsplit : settleAll number (fun item _ => [value item]) start
          (first :: rest) =
          (number first, value first) ::
            settleAll number (fun item _ => [value item]) (start + 1) rest :=
        rfl
      rw [hsplit, ih, List.map_cons]

/-! ## Groups without a common member -/

theorem not_mem_of_nodup_flatten {groups : List (List α)} {first second : ℕ}
    {group other : List α} (hnodup : groups.flatten.Nodup)
    (hgroup : groups[first]? = some group)
    (hother : groups[second]? = some other) (hne : first ≠ second)
    (hitem : item ∈ other) : item ∉ group := by
  have hpairs := List.pairwise_iff_getElem.mp (List.nodup_flatten.mp hnodup).2
  obtain ⟨hlt, rfl⟩ := List.getElem?_eq_some_iff.mp hgroup
  obtain ⟨hotherLt, rfl⟩ := List.getElem?_eq_some_iff.mp hother
  intro hmem
  rcases Nat.lt_or_gt_of_ne hne with hbefore | hafter
  · exact hpairs first second hlt hotherLt hbefore hmem hitem
  · exact hpairs second first hotherLt hlt hafter hitem hmem

/-- An entry is replaced by one with the same group. -/
theorem map_set_of_eq {β : Type*} {group : α → β} {position : ℕ} {other : α}
    (hget : items[position]? = some item) (hsame : group other = group item) :
    (items.set position other).map group = items.map group := by
  obtain ⟨hlt, rfl⟩ := List.getElem?_eq_some_iff.mp hget
  have hlength : position < (items.map group).length := by
    rw [List.length_map]
    exact hlt
  have hgroup : group items[position] = (items.map group)[position] :=
    (List.getElem_map group).symm
  rw [List.map_set, hsame, hgroup, List.set_getElem_self hlength]

end TsCommons.Foundations
