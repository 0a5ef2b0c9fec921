import Mathlib.Data.List.Chain
import Mathlib.Data.List.Induction
import Mathlib.Data.List.Nodup
import Mathlib.Tactic.Common

/-!
# Chains of a relation without branches

Where no element has two successors, a list without duplicates in which every
element but the first has a predecessor before it is a chain, and there is
only one chain from an element to one that has no successor.
-/

namespace TsCommons.Foundations

variable {α : Type*} {R : α → α → Prop} {xs ys : List α}

/-- No element of the list has two successors. -/
def Unbranched (R : α → α → Prop) (xs : List α) : Prop :=
  ∀ a ∈ xs, ∀ b ∈ xs, ∀ c ∈ xs, R a b → R a c → b = c

theorem Unbranched.mono (hunbranched : Unbranched R ys)
    (hsub : ∀ a ∈ xs, a ∈ ys) : Unbranched R xs :=
  fun a ha b hb c hc =>
    hunbranched a (hsub a ha) b (hsub b hb) c (hsub c hc)

theorem isChain_of_unbranched (hunbranched : Unbranched R xs)
    (hnodup : xs.Nodup)
    (hpred : ∀ before b after, xs = before ++ b :: after → before ≠ [] →
      ∃ a ∈ before, R a b) :
    xs.IsChain R := by
  induction xs using List.reverseRecOn with
  | nil => exact List.isChain_nil
  | append_singleton xs last ih =>
      have hinit : xs.IsChain R := by
        refine ih (hunbranched.mono fun a ha => List.mem_append_left _ ha)
          (List.nodup_append.mp hnodup).1 ?_
        intro before b after hxs
        apply hpred before b (after ++ [last])
        rw [hxs, List.append_assoc, List.cons_append]
      refine List.isChain_append.mpr
        ⟨hinit, List.isChain_singleton last, fun a ha other hother => ?_⟩
      rw [List.head?_singleton, Option.mem_some_iff] at hother
      subst hother
      have hne : xs ≠ [] := by
        rintro rfl
        cases ha
      obtain ⟨pred, hmem, hrel⟩ := hpred xs last [] rfl hne
      obtain ⟨before, after, rfl⟩ := List.append_of_mem hmem
      cases after with
      | nil =>
          rw [List.getLast?_concat, Option.mem_some_iff] at ha
          exact ha ▸ hrel
      | cons next after =>
          have hnext : R pred next :=
            (List.isChain_append_cons_cons.mp hinit).2.1
          have heq : next = last :=
            hunbranched pred (by simp) next (by simp) last (by simp) hnext hrel
          rw [heq] at hnodup
          simp [List.nodup_append] at hnodup

/-- A chain is known from its first element if its last has no successor. -/
theorem isChain_unique {zs : List α} (hunbranched : Unbranched R zs)
    (hxs : xs.IsChain R) (hys : ys.IsChain R)
    (hxsMem : ∀ a ∈ xs, a ∈ zs) (hysMem : ∀ a ∈ ys, a ∈ zs)
    (hhead : xs.head? = ys.head?)
    (hxsLast : ∀ a ∈ xs.getLast?, ∀ b ∈ zs, ¬ R a b)
    (hysLast : ∀ a ∈ ys.getLast?, ∀ b ∈ zs, ¬ R a b) : xs = ys := by
  induction xs generalizing ys with
  | nil => exact (List.head?_eq_none_iff.mp hhead.symm).symm
  | cons a xs ih =>
      obtain ⟨ys, rfl⟩ : ∃ rest, ys = a :: rest :=
        List.head?_eq_some_iff.mp hhead.symm
      have ha : a ∈ zs := hxsMem a List.mem_cons_self
      congr 1
      cases xs with
      | nil =>
          cases ys with
          | nil => rfl
          | cons c ys =>
              have hrel : R a c := (List.isChain_cons_cons.mp hys).1
              exact absurd hrel (hxsLast a rfl c (hysMem c (by simp)))
      | cons b xs =>
          have hb : b ∈ zs := hxsMem b (by simp)
          have hab : R a b := (List.isChain_cons_cons.mp hxs).1
          cases ys with
          | nil => exact absurd hab (hysLast a rfl b hb)
          | cons c ys =>
              have hc : c ∈ zs := hysMem c (by simp)
              have hac : R a c := (List.isChain_cons_cons.mp hys).1
              have heq : b = c := hunbranched a ha b hb c hc hab hac
              refine ih (List.isChain_cons_cons.mp hxs).2
                (List.isChain_cons_cons.mp hys).2
                (fun d hd => hxsMem d (List.mem_cons_of_mem a hd))
                (fun d hd => hysMem d (List.mem_cons_of_mem a hd))
                (congrArg some heq) ?_ ?_
              · rwa [List.getLast?_cons_cons] at hxsLast
              · rwa [List.getLast?_cons_cons] at hysLast

end TsCommons.Foundations
