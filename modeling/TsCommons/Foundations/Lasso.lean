import Mathlib.Data.List.Chain
import Mathlib.Data.List.Nodup
import Mathlib.Logic.Relation
import Mathlib.Tactic.Common

/-!
# Walks that lead into a cycle

In a graph whose nodes have a list of successors, a walk that always goes to
the first successor from which a cycle can be reached comes back to one of its
nodes.  Up to there it is a lasso: a way to a cycle, and the cycle.
-/

namespace TsCommons.Foundations

open Relation

variable {α : Type*}

section Leads

variable {successors : α → List α} {node other : α}

def Edge (successors : α → List α) (node other : α) : Prop :=
  other ∈ successors node

/-- A cycle can be reached from the node. -/
def Leads (successors : α → List α) (node : α) : Prop :=
  ∃ other, ReflTransGen (Edge successors) node other ∧
    TransGen (Edge successors) other other

theorem Leads.of_edge (hedge : Edge successors node other)
    (hleads : Leads successors other) : Leads successors node := by
  obtain ⟨last, hreach, hcycle⟩ := hleads
  exact ⟨last, ReflTransGen.head hedge hreach, hcycle⟩

theorem Leads.of_transGen (hcycle : TransGen (Edge successors) node node) :
    Leads successors node :=
  ⟨node, .refl, hcycle⟩

/-- A cycle can be reached through one of the successors. -/
theorem leads_iff :
    Leads successors node ↔
      ∃ other ∈ successors node, Leads successors other := by
  constructor
  · rintro ⟨last, hreach, hcycle⟩
    rcases ReflTransGen.cases_head hreach with rfl | ⟨other, hedge, hrest⟩
    · obtain ⟨other, hedge, hback⟩ := TransGen.head'_iff.mp hcycle
      exact ⟨other, hedge, node, hback, hcycle⟩
    · exact ⟨other, hedge, last, hrest, hcycle⟩
  · rintro ⟨other, hedge, hleads⟩
    exact hleads.of_edge hedge

theorem transGen_of_isChain {R : α → α → Prop} {first last : α}
    {middle : List α} (hchain : (first :: (middle ++ [last])).IsChain R) :
    TransGen R first last := by
  induction middle generalizing first with
  | nil => exact .single (List.isChain_cons_cons.mp hchain).1
  | cons second rest ih =>
      obtain ⟨hfirst, hrest⟩ := List.isChain_cons_cons.mp hchain
      exact .head hfirst (ih hrest)

/-- A walk that comes back to one of its nodes has gone along a cycle. -/
theorem leads_of_isChain {path : List α}
    (hchain : (path ++ [node]).IsChain (Edge successors))
    (hmem : node ∈ path) : Leads successors node := by
  obtain ⟨before, after, rfl⟩ := List.append_of_mem hmem
  rw [List.append_assoc, List.cons_append] at hchain
  exact .of_transGen
    (transGen_of_isChain (List.isChain_split.mp hchain).2)

open Classical in
/-- The first of the nodes from which a cycle can be reached. -/
noncomputable def firstLeading (successors : α → List α)
    (nodes : List α) : Option α :=
  nodes.find? fun node => decide (Leads successors node)

theorem firstLeading_cons_of_leads (hleads : Leads successors node)
    (rest : List α) :
    firstLeading successors (node :: rest) = some node := by
  rw [firstLeading, List.find?_cons_of_pos (by simpa using hleads)]

theorem firstLeading_cons_of_not_leads (hnot : ¬ Leads successors node)
    (rest : List α) :
    firstLeading successors (node :: rest) =
      firstLeading successors rest := by
  rw [firstLeading, List.find?_cons_of_neg (by simpa using hnot),
    firstLeading]

open Classical in
theorem edge_of_firstLeading
    (hfirst : firstLeading successors (successors node) = some other) :
    Edge successors node other ∧ Leads successors other := by
  rw [firstLeading] at hfirst
  have hleads := List.find?_some hfirst
  exact ⟨List.mem_of_find?_eq_some hfirst, of_decide_eq_true hleads⟩

open Classical in
theorem not_leads_of_firstLeading
    (hnone : firstLeading successors (successors node) = none) :
    ¬ Leads successors node := by
  rw [firstLeading, List.find?_eq_none] at hnone
  rw [leads_iff]
  rintro ⟨other, hother, hleads⟩
  exact hnone other hother (decide_eq_true hleads)

end Leads

/-! ## Lassos -/

/-- The nodes that the walk `next` visits from `node` before it comes back to
one of them or to one of `path`. -/
inductive Lasso (next : α → Option α) : List α → α → List α → Prop
  | closes {path : List α} {node : α} (hmem : node ∈ path) :
      Lasso next path node []
  | goes {path rest : List α} {node other : α} (hfresh : node ∉ path)
      (hnext : next node = some other)
      (hrest : Lasso next (path ++ [node]) other rest) :
      Lasso next path node (node :: rest)

namespace Lasso

variable {next : α → Option α} {path rest other : List α} {node second : α}

theorem unique (hlasso : Lasso next path node rest)
    (hother : Lasso next path node other) : rest = other := by
  induction hlasso generalizing other with
  | closes hmem =>
      cases hother with
      | closes => rfl
      | goes hfresh => exact absurd hmem hfresh
  | goes hfresh hnext _ ih =>
      cases hother with
      | closes hmem => exact absurd hmem hfresh
      | goes _ hnext' hrest' =>
          rw [hnext, Option.some.injEq] at hnext'
          subst hnext'
          rw [ih hrest']

theorem nodup (hlasso : Lasso next path node rest) (hpath : path.Nodup) :
    (path ++ rest).Nodup := by
  induction hlasso with
  | closes hmem =>
      rw [List.append_nil]
      exact hpath
  | goes hfresh _ _ ih =>
      rw [List.append_cons]
      apply ih
      rw [← List.concat_eq_append]
      exact List.Nodup.concat hfresh hpath

theorem head?_eq (hlasso : Lasso next path node rest) :
    ∀ first ∈ rest.head?, first = node := by
  cases hlasso with
  | closes => simp
  | goes => simp

theorem isChain (hlasso : Lasso next path node rest) :
    rest.IsChain fun first second => next first = some second := by
  induction hlasso with
  | closes => exact List.isChain_nil
  | goes _ hnext hrest ih =>
      apply ih.cons
      intro first hfirst
      rw [hnext, hrest.head?_eq first hfirst]

/-- A lasso of one node only is a loop. -/
theorem two_le_length_iff (hlasso : Lasso next [] node rest) :
    2 ≤ rest.length ↔ ∃ second, next node = some second ∧ second ≠ node := by
  cases hlasso with
  | closes hmem => cases hmem
  | @goes _ rest _ second _ hnext hrest =>
      rw [hnext]
      cases hrest with
      | closes hmem =>
          have heq : second = node := by simpa using hmem
          simp [heq]
      | goes hfresh =>
          have hne : second ≠ node := by simpa using hfresh
          simp [hne]

end Lasso

end TsCommons.Foundations
