import TsCommons.Hotreload.IncrementalCompiler
import TsCommons.Foundations.Since

/-!
# What a mark reaches

A file that is marked should make those files dirty that reach it through the
imports of their latest registrations.  The dependents of a registered file
miss none of these, but a file stays among them that was registered again
without the import.  A file without a registration has no dependents.
-/

namespace TsCommons.Hotreload.Invalidation

open Foundations

/-- A call of `register`. -/
structure Registration where
  file : String
  imports : List String
deriving DecidableEq

def registerAll (history : List Registration) : IncrementalCompiler :=
  history.foldl
    (fun compiler call => compiler.register call.file call.imports) .empty

/-- The imports of the latest registration of the file. -/
def latestImports (history : List Registration) (file : String) :
    Option (List String) :=
  (history.reverse.find? fun call => decide (call.file = file)).map
    Registration.imports

def Imports (history : List Registration) (file other : String) : Prop :=
  ∃ imports, latestImports history file = some imports ∧ other ∈ imports

/-- The file is the other one or reaches it through latest imports. -/
def Reaches (history : List Registration) (file other : String) : Prop :=
  Relation.ReflTransGen (Imports history) file other

/-- The file has imported the other one at some time since the latest
registration of that one. -/
def HasImported (history : List Registration) (file other : String) : Prop :=
  Since (fun before call => Imports (before ++ [call]) file other)
    (fun call => call.file = other) history

/-- A registered file is not marked through a file that has imported
another one and does not any more; a file without a registration is not
imported. -/
def Invalidates (history : List Registration) (file : String) : Prop :=
  if (latestImports history file).isSome = true then
    ∀ found other, HasImported history found other →
      ¬Imports history found other → Reaches history other file →
        Reaches history found file
  else ∀ found, ¬Imports history found file

variable {history : List Registration} {call : Registration}
  {file found other : String}

theorem latestImports_concat :
    latestImports (history ++ [call]) file =
      if file = call.file then some call.imports
      else latestImports history file := by
  rw [latestImports, List.reverse_append, List.reverse_singleton,
    List.singleton_append]
  by_cases heq : file = call.file
  · rw [if_pos heq, List.find?_cons_of_pos (by simpa using heq.symm)]
    rfl
  · rw [if_neg heq, List.find?_cons_of_neg (by simpa using Ne.symm heq)]
    rfl

theorem hasImported_concat :
    HasImported (history ++ [call]) found other ↔
      Imports (history ++ [call]) found other ∨
        HasImported history found other ∧ call.file ≠ other := by
  unfold HasImported
  rw [since_concat_iff]

theorem registerAll_concat (history : List Registration)
    (call : Registration) :
    registerAll (history ++ [call]) =
      (registerAll history).register call.file call.imports := by
  rw [registerAll, List.foldl_append]
  rfl

theorem dirtyFiles_registerAll (history : List Registration) :
    (registerAll history).dirtyFiles = .empty := by
  induction history using List.reverseRecOn with
  | nil => rfl
  | append_singleton history call ih =>
      rw [registerAll_concat]
      exact ih

/-! ## The graph -/

theorem imports_registerAll (history : List Registration) (file : String) :
    ((registerAll history).graph.get file).map DependencyNode.imports =
      latestImports history file := by
  induction history using List.reverseRecOn with
  | nil => rfl
  | append_singleton history call ih =>
      rw [registerAll_concat, IncrementalCompiler.register,
        imports_buildDependents, InsertionMap.get_set, latestImports_concat]
      split
      · rfl
      · exact ih

/-- The nodes while the dependents of a registration are not built yet. -/
theorem imports_set_registerAll (history : List Registration)
    (call : Registration) (file : String) :
    (((registerAll history).graph.set call.file
        ⟨call.file, call.imports, []⟩).get file).map DependencyNode.imports =
      latestImports (history ++ [call]) file := by
  rw [← imports_buildDependents, ← imports_registerAll, registerAll_concat]
  rfl

theorem exists_node_iff_imports
    {graph : InsertionMap String DependencyNode}
    (hgraph : (graph.get found).map DependencyNode.imports =
      latestImports history found) :
    (∃ node, graph.get found = some node ∧ other ∈ node.imports) ↔
      Imports history found other := by
  rw [Imports, ← hgraph]
  cases graph.get found with
  | none => simp
  | some node => simp

theorem dependentsOf_set {graph : InsertionMap String DependencyNode}
    {node : DependencyNode} :
    dependentsOf (graph.set file node) other =
      if other = file then node.dependents else dependentsOf graph other := by
  rw [dependentsOf, InsertionMap.get_set]
  split
  · rename_i heq
    split at heq
    · cases heq
    · rename_i hne
      rw [if_neg hne, dependentsOf, heq]
  · rename_i found heq
    split at heq
    · rename_i hother
      cases heq
      rw [if_pos hother]
    · rename_i hne
      rw [if_neg hne, dependentsOf, heq]

/-- The dependents of a registered file are the files that have imported it
since it was registered. -/
theorem mem_dependentsOf_registerAll
    (hregistered : (latestImports history other).isSome = true) :
    found ∈ dependentsOf (registerAll history).graph other ↔
      HasImported history found other := by
  induction history using List.reverseRecOn with
  | nil => cases hregistered
  | append_singleton history call ih =>
      have hfound := imports_set_registerAll history call found
      have hother := imports_set_registerAll history call other
      rw [← hother, Option.isSome_map] at hregistered
      rw [registerAll_concat, IncrementalCompiler.register,
        mem_dependentsOf_buildDependents, exists_node_iff_imports hfound,
        and_iff_left hregistered, dependentsOf_set, hasImported_concat]
      by_cases heq : other = call.file
      · simp [heq]
      · rw [← Option.isSome_map, hother, latestImports_concat, if_neg heq]
          at hregistered
        rw [if_neg heq, ih hregistered, or_comm,
          and_iff_left (Ne.symm heq)]

theorem dependentsOf_registerAll_of_isNone
    (hnot : (latestImports history other).isSome = false) :
    dependentsOf (registerAll history).graph other = [] := by
  rw [← imports_registerAll, Option.isSome_map, Option.isSome_eq_false_iff,
    Option.isNone_iff_eq_none] at hnot
  rw [dependentsOf, hnot]

/-! ## Marks -/

theorem Imports.hasImported (himports : Imports history found other) :
    HasImported history found other := by
  induction history using List.reverseRecOn with
  | nil =>
      obtain ⟨imports, hlatest, -⟩ := himports
      cases hlatest
  | append_singleton history call =>
      exact hasImported_concat.mpr (.inl himports)

theorem Imports.isSome (himports : Imports history found other) :
    (latestImports history found).isSome = true := by
  obtain ⟨imports, hlatest, -⟩ := himports
  rw [hlatest]
  rfl

theorem isSome_of_reaches (hreaches : Reaches history other file)
    (hregistered : (latestImports history file).isSome = true) :
    (latestImports history other).isSome = true := by
  obtain rfl | ⟨middle, himports, -⟩ :=
    Relation.ReflTransGen.cases_head hreaches
  · exact hregistered
  · exact himports.isSome

/-- A mark on a registered file misses no file that reaches it. -/
theorem marked_of_reaches (hreaches : Reaches history found file)
    (hregistered : (latestImports history file).isSome = true) :
    Relation.ReflTransGen (fun found other =>
      other ∈ dependentsOf (registerAll history).graph found) file found := by
  induction hreaches using Relation.ReflTransGen.head_induction_on with
  | refl => exact .refl
  | head himports hreaches ih =>
      have hother := isSome_of_reaches hreaches hregistered
      exact ih.tail
        ((mem_dependentsOf_registerAll hother).mpr himports.hasImported)

/-- What a mark on a registered file reaches is exact when the files that have
dropped an import reach the file all the same. -/
theorem marked_iff_reaches
    (hregistered : (latestImports history file).isSome = true) :
    (∀ found, Relation.ReflTransGen (fun found other =>
        other ∈ dependentsOf (registerAll history).graph found) file found ↔
      Reaches history found file) ↔
    ∀ found other, HasImported history found other →
      ¬Imports history found other → Reaches history other file →
        Reaches history found file := by
  constructor
  · intro hexact found other himported _ hreaches
    have hother := isSome_of_reaches hreaches hregistered
    exact (hexact found).mp (((hexact other).mpr hreaches).tail
      ((mem_dependentsOf_registerAll hother).mpr himported))
  · intro hdropped found
    refine ⟨fun hmarked => ?_, fun hreaches =>
      marked_of_reaches hreaches hregistered⟩
    induction hmarked with
    | refl => exact .refl
    | @tail other found _ hdependent ih =>
        have hother := isSome_of_reaches ih hregistered
        rw [mem_dependentsOf_registerAll hother] at hdependent
        by_cases himports : Imports history found other
        · exact .head himports ih
        · exact hdropped found other hdependent himports ih

/-- A mark on a file without a registration goes no further. -/
theorem marked_iff_reaches_of_isNone
    (hnot : (latestImports history file).isSome = false) :
    (∀ found, Relation.ReflTransGen (fun found other =>
        other ∈ dependentsOf (registerAll history).graph found) file found ↔
      Reaches history found file) ↔
    ∀ found, ¬Imports history found file := by
  have hmarked : ∀ found, Relation.ReflTransGen (fun found other =>
      other ∈ dependentsOf (registerAll history).graph found) file found ↔
        found = file := by
    intro found
    refine ⟨fun hmarked => ?_, fun heq => heq ▸ .refl⟩
    obtain rfl | ⟨middle, hdependent, -⟩ :=
      Relation.ReflTransGen.cases_head hmarked
    · rfl
    · rw [dependentsOf_registerAll_of_isNone hnot] at hdependent
      cases hdependent
  simp only [hmarked]
  constructor
  · intro hexact found himports
    have heq := (hexact found).mpr (.single himports)
    rw [← heq, himports.isSome] at hnot
    cases hnot
  · intro hnone found
    refine ⟨fun heq => heq ▸ .refl, fun hreaches => ?_⟩
    obtain rfl | ⟨middle, -, himports⟩ :=
      Relation.ReflTransGen.cases_tail hreaches
    · rfl
    · exact absurd himports (hnone middle)

/-- After any registrations, marking a file comes to an end, and makes dirty
exactly the files that are it or reach it through latest imports, if and only
if no file is marked through an import that it has dropped, or the file is not
registered and not imported. -/
theorem markDirty_exact_iff (history : List Registration) (file : String) :
    ∃ compiler, (registerAll history).markDirty file = some compiler ∧
      ((∀ found, found ∈ compiler.dirtyFiles ↔ Reaches history found file) ↔
        Invalidates history file) := by
  obtain ⟨compiler, hmark⟩ := Option.isSome_iff_exists.mp
    (IncrementalCompiler.isSome_markDirty (registerAll history) file)
  refine ⟨compiler, hmark, ?_⟩
  have hdirty : ∀ found, found ∈ compiler.dirtyFiles ↔
      Relation.ReflTransGen (fun found other =>
        other ∈ dependentsOf (registerAll history).graph found)
          file found := by
    intro found
    rw [IncrementalCompiler.mem_dirtyFiles_markDirty hmark,
      dirtyFiles_registerAll]
    exact or_iff_left (InsertionSet.not_mem_empty found)
  simp only [hdirty, Invalidates]
  cases hregistered : (latestImports history file).isSome with
  | true =>
      rw [if_pos rfl]
      exact marked_iff_reaches hregistered
  | false =>
      rw [if_neg Bool.false_ne_true]
      exact marked_iff_reaches_of_isNone hregistered

/-- `A` is registered again without the import of `B`. -/
def dropsImport : List Registration :=
  [⟨"src/A.ts", ["src/B.ts"]⟩, ⟨"src/B.ts", []⟩, ⟨"src/A.ts", []⟩]

/-- A file that has dropped an import is marked all the same. -/
theorem not_exact_of_dropped :
    ∃ compiler,
      (registerAll dropsImport).markDirty "src/B.ts" = some compiler ∧
      "src/A.ts" ∈ compiler.dirtyFiles ∧
      ¬Reaches dropsImport "src/A.ts" "src/B.ts" ∧
      ¬∀ found, found ∈ compiler.dirtyFiles ↔
        Reaches dropsImport found "src/B.ts" := by
  have hmark : ((registerAll dropsImport).markDirty "src/B.ts").any
      (fun compiler => decide ("src/A.ts" ∈ compiler.dirtyFiles)) = true := by
    decide +kernel
  obtain ⟨compiler, hmark, hmem⟩ := (Option.any_eq_true _ _).mp hmark
  have hdirty := of_decide_eq_true hmem
  have hnot : ¬Reaches dropsImport "src/A.ts" "src/B.ts" := by
    intro hreaches
    obtain heq | ⟨middle, ⟨imports, hlatest, hmiddle⟩, -⟩ :=
      Relation.ReflTransGen.cases_head hreaches
    · exact absurd heq (by decide)
    · have hnone : latestImports dropsImport "src/A.ts" = some [] := by
        decide +kernel
      rw [hnone, Option.some.injEq] at hlatest
      rw [← hlatest] at hmiddle
      cases hmiddle
  exact ⟨compiler, hmark, hdirty, hnot, fun hexact =>
    hnot ((hexact _).mp hdirty)⟩

end TsCommons.Hotreload.Invalidation
