import TsCommons.Foundations.InsertionMap
import TsCommons.Foundations.Worklist

/-!
# The incremental compiler

The compiler keeps a node for each registered file, with its imports and the
files that import it.  A file that is marked is dirty, together with all files
that depend on it, until the next compilation.
-/

namespace TsCommons.Hotreload

open Foundations

structure DependencyNode where
  file : String
  imports : List String
  dependents : List String
deriving DecidableEq

structure CompileResult where
  changedFiles : List String
  recompiledFiles : List String
  errors : List String
  success : Bool
deriving DecidableEq

/-- The file is pushed to the dependents of one that it imports. -/
def addDependent (file : String)
    (graph : InsertionMap String DependencyNode) (imp : String) :
    InsertionMap String DependencyNode :=
  match graph.get imp with
  | none => graph
  | some dep =>
      if file ∈ dep.dependents then graph
      else graph.set imp { dep with dependents := dep.dependents ++ [file] }

def buildDependents (graph : InsertionMap String DependencyNode) :
    InsertionMap String DependencyNode :=
  graph.entries.foldl
    (fun built entry => entry.2.imports.foldl (addDependent entry.1) built)
    graph

/-- The dependents in the node of a file, if it has one. -/
def dependentsOf (graph : InsertionMap String DependencyNode)
    (file : String) : List String :=
  match graph.get file with
  | none => []
  | some node => node.dependents

/-- The fuel of the loop is the number of files that it can come across. -/
def collectAffected (dirty : List String)
    (graph : InsertionMap String DependencyNode) :
    Option (InsertionSet String) :=
  let everything := dirty ++ graph.values.flatMap DependencyNode.dependents
  Worklist.closure (dependentsOf graph) (everything.length + dirty.length)
    (.ofList dirty) dirty

structure IncrementalCompiler where
  graph : InsertionMap String DependencyNode
  outputCache : InsertionMap String String
  dirtyFiles : InsertionSet String

namespace IncrementalCompiler

def empty : IncrementalCompiler := ⟨.empty, .empty, .empty⟩

def register (compiler : IncrementalCompiler) (file : String)
    (imports : List String) : IncrementalCompiler :=
  { compiler with
    graph := buildDependents (compiler.graph.set file ⟨file, imports, []⟩) }

def markDirty (compiler : IncrementalCompiler) (file : String) :
    Option IncrementalCompiler :=
  (collectAffected [file] compiler.graph).map fun affected =>
    { compiler with
      dirtyFiles := affected.elements.foldl .add compiler.dirtyFiles }

/-- The output of a file that compiles is stored. -/
def compileFile (simulatedErrors : List String)
    (compiled : InsertionMap String String × List String) (file : String) :
    InsertionMap String String × List String :=
  if file ∈ simulatedErrors then compiled
  else (compiled.1.set file ("compiled:" ++ file), compiled.2 ++ [file])

def compile (compiler : IncrementalCompiler) (simulatedErrors : List String) :
    IncrementalCompiler × CompileResult :=
  let changedFiles := compiler.dirtyFiles.elements
  let (outputCache, recompiledFiles) :=
    changedFiles.foldl (compileFile simulatedErrors)
      (compiler.outputCache, [])
  ({ compiler with outputCache := outputCache, dirtyFiles := .empty },
    { changedFiles := changedFiles
      recompiledFiles := recompiledFiles
      errors := simulatedErrors.filter (· ∈ changedFiles)
      success := simulatedErrors.isEmpty })

def isCompiled (compiler : IncrementalCompiler) (file : String) : Bool :=
  compiler.outputCache.has file

def dirtyCount (compiler : IncrementalCompiler) : ℕ :=
  compiler.dirtyFiles.size

def invalidateAll (compiler : IncrementalCompiler) : IncrementalCompiler :=
  { compiler with
    outputCache := .empty
    dirtyFiles := compiler.graph.keys.foldl .add .empty }

end IncrementalCompiler

/-! ## Dependents -/

variable {graph : InsertionMap String DependencyNode}
  {file other imp : String} {imports : List String}

theorem imports_addDependent :
    ((addDependent file graph imp).get other).map DependencyNode.imports =
      (graph.get other).map DependencyNode.imports := by
  rw [addDependent]
  cases hget : graph.get imp with
  | none => rfl
  | some dep =>
      by_cases hmem : file ∈ dep.dependents
      · simp only [if_pos hmem]
      · simp only [if_neg hmem, InsertionMap.get_set]
        split
        · rename_i heq
          rw [heq, hget]
          rfl
        · rfl

theorem mem_dependentsOf_addDependent {found : String} :
    found ∈ dependentsOf (addDependent file graph imp) other ↔
      found ∈ dependentsOf graph other ∨
        found = file ∧ other = imp ∧ (graph.get other).isSome = true := by
  rw [addDependent]
  cases hget : graph.get imp with
  | none =>
      refine (or_iff_left ?_).symm
      rintro ⟨-, rfl, hsome⟩
      rw [hget] at hsome
      cases hsome
  | some dep =>
      by_cases hmem : file ∈ dep.dependents
      · simp only [if_pos hmem]
        refine (or_iff_left_of_imp ?_).symm
        rintro ⟨rfl, rfl, -⟩
        rwa [dependentsOf, hget]
      · simp only [if_neg hmem, dependentsOf, InsertionMap.get_set]
        by_cases heq : other = imp
        · simp [heq, hget]
        · simp [heq]

theorem isSome_of_imports_eq {left right : Option DependencyNode}
    (himports : left.map DependencyNode.imports =
      right.map DependencyNode.imports) : left.isSome = right.isSome := by
  rw [← Option.isSome_map (f := DependencyNode.imports), himports,
    Option.isSome_map]

theorem imports_foldl_addDependent :
    ((imports.foldl (addDependent file) graph).get other).map
        DependencyNode.imports =
      (graph.get other).map DependencyNode.imports := by
  induction imports generalizing graph with
  | nil => rfl
  | cons first rest ih => rw [List.foldl_cons, ih, imports_addDependent]

theorem mem_dependentsOf_foldl_addDependent {found : String} :
    found ∈ dependentsOf (imports.foldl (addDependent file) graph) other ↔
      found ∈ dependentsOf graph other ∨
        found = file ∧ other ∈ imports ∧
          (graph.get other).isSome = true := by
  induction imports generalizing graph with
  | nil => simp
  | cons first rest ih =>
      rw [List.foldl_cons, ih, mem_dependentsOf_addDependent,
        isSome_of_imports_eq imports_addDependent, List.mem_cons]
      tauto

section Entries

variable {entries : List (String × DependencyNode)}

theorem imports_foldl_entries :
    ((entries.foldl (fun built entry =>
        entry.2.imports.foldl (addDependent entry.1) built) graph).get
          other).map DependencyNode.imports =
      (graph.get other).map DependencyNode.imports := by
  induction entries generalizing graph with
  | nil => rfl
  | cons first rest ih =>
      rw [List.foldl_cons, ih, imports_foldl_addDependent]

theorem mem_dependentsOf_foldl_entries {found : String} :
    found ∈ dependentsOf (entries.foldl (fun built entry =>
        entry.2.imports.foldl (addDependent entry.1) built) graph) other ↔
      found ∈ dependentsOf graph other ∨
        (∃ node, (found, node) ∈ entries ∧ other ∈ node.imports) ∧
          (graph.get other).isSome = true := by
  induction entries generalizing graph with
  | nil => simp
  | cons first rest ih =>
      obtain ⟨file, node⟩ := first
      rw [List.foldl_cons, ih, mem_dependentsOf_foldl_addDependent,
        isSome_of_imports_eq imports_foldl_addDependent]
      simp only [List.mem_cons, Prod.mk.injEq, or_and_right, exists_or]
      have hfirst : (∃ found', (found = file ∧ found' = node) ∧
          other ∈ found'.imports) ↔ found = file ∧ other ∈ node.imports := by
        constructor
        · rintro ⟨_, ⟨hfile, rfl⟩, himports⟩
          exact ⟨hfile, himports⟩
        · rintro ⟨hfile, himports⟩
          exact ⟨node, ⟨hfile, rfl⟩, himports⟩
      rw [hfirst]
      tauto

end Entries

@[simp] theorem imports_buildDependents :
    ((buildDependents graph).get other).map DependencyNode.imports =
      (graph.get other).map DependencyNode.imports :=
  imports_foldl_entries

/-- Every file that imports a registered one becomes its dependent; none is
taken out. -/
theorem mem_dependentsOf_buildDependents {found : String} :
    found ∈ dependentsOf (buildDependents graph) other ↔
      found ∈ dependentsOf graph other ∨
        (∃ node, graph.get found = some node ∧ other ∈ node.imports) ∧
          (graph.get other).isSome = true := by
  rw [buildDependents, mem_dependentsOf_foldl_entries]
  simp only [InsertionMap.get_eq_some_iff]

/-! ## Affected files -/

theorem mem_values_of_mem_dependentsOf
    (hmem : other ∈ dependentsOf graph file) :
    other ∈ graph.values.flatMap DependencyNode.dependents := by
  rw [dependentsOf] at hmem
  cases hget : graph.get file with
  | none =>
      rw [hget] at hmem
      cases hmem
  | some node =>
      rw [hget] at hmem
      exact List.mem_flatMap.mpr
        ⟨node, InsertionMap.mem_values_iff.mpr ⟨file, hget⟩, hmem⟩

theorem isSome_collectAffected (dirty : List String)
    (graph : InsertionMap String DependencyNode) :
    (collectAffected dirty graph).isSome = true := by
  have hnext : ∀ file, ∀ other ∈ dependentsOf graph file,
      other ∈ dirty ++ graph.values.flatMap DependencyNode.dependents :=
    fun _ _ hother =>
      List.mem_append_right _ (mem_values_of_mem_dependentsOf hother)
  refine Worklist.isSome_closure hnext ?_ (Nat.le_add_right _ _)
  intro file hfile
  exact List.mem_append_left _ (InsertionSet.mem_ofList.mp hfile)

namespace IncrementalCompiler

variable {compiler next : IncrementalCompiler}

/-- Marking a file comes to an end. -/
theorem isSome_markDirty (compiler : IncrementalCompiler) (file : String) :
    (compiler.markDirty file).isSome = true := by
  rw [markDirty, Option.isSome_map]
  exact isSome_collectAffected [file] compiler.graph

/-- The file, those that depend on it and those that were dirty. -/
theorem mem_dirtyFiles_markDirty
    (hmark : compiler.markDirty file = some next) :
    other ∈ next.dirtyFiles ↔
      Relation.ReflTransGen
          (fun found other => other ∈ dependentsOf compiler.graph found)
          file other ∨
        other ∈ compiler.dirtyFiles := by
  obtain ⟨affected, haffected, rfl⟩ := Option.map_eq_some_iff.mp hmark
  have hclosure := Worklist.mem_closure_iff haffected other
  rw [InsertionSet.mem_foldl_add, ← InsertionSet.mem_def, hclosure]
  simp

theorem mem_dirtyFiles_invalidateAll :
    file ∈ compiler.invalidateAll.dirtyFiles ↔ file ∈ compiler.graph.keys := by
  rw [invalidateAll, InsertionSet.mem_foldl_add]
  exact or_iff_left (InsertionSet.not_mem_empty file)

/-! ## Compilations -/

variable {simulatedErrors files : List String}

theorem snd_foldl_compileFile
    (compiled : InsertionMap String String × List String) :
    (files.foldl (compileFile simulatedErrors) compiled).2 =
      compiled.2 ++ files.filter (· ∉ simulatedErrors) := by
  induction files generalizing compiled with
  | nil => simp
  | cons first rest ih =>
      rw [List.foldl_cons, ih, compileFile]
      by_cases herror : first ∈ simulatedErrors
      · simp [herror]
      · simp [herror]

theorem has_foldl_compileFile
    (compiled : InsertionMap String String × List String) :
    (files.foldl (compileFile simulatedErrors) compiled).1.has file = true ↔
      file ∈ files ∧ file ∉ simulatedErrors ∨
        compiled.1.has file = true := by
  induction files generalizing compiled with
  | nil => simp
  | cons first rest ih =>
      rw [List.foldl_cons, ih, compileFile]
      by_cases herror : first ∈ simulatedErrors
      · rw [if_pos herror, List.mem_cons]
        by_cases heq : file = first
        · simp [heq, herror]
        · simp [heq]
      · rw [if_neg herror]
        by_cases heq : file = first
        · simp [heq, herror, InsertionMap.has]
        · simp [heq, InsertionMap.has, InsertionMap.get_set]

/-- The scheduled files that do not fail are recompiled. -/
theorem mem_recompiledFiles :
    file ∈ (compiler.compile simulatedErrors).2.recompiledFiles ↔
      file ∈ compiler.dirtyFiles ∧ file ∉ simulatedErrors := by
  simp only [compile, snd_foldl_compileFile, List.nil_append]
  rw [List.mem_filter, decide_eq_true_eq, InsertionSet.mem_def]

theorem isCompiled_compile :
    (compiler.compile simulatedErrors).1.isCompiled file = true ↔
      file ∈ compiler.dirtyFiles ∧ file ∉ simulatedErrors ∨
        compiler.isCompiled file = true :=
  has_foldl_compileFile _

end IncrementalCompiler

end TsCommons.Hotreload
