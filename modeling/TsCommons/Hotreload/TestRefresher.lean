import TsCommons.Foundations.InsertionMap
import TsCommons.Foundations.InsertionSet
import TsCommons.Foundations.Text

/-!
# The test refresher

For the files that have changed the refresher finds the tests to run: a test
file itself, the tests that a source file is mapped to, or a known test that is
named like it.
-/

namespace TsCommons.Hotreload

open Foundations

def testSuffixes : List Text :=
  [".test.ts".toList, ".spec.ts".toList, ".test.js".toList,
    ".spec.js".toList]

def isTestFile (path : Text) : Bool :=
  testSuffixes.any fun suffix => suffix.isSuffixOf path

/-- The path without `.ts` or `.js` at its end. -/
def testBase (sourcePath : Text) : Text :=
  if ".ts".toList.isSuffixOf sourcePath || ".js".toList.isSuffixOf sourcePath
  then sourcePath.dropLast.dropLast.dropLast
  else sourcePath

def testNameFor (sourcePath : Text) : Text :=
  testBase sourcePath ++ ".test.ts".toList

structure TestRefreshResult where
  triggeredBy : List Text
  testFiles : List Text
  skippedFiles : List Text
  totalTests : ℕ
deriving DecidableEq

/-- One round of the loop of `resolveTestFiles`. -/
def needTests (testMap : InsertionMap Text (List Text)) (allTests : List Text)
    (needed : InsertionSet Text) (file : Text) : InsertionSet Text :=
  if isTestFile file then needed.add file
  else
    match testMap.get file with
    | some mapped => mapped.foldl .add needed
    | none =>
        let inferred := testNameFor file
        if allTests.contains inferred then needed.add inferred else needed

def resolveTestFiles (changed : List Text)
    (testMap : InsertionMap Text (List Text)) (allTests : List Text) :
    List Text × List Text :=
  let needed := changed.foldl (needTests testMap allTests) .empty
  (needed.elements, allTests.filter fun test => test ∉ needed)

structure TestRefresher where
  testMap : InsertionMap Text (List Text)
  knownTests : List Text

namespace TestRefresher

def empty : TestRefresher := ⟨.empty, []⟩

def addTestFiles (refresher : TestRefresher) (tests : List Text) :
    TestRefresher :=
  { refresher with
    knownTests := tests.foldl
      (fun known test => if known.contains test then known else known ++ [test])
      refresher.knownTests }

def mapSourceToTests (refresher : TestRefresher) (sourceFile : Text)
    (testFiles : List Text) : TestRefresher :=
  let existing := (refresher.testMap.get sourceFile).getD []
  { refresher with
    testMap := refresher.testMap.set sourceFile
      (InsertionSet.ofList (existing ++ testFiles)).elements }

def refresh (refresher : TestRefresher) (changedFiles : List Text) :
    TestRefreshResult :=
  let (testFiles, skipped) :=
    resolveTestFiles changedFiles refresher.testMap refresher.knownTests
  ⟨changedFiles, testFiles, skipped, testFiles.length⟩

/-- A change of the file calls for the test. -/
def Covers (refresher : TestRefresher) (file test : Text) : Prop :=
  if isTestFile file then test = file
  else
    match refresher.testMap.get file with
    | some mapped => test ∈ mapped
    | none => test = testNameFor file ∧ test ∈ refresher.knownTests

variable {refresher : TestRefresher} {needed : InsertionSet Text}
  {file test : Text} {changed : List Text}

theorem mem_needTests :
    test ∈ needTests refresher.testMap refresher.knownTests needed file ↔
      test ∈ needed ∨ refresher.Covers file test := by
  unfold needTests Covers
  split
  · rw [InsertionSet.mem_add]
    exact or_comm
  · split
    · rw [InsertionSet.mem_foldl_add]
      exact or_comm
    · dsimp only
      split
      next hknown =>
        rw [InsertionSet.mem_add]
        constructor
        · rintro (rfl | hmem)
          · exact .inr ⟨rfl, List.contains_iff_mem.mp hknown⟩
          · exact .inl hmem
        · rintro (hmem | ⟨rfl, -⟩)
          · exact .inr hmem
          · exact .inl rfl
      next hunknown =>
        refine (or_iff_left ?_).symm
        rintro ⟨rfl, hknown⟩
        exact hunknown (List.contains_iff_mem.mpr hknown)

theorem mem_foldl_needTests :
    test ∈ changed.foldl
        (needTests refresher.testMap refresher.knownTests) needed ↔
      test ∈ needed ∨ ∃ file ∈ changed, refresher.Covers file test := by
  induction changed generalizing needed with
  | nil => simp
  | cons first rest ih =>
      rw [List.foldl_cons, ih, mem_needTests, or_assoc,
        List.exists_mem_cons_iff]

/-- The tests that some changed file calls for are run, and the other known
ones are skipped. -/
theorem mem_refresh (refresher : TestRefresher) (changed : List Text)
    (test : Text) :
    (test ∈ (refresher.refresh changed).testFiles ↔
        ∃ file ∈ changed, refresher.Covers file test) ∧
      (test ∈ (refresher.refresh changed).skippedFiles ↔
        test ∈ refresher.knownTests ∧
          test ∉ (refresher.refresh changed).testFiles) := by
  have hneeded : test ∈ changed.foldl
      (needTests refresher.testMap refresher.knownTests) .empty ↔
        ∃ file ∈ changed, refresher.Covers file test := by
    rw [mem_foldl_needTests]
    exact or_iff_right (InsertionSet.not_mem_empty test)
  refine ⟨hneeded, ?_⟩
  simp only [refresh, resolveTestFiles, List.mem_filter, decide_eq_true_eq]
  rfl

end TestRefresher

end TsCommons.Hotreload
