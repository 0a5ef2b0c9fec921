import TsCommons.Foundations.InsertionMap
import TsCommons.Foundations.InsertionSet
import TsCommons.Foundations.Lasso

/-!
# The dependency analyzer

A depth-first search from a package finds a cycle if one can be reached.  The
packages that it leaves on its path are those of the walk along the first
dependencies from which a cycle can be reached: the way to the cycle comes
before the cycle, and both are reported.
-/

namespace TsCommons.ArchitectureTests

open Foundations Relation

structure PackageInfo where
  dependencies : List String
deriving DecidableEq

abbrev Packages := InsertionMap String PackageInfo

namespace DependencyAnalyzer

/-- The variables that the calls of `dfs` share. -/
structure Search where
  cyclePath : List String
  visited : InsertionSet String
deriving DecidableEq

variable (packages : Packages)

/-- The loop over the dependencies, which ends at the first call that returns
true.  Without an answer of a call there is none of the loop. -/
def someDep (dfs : String → Search → Option (Bool × Search)) :
    List String → Search → Option (Bool × Search)
  | [], search => some (false, search)
  | dep :: rest, search =>
      if packages.has dep then
        match dfs dep search with
        | some (true, search) => some (true, search)
        | some (false, search) => someDep dfs rest search
        | none => none
      else someDep dfs rest search

/-- There is no answer when the calls are nested deeper than `fuel`. -/
def dfs : ℕ → String → Search → Option (Bool × Search)
  | 0, _, _ => none
  | fuel + 1, packageName, search =>
      if packageName ∈ search.cyclePath then some (true, search)
      else if packageName ∈ search.visited then some (false, search)
      else
        let entered : Search :=
          ⟨search.cyclePath ++ [packageName], search.visited.add packageName⟩
        let result :=
          match packages.get packageName with
          | some pkg => someDep packages (dfs fuel) pkg.dependencies entered
          | none => some (false, entered)
        match result with
        | some (true, search) => some (true, search)
        | some (false, search) =>
            some (false, { search with cyclePath := search.cyclePath.dropLast })
        | none => none

def findCyclePath (startPackage : String) : List String :=
  match dfs packages (packages.size + 1) startPackage ⟨[], .empty⟩ with
  | some (_, search) => search.cyclePath
  | none => []

/-- The packages are the keys of a map, so none of them is visited before its
turn. -/
def detectCircularDependencies : List (List String) :=
  (packages.keys.foldl
    (fun (found : List (List String) × InsertionSet String) packageName =>
      if packageName ∈ found.2 then found
      else
        let cycle := findCyclePath packages packageName
        let cycles :=
          if cycle.length > 1 then
            match cycle.head? with
            | some firstElement => found.1 ++ [cycle ++ [firstElement]]
            | none => found.1
          else found.1
        (cycles, found.2.add packageName))
    ([], .empty)).1

/-! ## The graph of the packages -/

/-- The package declares the dependency. -/
def Declares (packageName dependency : String) : Prop :=
  ∃ pkg, packages.get packageName = some pkg ∧ dependency ∈ pkg.dependencies

instance Declares.decidable (packageName dependency : String) :
    Decidable (Declares packages packageName dependency) :=
  match hget : packages.get packageName with
  | none => .isFalse (by simp [Declares, hget])
  | some pkg =>
      decidable_of_iff (dependency ∈ pkg.dependencies)
        (by simp [Declares, hget])

/-- The dependencies of a package that are packages themselves. -/
def known (packageName : String) : List String :=
  match packages.get packageName with
  | none => []
  | some pkg => pkg.dependencies.filter packages.has

/-- The first known dependency from which a cycle can be reached. -/
noncomputable def towardsCycle (packageName : String) : Option String :=
  firstLeading (known packages) (known packages packageName)

/-- The graph of the known packages has a cycle. -/
def HasCycle : Prop :=
  ∃ packageName, TransGen (Edge (known packages)) packageName packageName

/-- The list goes from a package along declared dependencies back to it, and
visits no other one twice. -/
structure IsCycle (path : List String) : Prop where
  long : 2 ≤ path.length
  closed : path.head? = path.getLast?
  declared : path.IsChain (Declares packages)
  distinct : path.dropLast.Nodup

/-- A cycle is reported if and only if there is one, and whatever is reported
is one. -/
structure CycleLaw : Prop where
  complete : detectCircularDependencies packages ≠ [] ↔ HasCycle packages
  sound : ∀ path ∈ detectCircularDependencies packages, IsCycle packages path

/-- Wherever the walk along the first dependencies that lead to a cycle leaves
its first package, the last package that it comes to before it repeats one
declares the first one as a dependency.  If there is a cycle, the walk leaves
some package. -/
structure WalksReturn : Prop where
  returns : ∀ start ∈ packages.keys, ∀ path last,
    Lasso (towardsCycle packages) [] start path → 2 ≤ path.length →
      path.getLast? = some last → Declares packages last start
  leaves : HasCycle packages →
    ∃ start ∈ packages.keys, ∃ dependency,
      towardsCycle packages start = some dependency ∧ dependency ≠ start

variable {packages} {packageName dependency start : String}
  {search after : Search} {fuel : ℕ}

theorem edge_known_iff :
    Edge (known packages) packageName dependency ↔
      Declares packages packageName dependency ∧
        dependency ∈ packages.keys := by
  rw [Edge, known, Declares, InsertionMap.mem_keys_iff]
  cases hget : packages.get packageName with
  | none => simp
  | some pkg =>
      simp only [List.mem_filter, InsertionMap.has, Option.some.injEq,
        exists_eq_left']

theorem edge_of_towardsCycle
    (htowards : towardsCycle packages packageName = some dependency) :
    Edge (known packages) packageName dependency ∧
      Leads (known packages) dependency :=
  edge_of_firstLeading htowards

/-! ## The search -/

/-- What holds of the shared variables whenever a package is entered. -/
structure Search.Sound (packages : Packages) (search : Search) : Prop where
  onPath : ∀ packageName ∈ search.cyclePath, packageName ∈ search.visited
  finished : ∀ packageName ∈ search.visited,
    packageName ∉ search.cyclePath → ¬ Leads (known packages) packageName

/-- The packages that have not been visited. -/
def unvisited (packages : Packages) (search : Search) : List String :=
  packages.keys.filter fun packageName => packageName ∉ search.visited

/-- A call that finds no cycle leaves the path as it was. -/
structure Misses (packages : Packages) (search after : Search) : Prop where
  cyclePath : after.cyclePath = search.cyclePath
  sound : after.Sound packages
  visited : ∀ packageName ∈ search.visited, packageName ∈ after.visited

theorem unvisited_length_le
    (hmisses : Misses packages search after) :
    (unvisited packages after).length ≤
      (unvisited packages search).length := by
  apply List.Sublist.length_le
  apply List.monotone_filter_right
  intro packageName hfresh
  rw [decide_eq_true_iff] at hfresh ⊢
  exact fun hmem => hfresh (hmisses.visited _ hmem)

theorem Misses.refl (hsound : search.Sound packages) :
    Misses packages search search :=
  ⟨rfl, hsound, fun _ hmem => hmem⟩

theorem Misses.trans {last : Search} (hfirst : Misses packages search after)
    (hsecond : Misses packages after last) : Misses packages search last :=
  ⟨hsecond.cyclePath.trans hfirst.cyclePath, hsecond.sound,
    fun name hname => hsecond.visited name (hfirst.visited name hname)⟩

/-- A call answers, with enough fuel, whether a cycle can be reached.  If so,
it leaves the walk to the cycle on the path. -/
def Answers (packages : Packages)
    (call : String → Search → Option (Bool × Search)) (fuel : ℕ) : Prop :=
  ∀ packageName search, search.Sound packages →
    packageName ∈ packages.keys → (unvisited packages search).length < fuel →
    (search.cyclePath ++ [packageName]).IsChain (Edge (known packages)) →
    (∃ after, call packageName search = some (false, after) ∧
      ¬ Leads (known packages) packageName ∧
      Misses packages search after) ∨
    (∃ after rest, call packageName search = some (true, after) ∧
      Leads (known packages) packageName ∧
      Lasso (towardsCycle packages) search.cyclePath packageName rest ∧
      after.cyclePath = search.cyclePath ++ rest)

theorem someDep_answers {call : String → Search → Option (Bool × Search)}
    (hcall : Answers packages call fuel) {dependencies : List String}
    (hsound : search.Sound packages)
    (hfuel : (unvisited packages search).length < fuel)
    (hchain : ∀ dep ∈ dependencies.filter packages.has,
      (search.cyclePath ++ [dep]).IsChain (Edge (known packages))) :
    (∃ after,
      someDep packages call dependencies search = some (false, after) ∧
      firstLeading (known packages) (dependencies.filter packages.has) =
        none ∧
      Misses packages search after) ∨
    (∃ after dep rest,
      someDep packages call dependencies search = some (true, after) ∧
      firstLeading (known packages) (dependencies.filter packages.has) =
        some dep ∧
      Lasso (towardsCycle packages) search.cyclePath dep rest ∧
      after.cyclePath = search.cyclePath ++ rest) := by
  induction dependencies generalizing search with
  | nil => exact .inl ⟨search, rfl, rfl, .refl hsound⟩
  | cons dep rest ih =>
      by_cases hhas : packages.has dep = true
      · rw [List.filter_cons_of_pos hhas] at hchain ⊢
        rw [someDep, if_pos hhas]
        have hkey : dep ∈ packages.keys := InsertionMap.mem_keys_iff.mpr hhas
        have hdep := hchain dep List.mem_cons_self
        rcases hcall dep search hsound hkey hfuel hdep with
          ⟨after, hanswer, hnot, hmisses⟩ |
          ⟨after, walk, hanswer, hleads, hlasso, hpath⟩
        · rw [hanswer, firstLeading_cons_of_not_leads hnot]
          have hrest : ∀ other ∈ rest.filter packages.has,
              (after.cyclePath ++ [other]).IsChain
                (Edge (known packages)) := by
            intro other hother
            rw [hmisses.cyclePath]
            exact hchain other (List.mem_cons_of_mem dep hother)
          have hlt := (unvisited_length_le hmisses).trans_lt hfuel
          rcases ih hmisses.sound hlt hrest with
            ⟨last, hlast, hnone, hlastMisses⟩ |
            ⟨last, other, walk, hlast, hfirst, hlasso, hpath⟩
          · exact .inl ⟨last, hlast, hnone, hmisses.trans hlastMisses⟩
          · rw [hmisses.cyclePath] at hlasso hpath
            exact .inr ⟨last, other, walk, hlast, hfirst, hlasso, hpath⟩
        · rw [hanswer]
          exact .inr ⟨after, dep, walk, rfl,
            firstLeading_cons_of_leads hleads _, hlasso, hpath⟩
      · rw [List.filter_cons_of_neg hhas] at hchain ⊢
        rw [someDep, if_neg hhas]
        exact ih hsound hfuel hchain

/-- The package is entered: it is put on the path and visited. -/
def Search.enter (search : Search) (packageName : String) : Search :=
  ⟨search.cyclePath ++ [packageName], search.visited.add packageName⟩

theorem Search.Sound.enter (hsound : search.Sound packages)
    (packageName : String) : (search.enter packageName).Sound packages where
  onPath := by
    intro other hother
    rw [Search.enter, InsertionSet.mem_add]
    rcases List.mem_append.mp hother with hpath | hnew
    · exact .inr (hsound.onPath other hpath)
    · exact .inl (List.mem_singleton.mp hnew)
  finished := by
    intro other hvisited hother
    rw [Search.enter, InsertionSet.mem_add] at hvisited
    rw [Search.enter, List.mem_append, List.mem_singleton, not_or] at hother
    exact hsound.finished other (hvisited.resolve_left hother.2) hother.1

theorem unvisited_enter_lt (hkey : packageName ∈ packages.keys)
    (hfresh : packageName ∉ search.visited) :
    (unvisited packages (search.enter packageName)).length <
      (unvisited packages search).length := by
  have hsub : unvisited packages (search.enter packageName) =
      (unvisited packages search).filter (· ≠ packageName) := by
    rw [unvisited, unvisited, List.filter_filter]
    apply List.filter_congr
    intro other _
    simp [Search.enter, not_or]
  rw [hsub]
  apply List.length_filter_lt_length_iff_exists.mpr
  exact ⟨packageName, List.mem_filter.mpr ⟨hkey, by simpa using hfresh⟩,
    by simp⟩

/-- A package from which no cycle is found is taken off the path. -/
theorem Misses.leave (hmisses : Misses packages
      (search.enter packageName) after)
    (hnot : ¬ Leads (known packages) packageName)
    (hsound : search.Sound packages) :
    Misses packages search
      { after with cyclePath := after.cyclePath.dropLast } := by
  have hpath : after.cyclePath.dropLast = search.cyclePath := by
    rw [hmisses.cyclePath, Search.enter, List.dropLast_concat]
  have hvisited : ∀ other ∈ search.visited, other ∈ after.visited := by
    intro other hother
    apply hmisses.visited
    rw [Search.enter, InsertionSet.mem_add]
    exact .inr hother
  refine ⟨hpath, ⟨?_, ?_⟩, hvisited⟩
  · intro other hother
    rw [hpath] at hother
    exact hvisited other (hsound.onPath other hother)
  · intro other hother hgone
    rw [hpath] at hgone
    by_cases heq : other = packageName
    · rw [heq]
      exact hnot
    · apply hmisses.sound.finished other hother
      rw [hmisses.cyclePath, Search.enter, List.mem_append,
        List.mem_singleton, not_or]
      exact ⟨hgone, heq⟩

theorem dfs_answers (packages : Packages) (fuel : ℕ) :
    Answers packages (dfs packages fuel) fuel := by
  induction fuel with
  | zero =>
      intro packageName search _ _ hfuel
      exact absurd hfuel (Nat.not_lt_zero _)
  | succ fuel ih =>
      intro packageName search hsound hkey hfuel hchain
      rw [dfs]
      by_cases hpath : packageName ∈ search.cyclePath
      · rw [if_pos hpath]
        exact .inr ⟨search, [], rfl, leads_of_isChain hchain hpath,
          .closes hpath, (List.append_nil _).symm⟩
      · rw [if_neg hpath]
        by_cases hvisited : packageName ∈ search.visited
        · rw [if_pos hvisited]
          exact .inl ⟨search, rfl,
            hsound.finished packageName hvisited hpath, .refl hsound⟩
        · rw [if_neg hvisited]
          obtain ⟨pkg, hget⟩ := Option.isSome_iff_exists.mp
            (InsertionMap.mem_keys_iff.mp hkey)
          have hknown : known packages packageName =
              pkg.dependencies.filter packages.has := by
            rw [known, hget]
          have hlt := (unvisited_enter_lt hkey hvisited).trans_le
            (Nat.lt_succ_iff.mp hfuel)
          have hdeps : ∀ dep ∈ pkg.dependencies.filter packages.has,
              ((search.enter packageName).cyclePath ++ [dep]).IsChain
                (Edge (known packages)) := by
            intro dep hdep
            rw [Search.enter, List.append_assoc]
            apply List.isChain_split.mpr ⟨hchain, ?_⟩
            apply List.isChain_cons_cons.mpr
            refine ⟨?_, List.isChain_singleton dep⟩
            rw [Edge, hknown]
            exact hdep
          rcases someDep_answers ih (hsound.enter packageName) hlt hdeps with
            ⟨after, hanswer, hnone, hmisses⟩ |
            ⟨after, dep, walk, hanswer, hfirst, hlasso, hcyclePath⟩
          · left
            have hnot : ¬ Leads (known packages) packageName := by
              apply not_leads_of_firstLeading
              rw [hknown]
              exact hnone
            refine ⟨{ after with cyclePath := after.cyclePath.dropLast }, ?_,
              hnot, hmisses.leave hnot hsound⟩
            simp only [hget]
            rw [Search.enter] at hanswer
            rw [hanswer]
          · right
            have htowards : towardsCycle packages packageName = some dep := by
              rw [towardsCycle, hknown]
              exact hfirst
            obtain ⟨hedge, hleads⟩ := edge_of_towardsCycle htowards
            refine ⟨after, packageName :: walk, ?_, hleads.of_edge hedge,
              .goes hpath htowards hlasso, ?_⟩
            · simp only [hget]
              rw [Search.enter] at hanswer
              rw [hanswer]
            · rw [hcyclePath, Search.enter, List.append_assoc]
              rfl

/-! ## What is reported -/

/-- The search from a package leaves the walk to a cycle, or nothing where no
cycle can be reached. -/
theorem findCyclePath_cases (hkey : start ∈ packages.keys) :
    (¬ Leads (known packages) start ∧ findCyclePath packages start = []) ∨
    (Leads (known packages) start ∧
      Lasso (towardsCycle packages) [] start
        (findCyclePath packages start)) := by
  have hsound : Search.Sound packages ⟨[], .empty⟩ := by
    refine ⟨?_, ?_⟩
    · intro other hother
      cases hother
    · intro other hother
      exact absurd hother (InsertionSet.not_mem_empty other)
  have hfuel : (unvisited packages ⟨[], .empty⟩).length <
      packages.size + 1 := by
    apply Nat.lt_succ_of_le
    have hle := List.length_filter_le
      (fun packageName => decide (packageName ∉ InsertionSet.empty))
      packages.keys
    rw [InsertionMap.keys, List.length_map] at hle
    exact hle
  rw [findCyclePath]
  rcases dfs_answers packages (packages.size + 1) start ⟨[], .empty⟩ hsound
      hkey hfuel (List.isChain_singleton start) with
    ⟨after, hanswer, hnot, hmisses⟩ |
    ⟨after, walk, hanswer, hleads, hlasso, hpath⟩
  · rw [hanswer]
    exact .inl ⟨hnot, hmisses.cyclePath⟩
  · rw [hanswer]
    right
    refine ⟨hleads, ?_⟩
    rw [List.nil_append] at hpath
    rw [← hpath] at hlasso
    exact hlasso

/-- What the search from one package adds to the report. -/
def reported (packages : Packages) (start : String) : Option (List String) :=
  if (findCyclePath packages start).length > 1 then
    (findCyclePath packages start).head?.map fun firstElement =>
      findCyclePath packages start ++ [firstElement]
  else none

theorem foldl_unvisited {names : List String} (hnodup : names.Nodup)
    (report : String → Option (List String))
    (found : List (List String) × InsertionSet String)
    (hfresh : ∀ name ∈ names, name ∉ found.2) :
    (names.foldl
      (fun (found : List (List String) × InsertionSet String) name =>
        if name ∈ found.2 then found
        else (found.1 ++ (report name).toList, found.2.add name))
      found).1 = found.1 ++ names.filterMap report := by
  induction names generalizing found with
  | nil => simp
  | cons name rest ih =>
      obtain ⟨hname, hrest⟩ := List.nodup_cons.mp hnodup
      have hnew : name ∉ found.2 := hfresh name List.mem_cons_self
      have hstill : ∀ other ∈ rest, other ∉ found.2.add name := by
        intro other hother
        rw [InsertionSet.mem_add, not_or]
        refine ⟨?_, hfresh other (List.mem_cons_of_mem name hother)⟩
        rintro rfl
        exact hname hother
      rw [List.foldl_cons, if_neg hnew, ih hrest _ hstill,
        List.append_assoc]
      cases hreport : report name with
      | none => rw [List.filterMap_cons_none hreport]; rfl
      | some cycle => rw [List.filterMap_cons_some hreport]; rfl

/-- Every package is searched from once. -/
theorem detectCircularDependencies_eq (packages : Packages) :
    detectCircularDependencies packages =
      packages.keys.filterMap (reported packages) := by
  have hfold := foldl_unvisited packages.nodup (reported packages)
    ([], .empty) fun name _ => InsertionSet.not_mem_empty name
  rw [List.nil_append] at hfold
  rw [InsertionMap.keys, ← hfold, detectCircularDependencies]
  congr 2
  funext found name
  by_cases hmem : name ∈ found.2
  · rw [if_pos hmem, if_pos hmem]
  · rw [if_neg hmem, if_neg hmem, reported]
    by_cases hlong : (findCyclePath packages name).length > 1
    · simp only [if_pos hlong]
      cases (findCyclePath packages name).head? <;> simp
    · simp [if_neg hlong]

theorem reported_eq_some_iff (hkey : start ∈ packages.keys)
    {path : List String} :
    reported packages start = some path ↔
      ∃ walk, Lasso (towardsCycle packages) [] start walk ∧
        2 ≤ walk.length ∧ path = walk ++ [start] := by
  rw [reported]
  rcases findCyclePath_cases hkey with ⟨hnot, hnil⟩ | ⟨-, hlasso⟩
  · rw [hnil]
    constructor
    · rintro hsome
      cases hsome
    · rintro ⟨walk, hlasso, hlong, -⟩
      obtain ⟨dep, htowards, -⟩ := hlasso.two_le_length_iff.mp hlong
      obtain ⟨hedge, hleads⟩ := edge_of_towardsCycle htowards
      exact absurd (hleads.of_edge hedge) hnot
  · have hhead : (findCyclePath packages start).length > 1 →
        (findCyclePath packages start).head? = some start := by
      intro hlong
      cases hwalk : findCyclePath packages start with
      | nil =>
          rw [hwalk] at hlong
          cases hlong
      | cons first rest =>
          have hfirst := hlasso.head?_eq first
          rw [hwalk] at hfirst
          rw [List.head?_cons, hfirst rfl]
    constructor
    · intro hsome
      split at hsome
      · rename_i hlong
        rw [hhead hlong, Option.map_some, Option.some.injEq] at hsome
        exact ⟨_, hlasso, hlong, hsome.symm⟩
      · cases hsome
    · rintro ⟨walk, hwalk, hlong, rfl⟩
      rw [← hlasso.unique hwalk] at hlong ⊢
      have hgt : (findCyclePath packages start).length > 1 := hlong
      rw [if_pos hgt, hhead hgt, Option.map_some]

/-- A reported walk is a cycle if and only if its last package declares the
first one. -/
theorem isCycle_iff {walk : List String} {last : String}
    (hlasso : Lasso (towardsCycle packages) [] start walk)
    (hlong : 2 ≤ walk.length) (hlast : walk.getLast? = some last) :
    IsCycle packages (walk ++ [start]) ↔ Declares packages last start := by
  have hdeclared : walk.IsChain (Declares packages) := by
    refine hlasso.isChain.imp fun first second htowards => ?_
    exact (edge_known_iff.mp (edge_of_towardsCycle htowards).1).1
  have hhead : walk.head? = some start := by
    cases hwalk : walk with
    | nil =>
        rw [hwalk] at hlong
        cases hlong
    | cons first rest =>
        rw [List.head?_cons, hlasso.head?_eq first (by rw [hwalk]; rfl)]
  constructor
  · intro hcycle
    have hchain := List.isChain_append.mp hcycle.declared
    exact hchain.2.2 last hlast start rfl
  · intro hreturn
    refine ⟨?_, ?_, ?_, ?_⟩
    · rw [List.length_append]
      exact Nat.le_add_right_of_le hlong
    · rw [List.getLast?_concat, List.head?_append, hhead]
      rfl
    · apply List.isChain_append.mpr
      refine ⟨hdeclared, List.isChain_singleton start, ?_⟩
      intro first hfirst second hsecond
      rw [hlast, Option.mem_some_iff] at hfirst
      rw [List.head?_cons, Option.mem_some_iff] at hsecond
      rw [← hfirst, ← hsecond]
      exact hreturn
    · rw [List.dropLast_concat]
      exact hlasso.nodup List.nodup_nil

theorem hasCycle_of_leads (hleads : Leads (known packages) start) :
    HasCycle packages := by
  obtain ⟨other, -, hcycle⟩ := hleads
  exact ⟨other, hcycle⟩

theorem mem_detectCircularDependencies_iff {path : List String} :
    path ∈ detectCircularDependencies packages ↔
      ∃ start ∈ packages.keys, ∃ walk,
        Lasso (towardsCycle packages) [] start walk ∧ 2 ≤ walk.length ∧
          path = walk ++ [start] := by
  rw [detectCircularDependencies_eq, List.mem_filterMap]
  constructor
  · rintro ⟨start, hkey, hreported⟩
    exact ⟨start, hkey, (reported_eq_some_iff hkey).mp hreported⟩
  · rintro ⟨start, hkey, hwalk⟩
    exact ⟨start, hkey, (reported_eq_some_iff hkey).mpr hwalk⟩

/-- The walk from a package from which a cycle can be reached. -/
theorem exists_lasso (hkey : start ∈ packages.keys)
    (hleads : Leads (known packages) start) :
    ∃ walk, Lasso (towardsCycle packages) [] start walk := by
  rcases findCyclePath_cases hkey with ⟨hnot, -⟩ | ⟨-, hlasso⟩
  · exact absurd hleads hnot
  · exact ⟨_, hlasso⟩

theorem cycleLaw_iff_walksReturn (packages : Packages) :
    CycleLaw packages ↔ WalksReturn packages := by
  constructor
  · intro hlaw
    constructor
    · intro start hkey walk last hlasso hlong hlast
      rw [← isCycle_iff hlasso hlong hlast]
      apply hlaw.sound
      exact mem_detectCircularDependencies_iff.mpr
        ⟨start, hkey, walk, hlasso, hlong, rfl⟩
    · intro hcycle
      obtain ⟨path, hpath⟩ :=
        List.exists_mem_of_ne_nil _ (hlaw.complete.mpr hcycle)
      obtain ⟨start, hkey, walk, hlasso, hlong, -⟩ :=
        mem_detectCircularDependencies_iff.mp hpath
      exact ⟨start, hkey, hlasso.two_le_length_iff.mp hlong⟩
  · intro hreturn
    constructor
    · constructor
      · intro hne
        obtain ⟨path, hpath⟩ := List.exists_mem_of_ne_nil _ hne
        obtain ⟨start, -, walk, hlasso, hlong, -⟩ :=
          mem_detectCircularDependencies_iff.mp hpath
        obtain ⟨dep, htowards, -⟩ := hlasso.two_le_length_iff.mp hlong
        exact hasCycle_of_leads (edge_of_towardsCycle htowards).2
      · intro hcycle
        obtain ⟨start, hkey, dep, htowards, hne⟩ := hreturn.leaves hcycle
        obtain ⟨hedge, hleads⟩ := edge_of_towardsCycle htowards
        obtain ⟨walk, hlasso⟩ := exists_lasso hkey (hleads.of_edge hedge)
        have hlong := hlasso.two_le_length_iff.mpr ⟨dep, htowards, hne⟩
        exact List.ne_nil_of_mem (mem_detectCircularDependencies_iff.mpr
          ⟨start, hkey, walk, hlasso, hlong, rfl⟩)
    · intro path hpath
      obtain ⟨start, hkey, walk, hlasso, hlong, rfl⟩ :=
        mem_detectCircularDependencies_iff.mp hpath
      cases hlast : walk.getLast? with
      | none =>
          rw [List.getLast?_eq_none_iff.mp hlast] at hlong
          cases hlong
      | some last =>
          rw [isCycle_iff hlasso hlong hlast]
          exact hreturn.returns start hkey walk last hlasso hlong hlast

/-- An application that uses two packages which depend on each other. -/
def behindCycle : Packages where
  entries := [("app", ⟨["a"]⟩), ("a", ⟨["b"]⟩), ("b", ⟨["a"]⟩)]
  nodup := by decide

/-- The way from the application to the cycle is reported as a cycle. -/
theorem not_cycleLaw_behindCycle :
    ["app", "a", "b", "app"] ∈ detectCircularDependencies behindCycle ∧
      ¬ Declares behindCycle "b" "app" ∧ ¬ CycleLaw behindCycle := by
  have hmem : ["app", "a", "b", "app"] ∈
      detectCircularDependencies behindCycle := by
    decide +kernel
  have hnot : ¬ Declares behindCycle "b" "app" := by decide
  refine ⟨hmem, hnot, fun hlaw => hnot ?_⟩
  have hchain := (hlaw.sound _ hmem).declared
  rw [List.isChain_cons_cons, List.isChain_cons_cons,
    List.isChain_cons_cons] at hchain
  exact hchain.2.2.1

example : detectCircularDependencies ⟨[("a", ⟨["a"]⟩)], by decide⟩ = [] := by
  decide +kernel

end DependencyAnalyzer

end TsCommons.ArchitectureTests
