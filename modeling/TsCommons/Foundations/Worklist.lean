import TsCommons.Foundations.InsertionSet
import Mathlib.Data.List.Perm.Subperm
import Mathlib.Logic.Relation

/-!
# Work lists

What can be reached from some seeds is collected by a work list: an element is
taken from its front, and those that follow it and have not been seen are
added to its end.  Each round takes fuel, of which there is enough when only
finitely many elements can be seen.
-/

namespace TsCommons.Foundations.Worklist

variable {α : Type*} [DecidableEq α] {next : α → List α}
  {work : InsertionSet α × List α} {seen result : InsertionSet α}
  {elements queue seeds everything : List α} {element : α} {fuel : ℕ}

/-- The elements seen and those that wait, with one more if it is new. -/
def discover (work : InsertionSet α × List α) (element : α) :
    InsertionSet α × List α :=
  if element ∈ work.1 then work
  else (work.1.add element, work.2 ++ [element])

def closure (next : α → List α) :
    ℕ → InsertionSet α → List α → Option (InsertionSet α)
  | _, seen, [] => some seen
  | 0, _, _ :: _ => none
  | fuel + 1, seen, first :: rest =>
      let work := (next first).foldl discover (seen, rest)
      closure next fuel work.1 work.2

/-! ## One round -/

theorem mem_fst_foldl_discover :
    element ∈ (elements.foldl discover work).1 ↔
      element ∈ elements ∨ element ∈ work.1 := by
  induction elements generalizing work with
  | nil => simp
  | cons first rest ih =>
      rw [List.foldl_cons, ih, discover, List.mem_cons]
      split
      · rename_i hseen
        refine ⟨Or.imp_left .inr, ?_⟩
        rintro ((rfl | hrest) | hwork)
        · exact .inr hseen
        · exact .inl hrest
        · exact .inr hwork
      · rw [InsertionSet.mem_add]
        tauto

theorem mem_snd_foldl_discover :
    element ∈ (elements.foldl discover work).2 ↔
      element ∈ work.2 ∨ element ∈ elements ∧ element ∉ work.1 := by
  induction elements generalizing work with
  | nil => simp
  | cons first rest ih =>
      rw [List.foldl_cons, ih, discover, List.mem_cons]
      split
      · rename_i hseen
        refine or_congr_right (and_congr_left fun hnew => ?_)
        refine (or_iff_right ?_).symm
        rintro rfl
        exact hnew hseen
      · rename_i hnew
        rw [List.mem_append, List.mem_singleton, InsertionSet.mem_add]
        by_cases heq : element = first
        · simp [heq, hnew]
        · simp [heq]

/-- An element that is seen for the first time starts to wait. -/
theorem size_foldl_discover (elements : List α)
    (work : InsertionSet α × List α) :
    (elements.foldl discover work).1.size + work.2.length =
      work.1.size + (elements.foldl discover work).2.length := by
  induction elements generalizing work with
  | nil => rfl
  | cons first rest ih =>
      have hrest := @ih (discover work first)
      rw [List.foldl_cons]
      by_cases hseen : first ∈ work.1
      · rw [discover, if_pos hseen] at hrest ⊢
        exact hrest
      · rw [discover, if_neg hseen] at hrest ⊢
        rw [InsertionSet.size_add hseen, List.length_append] at hrest
        simp only [List.length_singleton] at hrest
        omega

/-! ## All rounds -/

/-- The invariant rule of the rounds. -/
theorem closure_invariant {I : InsertionSet α → List α → Prop}
    (hround : ∀ seen first rest, I seen (first :: rest) →
      I ((next first).foldl discover (seen, rest)).1
        ((next first).foldl discover (seen, rest)).2)
    (hclosure : closure next fuel seen queue = some result)
    (hinit : I seen queue) : I result [] := by
  induction fuel generalizing seen queue with
  | zero =>
      cases queue with
      | nil =>
          cases hclosure
          exact hinit
      | cons first rest => cases hclosure
  | succ fuel ih =>
      cases queue with
      | nil =>
          cases hclosure
          exact hinit
      | cons first rest => exact ih hclosure (hround seen first rest hinit)

theorem subset_of_closure
    (hclosure : closure next fuel seen queue = some result)
    (hseen : element ∈ seen) : element ∈ result :=
  closure_invariant (I := fun seen _ => element ∈ seen)
    (fun _ _ _ hold => mem_fst_foldl_discover.mpr (.inr hold))
    hclosure hseen

/-- What is seen is kept by each property that an element hands on to those
that follow it. -/
theorem closure_sound {S : α → Prop}
    (hnext : ∀ element, S element → ∀ other ∈ next element, S other)
    (hclosure : closure next fuel seen queue = some result)
    (hseen : ∀ element ∈ seen, S element)
    (hqueue : ∀ element ∈ queue, S element) :
    ∀ element ∈ result, S element := by
  have hkept := closure_invariant (I := fun seen queue =>
    (∀ element ∈ seen, S element) ∧ ∀ element ∈ queue, S element)
    ?_ hclosure ⟨hseen, hqueue⟩
  · exact hkept.1
  · rintro seen first rest ⟨hseen, hqueue⟩
    obtain ⟨hfirst, hrest⟩ := List.forall_mem_cons.mp hqueue
    constructor
    · intro element hmem
      obtain hnew | hold := mem_fst_foldl_discover.mp hmem
      · exact hnext first hfirst element hnew
      · exact hseen element hold
    · intro element hmem
      obtain hold | ⟨hnew, -⟩ := mem_snd_foldl_discover.mp hmem
      · exact hrest element hold
      · exact hnext first hfirst element hnew

/-- An element that was seen waits, unless those that follow it were seen. -/
theorem closure_closed
    (hclosure : closure next fuel seen queue = some result)
    (hseen : ∀ element ∈ seen,
      element ∈ queue ∨ ∀ other ∈ next element, other ∈ seen) :
    ∀ element ∈ result, ∀ other ∈ next element, other ∈ result := by
  have hkept := closure_invariant (I := fun seen queue =>
    ∀ element ∈ seen,
      element ∈ queue ∨ ∀ other ∈ next element, other ∈ seen)
    ?_ hclosure hseen
  · exact fun element helement =>
      (hkept element helement).resolve_left List.not_mem_nil
  · intro seen first rest hseen element hmem
    rw [mem_snd_foldl_discover]
    simp only [mem_fst_foldl_discover] at hmem ⊢
    by_cases hold : element ∈ seen
    · obtain hqueue | hnext := hseen element hold
      · obtain rfl | hrest := List.mem_cons.mp hqueue
        · exact .inr fun other hother => .inl hother
        · exact .inl (.inl hrest)
      · exact .inr fun other hother => .inr (hnext other hother)
    · exact .inl (.inr ⟨hmem.resolve_right hold, hold⟩)

/-- The fuel lasts for every element that has not been seen and every one that
waits. -/
theorem isSome_closure
    (hnext : ∀ element, ∀ other ∈ next element, other ∈ everything)
    (hseen : ∀ element ∈ seen, element ∈ everything)
    (hfuel : everything.length + queue.length ≤ fuel + seen.size) :
    (closure next fuel seen queue).isSome = true := by
  induction fuel generalizing seen queue with
  | zero =>
      cases queue with
      | nil => rfl
      | cons first rest =>
          have hsize : seen.size ≤ everything.length :=
            (List.subperm_of_subset seen.nodup hseen).length_le
          rw [List.length_cons] at hfuel
          omega
  | succ fuel ih =>
      cases queue with
      | nil => rfl
      | cons first rest =>
          have hround := size_foldl_discover (next first) (seen, rest)
          have hall : ∀ element ∈
              ((next first).foldl discover (seen, rest)).1,
              element ∈ everything := by
            intro element hmem
            obtain hnew | hold := mem_fst_foldl_discover.mp hmem
            · exact hnext first element hnew
            · exact hseen element hold
          refine ih hall ?_
          rw [List.length_cons] at hfuel
          simp only at hround
          omega

/-- The closure holds what can be reached from the seeds. -/
theorem mem_closure_iff
    (hclosure : closure next fuel (.ofList seeds) seeds = some result)
    (element : α) :
    element ∈ result ↔ ∃ seed ∈ seeds,
      Relation.ReflTransGen (fun found other => other ∈ next found)
        seed element := by
  constructor
  · have hseed : ∀ element ∈ seeds, ∃ seed ∈ seeds,
        Relation.ReflTransGen (fun found other => other ∈ next found)
          seed element :=
      fun element helement => ⟨element, helement, .refl⟩
    refine fun hmem => closure_sound (S := fun element =>
      ∃ seed ∈ seeds, Relation.ReflTransGen
        (fun found other => other ∈ next found) seed element)
      ?_ hclosure (fun element hof =>
        hseed element (InsertionSet.mem_ofList.mp hof)) hseed element hmem
    rintro element ⟨seed, hmem, hreaches⟩ other hother
    exact ⟨seed, hmem, hreaches.tail hother⟩
  · rintro ⟨seed, hmem, hreaches⟩
    have hclosed := closure_closed hclosure fun element hof =>
      .inl (InsertionSet.mem_ofList.mp hof)
    induction hreaches with
    | refl =>
        exact subset_of_closure hclosure (InsertionSet.mem_ofList.mpr hmem)
    | tail _ hother ih => exact hclosed _ ih _ hother

end TsCommons.Foundations.Worklist
