import Mathlib.Algebra.BigOperators.Group.List.Basic
import Mathlib.Algebra.Order.Field.Basic
import Mathlib.Tactic.Linarith

/-!
# Token buckets

A bucket holds at most `capacity` and gains at most `rate` in a unit of time.
Whatever is drawn from it between two moments was in it at the first one or
has come in since, so a window of length `d` sees at most
`capacity + rate * d` drawn.
-/

namespace TsCommons.Foundations.TokenBucket

variable {K : Type*} [Field K] [LinearOrder K]

structure Draw (K : Type*) where
  time : K
  amount : K

/-- What is drawn from the first moment on. -/
def drawnSince (first : K) (draws : List (Draw K)) : K :=
  ((draws.filter fun draw => first ≤ draw.time).map Draw.amount).sum

/-- What is drawn between two moments, the moments included. -/
def drawnBetween (first last : K) (draws : List (Draw K)) : K :=
  drawnSince first (draws.filter fun draw => draw.time ≤ last)

theorem drawnSince_cons (first : K) (draw : Draw K) (draws : List (Draw K)) :
    drawnSince first (draw :: draws) =
      (if first ≤ draw.time then draw.amount else 0) +
        drawnSince first draws := by
  by_cases hdraw : first ≤ draw.time <;> simp [drawnSince, hdraw]

theorem drawnSince_eq_zero {first : K} {draws : List (Draw K)}
    (hbefore : ∀ draw ∈ draws, draw.time < first) :
    drawnSince first draws = 0 := by
  have hfilter : (draws.filter fun draw => first ≤ draw.time) = [] := by
    apply List.filter_eq_nil_iff.mpr
    intro draw hmem
    simpa using hbefore draw hmem
  rw [drawnSince, hfilter]
  rfl

theorem drawnBetween_eq_drawnSince {first last : K} {draws : List (Draw K)}
    (hpast : ∀ draw ∈ draws, draw.time ≤ last) :
    drawnBetween first last draws = drawnSince first draws := by
  have hfilter : (draws.filter fun draw => draw.time ≤ last) = draws := by
    apply List.filter_eq_self.mpr
    intro draw hmem
    simpa using hpast draw hmem
  rw [drawnBetween, hfilter]

theorem drawnBetween_cons_of_lt {first last : K} {draw : Draw K}
    (hlater : last < draw.time) (draws : List (Draw K)) :
    drawnBetween first last (draw :: draws) =
      drawnBetween first last draws := by
  simp [drawnBetween, hlater]

/-- What a bucket with this level at this moment has let through. -/
structure Bounded (capacity rate : K) (draws : List (Draw K))
    (now level : K) : Prop where
  nonneg : 0 ≤ level
  le_capacity : level ≤ capacity
  past : ∀ draw ∈ draws, draw.time ≤ now
  since : ∀ first ≤ now,
    drawnSince first draws + level ≤ capacity + rate * (now - first)
  between : ∀ first last, first ≤ last →
    drawnBetween first last draws ≤ capacity + rate * (last - first)

namespace Bounded

variable [IsStrictOrderedRing K] {capacity rate now level : K}
  {draws : List (Draw K)}

theorem full (hcapacity : 0 ≤ capacity) (hrate : 0 ≤ rate) (now : K) :
    Bounded capacity rate [] now capacity := by
  have hroom : ∀ first last, first ≤ last →
      capacity ≤ capacity + rate * (last - first) := by
    intro first last hle
    have hgain := mul_nonneg hrate (sub_nonneg.mpr hle)
    linarith
  refine ⟨hcapacity, le_rfl, by simp, fun first hle => ?_,
    fun first last hle => ?_⟩
  · simpa [drawnSince] using hroom first now hle
  · have hzero : drawnBetween first last ([] : List (Draw K)) = 0 := rfl
    rw [hzero]
    exact hcapacity.trans (hroom first last hle)

/-- The level rises by no more than comes in, and not above the capacity. -/
theorem refill (hbounded : Bounded capacity rate draws now level)
    (hrate : 0 ≤ rate) {later filled : K} (hle : now ≤ later)
    (hnonneg : 0 ≤ filled) (hcapacity : filled ≤ capacity)
    (hfilled : filled ≤ level + rate * (later - now)) :
    Bounded capacity rate draws later filled := by
  refine ⟨hnonneg, hcapacity, fun draw hmem => ?_, fun first hfirst => ?_,
    hbounded.between⟩
  · exact (hbounded.past draw hmem).trans hle
  · rcases le_or_gt first now with hbefore | hafter
    · have hsince := hbounded.since first hbefore
      linarith [mul_sub rate later first, mul_sub rate now first,
        mul_sub rate later now]
    · have hzero : drawnSince first draws = 0 := by
        apply drawnSince_eq_zero
        intro draw hmem
        exact (hbounded.past draw hmem).trans_lt hafter
      have hgain := mul_nonneg hrate (sub_nonneg.mpr hfirst)
      linarith

/-- An amount that is in the bucket is drawn from it. -/
theorem draw (hbounded : Bounded capacity rate draws now level)
    (hrate : 0 ≤ rate) {amount : K} (hamount : 0 ≤ amount)
    (hle : amount ≤ level) :
    Bounded capacity rate (⟨now, amount⟩ :: draws) now (level - amount) := by
  have hpast : ∀ draw ∈ (⟨now, amount⟩ :: draws : List (Draw K)),
      draw.time ≤ now := by
    intro draw hmem
    rcases List.mem_cons.mp hmem with rfl | hold
    · exact le_rfl
    · exact hbounded.past draw hold
  have hsince : ∀ first ≤ now,
      drawnSince first (⟨now, amount⟩ :: draws) + (level - amount) ≤
        capacity + rate * (now - first) := by
    intro first hfirst
    have hbefore := hbounded.since first hfirst
    rw [drawnSince_cons, if_pos hfirst]
    linarith
  refine ⟨by linarith, by linarith [hbounded.le_capacity], hpast, hsince,
    fun first last hwindow => ?_⟩
  rcases lt_or_ge last now with hearlier | hlater
  · rw [drawnBetween_cons_of_lt hearlier]
    exact hbounded.between first last hwindow
  · rw [drawnBetween_eq_drawnSince
      fun draw hmem => (hpast draw hmem).trans hlater]
    rcases le_or_gt first now with hfirst | hfirst
    · have hdrawn := hsince first hfirst
      have hgain := mul_nonneg hrate (sub_nonneg.mpr hlater)
      linarith [mul_sub rate now first, mul_sub rate last first,
        mul_sub rate last now]
    · rw [drawnSince_eq_zero
        fun draw hmem => (hpast draw hmem).trans_lt hfirst]
      have hgain := mul_nonneg hrate (sub_nonneg.mpr hwindow)
      linarith [hbounded.nonneg, hbounded.le_capacity]

end Bounded

end TsCommons.Foundations.TokenBucket
