import TsCommons.Foundations.InsertionMap
import TsCommons.Foundations.Text

/-!
# Metrics and their snapshots

A series is a metric name with dimensions.  The type of the numbers is left
open.
-/

namespace TsCommons.Observability

open Foundations

/-- The entries stand in the order of `Object.entries`. -/
abbrev MetricDimensions := InsertionMap Text Text

/-- A name with dimensions. -/
structure Series where
  name : Text
  dimensions : MetricDimensions
deriving DecidableEq

/-- A counter or a gauge with a value, or a histogram with its values. -/
structure MetricEntry (V : Type) where
  series : Series
  value : V

structure HistogramSnapshot (N : Type) where
  series : Series
  count : N
  sum : N
  min : N
  max : N
  avg : N
  p50 : N
  p95 : N
  p99 : N

structure MetricsSnapshot (N : Type) where
  counters : List (MetricEntry N)
  gauges : List (MetricEntry N)
  histograms : List (HistogramSnapshot N)
  takenAtMs : ℕ

end TsCommons.Observability
