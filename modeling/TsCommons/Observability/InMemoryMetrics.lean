import TsCommons.Foundations.JsonEquality
import TsCommons.Foundations.JsonStrings
import TsCommons.Foundations.StableSort
import TsCommons.Foundations.Tally
import TsCommons.Observability.MetricTypes
import Mathlib.Algebra.BigOperators.Group.List.Basic
import Mathlib.Algebra.Order.Ring.Rat
import Mathlib.Data.Int.Notation
import Mathlib.Data.List.Lex
import Mathlib.Data.Rat.Floor

/-!
# The in-memory metrics

The entry of a metric stands under a text made of its name and its dimensions,
sorted by their keys.  Different names or dimensions have different texts.
The same dimensions have one text only if keys that the sort holds for equal
are written in the same order.
-/

namespace TsCommons.Observability

open Foundations

/-- `localeCompare`, of which only the order of two texts matters. -/
structure Collation where
  localeCompare : Text → Text → ℤ
  total : ∀ first second,
    localeCompare first second ≤ 0 ∨ localeCompare second first ≤ 0
  trans : ∀ first second third, localeCompare first second ≤ 0 →
    localeCompare second third ≤ 0 → localeCompare first third ≤ 0

/-- The order by which the entries of the dimensions are sorted. -/
def Collation.NotAfter (collation : Collation) (first second : Text × Text) :
    Prop :=
  collation.localeCompare first.1 second.1 ≤ 0

instance (collation : Collation) : DecidableRel collation.NotAfter :=
  fun first second =>
    inferInstanceAs (Decidable (collation.localeCompare first.1 second.1 ≤ 0))

instance (collation : Collation) : Std.Total collation.NotAfter :=
  ⟨fun first second => collation.total first.1 second.1⟩

instance (collation : Collation) : IsTrans (Text × Text) collation.NotAfter :=
  ⟨fun first second third => collation.trans first.1 second.1 third.1⟩

/-- An entry of the dimensions as a JSON value. -/
def pairJson (entry : Text × Text) : Json ℕ :=
  .array [.string entry.1, .string entry.2]

def dimKey (collation : Collation) (dimensions : MetricDimensions) : Text :=
  let entries := dimensions.entries.insertionSort collation.NotAfter
  Json.stringify Json.decimal (.array (entries.map pairJson))

def metricKey (collation : Collation) (series : Series) : Text :=
  series.name ++ "::".toList ++ dimKey collation series.dimensions

/-! ## Entries and snapshots -/

def computePercentile (sorted : List ℚ) (p : ℚ) : ℚ :=
  if sorted.length = 0 then 0
  else
    let idx := max 0 (⌈sorted.length * p⌉ - 1)
    sorted[idx.toNat]?.getD 0

def toHistogramSnapshot (entry : MetricEntry (List ℚ)) : HistogramSnapshot ℚ :=
  let sorted := entry.value.insertionSort (· ≤ ·)
  let count := sorted.length
  let sum := sorted.foldl (fun acc v => acc + v) 0
  { series := entry.series
    count := count
    sum := sum
    min := sorted[0]?.getD 0
    max := sorted[count - 1]?.getD 0
    avg := if 0 < count then sum / count else 0
    p50 := computePercentile sorted (1 / 2)
    p95 := computePercentile sorted (95 / 100)
    p99 := computePercentile sorted (99 / 100) }

structure InMemoryMetrics where
  counters : InsertionMap Text (MetricEntry ℚ)
  gauges : InsertionMap Text (MetricEntry ℚ)
  histograms : InsertionMap Text (MetricEntry (List ℚ))

/-- A value that is recorded for a series. -/
structure Recording where
  series : Series
  value : ℚ

/-- A new entry with the value, or the entry that exists with its value
changed. -/
def record {V : Type} (collation : Collation) (start : ℚ → V)
    (change : V → ℚ → V) (entries : InsertionMap Text (MetricEntry V))
    (recording : Recording) : InsertionMap Text (MetricEntry V) :=
  let key := metricKey collation recording.series
  match entries.get key with
  | none => entries.set key ⟨recording.series, start recording.value⟩
  | some existing =>
      entries.set key
        { existing with value := change existing.value recording.value }

namespace InMemoryMetrics

/-- The arguments of a call with their defaults. -/
def recording (name : Text) (value : ℚ)
    (dimensions : Option MetricDimensions) : Recording :=
  ⟨⟨name, dimensions.getD .empty⟩, value⟩

def incrementCounter (collation : Collation) (metrics : InMemoryMetrics)
    (name : Text) (value : Option ℚ) (dimensions : Option MetricDimensions) :
    InMemoryMetrics :=
  { metrics with
    counters := record collation id (fun sum value => sum + value)
      metrics.counters (recording name (value.getD 1) dimensions) }

def decrementCounter (collation : Collation) (metrics : InMemoryMetrics)
    (name : Text) (value : Option ℚ) (dimensions : Option MetricDimensions) :
    InMemoryMetrics :=
  incrementCounter collation metrics name (some (-value.getD 1)) dimensions

def setGauge (collation : Collation) (metrics : InMemoryMetrics)
    (name : Text) (value : ℚ) (dimensions : Option MetricDimensions) :
    InMemoryMetrics :=
  { metrics with
    gauges := record collation id (fun _ value => value) metrics.gauges
      (recording name value dimensions) }

def recordHistogram (collation : Collation) (metrics : InMemoryMetrics)
    (name : Text) (value : ℚ) (dimensions : Option MetricDimensions) :
    InMemoryMetrics :=
  { metrics with
    histograms := record collation (fun value => [value])
      (fun values value => values ++ [value]) metrics.histograms
        (recording name value dimensions) }

def getSnapshot (metrics : InMemoryMetrics) (now : ℕ) : MetricsSnapshot ℚ where
  counters := metrics.counters.values
  gauges := metrics.gauges.values
  histograms := metrics.histograms.values.map toHistogramSnapshot
  takenAtMs := now

inductive Call
  | incrementCounter (name : Text) (value : Option ℚ)
      (dimensions : Option MetricDimensions)
  | decrementCounter (name : Text) (value : Option ℚ)
      (dimensions : Option MetricDimensions)
  | setGauge (name : Text) (value : ℚ)
      (dimensions : Option MetricDimensions)
  | recordHistogram (name : Text) (value : ℚ)
      (dimensions : Option MetricDimensions)

def perform (collation : Collation) (metrics : InMemoryMetrics) :
    Call → InMemoryMetrics
  | .incrementCounter name value dimensions =>
      incrementCounter collation metrics name value dimensions
  | .decrementCounter name value dimensions =>
      decrementCounter collation metrics name value dimensions
  | .setGauge name value dimensions =>
      setGauge collation metrics name value dimensions
  | .recordHistogram name value dimensions =>
      recordHistogram collation metrics name value dimensions

def run (collation : Collation) (calls : List Call) : InMemoryMetrics :=
  calls.foldl (perform collation) ⟨.empty, .empty, .empty⟩

/-- What a call adds to a counter; a decrement adds a negative value. -/
def counted : Call → Option Recording
  | .incrementCounter name value dimensions =>
      some (recording name (value.getD 1) dimensions)
  | .decrementCounter name value dimensions =>
      some (recording name (-value.getD 1) dimensions)
  | _ => none

def gauged : Call → Option Recording
  | .setGauge name value dimensions => some (recording name value dimensions)
  | _ => none

def observed : Call → Option Recording
  | .recordHistogram name value dimensions =>
      some (recording name value dimensions)
  | _ => none

end InMemoryMetrics

/-! ## The identity of a series -/

/-- The same name and the same pairs of key and value. -/
def SameSeries (first second : Series) : Prop :=
  first.name = second.name ∧
    first.dimensions.entries.Perm second.dimensions.entries

instance : DecidableRel SameSeries := fun first second =>
  inferInstanceAs (Decidable (first.name = second.name ∧
    first.dimensions.entries.Perm second.dimensions.entries))

/-- Two values go to one entry exactly if they belong to one series. -/
def Identifies (collation : Collation) (recordings : List Recording) : Prop :=
  ∀ first ∈ recordings, ∀ second ∈ recordings,
    metricKey collation first.series = metricKey collation second.series ↔
      SameSeries first.series second.series

/-- The values of a series in the order of their recording. -/
def valuesOf (recordings : List Recording) (series : Series) : List ℚ :=
  (recordings.filter fun recording =>
    SameSeries series recording.series).map Recording.value

/-- One snapshot for each series, with what is expected of its values. -/
structure Tallied {S W : Type} (recordings : List Recording)
    (series : S → Series) (value : S → W) (expected : List ℚ → W)
    (snapshots : List S) : Prop where
  distinct : snapshots.Pairwise fun first second =>
    ¬ SameSeries (series first) (series second)
  covered : ∀ recording ∈ recordings, ∃ snapshot ∈ snapshots,
    SameSeries (series snapshot) recording.series
  recorded : ∀ snapshot ∈ snapshots,
    valuesOf recordings (series snapshot) ≠ []
  valued : ∀ snapshot ∈ snapshots,
    value snapshot = expected (valuesOf recordings (series snapshot))

/-- In all dimensions of one series, keys that compare equal come in one
order. -/
def OrderKept (collation : Collation) (recordings : List Recording) : Prop :=
  ∀ first ∈ recordings, ∀ second ∈ recordings,
    SameSeries first.series second.series →
      ∀ entry other, collation.localeCompare entry.1 other.1 ≤ 0 →
        collation.localeCompare other.1 entry.1 ≤ 0 →
          Precedes first.series.dimensions.entries entry other →
            Precedes second.series.dimensions.entries entry other

/-! ## Keys -/

variable {collation : Collation} {recordings : List Recording}

theorem ofStrings_entries (entries : List (Text × Text)) :
    Json.OfStrings (.array (entries.map pairJson)) := by
  induction entries with
  | nil => trivial
  | cons entry rest ih => exact ⟨⟨trivial, trivial, trivial⟩, ih⟩

theorem pairJson_injective : Function.Injective pairJson := by
  intro entry other heq
  simp only [pairJson, Json.array.injEq, List.cons.injEq, Json.string.injEq,
    and_true] at heq
  exact Prod.ext heq.1 heq.2

theorem closed_dimKey (collation : Collation) (dimensions : MetricDimensions) :
    Json.Closed (dimKey collation dimensions) :=
  Json.closed_stringify (ofStrings_entries _)

theorem dimKey_eq_iff {first second : MetricDimensions} :
    dimKey collation first = dimKey collation second ↔
      first.entries.insertionSort collation.NotAfter =
        second.entries.insertionSort collation.NotAfter := by
  constructor
  · intro heq
    have harray := Json.stringify_injective
      (Json.wellFormed_of_ofStrings (ofStrings_entries _))
      (Json.wellFormed_of_ofStrings (ofStrings_entries _)) heq
    exact List.map_injective_iff.mpr pairJson_injective
      (Json.array.inj harray)
  · intro heq
    simp only [dimKey, heq]

theorem metricKey_eq_iff {first second : Series} :
    metricKey collation first = metricKey collation second ↔
      first.name = second.name ∧
        dimKey collation first.dimensions =
          dimKey collation second.dimensions := by
  have hsplit (series : Series) : metricKey collation series =
      (series.name ++ [':']) ++ ':' :: dimKey collation series.dimensions := by
    simp [metricKey]
  constructor
  · intro heq
    rw [hsplit, hsplit] at heq
    obtain ⟨hname, hdims⟩ := (closed_dimKey collation _).colon_injective
      (closed_dimKey collation _) heq
    exact ⟨List.append_cancel_right hname, hdims⟩
  · rintro ⟨hname, hdims⟩
    rw [metricKey, metricKey, hname, hdims]

theorem nodup_entries (dimensions : MetricDimensions) :
    dimensions.entries.Nodup :=
  dimensions.nodup.of_map

theorem sameSeries_of_metricKey_eq {first second : Series}
    (heq : metricKey collation first = metricKey collation second) :
    SameSeries first second := by
  obtain ⟨hname, hdims⟩ := metricKey_eq_iff.mp heq
  refine ⟨hname, ?_⟩
  have hfirst := List.perm_insertionSort collation.NotAfter
    first.dimensions.entries
  rw [dimKey_eq_iff.mp hdims] at hfirst
  exact hfirst.symm.trans (List.perm_insertionSort _ _)

/-- The entries are those of the series exactly if keys that compare equal
are kept in order. -/
theorem identifies_iff :
    Identifies collation recordings ↔ OrderKept collation recordings := by
  have hpair {first second : Series} (hsame : SameSeries first second) :
      metricKey collation first = metricKey collation second ↔
        ∀ entry other, collation.NotAfter entry other →
          collation.NotAfter other entry →
            Precedes first.dimensions.entries entry other →
              Precedes second.dimensions.entries entry other := by
    rw [metricKey_eq_iff, and_iff_right hsame.1, dimKey_eq_iff]
    exact insertionSort_eq_iff _ (nodup_entries first.dimensions) hsame.2
  constructor
  · intro hidentifies first hfirst second hsecond hsame
    exact (hpair hsame).mp
      ((hidentifies first hfirst second hsecond).mpr hsame)
  · intro horder first hfirst second hsecond
    refine ⟨sameSeries_of_metricKey_eq, fun hsame => (hpair hsame).mpr ?_⟩
    exact horder first hfirst second hsecond hsame

/-! ## Entries -/

section Entries

variable {V S W : Type} {start : ℚ → V} {change : V → ℚ → V}

theorem record_eq_tallyOne (entries : InsertionMap Text (MetricEntry V))
    (recording : Recording) :
    record collation start change entries recording =
      entries.tallyOne (fun recording => metricKey collation recording.series)
        (fun recording => ⟨recording.series, start recording.value⟩)
        (fun entry recording =>
          { entry with value := change entry.value recording.value })
        recording := by
  rw [record, InsertionMap.tallyOne]
  cases entries.get (metricKey collation recording.series) with
  | none => rfl
  | some existing => rfl

theorem foldl_record (recordings : List Recording) (series : Series)
    (value : V) :
    recordings.foldl (fun (entry : MetricEntry V) recording =>
        { entry with value := change entry.value recording.value })
      ⟨series, value⟩ =
        ⟨series, (recordings.map Recording.value).foldl change value⟩ := by
  induction recordings generalizing value with
  | nil => rfl
  | cons recording rest ih => exact ih (change value recording.value)

/-- The entries after the recordings. -/
def recordAll (collation : Collation) (start : ℚ → V) (change : V → ℚ → V)
    (recordings : List Recording) : InsertionMap Text (MetricEntry V) :=
  recordings.foldl (record collation start change) .empty

theorem recordAll_eq_tally :
    recordAll collation start change recordings =
      .tally (fun recording => metricKey collation recording.series)
        (fun recording => ⟨recording.series, start recording.value⟩)
        (fun entry recording =>
          { entry with value := change entry.value recording.value })
        recordings := by
  have hrecord : record collation start change = _ :=
    funext fun entries => funext fun recording =>
      record_eq_tallyOne entries recording
  rw [recordAll, hrecord]
  rfl

/-- An entry stands under the key of its series, with what has been recorded
for the series. -/
theorem exists_of_mem_recordAll {key : Text} {entry : MetricEntry V}
    (hidentifies : Identifies collation recordings)
    (hmem : (key, entry) ∈
      (recordAll collation start change recordings).entries) :
    ∃ first ∈ recordings, key = metricKey collation first.series ∧
      entry.series = first.series ∧ ∃ value rest,
        valuesOf recordings entry.series = value :: rest ∧
          entry.value = rest.foldl change (start value) := by
  rw [recordAll_eq_tally] at hmem
  obtain ⟨first, rest, hfilter, hentry⟩ :=
    InsertionMap.exists_of_mem_tally hmem
  rw [foldl_record] at hentry
  subst hentry
  have hfirst : first ∈ recordings.filter fun recording =>
      metricKey collation recording.series = key := by
    rw [hfilter]
    exact List.mem_cons_self
  obtain ⟨hfirstMem, hkey⟩ := List.mem_filter.mp hfirst
  rw [decide_eq_true_iff] at hkey
  refine ⟨first, hfirstMem, hkey.symm, rfl, first.value,
    rest.map Recording.value, ?_, rfl⟩
  rw [valuesOf, ← List.map_cons, ← hfilter]
  congr 1
  apply List.filter_congr
  intro recording hrecording
  rw [← hkey, decide_eq_decide, eq_comm]
  exact (hidentifies first hfirstMem recording hrecording).symm

/-- With entries that are those of the series, the snapshots are what is
expected of each series. -/
theorem tallied_recordAll (hidentifies : Identifies collation recordings)
    {snapshot : MetricEntry V → S} {series : S → Series} {value : S → W}
    {expected : List ℚ → W}
    (hseries : ∀ entry, series (snapshot entry) = entry.series)
    (hvalue : ∀ entry first rest,
      entry.value = rest.foldl change (start first) →
        value (snapshot entry) = expected (first :: rest)) :
    Tallied recordings series value expected
      ((recordAll collation start change recordings).values.map snapshot) := by
  have hentry {shown : S} (hshown : shown ∈
      (recordAll collation start change recordings).values.map snapshot) :
      ∃ key entry, (key, entry) ∈
        (recordAll collation start change recordings).entries ∧
          snapshot entry = shown := by
    obtain ⟨entry, hentry, rfl⟩ := List.mem_map.mp hshown
    obtain ⟨pair, hpair, rfl⟩ := List.mem_map.mp hentry
    exact ⟨pair.1, pair.2, hpair, rfl⟩
  constructor
  · have hkeys := List.pairwise_map.mp
      (recordAll collation start change recordings).nodup
    rw [InsertionMap.values, List.map_map, List.pairwise_map]
    refine hkeys.imp_of_mem fun hfirst hsecond hne hsame => hne ?_
    obtain ⟨first, hfirstMem, hfirstKey, hfirstSeries, -⟩ :=
      exists_of_mem_recordAll hidentifies hfirst
    obtain ⟨second, hsecondMem, hsecondKey, hsecondSeries, -⟩ :=
      exists_of_mem_recordAll hidentifies hsecond
    rw [hfirstKey, hsecondKey]
    apply (hidentifies first hfirstMem second hsecondMem).mpr
    rw [← hfirstSeries, ← hsecondSeries]
    simpa [hseries] using hsame
  · intro recording hrecording
    obtain ⟨entry, hmem⟩ : ∃ entry,
        (metricKey collation recording.series, entry) ∈
          (recordAll collation start change recordings).entries := by
      rw [recordAll_eq_tally]
      exact InsertionMap.exists_entry_of_mem hrecording
    obtain ⟨first, hfirstMem, hkey, hentrySeries, -⟩ :=
      exists_of_mem_recordAll hidentifies hmem
    refine ⟨snapshot entry, List.mem_map_of_mem
      (List.mem_map_of_mem (f := Prod.snd) hmem), ?_⟩
    rw [hseries, hentrySeries]
    exact (hidentifies first hfirstMem recording hrecording).mp hkey.symm
  · intro shown hshown
    obtain ⟨key, entry, hmem, rfl⟩ := hentry hshown
    obtain ⟨-, -, -, -, first, rest, hvalues, -⟩ :=
      exists_of_mem_recordAll hidentifies hmem
    rw [hseries, hvalues]
    exact List.cons_ne_nil first rest
  · intro shown hshown
    obtain ⟨key, entry, hmem, rfl⟩ := hentry hshown
    obtain ⟨-, -, -, -, first, rest, hvalues, hfold⟩ :=
      exists_of_mem_recordAll hidentifies hmem
    rw [hseries, hvalues]
    exact hvalue entry first rest hfold

end Entries

/-! ## Runs -/

namespace InMemoryMetrics

theorem recordAll_concat {V : Type} (start : ℚ → V) (change : V → ℚ → V)
    (recording : Recording) :
    recordAll collation start change (recordings ++ [recording]) =
      record collation start change
        (recordAll collation start change recordings) recording :=
  List.foldl_concat ..

/-- The entries of each kind come from the calls of that kind. -/
theorem run_eq (collation : Collation) (calls : List Call) :
    run collation calls =
      ⟨recordAll collation id (fun sum value => sum + value)
          (calls.filterMap counted),
        recordAll collation id (fun _ value => value)
          (calls.filterMap gauged),
        recordAll collation (fun value => [value])
          (fun values value => values ++ [value])
          (calls.filterMap observed)⟩ := by
  induction calls using List.reverseRecOn with
  | nil => rfl
  | append_singleton calls call ih =>
      have hconcat : run collation (calls ++ [call]) =
          perform collation (run collation calls) call := List.foldl_concat ..
      rw [hconcat, ih]
      cases call with
      | incrementCounter name value dimensions =>
          simp only [perform, incrementCounter, List.filterMap_append,
            List.filterMap_cons, List.filterMap_nil, counted, gauged,
            observed, List.append_nil, recordAll_concat]
      | decrementCounter name value dimensions =>
          simp only [perform, decrementCounter, incrementCounter,
            List.filterMap_append, List.filterMap_cons, List.filterMap_nil,
            counted, gauged, observed, List.append_nil, recordAll_concat,
            Option.getD_some]
      | setGauge name value dimensions =>
          simp only [perform, setGauge, List.filterMap_append,
            List.filterMap_cons, List.filterMap_nil, counted, gauged,
            observed, List.append_nil, recordAll_concat]
      | recordHistogram name value dimensions =>
          simp only [perform, recordHistogram, List.filterMap_append,
            List.filterMap_cons, List.filterMap_nil, counted, gauged,
            observed, List.append_nil, recordAll_concat]

/-- Entries are those of the series, and each is in the snapshot once: a
counter with the sum of what was added, a gauge with the last value, and a
histogram with the number and the sum of its values. -/
structure IdentityLaw (collation : Collation) (calls : List Call) (now : ℕ) :
    Prop where
  counterEntries : Identifies collation (calls.filterMap counted)
  gaugeEntries : Identifies collation (calls.filterMap gauged)
  histogramEntries : Identifies collation (calls.filterMap observed)
  counters : Tallied (calls.filterMap counted) MetricEntry.series
    MetricEntry.value List.sum ((run collation calls).getSnapshot now).counters
  gauges : Tallied (calls.filterMap gauged) MetricEntry.series
    (fun gauge => some gauge.value) List.getLast?
      ((run collation calls).getSnapshot now).gauges
  histograms : Tallied (calls.filterMap observed) HistogramSnapshot.series
    (fun histogram => (histogram.count, histogram.sum))
      (fun values => ((values.length : ℚ), values.sum))
        ((run collation calls).getSnapshot now).histograms

theorem foldl_add_eq_sum (first : ℚ) (rest : List ℚ) :
    rest.foldl (fun sum value => sum + value) (id first) =
      (first :: rest).sum := by
  rw [List.sum_eq_foldl, List.foldl_cons, zero_add]
  rfl

theorem foldl_last (first : ℚ) (rest : List ℚ) :
    some (rest.foldl (fun _ value => value) (id first)) =
      (first :: rest).getLast? := by
  induction rest using List.reverseRecOn with
  | nil => rfl
  | append_singleton rest last =>
      rw [List.foldl_concat, ← List.cons_append, List.getLast?_concat]

theorem foldl_concat_eq (first : ℚ) (rest : List ℚ) :
    rest.foldl (fun values value => values ++ [value]) [first] =
      first :: rest := by
  induction rest using List.reverseRecOn with
  | nil => rfl
  | append_singleton rest last ih =>
      rw [List.foldl_concat, ih, List.cons_append]

theorem toHistogramSnapshot_count (entry : MetricEntry (List ℚ)) :
    (toHistogramSnapshot entry).count = entry.value.length :=
  congrArg Nat.cast (List.length_insertionSort _ _)

theorem toHistogramSnapshot_sum (entry : MetricEntry (List ℚ)) :
    (toHistogramSnapshot entry).sum = entry.value.sum :=
  List.sum_eq_foldl.symm.trans (List.perm_insertionSort _ _).sum_eq

/-- The identities hold exactly if keys that compare equal come in one order
in all dimensions of one series. -/
theorem identityLaw_iff (collation : Collation) (calls : List Call)
    (now : ℕ) :
    IdentityLaw collation calls now ↔
      OrderKept collation (calls.filterMap counted) ∧
        OrderKept collation (calls.filterMap gauged) ∧
          OrderKept collation (calls.filterMap observed) := by
  rw [← identifies_iff, ← identifies_iff, ← identifies_iff]
  constructor
  · exact fun hlaw =>
      ⟨hlaw.counterEntries, hlaw.gaugeEntries, hlaw.histogramEntries⟩
  · rintro ⟨hcounters, hgauges, hhistograms⟩
    refine ⟨hcounters, hgauges, hhistograms, ?_, ?_, ?_⟩
    · have hsnapshot : ((run collation calls).getSnapshot now).counters =
          (recordAll collation id (fun sum value => sum + value)
            (calls.filterMap counted)).values.map id := by
        rw [run_eq]
        exact (List.map_id _).symm
      rw [hsnapshot]
      refine tallied_recordAll hcounters (fun _ => rfl) ?_
      exact fun entry first rest hfold =>
        hfold.trans (foldl_add_eq_sum first rest)
    · have hsnapshot : ((run collation calls).getSnapshot now).gauges =
          (recordAll collation id (fun _ value => value)
            (calls.filterMap gauged)).values.map id := by
        rw [run_eq]
        exact (List.map_id _).symm
      rw [hsnapshot]
      refine tallied_recordAll hgauges (fun _ => rfl) ?_
      exact fun entry first rest hfold =>
        (congrArg some hfold).trans (foldl_last first rest)
    · rw [run_eq, getSnapshot]
      refine tallied_recordAll hhistograms (fun _ => rfl) ?_
      intro entry first rest hfold
      rw [foldl_concat_eq] at hfold
      rw [toHistogramSnapshot_count, toHistogramSnapshot_sum, hfold]

/-- A collation that does not tell a letter with an accent from the letter
followed by the accent. -/
def decompose (text : Text) : List ℕ :=
  text.flatMap fun char =>
    if char = '\u00e9' then [101, 769] else [char.toNat]

def canonical : Collation where
  localeCompare first second :=
    if decompose first ≤ decompose second then
      if decompose second ≤ decompose first then 0 else -1
    else 1
  total first second := by
    rcases le_total (decompose first) (decompose second) with hle | hle
    · left
      rw [if_pos hle]
      split <;> decide
    · right
      rw [if_pos hle]
      split <;> decide
  trans first second third hfirst hsecond := by
    have hle {one other : Text} (hcompare :
        (if decompose one ≤ decompose other then
          if decompose other ≤ decompose one then (0 : ℤ) else -1
          else 1) ≤ 0) : decompose one ≤ decompose other := by
      by_contra hnot
      rw [if_neg hnot] at hcompare
      exact absurd hcompare (by decide)
    rw [if_pos ((hle hfirst).trans (hle hsecond))]
    split <;> decide

def composed : Text := ['\u00e9']

def decomposed : Text := ['e', '\u0301']

/-- The two spellings as keys, in either order. -/
def spellings (first second : Text × Text) : MetricDimensions :=
  (InsertionMap.empty.set first.1 first.2).set second.1 second.2

def bothOrders : List Call :=
  [.incrementCounter ['n'] none
    (some (spellings (composed, ['1']) (decomposed, ['2']))),
    .incrementCounter ['n'] none
      (some (spellings (decomposed, ['2']) (composed, ['1'])))]

/-- The same dimensions in two orders are counted apart. -/
theorem not_identityLaw_bothOrders : ¬ IdentityLaw canonical bothOrders 0 := by
  intro hlaw
  have horder := identifies_iff.mp hlaw.counterEntries
  have hprecedes := horder _ List.mem_cons_self _
    (List.mem_cons_of_mem _ List.mem_cons_self) (by decide +kernel)
    (composed, ['1']) (decomposed, ['2']) (by decide +kernel)
    (by decide +kernel) (by decide +kernel)
  exact absurd hprecedes (by decide +kernel)

end InMemoryMetrics

end TsCommons.Observability
