import TsCommons.Foundations.Exposition
import TsCommons.Foundations.JsonRoundTrip
import TsCommons.Observability.MetricTypes
import Mathlib.Data.List.Perm.Subperm

/-!
# The Grafana exporter

A snapshot is written in the Prometheus exposition format, with a line for the
type of each series and no escapes.  It is read back only if no two series have
one name, none has the name of the count or the sum of a histogram, no value of
a label needs an escape, and no dimension of a histogram is called `quantile`.
-/

namespace TsCommons.Observability

open Foundations
open Foundations.Exposition

variable {N : Type}

def dimensionsToLabels (dimensions : MetricDimensions) : Text :=
  [','].intercalate (dimensions.entries.map fun entry =>
    entry.1 ++ '=' :: '"' :: (entry.2 ++ ['"']))

def labelStr (dimensions : MetricDimensions) : Text :=
  let inner := dimensionsToLabels dimensions
  if 0 < inner.length then '\x7b' :: (inner ++ ['\x7d']) else []

/-- The lines of a counter or a gauge. -/
def buildLines (format : NumberText N) (kind : Text) (entry : MetricEntry N) :
    Text :=
  typeMark ++ (entry.series.name ++ ' ' :: kind) ++
    '\n' :: (entry.series.name ++ (labelStr entry.series.dimensions ++
      ' ' :: format.text entry.value))

def buildCounterLines (format : NumberText N) (counter : MetricEntry N) :
    Text :=
  buildLines format "counter".toList counter

def buildGaugeLines (format : NumberText N) (gauge : MetricEntry N) : Text :=
  buildLines format "gauge".toList gauge

def quantileKey : Text := "quantile".toList

def quantileLabelStr (dimensions : MetricDimensions) (quantile : Text) :
    Text :=
  let inner := dimensionsToLabels dimensions
  let last := quantileKey ++ '=' :: '"' :: (quantile ++ ['"'])
  if 0 < inner.length then '\x7b' :: (inner ++ ',' :: last ++ ['\x7d'])
  else '\x7b' :: (last ++ ['\x7d'])

def countSuffix : Text := "_count".toList

def sumSuffix : Text := "_sum".toList

def buildHistogramLines (format : NumberText N)
    (histogram : HistogramSnapshot N) : Text :=
  let name := histogram.series.name
  let base := labelStr histogram.series.dimensions
  let quantile (q : String) (value : N) : Text :=
    name ++ (quantileLabelStr histogram.series.dimensions q.toList ++
      ' ' :: format.text value)
  ['\n'].intercalate [
    typeMark ++ (name ++ ' ' :: "summary".toList),
    name ++ countSuffix ++ (base ++ ' ' :: format.text histogram.count),
    name ++ sumSuffix ++ (base ++ ' ' :: format.text histogram.sum),
    quantile "0.5" histogram.p50,
    quantile "0.95" histogram.p95,
    quantile "0.99" histogram.p99]

def buildPrometheusBody (format : NumberText N)
    (snapshot : MetricsSnapshot N) : Text :=
  ['\n', '\n'].intercalate
    (snapshot.counters.map (buildCounterLines format) ++
      snapshot.gauges.map (buildGaugeLines format) ++
        snapshot.histograms.map (buildHistogramLines format))

/-! ## What should be read -/

def seriesOf (snapshot : MetricsSnapshot N) : List Series :=
  snapshot.counters.map MetricEntry.series ++
    snapshot.gauges.map MetricEntry.series ++
      snapshot.histograms.map HistogramSnapshot.series

/-- The names of metrics and labels are those of the format. -/
def ValidNames (snapshot : MetricsSnapshot N) : Prop :=
  ∀ series ∈ seriesOf snapshot, IsMetricName series.name ∧
    ∀ entry ∈ series.dimensions.entries, IsLabelName entry.1

def entrySample (entry : MetricEntry N) : Sample N :=
  ⟨entry.series.name, entry.series.dimensions.entries, entry.value⟩

def quantileSample (histogram : HistogramSnapshot N) (q : String)
    (value : N) : Sample N :=
  ⟨histogram.series.name,
    histogram.series.dimensions.entries ++ [(quantileKey, q.toList)], value⟩

def histogramSamples (histogram : HistogramSnapshot N) : List (Sample N) :=
  [⟨histogram.series.name ++ countSuffix,
      histogram.series.dimensions.entries, histogram.count⟩,
    ⟨histogram.series.name ++ sumSuffix,
      histogram.series.dimensions.entries, histogram.sum⟩,
    quantileSample histogram "0.5" histogram.p50,
    quantileSample histogram "0.95" histogram.p95,
    quantileSample histogram "0.99" histogram.p99]

def expectedSamples (snapshot : MetricsSnapshot N) : List (Sample N) :=
  snapshot.counters.map entrySample ++ snapshot.gauges.map entrySample ++
    snapshot.histograms.flatMap histogramSamples

def expectedTypes (snapshot : MetricsSnapshot N) : List (Text × Kind) :=
  snapshot.counters.map (fun counter => (counter.series.name, .counter)) ++
    snapshot.gauges.map (fun gauge => (gauge.series.name, .gauge)) ++
      snapshot.histograms.map fun histogram =>
        (histogram.series.name, .summary)

/-- The sample is one of the metric: under its name, or the count or the sum of
a summary. -/
def IsOf (metric : Text × Kind) (sample : Sample N) : Prop :=
  sample.name = metric.1 ∨ metric.2 = .summary ∧
    (sample.name = metric.1 ++ countSuffix ∨
      sample.name = metric.1 ++ sumSuffix)

/-- The labels are the same apart from their order. -/
def SameLine (first second : Sample N) : Prop :=
  first.name = second.name ∧ first.labels.Perm second.labels

/-- Each metric has one type, each sample is one of exactly one metric and has
no label twice, and no two samples have the same name and labels. -/
structure WellFormed (items : List (Item N)) : Prop where
  types : ((typesOf items).map Prod.fst).Nodup
  metrics : ∀ sample ∈ samplesOf items,
    ∃! metric, metric ∈ typesOf items ∧ IsOf metric sample
  labels : ∀ sample ∈ samplesOf items, (sample.labels.map Prod.fst).Nodup
  lines : (samplesOf items).Pairwise fun first second =>
    ¬ SameLine first second

/-- The text is well formed and is read as the samples and the types of the
snapshot. -/
def IsFaithful (format : NumberText N) (snapshot : MetricsSnapshot N)
    (text : Text) : Prop :=
  ∃ items, parse format text = some items ∧ WellFormed items ∧
    samplesOf items = expectedSamples snapshot ∧
    ∀ found, found ∈ typesOf items ↔ found ∈ expectedTypes snapshot

structure IsExpressible (snapshot : MetricsSnapshot N) : Prop where
  names : ((seriesOf snapshot).map Series.name).Nodup
  parts : ∀ histogram ∈ snapshot.histograms, ∀ series ∈ seriesOf snapshot,
    series.name ≠ histogram.series.name ++ countSuffix ∧
      series.name ≠ histogram.series.name ++ sumSuffix
  values : ∀ series ∈ seriesOf snapshot, PlainLabels series.dimensions.entries
  quantiles : ∀ histogram ∈ snapshot.histograms,
    quantileKey ∉ histogram.series.dimensions.keys

/-! ## The lines of the body -/

variable {format : NumberText N} {snapshot : MetricsSnapshot N}

theorem dimensionsToLabels_eq (dimensions : MetricDimensions) :
    dimensionsToLabels dimensions = labelsText dimensions.entries := rfl

theorem length_labelsText_pos {labels : List (Text × Text)}
    (hne : labels ≠ []) : 0 < (labelsText labels).length :=
  (List.length_pos_iff.mpr hne).trans_le (length_le_labelsText labels)

theorem labelStr_eq (dimensions : MetricDimensions) :
    labelStr dimensions = braces dimensions.entries := by
  by_cases hnil : dimensions.entries = []
  · simp only [labelStr, dimensionsToLabels_eq, hnil]
    rfl
  · rw [labelStr, dimensionsToLabels_eq, if_pos (length_labelsText_pos hnil),
      braces_of_ne_nil hnil]

theorem quantileLabelStr_eq (dimensions : MetricDimensions) (q : Text) :
    quantileLabelStr dimensions q =
      braces (dimensions.entries ++ [(quantileKey, q)]) := by
  rw [braces_of_ne_nil (List.append_ne_nil_of_right_ne_nil _
    (List.cons_ne_nil _ _))]
  by_cases hnil : dimensions.entries = []
  · simp only [quantileLabelStr, dimensionsToLabels_eq, hnil,
      List.nil_append, labelsText_singleton]
    exact if_neg (lt_irrefl 0)
  · simp only [quantileLabelStr, dimensionsToLabels_eq,
      labelsText_concat _ hnil]
    exact if_pos (length_labelsText_pos hnil)

def entryItems (kind : Kind) (entry : MetricEntry N) : List (Item N) :=
  [.type entry.series.name kind, .sample (entrySample entry)]

def histogramItems (histogram : HistogramSnapshot N) : List (Item N) :=
  .type histogram.series.name .summary ::
    (histogramSamples histogram).map .sample

/-- What the body is written for. -/
def written (snapshot : MetricsSnapshot N) : List (Item N) :=
  snapshot.counters.flatMap (entryItems .counter) ++
    snapshot.gauges.flatMap (entryItems .gauge) ++
      snapshot.histograms.flatMap histogramItems

theorem buildLines_eq (kind : Kind) (entry : MetricEntry N) :
    buildLines format kind.text entry =
      ['\n'].intercalate ((entryItems kind entry).map
        (Item.unescaped format)) := by
  simp only [buildLines, labelStr_eq, entryItems, entrySample, List.map_cons,
    List.map_nil, Item.unescaped, sampleText, typeText,
    List.intercalate_cons_cons, List.intercalate_singleton,
    List.append_assoc, List.singleton_append]

theorem buildHistogramLines_eq (histogram : HistogramSnapshot N) :
    buildHistogramLines format histogram =
      ['\n'].intercalate ((histogramItems histogram).map
        (Item.unescaped format)) := by
  have hsummary : Kind.summary.text = "summary".toList := rfl
  simp only [buildHistogramLines, labelStr_eq, quantileLabelStr_eq,
    histogramItems, histogramSamples, quantileSample, List.map_cons,
    List.map_nil, Item.unescaped, sampleText, typeText, hsummary]

theorem contentLines_body (format : NumberText N)
    (snapshot : MetricsSnapshot N) :
    contentLines (buildPrometheusBody format snapshot) =
      (written snapshot).flatMap fun item =>
        contentLines (item.unescaped format) := by
  have hlines (items : List (Item N)) :
      contentLines (['\n'].intercalate (items.map (Item.unescaped format))) =
        items.flatMap fun item => contentLines (item.unescaped format) := by
    rw [contentLines_intercalate (Or.inl rfl), List.flatMap_map]
  have hcounters : snapshot.counters.map (buildCounterLines format) =
      snapshot.counters.map fun counter => ['\n'].intercalate
        ((entryItems .counter counter).map (Item.unescaped format)) :=
    List.map_congr_left fun counter _ => buildLines_eq .counter counter
  have hgauges : snapshot.gauges.map (buildGaugeLines format) =
      snapshot.gauges.map fun gauge => ['\n'].intercalate
        ((entryItems .gauge gauge).map (Item.unescaped format)) :=
    List.map_congr_left fun gauge _ => buildLines_eq .gauge gauge
  have hhistograms : snapshot.histograms.map (buildHistogramLines format) =
      snapshot.histograms.map fun histogram => ['\n'].intercalate
        ((histogramItems histogram).map (Item.unescaped format)) :=
    List.map_congr_left fun histogram _ => buildHistogramLines_eq histogram
  rw [buildPrometheusBody, hcounters, hgauges, hhistograms,
    contentLines_intercalate (Or.inr rfl), written]
  simp only [List.flatMap_append, List.flatMap_map, hlines,
    List.flatMap_assoc]

/-! ## The items -/

theorem samplesOf_written (snapshot : MetricsSnapshot N) :
    samplesOf (written snapshot) = expectedSamples snapshot := by
  have hentries (kind : Kind) (entries : List (MetricEntry N)) :
      samplesOf (entries.flatMap (entryItems kind)) =
        entries.map entrySample := by
    rw [samplesOf, List.filterMap_flatMap, List.map_eq_flatMap]
    rfl
  have hhistograms (histograms : List (HistogramSnapshot N)) :
      samplesOf (histograms.flatMap histogramItems) =
        histograms.flatMap histogramSamples := by
    rw [samplesOf, List.filterMap_flatMap]
    rfl
  rw [written, samplesOf, List.filterMap_append, List.filterMap_append]
  exact congrArg₂ _ (congrArg₂ _ (hentries .counter snapshot.counters)
    (hentries .gauge snapshot.gauges)) (hhistograms snapshot.histograms)

theorem typesOf_written (snapshot : MetricsSnapshot N) :
    typesOf (written snapshot) = expectedTypes snapshot := by
  have hentries (kind : Kind) (entries : List (MetricEntry N)) :
      typesOf (entries.flatMap (entryItems kind)) =
        entries.map fun entry => (entry.series.name, kind) := by
    rw [typesOf, List.filterMap_flatMap, List.map_eq_flatMap]
    rfl
  have hhistograms (histograms : List (HistogramSnapshot N)) :
      typesOf (histograms.flatMap histogramItems) =
        histograms.map fun histogram =>
          (histogram.series.name, .summary) := by
    rw [typesOf, List.filterMap_flatMap, List.map_eq_flatMap]
    rfl
  rw [written, typesOf, List.filterMap_append, List.filterMap_append]
  exact congrArg₂ _ (congrArg₂ _ (hentries .counter snapshot.counters)
    (hentries .gauge snapshot.gauges)) (hhistograms snapshot.histograms)

theorem map_fst_expectedTypes (snapshot : MetricsSnapshot N) :
    (expectedTypes snapshot).map Prod.fst =
      (seriesOf snapshot).map Series.name := by
  simp only [expectedTypes, seriesOf, List.map_append, List.map_map]
  rfl

theorem isMetricName_append {name suffix : Text} (hname : IsMetricName name)
    (hsuffix : ∀ char ∈ suffix, isMetricChar char = true) :
    IsMetricName (name ++ suffix) := by
  obtain ⟨hall, first, hfirst, hdigit⟩ := isName_iff.mp hname
  rw [Option.mem_def] at hfirst
  refine isName_iff.mpr ⟨fun char hchar => ?_, first, ?_, hdigit⟩
  · exact (List.mem_append.mp hchar).elim (hall char) (hsuffix char)
  · rw [Option.mem_def, List.head?_append, hfirst, Option.some_or]

theorem isLabelName_quantileKey : IsLabelName quantileKey := by
  have hname : isName isNameChar quantileKey = true := by decide +kernel
  exact hname

/-- Each item is a type of a series, or a sample of one with its labels or with
the label of a quantile as well. -/
inductive Written (snapshot : MetricsSnapshot N) : Item N → Prop
  | type {series : Series} (kind : Kind)
      (hseries : series ∈ seriesOf snapshot) :
      Written snapshot (.type series.name kind)
  | sample {series : Series} {suffix : Text} (value : N)
      (hseries : series ∈ seriesOf snapshot)
      (hsuffix : ∀ char ∈ suffix, isMetricChar char = true) :
      Written snapshot (.sample
        ⟨series.name ++ suffix, series.dimensions.entries, value⟩)
  | quantile {histogram : HistogramSnapshot N} {q : String} (value : N)
      (hhistogram : histogram ∈ snapshot.histograms)
      (hplain : ∀ char ∈ q.toList, isSpecial char = false) :
      Written snapshot (.sample (quantileSample histogram q value))

theorem mem_seriesOf_of_histogram {histogram : HistogramSnapshot N}
    (hhistogram : histogram ∈ snapshot.histograms) :
    histogram.series ∈ seriesOf snapshot :=
  List.mem_append_right _ (List.mem_map_of_mem hhistogram)

theorem written_of_entryItems {kind : Kind} {entry : MetricEntry N}
    {item : Item N} (hentry : entry.series ∈ seriesOf snapshot)
    (hitem : item ∈ entryItems kind entry) : Written snapshot item := by
  simp only [entryItems, List.mem_cons, List.not_mem_nil, or_false] at hitem
  rcases hitem with rfl | rfl
  · exact .type kind hentry
  · have hsample : Written snapshot (.sample
        ⟨entry.series.name ++ [], entry.series.dimensions.entries,
          entry.value⟩) :=
      .sample entry.value hentry (List.forall_mem_nil _)
    rwa [List.append_nil] at hsample

theorem written_of_histogramItems {histogram : HistogramSnapshot N}
    {item : Item N} (hhistogram : histogram ∈ snapshot.histograms)
    (hitem : item ∈ histogramItems histogram) : Written snapshot item := by
  have hseries := mem_seriesOf_of_histogram hhistogram
  simp only [histogramItems, histogramSamples, List.map_cons, List.map_nil,
    List.mem_cons, List.not_mem_nil, or_false] at hitem
  rcases hitem with rfl | rfl | rfl | rfl | rfl | rfl
  · exact .type .summary hseries
  · exact .sample histogram.count hseries
      (Text.forall_mem_of_all (by decide +kernel))
  · exact .sample histogram.sum hseries
      (Text.forall_mem_of_all (by decide +kernel))
  · exact .quantile histogram.p50 hhistogram
      (Text.forall_mem_of_all (by decide +kernel))
  · exact .quantile histogram.p95 hhistogram
      (Text.forall_mem_of_all (by decide +kernel))
  · exact .quantile histogram.p99 hhistogram
      (Text.forall_mem_of_all (by decide +kernel))

theorem written_of_mem {item : Item N} (hitem : item ∈ written snapshot) :
    Written snapshot item := by
  rcases List.mem_append.mp hitem with hentries | hhistograms
  · rcases List.mem_append.mp hentries with hcounters | hgauges
    · obtain ⟨counter, hcounter, hitem⟩ := List.mem_flatMap.mp hcounters
      refine written_of_entryItems ?_ hitem
      exact List.mem_append_left _
        (List.mem_append_left _ (List.mem_map_of_mem hcounter))
    · obtain ⟨gauge, hgauge, hitem⟩ := List.mem_flatMap.mp hgauges
      refine written_of_entryItems ?_ hitem
      exact List.mem_append_left _
        (List.mem_append_right _ (List.mem_map_of_mem hgauge))
  · obtain ⟨histogram, hhistogram, hitem⟩ := List.mem_flatMap.mp hhistograms
    exact written_of_histogramItems hhistogram hitem

theorem valid_written (hnames : ValidNames snapshot) :
    ∀ item ∈ written snapshot, item.Valid := by
  intro item hitem
  cases written_of_mem hitem with
  | type kind hseries => exact (hnames _ hseries).1
  | sample value hseries hsuffix =>
      obtain ⟨hname, hlabels⟩ := hnames _ hseries
      exact ⟨isMetricName_append hname hsuffix, hlabels⟩
  | quantile value hhistogram hplain =>
      obtain ⟨hname, hlabels⟩ :=
        hnames _ (mem_seriesOf_of_histogram hhistogram)
      refine ⟨hname, fun label hlabel => ?_⟩
      rcases List.mem_append.mp hlabel with hmem | hmem
      · exact hlabels label hmem
      · rw [List.mem_singleton.mp hmem]
        exact isLabelName_quantileKey

theorem sample_mem_written {taken : Sample N}
    (htaken : taken ∈ expectedSamples snapshot) :
    Item.sample taken ∈ written snapshot := by
  rw [← samplesOf_written] at htaken
  obtain ⟨item, hitem, hsample⟩ := List.mem_filterMap.mp htaken
  cases item with
  | type name kind => cases hsample
  | sample other =>
      cases hsample
      exact hitem

/-- Every series has a sample with its labels. -/
theorem exists_sample {series : Series} (hseries : series ∈ seriesOf snapshot) :
    ∃ taken, Item.sample taken ∈ written snapshot ∧
      taken.labels = series.dimensions.entries := by
  rcases List.mem_append.mp hseries with hentries | hhistograms
  · rw [← List.map_append] at hentries
    obtain ⟨entry, hentry, rfl⟩ := List.mem_map.mp hentries
    refine ⟨entrySample entry, sample_mem_written ?_, rfl⟩
    rw [expectedSamples, ← List.map_append]
    exact List.mem_append_left _ (List.mem_map_of_mem hentry)
  · obtain ⟨histogram, hhistogram, rfl⟩ := List.mem_map.mp hhistograms
    refine ⟨_, sample_mem_written (List.mem_append_right _
      (List.mem_flatMap.mpr ⟨histogram, hhistogram, List.mem_cons_self⟩)), rfl⟩

/-! ## The metrics -/

/-- The metrics with their samples. -/
def metricsOf (snapshot : MetricsSnapshot N) :
    List ((Text × Kind) × List (Sample N)) :=
  snapshot.counters.map (fun counter =>
      ((counter.series.name, .counter), [entrySample counter])) ++
    snapshot.gauges.map (fun gauge =>
      ((gauge.series.name, .gauge), [entrySample gauge])) ++
      snapshot.histograms.map fun histogram =>
        ((histogram.series.name, .summary), histogramSamples histogram)

theorem map_fst_metricsOf (snapshot : MetricsSnapshot N) :
    (metricsOf snapshot).map Prod.fst = expectedTypes snapshot := by
  simp only [metricsOf, expectedTypes, List.map_append, List.map_map]
  rfl

theorem flatMap_snd_metricsOf (snapshot : MetricsSnapshot N) :
    (metricsOf snapshot).flatMap Prod.snd = expectedSamples snapshot := by
  simp only [metricsOf, expectedSamples, List.flatMap_append,
    List.flatMap_map, List.map_eq_flatMap (f := entrySample)]

theorem isOf_of_mem_metricsOf {metric : (Text × Kind) × List (Sample N)}
    (hmetric : metric ∈ metricsOf snapshot) {taken : Sample N}
    (htaken : taken ∈ metric.2) : IsOf metric.1 taken := by
  rcases List.mem_append.mp hmetric with hentries | hhistograms
  · rcases List.mem_append.mp hentries with hcounters | hgauges
    · obtain ⟨counter, -, rfl⟩ := List.mem_map.mp hcounters
      exact .inl (congrArg Sample.name (List.mem_singleton.mp htaken))
    · obtain ⟨gauge, -, rfl⟩ := List.mem_map.mp hgauges
      exact .inl (congrArg Sample.name (List.mem_singleton.mp htaken))
  · obtain ⟨histogram, -, rfl⟩ := List.mem_map.mp hhistograms
    simp only [histogramSamples, List.mem_cons, List.not_mem_nil,
      or_false] at htaken
    rcases htaken with rfl | rfl | rfl | rfl | rfl
    · exact .inr ⟨rfl, .inl rfl⟩
    · exact .inr ⟨rfl, .inr rfl⟩
    · exact .inl rfl
    · exact .inl rfl
    · exact .inl rfl

theorem exists_series_of_mem {metric : Text × Kind}
    (hmetric : metric ∈ expectedTypes snapshot) :
    ∃ series ∈ seriesOf snapshot, series.name = metric.1 := by
  have hname := List.mem_map_of_mem (f := Prod.fst) hmetric
  rw [map_fst_expectedTypes] at hname
  obtain ⟨series, hseries, heq⟩ := List.mem_map.mp hname
  exact ⟨series, hseries, heq⟩

theorem exists_histogram_of_mem {metric : Text × Kind}
    (hmetric : metric ∈ expectedTypes snapshot) (hkind : metric.2 = .summary) :
    ∃ histogram ∈ snapshot.histograms,
      histogram.series.name = metric.1 := by
  rcases List.mem_append.mp hmetric with hentries | hhistograms
  · rcases List.mem_append.mp hentries with hcounters | hgauges
    · obtain ⟨counter, -, rfl⟩ := List.mem_map.mp hcounters
      cases hkind
    · obtain ⟨gauge, -, rfl⟩ := List.mem_map.mp hgauges
      cases hkind
  · obtain ⟨histogram, hhistogram, rfl⟩ := List.mem_map.mp hhistograms
    exact ⟨histogram, hhistogram, rfl⟩

theorem append_countSuffix_ne (name other : Text) :
    name ++ countSuffix ≠ other ++ sumSuffix := by
  intro heq
  have hcount : countSuffix.getLast? = some 't' := rfl
  have hsum : sumSuffix.getLast? = some 'm' := rfl
  have hlast := congrArg List.getLast? heq
  rw [List.getLast?_append, List.getLast?_append, hcount, hsum] at hlast
  cases hlast

/-- No series has the name of a part of a metric. -/
theorem IsExpressible.name_ne (hexpressible : IsExpressible snapshot)
    {metric other : Text × Kind} (hmetric : metric ∈ expectedTypes snapshot)
    (hother : other ∈ expectedTypes snapshot) (hkind : other.2 = .summary) :
    metric.1 ≠ other.1 ++ countSuffix ∧ metric.1 ≠ other.1 ++ sumSuffix := by
  obtain ⟨series, hseries, hname⟩ := exists_series_of_mem hmetric
  obtain ⟨histogram, hhistogram, hsummary⟩ :=
    exists_histogram_of_mem hother hkind
  rw [← hname, ← hsummary]
  exact hexpressible.parts histogram hhistogram series hseries

theorem IsExpressible.eq_of_name (hexpressible : IsExpressible snapshot)
    {metric other : Text × Kind} (hmetric : metric ∈ expectedTypes snapshot)
    (hother : other ∈ expectedTypes snapshot) (hname : metric.1 = other.1) :
    metric = other := by
  have hnodup := hexpressible.names
  rw [← map_fst_expectedTypes] at hnodup
  exact List.inj_on_of_nodup_map hnodup hmetric hother hname

/-- A sample is of one metric only. -/
theorem IsExpressible.eq_of_isOf (hexpressible : IsExpressible snapshot)
    {metric other : Text × Kind} (hmetric : metric ∈ expectedTypes snapshot)
    (hother : other ∈ expectedTypes snapshot) {taken : Sample N}
    (hfirst : IsOf metric taken) (hsecond : IsOf other taken) :
    metric = other := by
  rcases hfirst with hname | ⟨hkind, hname⟩
  · rcases hsecond with hname' | ⟨hkind', hname'⟩
    · exact hexpressible.eq_of_name hmetric hother (hname.symm.trans hname')
    · have hne := hexpressible.name_ne hmetric hother hkind'
      rw [hname] at hname'
      exact absurd hname' (not_or.mpr hne)
  · rcases hsecond with hname' | ⟨hkind', hname'⟩
    · have hne := hexpressible.name_ne hother hmetric hkind
      rw [hname'] at hname
      exact absurd hname (not_or.mpr hne)
    · refine hexpressible.eq_of_name hmetric hother ?_
      rcases hname with hcount | hsum
      · rcases hname' with hcount' | hsum'
        · exact List.append_cancel_right (hcount.symm.trans hcount')
        · exact absurd (hcount.symm.trans hsum') (append_countSuffix_ne _ _)
      · rcases hname' with hcount' | hsum'
        · exact absurd (hcount'.symm.trans hsum) (append_countSuffix_ne _ _)
        · exact List.append_cancel_right (hsum.symm.trans hsum')

/-- Samples with different quantiles are different lines. -/
theorem not_sameLine_quantile {histogram : HistogramSnapshot N}
    {first second : String} (hne : second.toList ≠ first.toList)
    (hkey : quantileKey ∉ histogram.series.dimensions.keys)
    (value value' : N) :
    ¬ SameLine (quantileSample histogram first value)
      (quantileSample histogram second value') := by
  rintro ⟨-, hperm⟩
  have hmem := hperm.mem_iff.mpr (List.mem_append_right _
    (List.mem_singleton.mpr (rfl : (quantileKey, second.toList) = _)))
  rcases List.mem_append.mp hmem with hdimension | hquantile
  · exact hkey (List.mem_map_of_mem hdimension)
  · exact hne (Prod.ext_iff.mp (List.mem_singleton.mp hquantile)).2

theorem pairwise_histogramSamples {histogram : HistogramSnapshot N}
    (hkey : quantileKey ∉ histogram.series.dimensions.keys) :
    (histogramSamples histogram).Pairwise fun first second =>
      ¬ SameLine first second := by
  have hcount : histogram.series.name ++ countSuffix ≠
      histogram.series.name := fun heq => by
    simpa [countSuffix] using congrArg List.length heq
  have hsum : histogram.series.name ++ sumSuffix ≠
      histogram.series.name := fun heq => by
    simpa [sumSuffix] using congrArg List.length heq
  rw [histogramSamples, List.pairwise_cons, List.pairwise_cons,
    List.pairwise_cons, List.pairwise_cons]
  refine ⟨?_, ?_, ?_, ?_, List.pairwise_singleton _ _⟩
  · simp only [List.forall_mem_cons]
    exact ⟨fun hsame => append_countSuffix_ne _ _ hsame.1,
      fun hsame => hcount hsame.1, fun hsame => hcount hsame.1,
      fun hsame => hcount hsame.1, List.forall_mem_nil _⟩
  · simp only [List.forall_mem_cons]
    exact ⟨fun hsame => hsum hsame.1, fun hsame => hsum hsame.1,
      fun hsame => hsum hsame.1, List.forall_mem_nil _⟩
  · simp only [List.forall_mem_cons]
    exact ⟨not_sameLine_quantile (by decide) hkey _ _,
      not_sameLine_quantile (by decide) hkey _ _, List.forall_mem_nil _⟩
  · simp only [List.forall_mem_cons]
    exact ⟨not_sameLine_quantile (by decide) hkey _ _,
      List.forall_mem_nil _⟩

/-- Samples of different metrics have different names. -/
theorem IsExpressible.lines (hexpressible : IsExpressible snapshot) :
    (expectedSamples snapshot).Pairwise fun first second =>
      ¬ SameLine first second := by
  rw [← flatMap_snd_metricsOf, List.pairwise_flatMap]
  constructor
  · intro metric hmetric
    rcases List.mem_append.mp hmetric with hentries | hhistograms
    · rcases List.mem_append.mp hentries with hcounters | hgauges
      · obtain ⟨counter, -, rfl⟩ := List.mem_map.mp hcounters
        exact List.pairwise_singleton _ _
      · obtain ⟨gauge, -, rfl⟩ := List.mem_map.mp hgauges
        exact List.pairwise_singleton _ _
    · obtain ⟨histogram, hhistogram, rfl⟩ := List.mem_map.mp hhistograms
      exact pairwise_histogramSamples
        (hexpressible.quantiles histogram hhistogram)
  · have hnodup := hexpressible.names
    rw [← map_fst_expectedTypes, ← map_fst_metricsOf, List.map_map,
      List.Nodup, List.pairwise_map] at hnodup
    refine hnodup.imp_of_mem fun {first second} hfirst hsecond hne => ?_
    intro taken htaken other hother hsame
    have hof := isOf_of_mem_metricsOf hfirst htaken
    have hof' : IsOf second.1 taken := by
      have hsecondOf := isOf_of_mem_metricsOf hsecond hother
      rwa [IsOf, ← hsame.1] at hsecondOf
    have hmem (metric : (Text × Kind) × List (Sample N))
        (hmetric : metric ∈ metricsOf snapshot) :
        metric.1 ∈ expectedTypes snapshot := by
      rw [← map_fst_metricsOf]
      exact List.mem_map_of_mem hmetric
    exact hne (congrArg Prod.fst (hexpressible.eq_of_isOf
      (hmem first hfirst) (hmem second hsecond) hof hof'))

theorem IsExpressible.metrics (hexpressible : IsExpressible snapshot) :
    ∀ taken ∈ expectedSamples snapshot,
      ∃! metric, metric ∈ expectedTypes snapshot ∧ IsOf metric taken := by
  intro taken htaken
  rw [← flatMap_snd_metricsOf] at htaken
  obtain ⟨metric, hmetric, hmem⟩ := List.mem_flatMap.mp htaken
  have htype : metric.1 ∈ expectedTypes snapshot := by
    rw [← map_fst_metricsOf]
    exact List.mem_map_of_mem hmetric
  have hof := isOf_of_mem_metricsOf hmetric hmem
  exact ⟨metric.1, ⟨htype, hof⟩, fun other hother =>
    hexpressible.eq_of_isOf hother.1 htype hother.2 hof⟩

/-- The count and the sum of a histogram are of no other metric. -/
theorem name_ne_of_metrics
    (hmetrics : ∀ taken ∈ expectedSamples snapshot,
      ∃! metric, metric ∈ expectedTypes snapshot ∧ IsOf metric taken)
    {histogram : HistogramSnapshot N}
    (hhistogram : histogram ∈ snapshot.histograms) {taken : Sample N}
    (htaken : taken ∈ histogramSamples histogram)
    (hlonger : histogram.series.name.length < taken.name.length)
    (hof : IsOf (histogram.series.name, .summary) taken) {series : Series}
    (hseries : series ∈ seriesOf snapshot) : series.name ≠ taken.name := by
  intro heq
  have hname := List.mem_map_of_mem (f := Series.name) hseries
  rw [← map_fst_expectedTypes] at hname
  obtain ⟨other, hother, hfst⟩ := List.mem_map.mp hname
  have hmetric : (histogram.series.name, Kind.summary) ∈
      expectedTypes snapshot :=
    List.mem_append_right _ (List.mem_map_of_mem hhistogram)
  have hsame := (hmetrics taken (List.mem_append_right _
    (List.mem_flatMap.mpr ⟨histogram, hhistogram, htaken⟩))).unique
      ⟨hmetric, hof⟩ ⟨hother, .inl (heq.symm.trans hfst.symm)⟩
  rw [← hsame] at hfst
  rw [← heq, ← hfst] at hlonger
  exact lt_irrefl _ hlonger

/-- A text that is faithful has only labels that need no escape. -/
theorem IsFaithful.isExpressible (hnames : ValidNames snapshot)
    (hfaithful : IsFaithful format snapshot
      (buildPrometheusBody format snapshot)) : IsExpressible snapshot := by
  obtain ⟨items, hparse, hformed, hsamples, htypes⟩ := hfaithful
  have hnodup := hformed.types
  have hlength :
      (typesOf items).length ≤ (typesOf (written snapshot)).length := by
    rw [typesOf_written]
    exact (List.subperm_of_subset hnodup.of_map
      fun found hfound => (htypes found).mp hfound).length_le
  rw [← samplesOf_written] at hsamples
  obtain ⟨rfl, hplain⟩ := eq_of_parse_unescaped (valid_written hnames)
    (contentLines_body format snapshot) hparse hsamples hlength
  have hmetrics := hformed.metrics
  rw [samplesOf_written, typesOf_written] at hmetrics
  refine ⟨?_, ?_, ?_, ?_⟩
  · rwa [typesOf_written, map_fst_expectedTypes] at hnodup
  · intro histogram hhistogram series hseries
    constructor
    · exact name_ne_of_metrics hmetrics hhistogram List.mem_cons_self
        (by simp [countSuffix]) (.inr ⟨rfl, .inl rfl⟩) hseries
    · exact name_ne_of_metrics hmetrics hhistogram
        (List.mem_cons_of_mem _ List.mem_cons_self) (by simp [sumSuffix])
        (.inr ⟨rfl, .inr rfl⟩) hseries
  · intro series hseries label hlabel
    obtain ⟨taken, hmem, htaken⟩ := exists_sample hseries
    exact hplain _ hmem label (htaken ▸ hlabel)
  · intro histogram hhistogram hkey
    have hmem : quantileSample histogram "0.5" histogram.p50 ∈
        samplesOf (written snapshot) := by
      rw [samplesOf_written]
      refine List.mem_append_right _
        (List.mem_flatMap.mpr ⟨histogram, hhistogram, ?_⟩)
      simp [histogramSamples]
    have htwice := hformed.labels _ hmem
    rw [quantileSample, List.map_append] at htwice
    exact List.disjoint_of_nodup_append htwice hkey (by simp)

theorem IsExpressible.isFaithful (hexpressible : IsExpressible snapshot)
    (hnames : ValidNames snapshot) :
    IsFaithful format snapshot (buildPrometheusBody format snapshot) := by
  have hplain : ∀ item ∈ written snapshot, item.Plain := by
    intro item hitem
    cases written_of_mem hitem with
    | type kind hseries => trivial
    | sample value hseries hsuffix => exact hexpressible.values _ hseries
    | quantile value hhistogram hplain =>
        intro label hlabel
        rcases List.mem_append.mp hlabel with hmem | hmem
        · exact hexpressible.values _
            (mem_seriesOf_of_histogram hhistogram) label hmem
        · rw [List.mem_singleton.mp hmem]
          exact hplain
  refine ⟨written snapshot, parse_unescaped (valid_written hnames)
    (contentLines_body format snapshot) hplain, ⟨?_, ?_, ?_, ?_⟩,
    samplesOf_written snapshot, fun found => by rw [typesOf_written]⟩
  · rw [typesOf_written, map_fst_expectedTypes]
    exact hexpressible.names
  · rw [samplesOf_written, typesOf_written]
    exact hexpressible.metrics
  · intro taken htaken
    obtain ⟨item, hitem, hsample⟩ := List.mem_filterMap.mp htaken
    cases written_of_mem hitem with
    | type kind hseries => cases hsample
    | @sample series suffix value hseries hsuffix =>
        cases hsample
        exact series.dimensions.nodup
    | @quantile histogram q value hhistogram hplain =>
        cases hsample
        rw [quantileSample, List.map_append, List.nodup_append]
        refine ⟨histogram.series.dimensions.nodup, List.nodup_singleton _, ?_⟩
        intro key hkey other hother heq
        rw [heq, List.mem_singleton.mp hother] at hkey
        exact hexpressible.quantiles histogram hhistogram hkey
  · rw [samplesOf_written]
    exact hexpressible.lines

/-- The body is faithful exactly if nothing had to be escaped and no name or
label is used twice. -/
theorem isFaithful_body_iff (format : NumberText N)
    (hnames : ValidNames snapshot) :
    IsFaithful format snapshot (buildPrometheusBody format snapshot) ↔
      IsExpressible snapshot :=
  ⟨fun hfaithful => hfaithful.isExpressible hnames,
    fun hexpressible => hexpressible.isFaithful hnames⟩

/-! ## Samples -/

def decimalText : NumberText ℕ where
  text := Json.decimal.text
  read := Json.decimal.number
  read_text value := Json.decimal.number_text value rfl
  text_ne_nil value :=
    Json.ne_nil_of_isNumberLiteral (Json.decimal.literal_text value rfl)
  plain value char hchar := by
    have hnumber : Json.isNumberChar char = true :=
      Json.isNumberChar_of_isNumberLiteral
        (Json.decimal.literal_text value rfl) hchar
    constructor
    · rintro rfl
      exact absurd hnumber (by decide)
    · rintro rfl
      exact absurd hnumber (by decide)

def requestsIn (region : String) (value : ℕ) : MetricEntry ℕ where
  series :=
    { name := "requests".toList
      dimensions := InsertionMap.empty.set "region".toList region.toList }
  value := value

def latency : HistogramSnapshot ℕ where
  series := { name := "latency".toList, dimensions := .empty }
  count := 2
  sum := 40
  min := 10
  max := 30
  avg := 20
  p50 := 10
  p95 := 30
  p99 := 30

def oneRegion : MetricsSnapshot ℕ where
  counters := [requestsIn "us" 1]
  gauges := []
  histograms := [latency]
  takenAtMs := 0

def twoRegions : MetricsSnapshot ℕ where
  counters := [requestsIn "us" 1, requestsIn "eu" 2]
  gauges := []
  histograms := []
  takenAtMs := 0

theorem validNames_oneRegion : ValidNames oneRegion := by
  unfold ValidNames IsMetricName IsLabelName
  decide +kernel

theorem isFaithful_oneRegion :
    IsFaithful decimalText oneRegion
      (buildPrometheusBody decimalText oneRegion) := by
  refine (isFaithful_body_iff decimalText validNames_oneRegion).mpr ?_
  exact ⟨by decide +kernel, by decide +kernel, by decide +kernel,
    by decide +kernel⟩

/-- Two series of one metric have two lines for its type. -/
theorem not_isFaithful_twoRegions :
    ¬ IsFaithful decimalText twoRegions
      (buildPrometheusBody decimalText twoRegions) := by
  intro hfaithful
  have hnames : ValidNames twoRegions := by
    unfold ValidNames IsMetricName IsLabelName
    decide +kernel
  exact absurd (hfaithful.isExpressible hnames).names (by decide +kernel)

end TsCommons.Observability
