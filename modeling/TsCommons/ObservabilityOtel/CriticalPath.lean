import TsCommons.Foundations.Chains
import TsCommons.Foundations.InsertionMap
import TsCommons.Foundations.StableSort
import Mathlib.Algebra.BigOperators.Group.List.Basic
import Mathlib.Algebra.Order.Ring.Rat
import Mathlib.Logic.Relation

/-!
# The critical path of a trace

The path that is reported consists of all spans of the trace, the slowest
first.  It is the slowest chain from the root to a leaf exactly where the
trace has no other chain and the spans are recorded with durations that do not
grow along it.
-/

namespace TsCommons.ObservabilityOtel

open Foundations

structure SpanData where
  traceId : String
  spanId : String
  parentSpanId : Option String
  name : String
  durationMs : ℚ
deriving DecidableEq

structure CriticalPathSegment where
  spanId : String
  name : String
  durationMs : ℚ
  percentage : ℚ
deriving DecidableEq

structure AdvancedTracer where
  spans : InsertionMap String (List SpanData)

namespace AdvancedTracer

def getTrace (tracer : AdvancedTracer) (traceId : String) : List SpanData :=
  (tracer.spans.get traceId).getD []

/-- The alerts that are checked afterwards leave the spans as they are. -/
def recordSpan (tracer : AdvancedTracer) (span : SpanData) : AdvancedTracer :=
  ⟨tracer.spans.set span.traceId (tracer.getTrace span.traceId ++ [span])⟩

/-- The order in which the spans are sorted. -/
def Slower (first second : SpanData) : Prop :=
  second.durationMs ≤ first.durationMs

instance : DecidableRel Slower := fun first second =>
  inferInstanceAs (Decidable (second.durationMs ≤ first.durationMs))

def segment (totalDuration : ℚ) (span : SpanData) : CriticalPathSegment where
  spanId := span.spanId
  name := span.name
  durationMs := span.durationMs
  percentage :=
    if 0 < totalDuration then span.durationMs / totalDuration * 100 else 0

def getCriticalPath (tracer : AdvancedTracer) (traceId : String) :
    List CriticalPathSegment :=
  let spans := tracer.getTrace traceId
  if spans.length = 0 then []
  else
    let totalDuration := spans.foldl (fun sum span => sum + span.durationMs) 0
    (spans.insertionSort Slower).map (segment totalDuration)

/-- The tracer after the spans are recorded. -/
def recorded (spans : List SpanData) : AdvancedTracer :=
  spans.foldl recordSpan ⟨.empty⟩

/-! ## Traces as trees -/

def IsParent (parent child : SpanData) : Prop :=
  child.parentSpanId = some parent.spanId

def IsRoot (spans : List SpanData) (span : SpanData) : Prop :=
  ∀ other ∈ spans, ¬ IsParent other span

def IsLeaf (spans : List SpanData) (span : SpanData) : Prop :=
  ∀ other ∈ spans, ¬ IsParent span other

structure FormsTree (spans : List SpanData) : Prop where
  ids : (spans.map SpanData.spanId).Nodup
  rooted : ∃ root ∈ spans, IsRoot spans root ∧
    ∀ span ∈ spans, Relation.ReflTransGen
      (fun parent child => parent ∈ spans ∧ IsParent parent child) root span

structure IsRootToLeaf (spans chain : List SpanData) : Prop where
  mem : ∀ span ∈ chain, span ∈ spans
  linked : chain.IsChain IsParent
  root : ∃ span ∈ chain.head?, IsRoot spans span
  leaf : ∃ span ∈ chain.getLast?, IsLeaf spans span

def total (chain : List SpanData) : ℚ := (chain.map SpanData.durationMs).sum

def Describes (segment : CriticalPathSegment) (span : SpanData) : Prop :=
  segment.spanId = span.spanId ∧ segment.name = span.name ∧
    segment.durationMs = span.durationMs

/-- The segments describe a slowest chain from the root to a leaf. -/
def IsCriticalPath (spans : List SpanData)
    (segments : List CriticalPathSegment) : Prop :=
  ∃ chain, IsRootToLeaf spans chain ∧
    (∀ other, IsRootToLeaf spans other → total other ≤ total chain) ∧
    List.Forall₂ Describes segments chain

/-- No span has two children, and a child is not slower than its parent, nor
recorded before it if it is as slow. -/
structure IsSlowingChain (spans : List SpanData) : Prop where
  unbranched : Unbranched IsParent spans
  slowing : ∀ parent ∈ spans, ∀ child ∈ spans, IsParent parent child →
    child.durationMs ≤ parent.durationMs ∧
      (parent.durationMs ≤ child.durationMs → Precedes spans parent child)

variable {spans chain : List SpanData} {first second : SpanData}

instance : Std.Total Slower :=
  ⟨fun first second => le_total second.durationMs first.durationMs⟩

instance : IsTrans SpanData Slower :=
  ⟨fun _ _ _ hfirst hsecond => hsecond.trans hfirst⟩

theorem getTrace_recorded (spans : List SpanData) (traceId : String) :
    (recorded spans).getTrace traceId =
      spans.filter fun span => span.traceId = traceId := by
  induction spans using List.reverseRecOn with
  | nil => rfl
  | append_singleton spans span ih =>
      have hstep : recorded (spans ++ [span]) =
          (recorded spans).recordSpan span := List.foldl_concat ..
      rw [hstep, recordSpan, getTrace, InsertionMap.get_set,
        List.filter_append]
      by_cases heq : traceId = span.traceId
      · subst heq
        simp [ih]
      · rw [if_neg heq]
        change (recorded spans).getTrace traceId = _
        simp [ih, Ne.symm heq]

/-! ## Trees -/

theorem FormsTree.nodup (htree : FormsTree spans) : spans.Nodup :=
  htree.ids.of_map

theorem FormsTree.eq_of_spanId (htree : FormsTree spans)
    (hfirst : first ∈ spans) (hsecond : second ∈ spans)
    (hid : first.spanId = second.spanId) : first = second :=
  List.inj_on_of_nodup_map htree.ids hfirst hsecond hid

theorem FormsTree.root_unique (htree : FormsTree spans)
    (hfirst : first ∈ spans) (hfirstRoot : IsRoot spans first)
    (hsecond : second ∈ spans) (hsecondRoot : IsRoot spans second) :
    first = second := by
  obtain ⟨root, -, -, hreaches⟩ := htree.rooted
  have hroot : ∀ span ∈ spans, IsRoot spans span → span = root := by
    intro span hspan hspanRoot
    rcases (hreaches span hspan).cases_tail with heq | ⟨parent, -, hlast⟩
    · exact heq
    · exact absurd hlast.2 (hspanRoot parent hlast.1)
  rw [hroot first hfirst hfirstRoot, hroot second hsecond hsecondRoot]

theorem FormsTree.eq_of_describes (htree : FormsTree spans) {totalDuration : ℚ}
    {sorted : List SpanData} (hsorted : ∀ span ∈ sorted, span ∈ spans)
    (hchain : ∀ span ∈ chain, span ∈ spans)
    (hdescribes : List.Forall₂ Describes
      (sorted.map (segment totalDuration)) chain) : sorted = chain := by
  rw [List.forall₂_map_left_iff] at hdescribes
  induction hdescribes with
  | nil => rfl
  | cons hspan _ ih =>
      obtain ⟨hfirst, hsortedRest⟩ := List.forall_mem_cons.mp hsorted
      obtain ⟨hsecond, hchainRest⟩ := List.forall_mem_cons.mp hchain
      rw [htree.eq_of_spanId hfirst hsecond hspan.1, ih hsortedRest hchainRest]

theorem describes_segments (totalDuration : ℚ) (sorted : List SpanData) :
    List.Forall₂ Describes (sorted.map (segment totalDuration)) sorted := by
  rw [List.forall₂_map_left_iff, List.forall₂_same]
  exact fun span _ => ⟨rfl, rfl, rfl⟩

/-! ## The sorted spans as a chain -/

/-- In a chain of all spans a child comes right after its parent. -/
theorem FormsTree.exists_eq_append (htree : FormsTree spans)
    (hchain : IsRootToLeaf spans chain) (hall : ∀ span ∈ spans, span ∈ chain)
    (hfirst : first ∈ spans) (hsecond : second ∈ spans)
    (hparent : IsParent first second) :
    ∃ before after, chain = before ++ first :: second :: after := by
  obtain ⟨before, after, hsplit⟩ := List.append_of_mem (hall second hsecond)
  rcases List.eq_nil_or_concat before with rfl | ⟨earlier, last, rfl⟩
  · obtain ⟨root, hhead, hroot⟩ := hchain.root
    rw [hsplit, List.nil_append, List.head?_cons, Option.mem_some_iff] at hhead
    exact absurd hparent (hhead ▸ hroot first hfirst)
  · rw [List.concat_eq_append, List.append_assoc] at hsplit
    have hlast : IsParent last second :=
      (List.isChain_append_cons_cons.mp (hsplit ▸ hchain.linked)).2.1
    have hmem : last ∈ spans := hchain.mem last (by simp [hsplit])
    have heq : last = first :=
      htree.eq_of_spanId hmem hfirst
        (Option.some.inj (hlast.symm.trans hparent))
    exact ⟨earlier, after, heq ▸ hsplit⟩

theorem FormsTree.isSlowingChain (htree : FormsTree spans)
    (hchain : IsRootToLeaf spans (spans.insertionSort Slower)) :
    IsSlowingChain spans := by
  have hperm := List.perm_insertionSort Slower spans
  have hnodup := hperm.nodup_iff.mpr htree.nodup
  have hnext {first second : SpanData} (hfirst : first ∈ spans)
      (hsecond : second ∈ spans) (hparent : IsParent first second) :=
    htree.exists_eq_append hchain (fun _ => hperm.mem_iff.mpr) hfirst hsecond
      hparent
  constructor
  · intro parent hparent first hfirst second hsecond hfirstChild hsecondChild
    obtain ⟨before, after, hsplit⟩ := hnext hparent hfirst hfirstChild
    obtain ⟨before', after', hsplit'⟩ := hnext hparent hsecond hsecondChild
    have hafter := hsplit.symm.trans hsplit'
    have hnot : parent ∉ before ++ first :: after :=
      (List.nodup_cons.mp (List.nodup_middle.mp (hsplit ▸ hnodup))).1
    rw [List.mem_append, not_or] at hnot
    rw [List.append_cons_inj_of_notMem hnot.1 hnot.2] at hafter
    exact (List.cons.inj hafter.2.2).1
  · intro parent hparent child hchild hrel
    obtain ⟨before, after, hsplit⟩ := hnext hparent hchild hrel
    have hprecedes : Precedes (spans.insertionSort Slower) parent child := by
      rw [hsplit]
      exact precedes_of_append_cons List.mem_cons_self
    have hiff := (precedes_insertionSort_iff Slower htree.nodup).mp hprecedes
    exact hiff.2.2

theorem IsSlowingChain.precedes (hslowing : IsSlowingChain spans)
    (htree : FormsTree spans) (hfirst : first ∈ spans)
    (hsecond : second ∈ spans) (hparent : IsParent first second) :
    Precedes (spans.insertionSort Slower) first second :=
  (precedes_insertionSort_iff Slower htree.nodup).mpr
    ⟨hfirst, hsecond, hslowing.slowing first hfirst second hsecond hparent⟩

theorem IsSlowingChain.isRootToLeaf (hslowing : IsSlowingChain spans)
    (htree : FormsTree spans) :
    IsRootToLeaf spans (spans.insertionSort Slower) := by
  have hperm := List.perm_insertionSort Slower spans
  have hnodup := hperm.nodup_iff.mpr htree.nodup
  have hmem : ∀ span ∈ spans.insertionSort Slower, span ∈ spans :=
    fun _ => hperm.mem_iff.mp
  have hbefore {before after : List SpanData} {parent child : SpanData}
      (hsplit : spans.insertionSort Slower = before ++ child :: after)
      (hparent : parent ∈ spans) (hrel : IsParent parent child) :
      parent ∈ before := by
    have hchild : child ∈ spans := hmem child (by simp [hsplit])
    have hprecedes := hslowing.precedes htree hparent hchild hrel
    rw [hsplit] at hprecedes hnodup
    exact hprecedes.mem_before hnodup
  obtain ⟨root, hroot, -, -⟩ := htree.rooted
  obtain ⟨head, rest, hcons⟩ : ∃ head rest,
      spans.insertionSort Slower = head :: rest :=
    List.exists_cons_of_ne_nil
      (List.ne_nil_of_mem (hperm.mem_iff.mpr hroot))
  have hhead : IsRoot spans head := fun parent hparent hrel =>
    List.not_mem_nil (hbefore (hcons.trans (List.nil_append _).symm)
      hparent hrel)
  refine ⟨hmem, ?_, ⟨head, by rw [hcons]; rfl, hhead⟩, ?_⟩
  · refine isChain_of_unbranched (hslowing.unbranched.mono hmem) hnodup ?_
    intro before child after hsplit hne
    have hchild : child ∈ spans := hmem child (by simp [hsplit])
    have hnot : ¬ IsRoot spans child := by
      intro hchildRoot
      have heq := htree.root_unique hchild hchildRoot
        (hmem head (by simp [hcons])) hhead
      obtain ⟨other, before, rfl⟩ := List.exists_cons_of_ne_nil hne
      rw [hsplit, List.cons_append] at hcons
      rw [(List.cons.inj hcons).1, heq, List.cons_append] at hsplit
      rw [hsplit] at hnodup
      simp at hnodup
    simp only [IsRoot, not_forall, not_not] at hnot
    obtain ⟨parent, hparent, hrel⟩ := hnot
    exact ⟨parent, hbefore hsplit hparent hrel, hrel⟩
  · obtain ⟨before, last, hsplit⟩ :=
      (List.eq_nil_or_concat _).resolve_left
        (List.ne_nil_of_mem (hperm.mem_iff.mpr hroot))
    rw [List.concat_eq_append] at hsplit
    refine ⟨last, by rw [hsplit, List.getLast?_concat]; rfl, ?_⟩
    intro child hchild hrel
    have hlast : last ∈ spans := hmem last (by simp [hsplit])
    have hprecedes := hslowing.precedes htree hlast hchild hrel
    rw [hsplit] at hprecedes hnodup
    exact List.not_mem_nil (hprecedes.mem_after hnodup)

/-- The sorted spans are the slowest chain exactly if there is no other chain
and they slow down along it. -/
theorem FormsTree.isCriticalPath_iff (htree : FormsTree spans)
    (totalDuration : ℚ) :
    IsCriticalPath spans
        ((spans.insertionSort Slower).map (segment totalDuration)) ↔
      IsSlowingChain spans := by
  have hperm := List.perm_insertionSort Slower spans
  have hmem : ∀ span ∈ spans.insertionSort Slower, span ∈ spans :=
    fun _ => hperm.mem_iff.mp
  constructor
  · rintro ⟨chain, hchain, -, hdescribes⟩
    rw [← htree.eq_of_describes hmem hchain.mem hdescribes] at hchain
    exact htree.isSlowingChain hchain
  · intro hslowing
    have hsorted := hslowing.isRootToLeaf htree
    refine ⟨_, hsorted, fun other hother => ?_, describes_segments _ _⟩
    obtain ⟨first, hfirst, hfirstRoot⟩ := hsorted.root
    obtain ⟨second, hsecond, hsecondRoot⟩ := hother.root
    have hheads : first = second :=
      htree.root_unique (hmem first (List.mem_of_mem_head? hfirst)) hfirstRoot
        (hother.mem second (List.mem_of_mem_head? hsecond)) hsecondRoot
    have hhead : other.head? = (spans.insertionSort Slower).head? := by
      rw [Option.mem_def.mp hfirst, Option.mem_def.mp hsecond, hheads]
    have heq : other = spans.insertionSort Slower := by
      refine isChain_unique hslowing.unbranched hother.linked hsorted.linked
        hother.mem hmem hhead ?_ ?_
      · obtain ⟨last, hlast, hleaf⟩ := hother.leaf
        exact fun span hspan => Option.mem_unique hlast hspan ▸ hleaf
      · obtain ⟨last, hlast, hleaf⟩ := hsorted.leaf
        exact fun span hspan => Option.mem_unique hlast hspan ▸ hleaf
    rw [heq]

theorem FormsTree.getCriticalPath_eq {all : List SpanData} {traceId : String}
    (htree : FormsTree (all.filter fun span => span.traceId = traceId)) :
    ∃ totalDuration, (recorded all).getCriticalPath traceId =
      ((all.filter fun span => span.traceId = traceId).insertionSort
        Slower).map (segment totalDuration) := by
  obtain ⟨root, hroot, -⟩ := htree.rooted
  have hlength : (all.filter fun span => span.traceId = traceId).length ≠ 0 :=
    (List.length_pos_of_mem hroot).ne'
  simp only [getCriticalPath, getTrace_recorded, if_neg hlength]
  exact ⟨_, rfl⟩

/-- Whatever spans are recorded, those of a trace that form a tree. -/
theorem getCriticalPath_isCriticalPath_iff (all : List SpanData)
    (traceId : String)
    (htree : FormsTree (all.filter fun span => span.traceId = traceId)) :
    IsCriticalPath (all.filter fun span => span.traceId = traceId)
        ((recorded all).getCriticalPath traceId) ↔
      IsSlowingChain (all.filter fun span => span.traceId = traceId) := by
  obtain ⟨totalDuration, heq⟩ := htree.getCriticalPath_eq
  rw [heq]
  exact htree.isCriticalPath_iff totalDuration

/-- A span of the trace `t`, under the id of its name. -/
def sampleSpan (name : String) (parent : Option String) (durationMs : ℚ) :
    SpanData where
  traceId := "t"
  spanId := name
  parentSpanId := parent
  name := name
  durationMs := durationMs

def requestSpan : SpanData := sampleSpan "request" none 100

def querySpan : SpanData := sampleSpan "query" (some "request") 60

def rowSpan : SpanData := sampleSpan "row" (some "query") 40

def renderSpan : SpanData := sampleSpan "render" (some "request") 30

/-- Spans are recorded when they end, so a child comes before its parent. -/
def nested : List SpanData := [rowSpan, querySpan, requestSpan]

def siblings : List SpanData := [querySpan, renderSpan, requestSpan]

theorem formsTree_nested :
    FormsTree (nested.filter fun span => span.traceId = "t") where
  ids := by decide +kernel
  rooted := by
    have hfilter : nested.filter (fun span => span.traceId = "t") = nested := by
      decide +kernel
    have hquery : Relation.ReflTransGen
        (fun parent child => parent ∈ nested ∧ IsParent parent child)
        requestSpan querySpan :=
      .single ⟨by decide +kernel, rfl⟩
    rw [hfilter]
    refine ⟨requestSpan, by decide +kernel, ?_, ?_⟩
    · simp [IsRoot, IsParent, nested, requestSpan, sampleSpan]
    · simp only [nested, List.forall_mem_cons, List.not_mem_nil,
        false_implies, implies_true, and_true]
      exact ⟨hquery.tail ⟨by decide +kernel, rfl⟩, hquery, .refl⟩

theorem getCriticalPath_isCriticalPath_nested :
    IsCriticalPath (nested.filter fun span => span.traceId = "t")
      ((recorded nested).getCriticalPath "t") := by
  refine (getCriticalPath_isCriticalPath_iff nested "t" formsTree_nested).mpr ?_
  have hfilter : nested.filter (fun span => span.traceId = "t") = nested := by
    decide +kernel
  rw [hfilter]
  constructor
  · unfold Unbranched IsParent
    decide +kernel
  · have hslowing : ∀ parent ∈ nested, ∀ child ∈ nested,
        child.parentSpanId = some parent.spanId →
          child.durationMs < parent.durationMs := by
      decide +kernel
    intro parent hparent child hchild hrel
    have hless := hslowing parent hparent child hchild hrel
    exact ⟨hless.le, fun hle => absurd hless hle.not_gt⟩

theorem formsTree_siblings :
    FormsTree (siblings.filter fun span => span.traceId = "t") where
  ids := by decide +kernel
  rooted := by
    have hfilter : siblings.filter (fun span => span.traceId = "t") =
        siblings := by
      decide +kernel
    rw [hfilter]
    refine ⟨requestSpan, by decide +kernel, ?_, ?_⟩
    · simp [IsRoot, IsParent, siblings, requestSpan, sampleSpan]
    · simp only [siblings, List.forall_mem_cons, List.not_mem_nil,
        false_implies, implies_true, and_true]
      exact ⟨.single ⟨by decide +kernel, rfl⟩,
        .single ⟨by decide +kernel, rfl⟩, .refl⟩

/-- Two children of one parent are both reported. -/
theorem not_isCriticalPath_siblings :
    FormsTree (siblings.filter fun span => span.traceId = "t") ∧
      ¬ IsCriticalPath (siblings.filter fun span => span.traceId = "t")
        ((recorded siblings).getCriticalPath "t") := by
  refine ⟨formsTree_siblings, fun hcritical => ?_⟩
  obtain ⟨totalDuration, heq⟩ := formsTree_siblings.getCriticalPath_eq
  rw [heq] at hcritical
  have hslowing := (formsTree_siblings.isCriticalPath_iff _).mp hcritical
  have hsame : querySpan = renderSpan :=
    hslowing.unbranched requestSpan (by decide +kernel) querySpan
      (by decide +kernel) renderSpan (by decide +kernel) rfl rfl
  exact absurd hsame (by decide +kernel)

end AdvancedTracer

end TsCommons.ObservabilityOtel
