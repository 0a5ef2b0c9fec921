import TsCommons.Cdc.CdcTransformer
import TsCommons.Foundations.InsertionSet

/-!
# The change data pipeline

A raw event is normalised, filtered, transformed and given to the handlers in
the order in which they subscribed.  Every row that a raw event reports is to
reach each handler as one event.
-/

namespace TsCommons.Cdc

open Foundations

structure FilterOptions where
  includeTables : Option (List String)
  excludeTables : Option (List String)
  includeOperations : Option (List CdcOperation)
  database : Option String

namespace FilterOptions

variable {V : Type}

def matchesDatabase (options : FilterOptions) (event : CdcEvent V) : Bool :=
  options.database.all (event.database = ·)

def matchesExcludeTables (options : FilterOptions) (event : CdcEvent V) :
    Bool :=
  !(options.excludeTables.any (·.contains event.table))

def matchesIncludeTables (options : FilterOptions) (event : CdcEvent V) :
    Bool :=
  options.includeTables.all (·.contains event.table)

def matchesOperations (options : FilterOptions) (event : CdcEvent V) : Bool :=
  options.includeOperations.all (·.contains event.operation)

def «matches» (options : FilterOptions) (event : CdcEvent V) : Bool :=
  if !options.matchesDatabase event then false
  else if !options.matchesExcludeTables event then false
  else if !options.matchesIncludeTables event then false
  else if !options.matchesOperations event then false
  else true

def none : FilterOptions := ⟨.none, .none, .none, .none⟩

end FilterOptions

variable {O H : Type}

structure CdcProcessor (H : Type) where
  filter : FilterOptions
  transformer : TransformOptions
  handlers : InsertionSet H
  processedCount : ℕ
  skippedCount : ℕ

/-- A processor with the number of events normalised so far and the calls of
the handlers. -/
structure Pipeline (O H : Type) where
  seq : ℕ
  processor : CdcProcessor H
  calls : List (H × CdcEvent (Value O))

namespace Pipeline

def skip (pipeline : Pipeline O H) (seq : ℕ) : Pipeline O H :=
  { pipeline with
    seq := seq
    processor := { pipeline.processor with
      skippedCount := pipeline.processor.skippedCount + 1 } }

def emit (pipeline : Pipeline O H) (seq : ℕ) (event : CdcEvent (Value O)) :
    Pipeline O H :=
  { pipeline with
    seq := seq
    processor := { pipeline.processor with
      processedCount := pipeline.processor.processedCount + 1 }
    calls := pipeline.calls ++
      pipeline.processor.handlers.elements.map fun handler =>
        (handler, event) }

def ingest (pipeline : Pipeline O H) (raw : CdcRawEvent (Value O)) :
    Pipeline O H :=
  match (normalize raw).run pipeline.seq with
  | (none, seq) => pipeline.skip seq
  | (some normalized, seq) =>
      if !pipeline.processor.filter.matches normalized then pipeline.skip seq
      else
        pipeline.emit seq
          (transform pipeline.processor.transformer normalized)

def ingestAll (pipeline : Pipeline O H)
    (events : List (CdcRawEvent (Value O))) : Pipeline O H :=
  events.foldl ingest pipeline

/-- What the handler has been called with. -/
def received [DecidableEq H] (pipeline : Pipeline O H) (handler : H) :
    List (CdcEvent (Value O)) :=
  (pipeline.calls.filter fun call => call.1 = handler).map Prod.snd

end Pipeline

/-- The change with both images transformed. -/
def Change.transformed (options : TransformOptions)
    (change : Change (Value O)) : Change (Value O) :=
  { change with
    before := change.before.map (transformPayload options)
    after := change.after.map (transformPayload options) }

theorem matches_none (event : CdcEvent (Value O)) :
    FilterOptions.none.matches event = true := rfl

/-! ## What a handler receives -/

section Received

variable [DecidableEq H] {pipeline : Pipeline O H} {handler : H}
  {raw : CdcRawEvent (Value O)} {raws : List (CdcRawEvent (Value O))}

theorem received_emit (hmem : handler ∈ pipeline.processor.handlers)
    (seq : ℕ) (event : CdcEvent (Value O)) :
    (pipeline.emit seq event).received handler =
      pipeline.received handler ++ [event] := by
  have hhandler : pipeline.processor.handlers.elements.filter
      (fun other => other = handler) = [handler] := by
    rw [List.filter_eq, List.count_eq_one_of_mem
      pipeline.processor.handlers.nodup hmem]
    rfl
  rw [Pipeline.received, Pipeline.emit, List.filter_append, List.filter_map,
    List.map_append]
  exact congrArg (_ ++ ·) (congrArg (List.map _ ∘ List.map _) hhandler)

/-- Of the changes that a raw event reports, only the first is received. -/
theorem received_ingest (hfilter : pipeline.processor.filter = .none)
    (hmem : handler ∈ pipeline.processor.handlers) (hrows : raw.HasRows) :
    ((pipeline.ingest raw).received handler).map CdcEvent.toChange =
      (pipeline.received handler).map CdcEvent.toChange ++
        (raw.changes.take 1).map
          (Change.transformed pipeline.processor.transformer) := by
  rw [Pipeline.ingest, normalize_run hrows, hfilter]
  cases raw.changes with
  | nil => rw [List.take_nil, List.map_nil, List.append_nil]; rfl
  | cons first rest =>
      simp only [List.head?_cons, Option.map_some, matches_none,
        Bool.not_true, Bool.false_eq_true, if_false]
      rw [received_emit hmem, List.map_append]
      rfl

omit [DecidableEq H] in
theorem processor_ingest (pipeline : Pipeline O H)
    (raw : CdcRawEvent (Value O)) :
    (pipeline.ingest raw).processor.filter = pipeline.processor.filter ∧
      (pipeline.ingest raw).processor.transformer =
        pipeline.processor.transformer ∧
      (pipeline.ingest raw).processor.handlers =
        pipeline.processor.handlers := by
  unfold Pipeline.ingest
  split
  · exact ⟨rfl, rfl, rfl⟩
  · split
    · exact ⟨rfl, rfl, rfl⟩
    · exact ⟨rfl, rfl, rfl⟩

theorem received_ingestAll (hfilter : pipeline.processor.filter = .none)
    (hmem : handler ∈ pipeline.processor.handlers)
    (hrows : ∀ raw ∈ raws, raw.HasRows) :
    ((pipeline.ingestAll raws).received handler).map CdcEvent.toChange =
      (pipeline.received handler).map CdcEvent.toChange ++
        (raws.flatMap fun raw => raw.changes.take 1).map
          (Change.transformed pipeline.processor.transformer) := by
  induction raws generalizing pipeline with
  | nil => exact (List.append_nil _).symm
  | cons raw rest ih =>
      rw [List.forall_mem_cons] at hrows
      obtain ⟨hsameFilter, hsameTransformer, hsameHandlers⟩ :=
        processor_ingest pipeline raw
      have hmem' : handler ∈ (pipeline.ingest raw).processor.handlers := by
        rw [hsameHandlers]
        exact hmem
      have hrest := ih (hsameFilter.trans hfilter) hmem' hrows.2
      rw [hsameTransformer, received_ingest hfilter hmem hrows.1] at hrest
      rw [List.flatMap_cons, List.map_append, ← List.append_assoc]
      exact hrest

theorem length_flatMap_take_le (raws : List (CdcRawEvent (Value O))) :
    (raws.flatMap fun raw => raw.changes.take 1).length ≤
      (raws.flatMap CdcRawEvent.changes).length := by
  induction raws with
  | nil => exact Nat.le_refl 0
  | cons raw rest ih =>
      rw [List.flatMap_cons, List.flatMap_cons, List.length_append,
        List.length_append]
      exact Nat.add_le_add (List.length_take_le' 1 _) ih

/-- The first changes are all changes if no raw event reports two of them. -/
theorem map_flatMap_take_eq_iff {B : Type} (f : Change (Value O) → B) :
    (raws.flatMap fun raw => raw.changes.take 1).map f =
        (raws.flatMap CdcRawEvent.changes).map f ↔
      ∀ raw ∈ raws, raw.changes.length ≤ 1 := by
  constructor
  · intro hsame
    have hlength := congrArg List.length hsame
    rw [List.length_map, List.length_map] at hlength
    clear hsame
    induction raws with
    | nil => exact List.forall_mem_nil _
    | cons raw rest ih =>
        rw [List.flatMap_cons, List.flatMap_cons, List.length_append,
          List.length_append, List.length_take] at hlength
        have hrest := length_flatMap_take_le rest
        rw [List.forall_mem_cons]
        exact ⟨by omega, ih (by omega)⟩
  · intro hshort
    congr 1
    apply List.flatMap_congr
    exact fun raw hraw => List.take_of_length_le (hshort raw hraw)

/-- Each handler receives one event for every changed row, in order and with
the images of that row, if and only if no MySQL event reports several rows. -/
theorem received_eq_changes_iff (hfilter : pipeline.processor.filter = .none)
    (hmem : handler ∈ pipeline.processor.handlers)
    (hcalls : pipeline.calls = []) (hrows : ∀ raw ∈ raws, raw.HasRows) :
    ((pipeline.ingestAll raws).received handler).map CdcEvent.toChange =
        (raws.flatMap CdcRawEvent.changes).map
          (Change.transformed pipeline.processor.transformer) ↔
      ∀ raw ∈ raws, raw.SingleRow := by
  have hnone : pipeline.received handler = [] := by
    rw [Pipeline.received, hcalls]
    rfl
  rw [received_ingestAll hfilter hmem hrows, hnone, List.map_nil,
    List.nil_append, map_flatMap_take_eq_iff]
  exact forall₂_congr fun raw hraw =>
    length_changes_le_one_iff (hrows raw hraw)

end Received

def stockOf (sku : String) : MySqlRow (Value Empty) :=
  ⟨none, some (rowOf [("sku", sku)])⟩

/-- One statement that inserts several rows into a table. -/
def inserted (rows : List (MySqlRow (Value Empty))) :
    CdcRawEvent (Value Empty) :=
  .mysql ⟨some .WRITE_ROWS, "ecommerce", "cart", rows, 1700000002000⟩

/-- A pipeline with one handler and no options. -/
def subscribed : Pipeline Empty Unit where
  seq := 0
  processor :=
    { filter := .none
      transformer := ⟨none, none, none⟩
      handlers := InsertionSet.empty.add ()
      processedCount := 0
      skippedCount := 0 }
  calls := []

theorem received_eq_changes_iff_samples :
    ((subscribed.ingestAll [inserted [stockOf "A"], inserted [stockOf "B"]]
        ).received ()).map CdcEvent.toChange =
        ([inserted [stockOf "A"], inserted [stockOf "B"]].flatMap
          CdcRawEvent.changes).map (Change.transformed ⟨none, none, none⟩) ∧
      ((subscribed.ingestAll [inserted [stockOf "A", stockOf "B"]]
        ).received ()).map CdcEvent.toChange ≠
        ([inserted [stockOf "A", stockOf "B"]].flatMap
          CdcRawEvent.changes).map
            (Change.transformed ⟨none, none, none⟩) := by
  constructor
  · apply (received_eq_changes_iff rfl List.mem_cons_self rfl
      (by simp [inserted, CdcRawEvent.HasRows])).mpr
    decide +kernel
  · intro hsame
    have hsingle := (received_eq_changes_iff rfl List.mem_cons_self rfl
      (by simp [inserted, CdcRawEvent.HasRows])).mp hsame
    exact absurd hsingle (by decide +kernel)

/-- The second of two rows is neither delivered nor counted as skipped. -/
theorem not_received_eq_changes :
    ∃ pipeline raw,
      pipeline = subscribed.ingestAll [raw] ∧
      raw = inserted [stockOf "A", stockOf "B"] ∧
      (pipeline.received ()).map (fun event => event.after) =
        [some (rowOf [("sku", "A")])] ∧
      pipeline.processor.skippedCount = 0 ∧
      (pipeline.received ()).map CdcEvent.toChange ≠
        raw.changes.map (Change.transformed ⟨none, none, none⟩) := by
  refine ⟨_, _, rfl, rfl, ?_⟩
  decide +kernel

end TsCommons.Cdc
