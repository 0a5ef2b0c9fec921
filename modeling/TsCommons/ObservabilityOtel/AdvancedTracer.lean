import TsCommons.Foundations.InsertionMap
import TsCommons.Foundations.Text

/-!
# Trace contexts in headers

A trace context is written into the headers of a call and read from them on
the other side.  The ids and the sampling decision come back, but the baggage
is not read, and since the id of a span is a UUID the header is not one of W3C
Trace Context.
-/

namespace TsCommons.ObservabilityOtel

open Foundations

def IsHexDigit (char : Char) : Prop :=
  '0' ≤ char ∧ char ≤ '9' ∨ 'a' ≤ char ∧ char ≤ 'f' ∨
    'A' ≤ char ∧ char ≤ 'F'

instance (char : Char) : Decidable (IsHexDigit char) :=
  inferInstanceAs (Decidable ('0' ≤ char ∧ char ≤ '9' ∨
    'a' ≤ char ∧ char ≤ 'f' ∨ 'A' ≤ char ∧ char ≤ 'F'))

/-- Fields of hexadecimal digits with the given lengths. -/
def IsHexFields (lengths : List ℕ) (fields : List Text) : Prop :=
  fields.map List.length = lengths ∧
    ∀ field ∈ fields, ∀ char ∈ field, IsHexDigit char

instance (lengths : List ℕ) (fields : List Text) :
    Decidable (IsHexFields lengths fields) :=
  have (field : Text) : Decidable (∀ char ∈ field, IsHexDigit char) :=
    List.decidableBAll IsHexDigit field
  have : Decidable (∀ field ∈ fields, ∀ char ∈ field, IsHexDigit char) :=
    List.decidableBAll (fun field => ∀ char ∈ field, IsHexDigit char) fields
  inferInstanceAs (Decidable (fields.map List.length = lengths ∧
    ∀ field ∈ fields, ∀ char ∈ field, IsHexDigit char))

/-- The five fields of a UUID. -/
structure Uuid where
  fields : List Text
  valid : IsHexFields [8, 4, 4, 4, 12] fields

def Uuid.text (uuid : Uuid) : Text := ['-'].intercalate uuid.fields

/-- The entries of a baggage stand in the order of `Object.entries`. -/
structure TraceContext where
  traceId : Text
  spanId : Text
  parentSpanId : Option Text
  sampled : Bool
  baggage : Option (InsertionMap Text Text)
deriving DecidableEq

abbrev Headers := InsertionMap Text Text

/-- `traceId` and `spanId` are what `randomUUID` gives, and `sampling` is the
decision of the sampling strategy. -/
def createContext (traceId spanId : Uuid) (sampling : Bool)
    (sampled : Option Bool) : TraceContext where
  traceId := traceId.text
  spanId := spanId.text
  parentSpanId := none
  sampled := sampled.getD sampling
  baggage := none

def childContext (parent : TraceContext) (spanId : Uuid) : TraceContext where
  traceId := parent.traceId
  spanId := spanId.text
  parentSpanId := some parent.spanId
  sampled := parent.sampled
  baggage := parent.baggage

def traceparentKey : Text := "traceparent".toList

def baggageKey : Text := "baggage".toList

/-- `id.replaceAll('-', '')` -/
def stripDashes (id : Text) : Text := id.filter (· ≠ '-')

def traceparent (ctx : TraceContext) : Text :=
  "00-".toList ++ stripDashes ctx.traceId ++ "-".toList ++
    stripDashes ctx.spanId ++ "-".toList ++
      (if ctx.sampled then "01" else "00").toList

def baggageHeader (baggage : InsertionMap Text Text) : Text :=
  [','].intercalate
    (baggage.entries.map fun entry => entry.1 ++ '=' :: entry.2)

def inject (ctx : TraceContext) (headers : Headers) : Headers :=
  let written := headers.set traceparentKey (traceparent ctx)
  match ctx.baggage with
  | none => written
  | some baggage =>
      if 0 < baggage.size then written.set baggageKey (baggageHeader baggage)
      else written

def formatUuid (hex : Text) : Text :=
  if hex.length ≠ 32 then hex
  else hex.take 8 ++ '-' :: (hex.drop 8).take 4 ++
    '-' :: (hex.drop 12).take 4 ++ '-' :: (hex.drop 16).take 4 ++
      '-' :: hex.drop 20

def extract (headers : Headers) : Option TraceContext :=
  match headers.get traceparentKey with
  | none => none
  | some tp =>
      match tp.splitOn '-' with
      | _ :: rawTraceId :: rawSpanId :: flags :: _ =>
          some {
            traceId := formatUuid rawTraceId
            spanId := formatUuid rawSpanId
            parentSpanId := none
            sampled := flags = "01".toList
            baggage := none }
      | _ => none

/-- The contexts that `createContext` and `childContext` make, with baggage
that has no empty key. -/
inductive Produced : TraceContext → Prop
  | createContext (traceId spanId : Uuid) (sampling : Bool)
      (sampled : Option Bool) :
      Produced (createContext traceId spanId sampling sampled)
  | withBaggage {ctx : TraceContext} (baggage : InsertionMap Text Text)
      (hkeys : [] ∉ baggage.keys) (hctx : Produced ctx) :
      Produced { ctx with baggage := some baggage }
  | childContext {parent : TraceContext} (spanId : Uuid)
      (hparent : Produced parent) : Produced (childContext parent spanId)

/-- The form of W3C Trace Context. -/
def IsTraceparent (value : Text) : Prop :=
  ∃ fields, value = ['-'].intercalate fields ∧
    IsHexFields [2, 32, 16, 2] fields

/-- What the other side reads is the context, from a header of W3C form. -/
structure Propagates (ctx : TraceContext) (headers : Headers) : Prop where
  extracted : ∃ found, extract (inject ctx headers) = some found ∧
    found.traceId = ctx.traceId ∧ found.spanId = ctx.spanId ∧
      found.sampled = ctx.sampled ∧ found.baggage = ctx.baggage
  traceparent : ∃ value,
    (inject ctx headers).get traceparentKey = some value ∧
      IsTraceparent value

variable {ctx : TraceContext} {headers : Headers} {uuid : Uuid}
  {char : Char} {text : Text}

/-! ## Ids -/

theorem dash_not_hexDigit : ¬IsHexDigit '-' := by decide

theorem Uuid.exists_fields (uuid : Uuid) :
    ∃ a b c d e : Text, uuid.fields = [a, b, c, d, e] ∧
      a.length = 8 ∧ b.length = 4 ∧ c.length = 4 ∧ d.length = 4 ∧
        e.length = 12 := by
  obtain ⟨fields, hlengths, -⟩ := uuid
  have hlength : fields.length = 5 := by
    simpa using congrArg List.length hlengths
  match fields, hlength, hlengths with
  | [a, b, c, d, e], _, hlengths =>
      simp only [List.map_cons, List.map_nil, List.cons.injEq] at hlengths
      obtain ⟨ha, hb, hc, hd, he, -⟩ := hlengths
      exact ⟨a, b, c, d, e, rfl, ha, hb, hc, hd, he⟩

theorem stripDashes_of_not_mem (hnot : '-' ∉ text) :
    stripDashes text = text := by
  refine List.filter_eq_self.mpr fun char hchar => ?_
  refine decide_eq_true fun heq => ?_
  exact hnot (heq ▸ hchar)

theorem stripDashes_intercalate {fields : List Text}
    (hnot : ∀ field ∈ fields, '-' ∉ field) :
    stripDashes (['-'].intercalate fields) = fields.flatten := by
  induction fields with
  | nil => rfl
  | cons first rest ih =>
      obtain ⟨hfirst, hrest⟩ := List.forall_mem_cons.mp hnot
      have hstrip := stripDashes_of_not_mem hfirst
      cases rest with
      | nil => simpa using hstrip
      | cons second others =>
          have hothers := ih hrest
          rw [List.intercalate_cons_cons, stripDashes, List.filter_append,
            List.filter_append]
          rw [stripDashes] at hstrip hothers
          rw [hstrip, hothers]
          simp

theorem not_mem_fields (uuid : Uuid) :
    ∀ field ∈ uuid.fields, '-' ∉ field :=
  fun field hfield hdash =>
    dash_not_hexDigit (uuid.valid.2 field hfield '-' hdash)

theorem stripDashes_text (uuid : Uuid) :
    stripDashes uuid.text = uuid.fields.flatten :=
  stripDashes_intercalate (not_mem_fields uuid)

theorem not_mem_stripDashes (text : Text) : '-' ∉ stripDashes text := by
  intro hdash
  simp [stripDashes] at hdash

theorem length_stripDashes_text (uuid : Uuid) :
    (stripDashes uuid.text).length = 32 := by
  obtain ⟨a, b, c, d, e, hfields, ha, hb, hc, hd, he⟩ := uuid.exists_fields
  rw [stripDashes_text, hfields]
  simp [ha, hb, hc, hd, he]

/-- The id of a UUID without its dashes is read as the UUID. -/
theorem formatUuid_stripDashes (uuid : Uuid) :
    formatUuid (stripDashes uuid.text) = uuid.text := by
  have hlength := length_stripDashes_text uuid
  obtain ⟨a, b, c, d, e, hfields, ha, hb, hc, hd, -⟩ := uuid.exists_fields
  have hall : stripDashes uuid.text = a ++ (b ++ (c ++ (d ++ e))) := by
    rw [stripDashes_text, hfields]
    simp
  rw [formatUuid, if_neg (not_not.mpr hlength), hall, Uuid.text, hfields]
  have h8 : (a ++ (b ++ (c ++ (d ++ e)))).drop 8 = b ++ (c ++ (d ++ e)) :=
    List.drop_left' ha
  have h12 : (a ++ (b ++ (c ++ (d ++ e)))).drop (8 + 4) = c ++ (d ++ e) := by
    rw [← List.drop_drop, h8]
    exact List.drop_left' hb
  have h16 : (a ++ (b ++ (c ++ (d ++ e)))).drop (12 + 4) = d ++ e := by
    rw [← List.drop_drop, h12]
    exact List.drop_left' hc
  have h20 : (a ++ (b ++ (c ++ (d ++ e)))).drop (16 + 4) = e := by
    rw [← List.drop_drop, h16]
    exact List.drop_left' hd
  rw [List.take_left' ha, h8, List.take_left' hb, h12, List.take_left' hc,
    h16, List.take_left' hd, h20]
  simp [List.intercalate]

/-! ## Headers -/

/-- The ids of a context are UUIDs. -/
theorem Produced.exists_uuid (hctx : Produced ctx) :
    ∃ traceId spanId : Uuid,
      ctx.traceId = traceId.text ∧ ctx.spanId = spanId.text := by
  induction hctx with
  | createContext traceId spanId sampling sampled =>
      exact ⟨traceId, spanId, rfl, rfl⟩
  | withBaggage baggage hkeys hctx ih => exact ih
  | childContext spanId hparent ih =>
      obtain ⟨traceId, -, htrace, -⟩ := ih
      exact ⟨traceId, spanId, htrace, rfl⟩

theorem get_traceparent_inject (ctx : TraceContext) (headers : Headers) :
    (inject ctx headers).get traceparentKey = some (traceparent ctx) := by
  have hne : traceparentKey ≠ baggageKey := by decide
  rw [inject]
  cases ctx.baggage with
  | none => exact InsertionMap.get_set_self _ _ _
  | some baggage =>
      by_cases hsize : 0 < baggage.size
      · simp only [if_pos hsize]
        rw [InsertionMap.get_set_of_ne _ _ hne, InsertionMap.get_set_self]
      · simp only [if_neg hsize]
        exact InsertionMap.get_set_self _ _ _

def flagsOf (sampled : Bool) : Text := (if sampled then "01" else "00").toList

theorem traceparent_eq (ctx : TraceContext) :
    traceparent ctx =
      "00-".toList ++ stripDashes ctx.traceId ++ "-".toList ++
        stripDashes ctx.spanId ++ "-".toList ++ flagsOf ctx.sampled := rfl

theorem splitOn_traceparent (ctx : TraceContext) :
    (traceparent ctx).splitOn '-' =
      ["00".toList, stripDashes ctx.traceId, stripDashes ctx.spanId,
        flagsOf ctx.sampled] := by
  have hjoin : traceparent ctx = ['-'].intercalate
      ["00".toList, stripDashes ctx.traceId, stripDashes ctx.spanId,
        flagsOf ctx.sampled] := by
    have hversion : "00-".toList = "00".toList ++ ['-'] := rfl
    have hdash : "-".toList = ['-'] := rfl
    rw [traceparent_eq, hversion, hdash]
    generalize "00".toList = version
    simp only [List.intercalate_cons_cons, List.intercalate_singleton,
      List.append_assoc]
  rw [hjoin]
  refine List.splitOn_intercalate '-' ?_ (List.cons_ne_nil _ _)
  intro field hfield
  simp only [List.mem_cons, List.not_mem_nil, or_false] at hfield
  obtain rfl | rfl | rfl | rfl := hfield
  · decide
  · exact not_mem_stripDashes _
  · exact not_mem_stripDashes _
  · cases ctx.sampled <;> decide

/-- The ids and the sampling decision are read back, and nothing else. -/
theorem extract_inject (hctx : Produced ctx) (headers : Headers) :
    extract (inject ctx headers) =
      some { ctx with parentSpanId := none, baggage := none } := by
  obtain ⟨traceId, spanId, htrace, hspan⟩ := hctx.exists_uuid
  have hflags : decide (flagsOf ctx.sampled = "01".toList) = ctx.sampled := by
    cases ctx.sampled <;> decide
  simp only [extract, get_traceparent_inject, splitOn_traceparent, hflags,
    htrace, hspan, formatUuid_stripDashes]

theorem length_traceparent (hctx : Produced ctx) :
    (traceparent ctx).length = 71 := by
  obtain ⟨traceId, spanId, htrace, hspan⟩ := hctx.exists_uuid
  have hflags : (flagsOf ctx.sampled).length = 2 := by
    cases ctx.sampled <;> rfl
  simp only [traceparent_eq, htrace, hspan, List.length_append,
    length_stripDashes_text, hflags]
  rfl

theorem length_of_isTraceparent (hform : IsTraceparent text) :
    text.length = 55 := by
  obtain ⟨fields, rfl, hlengths, -⟩ := hform
  have hlength : fields.length = 4 := by
    simpa using congrArg List.length hlengths
  match fields, hlength, hlengths with
  | [a, b, c, d], _, hlengths =>
      simp only [List.map_cons, List.map_nil, List.cons.injEq] at hlengths
      obtain ⟨ha, hb, hc, hd, -⟩ := hlengths
      simp [List.intercalate, ha, hb, hc, hd]

/-- For every context that is produced, the ids and the sampling decision are
read back without the baggage, and the header is not one of W3C form. -/
theorem extracts_ids_and_not_propagates (hctx : Produced ctx)
    (headers : Headers) :
    extract (inject ctx headers) =
        some { ctx with parentSpanId := none, baggage := none } ∧
      ¬IsTraceparent (traceparent ctx) ∧ ¬Propagates ctx headers := by
  have hform : ¬IsTraceparent (traceparent ctx) := by
    intro hform
    have hlength := length_of_isTraceparent hform
    rw [length_traceparent hctx] at hlength
    exact absurd hlength (by decide)
  refine ⟨extract_inject hctx headers, hform, fun hpropagates => ?_⟩
  obtain ⟨value, hvalue, hvalueForm⟩ := hpropagates.traceparent
  rw [get_traceparent_inject, Option.some.injEq] at hvalue
  exact hform (hvalue ▸ hvalueForm)

def sampleId : Uuid where
  fields := ["3f2b8c1d", "94ab", "4c6e", "8f01", "5d7e9a0b2c34"].map
    String.toList
  valid := by decide +kernel

/-- A child of a context with baggage. -/
def sampleContext : TraceContext :=
  childContext
    { createContext sampleId sampleId true none with
      baggage := some (InsertionMap.empty.set "user".toList "42".toList) }
    sampleId

theorem extracts_ids_and_not_propagates_sample :
    extract (inject sampleContext .empty) =
        some { sampleContext with parentSpanId := none, baggage := none } ∧
      ¬IsTraceparent (traceparent sampleContext) ∧
        ¬Propagates sampleContext .empty :=
  extracts_ids_and_not_propagates
    (.childContext sampleId (.withBaggage _ (by decide +kernel)
      (.createContext sampleId sampleId true none))) .empty

/-- The baggage is lost, and the header has 32 digits for the span. -/
theorem not_propagates_baggage :
    (inject sampleContext .empty).get baggageKey = some "user=42".toList ∧
      (extract (inject sampleContext .empty)).map (·.baggage) = some none ∧
      (traceparent sampleContext).length = 71 ∧
      ¬Propagates sampleContext .empty := by
  have hbaggage : (extract (inject sampleContext .empty)).map (·.baggage) =
      some none := by
    decide +kernel
  refine ⟨by decide +kernel, hbaggage, by decide +kernel, fun hall => ?_⟩
  obtain ⟨found, hfound, -, -, -, hsame⟩ := hall.extracted
  rw [hfound, Option.map_some, Option.some.injEq, hsame] at hbaggage
  cases hbaggage

end TsCommons.ObservabilityOtel
