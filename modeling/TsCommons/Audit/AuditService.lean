import TsCommons.Foundations.Execution
import TsCommons.Foundations.InsertionMap
import Mathlib.Data.List.Perm.Subperm
import Mathlib.Data.Nat.Digits.Defs

/-!
# The audit trail

Entries are built by the service, which numbers them, and kept in the order in
which they were stored.  A function that is audited leaves an entry when it has
returned.  Readers page through the entries that match their query while more
of them are written.
-/

namespace TsCommons.Audit

open Foundations

/-! ## Numbers to the base 36 -/

def digit36 (digit : ℕ) : Char :=
  "0123456789abcdefghijklmnopqrstuvwxyz".toList.getD digit '0'

/-- The digits, the lowest first; zero has one digit as well. -/
def digits36 (n : ℕ) : List ℕ := if n = 0 then [0] else Nat.digits 36 n

/-- `n.toString(36)` -/
def toString36 (n : ℕ) : List Char := ((digits36 n).map digit36).reverse

theorem digits36_lt {n digit : ℕ} (hmem : digit ∈ digits36 n) : digit < 36 := by
  unfold digits36 at hmem
  split at hmem
  · rw [List.mem_singleton.mp hmem]
    decide
  · exact Nat.digits_lt_base (by decide) hmem

theorem ofDigits_digits36 (n : ℕ) : Nat.ofDigits 36 (digits36 n) = n := by
  unfold digits36
  split
  next hzero =>
    rw [hzero]
    rfl
  next => exact Nat.ofDigits_digits 36 n

/-- The place of a character among the digits. -/
def digitValue36 (char : Char) : ℕ :=
  "0123456789abcdefghijklmnopqrstuvwxyz".toList.idxOf char

theorem digitValue36_digit36 :
    ∀ digit < 36, digitValue36 (digit36 digit) = digit := by
  decide

theorem digit36_ne_hyphen : ∀ digit < 36, digit36 digit ≠ '-' := by
  decide

/-- `parseInt(text, 36)` of a text that consists of digits -/
def parse36 (text : List Char) : ℕ :=
  Nat.ofDigits 36 (text.reverse.map digitValue36)

theorem parse36_toString36 (n : ℕ) : parse36 (toString36 n) = n := by
  have hvalues : ((digits36 n).map digit36).map digitValue36 = digits36 n := by
    rw [List.map_map]
    conv_rhs => rw [← List.map_id (digits36 n)]
    apply List.map_congr_left
    intro digit hdigit
    exact digitValue36_digit36 digit (digits36_lt hdigit)
  rw [parse36, toString36, List.reverse_reverse, hvalues, ofDigits_digits36]

theorem toString36_injective : Function.Injective toString36 :=
  Function.LeftInverse.injective parse36_toString36

theorem hyphen_not_mem_toString36 (n : ℕ) : '-' ∉ toString36 n := by
  intro hmem
  obtain ⟨digit, hdigit, heq⟩ :=
    List.mem_map.mp (List.mem_reverse.mp hmem)
  exact digit36_ne_hyphen digit (digits36_lt hdigit) heq

/-! ## Entries -/

/-- The values of the fields are unknown. -/
structure AuditChange (V : Type) where
  old : V
  new : V
deriving DecidableEq

/-- A time is the number of its milliseconds. -/
structure AuditLog (V : Type) where
  id : String
  timestamp : ℕ
  userId : String
  tenantId : Option String
  action : String
  resource : String
  resourceId : String
  changes : InsertionMap String (AuditChange V)
  ip : String
  userAgent : String
  metadata : Option (InsertionMap String String)
deriving DecidableEq

structure AuditLogInput (V : Type) where
  userId : String
  tenantId : Option String := none
  action : String
  resource : String
  resourceId : String
  changes : Option (InsertionMap String (AuditChange V)) := none
  ip : String
  userAgent : String
  metadata : Option (InsertionMap String String) := none
deriving DecidableEq

structure AuditQuery where
  userId : Option String := none
  tenantId : Option String := none
  action : Option String := none
  resource : Option String := none
  resourceId : Option String := none
  fromDate : Option ℕ := none
  toDate : Option ℕ := none
  limit : Option ℤ := none
  offset : Option ℤ := none
deriving DecidableEq

/-- With the time and the number that the counter has come to. -/
def generateId (now number : ℕ) : String :=
  "audit-" ++ String.ofList (toString36 now) ++ "-" ++
    String.ofList (toString36 number)

def buildLog {V : Type} (now number : ℕ) (input : AuditLogInput V) :
    AuditLog V where
  id := generateId now number
  timestamp := now
  userId := input.userId
  tenantId := input.tenantId
  action := input.action
  resource := input.resource
  resourceId := input.resourceId
  changes := input.changes.getD .empty
  ip := input.ip
  userAgent := input.userAgent
  metadata := input.metadata

theorem generateId_inj {now later number other : ℕ}
    (heq : generateId now number = generateId later other) :
    now = later ∧ number = other := by
  have hlists := congrArg String.toList heq
  simp only [generateId, String.toList_append, String.toList_ofList,
    List.append_assoc] at hlists
  have htexts := List.append_cancel_left hlists
  obtain ⟨hnow, -, hnumber⟩ := (List.append_cons_inj_of_notMem
    (hyphen_not_mem_toString36 now)
    (hyphen_not_mem_toString36 number)).mp htexts
  exact ⟨toString36_injective hnow, toString36_injective hnumber⟩

/-! ## The storage -/

section Storage

variable {V : Type}

def matchesDateRange (timestamp : ℕ) (start stop : Option ℕ) : Bool :=
  if start.any (timestamp < ·) then false
  else if stop.any (· < timestamp) then false
  else true

def matchesScalar (logValue filter : Option String) : Bool :=
  match filter with
  | none => true
  | some _ => logValue = filter

def matchesLog (log : AuditLog V) (q : AuditQuery) : Bool :=
  if !matchesScalar (some log.userId) q.userId then false
  else if !matchesScalar log.tenantId q.tenantId then false
  else if !matchesScalar (some log.action) q.action then false
  else if !matchesScalar (some log.resource) q.resource then false
  else if !matchesScalar (some log.resourceId) q.resourceId then false
  else matchesDateRange log.timestamp q.fromDate q.toDate

/-- `list.slice(start, stop)`, which counts a negative index from the end. -/
def slice {α : Type} (list : List α) (start : ℤ) (stop : Option ℤ) : List α :=
  let index (k : ℤ) : ℕ :=
    if k < 0 then (list.length + k).toNat else min k.toNat list.length
  (list.drop (index start)).take (stop.elim list.length index - index start)

structure InMemoryAuditStorage (V : Type) where
  logs : List (AuditLog V)

namespace InMemoryAuditStorage

def new : InMemoryAuditStorage V := ⟨[]⟩

def store (storage : InMemoryAuditStorage V) (log : AuditLog V) :
    InMemoryAuditStorage V :=
  ⟨storage.logs ++ [log]⟩

def query (storage : InMemoryAuditStorage V) (query : AuditQuery) :
    List (AuditLog V) :=
  let filtered := storage.logs.filter fun log => matchesLog log query
  let offset := query.offset.getD 0
  let stop := query.limit.map fun limit => offset + limit
  slice filtered offset stop

def count (storage : InMemoryAuditStorage V) (query : AuditQuery) : ℕ :=
  (storage.logs.filter fun log => matchesLog log query).length

end InMemoryAuditStorage

/-- A page of a list. -/
theorem slice_natCast {α : Type} (list : List α) (start size : ℕ) :
    slice list start (some (start + size : ℤ)) =
      (list.drop start).take size := by
  have hstart : ¬ (start : ℤ) < 0 := by omega
  have hstop : ¬ (start + size : ℤ) < 0 := by omega
  have hsum : (start + size : ℤ).toNat = start + size := by omega
  simp only [slice, Option.elim_some, if_neg hstart, if_neg hstop,
    Int.toNat_natCast, hsum]
  by_cases hle : start ≤ list.length
  · rw [Nat.min_eq_left hle, List.take_eq_take_iff, List.length_drop]
    omega
  · have hge : list.length ≤ start := by omega
    rw [Nat.min_eq_right hge, List.drop_length, List.take_nil,
      List.drop_of_length_le hge, List.take_nil]

theorem slice_zero {α : Type} (list : List α) :
    slice list 0 none = list := by
  simp [slice]

end Storage

/-! ## Functions that are audited -/

structure AuditContext where
  userId : String
  ip : String
  userAgent : String
  tenantId : Option String := none

/-- Arguments `A` and results `R`. -/
structure AuditedOptions (A R V : Type) where
  action : String
  resource : String
  getResourceId : Option (A → String) := none
  getUserId : Option (A → String) := none
  getChanges : Option (A → R → InsertionMap String (AuditChange V)) := none

/-- What the function of `createAuditedFn` passes to the service. -/
def auditedInput {A R V : Type} (options : AuditedOptions A R V)
    (context : AuditContext) (args : A) (result : R) : AuditLogInput V where
  userId := (options.getUserId.map (· args)).getD context.userId
  tenantId := context.tenantId
  action := options.action
  resource := options.resource
  resourceId := (options.getResourceId.map (· args)).getD "unknown"
  changes := some ((options.getChanges.map (· args result)).getD .empty)
  ip := context.ip
  userAgent := context.userAgent

inductive AuditedCall (A R V : Type)
  | pending (args : A)
  | rejected
  | returned (args : A) (result : R) (log : AuditLog V)

def AuditedCall.log? {A R V : Type} : AuditedCall A R V → Option (AuditLog V)
  | .pending _ | .rejected => none
  | .returned _ _ log => some log

/-- The functions that are audited and the readers, each of which has a query
and a size of its pages. -/
structure AuditSystem (A R V : Type) where
  options : ℕ → AuditedOptions A R V
  context : ℕ → AuditContext
  queries : ℕ → AuditQuery
  limit : ℕ → ℕ

/-- `direct` counts the entries that were not written by audited functions,
and `readers` are the entries that each reader has got.  The clock, which reads
`now`, does not go back. -/
structure AuditState (A R V : Type) where
  counter : ℕ
  now : ℕ
  storage : InMemoryAuditStorage V
  calls : List (ℕ × AuditedCall A R V)
  direct : ℕ
  readers : ℕ → List (AuditLog V)

/-- `elsewhere` is an entry of a service with another storage: the counter is
that of the module. -/
inductive AuditLabel (A R V : Type)
  | advance (elapsed : ℕ)
  | log (input : AuditLogInput V)
  | elsewhere
  | call (function : ℕ) (args : A)
  | settle (call : ℕ) (outcome : Option R)
  | fetch (reader : ℕ)

def AuditState.initial {A R V : Type} : AuditState A R V :=
  ⟨0, 0, .new, [], 0, fun _ => []⟩

namespace AuditSystem

variable {A R V : Type} (system : AuditSystem A R V)

/-- The next page of a reader: the offset is the number of entries that it has
got. -/
def page (state : AuditState A R V) (reader : ℕ) : List (AuditLog V) :=
  state.storage.query { system.queries reader with
    limit := some (system.limit reader)
    offset := some (state.readers reader).length }

def step (state : AuditState A R V) :
    AuditLabel A R V → Option (AuditState A R V)
  | .advance elapsed => some { state with now := state.now + elapsed }
  | .log input =>
      let counter := state.counter + 1
      some { state with
        counter := counter
        storage := state.storage.store (buildLog state.now counter input)
        direct := state.direct + 1 }
  | .elsewhere => some { state with counter := state.counter + 1 }
  | .call function args =>
      some { state with calls := state.calls ++ [(function, .pending args)] }
  | .settle index outcome =>
      match state.calls[index]? with
      | some (function, .pending args) =>
          match outcome with
          | none =>
              some { state with
                calls := state.calls.set index (function, .rejected) }
          | some result =>
              let counter := state.counter + 1
              let log := buildLog state.now counter
                (auditedInput (system.options function)
                  (system.context function) args result)
              some { state with
                counter := counter
                storage := state.storage.store log
                calls := state.calls.set index
                  (function, .returned args result log) }
      | _ => none
  | .fetch reader =>
      some { state with
        readers := Function.update state.readers reader
          (state.readers reader ++ system.page state reader) }

/-- The entries that a reader is after. -/
def wanted (state : AuditState A R V) (reader : ℕ) : List (AuditLog V) :=
  state.storage.logs.filter fun log => matchesLog log (system.queries reader)

/-- The entries of the audited calls that have returned. -/
def recordedBy (calls : List (ℕ × AuditedCall A R V)) : List (AuditLog V) :=
  calls.filterMap fun call => call.2.log?

/-- The ids differ and the times are in order; each audited call that has
returned has an entry of its own, which tells of the call, and the other
entries are direct ones; what a reader has got is the beginning of what it is
after, and all of it once a page is not full. -/
structure AuditLaw (state : AuditState A R V) : Prop where
  nodup : (state.storage.logs.map AuditLog.id).Nodup
  chronological : state.storage.logs.Pairwise fun earlier later =>
    earlier.timestamp ≤ later.timestamp
  audited : ∀ call ∈ state.calls, ∀ args result log,
    call.2 = .returned args result log →
      ∃ now number, log = buildLog now number (auditedInput
        (system.options call.1) (system.context call.1) args result)
  recorded : (recordedBy state.calls).Subperm state.storage.logs
  counted : state.storage.logs.length =
    state.direct + (recordedBy state.calls).length
  paged : ∀ reader, state.readers reader <+: system.wanted state reader
  complete : ∀ reader,
    (system.page state reader).length < system.limit reader →
      state.readers reader ++ system.page state reader =
        system.wanted state reader

/-! ## The entries -/

/-- The numbers of the entries are those that the counter has passed. -/
structure Trail (logs : List (AuditLog V)) (counter now : ℕ) : Prop where
  numbered : ∀ log ∈ logs, ∃ number ≤ counter,
    log.id = generateId log.timestamp number
  past : ∀ log ∈ logs, log.timestamp ≤ now
  nodup : (logs.map AuditLog.id).Nodup
  chronological : logs.Pairwise fun earlier later =>
    earlier.timestamp ≤ later.timestamp

section Trail

variable {logs : List (AuditLog V)} {counter now : ℕ}

omit system in
theorem trail_nil : Trail ([] : List (AuditLog V)) counter now :=
  ⟨List.forall_mem_nil _, List.forall_mem_nil _, .nil, .nil⟩

theorem Trail.mono (htrail : Trail logs counter now) {counter' now' : ℕ}
    (hcounter : counter ≤ counter') (hnow : now ≤ now') :
    Trail logs counter' now' := by
  refine ⟨fun log hlog => ?_, fun log hlog => ?_, htrail.nodup,
    htrail.chronological⟩
  · obtain ⟨number, hle, hid⟩ := htrail.numbered log hlog
    exact ⟨number, hle.trans hcounter, hid⟩
  · exact (htrail.past log hlog).trans hnow

theorem Trail.store (htrail : Trail logs counter now)
    (input : AuditLogInput V) :
    Trail (logs ++ [buildLog now (counter + 1) input]) (counter + 1) now := by
  have hmono := htrail.mono (Nat.le_succ counter) (Nat.le_refl now)
  constructor
  · refine List.forall_mem_append.mpr ⟨hmono.numbered, ?_⟩
    exact List.forall_mem_singleton.mpr ⟨counter + 1, Nat.le_refl _, rfl⟩
  · exact List.forall_mem_append.mpr ⟨hmono.past,
      List.forall_mem_singleton.mpr (Nat.le_refl now)⟩
  · rw [List.map_append, List.nodup_append]
    refine ⟨htrail.nodup, List.nodup_singleton _, ?_⟩
    intro id hid last hlast heq
    obtain ⟨log, hlog, rfl⟩ := List.mem_map.mp hid
    obtain ⟨number, hle, hnumber⟩ := htrail.numbered log hlog
    rw [List.map_singleton, List.mem_singleton] at hlast
    rw [hnumber, hlast] at heq
    have hsame : number = counter + 1 := (generateId_inj heq).2
    omega
  · refine List.pairwise_append.mpr
      ⟨htrail.chronological, List.pairwise_singleton _ _, ?_⟩
    intro earlier hearlier last hlast
    rw [List.mem_singleton.mp hlast]
    exact htrail.past earlier hearlier

end Trail

/-! ## Pages -/

variable {system : AuditSystem A R V} {state next : AuditState A R V}
  {label : AuditLabel A R V} {index : ℕ}

theorem page_eq (state : AuditState A R V) (reader : ℕ) :
    system.page state reader =
      ((system.wanted state reader).drop (state.readers reader).length).take
        (system.limit reader) :=
  slice_natCast _ _ _

theorem append_page_prefix {reader : ℕ}
    (hpaged : state.readers reader <+: system.wanted state reader) :
    state.readers reader ++ system.page state reader <+:
      system.wanted state reader := by
  obtain ⟨rest, hrest⟩ := hpaged
  rw [page_eq, ← hrest, List.drop_left]
  exact (List.prefix_append_right_inj _).mpr (List.take_prefix _ _)

theorem append_page_eq {reader : ℕ}
    (hpaged : state.readers reader <+: system.wanted state reader)
    (hshort : (system.page state reader).length < system.limit reader) :
    state.readers reader ++ system.page state reader =
      system.wanted state reader := by
  obtain ⟨rest, hrest⟩ := hpaged
  rw [page_eq, ← hrest, List.drop_left, List.length_take] at hshort
  rw [page_eq, ← hrest, List.drop_left, List.take_of_length_le (by omega)]

/-! ## Runs -/

/-- One element of a list is exchanged for one that has an image. -/
theorem filterMap_set_perm {α β : Type} (f : α → Option β) {items : List α}
    {old new : α} {image : β} (hold : items[index]? = some old)
    (hnone : f old = none) (hsome : f new = some image) :
    ((items.set index new).filterMap f).Perm (image :: items.filterMap f) := by
  induction items generalizing index with
  | nil => cases hold
  | cons first rest ih =>
      cases index with
      | zero =>
          cases hold
          rw [List.set_cons_zero, List.filterMap_cons_some hsome,
            List.filterMap_cons_none hnone]
      | succ index =>
          rw [List.set_cons_succ]
          cases hfirst : f first with
          | none =>
              rw [List.filterMap_cons_none hfirst,
                List.filterMap_cons_none hfirst]
              exact ih hold
          | some other =>
              rw [List.filterMap_cons_some hfirst,
                List.filterMap_cons_some hfirst]
              exact ((ih hold).cons other).trans (List.Perm.swap _ _ _)

theorem filterMap_set_of_none {α β : Type} (f : α → Option β)
    {items : List α} {old new : α} (hold : items[index]? = some old)
    (hnone : f old = none) (hnew : f new = none) :
    (items.set index new).filterMap f = items.filterMap f := by
  induction items generalizing index with
  | nil => cases hold
  | cons first rest ih =>
      cases index with
      | zero =>
          cases hold
          rw [List.set_cons_zero, List.filterMap_cons_none hnew,
            List.filterMap_cons_none hnone]
      | succ index =>
          rw [List.set_cons_succ, List.filterMap_cons, List.filterMap_cons,
            ih hold]

structure AuditInvariant (system : AuditSystem A R V)
    (state : AuditState A R V) : Prop where
  trail : Trail state.storage.logs state.counter state.now
  audited : ∀ call ∈ state.calls, ∀ args result log,
    call.2 = .returned args result log →
      ∃ now number, log = buildLog now number (auditedInput
        (system.options call.1) (system.context call.1) args result)
  recorded : (recordedBy state.calls).Subperm state.storage.logs
  counted : state.storage.logs.length =
    state.direct + (recordedBy state.calls).length
  paged : ∀ reader, state.readers reader <+: system.wanted state reader

theorem auditInvariant_initial :
    system.AuditInvariant (AuditState.initial : AuditState A R V) where
  trail := trail_nil
  audited := List.forall_mem_nil _
  recorded := .refl _
  counted := rfl
  paged _ := List.prefix_rfl

theorem AuditInvariant.law (hinv : system.AuditInvariant state) :
    system.AuditLaw state where
  nodup := hinv.trail.nodup
  chronological := hinv.trail.chronological
  audited := hinv.audited
  recorded := hinv.recorded
  counted := hinv.counted
  paged := hinv.paged
  complete reader := append_page_eq (hinv.paged reader)

/-- What is stored goes behind what the readers have got. -/
theorem AuditInvariant.paged_store (hinv : system.AuditInvariant state)
    (log : AuditLog V) (reader : ℕ) :
    state.readers reader <+: (state.storage.store log).logs.filter fun log =>
      matchesLog log (system.queries reader) := by
  rw [InMemoryAuditStorage.store, List.filter_append]
  exact (hinv.paged reader).trans (List.prefix_append _ _)

theorem AuditInvariant.settle (hinv : system.AuditInvariant state)
    {function : ℕ} {args : A}
    (hcall : state.calls[index]? = some (function, .pending args))
    (result : R) :
    let log := buildLog state.now (state.counter + 1)
      (auditedInput (system.options function) (system.context function) args
        result)
    system.AuditInvariant { state with
      counter := state.counter + 1
      storage := state.storage.store log
      calls := state.calls.set index
        (function, .returned args result log) } := by
  intro log
  have hperm : (recordedBy (state.calls.set index
      (function, .returned args result log))).Perm
        (log :: recordedBy state.calls) :=
    filterMap_set_perm _ hcall rfl rfl
  constructor
  · exact hinv.trail.store _
  · intro call hmem
    rcases List.mem_or_eq_of_mem_set hmem with hother | rfl
    · exact hinv.audited call hother
    · intro args' result' log' hreturned
      cases hreturned
      exact ⟨_, _, rfl⟩
  · have hsubperm : (log :: recordedBy state.calls).Subperm
        (log :: state.storage.logs) :=
      (List.subperm_cons log).mpr hinv.recorded
    exact hperm.subperm.trans
      (hsubperm.trans (List.perm_append_singleton log _).symm.subperm)
  · have hcounted := hinv.counted
    rw [hperm.length_eq, List.length_cons]
    simp only [InMemoryAuditStorage.store, List.length_append,
      List.length_singleton]
    omega
  · exact hinv.paged_store log

theorem AuditInvariant.reject (hinv : system.AuditInvariant state)
    {function : ℕ} {args : A}
    (hcall : state.calls[index]? = some (function, .pending args)) :
    system.AuditInvariant { state with
      calls := state.calls.set index (function, .rejected) } := by
  have hsame : recordedBy (state.calls.set index (function, .rejected)) =
      recordedBy state.calls :=
    filterMap_set_of_none _ hcall rfl rfl
  refine ⟨hinv.trail, fun call hmem => ?_, ?_, ?_, hinv.paged⟩
  · rcases List.mem_or_eq_of_mem_set hmem with hother | rfl
    · exact hinv.audited call hother
    · exact nofun
  · rw [hsame]
    exact hinv.recorded
  · rw [hsame]
    exact hinv.counted

theorem AuditInvariant.step (hinv : system.AuditInvariant state)
    (hstep : system.step state label = some next) :
    system.AuditInvariant next := by
  cases label with
  | advance elapsed =>
      cases hstep
      exact { hinv with
        trail := hinv.trail.mono (Nat.le_refl _) (Nat.le_add_right _ _) }
  | log input =>
      cases hstep
      refine ⟨hinv.trail.store input, hinv.audited, ?_, ?_,
        hinv.paged_store _⟩
      · exact hinv.recorded.trans (List.prefix_append _ _).sublist.subperm
      · have hcounted := hinv.counted
        simp only [InMemoryAuditStorage.store, List.length_append,
          List.length_singleton]
        omega
  | elsewhere =>
      cases hstep
      exact { hinv with
        trail := hinv.trail.mono (Nat.le_succ _) (Nat.le_refl _) }
  | call function args =>
      cases hstep
      have hsame : recordedBy (state.calls ++ [(function, .pending args)]) =
          recordedBy state.calls := by
        rw [recordedBy, List.filterMap_append]
        exact List.append_nil _
      refine ⟨hinv.trail, ?_, ?_, ?_, hinv.paged⟩
      · refine List.forall_mem_append.mpr ⟨hinv.audited, ?_⟩
        exact List.forall_mem_singleton.mpr nofun
      · rw [hsame]
        exact hinv.recorded
      · rw [hsame]
        exact hinv.counted
  | settle index outcome =>
      simp only [AuditSystem.step] at hstep
      split at hstep
      next hcall =>
        split at hstep
        next =>
          cases hstep
          exact hinv.reject hcall
        next result =>
          cases hstep
          exact hinv.settle hcall result
      next => cases hstep
  | fetch reader =>
      cases hstep
      refine { hinv with paged := fun other => ?_ }
      dsimp only
      by_cases hother : other = reader
      · subst hother
        rw [Function.update_self]
        exact append_page_prefix (hinv.paged other)
      · rw [Function.update_of_ne hother]
        exact hinv.paged other

/-- Whatever is called, logged and read in between. -/
theorem auditLaw_run {labels : List (AuditLabel A R V)}
    (hrun : exec system.step AuditState.initial labels = some state) :
    system.AuditLaw state :=
  (exec_invariant (fun _ _ _ hinv hstep => hinv.step hstep)
    auditInvariant_initial hrun).law

end AuditSystem

/-- Two calls of a function, the first of which fails, and a reader with pages
of two. -/
def twoCalls : List (AuditLabel ℕ ℕ ℕ) :=
  [.call 0 7, .log ⟨"bob", none, "LOGIN", "User", "1", none, "::1", "web",
    none⟩, .call 0 8, .fetch 0, .advance 40, .elsewhere, .settle 0 none,
    .settle 1 (some 9), .fetch 0,
    .log ⟨"bob", none, "USER_CREATED", "User", "2", none, "::1", "web", none⟩,
    .fetch 0]

theorem auditLaw_of_twoCalls :
    let system : AuditSystem ℕ ℕ ℕ :=
      ⟨fun _ => { action := "USER_CREATED", resource := "User" },
        fun _ => ⟨"admin", "127.0.0.1", "cli", none⟩,
        fun _ => { action := some "USER_CREATED" }, fun _ => 2⟩
    ∃ state, exec system.step AuditState.initial twoCalls = some state ∧
      system.AuditLaw state ∧
      state.storage.logs.map AuditLog.id =
        ["audit-0-1", "audit-14-3", "audit-14-4"] ∧
      (state.readers 0).map AuditLog.userId = ["admin", "bob"] := by
  intro system
  have hrun : exec system.step AuditState.initial twoCalls = some _ := rfl
  refine ⟨_, hrun, system.auditLaw_run hrun, ?_, ?_⟩
  · decide +kernel
  · decide +kernel

end TsCommons.Audit
