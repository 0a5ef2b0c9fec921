import TsCommons.Foundations.InsertionMap
import Mathlib.Tactic.Common

/-!
# The redactor of personal data

Values under the keys of personal data are replaced at any depth, so they do
not show in the result.  Every other object is copied key by key into a new
one.  An array is copied in the same way and comes back as an object, and a key
`__proto__` does not come back.
-/

namespace TsCommons.Observability

open Foundations

/-! ## Trees -/

/-- Plain objects, arrays and primitives; `P` are the primitives that are not
texts.  An object made by assignments may have a prototype of its own. -/
inductive Tree (P : Type)
  | text (value : String)
  | primitive (value : P)
  | array (items : List (Tree P))
  | record (prototype : Option (Tree P)) (fields : List (String × Tree P))

namespace Tree

variable {P : Type}

@[elab_as_elim] theorem induction {motive : Tree P → Prop}
    (text : ∀ value, motive (.text value))
    (primitive : ∀ value, motive (.primitive value))
    (array : ∀ items, (∀ item ∈ items, motive item) → motive (.array items))
    (record : ∀ prototype fields, (∀ field ∈ fields, motive field.2) →
      motive (.record prototype fields)) (tree : Tree P) : motive tree := by
  refine @Tree.rec P motive (fun items => ∀ item ∈ items, motive item)
    (fun _ => True) (fun fields => ∀ field ∈ fields, motive field.2)
    (fun field => motive field.2) text primitive array
    (fun prototype fields _ => record prototype fields)
    ?_ ?_ ?_ ?_ ?_ ?_ ?_ tree
  · exact List.forall_mem_nil _
  · exact fun item items hitem hitems =>
      List.forall_mem_cons.mpr ⟨hitem, hitems⟩
  · trivial
  · exact fun _ _ => trivial
  · exact List.forall_mem_nil _
  · exact fun field fields hfield hfields =>
      List.forall_mem_cons.mpr ⟨hfield, hfields⟩
  · exact fun _ _ hvalue => hvalue

/-- `typeof value === 'object' && value !== null` -/
def isObject : Tree P → Bool
  | .array _ => true
  | .record _ _ => true
  | _ => false

/-- `redacted[key] = value`: an object that is written to `__proto__` becomes
the prototype, and anything else is ignored there. -/
def assign (redacted : Tree P) (key : String) (value : Tree P) : Tree P :=
  match redacted with
  | .record prototype fields =>
      if key = "__proto__" then
        if value.isObject then .record (some value) fields else redacted
      else .record prototype (InsertionMap.put key value fields)
  | _ => redacted

end Tree

/-! ## The redactor -/

namespace PiiRedactor

variable {P : Type}

def piiFields : List String :=
  ["password", "ssn", "creditCard", "email", "phone", "address"]

mutual

/-- A value that is neither an object nor an array is copied. -/
def redact : Tree P → Tree P
  | .text value => .text value
  | .primitive value => .primitive value
  | .array items => redactItems 0 items (.record none [])
  | .record _ fields => redactFields fields (.record none [])

/-- The entries of an array have the positions as keys. -/
def redactItems : ℕ → List (Tree P) → Tree P → Tree P
  | _, [], redacted => redacted
  | index, item :: rest, redacted =>
      redactItems (index + 1) rest
        (redacted.assign (toString index) (redact item))

def redactFields : List (String × Tree P) → Tree P → Tree P
  | [], redacted => redacted
  | (key, value) :: rest, redacted =>
      redactFields rest (redacted.assign key
        (if key ∈ piiFields then .text "[REDACTED]" else redact value))

end

/-! ## What it has to do -/

mutual

/-- The trees differ only in values under the keys of personal data. -/
def AgreeOutsidePii : Tree P → Tree P → Prop
  | .text value, .text other => value = other
  | .primitive value, .primitive other => value = other
  | .array items, .array others => AgreeItems items others
  | .record _ fields, .record _ others => AgreeFields fields others
  | _, _ => False

def AgreeItems : List (Tree P) → List (Tree P) → Prop
  | [], [] => True
  | item :: rest, other :: others =>
      AgreeOutsidePii item other ∧ AgreeItems rest others
  | _, _ => False

def AgreeFields :
    List (String × Tree P) → List (String × Tree P) → Prop
  | [], [] => True
  | (key, value) :: rest, (otherKey, other) :: others =>
      key = otherKey ∧ (key ∈ piiFields ∨ AgreeOutsidePii value other) ∧
        AgreeFields rest others
  | _, _ => False

end

mutual

/-- Outside the keys of personal data the second tree is as the first, a plain
object for a plain object and an array for an array. -/
def Keeps : Tree P → Tree P → Prop
  | .text value, .text after => after = value
  | .primitive value, .primitive after => after = value
  | .array items, .array after => KeepsItems items after
  | .record _ fields, .record none after => KeepsFields fields after
  | _, _ => False

def KeepsItems : List (Tree P) → List (Tree P) → Prop
  | [], [] => True
  | item :: rest, after :: others => Keeps item after ∧ KeepsItems rest others
  | _, _ => False

def KeepsFields :
    List (String × Tree P) → List (String × Tree P) → Prop
  | [], [] => True
  | (key, value) :: rest, (keyAfter, after) :: others =>
      keyAfter = key ∧ (key ∈ piiFields ∨ Keeps value after) ∧
        KeepsFields rest others
  | _, _ => False

end

mutual

/-- A tree of plain objects, whose keys differ. -/
def WellFormed : Tree P → Prop
  | .array items => WellFormedItems items
  | .record prototype fields =>
      prototype = none ∧ (fields.map Prod.fst).Nodup ∧ WellFormedFields fields
  | _ => True

def WellFormedItems : List (Tree P) → Prop
  | [] => True
  | item :: rest => WellFormed item ∧ WellFormedItems rest

def WellFormedFields : List (String × Tree P) → Prop
  | [] => True
  | (_, value) :: rest => WellFormed value ∧ WellFormedFields rest

end

mutual

/-- Outside the keys of personal data there is no array and no key
`__proto__`. -/
def Copyable : Tree P → Prop
  | .array _ => False
  | .record _ fields => CopyableFields fields
  | _ => True

def CopyableFields : List (String × Tree P) → Prop
  | [] => True
  | (key, value) :: rest =>
      key ≠ "__proto__" ∧ (key ∈ piiFields ∨ Copyable value) ∧
        CopyableFields rest

end

/-- What is logged: an object. -/
structure Data (P : Type) where
  fields : List (String × Tree P)
  wellFormed : WellFormed (.record none fields)

def Data.tree (data : Data P) : Tree P := .record none data.fields

structure RedactionLaw (data : Data P) : Prop where
  hides : ∀ other : Data P, AgreeOutsidePii data.tree other.tree →
    redact data.tree = redact other.tree
  idempotent : redact (redact data.tree) = redact data.tree
  keeps : Keeps data.tree (redact data.tree)

variable {tree other : Tree P} {fields : List (String × Tree P)}

theorem wellFormedFields_iff :
    WellFormedFields fields ↔ ∀ field ∈ fields, WellFormed field.2 := by
  induction fields with
  | nil => simp [WellFormedFields]
  | cons field rest ih =>
      rw [WellFormedFields, ih, List.forall_mem_cons]

theorem copyableFields_iff :
    CopyableFields fields ↔ ∀ field ∈ fields, field.1 ≠ "__proto__" ∧
      (field.1 ∈ piiFields ∨ Copyable field.2) := by
  induction fields with
  | nil => simp [CopyableFields]
  | cons field rest ih =>
      rw [CopyableFields, ih, List.forall_mem_cons, and_assoc]

/-! ## Nothing of what is hidden shows -/

mutual

theorem redact_eq_of_agree : ∀ tree other : Tree P,
    AgreeOutsidePii tree other → redact tree = redact other
  | .text value, other, hagree => by
      cases other with
      | text after => rw [(hagree : value = after)]
      | _ => exact hagree.elim
  | .primitive value, other, hagree => by
      cases other with
      | primitive after => rw [(hagree : value = after)]
      | _ => exact hagree.elim
  | .array items, other, hagree => by
      cases other with
      | array others =>
          rw [redact, redact, redactItems_eq_of_agree items others hagree]
      | _ => exact hagree.elim
  | .record _ fields, other, hagree => by
      cases other with
      | record _ others =>
          rw [redact, redact, redactFields_eq_of_agree fields others hagree]
      | _ => exact hagree.elim

theorem redactItems_eq_of_agree : ∀ items others : List (Tree P),
    AgreeItems items others → ∀ index redacted,
      redactItems index items redacted = redactItems index others redacted
  | [], [], _, _, _ => rfl
  | [], _ :: _, hagree, _, _ => hagree.elim
  | _ :: _, [], hagree, _, _ => hagree.elim
  | item :: rest, other :: others, ⟨hitem, hrest⟩, index, redacted => by
      rw [redactItems, redactItems, redact_eq_of_agree item other hitem,
        redactItems_eq_of_agree rest others hrest]

theorem redactFields_eq_of_agree : ∀ fields others : List (String × Tree P),
    AgreeFields fields others → ∀ redacted,
      redactFields fields redacted = redactFields others redacted
  | [], [], _, _ => rfl
  | [], _ :: _, hagree, _ => hagree.elim
  | _ :: _, [], hagree, _ => hagree.elim
  | (key, value) :: rest, (_, other) :: others, ⟨rfl, hvalue, hrest⟩,
      redacted => by
      have hwritten :
          (if key ∈ piiFields then .text "[REDACTED]" else redact value) =
            if key ∈ piiFields then .text "[REDACTED]" else redact other := by
        split
        · rfl
        · rename_i hplain
          exact redact_eq_of_agree value other (hvalue.resolve_left hplain)
      rw [redactFields, redactFields, hwritten,
        redactFields_eq_of_agree rest others hrest]

end

/-! ## What is copied -/

/-- What is written for a field. -/
def redactField (field : String × Tree P) : String × Tree P :=
  (field.1, if field.1 ∈ piiFields then .text "[REDACTED]"
    else redact field.2)

theorem redactFields_eq_map {written : List (String × Tree P)}
    (hdistinct : ((written ++ fields).map Prod.fst).Nodup)
    (hproto : ∀ field ∈ fields, field.1 ≠ "__proto__") :
    redactFields fields (.record none written) =
      .record none (written ++ fields.map redactField) := by
  induction fields generalizing written with
  | nil => rw [redactFields, List.map_nil, List.append_nil]
  | cons field rest ih =>
      obtain ⟨hfield, hrest⟩ := List.forall_mem_cons.mp hproto
      have hnew : field.1 ∉ written.map Prod.fst := by
        rw [List.map_append, List.map_cons] at hdistinct
        exact fun hmem => (List.nodup_append.mp hdistinct).2.2 _ hmem _
          List.mem_cons_self rfl
      have hassign : (Tree.record none written).assign field.1
          (redactField field).2 =
          .record none (written ++ [redactField field]) := by
        rw [Tree.assign, if_neg hfield, InsertionMap.put_of_not_mem _ hnew]
        rfl
      have hkeys : ((written ++ [redactField field] ++ rest).map
          Prod.fst).Nodup := by
        rw [List.append_assoc, List.singleton_append, List.map_append,
          List.map_cons] at *
        exact hdistinct
      rw [redactFields]
      change redactFields rest ((Tree.record none written).assign field.1
        (redactField field).2) = _
      rw [hassign, ih hkeys hrest, List.append_assoc,
        List.singleton_append, ← List.map_cons]

theorem redact_record (hdistinct : (fields.map Prod.fst).Nodup)
    (hcopyable : CopyableFields fields) :
    redact (.record none fields) = .record none (fields.map redactField) := by
  have hproto : ∀ field ∈ fields, field.1 ≠ "__proto__" :=
    fun field hmem => (copyableFields_iff.mp hcopyable field hmem).1
  rw [redact, redactFields_eq_map hdistinct hproto, List.nil_append]

/-- A plain or other object without a property `__proto__`. -/
def NoProto (tree : Tree P) : Prop :=
  ∃ prototype fields, tree = .record prototype fields ∧
    "__proto__" ∉ fields.map Prod.fst

theorem NoProto.assign (hnone : NoProto tree) (key : String)
    (value : Tree P) : NoProto (tree.assign key value) := by
  obtain ⟨prototype, fields, rfl, hfields⟩ := hnone
  rw [Tree.assign]
  split
  · split
    · exact ⟨_, _, rfl, hfields⟩
    · exact ⟨_, _, rfl, hfields⟩
  · rename_i hne
    refine ⟨_, _, rfl, ?_⟩
    rw [InsertionMap.mem_keys_put, not_or]
    exact ⟨Ne.symm hne, hfields⟩

theorem NoProto.redactFields {redacted : Tree P} (hnone : NoProto redacted) :
    NoProto (redactFields fields redacted) := by
  induction fields generalizing redacted with
  | nil => exact hnone
  | cons field rest ih => exact ih (hnone.assign field.1 _)

theorem NoProto.redactItems {redacted : Tree P} (hnone : NoProto redacted)
    (index : ℕ) (items : List (Tree P)) :
    NoProto (redactItems index items redacted) := by
  induction items generalizing index redacted with
  | nil => exact hnone
  | cons item rest ih => exact ih (hnone.assign _ _) (index + 1)

theorem noProto_empty : NoProto (.record none [] : Tree P) :=
  ⟨none, [], rfl, List.not_mem_nil⟩

theorem map_fst_of_keepsFields {after : List (String × Tree P)}
    (hkeeps : KeepsFields fields after) :
    fields.map Prod.fst = after.map Prod.fst := by
  induction fields generalizing after with
  | nil =>
      cases after with
      | nil => rfl
      | cons field rest => exact hkeeps.elim
  | cons field rest ih =>
      cases after with
      | nil => exact hkeeps.elim
      | cons other others =>
          obtain ⟨hkey, -, hrest⟩ := hkeeps
          rw [List.map_cons, List.map_cons, hkey, ih hrest]

theorem keepsFields_map_iff :
    KeepsFields fields (fields.map redactField) ↔
      ∀ field ∈ fields,
        field.1 ∈ piiFields ∨ Keeps field.2 (redact field.2) := by
  induction fields with
  | nil => simp [KeepsFields]
  | cons field rest ih =>
      rw [List.map_cons, KeepsFields, ih, List.forall_mem_cons]
      simp only [redactField, true_and]
      by_cases hpii : field.1 ∈ piiFields
      · simp [hpii]
      · simp [hpii]

/-- A tree comes back as it was if and only if it can be copied key by key. -/
theorem keeps_iff_copyable (hwellFormed : WellFormed tree) :
    Keeps tree (redact tree) ↔ Copyable tree := by
  induction tree using Tree.induction with
  | text value => simp [redact, Keeps, Copyable]
  | primitive value => simp [redact, Keeps, Copyable]
  | array items =>
      obtain ⟨last, after, hafter, -⟩ := noProto_empty.redactItems 0 items
      rw [redact, hafter]
      simp [Keeps, Copyable]
  | record prototype fields ih =>
      obtain ⟨rfl, hdistinct, hfields⟩ := hwellFormed
      rw [wellFormedFields_iff] at hfields
      have hkept : (∀ field ∈ fields, field.1 ∈ piiFields ∨
          Keeps field.2 (redact field.2)) ↔
          ∀ field ∈ fields, field.1 ∈ piiFields ∨ Copyable field.2 :=
        forall₂_congr fun field hmem =>
          or_congr_right (ih field hmem (hfields field hmem))
      constructor
      · intro hkeeps
        obtain ⟨last, after, hafter, hnone⟩ :
            NoProto (redactFields fields (.record none [])) :=
          noProto_empty.redactFields
        rw [redact, hafter] at hkeeps
        have hproto : ∀ field ∈ fields, field.1 ≠ "__proto__" := by
          intro field hmem heq
          cases last with
          | some last => exact hkeeps
          | none =>
              rw [← map_fst_of_keepsFields hkeeps, ← heq] at hnone
              exact hnone (List.mem_map_of_mem hmem)
        rw [redactFields_eq_map hdistinct hproto] at hafter
        obtain ⟨rfl, rfl⟩ := Tree.record.inj hafter
        rw [List.nil_append] at hkeeps
        rw [Copyable, copyableFields_iff]
        intro field hmem
        exact ⟨hproto field hmem,
          hkept.mp (keepsFields_map_iff.mp hkeeps) field hmem⟩
      · intro hcopyable
        rw [redact_record hdistinct hcopyable]
        apply keepsFields_map_iff.mpr
        apply hkept.mpr
        exact fun field hmem =>
          (copyableFields_iff.mp hcopyable field hmem).2

theorem redact_redact (hwellFormed : WellFormed tree)
    (hcopyable : Copyable tree) : redact (redact tree) = redact tree := by
  induction tree using Tree.induction with
  | text value => rfl
  | primitive value => rfl
  | array items => exact hcopyable.elim
  | record prototype fields ih =>
      obtain ⟨rfl, hdistinct, hfields⟩ := hwellFormed
      rw [wellFormedFields_iff] at hfields
      have hmembers := copyableFields_iff.mp hcopyable
      have hproto : ∀ field ∈ fields.map redactField,
          field.1 ≠ "__proto__" := by
        intro field hmem
        obtain ⟨source, hsource, rfl⟩ := List.mem_map.mp hmem
        exact (hmembers source hsource).1
      have hkeys : ((fields.map redactField).map Prod.fst).Nodup := by
        rw [List.map_map]
        exact hdistinct
      have hagain : ∀ field ∈ fields,
          redactField (redactField field) = redactField field := by
        intro field hmem
        simp only [redactField]
        split
        · rfl
        · rename_i hplain
          have hvalue := (hmembers field hmem).2.resolve_left hplain
          rw [ih field hmem (hfields field hmem) hvalue]
      rw [redact_record hdistinct hcopyable, redact,
        redactFields_eq_map hkeys hproto, List.nil_append, List.map_map]
      congr 1
      exact List.map_congr_left hagain

/-- What is hidden never shows.  The redaction changes nothing else, and
changes nothing a second time, if and only if the data can be copied key by
key. -/
theorem redactionLaw_iff_copyable (data : Data P) :
    RedactionLaw data ↔ Copyable data.tree := by
  constructor
  · exact fun hlaw => (keeps_iff_copyable data.wellFormed).mp hlaw.keeps
  · intro hcopyable
    exact ⟨fun other hagree => redact_eq_of_agree _ _ hagree,
      redact_redact data.wellFormed hcopyable,
      (keeps_iff_copyable data.wellFormed).mpr hcopyable⟩

/-- An order with its list of items. -/
def orderData : Data ℕ where
  fields := [("email", .text "ann@example.org"),
    ("items", .array [.text "book"])]
  wellFormed := by
    simp [WellFormed, WellFormedFields, WellFormedItems]

/-- The items come back as an object. -/
theorem not_redactionLaw_orderData :
    redact orderData.tree =
      .record none [("email", .text "[REDACTED]"),
        ("items", .record none [("0", .text "book")])] ∧
    ¬ RedactionLaw orderData := by
  have hredact : redact orderData.tree =
      .record none [("email", .text "[REDACTED]"),
        ("items", .record none [("0", .text "book")])] := by
    rfl
  refine ⟨hredact, fun hlaw => ?_⟩
  have hkeeps := hlaw.keeps
  rw [hredact] at hkeeps
  obtain ⟨-, -, -, hitems, -⟩ := hkeeps
  exact (hitems.resolve_left (by decide)).elim

end PiiRedactor

end TsCommons.Observability
