import TsCommons.Foundations.InsertionSet
import TsCommons.Foundations.Numerals
import Mathlib.Tactic.Ring

/-!
# The cron parser

A cron expression has five fields, each of which denotes a set of numbers.
The parser reads a number by its first digits, and a range by its first two
pieces between hyphens, so that it takes some fields for something else than
what they say.
-/

namespace TsCommons.Scheduler

open Foundations Text

structure InvalidCronExpressionError where
  expression : Text
  message : Text
deriving DecidableEq

def InvalidCronExpressionError.ofReason (expression reason : Text) :
    InvalidCronExpressionError :=
  ⟨expression, "Invalid cron expression \"".toList ++ expression ++
    "\": ".toList ++ reason⟩

structure CronFields where
  minutes : InsertionSet ℤ
  hours : InsertionSet ℤ
  monthDays : InsertionSet ℤ
  months : InsertionSet ℤ
  weekDays : InsertionSet ℤ
deriving DecidableEq

namespace CronParser

def numeral (number : ℤ) : Text := (toString number).toList

/-- The loop for at most so many rounds. -/
def addMultiples (max step : ℤ) :
    ℕ → ℤ → InsertionSet ℤ → InsertionSet ℤ
  | 0, _, result => result
  | rounds + 1, i, result =>
      if i ≤ max then addMultiples max step rounds (i + step) (result.add i)
      else result

/-- With a positive step the loop has ended after these rounds. -/
def expandRange (min max step : ℤ) : InsertionSet ℤ :=
  addMultiples max step (max + 1 - min).toNat min .empty

def parseSingle (raw : Text) (min max : ℤ) (expr : Text) :
    Except InvalidCronExpressionError ℤ :=
  let outOfRange : InvalidCronExpressionError :=
    .ofReason expr ("value \"".toList ++ raw ++
      "\" out of range [".toList ++ numeral min ++ "-".toList ++
      numeral max ++ "]".toList)
  match parseInt (trim raw) with
  | none => .error outOfRange
  | some n => if n < min ∨ max < n then .error outOfRange else .ok n

def addPart (min max : ℤ) (expr : Text) (result : InsertionSet ℤ)
    (part : Text) : Except InvalidCronExpressionError (InsertionSet ℤ) := do
  let n ← parseSingle part min max expr
  return result.add n

def parseField (field : Text) (min max : ℤ) (expr : Text) :
    Except InvalidCronExpressionError (InsertionSet ℤ) :=
  if field = ['*'] then .ok (expandRange min max 1)
  else if ['*', '/'].isPrefixOf field then
    let invalidStep : InvalidCronExpressionError :=
      .ofReason expr ("invalid step in \"".toList ++ field ++ "\"".toList)
    match parseInt (field.drop 2) with
    | none => .error invalidStep
    | some step =>
        if step ≤ 0 then .error invalidStep else .ok (expandRange min max step)
  else if '-' ∈ field then
    match field.splitOn '-' with
    | lo :: hi :: _ => do
        let low ← parseSingle lo min max expr
        let high ← parseSingle hi min max expr
        if high < low then
          .error (.ofReason expr ("range start ".toList ++ numeral low ++
            " > end ".toList ++ numeral high))
        else .ok (expandRange low high 1)
    | _ =>
        .error (.ofReason expr
          ("invalid range \"".toList ++ field ++ "\"".toList))
  else
    (field.splitOn ',').foldlM (addPart min max expr) .empty

def parseCron (expression : Text) :
    Except InvalidCronExpressionError CronFields :=
  match splitSpaces (trim expression) with
  | [minF, hrF, domF, monF, wdF] => do
      let minutes ← parseField minF 0 59 expression
      let hours ← parseField hrF 0 23 expression
      let monthDays ← parseField domF 1 31 expression
      let months ← parseField monF 1 12 expression
      let weekDays ← parseField wdF 0 6 expression
      return ⟨minutes, hours, monthDays, months, weekDays⟩
  | parts =>
      .error (.ofReason expression
        ("expected 5 fields, got ".toList ++ numeral parts.length))

/-! ## The grammar -/

/-- The fields of the grammar and what they denote.  A number alone is a list
of one. -/
inductive Denotes (min max : ℤ) : Text → Set ℤ → Prop
  | every : Denotes min max ['*'] {i | min ≤ i ∧ i ≤ max}
  | step {n : Text} (hn : IsDecimal n) (hpos : 0 < digitsValue n) :
      Denotes min max ('*' :: '/' :: n)
        {i | i ≤ max ∧ ∃ times : ℕ, i = min + times * digitsValue n}
  | range {n m : Text} (hn : IsDecimal n) (hm : IsDecimal m)
      (hmin : min ≤ digitsValue n) (hle : digitsValue n ≤ digitsValue m)
      (hmax : digitsValue m ≤ max) :
      Denotes min max (n ++ '-' :: m)
        {i | digitsValue n ≤ i ∧ i ≤ digitsValue m}
  | list {parts : List Text} (hsome : parts ≠ [])
      (hparts : ∀ n ∈ parts, IsDecimal n ∧
        min ≤ digitsValue n ∧ digitsValue n ≤ max) :
      Denotes min max ([','].intercalate parts)
        {i | ∃ n ∈ parts, i = digitsValue n}

def InGrammar (min max : ℤ) (field : Text) : Prop :=
  ∃ values, Denotes min max field values

/-- The fields that are not in the grammar and that the parser takes for a
step, a range or a list. -/
inductive Misread (min max : ℤ) (field : Text) : Prop
  | step {rest : Text} {n : ℕ} (hfield : field = '*' :: '/' :: rest)
      (hstarts : StartsWithNumber rest n) (hpos : 0 < n)
      (hmore : ¬ IsDecimal rest)
  | range {lo hi : Text} {more : List Text} {n m : ℕ}
      (hfield : field.splitOn '-' = lo :: hi :: more)
      (hlo : StartsWithNumber lo n) (hhi : StartsWithNumber hi m)
      (hmin : min ≤ n) (hle : n ≤ m) (hmax : m ≤ max)
      (hmore : ¬ (IsDecimal lo ∧ IsDecimal hi ∧ more = []))
  | list (hfield : '-' ∉ field)
      (hparts : ∀ part ∈ field.splitOn ',', ∃ n, StartsWithNumber part n ∧
        min ≤ n ∧ n ≤ max)
      (hmore : ∃ part ∈ field.splitOn ',', ¬ IsDecimal part)

/-- Five fields that meet a condition, which depends on their bounds. -/
def FieldsMeet (P : ℤ → ℤ → Text → Prop) (expression : Text) : Prop :=
  match splitSpaces (trim expression) with
  | [minF, hrF, domF, monF, wdF] =>
      P 0 59 minF ∧ P 0 23 hrF ∧ P 1 31 domF ∧ P 1 12 monF ∧ P 0 6 wdF
  | _ => False

/-- The sets are those that the fields denote. -/
def DenotesFields (expression : Text) (fields : CronFields) : Prop :=
  match splitSpaces (trim expression) with
  | [minF, hrF, domF, monF, wdF] =>
      Denotes 0 59 minF {i | i ∈ fields.minutes} ∧
      Denotes 0 23 hrF {i | i ∈ fields.hours} ∧
      Denotes 1 31 domF {i | i ∈ fields.monthDays} ∧
      Denotes 1 12 monF {i | i ∈ fields.months} ∧
      Denotes 0 6 wdF {i | i ∈ fields.weekDays}
  | _ => False

structure CronLaw (expression : Text) : Prop where
  accepts : (∃ fields, parseCron expression = .ok fields) ↔
    FieldsMeet InGrammar expression
  denotes : ∀ fields, parseCron expression = .ok fields →
    DenotesFields expression fields

/-- All fields are accepted, though not all are in the grammar. -/
def IsMisread (expression : Text) : Prop :=
  FieldsMeet (fun min max field =>
      InGrammar min max field ∨ Misread min max field) expression ∧
    ¬ FieldsMeet InGrammar expression

variable {min max step i : ℤ} {field expr raw : Text} {number : ℤ}
  {values : InsertionSet ℤ} {denoted : Set ℤ}

/-! ## The loop over a range -/

theorem mem_addMultiples (hpos : 0 < step) {rounds : ℕ} {start : ℤ}
    {result : InsertionSet ℤ} (hrounds : max + 1 - start ≤ rounds) :
    i ∈ addMultiples max step rounds start result ↔
      i ∈ result ∨ i ≤ max ∧ ∃ times : ℕ, i = start + times * step := by
  induction rounds generalizing start result with
  | zero =>
      rw [addMultiples]
      refine ⟨Or.inl, fun hmem => hmem.resolve_right ?_⟩
      rintro ⟨hle, times, rfl⟩
      have hnonneg : 0 ≤ (times : ℤ) * step :=
          Int.mul_nonneg (Int.natCast_nonneg times) (Int.le_of_lt hpos)
      omega
  | succ rounds ih =>
      rw [addMultiples]
      by_cases hle : start ≤ max
      · rw [if_pos hle, ih (by omega), InsertionSet.mem_add]
        constructor
        · rintro ((rfl | hresult) | ⟨hmax, times, rfl⟩)
          · exact Or.inr ⟨hle, 0, by simp⟩
          · exact Or.inl hresult
          · exact Or.inr ⟨hmax, times + 1, by push_cast; ring⟩
        · rintro (hresult | ⟨hmax, times, rfl⟩)
          · exact Or.inl (Or.inr hresult)
          · cases times with
            | zero => exact Or.inl (Or.inl (by simp))
            | succ times =>
                exact Or.inr ⟨hmax, times, by push_cast; ring⟩
      · rw [if_neg hle]
        refine ⟨Or.inl, fun hmem => hmem.resolve_right ?_⟩
        rintro ⟨hmax, times, rfl⟩
        have hnonneg : 0 ≤ (times : ℤ) * step :=
          Int.mul_nonneg (Int.natCast_nonneg times) (Int.le_of_lt hpos)
        omega

theorem mem_expandRange (hpos : 0 < step) :
    i ∈ expandRange min max step ↔
      i ≤ max ∧ ∃ times : ℕ, i = min + times * step := by
  rw [expandRange, mem_addMultiples hpos (Int.self_le_toNat _)]
  exact or_iff_right (InsertionSet.not_mem_empty i)

theorem mem_expandRange_one :
    i ∈ expandRange min max 1 ↔ min ≤ i ∧ i ≤ max := by
  rw [mem_expandRange Int.one_pos]
  constructor
  · rintro ⟨hmax, times, rfl⟩
    omega
  · rintro ⟨hmin, hmax⟩
    exact ⟨hmax, (i - min).toNat, by omega⟩

/-! ## The errors -/

/-- The errors of a result are about the expression. -/
def Blames {α : Type} (expr : Text)
    (result : Except InvalidCronExpressionError α) : Prop :=
  ∀ cause, result = .error cause → cause.expression = expr

theorem Blames.bind {α β : Type} {result : Except InvalidCronExpressionError α}
    {next : α → Except InvalidCronExpressionError β}
    (hresult : Blames expr result) (hnext : ∀ value, Blames expr (next value)) :
    Blames expr (result >>= next) := by
  intro cause hcause
  cases result with
  | error first =>
      cases hcause
      exact hresult _ rfl
  | ok value => exact hnext value cause hcause

theorem blames_ok {α : Type} (expr : Text) (value : α) :
    Blames expr (.ok value) := nofun

theorem blames_ofReason {α : Type} (expr reason : Text) :
    Blames (α := α) expr (.error (.ofReason expr reason)) := by
  intro cause hcause
  cases hcause
  rfl

theorem blames_parseSingle (raw : Text) (min max : ℤ) (expr : Text) :
    Blames expr (parseSingle raw min max expr) := by
  rw [parseSingle]
  cases parseInt (trim raw) with
  | none => exact blames_ofReason expr _
  | some n =>
      dsimp only
      split
      · exact blames_ofReason expr _
      · exact blames_ok expr n

theorem blames_foldlM_addPart (parts : List Text) (min max : ℤ) (expr : Text)
    (result : InsertionSet ℤ) :
    Blames expr (parts.foldlM (addPart min max expr) result) := by
  induction parts generalizing result with
  | nil => exact blames_ok expr result
  | cons part rest ih =>
      rw [List.foldlM_cons]
      refine Blames.bind ?_ ih
      exact (blames_parseSingle part min max expr).bind
        fun n => blames_ok expr (result.add n)

theorem blames_parseField (field : Text) (min max : ℤ) (expr : Text) :
    Blames expr (parseField field min max expr) := by
  rw [parseField]
  split
  · exact blames_ok expr _
  · split
    · cases parseInt (field.drop 2) with
      | none => exact blames_ofReason expr _
      | some step =>
          dsimp only
          split
          · exact blames_ofReason expr _
          · exact blames_ok expr _
    · split
      · split
        · refine (blames_parseSingle _ min max expr).bind fun low => ?_
          refine (blames_parseSingle _ min max expr).bind fun high => ?_
          split
          · exact blames_ofReason expr _
          · exact blames_ok expr _
        · exact blames_ofReason expr _
      · exact blames_foldlM_addPart _ min max expr .empty

/-- The error of a call names the expression that it was called with. -/
theorem blames_parseCron (expression : Text) :
    Blames expression (parseCron expression) := by
  rw [parseCron]
  split
  · refine (blames_parseField _ 0 59 expression).bind fun minutes => ?_
    refine (blames_parseField _ 0 23 expression).bind fun hours => ?_
    refine (blames_parseField _ 1 31 expression).bind fun monthDays => ?_
    refine (blames_parseField _ 1 12 expression).bind fun months => ?_
    refine (blames_parseField _ 0 6 expression).bind fun weekDays => ?_
    exact blames_ok expression _
  · exact blames_ofReason expression _

/-! ## A number -/

theorem bind_eq_ok_iff {ε α β : Type} {result : Except ε α}
    {next : α → Except ε β} {last : β} :
    (result >>= next) = .ok last ↔
      ∃ value, result = .ok value ∧ next value = .ok last := by
  cases result with
  | error cause => exact iff_of_false nofun fun ⟨_, hvalue, _⟩ => nomatch hvalue
  | ok value =>
      constructor
      · exact fun hnext => ⟨value, rfl, hnext⟩
      · rintro ⟨_, hvalue, hnext⟩
        cases hvalue
        exact hnext

/-- A piece of a field is a number in the bounds, with more behind it. -/
def ReadAs (min max : ℤ) (raw : Text) (number : ℤ) : Prop :=
  ∃ value : ℕ, (value : ℤ) = number ∧ StartsWithNumber raw value ∧
    min ≤ value ∧ value ≤ max

theorem parseSingle_eq_ok_iff
    (hspace : ∀ char ∈ raw, isWhiteSpace char = false) (hminus : '-' ∉ raw) :
    parseSingle raw min max expr = .ok number ↔ ReadAs min max raw number := by
  have hhead : raw.head? ≠ some '-' :=
    fun hhead => hminus (List.mem_of_mem_head? hhead)
  have htrim : trim raw = raw := trimmed_of_forall hspace
  rw [parseSingle, htrim]
  constructor
  · intro hparsed
    cases hnumber : parseInt raw with
    | none =>
        rw [hnumber] at hparsed
        cases hparsed
    | some n =>
        rw [hnumber] at hparsed
        dsimp only at hparsed
        split at hparsed
        · cases hparsed
        · rename_i hbounds
          cases hparsed
          obtain ⟨value, rfl, hstarts⟩ :=
            (parseInt_eq_some_iff hspace hhead).mp hnumber
          exact ⟨value, rfl, hstarts, by omega, by omega⟩
  · rintro ⟨value, rfl, hstarts, hmin, hmax⟩
    have hnumber := (parseInt_eq_some_iff hspace hhead).mpr
      ⟨value, rfl, hstarts⟩
    rw [hnumber]
    exact if_neg (by omega)

/-! ## A field -/

/-- The numbers of `parseField` are taken from pieces of the field. -/
def Clean (text : Text) : Prop := ∀ char ∈ text, isWhiteSpace char = false

theorem Clean.of_mem_splitOn {sep : Char} (hclean : Clean field)
    (hraw : raw ∈ field.splitOn sep) : Clean raw :=
  fun char hchar => hclean char ((not_mem_of_mem_splitOn hraw).2 char hchar)

theorem parseField_every :
    parseField ['*'] min max expr = .ok (expandRange min max 1) := rfl

theorem parseField_step_eq_ok_iff {rest : Text} (hclean : Clean rest) :
    parseField ('*' :: '/' :: rest) min max expr = .ok values ↔
      ∃ n : ℕ, 0 < n ∧ StartsWithNumber rest n ∧
        values = expandRange min max n := by
  have hfield : ('*' :: '/' :: rest) ≠ ['*'] := by simp
  have hstarts : ['*', '/'].isPrefixOf ('*' :: '/' :: rest) = true := rfl
  rw [parseField, if_neg hfield, if_pos hstarts, List.drop_succ_cons,
    List.drop_succ_cons, List.drop_zero]
  constructor
  · intro hparsed
    cases hnumber : parseInt rest with
    | none =>
        rw [hnumber] at hparsed
        cases hparsed
    | some step =>
        rw [hnumber] at hparsed
        dsimp only at hparsed
        split at hparsed
        · cases hparsed
        · rename_i hpos
          cases hparsed
          obtain ⟨n, rfl, hn, hnumber⟩ :=
            (exists_pos_parseInt_iff hclean).mp ⟨hnumber, not_le.mp hpos⟩
          exact ⟨n, hn, hnumber, rfl⟩
  · rintro ⟨n, hpos, hnumber, rfl⟩
    obtain ⟨hnumber, hn⟩ := (exists_pos_parseInt_iff hclean).mpr
      ⟨n, rfl, hpos, hnumber⟩
    rw [hnumber]
    exact if_neg (not_le.mpr hn)

theorem not_star_of_head (hhead : field.head? ≠ some '*') :
    field ≠ ['*'] ∧ ['*', '/'].isPrefixOf field = false := by
  cases field with
  | nil => exact ⟨nofun, rfl⟩
  | cons first rest =>
      rw [List.head?_cons, ne_eq, Option.some.injEq] at hhead
      refine ⟨?_, ?_⟩
      · rintro heq
        cases heq
        exact hhead rfl
      · simp [List.isPrefixOf, Ne.symm hhead]

theorem parseField_range_eq_ok_iff (hclean : Clean field)
    (hother : field ≠ ['*'] ∧ ['*', '/'].isPrefixOf field = false)
    (hhyphen : '-' ∈ field) :
    parseField field min max expr = .ok values ↔
      ∃ lo hi more, field.splitOn '-' = lo :: hi :: more ∧
        ∃ low high, ReadAs min max lo low ∧ ReadAs min max hi high ∧
          low ≤ high ∧ values = expandRange low high 1 := by
  obtain ⟨hevery, hstep⟩ := hother
  have hpiece : ∀ raw ∈ field.splitOn '-', ∀ number,
      parseSingle raw min max expr = .ok number ↔ ReadAs min max raw number :=
    fun raw hraw _ => parseSingle_eq_ok_iff (hclean.of_mem_splitOn hraw)
      (not_mem_of_mem_splitOn hraw).1
  rw [parseField, if_neg hevery, hstep, if_neg Bool.false_ne_true,
    if_pos hhyphen]
  match hsplit : field.splitOn '-' with
  | [] => exact iff_of_false nofun nofun
  | [only] => exact iff_of_false nofun nofun
  | lo :: hi :: more =>
      have hlo : ∀ number, parseSingle lo min max expr = .ok number ↔
          ReadAs min max lo number := hpiece lo (by simp [hsplit])
      have hhi : ∀ number, parseSingle hi min max expr = .ok number ↔
          ReadAs min max hi number := hpiece hi (by simp [hsplit])
      simp only [bind_eq_ok_iff, hlo, hhi]
      constructor
      · rintro ⟨low, hlow, high, hhigh, hparsed⟩
        split at hparsed
        · cases hparsed
        · rename_i hle
          cases hparsed
          exact ⟨lo, hi, more, rfl, low, high, hlow, hhigh, not_lt.mp hle, rfl⟩
      · rintro ⟨_, _, _, heq, low, high, hlow, hhigh, hle, rfl⟩
        cases heq
        exact ⟨low, hlow, high, hhigh, if_neg (not_lt.mpr hle)⟩

theorem foldlM_addPart_eq_ok {parts : List Text} {result : InsertionSet ℤ}
    (hpiece : ∀ part ∈ parts, ∀ number,
      parseSingle part min max expr = .ok number ↔ ReadAs min max part number)
    (hparsed : parts.foldlM (addPart min max expr) result = .ok values) :
    (∀ part ∈ parts, ∃ number, ReadAs min max part number) ∧
      ∀ i, i ∈ values ↔
        i ∈ result ∨ ∃ part ∈ parts, ReadAs min max part i := by
  induction parts generalizing result with
  | nil =>
      cases hparsed
      exact ⟨nofun, fun i => (or_iff_left (by simp)).symm⟩
  | cons part rest ih =>
      rw [List.foldlM_cons, bind_eq_ok_iff] at hparsed
      obtain ⟨added, hadd, hrest⟩ := hparsed
      rw [addPart, bind_eq_ok_iff] at hadd
      obtain ⟨number, hnumber, hadded⟩ := hadd
      cases hadded
      rw [hpiece part List.mem_cons_self] at hnumber
      obtain ⟨hall, hmem⟩ :=
        ih (fun other hother => hpiece other (List.mem_cons_of_mem _ hother))
          hrest
      refine ⟨List.forall_mem_cons.mpr ⟨⟨number, hnumber⟩, hall⟩, fun i => ?_⟩
      have hread : ReadAs min max part i ↔ i = number := by
        rw [← hpiece part List.mem_cons_self i]
        rw [← hpiece part List.mem_cons_self number] at hnumber
        rw [hnumber, Except.ok.injEq, eq_comm]
      rw [hmem, InsertionSet.mem_add, List.exists_mem_cons_iff, hread]
      tauto

theorem exists_foldlM_addPart {parts : List Text} {result : InsertionSet ℤ}
    (hpiece : ∀ part ∈ parts, ∀ number,
      parseSingle part min max expr = .ok number ↔ ReadAs min max part number)
    (hall : ∀ part ∈ parts, ∃ number, ReadAs min max part number) :
    ∃ values, parts.foldlM (addPart min max expr) result = .ok values := by
  induction parts generalizing result with
  | nil => exact ⟨result, rfl⟩
  | cons part rest ih =>
      obtain ⟨⟨number, hnumber⟩, hrest⟩ := List.forall_mem_cons.mp hall
      rw [← hpiece part List.mem_cons_self] at hnumber
      obtain ⟨values, hvalues⟩ := @ih (result.add number)
        (fun other hother => hpiece other (List.mem_cons_of_mem _ hother))
        hrest
      refine ⟨values, ?_⟩
      rw [List.foldlM_cons, bind_eq_ok_iff]
      refine ⟨result.add number, ?_, hvalues⟩
      rw [addPart, bind_eq_ok_iff]
      exact ⟨number, hnumber, rfl⟩

theorem parseField_list
    (hother : field ≠ ['*'] ∧ ['*', '/'].isPrefixOf field = false)
    (hhyphen : '-' ∉ field) :
    parseField field min max expr =
      (field.splitOn ',').foldlM (addPart min max expr) .empty := by
  obtain ⟨hevery, hstep⟩ := hother
  rw [parseField, if_neg hevery, hstep, if_neg Bool.false_ne_true,
    if_neg hhyphen]

theorem parseSingle_part (hclean : Clean field) (hhyphen : '-' ∉ field) :
    ∀ part ∈ field.splitOn ',', ∀ number,
      parseSingle part min max expr = .ok number ↔
        ReadAs min max part number :=
  fun _ hpart _ => parseSingle_eq_ok_iff (hclean.of_mem_splitOn hpart)
    fun hmem => hhyphen ((not_mem_of_mem_splitOn hpart).2 _ hmem)

/-! ## The heads of the fields -/

theorem head_of_splitOn {sep : Char} {piece : Text} {more : List Text}
    (hsplit : field.splitOn sep = piece :: more) (hsome : piece ≠ []) :
    field.head? = piece.head? := by
  have hfield : [sep].intercalate (field.splitOn sep) = field :=
    List.intercalate_splitOn sep
  rw [hsplit] at hfield
  rw [← hfield]
  cases more with
  | nil => rw [List.intercalate_singleton]
  | cons next more =>
      rw [List.intercalate_cons_cons, List.append_assoc,
        List.head?_append_of_ne_nil _ hsome]

theorem head_ne_star {value : ℕ} (hstarts : StartsWithNumber raw value) :
    raw ≠ [] ∧ raw.head? ≠ some '*' := by
  refine ⟨?_, hstarts.head_ne rfl (by decide)⟩
  obtain ⟨digits, tail, hdecimal, -, -, rfl | rfl⟩ := hstarts
  · exact List.append_ne_nil_of_left_ne_nil hdecimal.1 tail
  · exact List.cons_ne_nil _ _

theorem head_ne_star_of_splitOn {sep : Char} {value : ℕ} {piece : Text}
    {more : List Text} (hsplit : field.splitOn sep = piece :: more)
    (hstarts : StartsWithNumber piece value) : field.head? ≠ some '*' := by
  obtain ⟨hsome, hhead⟩ := head_ne_star hstarts
  rw [head_of_splitOn hsplit hsome]
  exact hhead

theorem splitOn_of_not_mem {sep : Char} (hnone : sep ∉ field) :
    field.splitOn sep = [field] := by
  have hsplit : ([sep].intercalate [field]).splitOn sep = [field] :=
    List.splitOn_intercalate sep (by simpa using hnone) (List.cons_ne_nil _ _)
  rwa [List.intercalate_singleton] at hsplit

theorem mem_of_splitOn_cons_cons {sep : Char} {lo hi : Text}
    {more : List Text} (hsplit : field.splitOn sep = lo :: hi :: more) :
    sep ∈ field := by
  by_contra hnone
  rw [splitOn_of_not_mem hnone] at hsplit
  cases hsplit

/-! ## What is accepted -/

theorem value_of_isDecimal {n : Text} {value : ℕ} (hn : IsDecimal n)
    (hstarts : StartsWithNumber n value) : value = digitsValue n := by
  have hhead : n.head? ≠ some '-' :=
    hn.startsWithNumber.head_ne rfl (by decide)
  have hread : ∀ number : ℤ, parseInt n = some number ↔
      ∃ value : ℕ, (value : ℤ) = number ∧ StartsWithNumber n value :=
    fun _ => parseInt_eq_some_iff hn.isWhiteSpace hhead
  have hvalue := (hread value).mpr ⟨value, rfl, hstarts⟩
  have hdigits := (hread (digitsValue n)).mpr ⟨_, rfl, hn.startsWithNumber⟩
  rw [hvalue] at hdigits
  simpa using hdigits

theorem ReadAs.eq_digitsValue {n : Text} (hn : IsDecimal n)
    (hread : ReadAs min max n number) : number = digitsValue n := by
  obtain ⟨value, rfl, hstarts, -, -⟩ := hread
  rw [value_of_isDecimal hn hstarts]

theorem readAs_of_isDecimal {n : Text} (hn : IsDecimal n)
    (hmin : min ≤ digitsValue n) (hmax : digitsValue n ≤ max) :
    ReadAs min max n (digitsValue n) :=
  ⟨digitsValue n, rfl, hn.startsWithNumber, hmin, hmax⟩

theorem setOf_expandRange_one (low high : ℤ) :
    {i | i ∈ expandRange low high 1} = {i | low ≤ i ∧ i ≤ high} :=
  Set.ext fun _ => mem_expandRange_one

theorem denotes_of_step {rest : Text} (hclean : Clean rest)
    (hparsed : parseField ('*' :: '/' :: rest) min max expr = .ok values) :
    Denotes min max ('*' :: '/' :: rest) {i | i ∈ values} ∨
      Misread min max ('*' :: '/' :: rest) := by
  obtain ⟨n, hpos, hn, rfl⟩ := (parseField_step_eq_ok_iff hclean).mp hparsed
  by_cases hplain : IsDecimal rest
  · have hset : {i | i ∈ expandRange min max n} =
        {i | i ≤ max ∧ ∃ times : ℕ, i = min + times * (n : ℤ)} :=
      Set.ext fun i => mem_expandRange (by exact_mod_cast hpos)
    rw [hset]
    rw [value_of_isDecimal hplain hn] at hpos ⊢
    exact Or.inl (.step hplain hpos)
  · exact Or.inr (.step rfl hn hpos hplain)

theorem denotes_of_range (hclean : Clean field)
    (hother : field ≠ ['*'] ∧ ['*', '/'].isPrefixOf field = false)
    (hhyphen : '-' ∈ field)
    (hparsed : parseField field min max expr = .ok values) :
    Denotes min max field {i | i ∈ values} ∨ Misread min max field := by
  obtain ⟨lo, hi, more, hsplit, low, high, hlow, hhigh, hle, rfl⟩ :=
    (parseField_range_eq_ok_iff hclean hother hhyphen).mp hparsed
  obtain ⟨n, rfl, hn, hmin, -⟩ := hlow
  obtain ⟨m, rfl, hm, -, hmax⟩ := hhigh
  by_cases hplain : IsDecimal lo ∧ IsDecimal hi ∧ more = []
  · obtain ⟨hlo, hhi, rfl⟩ := hplain
    have hfield : ['-'].intercalate (field.splitOn '-') = field :=
      List.intercalate_splitOn '-'
    rw [hsplit, List.intercalate_cons_cons, List.intercalate_singleton,
      List.append_assoc, List.singleton_append] at hfield
    rw [value_of_isDecimal hlo hn] at hmin hle ⊢
    rw [value_of_isDecimal hhi hm] at hmax hle ⊢
    rw [← hfield, setOf_expandRange_one]
    exact Or.inl (.range hlo hhi hmin (by exact_mod_cast hle) hmax)
  · exact Or.inr (.range hsplit hn hm hmin (by exact_mod_cast hle) hmax
      hplain)

theorem denotes_of_list (hclean : Clean field)
    (hother : field ≠ ['*'] ∧ ['*', '/'].isPrefixOf field = false)
    (hhyphen : '-' ∉ field)
    (hparsed : parseField field min max expr = .ok values) :
    Denotes min max field {i | i ∈ values} ∨ Misread min max field := by
  rw [parseField_list hother hhyphen] at hparsed
  obtain ⟨hall, hmem⟩ := foldlM_addPart_eq_ok
    (parseSingle_part hclean hhyphen) hparsed
  by_cases hplain : ∀ part ∈ field.splitOn ',', IsDecimal part
  · have hbounds : ∀ n ∈ field.splitOn ',', IsDecimal n ∧
        min ≤ digitsValue n ∧ digitsValue n ≤ max := by
      intro n hn
      obtain ⟨number, hread⟩ := hall n hn
      obtain ⟨value, -, hstarts, hmin, hmax⟩ := hread
      rw [value_of_isDecimal (hplain n hn) hstarts] at hmin hmax
      exact ⟨hplain n hn, hmin, hmax⟩
    have hset : {i | i ∈ values} =
        {i : ℤ | ∃ n ∈ field.splitOn ',', i = digitsValue n} := by
      apply Set.ext
      intro i
      rw [Set.mem_ofPred_eq, Set.mem_ofPred_eq, hmem,
        or_iff_right (InsertionSet.not_mem_empty i)]
      constructor
      · rintro ⟨n, hn, hread⟩
        exact ⟨n, hn, hread.eq_digitsValue (hplain n hn)⟩
      · rintro ⟨n, hn, rfl⟩
        obtain ⟨hdecimal, hmin, hmax⟩ := hbounds n hn
        exact ⟨n, hn, readAs_of_isDecimal hdecimal hmin hmax⟩
    have hlist := Denotes.list (List.splitOn_ne_nil ',' field) hbounds
    rw [List.intercalate_splitOn, ← hset] at hlist
    exact Or.inl hlist
  · rw [not_forall₂] at hplain
    obtain ⟨part, hpart, hmore⟩ := hplain
    refine Or.inr (.list hhyphen ?_ ⟨part, hpart, hmore⟩)
    intro piece hpiece
    obtain ⟨number, value, -, hstarts, hmin, hmax⟩ := hall piece hpiece
    exact ⟨value, hstarts, hmin, hmax⟩

/-- A field that is accepted has been read as the grammar says, or it is one
of those that are misread. -/
theorem denotes_of_parseField (hclean : Clean field)
    (hparsed : parseField field min max expr = .ok values) :
    Denotes min max field {i | i ∈ values} ∨ Misread min max field := by
  by_cases hevery : field = ['*']
  · rw [hevery, parseField_every] at hparsed
    cases hparsed
    rw [hevery, setOf_expandRange_one]
    exact Or.inl .every
  cases hstep : ['*', '/'].isPrefixOf field with
  | true =>
      obtain ⟨rest, rfl⟩ := List.isPrefixOf_iff_prefix.mp hstep
      have hrest : Clean rest :=
        fun char hchar => hclean char (List.mem_append_right _ hchar)
      exact denotes_of_step hrest hparsed
  | false =>
      by_cases hhyphen : '-' ∈ field
      · exact denotes_of_range hclean ⟨hevery, hstep⟩ hhyphen hparsed
      · exact denotes_of_list hclean ⟨hevery, hstep⟩ hhyphen hparsed

theorem parseField_of_range (hclean : Clean field) {lo hi : Text}
    {more : List Text} {n m : ℕ} (hfield : field.splitOn '-' = lo :: hi :: more)
    (hlo : StartsWithNumber lo n) (hhi : StartsWithNumber hi m)
    (hmin : min ≤ n) (hle : n ≤ m) (hmax : m ≤ max) :
    ∃ values, parseField field min max expr = .ok values := by
  have hother := not_star_of_head (head_ne_star_of_splitOn hfield hlo)
  have hlow : ReadAs min max lo n := ⟨n, rfl, hlo, hmin, by omega⟩
  have hhigh : ReadAs min max hi m := ⟨m, rfl, hhi, by omega, hmax⟩
  exact ⟨_, (parseField_range_eq_ok_iff hclean hother
    (mem_of_splitOn_cons_cons hfield)).mpr
      ⟨lo, hi, more, hfield, n, m, hlow, hhigh, by exact_mod_cast hle, rfl⟩⟩

theorem head_ne_star_of_list
    (hparts : ∀ part ∈ field.splitOn ',', ∃ n, StartsWithNumber part n ∧
      min ≤ n ∧ n ≤ max) : field.head? ≠ some '*' := by
  cases hsplit : field.splitOn ',' with
  | nil => exact absurd hsplit (List.splitOn_ne_nil ',' field)
  | cons piece more =>
      obtain ⟨value, hstarts, -⟩ := hparts piece (by simp [hsplit])
      exact head_ne_star_of_splitOn hsplit hstarts

theorem parseField_of_list (hclean : Clean field) (hfield : '-' ∉ field)
    (hparts : ∀ part ∈ field.splitOn ',', ∃ n, StartsWithNumber part n ∧
      min ≤ n ∧ n ≤ max) :
    ∃ values, parseField field min max expr = .ok values := by
  rw [parseField_list (not_star_of_head (head_ne_star_of_list hparts)) hfield]
  refine exists_foldlM_addPart (parseSingle_part hclean hfield) ?_
  intro part hpart
  obtain ⟨value, hstarts, hmin, hmax⟩ := hparts part hpart
  exact ⟨value, value, rfl, hstarts, hmin, hmax⟩

theorem parseField_of_misread (hclean : Clean field)
    (hmisread : Misread min max field) :
    ∃ values, parseField field min max expr = .ok values := by
  cases hmisread with
  | step hfield hstarts hpos _ =>
      subst hfield
      refine ⟨_, (parseField_step_eq_ok_iff ?_).mpr
        ⟨_, hpos, hstarts, rfl⟩⟩
      exact fun char hchar => hclean char (by simp [hchar])
  | range hfield hlo hhi hmin hle hmax _ =>
      exact parseField_of_range hclean hfield hlo hhi hmin hle hmax
  | list hfield hparts _ => exact parseField_of_list hclean hfield hparts

/-! ## The fields of the grammar -/

theorem splitOn_range {n m : Text} (hn : IsDecimal n) (hm : IsDecimal m) :
    (n ++ '-' :: m).splitOn '-' = [n, m] := by
  have hpieces : ∀ piece ∈ [n, m], '-' ∉ piece := by
    intro piece hpiece
    simp only [List.mem_cons, List.not_mem_nil, or_false] at hpiece
    obtain rfl | rfl := hpiece
    · exact hn.not_mem rfl
    · exact hm.not_mem rfl
  have hsplit := List.splitOn_intercalate '-' hpieces (List.cons_ne_nil _ _)
  rwa [List.intercalate_cons_cons, List.intercalate_singleton,
    List.append_assoc, List.singleton_append] at hsplit

theorem hyphen_not_mem_list {parts : List Text}
    (hparts : ∀ n ∈ parts, IsDecimal n) :
    '-' ∉ [','].intercalate parts := by
  induction parts with
  | nil => exact List.not_mem_nil
  | cons n rest ih =>
      obtain ⟨hn, hrest⟩ := List.forall_mem_cons.mp hparts
      have hfirst : '-' ∉ n := hn.not_mem rfl
      cases rest with
      | nil => rwa [List.intercalate_singleton]
      | cons next rest =>
          rw [List.intercalate_cons_cons]
          simpa [hfirst] using ih hrest

/-- What the fields of the grammar look like to the parser. -/
inductive Shape (min max : ℤ) (field : Text) : Prop
  | every (hfield : field = ['*'])
  | step {n : Text} (hfield : field = '*' :: '/' :: n) (hn : IsDecimal n)
      (hpos : 0 < digitsValue n)
  | range {n m : Text} (hfield : field.splitOn '-' = [n, m])
      (hn : IsDecimal n) (hm : IsDecimal m) (hmin : min ≤ digitsValue n)
      (hle : digitsValue n ≤ digitsValue m) (hmax : digitsValue m ≤ max)
  | list (hfield : '-' ∉ field)
      (hparts : ∀ n ∈ field.splitOn ',', IsDecimal n ∧
        min ≤ digitsValue n ∧ digitsValue n ≤ max)

theorem InGrammar.shape (hgrammar : InGrammar min max field) :
    Shape min max field := by
  obtain ⟨denoted, hdenotes⟩ := hgrammar
  cases hdenotes with
  | every => exact .every rfl
  | step hn hpos => exact .step rfl hn hpos
  | range hn hm hmin hle hmax =>
      exact .range (splitOn_range hn hm) hn hm hmin hle hmax
  | list hsome hparts =>
      have hdecimal := fun n hn => (hparts n hn).1
      refine .list (hyphen_not_mem_list hdecimal) ?_
      rwa [List.splitOn_intercalate ','
        (fun n hn => (hdecimal n hn).not_mem rfl) hsome]

theorem parseField_of_inGrammar (hclean : Clean field)
    (hgrammar : InGrammar min max field) :
    ∃ values, parseField field min max expr = .ok values := by
  cases hgrammar.shape with
  | every hfield =>
      rw [hfield]
      exact ⟨_, parseField_every⟩
  | step hfield hn hpos =>
      rw [hfield]
      exact ⟨_, (parseField_step_eq_ok_iff hn.isWhiteSpace).mpr
        ⟨_, hpos, hn.startsWithNumber, rfl⟩⟩
  | range hfield hn hm hmin hle hmax =>
      exact parseField_of_range hclean hfield hn.startsWithNumber
        hm.startsWithNumber hmin hle hmax
  | list hfield hparts =>
      refine parseField_of_list hclean hfield ?_
      intro part hpart
      obtain ⟨hdecimal, hmin, hmax⟩ := hparts part hpart
      exact ⟨_, hdecimal.startsWithNumber, hmin, hmax⟩

theorem not_inGrammar_of_misread (hmisread : Misread min max field) :
    ¬ InGrammar min max field := by
  intro hgrammar
  have hshape := hgrammar.shape
  cases hmisread with
  | @step rest _ hfield _ _ hmore =>
      have hhead : field.head? = some '*' := by rw [hfield]; rfl
      cases hshape with
      | every hevery =>
          rw [hfield] at hevery
          cases hevery
      | step hstep hn _ =>
          rw [hfield] at hstep
          cases hstep
          exact hmore hn
      | range hsplit hn _ _ _ _ =>
          exact head_ne_star_of_splitOn hsplit hn.startsWithNumber hhead
      | list _ hparts =>
          refine @head_ne_star_of_list min max _ ?_ hhead
          intro part hpart
          obtain ⟨hdecimal, hbounds⟩ := hparts part hpart
          exact ⟨_, hdecimal.startsWithNumber, hbounds⟩
  | range hfield _ _ _ _ _ hmore =>
      have hhyphen := mem_of_splitOn_cons_cons hfield
      cases hshape with
      | every hevery =>
          rw [hevery] at hhyphen
          exact absurd hhyphen (by decide)
      | step hstep hn _ =>
          rw [hstep] at hhyphen
          have hnot : '-' ∉ _ := hn.not_mem rfl
          simp [hnot] at hhyphen
      | range hsplit hn hm _ _ _ =>
          rw [hsplit] at hfield
          cases hfield
          exact hmore ⟨hn, hm, rfl⟩
      | list hnone _ => exact hnone hhyphen
  | list hfield hparts hmore =>
      have hhead := head_ne_star_of_list hparts
      cases hshape with
      | every hevery =>
          rw [hevery] at hhead
          exact hhead rfl
      | step hstep _ _ =>
          rw [hstep] at hhead
          exact hhead rfl
      | range hsplit _ _ _ _ _ =>
          exact hfield (mem_of_splitOn_cons_cons hsplit)
      | list _ hall =>
          obtain ⟨part, hpart, hnot⟩ := hmore
          exact hnot (hall part hpart).1

theorem parseField_iff (hclean : Clean field) :
    (∃ values, parseField field min max expr = .ok values) ↔
      InGrammar min max field ∨ Misread min max field := by
  constructor
  · rintro ⟨values, hparsed⟩
    obtain hdenotes | hmisread := denotes_of_parseField hclean hparsed
    · exact Or.inl ⟨_, hdenotes⟩
    · exact Or.inr hmisread
  · rintro (hgrammar | hmisread)
    · exact parseField_of_inGrammar hclean hgrammar
    · exact parseField_of_misread hclean hmisread

/-! ## An expression -/

variable {expression : Text} {fields : CronFields}
  {P : ℤ → ℤ → Text → Prop} {minF hrF domF monF wdF : Text}

theorem fieldsMeet_of_words
    (hwords : splitSpaces (trim expression) = [minF, hrF, domF, monF, wdF]) :
    FieldsMeet P expression ↔
      P 0 59 minF ∧ P 0 23 hrF ∧ P 1 31 domF ∧ P 1 12 monF ∧ P 0 6 wdF := by
  rw [FieldsMeet, hwords]

theorem words_of_fieldsMeet (hmeet : FieldsMeet P expression) :
    ∃ minF hrF domF monF wdF,
      splitSpaces (trim expression) = [minF, hrF, domF, monF, wdF] := by
  rw [FieldsMeet] at hmeet
  split at hmeet
  · rename_i hwords
    exact ⟨_, _, _, _, _, hwords⟩
  · exact hmeet.elim

theorem words_of_parseCron (hparsed : parseCron expression = .ok fields) :
    ∃ minF hrF domF monF wdF,
      splitSpaces (trim expression) = [minF, hrF, domF, monF, wdF] := by
  rw [parseCron] at hparsed
  split at hparsed
  · rename_i hwords
    exact ⟨_, _, _, _, _, hwords⟩
  · cases hparsed

theorem parseCron_eq_ok_iff
    (hwords : splitSpaces (trim expression) = [minF, hrF, domF, monF, wdF]) :
    parseCron expression = .ok fields ↔
      parseField minF 0 59 expression = .ok fields.minutes ∧
      parseField hrF 0 23 expression = .ok fields.hours ∧
      parseField domF 1 31 expression = .ok fields.monthDays ∧
      parseField monF 1 12 expression = .ok fields.months ∧
      parseField wdF 0 6 expression = .ok fields.weekDays := by
  rw [parseCron, hwords]
  simp only [bind_eq_ok_iff]
  constructor
  · rintro ⟨_, hmin, _, hhr, _, hdom, _, hmon, _, hwd, hfields⟩
    cases hfields
    exact ⟨hmin, hhr, hdom, hmon, hwd⟩
  · rintro ⟨hmin, hhr, hdom, hmon, hwd⟩
    exact ⟨_, hmin, _, hhr, _, hdom, _, hmon, _, hwd, rfl⟩

theorem clean_of_word {word : Text}
    (hword : word ∈ splitSpaces (trim expression)) : Clean word :=
  fun _ hchar => isWhiteSpace_of_mem_splitSpaces hword hchar

theorem exists_parseCron_iff :
    (∃ fields, parseCron expression = .ok fields) ↔
      FieldsMeet (fun min max field =>
        InGrammar min max field ∨ Misread min max field) expression := by
  constructor
  · rintro ⟨fields, hparsed⟩
    obtain ⟨minF, hrF, domF, monF, wdF, hwords⟩ := words_of_parseCron hparsed
    obtain ⟨hmin, hhr, hdom, hmon, hwd⟩ :=
      (parseCron_eq_ok_iff hwords).mp hparsed
    rw [fieldsMeet_of_words hwords]
    have hread : ∀ min max values, ∀ field ∈ splitSpaces (trim expression),
        parseField field min max expression = .ok values →
          InGrammar min max field ∨ Misread min max field :=
      fun _ _ _ _ hfield hvalues =>
        (parseField_iff (clean_of_word hfield)).mp ⟨_, hvalues⟩
    exact ⟨hread _ _ _ minF (by simp [hwords]) hmin,
      hread _ _ _ hrF (by simp [hwords]) hhr,
      hread _ _ _ domF (by simp [hwords]) hdom,
      hread _ _ _ monF (by simp [hwords]) hmon,
      hread _ _ _ wdF (by simp [hwords]) hwd⟩
  · intro hmeet
    obtain ⟨minF, hrF, domF, monF, wdF, hwords⟩ := words_of_fieldsMeet hmeet
    rw [fieldsMeet_of_words hwords] at hmeet
    have hparses : ∀ min max, ∀ field ∈ splitSpaces (trim expression),
        InGrammar min max field ∨ Misread min max field →
          ∃ values, parseField field min max expression = .ok values :=
      fun _ _ _ hfield => (parseField_iff (clean_of_word hfield)).mpr
    obtain ⟨hmin, hhr, hdom, hmon, hwd⟩ := hmeet
    obtain ⟨minutes, hminutes⟩ := hparses 0 59 minF (by simp [hwords]) hmin
    obtain ⟨hours, hhours⟩ := hparses 0 23 hrF (by simp [hwords]) hhr
    obtain ⟨monthDays, hdays⟩ := hparses 1 31 domF (by simp [hwords]) hdom
    obtain ⟨months, hmonths⟩ := hparses 1 12 monF (by simp [hwords]) hmon
    obtain ⟨weekDays, hweek⟩ := hparses 0 6 wdF (by simp [hwords]) hwd
    exact ⟨⟨minutes, hours, monthDays, months, weekDays⟩,
      (parseCron_eq_ok_iff hwords).mpr
        ⟨hminutes, hhours, hdays, hmonths, hweek⟩⟩

theorem denotes_of_inGrammar (hclean : Clean field)
    (hgrammar : InGrammar min max field)
    (hparsed : parseField field min max expr = .ok values) :
    Denotes min max field {i | i ∈ values} :=
  (denotes_of_parseField hclean hparsed).resolve_right
    fun hmisread => not_inGrammar_of_misread hmisread hgrammar

theorem denotesFields_of_parseCron
    (hparsed : parseCron expression = .ok fields)
    (hmeet : FieldsMeet InGrammar expression) :
    DenotesFields expression fields := by
  obtain ⟨minF, hrF, domF, monF, wdF, hwords⟩ := words_of_parseCron hparsed
  rw [fieldsMeet_of_words hwords] at hmeet
  rw [parseCron_eq_ok_iff hwords] at hparsed
  have hdenotes : ∀ min max values, ∀ field ∈ splitSpaces (trim expression),
      InGrammar min max field →
        parseField field min max expression = .ok values →
          Denotes min max field {i | i ∈ values} :=
    fun _ _ _ _ hfield => denotes_of_inGrammar (clean_of_word hfield)
  rw [DenotesFields, hwords]
  obtain ⟨hmin, hhr, hdom, hmon, hwd⟩ := hmeet
  obtain ⟨hminutes, hhours, hdays, hmonths, hweek⟩ := hparsed
  exact ⟨hdenotes _ _ _ minF (by simp [hwords]) hmin hminutes,
    hdenotes _ _ _ hrF (by simp [hwords]) hhr hhours,
    hdenotes _ _ _ domF (by simp [hwords]) hdom hdays,
    hdenotes _ _ _ monF (by simp [hwords]) hmon hmonths,
    hdenotes _ _ _ wdF (by simp [hwords]) hwd hweek⟩

/-- The parser accepts what the grammar says, and reads it so, if and only if
no field of an expression that it accepts is misread. -/
theorem cronLaw_iff (expression : Text) :
    CronLaw expression ↔ ¬ IsMisread expression := by
  constructor
  · rintro hlaw ⟨haccepted, hnot⟩
    exact hnot (hlaw.accepts.mp (exists_parseCron_iff.mpr haccepted))
  · intro hnot
    have hgrammar : ∀ fields, parseCron expression = .ok fields →
        FieldsMeet InGrammar expression := by
      intro fields hparsed
      by_contra hout
      exact hnot ⟨exists_parseCron_iff.mp ⟨fields, hparsed⟩, hout⟩
    refine ⟨⟨fun ⟨fields, hparsed⟩ => hgrammar fields hparsed, ?_⟩, ?_⟩
    · intro hmeet
      obtain ⟨minF, hrF, domF, monF, wdF, hwords⟩ := words_of_fieldsMeet hmeet
      rw [exists_parseCron_iff, fieldsMeet_of_words hwords]
      rw [fieldsMeet_of_words hwords] at hmeet
      exact hmeet.imp Or.inl <| And.imp Or.inl <| And.imp Or.inl <|
        And.imp Or.inl Or.inl
    · intro fields hparsed
      exact denotesFields_of_parseCron hparsed (hgrammar fields hparsed)

def listedRange : Text := "1-5,10 * * * *".toList

/-- A list that holds a range is read as the range alone. -/
theorem not_cronLaw_of_listed_range :
    (parseCron listedRange).isOk = true ∧ ¬ CronLaw listedRange := by
  have hok : (parseCron listedRange).isOk = true := by decide +kernel
  refine ⟨hok, fun hlaw => ?_⟩
  have hwords : splitSpaces (trim listedRange) =
      ["1-5,10".toList, ['*'], ['*'], ['*'], ['*']] := by
    decide +kernel
  cases hparsed : parseCron listedRange with
  | error cause =>
      rw [hparsed] at hok
      cases hok
  | ok fields =>
      have hmeet := hlaw.accepts.mp ⟨fields, hparsed⟩
      rw [fieldsMeet_of_words hwords] at hmeet
      cases hmeet.1.shape with
      | every hfield => exact absurd hfield (by decide)
      | step hfield _ _ =>
          have hhead : "1-5,10".toList.head? = some '*' := by
            rw [hfield]
            rfl
          exact absurd hhead (by decide)
      | range hfield _ hm _ _ _ =>
          have hsplit : "1-5,10".toList.splitOn '-' =
              [['1'], "5,10".toList] := by decide +kernel
          rw [hsplit] at hfield
          cases hfield
          exact absurd hm (by decide)
      | list hfield _ => exact absurd (by decide) hfield

end CronParser

end TsCommons.Scheduler
