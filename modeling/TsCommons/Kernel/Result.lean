import Mathlib.Data.List.Basic
import Mathlib.Tactic.Common

/-!
# Results and their collection

A function that is mapped over items may read and change a state, so the calls
of it form a trace.  `traverse` calls it on every item and then collects the
results up to the first error; its result is that of a loop that stops at the
first error, and so are its calls if only the last one can fail.
-/

namespace TsCommons.Kernel

variable {T U E S : Type}

inductive Result (T E : Type)
  | ok (value : T)
  | err (error : E)
deriving DecidableEq

namespace Result

def isOk : Result T E → Bool
  | .ok _ => true
  | .err _ => false

/-- The loop over the results, with the values that have been pushed. -/
def allFrom : List T → List (Result T E) → Result (List T) E
  | values, [] => .ok values
  | _, .err error :: _ => .err error
  | values, .ok value :: rest => allFrom (values ++ [value]) rest

def all (results : List (Result T E)) : Result (List T) E :=
  allFrom [] results

/-- What calls of a function return, the items that it was called on, and the
state that they leave. -/
structure Calls (T R S : Type) where
  returned : R
  called : List T
  state : S
deriving DecidableEq

/-- `items.map(fn)` -/
def mapItems (fn : T → S → Result U E × S) :
    List T → S → Calls T (List (Result U E)) S
  | [], state => ⟨[], [], state⟩
  | item :: rest, state =>
      let result := fn item state
      let calls := mapItems fn rest result.2
      ⟨result.1 :: calls.returned, item :: calls.called, calls.state⟩

def traverse (items : List T) (fn : T → S → Result U E × S) (state : S) :
    Calls T (Result (List U) E) S :=
  let calls := mapItems fn items state
  ⟨all calls.returned, calls.called, calls.state⟩

/-! ## Stopping at the first error -/

def map (f : T → U) : Result T E → Result U E
  | .ok value => .ok (f value)
  | .err error => .err error

/-- The values of all items in order, or the error of the first item that
fails, and the items up to that one. -/
def shortCircuit (fn : T → S → Result U E × S) :
    List T → S → Result (List U) E × List T
  | [], _ => (.ok [], [])
  | item :: rest, state =>
      match fn item state with
      | (.err error, _) => (.err error, [item])
      | (.ok value, next) =>
          let found := shortCircuit fn rest next
          (found.1.map (value :: ·), item :: found.2)

/-- The result and the calls are those of a loop that stops at the first
error. -/
structure ShortCircuits (items : List T) (fn : T → S → Result U E × S)
    (state : S) : Prop where
  returned : (traverse items fn state).returned =
    (shortCircuit fn items state).1
  called : (traverse items fn state).called = (shortCircuit fn items state).2

/-- The function succeeds on every item that has another one behind it. -/
def OkBeforeLast (fn : T → S → Result U E × S) : List T → S → Prop
  | [], _ => True
  | [_], _ => True
  | item :: next :: rest, state =>
      (fn item state).1.isOk = true ∧
        OkBeforeLast fn (next :: rest) (fn item state).2

variable {fn : T → S → Result U E × S} {items : List T} {state : S}

theorem allFrom_eq_map (values : List T) (results : List (Result T E)) :
    allFrom values results = (all results).map (values ++ ·) := by
  induction results generalizing values with
  | nil => simp [all, allFrom, map]
  | cons result rest ih =>
      cases result with
      | err error => rfl
      | ok value =>
          rw [all, allFrom, allFrom, ih (values ++ [value]), ih ([] ++ [value])]
          cases all rest with
          | err error => rfl
          | ok collected => simp [map]

theorem all_ok_cons (value : T) (rest : List (Result T E)) :
    all (.ok value :: rest) = (all rest).map (value :: ·) := by
  rw [all, allFrom, allFrom_eq_map]
  rfl

theorem called_mapItems (fn : T → S → Result U E × S) (items : List T)
    (state : S) : (mapItems fn items state).called = items := by
  induction items generalizing state with
  | nil => rfl
  | cons item rest ih => rw [mapItems, ih]

/-- What is returned does not depend on the calls after the first error. -/
theorem returned_traverse (fn : T → S → Result U E × S) (items : List T)
    (state : S) :
    (traverse items fn state).returned = (shortCircuit fn items state).1 := by
  induction items generalizing state with
  | nil => rfl
  | cons item rest ih =>
      have hrest := ih (fn item state).2
      simp only [traverse] at hrest
      simp only [traverse, mapItems, shortCircuit]
      cases hcall : fn item state with
      | mk result next =>
          rw [hcall] at hrest
          cases result with
          | err error => rfl
          | ok value =>
              rw [all_ok_cons, hrest]

theorem called_shortCircuit_iff :
    (shortCircuit fn items state).2 = items ↔ OkBeforeLast fn items state := by
  induction items generalizing state with
  | nil => simp [shortCircuit, OkBeforeLast]
  | cons item rest ih =>
      cases hcall : fn item state with
      | mk result next =>
          cases rest with
          | nil =>
              rw [shortCircuit, hcall]
              cases result <;> simp [shortCircuit, OkBeforeLast]
          | cons second more =>
              rw [shortCircuit, hcall, OkBeforeLast, hcall]
              cases result with
              | err error => simp [isOk]
              | ok value =>
                  simp only [List.cons.injEq, true_and, isOk]
                  exact ih

theorem shortCircuits_iff (items : List T) (fn : T → S → Result U E × S)
    (state : S) :
    ShortCircuits items fn state ↔ OkBeforeLast fn items state := by
  rw [← called_shortCircuit_iff]
  constructor
  · intro hshort
    rw [← hshort.called]
    exact called_mapItems fn items state
  · intro hcalled
    refine ⟨returned_traverse fn items state, ?_⟩
    rw [hcalled]
    exact called_mapItems fn items state

/-- A check that turns down the number two and counts its calls. -/
def rejectTwo (item : ℕ) (calls : ℕ) : Result ℕ String × ℕ :=
  (if item = 2 then .err "bad" else .ok item, calls + 1)

/-- The item behind the one that is turned down is checked all the same. -/
theorem traverse_calls_after_error :
    traverse [1, 2, 3] rejectTwo 0 = ⟨.err "bad", [1, 2, 3], 3⟩ ∧
      shortCircuit rejectTwo [1, 2, 3] 0 = (.err "bad", [1, 2]) ∧
      ¬ ShortCircuits [1, 2, 3] rejectTwo 0 := by
  refine ⟨by decide, by decide, fun hshort => ?_⟩
  exact absurd hshort.called (by decide)

end Result

end TsCommons.Kernel
