import TsCommons.Streams.Outlet
import Mathlib.Logic.Function.Basic

/-!
# Streams with several subscribers

An operator on several streams may subscribe to one of them several times.
The callbacks of such operators do not call the streams that they come from,
so that the loop of a call visits the subscribers of the beginning.
-/

namespace TsCommons.Streams

open Foundations

variable {V E F : Type}

namespace EventStream

/-- The callbacks that the loop of a call comes to. -/
def callbacks (stream : EventStream E F) (notice : Notice V E) : List F :=
  stream.subscribers.toMap.values.filterMap fun subscriber =>
    subscriber.callback notice

def subscribedBy (observers : List (Observer F)) : EventStream E F :=
  observers.foldl (fun stream observer => (stream.subscribe observer).1) new

/-- A stream after some have subscribed to it and it has completed or not. -/
def having (observers : List (Observer F)) (completed : Bool) :
    EventStream E F :=
  { subscribedBy observers with completed := completed }

end EventStream

/-- The streams by their references. -/
abbrev Sources (E F : Type) := ℕ → EventStream E F

namespace Sources

def new : Sources E F := fun _ => .new

/-- A call on one of the streams, and the callbacks that it calls. -/
def notify (sources : Sources E F) (call : ℕ × Notice V E) :
    Sources E F × List F :=
  match (sources call.1).notify call.2 with
  | none => (sources, [])
  | some notified =>
      (Function.update sources call.1 notified, notified.callbacks call.2)

/-- With the callback that is called immediately, if there is one. -/
def subscribe (sources : Sources E F) (id : ℕ) (observer : Observer F) :
    Sources E F × Option (F × Notice V E) :=
  (Function.update sources id ((sources id).subscribe observer).1,
    (sources id).terminal.bind fun notice =>
      (observer.callback notice).map fun callback => (callback, notice))

end Sources

/-! ## The calls of a run -/

def Notice.completes : Notice V E → Bool
  | .next _ => false
  | .error _ => false
  | .complete => true

def hasCompleted (calls : List (ℕ × Notice V E)) (id : ℕ) : Bool :=
  calls.any fun call => call.1 = id && call.2.completes

/-- The values that are emitted on streams that have not completed, with the
references of their streams, when the calls follow those of the past. -/
def delivered (past : List (ℕ × Notice V E)) :
    List (ℕ × Notice V E) → List (ℕ × V)
  | [] => []
  | call :: rest =>
      (if hasCompleted past call.1 then []
        else (call.2.value.map fun value => (call.1, value)).toList) ++
        delivered (past ++ [call]) rest

/-- No stream errors. -/
def Quiet (calls : List (ℕ × Notice V E)) : Prop :=
  ∀ call ∈ calls, ∀ cause, call.2 ≠ .error cause

def valuesOf (id : ℕ) (delivered : List (ℕ × V)) : List V :=
  delivered.filterMap fun value => if value.1 = id then some value.2 else none

variable {observers : List (Observer F)} {observer : Observer F}
  {past calls : List (ℕ × Notice V E)} {call : ℕ × Notice V E} {id : ℕ}
  {notice : Notice V E}

theorem hasCompleted_concat (past : List (ℕ × Notice V E))
    (call : ℕ × Notice V E) (id : ℕ) :
    hasCompleted (past ++ [call]) id =
      (hasCompleted past id || (call.1 = id && call.2.completes)) := by
  simp [hasCompleted, List.any_append]

theorem delivered_cons (past : List (ℕ × Notice V E)) (call : ℕ × Notice V E)
    (rest : List (ℕ × Notice V E)) :
    delivered past (call :: rest) =
      delivered past [call] ++ delivered (past ++ [call]) rest := by
  rw [delivered, delivered, delivered, List.append_nil]

theorem hasCompleted_concat_of_hasCompleted
    (hended : hasCompleted past id = true) :
    hasCompleted (past ++ [call]) id = true := by
  rw [hasCompleted_concat, hended, Bool.true_or]

theorem hasCompleted_eq_false_of_imp {before : List (ℕ × Notice V E)}
    (himp : hasCompleted before id = true → hasCompleted past id = true)
    (hopen : hasCompleted past id = false) :
    hasCompleted before id = false := by
  rw [← Bool.not_eq_true]
  intro hcompleted
  rw [himp hcompleted] at hopen
  cases hopen

theorem Quiet.of_append (hquiet : Quiet (past ++ calls)) :
    Quiet past ∧ Quiet calls :=
  List.forall_mem_append.mp hquiet

theorem Quiet.of_cons (hquiet : Quiet (call :: calls)) :
    (∀ cause, call.2 ≠ .error cause) ∧ Quiet calls :=
  List.forall_mem_cons.mp hquiet

/-! ## A stream with its subscribers -/

namespace EventStream

structure Holds (observers : List (Observer F)) (stream : EventStream E F) :
    Prop where
  completed : stream.completed = false
  hasError : stream.hasError = false
  nextId : stream.nextId = observers.length
  keys : stream.subscribers.toMap.keys = List.range observers.length
  values : stream.subscribers.toMap.values = observers

theorem Holds.new : Holds [] (new : EventStream E F) :=
  ⟨rfl, rfl, rfl, rfl, rfl⟩

theorem Holds.subscribe {stream : EventStream E F}
    (hholds : Holds observers stream) (observer : Observer F) :
    Holds (observers ++ [observer]) (stream.subscribe observer).1 := by
  have hopen : ¬ (stream.completed || stream.hasError) = true := by
    rw [hholds.completed, hholds.hasError]
    exact Bool.false_ne_true
  have hnew :
      stream.nextId ∉ stream.subscribers.toMap.entries.map Prod.fst := by
    have hkeys := hholds.keys
    rw [InsertionMap.keys] at hkeys
    rw [hkeys, hholds.nextId, List.mem_range]
    exact Nat.lt_irrefl _
  have hentries :
      (stream.subscribers.set stream.nextId observer).toMap.entries =
        stream.subscribers.toMap.entries ++ [(stream.nextId, observer)] := by
    rw [MapData.toMap_set]
    exact InsertionMap.put_of_not_mem observer hnew
  rw [EventStream.subscribe, if_neg hopen]
  refine ⟨hholds.completed, hholds.hasError, ?_, ?_, ?_⟩
  · rw [List.length_append, List.length_singleton, hholds.nextId]
  · have hkeys := hholds.keys
    rw [InsertionMap.keys] at hkeys ⊢
    rw [hentries, List.map_append, hkeys, List.length_append,
      List.length_singleton, List.range_succ, hholds.nextId]
    rfl
  · have hvalues := hholds.values
    rw [InsertionMap.values] at hvalues ⊢
    rw [hentries, List.map_append, hvalues]
    rfl

theorem holds_subscribedBy (observers : List (Observer F)) :
    Holds observers (subscribedBy observers : EventStream E F) := by
  induction observers using List.reverseRecOn with
  | nil => exact Holds.new
  | append_singleton observers observer ih =>
      rw [subscribedBy, List.foldl_append]
      exact ih.subscribe observer

theorem having_false (observers : List (Observer F)) :
    (having observers false : EventStream E F) = subscribedBy observers := by
  rw [having, ← (holds_subscribedBy observers).completed]

theorem subscribe_having_false (observers : List (Observer F))
    (observer : Observer F) :
    ((having observers false : EventStream E F).subscribe observer).1 =
      having (observers ++ [observer]) false := by
  rw [having_false, having_false, subscribedBy, subscribedBy,
    List.foldl_append]
  rfl

theorem hasError_having (observers : List (Observer F)) (completed : Bool) :
    (having observers completed : EventStream E F).hasError = false :=
  (holds_subscribedBy observers).hasError

theorem subscribe_having_true (observers : List (Observer F))
    (observer : Observer F) :
    ((having observers true : EventStream E F).subscribe observer).1 =
      having observers true := rfl

theorem terminal_having_false (observers : List (Observer F)) :
    (having observers false : EventStream E F).terminal (V := V) = none := by
  have hnot : ¬ (having observers false : EventStream E F).hasError = true := by
    rw [hasError_having]
    exact Bool.false_ne_true
  rw [terminal, if_neg hnot]
  rfl

theorem callbacks_having (observers : List (Observer F)) (completed : Bool)
    (notice : Notice V E) :
    (having observers completed : EventStream E F).callbacks notice =
      observers.filterMap fun observer => observer.callback notice := by
  have hvalues := (holds_subscribedBy (E := E) observers).values
  rw [callbacks, having, hvalues]

theorem notify_having_true (observers : List (Observer F))
    (notice : Notice V E) :
    (having observers true : EventStream E F).notify notice = none := rfl

theorem notify_having_false (observers : List (Observer F))
    (hquiet : ∀ cause, notice ≠ .error cause) :
    (having observers false : EventStream E F).notify notice =
      some (having observers notice.completes) := by
  have hopen : ¬ ((having observers false : EventStream E F).completed ||
      (having observers false : EventStream E F).hasError) = true := by
    rw [hasError_having]
    exact Bool.false_ne_true
  cases notice with
  | next value => exact if_neg hopen
  | error cause => exact absurd rfl (hquiet cause)
  | complete => exact if_neg hopen

end EventStream

/-! ## The streams of a run -/

namespace Sources

/-- The streams with their subscribers after calls. -/
def having (observers : ℕ → List (Observer F)) (past : List (ℕ × Notice V E)) :
    Sources E F :=
  fun id => .having (observers id) (hasCompleted past id)

theorem having_apply (observers : ℕ → List (Observer F))
    (past : List (ℕ × Notice V E)) (id : ℕ) :
    (having observers past : Sources E F) id =
      .having (observers id) (hasCompleted past id) := rfl

theorem new_eq_having :
    (new : Sources E F) = having (fun _ => []) ([] : List (ℕ × Notice V E)) :=
  rfl

theorem notify_having (observers : ℕ → List (Observer F))
    (past : List (ℕ × Notice V E)) (hquiet : ∀ cause, call.2 ≠ .error cause) :
    (having observers past).notify call =
      (having observers (past ++ [call]),
        if hasCompleted past call.1 then []
        else (observers call.1).filterMap fun observer =>
          observer.callback call.2) := by
  cases hended : hasCompleted past call.1 with
  | true =>
      have hsame :
          having observers (past ++ [call]) = having observers past := by
        funext id
        rw [having_apply, having_apply, hasCompleted_concat]
        by_cases heq : call.1 = id
        · rw [← heq, hended, Bool.true_or]
        · rw [decide_eq_false heq, Bool.false_and, Bool.or_false]
      rw [hsame, notify, having_apply, hended,
        EventStream.notify_having_true]
      rfl
  | false =>
      rw [notify]
      have hnotified : (having observers past call.1).notify call.2 =
          some (.having (observers call.1) call.2.completes) := by
        rw [having_apply, hended]
        exact EventStream.notify_having_false _ hquiet
      rw [hnotified]
      refine Prod.ext (funext fun id => ?_)
        (EventStream.callbacks_having _ _ _)
      dsimp only
      rw [having_apply, hasCompleted_concat]
      by_cases heq : id = call.1
      · rw [heq, Function.update_self, hended, decide_eq_true rfl,
          Bool.true_and, Bool.false_or]
      · rw [Function.update_of_ne heq, having_apply,
          decide_eq_false (Ne.symm heq), Bool.false_and, Bool.or_false]

/-- The streams that nothing has subscribed to. -/
def after (calls : List (ℕ × Notice V E)) : Sources E F :=
  calls.foldl (fun sources call => (sources.notify call).1) new

theorem after_eq_having (hquiet : Quiet calls) :
    (after calls : Sources E F) = having (fun _ => []) calls := by
  induction calls using List.reverseRecOn with
  | nil => exact new_eq_having
  | append_singleton calls call ih =>
      obtain ⟨hcalls, hcall⟩ := hquiet.of_append
      rw [after, List.foldl_append]
      have hlast := notify_having (F := F) (fun _ => []) calls
        hcall.of_cons.1
      rw [← ih hcalls] at hlast
      exact congrArg Prod.fst hlast

/-- The subscribers after those that subscribe to an open stream. -/
def subscribers (past : List (ℕ × Notice V E))
    (subscriptions : List (ℕ × Observer F)) (id : ℕ) : List (Observer F) :=
  if hasCompleted past id then []
  else subscriptions.filterMap fun subscription =>
    if subscription.1 = id then some subscription.2 else none

theorem subscribers_nil (past : List (ℕ × Notice V E)) :
    (subscribers past [] : ℕ → List (Observer F)) = fun _ => [] := by
  funext id
  exact ite_self []

theorem subscribers_concat_of_completed
    (subscriptions : List (ℕ × Observer F)) (observer : Observer F)
    (hended : hasCompleted past id = true) :
    subscribers past (subscriptions ++ [(id, observer)]) =
      subscribers past subscriptions := by
  funext other
  rw [subscribers, subscribers]
  by_cases heq : id = other
  · rw [← heq, if_pos hended, if_pos hended]
  · simp [heq]

theorem subscribers_concat_of_open (subscriptions : List (ℕ × Observer F))
    (observer : Observer F) (hopen : hasCompleted past id = false) :
    subscribers past (subscriptions ++ [(id, observer)]) =
      Function.update (subscribers past subscriptions) id
        (subscribers past subscriptions id ++ [observer]) := by
  have hnot : ¬ hasCompleted past id = true := by
    rw [hopen]
    exact Bool.false_ne_true
  funext other
  by_cases heq : other = id
  · rw [heq, Function.update_self, subscribers, subscribers, if_neg hnot,
      if_neg hnot]
    simp
  · rw [Function.update_of_ne heq, subscribers, subscribers]
    simp [Ne.symm heq]

/-- A subscriber of a stream that has completed is told so. -/
theorem subscribe_having (past : List (ℕ × Notice V E))
    (subscriptions : List (ℕ × Observer F)) (id : ℕ) (observer : Observer F) :
    (having (subscribers past subscriptions) past).subscribe (V := V) id
        observer =
      (having (subscribers past (subscriptions ++ [(id, observer)])) past,
        if hasCompleted past id then
          observer.complete.map fun callback => (callback, .complete)
        else none) := by
  have hstream := having_apply (E := E) (subscribers past subscriptions) past id
  cases hended : hasCompleted past id with
  | true =>
      rw [hended] at hstream
      rw [subscribers_concat_of_completed _ _ hended, subscribe, hstream]
      refine Prod.ext ?_ rfl
      rw [EventStream.subscribe_having_true, ← hstream,
        Function.update_eq_self]
  | false =>
      rw [hended] at hstream
      rw [subscribers_concat_of_open _ _ hended, subscribe, hstream,
        EventStream.subscribe_having_false, EventStream.terminal_having_false]
      refine Prod.ext (funext fun other => ?_) rfl
      dsimp only
      by_cases heq : other = id
      · rw [heq, Function.update_self, having_apply, Function.update_self,
          hended]
      · rw [Function.update_of_ne heq, having_apply, having_apply,
          Function.update_of_ne heq]

end Sources

end TsCommons.Streams
