import TsCommons.Streams.Sources

/-!
# Merged streams and zipped streams

A merged stream passes the values of its sources on, once for each time that
the source is in the list, and completes with the last of them.  A zipped
stream pairs the values of two sources, which may be one, and never completes.
-/

namespace TsCommons.Streams

variable {V E : Type}

/-! ## Merging -/

/-- The streams, the variables of `merge`, and the stream that it returns. -/
structure Merger (V E : Type) where
  sources : Sources E Unit
  length : ℕ
  completedCount : ℕ
  out : Outlet V E

namespace Merger

def observer : Observer Unit := ⟨(), some (), some ()⟩

def observe (merger : Merger V E) : Notice V E → Merger V E
  | .next v => { merger with out := merger.out.notify (.next v) }
  | .error e => { merger with out := merger.out.notify (.error e) }
  | .complete =>
      let completedCount := merger.completedCount + 1
      { merger with
        completedCount := completedCount
        out :=
          if completedCount = merger.length then merger.out.notify .complete
          else merger.out }

def subscribe (merger : Merger V E) (id : ℕ) : Merger V E :=
  match merger.sources.subscribe id observer with
  | (sources, none) => { merger with sources := sources }
  | (sources, some (_, notice)) =>
      { merger with sources := sources }.observe notice

/-- Nothing has subscribed to the stream that `merge` returns before. -/
def merge (sources : Sources E Unit) (streams : List ℕ) : Merger V E :=
  let start : Merger V E := ⟨sources, streams.length, 0, ⟨.new, []⟩⟩
  let merger :=
    if streams.length = 0 then
      { start with out := start.out.notify .complete }
    else streams.foldl subscribe start
  { merger with out := .attach merger.out.stream }

def notify (merger : Merger V E) (call : ℕ × Notice V E) : Merger V E :=
  match merger.sources.notify call with
  | (sources, called) =>
      called.foldl (fun merger _ => merger.observe call.2)
        { merger with sources := sources }

/-- The sources are merged between the calls that come before and those that
come after. -/
def run (before : List (ℕ × Notice V E)) (streams : List ℕ)
    (after : List (ℕ × Notice V E)) : Merger V E :=
  after.foldl notify (merge (.after before) streams)

end Merger

/-! ## Zipping -/

inductive Side
  | a
  | b
deriving DecidableEq

/-- The streams, the variables of `zip`, and the stream that it returns. -/
structure Zipper (V E : Type) where
  sources : Sources E Side
  bufA : List V
  bufB : List V
  out : Outlet (V × V) E

/-- The stream and the buffers after the loop. -/
def tryEmitZip (out : Outlet (V × V) E) :
    List V → List V → Outlet (V × V) E × List V × List V
  | a :: bufA, b :: bufB => tryEmitZip (out.notify (.next (a, b))) bufA bufB
  | bufA, bufB => (out, bufA, bufB)

namespace Zipper

def observer (side : Side) : Observer Side := ⟨side, some side, none⟩

def emitZip (zipper : Zipper V E) : Zipper V E :=
  match tryEmitZip zipper.out zipper.bufA zipper.bufB with
  | (out, bufA, bufB) =>
      { zipper with out := out, bufA := bufA, bufB := bufB }

/-- The observers have no callback for the completion. -/
def observe (zipper : Zipper V E) : Side → Notice V E → Zipper V E
  | .a, .next v => { zipper with bufA := zipper.bufA ++ [v] }.emitZip
  | .b, .next v => { zipper with bufB := zipper.bufB ++ [v] }.emitZip
  | _, .error e => { zipper with out := zipper.out.notify (.error e) }
  | _, .complete => zipper

def subscribe (zipper : Zipper V E) (id : ℕ) (side : Side) : Zipper V E :=
  match zipper.sources.subscribe id (observer side) with
  | (sources, none) => { zipper with sources := sources }
  | (sources, some (side, notice)) =>
      { zipper with sources := sources }.observe side notice

def zip (sources : Sources E Side) (a b : ℕ) : Zipper V E :=
  let start : Zipper V E := ⟨sources, [], [], ⟨.new, []⟩⟩
  let zipper := (start.subscribe a .a).subscribe b .b
  { zipper with out := .attach zipper.out.stream }

def notify (zipper : Zipper V E) (call : ℕ × Notice V E) : Zipper V E :=
  match zipper.sources.notify call with
  | (sources, called) =>
      called.foldl (fun zipper side => zipper.observe side call.2)
        { zipper with sources := sources }

def run (before : List (ℕ × Notice V E)) (a b : ℕ)
    (after : List (ℕ × Notice V E)) : Zipper V E :=
  after.foldl notify (zip (.after before) a b)

end Zipper

/-! ## What the streams are to emit -/

/-- The completion of a merged stream. -/
def completion (streams : List ℕ) (calls : List (ℕ × Notice V E)) :
    Option (Terminal E) :=
  if ∀ id ∈ streams, hasCompleted calls id = true then some .complete
  else none

/-- Each value of a source, in the order of the emissions, and after the last
of the sources has completed the completion. -/
def MergesOnce (before : List (ℕ × Notice V E)) (streams : List ℕ)
    (after : List (ℕ × Notice V E)) : Prop :=
  (Merger.run before streams after).out.seen =
    ((delivered before after).filter fun value =>
        decide (value.1 ∈ streams)).map (fun value => .next value.2) ++
      closing (completion streams (before ++ after))

/-- The same, but each value as often as its source is in the list. -/
def MergeLaw (before : List (ℕ × Notice V E)) (streams : List ℕ)
    (after : List (ℕ × Notice V E)) : Prop :=
  (Merger.run before streams after).out.seen =
    (delivered before after).flatMap (fun value =>
        List.replicate (streams.count value.1) (.next value.2)) ++
      closing (completion streams (before ++ after))

/-- The pairs of the values, as far as both sources have one, and one of the
buffers is empty. -/
structure ZipLaw (before : List (ℕ × Notice V E)) (a b : ℕ)
    (after : List (ℕ × Notice V E)) : Prop where
  pairs : (Zipper.run before a b after).out.seen =
    ((valuesOf a (delivered before after)).zip
      (valuesOf b (delivered before after))).map .next
  buffers : (Zipper.run before a b after).bufA = [] ∨
    (Zipper.run before a b after).bufB = []

variable {before after past : List (ℕ × Notice V E)} {streams : List ℕ}
  {call : ℕ × Notice V E} {id : ℕ} {values : List V}

/-! ## The merged stream -/

/-- What the subscriber has seen of a stream, which may have ended before the
subscriber was attached. -/
def Outlet.Shows (out : Outlet V E) (values : List V) :
    Option (Terminal E) → Prop
  | none => out = .after values none
  | some terminal =>
      out.seen = values.map .next ++ [terminal.notice] ∧
        ∀ notice, out.notify notice = out

theorem Outlet.Shows.seen {out : Outlet V E} {ending : Option (Terminal E)}
    (hshows : out.Shows values ending) :
    out.seen = values.map .next ++ closing ending := by
  cases ending with
  | none =>
      rw [Outlet.Shows] at hshows
      rw [hshows]
      rfl
  | some terminal => exact hshows.1

theorem Outlet.shows_attach (completed : Bool) :
    (Outlet.attach (.having [] completed) : Outlet V E).Shows []
      (if completed then some .complete else none) := by
  cases completed with
  | false => rfl
  | true => exact ⟨rfl, fun _ => rfl⟩

namespace Merger

variable {sources : Sources E Unit} {merger : Merger V E}
  {length completedCount : ℕ}

/-- What all streams, the variables and the stream that is returned are. -/
structure Holds (sources : Sources E Unit) (length completedCount : ℕ)
    (values : List V) (merger : Merger V E) : Prop where
  sources_eq : merger.sources = sources
  length_eq : merger.length = length
  count_eq : merger.completedCount = completedCount
  out : merger.out.Shows values
    (if completedCount = length then some .complete else none)

theorem Holds.next (hholds : Holds sources length completedCount values merger)
    (hopen : completedCount ≠ length) (v : V) :
    Holds sources length completedCount (values ++ [v])
      (merger.observe (.next v)) := by
  refine ⟨hholds.sources_eq, hholds.length_eq, hholds.count_eq, ?_⟩
  have hout := hholds.out
  rw [if_neg hopen] at hout ⊢
  rw [Outlet.Shows] at hout ⊢
  rw [observe, hout, Outlet.notify_next]

theorem Holds.complete
    (hholds : Holds sources length completedCount values merger)
    (hlt : completedCount < length) :
    Holds sources length (completedCount + 1) values
      (merger.observe .complete) := by
  refine ⟨hholds.sources_eq, hholds.length_eq, ?_, ?_⟩
  · rw [observe, hholds.count_eq]
  · have hout := hholds.out
    rw [if_neg (Nat.ne_of_lt hlt), Outlet.Shows] at hout
    rw [observe, hholds.count_eq, hholds.length_eq, hout]
    dsimp only
    by_cases hlast : completedCount + 1 = length
    · rw [if_pos hlast, if_pos hlast]
      have hend := Outlet.notify_terminal (E := E) values .complete
      rw [Terminal.notice] at hend
      rw [hend]
      exact ⟨rfl, Outlet.notify_ended values .complete⟩
    · rw [if_neg hlast, if_neg hlast]
      rfl

theorem Holds.nexts
    (hholds : Holds sources length completedCount values merger)
    (hopen : completedCount ≠ length) (times : ℕ) (v : V) :
    Holds sources length completedCount (values ++ List.replicate times v)
      ((List.replicate times ()).foldl
        (fun merger _ => merger.observe (.next v)) merger) := by
  induction times generalizing values merger with
  | zero => simpa using hholds
  | succ times ih =>
      have hrest := ih (hholds.next hopen v)
      rw [List.append_assoc] at hrest
      exact hrest

theorem Holds.completes
    (hholds : Holds sources length completedCount values merger) (times : ℕ)
    (hle : completedCount + times ≤ length) :
    Holds sources length (completedCount + times) values
      ((List.replicate times ()).foldl
        (fun merger _ => merger.observe .complete) merger) := by
  induction times generalizing completedCount merger with
  | zero => exact hholds
  | succ times ih =>
      have hrest := ih (hholds.complete (by omega)) (by omega)
      rw [Nat.add_assoc, Nat.add_comm 1] at hrest
      exact hrest

/-- The streams after some have been merged between the calls. -/
def merged (before : List (ℕ × Notice V E)) (streams : List ℕ)
    (past : List (ℕ × Notice V E)) : Sources E Unit :=
  .having (Sources.subscribers before (streams.map fun id => (id, observer)))
    past

/-- The loop of `merge` when it has subscribed to some of the streams. -/
def subscribing (before : List (ℕ × Notice V E)) (streams done : List ℕ) :
    Merger V E :=
  ⟨merged before done before, streams.length,
    done.countP (hasCompleted before),
    ⟨.having [] (done.countP (hasCompleted before) = streams.length), []⟩⟩

theorem subscribe_subscribing {done : List ℕ}
    (hlt : done.length < streams.length) (id : ℕ) :
    (subscribing before streams done).subscribe id =
      subscribing before streams (done ++ [id]) := by
  have hopen : done.countP (hasCompleted before) ≠ streams.length :=
    Nat.ne_of_lt (Nat.lt_of_le_of_lt List.countP_le_length hlt)
  have hmerged : merged before (done ++ [id]) before =
      .having (Sources.subscribers before
        (done.map (fun id => (id, observer)) ++ [(id, observer)])) before := by
    rw [merged, List.map_append, List.map_singleton]
  rw [subscribe, subscribing, merged, Sources.subscribe_having, ← hmerged]
  cases hended : hasCompleted before id with
  | true =>
      have hcount : (done ++ [id]).countP (hasCompleted before) =
          done.countP (hasCompleted before) + 1 := by
        rw [List.countP_append, List.countP_singleton, if_pos hended]
      rw [subscribing, hcount, decide_eq_false hopen, if_pos rfl]
      simp only [observer, Option.map_some, observe]
      by_cases hlast : done.countP (hasCompleted before) + 1 = streams.length
      · rw [if_pos hlast, decide_eq_true hlast]
        rfl
      · rw [if_neg hlast, decide_eq_false hlast]
  | false =>
      have hnot : ¬ hasCompleted before id = true := by
        rw [hended]
        exact Bool.false_ne_true
      have hcount : (done ++ [id]).countP (hasCompleted before) =
          done.countP (hasCompleted before) := by
        rw [List.countP_append, List.countP_singleton, if_neg hnot,
          Nat.add_zero]
      rw [subscribing, hcount, if_neg Bool.false_ne_true]

theorem foldl_subscribe {done rest : List ℕ} (hall : done ++ rest = streams) :
    rest.foldl subscribe (subscribing before streams done) =
      subscribing before streams streams := by
  induction rest generalizing done with
  | nil => rw [← hall, List.append_nil]; rfl
  | cons id rest ih =>
      have hlt : done.length < streams.length := by
        rw [← hall, List.length_append, List.length_cons]
        omega
      rw [List.foldl_cons, subscribe_subscribing hlt]
      exact ih (by rw [← hall, List.append_assoc, List.singleton_append])

theorem merged_nil (before : List (ℕ × Notice V E)) :
    merged before [] before = .having (fun _ => []) before := by
  rw [merged, List.map_nil, Sources.subscribers_nil]

theorem subscribing_nil (before : List (ℕ × Notice V E))
    (hsome : streams.length ≠ 0) :
    subscribing before streams [] =
      ⟨.having (fun _ => []) before, streams.length, 0, ⟨.new, []⟩⟩ := by
  rw [subscribing, merged_nil, List.countP_nil,
    decide_eq_false (Ne.symm hsome)]
  rfl

theorem holds_merge (before : List (ℕ × Notice V E)) (streams : List ℕ) :
    Holds (V := V) (merged before streams before) streams.length
      (streams.countP (hasCompleted before)) []
      (merge (.having (fun _ => []) before) streams) := by
  have hmerge : merge (V := V) (.having (fun _ => []) before) streams =
      { subscribing before streams streams with
        out := .attach (subscribing before streams streams).out.stream } := by
    rw [merge]
    dsimp only
    by_cases hnone : streams.length = 0
    · rw [if_pos hnone, List.eq_nil_of_length_eq_zero hnone, subscribing,
        merged_nil]
      rfl
    · rw [if_neg hnone, ← subscribing_nil before hnone,
        foldl_subscribe (List.nil_append streams)]
  rw [hmerge]
  refine ⟨rfl, rfl, rfl, ?_⟩
  have hattach := Outlet.shows_attach (V := V) (E := E)
    (streams.countP (hasCompleted before) = streams.length)
  simp only [decide_eq_true_eq] at hattach
  exact hattach

/-! ### A call -/

theorem subscribers_eq_replicate (hopen : hasCompleted before id = false)
    (streams : List ℕ) :
    Sources.subscribers before (streams.map fun id => (id, observer)) id =
      List.replicate (streams.count id) observer := by
  have hnot : ¬ hasCompleted before id = true := by
    rw [hopen]
    exact Bool.false_ne_true
  rw [Sources.subscribers, if_neg hnot]
  induction streams with
  | nil => rfl
  | cons stream rest ih =>
      by_cases heq : stream = id
      · simp [heq, ih, List.replicate_succ]
      · simp [heq, ih]

theorem callbacks_eq_replicate (hopen : hasCompleted before id = false)
    (streams : List ℕ) (notice : Notice V E) :
    (Sources.subscribers before (streams.map fun id => (id, observer))
        id).filterMap (fun observer => observer.callback notice) =
      List.replicate (streams.count id) () := by
  have hcallback : observer.callback notice = some () := by
    cases notice with
    | next value => rfl
    | error cause => rfl
    | complete => rfl
  rw [subscribers_eq_replicate hopen]
  exact List.filterMap_replicate_of_some hcallback

theorem countP_concat_of_silent (streams : List ℕ)
    (hsilent : call.2.completes = false) :
    streams.countP (hasCompleted (past ++ [call])) =
      streams.countP (hasCompleted past) := by
  apply List.countP_congr
  intro id _
  rw [hasCompleted_concat, hsilent, Bool.and_false, Bool.or_false]

theorem countP_concat_of_completed (streams : List ℕ)
    (hended : hasCompleted past call.1 = true) :
    streams.countP (hasCompleted (past ++ [call])) =
      streams.countP (hasCompleted past) := by
  apply List.countP_congr
  intro id _
  rw [hasCompleted_concat]
  by_cases heq : call.1 = id
  · rw [← heq, hended, Bool.true_or]
  · rw [decide_eq_false heq, Bool.false_and, Bool.or_false]

theorem countP_concat_of_completes (streams : List ℕ)
    (hopen : hasCompleted past id = false) :
    streams.countP (hasCompleted (past ++ [(id, .complete)])) =
      streams.countP (hasCompleted past) + streams.count id := by
  induction streams with
  | nil => rfl
  | cons stream rest ih =>
      rw [List.countP_cons, List.countP_cons, List.count_cons, ih,
        hasCompleted_concat]
      by_cases heq : stream = id
      · rw [heq, hopen]
        simp [Notice.completes]
        omega
      · have hne : ¬ id = stream := Ne.symm heq
        simp [heq, hne]
        omega

theorem countP_ne_length (hopen : hasCompleted past id = false)
    (hmem : id ∈ streams) :
    streams.countP (hasCompleted past) ≠ streams.length := by
  intro hall
  have hended := List.countP_eq_length.mp hall id hmem
  rw [hopen] at hended
  cases hended

/-- What a value makes the merged stream emit. -/
def copies (streams : List ℕ) (delivered : List (ℕ × V)) : List V :=
  delivered.flatMap fun value =>
    List.replicate (streams.count value.1) value.2

theorem Holds.notify
    (hholds : Holds (merged before streams past) streams.length
      (streams.countP (hasCompleted past)) values merger)
    (hpast : ∀ id, hasCompleted before id = true → hasCompleted past id = true)
    (hquiet : ∀ cause, call.2 ≠ .error cause) :
    Holds (merged before streams (past ++ [call])) streams.length
      (streams.countP (hasCompleted (past ++ [call])))
      (values ++ copies streams (delivered past [call]))
      (merger.notify call) := by
  have hnotified := Sources.notify_having
    (Sources.subscribers before (streams.map fun id => (id, observer))) past
    hquiet
  rw [← merged, ← merged] at hnotified
  rw [Merger.notify, hholds.sources_eq, hnotified]
  have hmoved : Holds (merged before streams (past ++ [call]))
      streams.length (streams.countP (hasCompleted past)) values
      { merger with
        sources := merged before streams (past ++ [call]) } :=
    ⟨rfl, hholds.length_eq, hholds.count_eq, hholds.out⟩
  dsimp only
  cases hended : hasCompleted past call.1 with
  | true =>
      rw [delivered, hended, countP_concat_of_completed streams hended]
      simpa [copies, delivered] using hmoved
  | false =>
      have hfirst := hasCompleted_eq_false_of_imp (hpast call.1) hended
      rw [delivered, hended, if_neg Bool.false_ne_true,
        if_neg Bool.false_ne_true, callbacks_eq_replicate hfirst]
      obtain ⟨id, notice⟩ := call
      cases notice with
      | next v =>
          have hcopies : copies streams ((some (id, v)).toList ++ delivered
              (past ++ [(id, .next v)]) []) =
                List.replicate (streams.count id) v := by
            simp [copies, delivered]
          rw [countP_concat_of_silent streams rfl]
          by_cases hmem : id ∈ streams
          · have hnexts := hmoved.nexts (countP_ne_length hended hmem)
              (streams.count id) v
            rw [← hcopies] at hnexts
            exact hnexts
          · rw [List.count_eq_zero_of_not_mem hmem] at hcopies ⊢
            have hsame := hmoved
            rw [← List.append_nil values, ← List.replicate_zero (a := v),
              ← hcopies] at hsame
            exact hsame
      | error cause => exact absurd rfl (hquiet cause)
      | complete =>
          have hle : streams.countP (hasCompleted past) + streams.count id ≤
              streams.length := by
            rw [← countP_concat_of_completes streams hended]
            exact List.countP_le_length
          have hcompletes := hmoved.completes (streams.count id) hle
          rw [← countP_concat_of_completes streams hended,
            ← List.append_nil values] at hcompletes
          exact hcompletes

theorem Holds.foldl
    (hholds : Holds (merged before streams past) streams.length
      (streams.countP (hasCompleted past)) values merger)
    (hpast : ∀ id, hasCompleted before id = true → hasCompleted past id = true)
    (hquiet : Quiet after) :
    Holds (merged before streams (past ++ after)) streams.length
      (streams.countP (hasCompleted (past ++ after)))
      (values ++ copies streams (delivered past after))
      (after.foldl Merger.notify merger) := by
  induction after generalizing past values merger with
  | nil => simpa [delivered, copies] using hholds
  | cons call rest ih =>
      obtain ⟨hcall, hrest⟩ := hquiet.of_cons
      have hlast := ih (hholds.notify hpast hcall)
        (fun id hended => hasCompleted_concat_of_hasCompleted (hpast id hended))
        hrest
      rw [List.append_assoc, List.append_assoc, List.singleton_append, copies,
        copies, ← List.flatMap_append, ← delivered_cons] at hlast
      exact hlast

theorem mergeLaw (hquiet : Quiet (before ++ after)) (streams : List ℕ) :
    MergeLaw before streams after := by
  have hcompletion : completion (E := E) streams (before ++ after) =
      if streams.countP (hasCompleted (before ++ after)) = streams.length then
        some .complete else none :=
    if_congr List.countP_eq_length.symm rfl rfl
  have hmerged := holds_merge before streams
  rw [← Sources.after_eq_having hquiet.of_append.1] at hmerged
  have hrun := hmerged.foldl (fun _ hended => hended) hquiet.of_append.2
  rw [MergeLaw, run, hrun.out.seen, hcompletion, List.nil_append, copies,
    List.map_flatMap]
  simp only [List.map_replicate]

end Merger

/-! ## The zipped stream -/

theorem tryEmitZip_after (pairs : List (V × V)) (bufA bufB : List V) :
    tryEmitZip (.after (E := E) pairs none) bufA bufB =
      (.after (pairs ++ bufA.zip bufB) none, bufA.drop bufB.length,
        bufB.drop bufA.length) := by
  induction bufA generalizing pairs bufB with
  | nil => simp [tryEmitZip]
  | cons a bufA ih =>
      cases bufB with
      | nil => simp [tryEmitZip]
      | cons b bufB =>
          rw [tryEmitZip, Outlet.notify_next, ih]
          simp

/-- What is left of two lists that are zipped can be zipped later. -/
theorem zip_append_zip_drop (xs ys us ws : List V) :
    xs.zip ys ++ (xs.drop ys.length ++ us).zip (ys.drop xs.length ++ ws) =
      (xs ++ us).zip (ys ++ ws) := by
  induction xs generalizing ys with
  | nil => simp
  | cons x xs ih =>
      cases ys with
      | nil => simp
      | cons y ys => simpa using ih ys

theorem drop_append_drop (xs ys us ws : List V) :
    (xs.drop ys.length ++ us).drop (ys.drop xs.length ++ ws).length =
      (xs ++ us).drop (ys ++ ws).length := by
  induction xs generalizing ys with
  | nil => simp
  | cons x xs ih =>
      cases ys with
      | nil => simp
      | cons y ys => simpa using ih ys

namespace Zipper

variable {zipper : Zipper V E} {sources : Sources E Side}

/-- The streams, the buffers and the stream that is returned when the sources
have emitted these values. -/
def zipped (sources : Sources E Side) (valuesA valuesB : List V) :
    Zipper V E where
  sources := sources
  bufA := valuesA.drop valuesB.length
  bufB := valuesB.drop valuesA.length
  out := .after (valuesA.zip valuesB) none

theorem observe_next (sources : Sources E Side) (valuesA valuesB : List V)
    (side : Side) (v : V) :
    (zipped sources valuesA valuesB).observe side (.next v) =
      zipped sources (valuesA ++ if side = .a then [v] else [])
        (valuesB ++ if side = .b then [v] else []) := by
  have hzip := zip_append_zip_drop valuesA valuesB
  have hdropA := drop_append_drop valuesA valuesB
  have hdropB := drop_append_drop valuesB valuesA
  cases side with
  | a =>
      have hz := hzip [v] []
      have hA := hdropA [v] []
      have hB := hdropB [] [v]
      rw [List.append_nil, List.append_nil] at hz hA hB
      simp only [observe, emitZip, zipped, tryEmitZip_after, hz, hA, hB]
      simp
  | b =>
      have hz := hzip [] [v]
      have hA := hdropA [] [v]
      have hB := hdropB [v] []
      rw [List.append_nil, List.append_nil] at hz hA hB
      simp only [observe, emitZip, zipped, tryEmitZip_after, hz, hA, hB]
      simp

theorem foldl_observe_next (sources : Sources E Side)
    (valuesA valuesB : List V) (sides : List Side) (v : V) :
    sides.foldl (fun zipper side => zipper.observe side (.next v))
        (zipped sources valuesA valuesB) =
      zipped sources (valuesA ++ List.replicate (sides.count .a) v)
        (valuesB ++ List.replicate (sides.count .b) v) := by
  induction sides generalizing valuesA valuesB with
  | nil => simp
  | cons side rest ih =>
      rw [List.foldl_cons, observe_next, ih]
      cases side with
      | a => simp [List.replicate_succ]
      | b => simp [List.replicate_succ]

/-- The streams between the calls. -/
def zippedSources (before : List (ℕ × Notice V E)) (a b : ℕ)
    (past : List (ℕ × Notice V E)) : Sources E Side :=
  .having (Sources.subscribers before [(a, observer .a), (b, observer .b)])
    past

theorem zip_having (before : List (ℕ × Notice V E)) (a b : ℕ) :
    zip (.having (fun _ => []) before) a b =
      zipped (V := V) (zippedSources before a b before) [] [] := by
  have hfirst := Sources.subscribe_having before [] a (observer .a)
  have hsecond := Sources.subscribe_having before [(a, observer .a)] b
    (observer .b)
  have hnone : (none : Option Side).map (fun callback =>
      (callback, (.complete : Notice V E))) = none := rfl
  simp only [observer, hnone, ite_self, List.nil_append,
    List.singleton_append, Sources.subscribers_nil] at hfirst hsecond
  simp only [zip, subscribe, observer, hfirst, hsecond]
  rfl

theorem count_callbacks (hopen : hasCompleted before id = false) (a b : ℕ)
    (v : V) :
    let sides := (Sources.subscribers before
      [(a, observer .a), (b, observer .b)] id).filterMap
        fun observer => observer.callback (.next (E := E) v)
    List.replicate (sides.count .a) v = valuesOf a [(id, v)] ∧
      List.replicate (sides.count .b) v = valuesOf b [(id, v)] := by
  have hnot : ¬ hasCompleted before id = true := by
    rw [hopen]
    exact Bool.false_ne_true
  rw [Sources.subscribers, if_neg hnot]
  by_cases ha : a = id
  · by_cases hb : b = id
    · simp [ha, hb, observer, Observer.callback, valuesOf]
    · simp [ha, hb, Ne.symm hb, observer, Observer.callback, valuesOf]
  · by_cases hb : b = id
    · simp [ha, hb, Ne.symm ha, observer, Observer.callback, valuesOf]
    · simp [ha, hb, Ne.symm ha, Ne.symm hb, observer, Observer.callback,
        valuesOf]

theorem silent_callbacks (hopen : hasCompleted before id = false) (a b : ℕ) :
    (Sources.subscribers before [(a, observer .a), (b, observer .b)]
      id).filterMap (fun observer =>
        observer.callback (.complete : Notice V E)) = [] := by
  have hnot : ¬ hasCompleted before id = true := by
    rw [hopen]
    exact Bool.false_ne_true
  rw [Sources.subscribers, if_neg hnot, List.filterMap_filterMap]
  apply List.filterMap_eq_nil_iff.mpr
  intro subscription hmem
  have hnone : subscription.2.complete = none := by
    simp only [List.mem_cons, List.not_mem_nil, or_false] at hmem
    obtain rfl | rfl := hmem
    · rfl
    · rfl
  by_cases hown : subscription.1 = id
  · simpa [hown, Observer.callback] using hnone
  · simp [hown]

theorem notify_zipped
    (hpast : ∀ id, hasCompleted before id = true → hasCompleted past id = true)
    (hquiet : ∀ cause, call.2 ≠ .error cause) (a b : ℕ)
    (valuesA valuesB : List V) :
    (zipped (zippedSources before a b past) valuesA valuesB).notify call =
      zipped (zippedSources before a b (past ++ [call]))
        (valuesA ++ valuesOf a (delivered past [call]))
        (valuesB ++ valuesOf b (delivered past [call])) := by
  have hnotified := Sources.notify_having
    (Sources.subscribers before [(a, observer .a), (b, observer .b)]) past
    hquiet
  rw [← zippedSources, ← zippedSources] at hnotified
  rw [notify, zipped, hnotified]
  dsimp only
  cases hended : hasCompleted past call.1 with
  | true =>
      rw [delivered, hended, if_pos rfl, if_pos rfl, delivered]
      simp [valuesOf, zipped]
  | false =>
      have hfirst := hasCompleted_eq_false_of_imp (hpast call.1) hended
      rw [delivered, hended, if_neg Bool.false_ne_true,
        if_neg Bool.false_ne_true, delivered, List.append_nil]
      obtain ⟨id, notice⟩ := call
      cases notice with
      | next v =>
          obtain ⟨hcountA, hcountB⟩ := count_callbacks (E := E) hfirst a b v
          have hfold := foldl_observe_next
            (zippedSources before a b (past ++ [(id, .next v)])) valuesA
            valuesB
            ((Sources.subscribers before
              [(a, observer .a), (b, observer .b)] id).filterMap
                fun observer => observer.callback (.next (E := E) v)) v
          rw [hcountA, hcountB] at hfold
          exact hfold
      | error cause => exact absurd rfl (hquiet cause)
      | complete =>
          have hsilent := silent_callbacks (V := V) (E := E) hfirst a b
          simp [hsilent, valuesOf, Notice.value, zipped]

theorem zip_foldl
    (hpast : ∀ id, hasCompleted before id = true → hasCompleted past id = true)
    (hquiet : Quiet after) (a b : ℕ) (valuesA valuesB : List V) :
    after.foldl notify
        (zipped (zippedSources before a b past) valuesA valuesB) =
      zipped (zippedSources before a b (past ++ after))
        (valuesA ++ valuesOf a (delivered past after))
        (valuesB ++ valuesOf b (delivered past after)) := by
  induction after generalizing past valuesA valuesB with
  | nil => simp [delivered, valuesOf]
  | cons call rest ih =>
      obtain ⟨hcall, hrest⟩ := hquiet.of_cons
      have hmono : ∀ id, hasCompleted before id = true →
          hasCompleted (past ++ [call]) id = true :=
        fun id hended => hasCompleted_concat_of_hasCompleted (hpast id hended)
      rw [List.foldl_cons, notify_zipped hpast hcall, ih hmono hrest,
        List.append_assoc, List.append_assoc, List.append_assoc,
        List.singleton_append, valuesOf, valuesOf, valuesOf, valuesOf,
        ← List.filterMap_append, ← List.filterMap_append,
        ← delivered_cons past call rest]
      rfl

theorem zipLaw (hquiet : Quiet (before ++ after)) (a b : ℕ) :
    ZipLaw before a b after := by
  have hrun : run before a b after =
      zipped (zippedSources before a b (before ++ after))
        (valuesOf a (delivered before after))
        (valuesOf b (delivered before after)) := by
    rw [run, Sources.after_eq_having hquiet.of_append.1, zip_having,
      zip_foldl (fun _ hended => hended) hquiet.of_append.2,
      List.nil_append, List.nil_append]
  refine ⟨?_, ?_⟩
  · rw [hrun, zipped, Outlet.after, closing]
    exact List.append_nil _
  · rw [hrun, zipped]
    rcases Nat.le_total (valuesOf a (delivered before after)).length
      (valuesOf b (delivered before after)).length with hle | hle
    · exact Or.inl (List.drop_eq_nil_of_le hle)
    · exact Or.inr (List.drop_eq_nil_of_le hle)

end Zipper

/-! ## Both -/

/-- Whatever the streams have done before, and as long as none errors: a zipped
stream emits the pairs, and a merged stream emits each value as often as its
source is in the list, and completes with the last of the sources. -/
theorem streamMerger_law (hquiet : Quiet (before ++ after)) :
    (∀ a b, ZipLaw before a b after) ∧
      ∀ streams, MergeLaw before streams after :=
  ⟨Zipper.zipLaw hquiet, Merger.mergeLaw hquiet⟩

/-- A stream completes before. -/
def earlierCalls : List (ℕ × Notice ℕ Unit) := [(1, .complete)]

def laterCalls : List (ℕ × Notice ℕ Unit) :=
  [(0, .next 7), (2, .next 8), (0, .complete), (2, .next 9)]

theorem streamMerger_law_samples :
    (∀ a b, ZipLaw earlierCalls a b laterCalls) ∧
      (∀ streams, MergeLaw earlierCalls streams laterCalls) ∧
      (Zipper.run earlierCalls 0 2 laterCalls).out.seen = [.next (7, 8)] ∧
      (Merger.run earlierCalls [0, 1, 0] laterCalls).out.seen =
        [.next 7, .next 7, .complete] := by
  have hquiet : Quiet (earlierCalls ++ laterCalls) := by
    intro call hmem cause
    simp only [earlierCalls, laterCalls, List.cons_append, List.nil_append,
      List.mem_cons, List.not_mem_nil, or_false] at hmem
    obtain rfl | rfl | rfl | rfl | rfl := hmem <;> nofun
  obtain ⟨hzip, hmerge⟩ := streamMerger_law hquiet
  exact ⟨hzip, hmerge, by decide, by decide⟩

def singleCall : List (ℕ × Notice ℕ Unit) := [(0, .next 1)]

/-- A value of a source that is twice in the list is emitted twice. -/
theorem not_mergesOnce_of_twice :
    Quiet singleCall ∧ ¬ MergesOnce [] [0, 0] singleCall := by
  constructor
  · intro call hmem cause
    rw [List.mem_singleton.mp hmem]
    exact nofun
  · unfold MergesOnce
    decide

end TsCommons.Streams
