import TsCommons.Streams.WindowStrategy

/-!
# Sliding windows

A sliding window is emitted when the number of values is a multiple of the
step, so that it ends there.  It starts at a multiple of the step, as the
first one does at the first value, if the step divides the size.
-/

namespace TsCommons.Streams

variable {T E : Type}

structure Sliding (T E : Type) where
  source : EventStream E Unit
  size : ℕ
  step : ℕ
  ring : List T
  count : ℕ
  ringOpenedAt : List ℚ
  out : Outlet (StreamWindow T) E

namespace Sliding

def start (size step : ℕ) : Sliding T E :=
  ⟨EventStream.subscribed.1, size, step, [], 0, [], .attach .new⟩

/-- The value is pushed, and the oldest one shifted if there are too many. -/
def push (state : Sliding T E) (v : T) (now : ℚ) : Sliding T E :=
  let ring := state.ring ++ [v]
  let ringOpenedAt := state.ringOpenedAt ++ [now]
  if state.size < ring.length then
    { state with ring := ring.tail, ringOpenedAt := ringOpenedAt.tail }
  else { state with ring := ring, ringOpenedAt := ringOpenedAt }

def observe (state : Sliding T E) (now : ℚ) : Notice T E → Sliding T E
  | .next v =>
      let pushed := state.push v now
      let counted := { pushed with count := state.count + 1 }
      if counted.count % state.step = 0 && counted.ring.length = state.size then
        { counted with
          out := state.out.notify
            (.next ⟨counted.ring, counted.ringOpenedAt.head?.getD now, now⟩) }
      else counted
  | .error e => { state with out := state.out.notify (.error e) }
  | .complete => { state with out := state.out.notify .complete }

def notify (state : Sliding T E) (call : Notice T E × ℚ) : Sliding T E :=
  match state.source.call call.1 with
  | (called, false) => { state with source := called }
  | (called, true) => { state with source := called }.observe call.2 call.1

/-- Values are emitted, each at its time. -/
def run (size step : ℕ) (emits : List (T × ℚ)) : Sliding T E :=
  emits.foldl (fun state emit => state.notify (.next emit.1, emit.2))
    (start size step)

end Sliding

def windowAt (size : ℕ) (values : List T) (offset : ℕ) : List T :=
  (values.drop offset).take size

/-- The offsets 0, `step`, 2 · `step` and so on at which a window fits into so
many values. -/
def offsets (size step length : ℕ) : List ℕ :=
  (List.range (length + 1 - size)).filter fun offset => step ∣ offset

/-- The windows are those at the offsets, and no value before the end of one
of them is left out. -/
structure SlidingLaw (E : Type) (size step : ℕ) (emits : List (T × ℚ)) :
    Prop where
  windows_eq :
    (Sliding.run size step emits : Sliding T E).out.values.map
        StreamWindow.values =
      (offsets size step emits.length).map
        (windowAt size (emits.map Prod.fst))
  covered : ∀ offset ∈ offsets size step emits.length,
    ∀ index < offset + size, ∀ v ∈ (emits.map Prod.fst)[index]?,
      ∃ window ∈ (Sliding.run size step emits : Sliding T E).out.values,
        v ∈ window.values

/-- Every value with its number, by which the offset of a window can be
told. -/
def tagged (emits : List (T × ℚ)) : List ((T × ℕ) × ℚ) :=
  emits.zipIdx.map fun entry => ((entry.1.1, entry.2), entry.1.2)

/-! ## The ring -/

/-- The offsets of the windows that end at a multiple of the step. -/
def emittedOffsets (size step length : ℕ) : List ℕ :=
  (List.range (length + 1 - size)).filter fun offset => step ∣ offset + size

structure Sliding.Invariant (size step : ℕ) (values : List T)
    (state : Sliding T E) (windows : List (StreamWindow T)) : Prop where
  source_eq : state.source = EventStream.subscribed.1
  size_eq : state.size = size
  step_eq : state.step = step
  ring_eq : state.ring = values.drop (values.length - size)
  count_eq : state.count = values.length
  out_eq : state.out = .after windows none
  windows_eq : windows.map StreamWindow.values =
    (emittedOffsets size step values.length).map (windowAt size values)

variable {size step length offset : ℕ} {values : List T} {v : T}

theorem mem_emittedOffsets :
    offset ∈ emittedOffsets size step length ↔
      offset < length + 1 - size ∧ step ∣ offset + size := by
  rw [emittedOffsets, List.mem_filter, List.mem_range, decide_eq_true_iff]

theorem mem_offsets :
    offset ∈ offsets size step length ↔
      offset < length + 1 - size ∧ step ∣ offset := by
  rw [offsets, List.mem_filter, List.mem_range, decide_eq_true_iff]

theorem windowAt_concat (hfits : offset < values.length + 1 - size) :
    windowAt size (values ++ [v]) offset = windowAt size values offset := by
  rw [windowAt, windowAt, List.drop_append_of_le_length (by omega),
    List.take_append_of_le_length (by rw [List.length_drop]; omega)]

theorem emittedOffsets_succ_of_fits (hfits : size ≤ length + 1) :
    emittedOffsets size step (length + 1) =
      emittedOffsets size step length ++
        if step ∣ length + 1 then [length + 1 - size] else [] := by
  have hrange : length + 1 + 1 - size = length + 1 - size + 1 := by omega
  have hend : length + 1 - size + size = length + 1 := by omega
  rw [emittedOffsets, hrange, List.range_succ, List.filter_append,
    List.filter_singleton, hend]
  by_cases hstep : step ∣ length + 1
  · rw [decide_eq_true hstep, if_pos hstep]
    rfl
  · rw [decide_eq_false hstep, if_neg hstep]
    rfl

theorem emittedOffsets_of_lt (hlt : length < size) :
    emittedOffsets size step length = [] := by
  rw [emittedOffsets, Nat.sub_eq_zero_of_le hlt]
  rfl

theorem map_windowAt_concat :
    (emittedOffsets size step values.length).map
        (windowAt size (values ++ [v])) =
      (emittedOffsets size step values.length).map (windowAt size values) := by
  apply List.map_congr_left
  intro offset hoffset
  exact windowAt_concat (mem_emittedOffsets.mp hoffset).1

theorem windowAt_last :
    windowAt size values (values.length - size) =
      values.drop (values.length - size) := by
  rw [windowAt]
  exact List.take_of_length_le (by rw [List.length_drop]; omega)

section Ring

variable {state : Sliding T E} {windows : List (StreamWindow T)} {now : ℚ}

/-- The ring holds the last values, as many as a window has. -/
theorem ring_push (hsize : state.size = size)
    (hring : state.ring = values.drop (values.length - size)) :
    (state.push v now).ring =
      (values ++ [v]).drop ((values ++ [v]).length - size) := by
  have hlength : state.ring.length = min values.length size := by
    rw [hring, List.length_drop]
    omega
  have hpush : state.ring ++ [v] =
      (values ++ [v]).drop (values.length - size) := by
    rw [hring, List.drop_append_of_le_length (by omega)]
  rw [Sliding.push, hsize, List.length_append, hlength, hpush,
    List.length_append, List.length_singleton]
  split
  · have hnext : values.length + 1 - size = values.length - size + 1 := by
      omega
    rw [List.tail_drop, hnext]
  · have hall : values.length - size = values.length + 1 - size := by omega
    rw [hall]

/-- A push changes nothing but the ring. -/
theorem push_frame (state : Sliding T E) (v : T) (now : ℚ) :
    (state.push v now).source = state.source ∧
      (state.push v now).size = state.size ∧
      (state.push v now).step = state.step ∧
      (state.push v now).out = state.out := by
  rw [Sliding.push]
  split
  · exact ⟨rfl, rfl, rfl, rfl⟩
  · exact ⟨rfl, rfl, rfl, rfl⟩

theorem emits_iff (hinv : Sliding.Invariant size step values state windows) :
    ((state.count + 1) % state.step = 0 &&
        (state.push v now).ring.length = state.size : Bool) = true ↔
      size ≤ values.length + 1 ∧ step ∣ values.length + 1 := by
  rw [ring_push hinv.size_eq hinv.ring_eq, hinv.size_eq, hinv.step_eq,
    hinv.count_eq, Bool.and_eq_true, decide_eq_true_iff, decide_eq_true_iff,
    ← Nat.dvd_iff_mod_eq_zero, List.length_drop, List.length_append,
    List.length_singleton, and_comm]
  exact and_congr_left fun _ => by omega

theorem Sliding.Invariant.call
    (hinv : Sliding.Invariant size step values state windows) (v : T)
    (now : ℚ) :
    ∃ later, Sliding.Invariant size step (values ++ [v])
      (state.notify (.next v, now)) later := by
  obtain ⟨hsource, hsize, hstep, hout⟩ := push_frame state v now
  have hring : (state.push v now).ring = (values ++ [v]).drop
      ((values ++ [v]).length - size) := ring_push hinv.size_eq hinv.ring_eq
  have hlength : (values ++ [v]).length = values.length + 1 := by
    rw [List.length_append, List.length_singleton]
  have hcount : state.count + 1 = (values ++ [v]).length := by
    rw [hinv.count_eq, hlength]
  have hnotify : state.notify (.next v, now) = state.observe now (.next v) := by
    rw [Sliding.notify, hinv.source_eq, call_next, ← hinv.source_eq]
  rw [hnotify, Sliding.observe]
  have hseen : ∀ window, state.out.notify (.next window) =
      .after (windows ++ [window]) none := by
    intro window
    rw [hinv.out_eq, Outlet.notify_next]
  by_cases hemits : size ≤ values.length + 1 ∧ step ∣ values.length + 1
  · rw [if_pos ((emits_iff hinv).mpr hemits)]
    refine ⟨_, hsource.trans hinv.source_eq, hsize.trans hinv.size_eq,
      hstep.trans hinv.step_eq, hring, hcount, hseen _, ?_⟩
    · rw [hlength, emittedOffsets_succ_of_fits hemits.1, if_pos hemits.2,
        List.map_append, List.map_append, map_windowAt_concat,
        hinv.windows_eq, List.map_singleton, List.map_singleton, ← hlength,
        windowAt_last, ← hring]
  · rw [if_neg fun htrue => hemits ((emits_iff hinv).mp htrue)]
    refine ⟨windows, hsource.trans hinv.source_eq, hsize.trans hinv.size_eq,
      hstep.trans hinv.step_eq, hring, hcount, hout.trans hinv.out_eq, ?_⟩
    have hsame : emittedOffsets size step (values.length + 1) =
        emittedOffsets size step values.length := by
      by_cases hfits : size ≤ values.length + 1
      · rw [emittedOffsets_succ_of_fits hfits,
          if_neg fun hdvd => hemits ⟨hfits, hdvd⟩, List.append_nil]
      · rw [emittedOffsets_of_lt (by omega), emittedOffsets_of_lt (by omega)]
    rw [hlength, hsame, map_windowAt_concat, hinv.windows_eq]

end Ring

/-! ## Runs -/

theorem Sliding.exists_invariant (hsize : 0 < size) (step : ℕ)
    (emits : List (T × ℚ)) :
    ∃ windows, Sliding.Invariant size step (emits.map Prod.fst)
      (Sliding.run size step emits : Sliding T E) windows := by
  induction emits using List.reverseRecOn with
  | nil =>
      refine ⟨[], rfl, rfl, rfl, List.drop_nil.symm, rfl, rfl, ?_⟩
      exact (congrArg (List.map _) (emittedOffsets_of_lt hsize)).symm
  | append_singleton emits emit ih =>
      obtain ⟨windows, hinv⟩ := ih
      rw [Sliding.run, List.foldl_concat, List.map_append]
      exact hinv.call emit.1 emit.2

/-- The windows of a run are those that end at a multiple of the step. -/
theorem values_run_sliding (hsize : 0 < size) (step : ℕ)
    (emits : List (T × ℚ)) :
    (Sliding.run size step emits : Sliding T E).out.values.map
        StreamWindow.values =
      (emittedOffsets size step emits.length).map
        (windowAt size (emits.map Prod.fst)) := by
  obtain ⟨windows, hinv⟩ := Sliding.exists_invariant (E := E) hsize step emits
  rw [hinv.out_eq, Outlet.values_after, hinv.windows_eq, List.length_map]

theorem offsets_eq_of_dvd (hdvd : step ∣ size) :
    offsets size step length = emittedOffsets size step length := by
  apply List.filter_congr
  intro offset _
  exact decide_eq_decide.mpr (Nat.dvd_add_left hdvd).symm

theorem mem_windowAt {index : ℕ} (hstart : offset ≤ index)
    (hend : index < offset + size) (hv : values[index]? = some v) :
    v ∈ windowAt size values offset := by
  apply List.mem_of_getElem? (i := index - offset)
  rw [windowAt, List.getElem?_take_of_lt (by omega), List.getElem?_drop,
    Nat.add_sub_cancel' hstart]
  exact hv

/-- A window of a step of at most its size goes back to every value before its
end. -/
theorem exists_offset {index : ℕ} (hstep : 1 ≤ step) (hle : step ≤ size)
    (hoffset : offset ∈ offsets size step length)
    (hindex : index < offset + size) :
    ∃ start ∈ offsets size step length,
      start ≤ index ∧ index < start + size := by
  obtain ⟨hfits, hdvd⟩ := mem_offsets.mp hoffset
  have hdown : index / step * step ≤ index := Nat.div_mul_le_self index step
  have hup : index < index / step * step + step :=
    Nat.lt_div_mul_add hstep
  by_cases hbefore : index / step * step ≤ offset
  · refine ⟨index / step * step, mem_offsets.mpr ⟨by omega, ?_⟩, hdown,
      by omega⟩
    exact Nat.dvd_mul_left step (index / step)
  · exact ⟨offset, hoffset, by omega, hindex⟩

theorem slidingLaw_of_dvd (hstep : 1 ≤ step) (hle : step ≤ size)
    (hdvd : step ∣ size) (emits : List (T × ℚ)) :
    SlidingLaw E size step emits := by
  have hwindows := values_run_sliding (E := E) (hstep.trans hle) step emits
  rw [← offsets_eq_of_dvd hdvd] at hwindows
  refine ⟨hwindows, ?_⟩
  intro offset hoffset index hindex v hv
  obtain ⟨start, hmem, hstart, hend⟩ :=
    exists_offset hstep hle hoffset hindex
  have hwindow : windowAt size (emits.map Prod.fst) start ∈
      (Sliding.run size step emits : Sliding T E).out.values.map
        StreamWindow.values := by
    rw [hwindows]
    exact List.mem_map_of_mem hmem
  obtain ⟨window, hmemWindow, hvalues⟩ := List.mem_map.mp hwindow
  refine ⟨window, hmemWindow, ?_⟩
  rw [hvalues]
  exact mem_windowAt hstart hend hv

theorem getElem?_tagged (emits : List (T × ℚ)) (index : ℕ) :
    ((tagged emits).map Prod.fst)[index]? =
      emits[index]?.map fun emit => (emit.1, index) := by
  rw [tagged, List.map_map, List.getElem?_map, List.getElem?_zipIdx,
    Option.map_map, Nat.zero_add]
  rfl

theorem le_of_mem_windowAt_tagged {emits : List (T × ℚ)} {value : T × ℕ}
    (hvalue : value ∈ windowAt size ((tagged emits).map Prod.fst) offset) :
    offset ≤ value.2 := by
  have hdrop := List.mem_of_mem_take hvalue
  obtain ⟨index, hindex⟩ := List.mem_iff_getElem?.mp hdrop
  rw [List.getElem?_drop, getElem?_tagged] at hindex
  obtain ⟨emit, -, rfl⟩ := Option.map_eq_some_iff.mp hindex
  exact Nat.le_add_right offset index

/-- If the step does not divide the size, no window starts at the first
value. -/
theorem dvd_of_slidingLaw (hsize : 0 < size) {emits : List (T × ℚ)}
    (hlength : size ≤ emits.length)
    (hlaw : SlidingLaw E size step (tagged emits)) : step ∣ size := by
  have htagged : (tagged emits).length = emits.length := by
    rw [tagged, List.length_map, List.length_zipIdx]
  have hfirst : 0 ∈ offsets size step (tagged emits).length :=
    mem_offsets.mpr ⟨by omega, Nat.dvd_zero step⟩
  have hwindow : windowAt size ((tagged emits).map Prod.fst) 0 ∈
      (emittedOffsets size step (tagged emits).length).map
        (windowAt size ((tagged emits).map Prod.fst)) := by
    rw [← values_run_sliding (E := E) hsize, hlaw.windows_eq]
    exact List.mem_map_of_mem hfirst
  obtain ⟨offset, hoffset, hsame⟩ := List.mem_map.mp hwindow
  have hvalue : (emits[0].1, 0) ∈
      windowAt size ((tagged emits).map Prod.fst) offset := by
    rw [hsame]
    apply mem_windowAt (Nat.le_refl 0) (by omega)
    rw [getElem?_tagged, List.getElem?_eq_getElem]
    rfl
  have hzero : offset = 0 :=
    Nat.le_zero.mp (le_of_mem_windowAt_tagged hvalue)
  have hdvd := (mem_emittedOffsets.mp hoffset).2
  rw [hzero, Nat.zero_add] at hdvd
  exact hdvd

/-- The windows are at the multiples of the step if and only if the step
divides the size. -/
theorem slidingLaw_iff_dvd (hstep : 1 ≤ step) (hle : step ≤ size)
    {emits : List (T × ℚ)} (hlength : size ≤ emits.length) :
    SlidingLaw E size step (tagged emits) ↔ step ∣ size :=
  ⟨dvd_of_slidingLaw (hstep.trans hle) hlength,
    fun hdvd => slidingLaw_of_dvd hstep hle hdvd (tagged emits)⟩

theorem slidingLaw_iff_dvd_samples :
    SlidingLaw ℕ 4 2 (tagged [(7, 0), (7, 1), (8, 1), (7, 2), (9, 3)]) ∧
      ¬ SlidingLaw ℕ 3 2
        (tagged [(7, 0), (7, 1), (8, 1), (7, 2), (9, 3)]) := by
  constructor
  · exact (slidingLaw_iff_dvd (by decide) (by decide) (by decide)).mpr
      (by decide)
  · intro hlaw
    have hdvd : 2 ∣ 3 :=
      (slidingLaw_iff_dvd (by decide) (by decide) (by decide)).mp hlaw
    revert hdvd
    decide

/-- The first of the windows of three values, two apart, starts at the second
value. -/
theorem not_slidingLaw_example :
    ((Sliding.run 3 2 [(1, 0), (2, 0), (3, 0), (4, 0), (5, 0)] :
        Sliding ℕ ℕ).out.values.map StreamWindow.values = [[2, 3, 4]]) ∧
      ¬ SlidingLaw ℕ 3 2 [(1, 0), (2, 0), (3, 0), (4, 0), (5, 0)] := by
  constructor
  · decide +kernel
  · intro hlaw
    have hwindows := hlaw.windows_eq
    revert hwindows
    decide +kernel

end TsCommons.Streams
