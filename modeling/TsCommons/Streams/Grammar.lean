import TsCommons.Streams.EventStream

/-!
# The grammar of the notifications

A subscriber is to be told values, then at most one terminal notification and
nothing after it or after its `unsubscribe`.  The loop of `emit` does not see
that a callback has completed or errored the stream: it goes on to subscribers
that have been told so.
-/

namespace TsCommons.Streams

open Foundations

variable {V E : Type}

/-- Values, then at most one terminal notification. -/
inductive Grammar : List (Notice V E) → Prop
  | nil : Grammar []
  | terminal (notice : Notice V E) (hterminal : notice.isValue = false) :
      Grammar [notice]
  | value (value : V) {rest : List (Notice V E)} (hrest : Grammar rest) :
      Grammar (.next value :: rest)

def Event.noticeTo (number : ℕ) : Event V E → Option (Notice V E)
  | .told recipient notice =>
      if recipient = number then some notice else none
  | .left _ => none

/-- What a subscriber has been told, in order. -/
def seen (number : ℕ) (log : List (Event V E)) : List (Notice V E) :=
  log.filterMap (Event.noticeTo number)

structure NotificationLaw (state : State V E) : Prop where
  grammar : ∀ number, Grammar (seen number state.log)
  silent : state.log.Pairwise fun earlier later =>
    ∀ number, earlier = .left number → ∀ notice, later ≠ .told number notice

def Event.finishes : Event V E → Option ℕ
  | .told number notice => if notice.isValue then none else some number
  | .left _ => none

/-- The subscribers that have been told a terminal notification. -/
def finished (log : List (Event V E)) : List ℕ :=
  log.filterMap Event.finishes

/-- A loop of `emit` does not come to a subscriber that a loop of `error` or
`complete` has called. -/
def KeepsSilence (state : State V E) : Label V E → Prop
  | .proceed =>
      match state.active with
      | .loop (.next _) cursor :: _ =>
          ∀ visited ∈ state.stream.subscribers.next cursor,
            visited.1.2.next ∉ finished state.log
      | _ => True
  | _ => True

instance (state : State V E) (label : Label V E) :
    Decidable (KeepsSilence state label) :=
  match label with
  | .proceed =>
      match hactive : state.active with
      | .loop (.next _) cursor :: _ =>
          decidable_of_iff
            (∀ visited ∈ state.stream.subscribers.next cursor,
              visited.1.2.next ∉ finished state.log)
            (by simp only [KeepsSilence, hactive])
      | .loop (.error _) _ :: _ => .isTrue (by simp [KeepsSilence, hactive])
      | .loop .complete _ :: _ => .isTrue (by simp [KeepsSilence, hactive])
      | .immediate :: _ => .isTrue (by simp [KeepsSilence, hactive])
      | [] => .isTrue (by simp [KeepsSilence, hactive])
  | .subscribe _ _ => inferInstanceAs (Decidable True)
  | .unsubscribe _ => inferInstanceAs (Decidable True)
  | .notify _ => inferInstanceAs (Decidable True)
  | .returns => inferInstanceAs (Decidable True)
  | .throws => inferInstanceAs (Decidable True)

variable {state next : State V E} {log : List (Event V E)}
  {notices : List (Notice V E)} {notice : Notice V E} {number : ℕ}

/-! ## The grammar -/

theorem Grammar.concat_iff :
    Grammar (notices ++ [notice]) ↔ ∀ old ∈ notices, old.isValue = true := by
  induction notices with
  | nil =>
      refine iff_of_true ?_ (List.forall_mem_nil _)
      cases notice with
      | next value => exact .value value .nil
      | error error => exact .terminal _ rfl
      | complete => exact .terminal _ rfl
  | cons first rest ih =>
      rw [List.cons_append, List.forall_mem_cons, ← ih]
      constructor
      · intro hgrammar
        generalize htail : rest ++ [notice] = tail at hgrammar
        cases hgrammar with
        | terminal notice hterminal => simp at htail
        | value value hrest => exact ⟨rfl, hrest⟩
      · rintro ⟨hvalue, hrest⟩
        cases first with
        | next value => exact .value value hrest
        | error error => cases hvalue
        | complete => cases hvalue

theorem seen_told (recipient : ℕ) :
    seen number (log ++ [.told recipient notice]) =
      seen number log ++ if recipient = number then [notice] else [] := by
  rw [seen, List.filterMap_append, seen]
  congr 1
  by_cases heq : recipient = number
  · simp [Event.noticeTo, heq]
  · simp [Event.noticeTo, heq]

theorem seen_left (leaver : ℕ) :
    seen number (log ++ [.left leaver]) = seen number log := by
  simp [seen, Event.noticeTo]

theorem mem_seen :
    notice ∈ seen number log ↔ .told number notice ∈ log := by
  simp only [seen, List.mem_filterMap]
  constructor
  · rintro ⟨event, hevent, hnotice⟩
    cases event with
    | told recipient told =>
        simp only [Event.noticeTo, Option.ite_none_right_eq_some,
          Option.some.injEq] at hnotice
        obtain ⟨rfl, rfl⟩ := hnotice
        exact hevent
    | left leaver => cases hnotice
  · intro hevent
    exact ⟨_, hevent, if_pos rfl⟩

theorem mem_finished :
    number ∈ finished log ↔
      ∃ notice, .told number notice ∈ log ∧ notice.isValue = false := by
  simp only [finished, List.mem_filterMap]
  constructor
  · rintro ⟨event, hevent, hnumber⟩
    cases event with
    | told recipient notice =>
        simp only [Event.finishes, Option.ite_none_left_eq_some,
          Option.some.injEq, Bool.not_eq_true] at hnumber
        obtain ⟨hterminal, rfl⟩ := hnumber
        exact ⟨notice, hevent, hterminal⟩
    | left leaver => cases hnumber
  · rintro ⟨notice, hevent, hterminal⟩
    exact ⟨_, hevent, by simp [Event.finishes, hterminal]⟩

theorem not_mem_finished_iff :
    number ∉ finished log ↔
      ∀ old ∈ seen number log, old.isValue = true := by
  rw [mem_finished]
  constructor
  · intro hnone old hold
    by_contra hterminal
    exact hnone ⟨old, mem_seen.mp hold, by simpa using hterminal⟩
  · rintro hall ⟨notice, hevent, hterminal⟩
    rw [hall notice (mem_seen.mpr hevent)] at hterminal
    cases hterminal

theorem finished_told (recipient : ℕ) :
    finished (log ++ [.told recipient notice]) =
      finished log ++ if notice.isValue then [] else [recipient] := by
  rw [finished, List.filterMap_append, finished]
  congr 1
  by_cases hvalue : notice.isValue
  · simp [Event.finishes, hvalue]
  · simp [Event.finishes, hvalue]

theorem finished_left (leaver : ℕ) :
    finished (log ++ [.left leaver]) = finished log := by
  simp [finished, Event.finishes]

/-! ## The invariant -/

/-- The cursor of a loop of `error` or `complete`. -/
def Frame.closing : Frame V E → Option ℕ
  | .loop notice cursor => if notice.isValue then none else some cursor
  | .immediate => none

/-- The cursors of the loops of `error` and `complete`. -/
def closings (active : List (Frame V E)) : List ℕ :=
  active.filterMap Frame.closing

/-- What the loops come to has not been told a terminal notification. -/
def Unfinished (state : State V E) (cursors : List ℕ) : Prop :=
  ∀ cursor ∈ cursors,
    ∀ entry ∈ state.stream.subscribers.remaining cursor,
      entry.2.next ∉ finished state.log

/-- The callbacks of an observer are those of the subscriber with its id. -/
structure Belongs (state : State V E) (id : ℕ) (subscriber : Observer ℕ) :
    Prop where
  id : state.subscriptions[subscriber.next]? = some (some id)
  callback : ∀ notice : Notice V E,
    ∀ number ∈ subscriber.callback notice, number = subscriber.next
  stays : .left subscriber.next ∉ state.log

def Event.subscriber : Event V E → ℕ
  | .told number _ => number
  | .left number => number

structure Invariant (state : State V E) : Prop extends
    NotificationLaw state where
  belongs : ∀ id subscriber,
    state.stream.subscribers.get id = some subscriber →
      Belongs state id subscriber
  known : ∀ event ∈ state.log, event.subscriber < state.subscriptions.length
  running : state.stream.completed = false → state.stream.hasError = false →
    closings state.active = [] ∧ finished state.log = []
  single : (closings state.active).length ≤ 1
  unfinished : Unfinished state (closings state.active)

theorem invariant_initial : Invariant (State.initial : State V E) where
  grammar _ := .nil
  silent := .nil
  belongs _ _ hget := by cases hget
  known _ hevent := by cases hevent
  running _ _ := ⟨rfl, rfl⟩
  single := Nat.zero_le _
  unfinished _ hcursor := by cases hcursor

/-- A subscriber that has not left may be told something as long as it has
only been told values. -/
theorem NotificationLaw.told (hlaw : NotificationLaw state)
    (hstays : .left number ∉ state.log)
    (hopen : number ∉ finished state.log) :
    NotificationLaw
      { state with log := state.log ++ [.told number notice] } := by
  refine ⟨fun recipient => ?_, ?_⟩
  · rw [seen_told]
    split
    · rename_i heq
      rw [← heq, Grammar.concat_iff]
      exact not_mem_finished_iff.mp hopen
    · rw [List.append_nil]
      exact hlaw.grammar recipient
  · refine List.pairwise_append.mpr
      ⟨hlaw.silent, List.pairwise_singleton _ _, ?_⟩
    rintro earlier hearlier later hlater leaver rfl other rfl
    cases List.mem_singleton.mp hlater
    exact hstays hearlier

theorem NotificationLaw.left (hlaw : NotificationLaw state) (leaver : ℕ) :
    NotificationLaw { state with log := state.log ++ [.left leaver] } := by
  refine ⟨fun recipient => ?_, ?_⟩
  · rw [seen_left]
    exact hlaw.grammar recipient
  · refine List.pairwise_append.mpr
      ⟨hlaw.silent, List.pairwise_singleton _ _, ?_⟩
    rintro earlier - later hlater number - notice rfl
    cases List.mem_singleton.mp hlater

theorem Invariant.lt_of_mem_finished (hinv : Invariant state)
    (hfinished : number ∈ finished state.log) :
    number < state.subscriptions.length := by
  obtain ⟨notice, hevent, -⟩ := mem_finished.mp hfinished
  exact hinv.known _ hevent

theorem Belongs.lt {id : ℕ} {subscriber : Observer ℕ}
    (hbelongs : Belongs state id subscriber) :
    subscriber.next < state.subscriptions.length :=
  (List.getElem?_eq_some_iff.mp hbelongs.id).1

/-! ## Subscriptions -/

theorem belongs_observer (error complete : Bool) (notice : Notice V E) :
    ∀ recipient ∈ (observer number error complete).callback notice,
      recipient = number := by
  cases notice <;> cases error <;> cases complete <;>
    simp [observer, Observer.callback]

theorem Belongs.push {id : ℕ} {subscriber : Observer ℕ}
    (hbelongs : Belongs state id subscriber) (added : Option ℕ)
    (stream : EventStream E ℕ) :
    Belongs { state with
      stream := stream
      subscriptions := state.subscriptions ++ [added] } id subscriber where
  id := by
    rw [List.getElem?_append_left hbelongs.lt]
    exact hbelongs.id
  callback := hbelongs.callback
  stays := hbelongs.stays

/-- A subscriber of a stream that runs gets a new id. -/
theorem Invariant.subscribe_running (hinv : Invariant state)
    (hcompleted : state.stream.completed = false)
    (herror : state.stream.hasError = false) (error complete : Bool) :
    Invariant { state with
      stream := { state.stream with
        subscribers := state.stream.subscribers.set state.stream.nextId
          (observer state.subscriptions.length error complete)
        nextId := state.stream.nextId + 1 }
      subscriptions :=
        state.subscriptions ++ [some state.stream.nextId] } := by
  obtain ⟨hnone, hfinished⟩ := hinv.running hcompleted herror
  refine ⟨⟨hinv.grammar, hinv.silent⟩, fun id subscriber hget => ?_,
    fun event hevent => ?_, hinv.running, hinv.single, ?_⟩
  · rw [MapData.get_set] at hget
    split at hget
    · rename_i heq
      cases hget
      refine ⟨by simp [observer, heq],
        belongs_observer error complete, fun hleft => ?_⟩
      exact Nat.lt_irrefl _ (hinv.known _ hleft)
    · exact (hinv.belongs id subscriber hget).push _ _
  · have hlt := hinv.known event hevent
    simp only [List.length_append, List.length_singleton]
    omega
  · rw [hnone]
    exact List.forall_mem_nil _

/-- A later subscriber is told at most that the stream has ended. -/
theorem Invariant.subscribe_ended (hinv : Invariant state) :
    Invariant { state with
      subscriptions := state.subscriptions ++ [none] } := by
  refine ⟨⟨hinv.grammar, hinv.silent⟩, fun id subscriber hget => ?_,
    fun event hevent => ?_, hinv.running, hinv.single, hinv.unfinished⟩
  · exact (hinv.belongs id subscriber hget).push none state.stream
  · have hlt := hinv.known event hevent
    simp only [List.length_append, List.length_singleton]
    omega

/-! ## Frames -/

theorem Invariant.frames (hinv : Invariant state)
    {active : List (Frame V E)}
    (hnone : closings state.active = [] → closings active = [])
    (hsingle : (closings active).length ≤ 1)
    (hunfinished : Unfinished state (closings active)) (looping : Bool) :
    Invariant { state with active := active, looping := looping } := by
  refine ⟨⟨hinv.grammar, hinv.silent⟩, fun id subscriber hget => ?_,
    hinv.known, fun hcompleted herror => ?_, hsingle, hunfinished⟩
  · have hbelongs := hinv.belongs id subscriber hget
    exact ⟨hbelongs.id, hbelongs.callback, hbelongs.stays⟩
  · obtain ⟨hbefore, hfinished⟩ := hinv.running hcompleted herror
    exact ⟨hnone hbefore, hfinished⟩

theorem Invariant.frames_of_eq (hinv : Invariant state)
    {active : List (Frame V E)}
    (hsame : closings active = closings state.active) (looping : Bool) :
    Invariant { state with active := active, looping := looping } :=
  hinv.frames hsame.trans (hsame ▸ hinv.single) (hsame ▸ hinv.unfinished)
    looping

theorem Invariant.finish (hinv : Invariant state) {frame : Frame V E}
    {rest : List (Frame V E)} (hactive : state.active = frame :: rest) :
    Invariant (state.finish rest) := by
  have hsublist : (closings rest).Sublist (closings state.active) := by
    rw [hactive]
    exact (List.sublist_cons_self frame rest).filterMap _
  apply hinv.frames
  · intro hnone
    rw [hnone] at hsublist
    exact List.sublist_nil.mp hsublist
  · exact Nat.le_trans hsublist.length_le hinv.single
  · exact fun cursor hcursor =>
      hinv.unfinished cursor (hsublist.subset hcursor)

/-- A loop or an immediate notification calls a subscriber. -/
theorem Invariant.tell (hinv : Invariant state) {active : List (Frame V E)}
    (hknown : number < state.subscriptions.length)
    (hstays : .left number ∉ state.log)
    (hopen : number ∉ finished state.log)
    (hrunning : state.stream.completed = false →
      state.stream.hasError = false →
        closings active = [] ∧ notice.isValue = true)
    (hsingle : (closings active).length ≤ 1)
    (hunfinished : ∀ cursor ∈ closings active,
      ∀ entry ∈ state.stream.subscribers.remaining cursor,
        entry.2.next ∉ finished state.log ∧
          (notice.isValue = false → entry.2.next ≠ number))
    (looping : Bool) :
    Invariant { state with
      active := active
      looping := looping
      log := state.log ++ [.told number notice] } := by
  have hlaw : NotificationLaw
      { state with log := state.log ++ [.told number notice] } :=
    hinv.toNotificationLaw.told hstays hopen
  refine ⟨⟨hlaw.grammar, hlaw.silent⟩, fun id subscriber hget => ?_,
    ?_, fun hcompleted herror => ?_, hsingle, fun cursor hcursor => ?_⟩
  · have hbelongs := hinv.belongs id subscriber hget
    refine ⟨hbelongs.id, hbelongs.callback, fun hleft => ?_⟩
    rcases List.mem_append.mp hleft with hold | hnew
    · exact hbelongs.stays hold
    · cases List.mem_singleton.mp hnew
  · exact List.forall_mem_append.mpr
      ⟨hinv.known, List.forall_mem_singleton.mpr hknown⟩
  · obtain ⟨hnone, hvalue⟩ := hrunning hcompleted herror
    obtain ⟨-, hfinished⟩ := hinv.running hcompleted herror
    rw [finished_told, hfinished, hvalue]
    exact ⟨hnone, rfl⟩
  · intro entry hentry
    obtain ⟨hnot, hne⟩ := hunfinished cursor hcursor entry hentry
    rw [finished_told, List.mem_append, not_or]
    refine ⟨hnot, ?_⟩
    split
    · exact List.not_mem_nil
    · rename_i hterminal
      rw [List.mem_singleton]
      exact hne (by simpa using hterminal)

theorem Invariant.subscribe (hinv : Invariant state)
    (error complete : Bool) :
    Invariant (state.subscribe
      (observer state.subscriptions.length error complete)) := by
  unfold State.subscribe
  by_cases hended : state.stream.completed || state.stream.hasError
  · have hsubscribed : state.stream.subscribe
        (observer state.subscriptions.length error complete) =
          (state.stream, none) := by
      rw [EventStream.subscribe, if_pos hended]
    rw [hsubscribed]
    have hadded := hinv.subscribe_ended
    split
    · exact hadded
    · rename_i notice hterminal
      split
      · exact hadded
      · rename_i number hcallback
        have hnumber :=
          belongs_observer error complete notice number hcallback
        subst hnumber
        have hknown : state.subscriptions.length <
            (state.subscriptions ++ [none]).length := by
          simp
        have hsingle :
            (closings (.immediate :: state.active)).length ≤ 1 :=
          hadded.single
        refine hadded.tell hknown (fun hleft => ?_) (fun hfinished => ?_)
          (fun hcompleted herror => ?_) hsingle
          (fun cursor hcursor entry hentry => ⟨hadded.unfinished cursor
            hcursor entry hentry, fun _ heq => ?_⟩) _
        · exact Nat.lt_irrefl _ (hinv.known _ hleft)
        · exact Nat.lt_irrefl _ (hinv.lt_of_mem_finished hfinished)
        · rw [hcompleted, herror] at hended
          cases hended
        · have hlt := (hinv.belongs _ _
            (MapData.get_of_mem_remaining hentry)).lt
          exact Nat.lt_irrefl _ (heq ▸ hlt)
  · obtain ⟨hcompleted, herror⟩ : state.stream.completed = false ∧
        state.stream.hasError = false := by
      simpa using hended
    have hterminal : (state.stream.terminal : Option (Notice V E)) = none := by
      simp [EventStream.terminal, hcompleted, herror]
    rw [hterminal, EventStream.subscribe, if_neg hended]
    exact hinv.subscribe_running hcompleted herror error complete

theorem Invariant.unsubscribe (hinv : Invariant state)
    {subscription : Option ℕ}
    (hget : state.subscriptions[number]? = some subscription) :
    Invariant { state with
      stream := state.stream.unsubscribe subscription
      log := state.log ++ [.left number] } := by
  have hlaw := hinv.toNotificationLaw.left number
  have hkept : ∀ id subscriber,
      (state.stream.unsubscribe subscription).subscribers.get id =
        some subscriber →
      state.stream.subscribers.get id = some subscriber ∧
        subscription ≠ some id := by
    intro id subscriber hsome
    cases subscription with
    | none => exact ⟨hsome, (Option.some_ne_none id).symm⟩
    | some key =>
        rw [EventStream.unsubscribe, MapData.get_delete] at hsome
        split at hsome
        · cases hsome
        · rename_i hne
          refine ⟨hsome, fun heq => hne ?_⟩
          exact (Option.some.inj heq).symm
  refine ⟨⟨hlaw.grammar, hlaw.silent⟩, fun id subscriber hsome => ?_, ?_,
    fun hcompleted herror => ?_, hinv.single,
    fun cursor hcursor entry hentry => ?_⟩
  · obtain ⟨hold, hne⟩ := hkept id subscriber hsome
    have hbelongs := hinv.belongs id subscriber hold
    refine ⟨hbelongs.id, hbelongs.callback, fun hleft => ?_⟩
    rcases List.mem_append.mp hleft with hbefore | hnew
    · exact hbelongs.stays hbefore
    · have heq : subscriber.next = number := by
        cases List.mem_singleton.mp hnew
        rfl
      have hid := hbelongs.id
      rw [heq, hget, Option.some.injEq] at hid
      exact hne hid
  · refine List.forall_mem_append.mpr
      ⟨hinv.known, List.forall_mem_singleton.mpr ?_⟩
    exact (List.getElem?_eq_some_iff.mp hget).1
  · rw [finished_left]
    cases subscription with
    | none => exact hinv.running hcompleted herror
    | some key => exact hinv.running hcompleted herror
  · rw [finished_left]
    have hbefore : entry ∈ state.stream.subscribers.remaining cursor := by
      cases subscription with
      | none => exact hentry
      | some key => exact (MapData.mem_remaining_delete.mp hentry).1
    exact hinv.unfinished cursor hcursor entry hbefore

/-- The loop of `error` or `complete` starts when no subscriber has been told
a terminal notification. -/
theorem Invariant.close (hinv : Invariant state)
    (hnone : closings state.active = []) (hfinished : finished state.log = [])
    {stream : EventStream E ℕ}
    (hsubscribers : stream.subscribers = state.stream.subscribers)
    (hended : stream.completed = false → stream.hasError = false → False)
    (notice : Notice V E) :
    Invariant { state with
      stream := stream
      active := .loop notice 0 :: state.active
      looping := true } := by
  refine ⟨⟨hinv.grammar, hinv.silent⟩, fun id subscriber hget => ?_,
    hinv.known, fun hcompleted herror => (hended hcompleted herror).elim, ?_,
    fun cursor _ entry _ => ?_⟩
  · rw [hsubscribers] at hget
    have hbelongs := hinv.belongs id subscriber hget
    exact ⟨hbelongs.id, hbelongs.callback, hbelongs.stays⟩
  · have hlength := List.length_filterMap_le Frame.closing [.loop notice 0]
    rw [closings] at hnone
    rw [closings, ← List.singleton_append, List.filterMap_append, hnone,
      List.append_nil]
    exact hlength
  · rw [hfinished]
    exact List.not_mem_nil

theorem Invariant.notify (hinv : Invariant state) (notice : Notice V E) :
    Invariant (state.notify notice) := by
  unfold State.notify
  split
  · exact hinv
  · rename_i stream hnotify
    simp only [EventStream.notify, Option.ite_none_left_eq_some] at hnotify
    obtain ⟨hrunning, hnotify⟩ := hnotify
    obtain ⟨hcompleted, herror⟩ : state.stream.completed = false ∧
        state.stream.hasError = false := by
      simpa using hrunning
    obtain ⟨hnone, hfinished⟩ := hinv.running hcompleted herror
    cases notice with
    | next value =>
        cases hnotify
        refine hinv.frames_of_eq ?_ true
        rfl
    | error error =>
        cases hnotify
        apply hinv.close hnone hfinished
        · rfl
        · exact fun _ herrored => Bool.noConfusion herrored
    | complete =>
        cases hnotify
        apply hinv.close hnone hfinished
        · rfl
        · exact fun hended => Bool.noConfusion hended

/-- The loop of `emit` comes to a subscriber that has not been told a terminal
notification. -/
theorem Invariant.visit_value (hinv : Invariant state)
    {rest : List (Frame V E)} {value : V} {cursor later id : ℕ}
    {subscriber : Observer ℕ}
    (hactive : state.active = .loop (.next value) cursor :: rest)
    (hbelongs : Belongs state id subscriber)
    (hopen : subscriber.next ∉ finished state.log) :
    Invariant (state.visit rest (.next value) subscriber later) := by
  have hsame : closings (.loop (.next value) later :: rest) =
      closings state.active := by
    rw [hactive]
    rfl
  apply hinv.tell hbelongs.lt hbelongs.stays hopen
  · intro hcompleted herror
    rw [hsame]
    exact ⟨(hinv.running hcompleted herror).1, rfl⟩
  · rw [hsame]
    exact hinv.single
  · rw [hsame]
    intro place hplace entry hentry
    exact ⟨hinv.unfinished place hplace entry hentry, Bool.noConfusion⟩

theorem closings_terminal (hterminal : notice.isValue = false)
    (cursor : ℕ) (rest : List (Frame V E)) :
    closings (.loop notice cursor :: rest) = cursor :: closings rest := by
  apply List.filterMap_cons_some
  simp only [Frame.closing, hterminal, Bool.false_eq_true, if_false]

/-- The entries of a loop are of distinct subscribers. -/
theorem Invariant.next_ne (hinv : Invariant state) {cursor later id : ℕ}
    {subscriber : Observer ℕ}
    (hremaining : state.stream.subscribers.remaining cursor =
      (id, subscriber) :: state.stream.subscribers.remaining later)
    (hbelongs : Belongs state id subscriber) {entry : ℕ × Observer ℕ}
    (hentry : entry ∈ state.stream.subscribers.remaining later) :
    entry.2.next ≠ subscriber.next := by
  intro heq
  have hid := (hinv.belongs _ _ (MapData.get_of_mem_remaining hentry)).id
  rw [heq, hbelongs.id, Option.some.injEq, Option.some.injEq] at hid
  have hkeys := MapData.nodup_remaining state.stream.subscribers cursor
  rw [hremaining, List.map_cons] at hkeys
  apply (List.nodup_cons.mp hkeys).1
  rw [hid]
  exact List.mem_map.mpr ⟨entry, hentry, rfl⟩

/-- The loop of `error` or `complete` comes to a subscriber. -/
theorem Invariant.visit_terminal (hinv : Invariant state)
    {rest : List (Frame V E)} {cursor later id : ℕ} {subscriber : Observer ℕ}
    (hactive : state.active = .loop notice cursor :: rest)
    (hterminal : notice.isValue = false)
    (hnext : state.stream.subscribers.next cursor =
      some ((id, subscriber), later))
    (hbelongs : Belongs state id subscriber) :
    Invariant (state.visit rest notice subscriber later) := by
  have hbefore : closings state.active = cursor :: closings rest := by
    rw [hactive, closings_terminal hterminal]
  have hsingle := hinv.single
  rw [hbefore, List.length_cons] at hsingle
  have hrest : closings rest = [] :=
    List.length_eq_zero_iff.mp (by omega)
  have hafter : closings (.loop notice later :: rest) = [later] := by
    rw [closings_terminal hterminal, hrest]
  have hcursor : cursor ∈ closings state.active := by
    rw [hbefore]
    exact List.mem_cons_self
  have hremaining := MapData.remaining_of_next hnext
  have hunfinished := hinv.unfinished cursor hcursor
  rw [hremaining] at hunfinished
  have hrunning : state.stream.completed = false →
      state.stream.hasError = false → False := by
    intro hcompleted herror
    rw [(hinv.running hcompleted herror).1] at hcursor
    cases hcursor
  unfold State.visit
  split
  · apply hinv.frames
    · intro hnone
      rw [hnone] at hcursor
      cases hcursor
    · rw [hafter]
      exact Nat.le_refl 1
    · rw [hafter]
      exact List.forall_mem_singleton.mpr
        fun entry hentry => hunfinished entry (List.mem_cons_of_mem _ hentry)
  · rename_i number hcallback
    have hnumber := hbelongs.callback notice number hcallback
    subst hnumber
    apply hinv.tell hbelongs.lt hbelongs.stays
      (hunfinished _ List.mem_cons_self)
    · exact fun hcompleted herror => (hrunning hcompleted herror).elim
    · rw [hafter]
      exact Nat.le_refl 1
    · rw [hafter]
      exact List.forall_mem_singleton.mpr fun entry hentry =>
        ⟨hunfinished entry (List.mem_cons_of_mem _ hentry),
          fun _ => hinv.next_ne hremaining hbelongs hentry⟩

/-! ## Runs -/

theorem Invariant.proceed (hinv : Invariant state)
    (hkeeps : KeepsSilence state .proceed) {frame : Frame V E}
    {rest : List (Frame V E)} (hactive : state.active = frame :: rest) :
    Invariant (state.proceed rest frame) := by
  cases frame with
  | immediate => exact hinv.finish hactive
  | loop notice cursor =>
      rw [State.proceed]
      split
      · exact hinv.finish hactive
      · rename_i id subscriber later hnext
        have hvisited : (id, subscriber) ∈
            state.stream.subscribers.remaining cursor := by
          rw [MapData.remaining_of_next hnext]
          exact List.mem_cons_self
        have hbelongs := hinv.belongs id subscriber
          (MapData.get_of_mem_remaining hvisited)
        cases hvalue : notice.isValue with
        | true =>
            cases notice with
            | next value =>
                rw [KeepsSilence, hactive] at hkeeps
                exact hinv.visit_value hactive hbelongs (hkeeps _ hnext)
            | error error => cases hvalue
            | complete => cases hvalue
        | false => exact hinv.visit_terminal hactive hvalue hnext hbelongs

theorem Invariant.call {label : Label V E} (hinv : Invariant state)
    (hcall : Streams.call state label = some next) : Invariant next := by
  cases label with
  | subscribe error complete =>
      cases hcall
      exact hinv.subscribe error complete
  | unsubscribe number =>
      obtain ⟨subscription, hget, rfl⟩ := Option.map_eq_some_iff.mp hcall
      exact hinv.unsubscribe hget
  | notify notice =>
      cases hcall
      exact hinv.notify notice
  | proceed => cases hcall
  | returns =>
      simp only [Streams.call, Option.ite_none_left_eq_some,
        Option.some.injEq] at hcall
      rw [← hcall.2]
      exact hinv.frames_of_eq rfl true
  | throws =>
      simp only [Streams.call] at hcall
      split at hcall
      next => cases hcall
      next frame rest hactive =>
        cases hcall
        exact hinv.finish hactive

theorem Invariant.step {label : Label V E} (hinv : Invariant state)
    (hkeeps : KeepsSilence state label)
    (hstep : Streams.step state label = some next) : Invariant next := by
  unfold Streams.step at hstep
  split at hstep
  next =>
    split at hstep
    next frame rest hactive =>
      cases hstep
      exact hinv.proceed hkeeps hactive
    next => cases hstep
  next => exact hinv.call hstep

/-- A value that comes after a terminal notification breaks the law. -/
theorem not_notificationLaw_of_step {label : Label V E}
    (hnot : ¬ KeepsSilence state label)
    (hstep : step state label = some next) : ¬ NotificationLaw next := by
  intro hlaw
  apply hnot
  cases label with
  | proceed =>
      unfold step at hstep
      split at hstep
      next =>
        split at hstep
        next label frame rest hactive =>
          cases hstep
          rw [KeepsSilence, hactive]
          split
          next value cursor rest' hframe =>
            intro visited hnext
            obtain ⟨hframe, hrest⟩ := List.cons.inj hframe
            rw [hframe, State.proceed, Option.mem_def.mp hnext] at hlaw
            have hgrammar := hlaw.grammar visited.1.2.next
            simp only [State.visit, Observer.callback, seen_told, if_true,
              Grammar.concat_iff] at hgrammar
            exact not_mem_finished_iff.mpr hgrammar
          next => trivial
        next => cases hstep
      next => cases hstep
  | subscribe error complete => trivial
  | unsubscribe number => trivial
  | notify notice => trivial
  | returns => trivial
  | throws => trivial

/-- In a run, every subscriber is told values, then at most one terminal
notification and nothing after it or after its `unsubscribe`, if and only if
no loop of `emit` comes to a subscriber that has been told a terminal
notification. -/
theorem notificationLaw_iff_keepsSilence {labels : List (Label V E)}
    {last : State V E} (hrun : exec step .initial labels = some last) :
    Throughout step NotificationLaw .initial labels ↔
      StepsMeet step KeepsSilence .initial labels :=
  throughout_iff_stepsMeet (I := Invariant)
    (fun _ hinv => hinv.toNotificationLaw)
    (fun _ _ _ hinv hkeeps hstep => hinv.step hkeeps hstep)
    (fun _ _ _ _ hnot hstep => not_notificationLaw_of_step hnot hstep)
    invariant_initial hrun

/-- The first of two subscribers ends the stream while a value is delivered
to it. -/
def endsDuringEmit (complete : Bool) : List (Label ℕ ℕ) :=
  [.subscribe true true, .subscribe true complete, .notify (.next 1),
    .proceed, .notify .complete, .proceed, .returns, .proceed] ++
    (if complete then [.returns, .proceed] else [.proceed]) ++
    [.returns, .proceed]

theorem notificationLaw_iff_keepsSilence_samples :
    Throughout step NotificationLaw .initial (endsDuringEmit false) ∧
      ¬ Throughout step NotificationLaw .initial (endsDuringEmit true) := by
  have hsilent : (exec step .initial (endsDuringEmit false)).isSome := by
    decide +kernel
  have htold : (exec step .initial (endsDuringEmit true)).isSome := by
    decide +kernel
  obtain ⟨_, hsilent⟩ := Option.isSome_iff_exists.mp hsilent
  obtain ⟨_, htold⟩ := Option.isSome_iff_exists.mp htold
  constructor
  · apply (notificationLaw_iff_keepsSilence hsilent).mpr
    decide +kernel
  · intro hlaw
    have hmeet := (notificationLaw_iff_keepsSilence htold).mp hlaw
    exact absurd hmeet (by decide +kernel)

/-- The second subscriber is told that the stream is completed, and then the
value. -/
theorem not_notificationLaw_of_complete_during_emit :
    ∃ state, exec step .initial (endsDuringEmit true) = some state ∧
      seen 1 state.log = [.complete, .next 1] ∧ ¬ NotificationLaw state := by
  have hends : (exec step .initial (endsDuringEmit true)).any
      (fun state => decide (seen 1 state.log = [.complete, .next 1])) =
        true := by
    decide +kernel
  obtain ⟨state, hrun, hfacts⟩ := (Option.any_eq_true _ _).mp hends
  have hseen := of_decide_eq_true hfacts
  refine ⟨state, hrun, hseen, fun hlaw => ?_⟩
  have hgrammar := hlaw.grammar 1
  have hsplit : seen 1 state.log = [.complete] ++ [.next 1] := hseen
  rw [hsplit, Grammar.concat_iff, List.forall_mem_singleton] at hgrammar
  cases hgrammar

end TsCommons.Streams
