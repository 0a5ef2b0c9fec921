import TsCommons.CacheRedis.RedisPubSub
import TsCommons.Foundations.Execution

/-!
# Subscriptions at Redis

The commands of a client go over one connection and settle in the order in
which they were sent; a command that is rejected leaves Redis as it is.  The
channels with handlers are to be those the client is subscribed to, and a
handler whose `subscribe` has resolved is to get what is published.  A message
is given to the handlers in a loop over the set of its channel, which they may
change meanwhile, and which ends at the first handler that throws.
-/

namespace TsCommons.CacheRedis.Subscriptions

open Foundations

variable {C H : Type} [DecidableEq C] [DecidableEq H]

/-- A SUBSCRIBE carries the handler whose call waits for it, until that
handler is unsubscribed. -/
inductive Command (C H : Type)
  | subscribe (channel : C) (waiting : Option H)
  | unsubscribe (channel : C)

namespace Command

def channel : Command C H → C
  | subscribe channel _ => channel
  | unsubscribe channel => channel

def opens : Command C H → Bool
  | subscribe _ _ => true
  | unsubscribe _ => false

/-- A call of `unsubscribe` for the channel and the handler. -/
def withdraw (channel : C) (handler : Option H) : Command C H → Command C H
  | subscribe other (some waiting) =>
      if other = channel ∧ RedisPubSub.removes handler waiting = true then
        subscribe other none
      else subscribe other (some waiting)
  | command => command

end Command

/-- The loop of `dispatch` while a handler runs.  `channel` is that of the set
as long as it is in the table, `pending` are the handlers still to be called,
and `owed` those that had resolved when the message was published and have
been neither called nor unsubscribed since. -/
structure Loop (C H : Type) where
  channel : Option C
  pending : List H
  owed : List H

namespace Loop

/-- The handler goes into the set of the channel. -/
def join (pubSub : RedisPubSub C H) (channel : C) (handler : H)
    (loop : Loop C H) : Loop C H :=
  if loop.channel = some channel ∧ handler ∉ pubSub.handlersOf channel then
    { loop with pending := loop.pending ++ [handler] }
  else loop

/-- Handlers go out of the set of the channel, which itself goes out of the
table when it is empty. -/
def leave (channel : C) (handler : Option H) (emptied : Bool)
    (loop : Loop C H) : Loop C H :=
  if loop.channel = some channel then
    { channel := if emptied then none else some channel
      pending := loop.pending.filter (!RedisPubSub.removes handler ·)
      owed := loop.owed.filter (!RedisPubSub.removes handler ·) }
  else loop

end Loop

/-- `commands` are in flight, `subscribed` are the channels at Redis, and
`resolved` the handlers whose `subscribe` has resolved and that have not been
unsubscribed since.  Those that were not given a message are in `missed`. -/
structure State (C H : Type) where
  pubSub : RedisPubSub C H
  commands : List (Command C H)
  subscribed : InsertionSet C
  resolved : List (C × H)
  loop : Option (Loop C H)
  missed : List H

def State.initial : State C H where
  pubSub := ⟨.empty⟩
  commands := []
  subscribed := .empty
  resolved := []
  loop := none
  missed := []

/-- A message that is published reaches the client at once.  With `finish` the
handler that runs returns or throws; the calls before it are its own. -/
inductive Label (C H : Type)
  | subscribe (channel : C) (handler : H)
  | unsubscribe (channel : C) (handler : Option H)
  | settle (accepted : Bool)
  | publish (channel : C)
  | finish (throws : Bool)

namespace State

def subscribe (state : State C H) (channel : C) (handler : H) : State C H :=
  let (pubSub, sends) := state.pubSub.subscribe channel handler
  if sends then
    { state with
      pubSub := pubSub
      commands := state.commands ++ [.subscribe channel (some handler)] }
  else
    { state with
      pubSub := pubSub
      resolved := state.resolved ++ [(channel, handler)]
      loop := state.loop.map (Loop.join state.pubSub channel handler) }

def unsubscribe (state : State C H) (channel : C) (handler : Option H) :
    State C H :=
  let (pubSub, sends) := state.pubSub.unsubscribe channel handler
  { state with
    pubSub := pubSub
    commands := state.commands.map (Command.withdraw channel handler) ++
      if sends then [.unsubscribe channel] else []
    resolved := state.resolved.filter fun entry =>
      !(decide (entry.1 = channel) &&
        RedisPubSub.removes handler entry.2)
    loop := state.loop.map (Loop.leave channel handler sends) }

def settle (state : State C H) (command : Command C H) (accepted : Bool) :
    State C H :=
  match command, accepted with
  | .subscribe channel waiting, true =>
      { state with
        subscribed := state.subscribed.add channel
        resolved := state.resolved ++ (waiting.map (channel, ·)).toList }
  | .unsubscribe channel, true =>
      { state with subscribed := state.subscribed.delete channel }
  | _, false => state

/-- The handlers that the loop for a message published on the channel now has
before it. -/
def receivers (state : State C H) (channel : C) : List H :=
  if channel ∈ state.subscribed then state.pubSub.handlersOf channel else []

def resolvedOn (state : State C H) (channel : C) : List H :=
  (state.resolved.filter (·.1 = channel)).map Prod.snd

def publish (state : State C H) (channel : C) : State C H :=
  match state.receivers channel with
  | [] => { state with missed := state.missed ++ state.resolvedOn channel }
  | first :: rest =>
      { state with
        loop := some ⟨some channel, rest,
          (state.resolvedOn channel).filter (· ≠ first)⟩ }

/-- The next handler is called, unless the one before it has thrown. -/
def finish (state : State C H) (loop : Loop C H) (throws : Bool) :
    State C H :=
  match throws, loop.pending with
  | false, next :: rest =>
      { state with
        loop := some { loop with
          pending := rest
          owed := loop.owed.filter (· ≠ next) } }
  | _, _ =>
      { state with
        loop := none
        missed := state.missed ++ loop.owed }

/-- No command for the channel is in flight. -/
def Quiet (state : State C H) (channel : C) : Prop :=
  ∀ command ∈ state.commands, command.channel ≠ channel

end State

def step (state : State C H) : Label C H → Option (State C H)
  | .subscribe channel handler => some (state.subscribe channel handler)
  | .unsubscribe channel handler => some (state.unsubscribe channel handler)
  | .settle accepted =>
      match state.loop, state.commands with
      | none, command :: rest =>
          some ({ state with commands := rest }.settle command accepted)
      | _, _ => none
  | .publish channel =>
      match state.loop with
      | none => some (state.publish channel)
      | some _ => none
  | .finish throws => state.loop.map fun loop => state.finish loop throws

structure SubscriptionLaw (state : State C H) : Prop where
  quiet : ∀ channel, state.Quiet channel →
    0 < state.pubSub.handlerCount channel → channel ∈ state.subscribed
  receives : ∀ channel handler, (channel, handler) ∈ state.resolved →
    handler ∈ state.receivers channel
  delivered : state.missed = []

/-- A SUBSCRIBE that is rejected is followed by another command for its
channel, or leaves no handlers without a subscription.  An UNSUBSCRIBE that is
accepted is not for a channel with a handler whose `subscribe` has resolved. -/
def SettlesSafely (state : State C H) (rest : List (Command C H)) :
    Command C H → Bool → Prop
  | .subscribe channel _, false =>
      (∃ command ∈ rest, command.channel = channel) ∨
        state.pubSub.handlerCount channel = 0 ∨ channel ∈ state.subscribed
  | .unsubscribe channel, true =>
      ∀ entry ∈ state.resolved, entry.1 ≠ channel
  | _, _ => True

/-- Handlers are added to those of a channel only while the client is
subscribed to it, and a handler throws only when none that is owed the message
is still to be called. -/
def KeepsSubscribed (state : State C H) : Label C H → Prop
  | .subscribe channel _ =>
      (state.pubSub.handlers.get channel).isSome →
        channel ∈ state.subscribed
  | .unsubscribe _ _ => True
  | .settle accepted =>
      match state.commands with
      | [] => True
      | command :: rest => SettlesSafely state rest command accepted
  | .publish _ => True
  | .finish throws =>
      throws = true → ∀ loop ∈ state.loop, ∀ handler ∈ loop.pending,
        handler ∉ loop.owed

instance (state : State C H) (rest : List (Command C H))
    (command : Command C H) (accepted : Bool) :
    Decidable (SettlesSafely state rest command accepted) :=
  match command, accepted with
  | .subscribe channel _, false =>
      inferInstanceAs (Decidable (
        (∃ command ∈ rest, command.channel = channel) ∨
          state.pubSub.handlerCount channel = 0 ∨
            channel ∈ state.subscribed))
  | .unsubscribe channel, true =>
      inferInstanceAs (Decidable (∀ entry ∈ state.resolved,
        entry.1 ≠ channel))
  | .subscribe _ _, true => inferInstanceAs (Decidable True)
  | .unsubscribe _, false => inferInstanceAs (Decidable True)

instance (state : State C H) (label : Label C H) :
    Decidable (KeepsSubscribed state label) :=
  match label with
  | .subscribe channel _ =>
      inferInstanceAs (Decidable (
        (state.pubSub.handlers.get channel).isSome →
          channel ∈ state.subscribed))
  | .unsubscribe _ _ => inferInstanceAs (Decidable True)
  | .settle accepted =>
      match hcommands : state.commands with
      | [] => decidable_of_iff True (by rw [KeepsSubscribed, hcommands])
      | command :: rest =>
          decidable_of_iff (SettlesSafely state rest command accepted)
            (by rw [KeepsSubscribed, hcommands])
  | .publish _ => inferInstanceAs (Decidable True)
  | .finish throws =>
      inferInstanceAs (Decidable (throws = true → ∀ loop ∈ state.loop,
        ∀ handler ∈ loop.pending, handler ∉ loop.owed))

variable {state next : State C H} {label : Label C H} {channel other : C}
  {handler found : H} {command : Command C H} {rest : List (Command C H)}
  {accepted : Bool}

/-! ## The last command for a channel -/

theorem withdraw_cases (channel : C) (handler : Option H)
    (command : Command C H) :
    command.withdraw channel handler = command ∨
      ∃ other waiting, command = .subscribe other waiting ∧
        command.withdraw channel handler = .subscribe other none := by
  cases command with
  | subscribe other waiting =>
      cases waiting with
      | none => exact .inl rfl
      | some waiting =>
          rw [Command.withdraw]
          split
          · exact .inr ⟨other, some waiting, rfl, rfl⟩
          · exact .inl rfl
  | unsubscribe other => exact .inl rfl

@[simp] theorem channel_withdraw (channel : C) (handler : Option H)
    (command : Command C H) :
    (command.withdraw channel handler).channel = command.channel := by
  obtain hsame | ⟨other, waiting, rfl, hnext⟩ :=
    withdraw_cases channel handler command
  · rw [hsame]
  · rw [hnext]
    rfl

@[simp] theorem opens_withdraw (channel : C) (handler : Option H)
    (command : Command C H) :
    (command.withdraw channel handler).opens = command.opens := by
  obtain hsame | ⟨other, waiting, rfl, hnext⟩ :=
    withdraw_cases channel handler command
  · rw [hsame]
  · rw [hnext]
    rfl

/-- If all commands are accepted, the client ends up subscribed. -/
def LastOpens (commands : List (Command C H)) (channel : C) : Prop :=
  ∀ command ∈ (commands.filter (·.channel = channel)).getLast?,
    command.opens = true

omit [DecidableEq H] in
theorem LastOpens.of_cons (hopens : LastOpens (command :: rest) channel) :
    LastOpens rest channel := by
  intro last hlast
  refine hopens last ?_
  by_cases heq : command.channel = channel
  · rw [List.filter_cons_of_pos (by simpa using heq), List.getLast?_cons]
    rw [Option.mem_def] at hlast
    rw [hlast]
    rfl
  · rwa [List.filter_cons_of_neg (by simpa using heq)]

omit [DecidableEq H] in
theorem lastOpens_concat_self {commands : List (Command C H)}
    (hchannel : command.channel = channel) (hcommand : command.opens = true) :
    LastOpens (commands ++ [command]) channel := by
  intro last hlast
  rw [List.filter_append, List.filter_cons_of_pos (by simpa using hchannel),
    List.filter_nil, List.getLast?_concat, Option.mem_some_iff] at hlast
  rw [← hlast]
  exact hcommand

omit [DecidableEq H] in
theorem LastOpens.concat {commands : List (Command C H)}
    (hopens : LastOpens commands channel)
    (hcommand : command.channel = channel → command.opens = true) :
    LastOpens (commands ++ [command]) channel := by
  by_cases heq : command.channel = channel
  · exact lastOpens_concat_self heq (hcommand heq)
  · intro last hlast
    rw [List.filter_append, List.filter_cons_of_neg (by simpa using heq),
      List.filter_nil, List.append_nil] at hlast
    exact hopens last hlast

theorem LastOpens.withdraw {commands : List (Command C H)}
    (hopens : LastOpens commands channel) (other : C) (handler : Option H) :
    LastOpens (commands.map (Command.withdraw other handler)) channel := by
  intro last hlast
  rw [List.filter_map, List.getLast?_map, Option.mem_def,
    Option.map_eq_some_iff] at hlast
  obtain ⟨command, hcommand, rfl⟩ := hlast
  rw [opens_withdraw]
  refine hopens command ?_
  simpa [Function.comp_def] using hcommand

omit [DecidableEq H] in
/-- The only command that is left for a channel is the last one. -/
theorem opens_of_lastOpens (hopens : LastOpens (command :: rest) channel)
    (hchannel : command.channel = channel)
    (hrest : ∀ other ∈ rest, other.channel ≠ channel) :
    command.opens = true := by
  refine hopens command ?_
  have hnil : rest.filter (·.channel = channel) = [] :=
    List.filter_eq_nil_iff.mpr fun other hother => by
      simpa using hrest other hother
  rw [List.filter_cons_of_pos (by simpa using hchannel), hnil]
  rfl

/-! ## The invariant -/

structure Invariant (state : State C H) : Prop where
  quiet : ∀ channel, state.Quiet channel →
    0 < state.pubSub.handlerCount channel → channel ∈ state.subscribed
  receives : ∀ channel handler, (channel, handler) ∈ state.resolved →
    channel ∈ state.subscribed ∧ handler ∈ state.pubSub.handlersOf channel
  waits : ∀ channel handler,
    Command.subscribe channel (some handler) ∈ state.commands →
    handler ∈ state.pubSub.handlersOf channel
  opens : ∀ channel, (state.pubSub.handlers.get channel).isSome = true →
    LastOpens state.commands channel
  owed : ∀ loop ∈ state.loop, ∀ handler ∈ loop.owed, handler ∈ loop.pending
  missed : state.missed = []

omit [DecidableEq H] in
theorem mem_receivers :
    handler ∈ state.receivers channel ↔
      channel ∈ state.subscribed ∧
        handler ∈ state.pubSub.handlersOf channel := by
  rw [State.receivers]
  split
  · rename_i hsubscribed
    exact (and_iff_right hsubscribed).symm
  · rename_i hnot
    exact iff_of_false List.not_mem_nil fun hboth => hnot hboth.1

omit [DecidableEq H] in
theorem Invariant.law (hinv : Invariant state) : SubscriptionLaw state :=
  ⟨hinv.quiet, fun channel handler hresolved =>
    mem_receivers.mpr (hinv.receives channel handler hresolved), hinv.missed⟩

omit [DecidableEq H] in
theorem handlerCount_pos_iff {pubSub : RedisPubSub C H} :
    0 < pubSub.handlerCount channel ↔
      ∃ handler, handler ∈ pubSub.handlersOf channel := by
  rw [RedisPubSub.handlerCount_eq_length, List.length_pos_iff_exists_mem]

omit [DecidableEq H] in
theorem invariant_initial : Invariant (State.initial : State C H) where
  quiet _ _ hpos := absurd hpos (Nat.lt_irrefl 0)
  receives _ _ hresolved := absurd hresolved List.not_mem_nil
  waits _ _ hcommand := absurd hcommand List.not_mem_nil
  opens _ _ := fun _ hlast => by cases hlast
  owed _ hloop := by cases hloop
  missed := rfl

/-! ## The loop over the handlers -/

theorem Loop.owed_join {pubSub : RedisPubSub C H} {loop : Loop C H}
    (howed : ∀ handler ∈ loop.owed, handler ∈ loop.pending) :
    ∀ found ∈ (loop.join pubSub channel handler).owed,
      found ∈ (loop.join pubSub channel handler).pending := by
  unfold Loop.join
  split
  · exact fun found hfound => List.mem_append_left _ (howed found hfound)
  · exact howed

theorem Loop.owed_leave {loop : Loop C H} {handler : Option H}
    {emptied : Bool} (howed : ∀ handler ∈ loop.owed, handler ∈ loop.pending) :
    ∀ found ∈ (loop.leave channel handler emptied).owed,
      found ∈ (loop.leave channel handler emptied).pending := by
  unfold Loop.leave
  split
  · intro found hfound
    obtain ⟨hmem, hkept⟩ := List.mem_filter.mp hfound
    exact List.mem_filter.mpr ⟨howed found hmem, hkept⟩
  · exact howed

omit [DecidableEq H] in
theorem mem_resolvedOn :
    handler ∈ state.resolvedOn channel ↔
      (channel, handler) ∈ state.resolved := by
  rw [State.resolvedOn, List.mem_map]
  constructor
  · rintro ⟨⟨other, found⟩, hentry, rfl⟩
    obtain ⟨hmem, heq⟩ := List.mem_filter.mp hentry
    rwa [← of_decide_eq_true heq]
  · intro hmem
    exact ⟨_, List.mem_filter.mpr ⟨hmem, decide_eq_true rfl⟩, rfl⟩

/-- The loop starts with all the handlers that have resolved before it. -/
theorem Invariant.publish (hinv : Invariant state) (channel : C) :
    Invariant (state.publish channel) := by
  have hall : ∀ handler ∈ state.resolvedOn channel,
      handler ∈ state.receivers channel := fun handler hmem =>
    mem_receivers.mpr (hinv.receives _ _ (mem_resolvedOn.mp hmem))
  unfold State.publish
  split
  · rename_i hnone
    have hnil : state.resolvedOn channel = [] :=
      List.eq_nil_iff_forall_not_mem.mpr fun handler hmem => by
        have hreceived := hall handler hmem
        rw [hnone] at hreceived
        cases hreceived
    rw [hnil, List.append_nil]
    exact hinv
  · rename_i first rest hreceivers
    refine { hinv with owed := ?_ }
    rintro loop hloop handler howed
    cases hloop
    obtain ⟨hmem, hne⟩ := List.mem_filter.mp howed
    have hreceived := hall handler hmem
    rw [hreceivers] at hreceived
    exact (List.mem_cons.mp hreceived).resolve_left (of_decide_eq_true hne)

/-- Nobody who is owed the message is left where the loop ends. -/
theorem Invariant.finish (hinv : Invariant state) {loop : Loop C H}
    (hloop : state.loop = some loop) {throws : Bool}
    (hsafe : throws = true → ∀ handler ∈ loop.pending,
      handler ∉ loop.owed) :
    Invariant (state.finish loop throws) := by
  have howed := hinv.owed loop hloop
  have hends : (∀ handler ∈ loop.pending, handler ∉ loop.owed) →
      Invariant { state with
        loop := none
        missed := state.missed ++ loop.owed } := by
    intro hpending
    have hnil : loop.owed = [] :=
      List.eq_nil_iff_forall_not_mem.mpr fun handler hmem =>
        hpending handler (howed handler hmem) hmem
    refine { hinv with owed := ?_, missed := ?_ }
    · rintro loop hnone
      cases hnone
    · change state.missed ++ loop.owed = []
      rw [hinv.missed, hnil]
      rfl
  cases throws with
  | true => exact hends (hsafe rfl)
  | false =>
      cases hpending : loop.pending with
      | nil =>
          simp only [State.finish, hpending]
          refine hends fun handler hmem => ?_
          rw [hpending] at hmem
          cases hmem
      | cons called rest =>
          simp only [State.finish, hpending]
          refine { hinv with owed := ?_ }
          rintro later hlater handler hmem
          cases hlater
          obtain ⟨hmem, hne⟩ := List.mem_filter.mp hmem
          have hwaits := howed handler hmem
          rw [hpending] at hwaits
          exact (List.mem_cons.mp hwaits).resolve_left (of_decide_eq_true hne)

/-! ## Calls -/

theorem subscribe_of_isNone
    (hfirst : (state.pubSub.handlers.get channel).isSome = false) :
    state.subscribe channel handler =
      { state with
        pubSub := (state.pubSub.subscribe channel handler).1
        commands :=
          state.commands ++ [.subscribe channel (some handler)] } := by
  have hsends : (state.pubSub.subscribe channel handler).2 = true := by
    rw [RedisPubSub.snd_subscribe, ← Option.not_isSome, hfirst]
    rfl
  simp only [State.subscribe, hsends, if_true]

theorem subscribe_of_isSome
    (hexisting : (state.pubSub.handlers.get channel).isSome = true) :
    state.subscribe channel handler =
      { state with
        pubSub := (state.pubSub.subscribe channel handler).1
        resolved := state.resolved ++ [(channel, handler)]
        loop := state.loop.map
          (Loop.join state.pubSub channel handler) } := by
  have hsends : (state.pubSub.subscribe channel handler).2 = false := by
    rw [RedisPubSub.snd_subscribe, ← Option.not_isSome, hexisting]
    rfl
  simp only [State.subscribe, hsends, Bool.false_eq_true, if_false]

/-- The first handler of a channel. -/
theorem Invariant.subscribe_first (hinv : Invariant state)
    (hfirst : (state.pubSub.handlers.get channel).isSome = false) :
    Invariant (state.subscribe channel handler) := by
  rw [subscribe_of_isNone hfirst]
  refine ⟨?_, ?_, ?_, ?_, hinv.owed, hinv.missed⟩
  · intro other hquiet hpos
    have hne : other ≠ channel := fun heq =>
      hquiet (.subscribe channel (some handler))
        (List.mem_append_right _ List.mem_cons_self) heq.symm
    obtain ⟨found, hfound⟩ := handlerCount_pos_iff.mp hpos
    obtain hold | hnew := RedisPubSub.mem_handlersOf_subscribe.mp hfound
    · exact hinv.quiet other
        (fun command hcommand =>
          hquiet command (List.mem_append_left _ hcommand))
        (handlerCount_pos_iff.mpr ⟨found, hold⟩)
    · exact absurd hnew.1 hne
  · intro other found hresolved
    obtain ⟨hsubscribed, hfound⟩ := hinv.receives other found hresolved
    exact ⟨hsubscribed, RedisPubSub.mem_handlersOf_subscribe.mpr (.inl hfound)⟩
  · intro other found hcommand
    rw [List.mem_append, List.mem_singleton] at hcommand
    obtain hold | hnew := hcommand
    · exact RedisPubSub.mem_handlersOf_subscribe.mpr
        (.inl (hinv.waits other found hold))
    · cases hnew
      exact RedisPubSub.mem_handlersOf_subscribe.mpr (.inr ⟨rfl, rfl⟩)
  · intro other hsome
    rw [RedisPubSub.isSome_get_subscribe, Bool.or_eq_true,
      decide_eq_true_eq] at hsome
    obtain rfl | hsome := hsome
    · exact lastOpens_concat_self rfl rfl
    · exact (hinv.opens other hsome).concat fun _ => rfl

theorem Invariant.subscribe_next (hinv : Invariant state)
    (hexisting : (state.pubSub.handlers.get channel).isSome = true)
    (hsubscribed : channel ∈ state.subscribed) :
    Invariant (state.subscribe channel handler) := by
  rw [subscribe_of_isSome hexisting]
  refine ⟨?_, ?_, ?_, ?_, ?_, hinv.missed⟩
  · intro other hquiet hpos
    obtain ⟨found, hfound⟩ := handlerCount_pos_iff.mp hpos
    obtain hold | ⟨rfl, -⟩ := RedisPubSub.mem_handlersOf_subscribe.mp hfound
    · exact hinv.quiet other hquiet (handlerCount_pos_iff.mpr ⟨found, hold⟩)
    · exact hsubscribed
  · intro other found hresolved
    rw [List.mem_append, List.mem_singleton] at hresolved
    obtain hold | hnew := hresolved
    · obtain ⟨hsubscribed, hfound⟩ := hinv.receives other found hold
      exact ⟨hsubscribed,
        RedisPubSub.mem_handlersOf_subscribe.mpr (.inl hfound)⟩
    · cases hnew
      exact ⟨hsubscribed,
        RedisPubSub.mem_handlersOf_subscribe.mpr (.inr ⟨rfl, rfl⟩)⟩
  · intro other found hcommand
    exact RedisPubSub.mem_handlersOf_subscribe.mpr
      (.inl (hinv.waits other found hcommand))
  · intro other hsome
    rw [RedisPubSub.isSome_get_subscribe, Bool.or_eq_true,
      decide_eq_true_eq] at hsome
    obtain rfl | hsome := hsome
    · exact hinv.opens other hexisting
    · exact hinv.opens other hsome
  · intro joined hjoined
    obtain ⟨loop, hloop, rfl⟩ := Option.map_eq_some_iff.mp hjoined
    exact Loop.owed_join (hinv.owed loop hloop)

/-- A handler that still waits was not the one that is unsubscribed. -/
theorem mem_of_mem_withdraw {handler : Option H}
    (hmem : Command.subscribe other (some found) ∈
      state.commands.map (Command.withdraw channel handler)) :
    Command.subscribe other (some found) ∈ state.commands ∧
      ¬(other = channel ∧ RedisPubSub.removes handler found = true) := by
  obtain ⟨command, hcommand, heq⟩ := List.mem_map.mp hmem
  match command, heq with
  | .subscribe other' (some waiting), heq =>
      rw [Command.withdraw] at heq
      split at heq
      · cases heq
      · rename_i hkept
        cases heq
        exact ⟨hcommand, hkept⟩

theorem Invariant.unsubscribe (hinv : Invariant state) (channel : C)
    (handler : Option H) :
    Invariant (state.unsubscribe channel handler) := by
  refine ⟨?_, ?_, ?_, ?_, ?_, hinv.missed⟩
  · intro other hquiet hpos
    obtain ⟨found, hfound⟩ := handlerCount_pos_iff.mp hpos
    obtain ⟨hfound, -⟩ := RedisPubSub.mem_handlersOf_unsubscribe.mp hfound
    refine hinv.quiet other ?_ (handlerCount_pos_iff.mpr ⟨found, hfound⟩)
    intro command hcommand
    rw [← channel_withdraw channel handler]
    exact hquiet _ (List.mem_append_left _ (List.mem_map_of_mem hcommand))
  · intro other found hresolved
    simp only [State.unsubscribe, List.mem_filter, Bool.not_eq_true',
      Bool.and_eq_false_iff, decide_eq_false_iff_not] at hresolved
    obtain ⟨hresolved, hkept⟩ := hresolved
    obtain ⟨hsubscribed, hfound⟩ := hinv.receives other found hresolved
    refine ⟨hsubscribed,
      RedisPubSub.mem_handlersOf_unsubscribe.mpr ⟨hfound, ?_⟩⟩
    rintro ⟨heq, hremoved⟩
    obtain hne | hkept := hkept
    · exact hne heq
    · rw [hkept] at hremoved
      cases hremoved
  · intro other found hcommand
    have hwaits : Command.subscribe other (some found) ∈
        state.commands.map (Command.withdraw channel handler) := by
      simp only [State.unsubscribe, List.mem_append] at hcommand
      refine hcommand.resolve_right fun hnew => ?_
      cases hsends : (state.pubSub.unsubscribe channel handler).2 with
      | false =>
          rw [hsends] at hnew
          cases hnew
      | true =>
          rw [hsends] at hnew
          cases List.mem_singleton.mp hnew
    obtain ⟨hmem, hkept⟩ := mem_of_mem_withdraw hwaits
    exact RedisPubSub.mem_handlersOf_unsubscribe.mpr
      ⟨hinv.waits other found hmem, hkept⟩
  · intro other hsome
    have hopens := (hinv.opens other
      (RedisPubSub.isSome_of_get_unsubscribe hsome)).withdraw channel handler
    have hsends : (state.pubSub.unsubscribe channel handler).2 = true →
        channel ≠ other := by
      rintro hsends rfl
      rw [State.unsubscribe, RedisPubSub.get_unsubscribe_of_sends hsends]
        at hsome
      cases hsome
    simp only [State.unsubscribe]
    split
    · rename_i hsent
      exact hopens.concat fun heq => absurd heq (hsends hsent)
    · rwa [List.append_nil]
  · intro left hleft
    obtain ⟨loop, hloop, rfl⟩ := Option.map_eq_some_iff.mp hleft
    exact Loop.owed_leave (hinv.owed loop hloop)

/-! ## Replies -/

omit [DecidableEq H] in
@[simp] theorem pubSub_settle (state : State C H) (command : Command C H)
    (accepted : Bool) :
    (state.settle command accepted).pubSub = state.pubSub := by
  match command, accepted with
  | .subscribe _ _, true => rfl
  | .subscribe _ _, false => rfl
  | .unsubscribe _, true => rfl
  | .unsubscribe _, false => rfl

omit [DecidableEq H] in
@[simp] theorem loop_settle (state : State C H) (command : Command C H)
    (accepted : Bool) :
    (state.settle command accepted).loop = state.loop := by
  match command, accepted with
  | .subscribe _ _, true => rfl
  | .subscribe _ _, false => rfl
  | .unsubscribe _, true => rfl
  | .unsubscribe _, false => rfl

omit [DecidableEq H] in
@[simp] theorem missed_settle (state : State C H) (command : Command C H)
    (accepted : Bool) :
    (state.settle command accepted).missed = state.missed := by
  match command, accepted with
  | .subscribe _ _, true => rfl
  | .subscribe _ _, false => rfl
  | .unsubscribe _, true => rfl
  | .unsubscribe _, false => rfl

omit [DecidableEq H] in
theorem mem_subscribed_settle (hne : command.channel ≠ channel) :
    channel ∈ (state.settle command accepted).subscribed ↔
      channel ∈ state.subscribed := by
  match command, accepted with
  | .subscribe _ _, true =>
      exact InsertionSet.mem_add.trans
        (or_iff_right fun heq => hne heq.symm)
  | .unsubscribe _, true =>
      exact InsertionSet.mem_delete.trans
        (and_iff_left fun heq => hne heq.symm)
  | .subscribe _ _, false => exact Iff.rfl
  | .unsubscribe _, false => exact Iff.rfl

omit [DecidableEq H] in
/-- The last command for a channel with handlers is a SUBSCRIBE, which leaves
the client subscribed if it is safe. -/
theorem Invariant.mem_subscribed_settle_self (hinv : Invariant state)
    (hcommands : state.commands = command :: rest)
    (hsafe : SettlesSafely state rest command accepted)
    (hrest : ∀ other ∈ rest, other.channel ≠ command.channel)
    (hpos : 0 < state.pubSub.handlerCount command.channel) :
    command.channel ∈ (state.settle command accepted).subscribed := by
  obtain ⟨handler, hhandler⟩ := handlerCount_pos_iff.mp hpos
  have hopens := hinv.opens _ (RedisPubSub.isSome_of_mem_handlersOf hhandler)
  rw [hcommands] at hopens
  have hsubscribe := opens_of_lastOpens hopens rfl hrest
  match command, accepted with
  | .subscribe channel _, true => exact InsertionSet.mem_add.mpr (.inl rfl)
  | .subscribe channel _, false =>
      obtain ⟨other, hother, heq⟩ | hzero | hsubscribed := hsafe
      · exact absurd heq (hrest other hother)
      · exact absurd hzero (Nat.ne_of_gt hpos)
      · exact hsubscribed

omit [DecidableEq H] in
theorem Invariant.receives_settle (hinv : Invariant state)
    (hcommands : state.commands = command :: rest)
    (hsafe : SettlesSafely state rest command accepted)
    (hresolved :
      (channel, handler) ∈ (state.settle command accepted).resolved) :
    channel ∈ (state.settle command accepted).subscribed ∧
      handler ∈ state.pubSub.handlersOf channel := by
  match command, accepted with
  | .subscribe opened waiting, true =>
      obtain hold | hnew := List.mem_append.mp hresolved
      · obtain ⟨hsubscribed, hhandler⟩ := hinv.receives _ _ hold
        exact ⟨InsertionSet.mem_add.mpr (.inr hsubscribed), hhandler⟩
      · rw [Option.mem_toList, Option.map_eq_some_iff] at hnew
        obtain ⟨_, rfl, heq⟩ := hnew
        cases heq
        refine ⟨InsertionSet.mem_add.mpr (.inl rfl), hinv.waits _ _ ?_⟩
        rw [hcommands]
        exact List.mem_cons_self
  | .unsubscribe closed, true =>
      obtain ⟨hsubscribed, hhandler⟩ := hinv.receives _ _ hresolved
      exact ⟨InsertionSet.mem_delete.mpr
        ⟨hsubscribed, hsafe _ hresolved⟩, hhandler⟩
  | .subscribe _ _, false => exact hinv.receives _ _ hresolved
  | .unsubscribe _, false => exact hinv.receives _ _ hresolved

omit [DecidableEq H] in
theorem settle_commands (command : Command C H) (accepted : Bool) :
    { state with commands := rest }.settle command accepted =
      { state.settle command accepted with commands := rest } := by
  match command, accepted with
  | .subscribe _ _, true => rfl
  | .subscribe _ _, false => rfl
  | .unsubscribe _, true => rfl
  | .unsubscribe _, false => rfl

omit [DecidableEq H] in
theorem Invariant.settle (hinv : Invariant state)
    (hcommands : state.commands = command :: rest)
    (hsafe : SettlesSafely state rest command accepted) :
    Invariant ({ state with commands := rest }.settle command accepted) := by
  rw [settle_commands]
  refine ⟨?_, ?_, ?_, ?_, ?_, ?_⟩
  · intro channel hrest hpos
    rw [pubSub_settle] at hpos
    by_cases heq : command.channel = channel
    · subst heq
      exact hinv.mem_subscribed_settle_self hcommands hsafe hrest hpos
    · refine (mem_subscribed_settle heq).mpr (hinv.quiet channel ?_ hpos)
      rw [State.Quiet, hcommands]
      exact List.forall_mem_cons.mpr ⟨heq, hrest⟩
  · intro channel handler hresolved
    rw [pubSub_settle]
    exact hinv.receives_settle hcommands hsafe hresolved
  · intro channel handler hcommand
    rw [pubSub_settle]
    refine hinv.waits channel handler ?_
    rw [hcommands]
    exact List.mem_cons_of_mem _ hcommand
  · intro channel hsome
    rw [pubSub_settle] at hsome
    have hopens := hinv.opens channel hsome
    rw [hcommands] at hopens
    exact hopens.of_cons
  · rw [loop_settle]
    exact hinv.owed
  · rw [missed_settle]
    exact hinv.missed

theorem step_settle (hstep : step state (.settle accepted) = some next) :
    ∃ command rest, state.commands = command :: rest ∧
      next = { state with commands := rest }.settle command accepted := by
  cases hloop : state.loop with
  | some loop => simp [step, hloop] at hstep
  | none =>
      cases hcommands : state.commands with
      | nil => simp [step, hloop, hcommands] at hstep
      | cons command rest =>
          simp only [step, hloop, hcommands, Option.some.injEq] at hstep
          exact ⟨command, rest, rfl, hstep.symm⟩

theorem step_publish (hstep : step state (.publish channel) = some next) :
    state.loop = none ∧ next = state.publish channel := by
  cases hloop : state.loop with
  | some loop => simp [step, hloop] at hstep
  | none =>
      simp only [step, hloop, Option.some.injEq] at hstep
      exact ⟨rfl, hstep.symm⟩

theorem Invariant.step (hinv : Invariant state)
    (hkeeps : KeepsSubscribed state label)
    (hstep : step state label = some next) : Invariant next := by
  cases label with
  | subscribe channel handler =>
      cases hstep
      cases hexisting : (state.pubSub.handlers.get channel).isSome with
      | false => exact hinv.subscribe_first hexisting
      | true => exact hinv.subscribe_next hexisting (hkeeps hexisting)
  | unsubscribe channel handler =>
      cases hstep
      exact hinv.unsubscribe channel handler
  | settle accepted =>
      obtain ⟨command, rest, hcommands, rfl⟩ := step_settle hstep
      simp only [KeepsSubscribed, hcommands] at hkeeps
      exact hinv.settle hcommands hkeeps
  | publish channel =>
      obtain ⟨-, rfl⟩ := step_publish hstep
      exact hinv.publish channel
  | finish throws =>
      obtain ⟨loop, hloop, rfl⟩ := Option.map_eq_some_iff.mp hstep
      exact hinv.finish hloop fun hthrows => hkeeps hthrows loop hloop

/-- A handler that is added without a subscription, an UNSUBSCRIBE under a
handler that counts on it, a last SUBSCRIBE that is rejected, or a handler
that throws before one that is owed the message. -/
theorem not_law_of_step (hnot : ¬KeepsSubscribed state label)
    (hstep : step state label = some next) : ¬SubscriptionLaw next := by
  intro hlaw
  apply hnot
  cases label with
  | subscribe channel handler =>
      intro hexisting
      cases hstep
      have hresolved : (channel, handler) ∈
          (state.subscribe channel handler).resolved := by
        rw [subscribe_of_isSome hexisting]
        exact List.mem_append_right _ List.mem_cons_self
      have hmem := (mem_receivers.mp
        (hlaw.receives channel handler hresolved)).1
      rwa [subscribe_of_isSome hexisting] at hmem
  | unsubscribe channel handler => trivial
  | publish channel => trivial
  | finish throws =>
      rintro rfl loop hloop handler - howed
      simp only [step, Option.mem_def.mp hloop, Option.map_some,
        Option.some.injEq] at hstep
      have hmissed := hlaw.delivered
      rw [← hstep] at hmissed
      have hnil : loop.owed = [] := (List.append_eq_nil_iff.mp hmissed).2
      rw [hnil] at howed
      cases howed
  | settle accepted =>
      obtain ⟨command, rest, hcommands, hnext⟩ := step_settle hstep
      simp only [KeepsSubscribed, hcommands]
      rw [settle_commands] at hnext
      subst hnext
      match command, accepted with
      | .subscribe channel _, true => trivial
      | .unsubscribe channel, false => trivial
      | .subscribe channel _, false =>
          by_cases hrest : ∃ command ∈ rest, command.channel = channel
          · exact .inl hrest
          · right
            rw [or_iff_not_imp_left]
            intro hzero
            refine hlaw.quiet channel ?_ (Nat.pos_of_ne_zero hzero)
            intro command hcommand heq
            exact hrest ⟨command, hcommand, heq⟩
      | .unsubscribe channel, true =>
          rintro ⟨closed, handler⟩ hresolved rfl
          have hmem := (mem_receivers.mp
            (hlaw.receives closed handler hresolved)).1
          exact (InsertionSet.mem_delete.mp hmem).2 rfl

/-- In a run, a channel without commands in flight has handlers only if the
client is subscribed to it, and a resolved handler gets what is published, if
and only if every step keeps the channels with handlers subscribed and no
handler throws ahead of one that is owed the message. -/
theorem subscriptionLaw_iff_keepsSubscribed {labels : List (Label C H)}
    (hrun : exec step State.initial labels = some state) :
    Throughout step SubscriptionLaw State.initial labels ↔
      StepsMeet step KeepsSubscribed State.initial labels :=
  throughout_iff_stepsMeet (I := Invariant)
    (fun _ hinv => hinv.law)
    (fun _ _ _ hinv hkeeps hstep => hinv.step hkeeps hstep)
    (fun _ _ _ _ hnot hstep => not_law_of_step hnot hstep)
    invariant_initial hrun

/-- Two handlers for a channel whose SUBSCRIBE is answered in between. -/
def subscribeTwice (accepted : Bool) : List (Label ℕ ℕ) :=
  [.subscribe 0 1, .settle accepted, .subscribe 0 2]

/-- A message is published for two handlers. -/
def publishToTwo (throws : Bool) : List (Label ℕ ℕ) :=
  subscribeTwice true ++ [.publish 0, .finish throws]

theorem subscriptionLaw_iff_keepsSubscribed_samples :
    Throughout step SubscriptionLaw State.initial
        (publishToTwo false ++
          [.unsubscribe 0 (some 1), .finish false, .unsubscribe 0 none,
            .settle true]) ∧
      ¬Throughout step SubscriptionLaw State.initial
        (subscribeTwice false) ∧
      ¬Throughout step SubscriptionLaw State.initial (publishToTwo true) := by
  have haccepted : (exec step State.initial (publishToTwo false ++
      [.unsubscribe 0 (some 1), .finish false, .unsubscribe 0 none,
        .settle true])).isSome := by decide +kernel
  have hrejected : (exec step State.initial (subscribeTwice false)).isSome :=
    by decide +kernel
  have hthrows : (exec step State.initial (publishToTwo true)).isSome := by
    decide +kernel
  obtain ⟨_, haccepted⟩ := Option.isSome_iff_exists.mp haccepted
  obtain ⟨_, hrejected⟩ := Option.isSome_iff_exists.mp hrejected
  obtain ⟨_, hthrows⟩ := Option.isSome_iff_exists.mp hthrows
  refine ⟨?_, fun hlaw => ?_, fun hlaw => ?_⟩
  · apply (subscriptionLaw_iff_keepsSubscribed haccepted).mpr
    decide +kernel
  · have hmeet := (subscriptionLaw_iff_keepsSubscribed hrejected).mp hlaw
    exact absurd hmeet (by decide +kernel)
  · have hmeet := (subscriptionLaw_iff_keepsSubscribed hthrows).mp hlaw
    exact absurd hmeet (by decide +kernel)

/-- After a SUBSCRIBE was rejected, a second handler is taken for subscribed
although no command is in flight and nothing published reaches it. -/
theorem not_subscriptionLaw_of_rejection :
    ∃ state : State ℕ ℕ,
      exec step State.initial (subscribeTwice false) = some state ∧
      state.commands = [] ∧ state.pubSub.handlerCount 0 = 2 ∧
      0 ∉ state.subscribed ∧ (0, 2) ∈ state.resolved ∧
      state.receivers 0 = [] ∧ ¬SubscriptionLaw state := by
  have hends : (exec step State.initial (subscribeTwice false)).any
      (fun state => decide
        (state.commands.length = 0 ∧ state.pubSub.handlerCount 0 = 2 ∧
          0 ∉ state.subscribed ∧ (0, 2) ∈ state.resolved ∧
          state.receivers 0 = [])) = true := by
    decide +kernel
  obtain ⟨state, hrun, hfacts⟩ := (Option.any_eq_true _ _).mp hends
  obtain ⟨hlength, hcount, hnot, hresolved, hreceivers⟩ :=
    of_decide_eq_true hfacts
  have hcommands := List.length_eq_zero_iff.mp hlength
  refine ⟨state, hrun, hcommands, hcount, hnot, hresolved, hreceivers, ?_⟩
  intro hlaw
  have hreceives := hlaw.receives 0 2 hresolved
  rw [hreceivers] at hreceives
  cases hreceives

end TsCommons.CacheRedis.Subscriptions
