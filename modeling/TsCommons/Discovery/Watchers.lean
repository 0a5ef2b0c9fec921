import TsCommons.Discovery.ServiceRegistry

/-!
# What the watchers of a service know

A watcher is a call of `watch`.  The list that its handler was called with
last should hold the instances of its service.  It does as long as every
operation that changes those of a service calls the handlers of all its
watchers, and none changes those of a second service.  A health update may
miss the watchers whose lists hold the object that it writes to.
-/

namespace TsCommons.Discovery.Watchers

open Foundations

variable {H : Type}

/-- `last` is the list of the last delivery since the call. -/
structure Watcher (H : Type) where
  serviceName : String
  handler : H
  unwatched : Bool
  last : Option (List Reference)
deriving DecidableEq

structure State (H : Type) where
  registry : Registry H
  watchers : List (Watcher H)

def State.initial : State H := ⟨.empty, []⟩

/-- The last list that was delivered to a watcher equals the current one. -/
def WatchLaw (state : State H) : Prop :=
  ∀ watcher ∈ state.watchers, watcher.unwatched = false →
    ∀ instances ∈ watcher.last,
      instances.map state.registry.objects =
        (state.registry.discover watcher.serviceName .empty).map
          state.registry.objects

def State.informed (state : State H) (serviceName : String) :
    List (Watcher H) :=
  state.watchers.filter fun watcher =>
    watcher.serviceName = serviceName ∧ watcher.unwatched = false ∧
      watcher.last.isSome

theorem mem_informed_iff {state : State H} {serviceName : String}
    {watcher : Watcher H} :
    watcher ∈ state.informed serviceName ↔ watcher ∈ state.watchers ∧
      watcher.serviceName = serviceName ∧ watcher.unwatched = false ∧
        watcher.last.isSome := by
  simp [State.informed]

theorem mem_informed_of_last {state : State H} {watcher : Watcher H}
    {instances : List Reference} (hmem : watcher ∈ state.watchers)
    (hwatching : watcher.unwatched = false)
    (hlast : instances ∈ watcher.last) :
    watcher ∈ state.informed watcher.serviceName := by
  refine mem_informed_iff.mpr ⟨hmem, rfl, hwatching, ?_⟩
  rw [Option.mem_def.mp hlast]
  rfl

section Steps

variable [DecidableEq H]

def Watcher.receive (deliveries : List (Delivery H)) (watcher : Watcher H) :
    Watcher H :=
  match deliveries.find? fun delivery =>
      delivery.serviceName = watcher.serviceName ∧
        delivery.handler = watcher.handler with
  | some delivery => { watcher with last := some delivery.instances }
  | none => watcher

def State.deliver (state : State H)
    (result : Registry H × List (Delivery H)) : State H where
  registry := result.1
  watchers := state.watchers.map (Watcher.receive result.2)

inductive Label (H : Type)
  | register (service : ServiceInstance) (now : ℕ) (throwing : List H)
  | deregister (instanceId : String) (throwing : List H)
  | updateHealth (instanceId : String) (health : HealthStatus) (now : ℕ)
      (throwing : List H)
  | watch (serviceName : String) (handler : H)
  | unwatch (number : ℕ)

/-- The function that a call of `watch` returned may be called again. -/
def step (state : State H) : Label H → Option (State H)
  | .register service now throwing =>
      some (state.deliver (state.registry.register service now throwing).2)
  | .deregister instanceId throwing =>
      some (state.deliver (state.registry.deregister instanceId throwing).2)
  | .updateHealth instanceId health now throwing =>
      some (state.deliver
        (state.registry.updateHealth instanceId health now throwing).2)
  | .watch serviceName handler =>
      some {
        registry := state.registry.watch serviceName handler
        watchers := state.watchers ++ [⟨serviceName, handler, false, none⟩] }
  | .unwatch number =>
      state.watchers[number]?.map fun watcher =>
        { registry :=
            state.registry.unwatch watcher.serviceName watcher.handler
          watchers :=
            state.watchers.set number { watcher with unwatched := true } }

/-- A notification of the service calls the handlers of all watchers that have
had a delivery. -/
def State.ReachesAll (state : State H) (serviceName : String)
    (throwing : List H) : Prop :=
  ∀ watcher ∈ state.informed serviceName,
    watcher.handler ∈ state.registry.handlers serviceName throwing

/-- A notification reaches all watchers but those whose last lists hold the
object. -/
def State.ReachesRest (state : State H) (found : Reference)
    (throwing : List H) : Prop :=
  let serviceName := (state.registry.objects found).name
  ∀ watcher ∈ state.informed serviceName,
    watcher.handler ∈ state.registry.handlers serviceName throwing ∨
      ∀ instances ∈ watcher.last, found ∈ instances

/-- An operation that changes an instance reaches all watchers of its service,
and takes it from no other service whose watchers have had a delivery. -/
def KeepsInformed (state : State H) : Label H → Prop
  | .register service now throwing =>
      state.registry.contents.get service.id =
          some { service with registeredAt := now } ∨
        state.ReachesAll service.name throwing ∧
          ∀ old ∈ state.registry.contents.get service.id,
            old.name ≠ service.name → state.informed old.name = []
  | .deregister instanceId throwing =>
      ∀ found ∈ state.registry.instances.get instanceId,
        state.ReachesAll (state.registry.objects found).name throwing
  | .updateHealth instanceId health now throwing =>
      ∀ found ∈ state.registry.instances.get instanceId,
        state.registry.objects found =
            (state.registry.objects found).checked health now ∨
          state.ReachesRest found throwing
  | .watch _ _ => True
  | .unwatch _ => True

instance State.ReachesAll.decidable (state : State H) (serviceName : String)
    (throwing : List H) : Decidable (state.ReachesAll serviceName throwing) :=
  inferInstanceAs (Decidable (∀ watcher ∈ state.informed serviceName,
    watcher.handler ∈ state.registry.handlers serviceName throwing))

instance State.ReachesRest.decidable (state : State H) (found : Reference)
    (throwing : List H) : Decidable (state.ReachesRest found throwing) :=
  inferInstanceAs (Decidable (
    ∀ watcher ∈ state.informed (state.registry.objects found).name,
      watcher.handler ∈ state.registry.handlers
          (state.registry.objects found).name throwing ∨
        ∀ instances ∈ watcher.last, found ∈ instances))

instance KeepsInformed.decidable (state : State H) :
    (label : Label H) → Decidable (KeepsInformed state label)
  | .register service now throwing =>
      inferInstanceAs (Decidable (
        state.registry.contents.get service.id =
            some { service with registeredAt := now } ∨
          state.ReachesAll service.name throwing ∧
            ∀ old ∈ state.registry.contents.get service.id,
              old.name ≠ service.name → state.informed old.name = []))
  | .deregister instanceId throwing =>
      inferInstanceAs (Decidable (
        ∀ found ∈ state.registry.instances.get instanceId,
          state.ReachesAll (state.registry.objects found).name throwing))
  | .updateHealth instanceId health now throwing =>
      inferInstanceAs (Decidable (
        ∀ found ∈ state.registry.instances.get instanceId,
          state.registry.objects found =
              (state.registry.objects found).checked health now ∨
            state.ReachesRest found throwing))
  | .watch _ _ => inferInstanceAs (Decidable True)
  | .unwatch _ => inferInstanceAs (Decidable True)

variable {state next : State H} {registry : Registry H}
  {serviceName other : String} {throwing : List H} {watcher : Watcher H}
  {service found : ServiceInstance}

/-! ## Notifications -/

theorem receive_notifyWatchers :
    watcher.receive (registry.notifyWatchers serviceName throwing) =
      if watcher.serviceName = serviceName ∧
          watcher.handler ∈ registry.handlers serviceName throwing then
        { watcher with last := some (registry.discover serviceName .empty) }
      else watcher := by
  unfold Watcher.receive
  split
  · rename_i delivery hfind
    have hmatches := List.find?_some hfind
    simp only [decide_eq_true_eq] at hmatches
    obtain ⟨handler, hhandler, rfl⟩ :=
      List.mem_map.mp (List.mem_of_find?_eq_some hfind)
    obtain ⟨hname, hsame⟩ := hmatches
    subst hsame
    rw [if_pos ⟨hname.symm, hhandler⟩]
  · rename_i hfind
    rw [if_neg]
    rintro ⟨hname, hhandler⟩
    have hnone := List.find?_eq_none.mp hfind
      ⟨serviceName, watcher.handler, registry.discover serviceName .empty⟩
      (List.mem_map.mpr ⟨watcher.handler, hhandler, rfl⟩)
    exact hnone (by simp [hname])

/-- After a notification the law is that of the watchers that it did not
reach. -/
theorem watchLaw_notified_iff :
    WatchLaw (state.deliver
        (registry, registry.notifyWatchers serviceName throwing)) ↔
      ∀ watcher ∈ state.watchers, watcher.unwatched = false →
        ∀ instances ∈ watcher.last,
          watcher.serviceName = serviceName ∧
              watcher.handler ∈ registry.handlers serviceName throwing ∨
            instances.map registry.objects =
              (registry.discover watcher.serviceName .empty).map
                registry.objects := by
  constructor
  · intro hlaw watcher hmem hwatching instances hlast
    by_cases hheard : watcher.serviceName = serviceName ∧
        watcher.handler ∈ registry.handlers serviceName throwing
    · exact .inl hheard
    · have hmissed : watcher.receive
          (registry.notifyWatchers serviceName throwing) = watcher := by
        rw [receive_notifyWatchers, if_neg hheard]
      have hreceived : watcher ∈ (state.deliver
          (registry, registry.notifyWatchers serviceName throwing)).watchers :=
        List.mem_map.mpr ⟨watcher, hmem, hmissed⟩
      exact .inr (hlaw watcher hreceived hwatching instances hlast)
  · intro hrest received hreceived hwatching instances hlast
    obtain ⟨watcher, hmem, rfl⟩ := List.mem_map.mp hreceived
    rw [receive_notifyWatchers] at hlast hwatching ⊢
    by_cases hheard : watcher.serviceName = serviceName ∧
        watcher.handler ∈ registry.handlers serviceName throwing
    · rw [if_pos hheard] at hlast ⊢
      rw [← Option.some.inj hlast, hheard.1]
      rfl
    · rw [if_neg hheard] at hlast hwatching ⊢
      exact (hrest watcher hmem hwatching instances hlast).resolve_left hheard

/-! ## The invariant -/

structure Invariant (state : State H) : Prop where
  keyed : Keyed state.registry.contents
  allocated : state.registry.Allocated
  delivered : ∀ watcher ∈ state.watchers, ∀ instances ∈ watcher.last,
    ∀ found ∈ instances, found < state.registry.created

omit [DecidableEq H] in
theorem invariant_initial : Invariant (State.initial : State H) := by
  refine ⟨fun _ _ hget => ?_, fun _ hmem => ?_, fun _ hmem => ?_⟩
  · cases hget
  · cases hmem
  · cases hmem

/-- Where the objects stay as they were, watchers have to be told of the lists
that change. -/
theorem WatchLaw.notified_iff (hinv : Invariant state) (hlaw : WatchLaw state)
    (registry : Registry H) (serviceName : String) (throwing : List H)
    (hwatchers : registry.watchers = state.registry.watchers)
    (hobjects : ∀ found < state.registry.created,
      registry.objects found = state.registry.objects found) :
    WatchLaw (state.deliver
        (registry, registry.notifyWatchers serviceName throwing)) ↔
      ∀ other, ∀ watcher ∈ state.informed other,
        other = serviceName ∧
            watcher.handler ∈ state.registry.handlers serviceName throwing ∨
          listing registry.contents other =
            listing state.registry.contents other := by
  have hhandlers : registry.handlers serviceName throwing =
      state.registry.handlers serviceName throwing := by
    simp only [Registry.handlers, hwatchers]
  have hknown : ∀ watcher ∈ state.watchers, watcher.unwatched = false →
      ∀ instances ∈ watcher.last, instances.map registry.objects =
        listing state.registry.contents watcher.serviceName := by
    intro watcher hmem hwatching instances hlast
    rw [← Registry.map_discover, ← hlaw watcher hmem hwatching instances hlast]
    apply List.map_congr_left
    intro found hfound
    exact hobjects found (hinv.delivered watcher hmem instances hlast _ hfound)
  rw [watchLaw_notified_iff, hhandlers]
  constructor
  · intro hrest other watcher hinformed
    obtain ⟨hmem, rfl, hwatching, hlast⟩ := mem_informed_iff.mp hinformed
    obtain ⟨instances, hlast⟩ := Option.isSome_iff_exists.mp hlast
    refine (hrest watcher hmem hwatching instances hlast).imp_right ?_
    intro hcurrent
    rw [← Registry.map_discover, ← hcurrent]
    exact hknown watcher hmem hwatching instances hlast
  · intro hrest watcher hmem hwatching instances hlast
    have hinformed := mem_informed_of_last hmem hwatching hlast
    refine (hrest _ watcher hinformed).imp_right ?_
    intro hsame
    rw [Registry.map_discover, hsame]
    exact hknown watcher hmem hwatching instances hlast

theorem deliver_nil (state : State H) :
    state.deliver (state.registry, []) = state := by
  obtain ⟨registry, watchers⟩ := state
  have hreceive : Watcher.receive ([] : List (Delivery H)) = id := rfl
  rw [State.deliver, hreceive, List.map_id]

/-! ## The law -/

theorem Invariant.told_set_iff (hinv : Invariant state)
    (service : ServiceInstance) (throwing : List H) :
    (∀ other, ∀ watcher ∈ state.informed other,
      other = service.name ∧
          watcher.handler ∈ state.registry.handlers service.name throwing ∨
        listing (state.registry.contents.set service.id service) other =
          listing state.registry.contents other) ↔
      state.registry.contents.get service.id = some service ∨
        state.ReachesAll service.name throwing ∧
          ∀ old ∈ state.registry.contents.get service.id,
            old.name ≠ service.name → state.informed old.name = [] := by
  constructor
  · intro htold
    by_cases hsame : state.registry.contents.get service.id = some service
    · exact .inl hsame
    · refine .inr ⟨?_, ?_⟩
      · intro watcher hinformed
        rcases htold _ watcher hinformed with hheard | hlisting
        · exact hheard.2
        · exact absurd hlisting (hinv.keyed.listing_set_ne hsame)
      · intro old hold hmoved
        by_contra hsome
        obtain ⟨watcher, hinformed⟩ := List.exists_mem_of_ne_nil _ hsome
        rcases htold _ watcher hinformed with hheard | hlisting
        · exact hmoved hheard.1
        · exact absurd hlisting
            (hinv.keyed.listing_set_ne_of_moved hold hmoved)
  · rintro (hsame | ⟨hreaches, hmoved⟩) other watcher hinformed
    · rw [InsertionMap.set_of_get hsame]
      exact .inr rfl
    · by_cases hname : other = service.name
      · subst hname
        exact .inl ⟨rfl, hreaches watcher hinformed⟩
      · refine .inr (listing_set_of_ne (Ne.symm hname) ?_)
        rintro old hold rfl
        rw [hmoved old hold hname] at hinformed
        cases hinformed

theorem Invariant.told_delete_iff (hinv : Invariant state)
    {instanceId : String} {found : ServiceInstance}
    (hget : state.registry.contents.get instanceId = some found)
    (throwing : List H) :
    (∀ other, ∀ watcher ∈ state.informed other,
      other = found.name ∧
          watcher.handler ∈ state.registry.handlers found.name throwing ∨
        listing (state.registry.contents.delete instanceId) other =
          listing state.registry.contents other) ↔
      state.ReachesAll found.name throwing := by
  constructor
  · intro htold watcher hinformed
    rcases htold _ watcher hinformed with hheard | hlisting
    · exact hheard.2
    · exact absurd hlisting (hinv.keyed.listing_delete_ne hget)
  · intro hreaches other watcher hinformed
    by_cases hname : other = found.name
    · subst hname
      exact .inl ⟨rfl, hreaches watcher hinformed⟩
    · refine .inr (listing_delete_of_ne ?_)
      intro old hold
      rw [Option.mem_unique hold hget]
      exact Ne.symm hname

theorem WatchLaw.register_iff (hinv : Invariant state)
    (hlaw : WatchLaw state) (service : ServiceInstance) (now : ℕ)
    (throwing : List H) :
    WatchLaw (state.deliver (state.registry.register service now throwing).2) ↔
      KeepsInformed state (.register service now throwing) := by
  have hnotified := hlaw.notified_iff hinv
    (state.registry.register service now throwing).2.1 service.name throwing
    rfl fun found hfound => Function.update_of_ne (Nat.ne_of_lt hfound) _ _
  rw [contents_register hinv.allocated] at hnotified
  exact hnotified.trans
    (hinv.told_set_iff { service with registeredAt := now } throwing)

theorem WatchLaw.deregister_iff (hinv : Invariant state)
    (hlaw : WatchLaw state) (instanceId : String) (throwing : List H) :
    WatchLaw (state.deliver
        (state.registry.deregister instanceId throwing).2) ↔
      KeepsInformed state (.deregister instanceId throwing) := by
  cases hget : state.registry.instances.get instanceId with
  | none =>
      rw [Registry.deregister, hget, deliver_nil]
      exact iff_of_true hlaw (by simp [KeepsInformed, hget])
  | some found =>
      have hstored : state.registry.contents.get instanceId =
          some (state.registry.objects found) := by
        rw [Registry.get_contents, hget]
        rfl
      have hnotified := hlaw.notified_iff hinv
        (state.registry.remove instanceId) (state.registry.objects found).name
        throwing rfl fun _ _ => rfl
      rw [Registry.contents_remove] at hnotified
      simp only [KeepsInformed, hget, Option.mem_some_iff, forall_eq']
      rw [deregister_of_get hget]
      exact hnotified.trans (hinv.told_delete_iff hstored throwing)

omit [DecidableEq H] in
/-- A list of references equals the current one after a write to an object of
the service if it holds the object or nothing changes. -/
theorem Invariant.current_write_iff (hinv : Invariant state)
    {instanceId : String} {found : Reference} {written : ServiceInstance}
    (hget : state.registry.instances.get instanceId = some found)
    (hname : written.name = (state.registry.objects found).name)
    {instances : List Reference}
    (hcurrent : instances.map state.registry.objects =
      (state.registry.discover serviceName .empty).map
        state.registry.objects) :
    instances.map (state.registry.write found written).objects =
        ((state.registry.write found written).discover
          serviceName .empty).map
            (state.registry.write found written).objects ↔
      state.registry.objects found = written ∨
        ((state.registry.objects found).name = serviceName →
          found ∈ instances) := by
  have hnodup : ((state.registry.discover serviceName .empty).map
      state.registry.objects).Nodup := by
    rw [Registry.map_discover]
    exact hinv.keyed.nodup_values.filter _
  rw [Registry.discover_write hname, Registry.write,
    map_update_eq_iff hnodup hcurrent, Registry.mem_discover_iff hget]
  refine or_congr_right ⟨Iff.mpr, fun hholds => ⟨?_, hholds⟩⟩
  intro hmem
  have hshown := List.mem_map_of_mem (f := state.registry.objects) hmem
  rw [hcurrent, Registry.map_discover, hinv.keyed.mem_listing_iff] at hshown
  exact hshown.2

theorem WatchLaw.write_iff (hinv : Invariant state) (hlaw : WatchLaw state)
    {instanceId : String} {found : Reference} {written : ServiceInstance}
    (hget : state.registry.instances.get instanceId = some found)
    (hname : written.name = (state.registry.objects found).name)
    (throwing : List H) :
    WatchLaw (state.deliver (state.registry.write found written,
        (state.registry.write found written).notifyWatchers
          (state.registry.objects found).name throwing)) ↔
      state.registry.objects found = written ∨
        state.ReachesRest found throwing := by
  rw [watchLaw_notified_iff]
  constructor
  · intro hrest
    by_cases hsame : state.registry.objects found = written
    · exact .inl hsame
    refine .inr fun watcher hinformed => ?_
    obtain ⟨hmem, hservice, hwatching, hlast⟩ := mem_informed_iff.mp hinformed
    obtain ⟨instances, hlast⟩ := Option.isSome_iff_exists.mp hlast
    rcases hrest watcher hmem hwatching instances hlast with
      hheard | hcurrent
    · exact .inl hheard.2
    · rw [hinv.current_write_iff hget hname
        (hlaw watcher hmem hwatching instances hlast)] at hcurrent
      refine .inr fun other hother => ?_
      rw [Option.mem_unique hother hlast]
      exact hcurrent.resolve_left hsame hservice.symm
  · intro hkeeps watcher hmem hwatching instances hlast
    rw [hinv.current_write_iff hget hname
      (hlaw watcher hmem hwatching instances hlast)]
    rcases hkeeps with hsame | hreaches
    · exact .inr (.inl hsame)
    by_cases hservice :
        (state.registry.objects found).name = watcher.serviceName
    · have hinformed := mem_informed_of_last hmem hwatching hlast
      rw [← hservice] at hinformed
      rcases hreaches watcher hinformed with hheard | hholds
      · exact .inl ⟨hservice.symm, hheard⟩
      · exact .inr (.inr fun _ => hholds instances hlast)
    · exact .inr (.inr fun hsame => absurd hsame hservice)

theorem WatchLaw.updateHealth_iff (hinv : Invariant state)
    (hlaw : WatchLaw state) (instanceId : String) (health : HealthStatus)
    (now : ℕ) (throwing : List H) :
    WatchLaw (state.deliver
        (state.registry.updateHealth instanceId health now throwing).2) ↔
      KeepsInformed state (.updateHealth instanceId health now throwing) := by
  cases hget : state.registry.instances.get instanceId with
  | none =>
      rw [Registry.updateHealth, hget, deliver_nil]
      exact iff_of_true hlaw (by simp [KeepsInformed, hget])
  | some found =>
      have hname : ((state.registry.objects found).checked health now).name =
          (state.registry.objects found).name := rfl
      simp only [KeepsInformed, hget, Option.mem_some_iff, forall_eq']
      rw [updateHealth_of_get hget]
      exact hlaw.write_iff hinv hget hname throwing

/-- A step keeps the law if and only if it keeps the watchers informed. -/
theorem WatchLaw.step_iff (hinv : Invariant state) (hlaw : WatchLaw state)
    {label : Label H} (hstep : step state label = some next) :
    WatchLaw next ↔ KeepsInformed state label := by
  cases label with
  | register service now throwing =>
      cases hstep
      exact hlaw.register_iff hinv service now throwing
  | deregister instanceId throwing =>
      cases hstep
      exact hlaw.deregister_iff hinv instanceId throwing
  | updateHealth instanceId health now throwing =>
      cases hstep
      exact hlaw.updateHealth_iff hinv instanceId health now throwing
  | watch serviceName handler =>
      cases hstep
      refine iff_of_true ?_ trivial
      intro watcher hmem hwatching instances hlast
      rcases List.mem_append.mp hmem with hold | hnew
      · exact hlaw watcher hold hwatching instances hlast
      · rw [List.mem_singleton.mp hnew] at hlast
        cases hlast
  | unwatch number =>
      obtain ⟨unwatched, hunwatched, rfl⟩ := Option.map_eq_some_iff.mp hstep
      refine iff_of_true ?_ trivial
      intro watcher hmem hwatching instances hlast
      obtain ⟨watchers, hsame⟩ := unwatch_eq state.registry
        unwatched.serviceName unwatched.handler
      rw [hsame]
      rcases List.mem_or_eq_of_mem_set hmem with hold | rfl
      · exact hlaw watcher hold hwatching instances hlast
      · cases hwatching

/-! ## The invariant is kept -/

theorem Invariant.notified (hinv : Invariant state) (registry : Registry H)
    (hkeyed : Keyed registry.contents) (hallocated : registry.Allocated)
    (hcreated : state.registry.created ≤ registry.created)
    (serviceName : String) (throwing : List H) :
    Invariant (state.deliver
      (registry, registry.notifyWatchers serviceName throwing)) := by
  refine ⟨hkeyed, hallocated, ?_⟩
  intro received hreceived instances hlast found hfound
  obtain ⟨watcher, hmem, rfl⟩ := List.mem_map.mp hreceived
  rw [receive_notifyWatchers] at hlast
  split at hlast
  · rw [← Option.some.inj hlast] at hfound
    exact hallocated found (List.mem_of_mem_filter hfound)
  · have hold := hinv.delivered watcher hmem instances hlast found hfound
    exact Nat.lt_of_lt_of_le hold hcreated

theorem Invariant.register (hinv : Invariant state)
    (service : ServiceInstance) (now : ℕ) (throwing : List H) :
    Invariant (state.deliver
      (state.registry.register service now throwing).2) := by
  have hcontents := contents_register hinv.allocated service now throwing
  refine hinv.notified _ ?_ ?_ (Nat.le_succ _) service.name throwing
  · exact hcontents ▸ hinv.keyed.set { service with registeredAt := now }
  · intro found hfound
    obtain ⟨id, hget⟩ := InsertionMap.mem_values_iff.mp hfound
    rw [InsertionMap.get_set] at hget
    split at hget
    · cases hget
      exact Nat.lt_succ_self _
    · have hold := InsertionMap.mem_values_iff.mpr ⟨id, hget⟩
      exact Nat.lt_succ_of_lt (hinv.allocated found hold)

theorem Invariant.deregister (hinv : Invariant state) (instanceId : String)
    (throwing : List H) :
    Invariant (state.deliver
      (state.registry.deregister instanceId throwing).2) := by
  cases hget : state.registry.instances.get instanceId with
  | none =>
      rw [Registry.deregister, hget, deliver_nil]
      exact hinv
  | some found =>
      rw [deregister_of_get hget]
      refine hinv.notified (state.registry.remove instanceId) ?_ ?_
        (Nat.le_refl _) _ throwing
      · rw [Registry.contents_remove]
        exact hinv.keyed.delete instanceId
      · intro other hother
        obtain ⟨id, hstored⟩ := InsertionMap.mem_values_iff.mp hother
        rw [Registry.remove, InsertionMap.get_delete] at hstored
        split at hstored
        · cases hstored
        · have hold := InsertionMap.mem_values_iff.mpr ⟨id, hstored⟩
          exact hinv.allocated other hold

theorem Invariant.updateHealth (hinv : Invariant state) (instanceId : String)
    (health : HealthStatus) (now : ℕ) (throwing : List H) :
    Invariant (state.deliver
      (state.registry.updateHealth instanceId health now throwing).2) := by
  cases hget : state.registry.instances.get instanceId with
  | none =>
      rw [Registry.updateHealth, hget, deliver_nil]
      exact hinv
  | some found =>
      rw [updateHealth_of_get hget]
      refine hinv.notified (state.registry.write found _) ?_ hinv.allocated
        (Nat.le_refl _) _ throwing
      exact hinv.keyed.write rfl

theorem Invariant.step (hinv : Invariant state) {label : Label H}
    (hstep : step state label = some next) : Invariant next := by
  cases label with
  | register service now throwing =>
      cases hstep
      exact hinv.register service now throwing
  | deregister instanceId throwing =>
      cases hstep
      exact hinv.deregister instanceId throwing
  | updateHealth instanceId health now throwing =>
      cases hstep
      exact hinv.updateHealth instanceId health now throwing
  | watch serviceName handler =>
      cases hstep
      refine ⟨hinv.keyed, hinv.allocated, ?_⟩
      intro watcher hmem instances hlast
      rcases List.mem_append.mp hmem with hold | hnew
      · exact hinv.delivered watcher hold instances hlast
      · rw [List.mem_singleton.mp hnew] at hlast
        cases hlast
  | unwatch number =>
      obtain ⟨unwatched, hunwatched, rfl⟩ := Option.map_eq_some_iff.mp hstep
      obtain ⟨watchers, hsame⟩ := unwatch_eq state.registry
        unwatched.serviceName unwatched.handler
      rw [hsame]
      refine ⟨hinv.keyed, hinv.allocated, ?_⟩
      intro watcher hmem instances hlast
      rcases List.mem_or_eq_of_mem_set hmem with hold | rfl
      · exact hinv.delivered watcher hold instances hlast
      · exact hinv.delivered unwatched (List.mem_of_getElem? hunwatched)
          instances hlast

/-- Watchers know the current lists of their services, in every state of a
run, if and only if all its steps keep them informed. -/
theorem watchLaw_iff_keepsInformed {labels : List (Label H)}
    (hrun : exec step State.initial labels = some state) :
    Throughout step WatchLaw (State.initial : State H) labels ↔
      StepsMeet step KeepsInformed (State.initial : State H) labels := by
  have hinit : Invariant (State.initial : State H) ∧
      WatchLaw (State.initial : State H) := by
    refine ⟨invariant_initial, fun _ hmem => ?_⟩
    cases hmem
  exact throughout_iff_stepsMeet
    (I := fun state => Invariant state ∧ WatchLaw state)
    (fun _ hinv => hinv.2)
    (fun _ _ _ hinv hkeeps hstep =>
      ⟨hinv.1.step hstep, (hinv.2.step_iff hinv.1 hstep).mpr hkeeps⟩)
    (fun _ _ _ hinv hnot hstep hlaw =>
      hnot ((hinv.2.step_iff hinv.1 hstep).mp hlaw))
    hinit hrun

def named (name : String) : ServiceInstance :=
  ⟨"i1", name, "localhost", 80, none, none, .healthy, 0, none⟩

/-- The instance of a watched service is checked, taken out and registered
under another name. -/
def movesDeregistered : List (Label ℕ) :=
  [.watch "a" 1, .register (named "a") 10 [],
    .updateHealth "i1" .unhealthy 20 [], .deregister "i1" [],
    .register (named "b") 30 []]

/-- The instance of a watched service is registered under another name. -/
def movesRegistered : List (Label ℕ) :=
  [.watch "a" 1, .register (named "a") 10 [], .register (named "b") 20 []]

theorem watchLaw_iff_keepsInformed_samples :
    Throughout step WatchLaw State.initial movesDeregistered ∧
      ¬ Throughout step WatchLaw State.initial movesRegistered := by
  have hderegistered : (exec step State.initial movesDeregistered).isSome := by
    decide +kernel
  have hregistered : (exec step State.initial movesRegistered).isSome := by
    decide +kernel
  obtain ⟨_, hderegistered⟩ := Option.isSome_iff_exists.mp hderegistered
  obtain ⟨_, hregistered⟩ := Option.isSome_iff_exists.mp hregistered
  constructor
  · apply (watchLaw_iff_keepsInformed hderegistered).mpr
    decide +kernel
  · intro hlaw
    have hmeet := (watchLaw_iff_keepsInformed hregistered).mp hlaw
    exact absurd hmeet (by decide +kernel)

/-- The watcher of "a" is not told that its instance has left. -/
theorem not_watchLaw_movesRegistered :
    ∃ state, exec step State.initial movesRegistered = some state ∧
      state.watchers = [⟨"a", 1, false, some [0]⟩] ∧
      state.registry.discover "a" .empty = [] ∧
      ¬ WatchLaw state := by
  have hsome : (exec step State.initial movesRegistered).map (fun state =>
      (state.watchers, state.registry.discover "a" .empty)) =
        some ([⟨"a", 1, false, some [0]⟩], []) := by
    decide +kernel
  obtain ⟨state, hrun, hfacts⟩ := Option.map_eq_some_iff.mp hsome
  simp only [Prod.mk.injEq] at hfacts
  obtain ⟨hwatchers, hdiscover⟩ := hfacts
  refine ⟨state, hrun, hwatchers, hdiscover, fun hlaw => ?_⟩
  have hknown := hlaw ⟨"a", 1, false, some [0]⟩
    (by rw [hwatchers]; exact List.mem_cons_self) rfl _ rfl
  rw [hdiscover] at hknown
  cases hknown

end Steps

end TsCommons.Discovery.Watchers
