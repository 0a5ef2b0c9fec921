import TsCommons.Foundations.Callbacks
import TsCommons.Foundations.Execution
import TsCommons.Foundations.InsertionMap
import TsCommons.Foundations.InsertionSet
import TsCommons.Foundations.References

/-!
# The service registry

Instances are stored by id and watched by service name.  An operation notifies
the handlers of one service, in the order in which they were added and up to
the first that throws, with what `discover` returns then.  A registration that
moves an id to another service changes the lists of two.  Lists hold
references: what is written to an object shows in all of them.
-/

namespace TsCommons.Discovery

open Foundations

variable {H : Type}

inductive HealthStatus
  | healthy
  | unhealthy
  | unknown
deriving DecidableEq, Inhabited

structure ServiceInstance where
  id : String
  name : String
  host : String
  port : ℕ
  tags : Option (List String)
  metadata : Option (List (String × String))
  health : HealthStatus
  registeredAt : ℕ
  lastCheckedAt : Option ℕ
deriving DecidableEq, Inhabited

/-- What `updateHealth` writes. -/
def ServiceInstance.checked (found : ServiceInstance) (health : HealthStatus)
    (now : ℕ) : ServiceInstance :=
  { found with health := health, lastCheckedAt := some now }

/-- The number of an object that `register` made. -/
abbrev Reference := ℕ

structure DiscoveryOptions where
  healthyOnly : Option Bool
  tags : Option (List String)

def DiscoveryOptions.empty : DiscoveryOptions := ⟨none, none⟩

/-- `objects` are the contents of the objects, `created` their number. -/
structure Registry (H : Type) where
  objects : Reference → ServiceInstance
  created : ℕ
  instances : InsertionMap String Reference
  watchers : InsertionMap String (InsertionSet H)

/-- A call of the handler of a service with a list of instances. -/
structure Delivery (H : Type) where
  serviceName : String
  handler : H
  instances : List Reference

def ServiceInstance.hasTags (found : ServiceInstance) (tags : List String) :
    Bool :=
  tags.all fun tag => (found.tags.map fun own => own.contains tag) = some true

namespace Registry

def empty : Registry H := ⟨fun _ => default, 0, .empty, .empty⟩

def discover (registry : Registry H) (serviceName : String)
    (options : DiscoveryOptions) : List Reference :=
  let named := registry.instances.values.filter fun found =>
    (registry.objects found).name = serviceName
  let healthy :=
    if options.healthyOnly = some true then
      named.filter fun found => (registry.objects found).health = .healthy
    else named
  match options.tags with
  | some tags =>
      if tags.length > 0 then
        healthy.filter fun found => (registry.objects found).hasTags tags
      else healthy
  | none => healthy

def getHealthy (registry : Registry H) (serviceName : String) :
    List Reference :=
  registry.discover serviceName ⟨some true, none⟩

def instanceCount (registry : Registry H) : ℕ := registry.instances.size

section Operations

variable [DecidableEq H]

/-- The handlers of a service that are called when some of them throw. -/
def handlers (registry : Registry H) (serviceName : String)
    (throwing : List H) : List H :=
  match registry.watchers.get serviceName with
  | none => []
  | some handlers => reached (· ∈ throwing) handlers.elements

def notifyWatchers (registry : Registry H) (serviceName : String)
    (throwing : List H) : List (Delivery H) :=
  let current := registry.discover serviceName .empty
  (registry.handlers serviceName throwing).map fun handler =>
    ⟨serviceName, handler, current⟩

/-- The answer, the registry afterwards and the deliveries.  Where a handler
throws the caller gets its exception in place of the answer. -/
def register (registry : Registry H) (service : ServiceInstance) (now : ℕ)
    (throwing : List H) : Reference × Registry H × List (Delivery H) :=
  let registered := { service with registeredAt := now }
  let next : Registry H :=
    { registry with
      objects := Function.update registry.objects registry.created registered
      created := registry.created + 1
      instances := registry.instances.set service.id registry.created }
  (registry.created, next, next.notifyWatchers service.name throwing)

def deregister (registry : Registry H) (instanceId : String)
    (throwing : List H) : Bool × Registry H × List (Delivery H) :=
  match registry.instances.get instanceId with
  | none => (false, registry, [])
  | some found =>
      let next : Registry H :=
        { registry with instances := registry.instances.delete instanceId }
      (true, next,
        next.notifyWatchers (registry.objects found).name throwing)

/-- The object is written to in place. -/
def updateHealth (registry : Registry H) (instanceId : String)
    (health : HealthStatus) (now : ℕ) (throwing : List H) :
    Bool × Registry H × List (Delivery H) :=
  match registry.instances.get instanceId with
  | none => (false, registry, [])
  | some found =>
      let checked := (registry.objects found).checked health now
      let next : Registry H :=
        { registry with
          objects := Function.update registry.objects found checked }
      (true, next, next.notifyWatchers checked.name throwing)

def watch (registry : Registry H) (serviceName : String) (handler : H) :
    Registry H :=
  let handlers := (registry.watchers.get serviceName).getD .empty
  { registry with
    watchers := registry.watchers.set serviceName (handlers.add handler) }

/-- The function that a call of `watch` returns. -/
def unwatch (registry : Registry H) (serviceName : String) (handler : H) :
    Registry H :=
  match registry.watchers.get serviceName with
  | none => registry
  | some handlers =>
      { registry with
        watchers :=
          registry.watchers.set serviceName (handlers.delete handler) }

end Operations

end Registry

/-! ## Lists that change -/

section Listings

variable {contents : InsertionMap String ServiceInstance}
  {service found : ServiceInstance} {serviceName other : String}

def listing (contents : InsertionMap String ServiceInstance)
    (serviceName : String) : List ServiceInstance :=
  contents.values.filter (·.name = serviceName)

/-- Instances are stored under their own ids. -/
def Keyed (contents : InsertionMap String ServiceInstance) : Prop :=
  ∀ id found, contents.get id = some found → found.id = id

theorem Keyed.mem_listing_iff (hkeyed : Keyed contents) :
    found ∈ listing contents serviceName ↔
      contents.get found.id = some found ∧ found.name = serviceName := by
  rw [listing, List.mem_filter, InsertionMap.mem_values_iff,
    decide_eq_true_eq]
  constructor
  · rintro ⟨⟨id, hget⟩, hname⟩
    rw [hkeyed id found hget]
    exact ⟨hget, hname⟩
  · rintro ⟨hget, hname⟩
    exact ⟨⟨found.id, hget⟩, hname⟩

theorem Keyed.set (hkeyed : Keyed contents) (service : ServiceInstance) :
    Keyed (contents.set service.id service) := by
  intro id found hget
  rw [InsertionMap.get_set] at hget
  by_cases heq : id = service.id
  · rw [if_pos heq, Option.some.injEq] at hget
    rw [← hget, heq]
  · rw [if_neg heq] at hget
    exact hkeyed id found hget

theorem Keyed.delete (hkeyed : Keyed contents) (removed : String) :
    Keyed (contents.delete removed) := by
  intro id found hget
  rw [InsertionMap.get_delete] at hget
  by_cases heq : id = removed
  · rw [if_pos heq] at hget
    cases hget
  · rw [if_neg heq] at hget
    exact hkeyed id found hget

theorem Keyed.nodup_values (hkeyed : Keyed contents) :
    contents.values.Nodup := by
  have hids : contents.values.map ServiceInstance.id = contents.keys := by
    rw [InsertionMap.values, InsertionMap.keys, List.map_map]
    apply List.map_congr_left
    rintro ⟨id, found⟩ hmem
    exact hkeyed id found (InsertionMap.get_eq_some_iff.mpr hmem)
  apply List.Nodup.of_map ServiceInstance.id
  rw [hids]
  exact contents.nodup

theorem listing_set_of_ne (hname : service.name ≠ other)
    (hold : ∀ old ∈ contents.get service.id, old.name ≠ other) :
    listing (contents.set service.id service) other =
      listing contents other := by
  apply InsertionMap.filter_values_set
  · exact decide_eq_false hname
  · exact fun old hget => decide_eq_false (hold old hget)

theorem listing_delete_of_ne {id : String}
    (hold : ∀ old ∈ contents.get id, old.name ≠ other) :
    listing (contents.delete id) other = listing contents other :=
  InsertionMap.filter_values_delete fun old hget =>
    decide_eq_false (hold old hget)

/-- The lists of a service differ if an instance of it is stored on one side
only. -/
theorem Keyed.listing_ne {left right : InsertionMap String ServiceInstance}
    (hleft : Keyed left) (hright : Keyed right) {id : String}
    (hget : left.get id = some found) (hgone : right.get id ≠ some found) :
    listing left found.name ≠ listing right found.name := by
  obtain rfl := hleft id found hget
  intro hsame
  have hmem : found ∈ listing left found.name :=
    hleft.mem_listing_iff.mpr ⟨hget, rfl⟩
  rw [hsame] at hmem
  exact hgone (hright.mem_listing_iff.mp hmem).1

theorem Keyed.listing_set_ne (hkeyed : Keyed contents)
    (hnew : contents.get service.id ≠ some service) :
    listing (contents.set service.id service) service.name ≠
      listing contents service.name :=
  (hkeyed.set service).listing_ne hkeyed (contents.get_set_self _ _) hnew

theorem Keyed.listing_set_ne_of_moved (hkeyed : Keyed contents)
    (hget : contents.get service.id = some found)
    (hmoved : found.name ≠ service.name) :
    listing (contents.set service.id service) found.name ≠
      listing contents found.name := by
  refine (hkeyed.listing_ne (hkeyed.set service) hget ?_).symm
  rw [InsertionMap.get_set_self, ne_eq, Option.some.injEq]
  rintro rfl
  exact hmoved rfl

theorem Keyed.listing_delete_ne (hkeyed : Keyed contents) {id : String}
    (hget : contents.get id = some found) :
    listing (contents.delete id) found.name ≠ listing contents found.name := by
  refine (hkeyed.listing_ne (hkeyed.delete id) hget ?_).symm
  rw [InsertionMap.get_delete_self]
  exact (Option.some_ne_none found).symm

end Listings

/-! ## References that are followed -/

variable {registry : Registry H}

/-- The instances that are stored, without their objects. -/
def Registry.contents (registry : Registry H) :
    InsertionMap String ServiceInstance :=
  registry.instances.mapValues registry.objects

theorem Registry.map_discover (registry : Registry H) (serviceName : String) :
    (registry.discover serviceName .empty).map registry.objects =
      listing registry.contents serviceName := by
  have hdiscover : registry.discover serviceName .empty =
      registry.instances.values.filter fun found =>
        (registry.objects found).name = serviceName := rfl
  rw [hdiscover, listing, contents, InsertionMap.values_mapValues,
    List.filter_map]
  rfl

/-- Stored objects have been created. -/
def Registry.Allocated (registry : Registry H) : Prop :=
  ∀ found ∈ registry.instances.values, found < registry.created

theorem Registry.get_contents (registry : Registry H) (id : String) :
    registry.contents.get id =
      (registry.instances.get id).map registry.objects :=
  InsertionMap.get_mapValues _ _ _

def Registry.remove (registry : Registry H) (id : String) : Registry H :=
  { registry with instances := registry.instances.delete id }

def Registry.write (registry : Registry H) (found : Reference)
    (written : ServiceInstance) : Registry H :=
  { registry with objects := Function.update registry.objects found written }

theorem Registry.contents_remove (registry : Registry H) (id : String) :
    (registry.remove id).contents = registry.contents.delete id :=
  InsertionMap.mapValues_delete _ _ _

/-- A write that keeps the name of an instance changes no list of
references. -/
theorem Registry.discover_write {found : Reference}
    {written : ServiceInstance}
    (hname : written.name = (registry.objects found).name)
    (serviceName : String) :
    (registry.write found written).discover serviceName .empty =
      registry.discover serviceName .empty := by
  apply List.filter_congr
  intro other _
  have hsame : (Function.update registry.objects found written other).name =
      (registry.objects other).name := by
    by_cases heq : other = found
    · rw [heq, Function.update_self, hname]
    · rw [Function.update_of_ne heq]
  exact congrArg (fun name => decide (name = serviceName)) hsame

theorem Registry.mem_discover_iff {id : String} {found : Reference}
    (hget : registry.instances.get id = some found) (serviceName : String) :
    found ∈ registry.discover serviceName .empty ↔
      (registry.objects found).name = serviceName := by
  have hdiscover : registry.discover serviceName .empty =
      registry.instances.values.filter fun found =>
        (registry.objects found).name = serviceName := rfl
  rw [hdiscover, List.mem_filter, decide_eq_true_eq]
  exact and_iff_right (InsertionMap.mem_values_iff.mpr ⟨id, hget⟩)

theorem Keyed.write (hkeyed : Keyed registry.contents) {found : Reference}
    {written : ServiceInstance}
    (hid : written.id = (registry.objects found).id) :
    Keyed (registry.write found written).contents := by
  intro id stored hstored
  rw [Registry.get_contents] at hstored
  obtain ⟨other, hother, rfl⟩ := Option.map_eq_some_iff.mp hstored
  have hget : registry.instances.get id = some other := hother
  have hbefore : (registry.objects other).id = id := by
    apply hkeyed id
    rw [Registry.get_contents, hget]
    rfl
  have hsame : (Function.update registry.objects found written other).id =
      (registry.objects other).id := by
    by_cases heq : other = found
    · rw [heq, Function.update_self, hid]
    · rw [Function.update_of_ne heq]
  exact hsame.trans hbefore

section Operations

variable [DecidableEq H]

theorem unwatch_eq (registry : Registry H) (serviceName : String)
    (handler : H) :
    ∃ watchers, registry.unwatch serviceName handler =
      { registry with watchers := watchers } := by
  rw [Registry.unwatch]
  split
  · exact ⟨registry.watchers, rfl⟩
  · exact ⟨_, rfl⟩

theorem contents_register (hallocated : registry.Allocated)
    (service : ServiceInstance) (now : ℕ) (throwing : List H) :
    (registry.register service now throwing).2.1.contents =
      registry.contents.set service.id
        { service with registeredAt := now } := by
  have hsame : registry.instances.mapValues (Function.update registry.objects
      registry.created { service with registeredAt := now }) =
        registry.contents := by
    apply InsertionMap.mapValues_congr
    intro found hfound
    exact Function.update_of_ne (Nat.ne_of_lt (hallocated found hfound)) _ _
  simp only [Registry.register, Registry.contents, InsertionMap.mapValues_set,
    Function.update_self]
  rw [hsame]
  rfl

theorem deregister_of_get {instanceId : String} {found : Reference}
    (hget : registry.instances.get instanceId = some found)
    (throwing : List H) :
    registry.deregister instanceId throwing =
      (true, registry.remove instanceId,
        (registry.remove instanceId).notifyWatchers
          (registry.objects found).name throwing) := by
  rw [Registry.deregister, hget]
  rfl

theorem updateHealth_of_get {instanceId : String} {found : Reference}
    (hget : registry.instances.get instanceId = some found)
    (health : HealthStatus) (now : ℕ) (throwing : List H) :
    registry.updateHealth instanceId health now throwing =
      (true,
        registry.write found ((registry.objects found).checked health now),
        (registry.write found
            ((registry.objects found).checked health now)).notifyWatchers
          (registry.objects found).name throwing) := by
  rw [Registry.updateHealth, hget]
  rfl

end Operations

end TsCommons.Discovery
