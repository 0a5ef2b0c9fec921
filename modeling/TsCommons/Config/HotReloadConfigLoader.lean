import TsCommons.Foundations.Callbacks
import TsCommons.Foundations.InsertionMap
import TsCommons.Foundations.InsertionSet

/-!
# The hot-reload configuration loader

A load reads the sources one after the other and validates what they give
together.  A reload waits for a load of its own, and then replaces the current
configuration and calls the listeners.
-/

namespace TsCommons.Config

open Foundations

variable {T F H : Type}

abbrev RawConfig := InsertionMap String (Option String)

/-- A source that fails with an error of its own, or the messages of the
schema. -/
inductive LoadError (F : Type)
  | source (error : F)
  | config (message : String) (validationErrors : List String)
deriving DecidableEq

structure ConfigLoader (T : Type) where
  validate : RawConfig → Except (List String) T
  sources : ℕ

/-- A load is waiting for a source, with `left` more to come after it, or it
has ended. -/
inductive Load (T F : Type)
  | reading (rawConfig : RawConfig) (left : ℕ)
  | ended (result : Except (LoadError F) T)

namespace ConfigLoader

def assign (rawConfig sourceConfig : RawConfig) : RawConfig :=
  sourceConfig.entries.foldl (fun config entry => config.set entry.1 entry.2)
    rawConfig

def finish (loader : ConfigLoader T) (rawConfig : RawConfig) : Load T F :=
  match loader.validate rawConfig with
  | .ok config => .ended (.ok config)
  | .error errors =>
      .ended (.error (.config "Configuration validation failed" errors))

def load (loader : ConfigLoader T) : Load T F :=
  match loader.sources with
  | 0 => loader.finish .empty
  | left + 1 => .reading .empty left

/-- The source that the load waits for has given its part, or failed. -/
def read (loader : ConfigLoader T) (rawConfig : RawConfig) (left : ℕ) :
    Except F RawConfig → Load T F
  | .error error => .ended (.error (.source error))
  | .ok sourceConfig =>
      match left with
      | 0 => loader.finish (assign rawConfig sourceConfig)
      | left + 1 => .reading (assign rawConfig sourceConfig) left

end ConfigLoader

structure HotReloadConfigLoader (T H : Type) where
  inner : ConfigLoader T
  current : Option T
  listeners : InsertionSet H

namespace HotReloadConfigLoader

variable [DecidableEq H]

/-- The state after the load of `start` has given the configuration. -/
def start (loader : HotReloadConfigLoader T H) (config : T) :
    HotReloadConfigLoader T H :=
  { loader with current := some config }

/-- What a reload does when its load has given the configuration: the loader
afterwards and the listeners that are called. -/
def install (loader : HotReloadConfigLoader T H) (next : T)
    (throwing : List H) : HotReloadConfigLoader T H × List H :=
  ({ loader with current := some next },
    reached (· ∈ throwing) loader.listeners.elements)

def onChange (loader : HotReloadConfigLoader T H) (fn : H) :
    HotReloadConfigLoader T H :=
  { loader with listeners := loader.listeners.add fn }

/-- The function that `onChange` returns. -/
def unsubscribe (loader : HotReloadConfigLoader T H) (fn : H) :
    HotReloadConfigLoader T H :=
  { loader with listeners := loader.listeners.delete fn }

def get (loader : HotReloadConfigLoader T H) : Except String T :=
  match loader.current with
  | none => .error ("HotReloadConfigLoader has not been started — " ++
      "call start() first.")
  | some current => .ok current

end HotReloadConfigLoader

end TsCommons.Config
