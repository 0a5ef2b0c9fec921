import TsCommons.Foundations.InsertionMap
import TsCommons.Foundations.Text

/-!
# Types of a time series

The type of numbers is a parameter.
-/

namespace TsCommons.Timeseries

open Foundations

inductive FieldValue (ν : Type)
  | number (value : ν)
  | string (text : Text)
  | boolean (value : Bool)
deriving DecidableEq

structure DataPoint (ν : Type) where
  timestamp : ν
  measurement : Text
  tags : Option (InsertionMap Text Text)
  fields : InsertionMap Text (FieldValue ν)
deriving DecidableEq

inductive DownsampleAlgorithm
  | mean
  | lttb
deriving DecidableEq

structure DownsampleOptions where
  algorithm : DownsampleAlgorithm
  targetPoints : ℕ
deriving DecidableEq

end TsCommons.Timeseries
