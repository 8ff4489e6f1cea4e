import ETraceDiag.CausalInput
import ETraceDiag.Dictionaries

/-!
# Points of a replay

`TelemetryPoint` with all its fields, and where Python ends a line of text.
-/

namespace ETraceDiag
namespace ReplayPoint

open CausalInput (TelemetryPoint EntityType Quality)
open Dictionaries (Dict SameDict)

inductive Source
  | prometheus
  | otlp
  | ebpf
  | profile
  | trace
  | replay
  deriving DecidableEq,Repr

/-- `float | int | bool | None`. -/
inductive Value (F : Type)
  | float (x : F)
  | int (i : ℤ)
  | bool (b : Bool)
  | none
  deriving DecidableEq

/-- The fields that neither name nor order a point. -/
structure Content (F : Type) where
  value : Value F
  unit : Option String
  source : Source
  sampleIntervalNs : Option { n : ℕ // 0 < n }
  attrs : Dict String String

abbrev Point (F : Type) := TelemetryPoint (Content F)

/-- What `str.splitlines` cuts at. A carriage return and the newline behind it are one end there and
a blank line more here, which every reader skips. -/
def isBreak (c : Char) : Bool :=
  let n := c.toNat
  (10 ≤ n && n ≤ 13) || (28 ≤ n && n ≤ 30) || n = 0x85 || n = 0x2028 || n = 0x2029

end ReplayPoint
end ETraceDiag
