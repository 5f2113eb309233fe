import Hmux.Lib.Json.Codec
import Hmux.Protocol.Types

namespace Hmux.Pb.F64

open Lib

/-!
# Doubles by their bits

The comparisons that the repository makes of doubles can be read off their bits: the bits of
positive doubles are in the order of the doubles.

No arithmetic of doubles is modelled: a double is a 64-bit pattern that is compared, written and
read back.
-/

/-- `f64::is_finite`: the exponent is not the largest. -/
def isFinite (x : F64) : Bool := Codec.finite x.bits

/-- The exponent is the largest and the fraction is not zero. -/
def isNan (x : F64) : Bool := !x.isFinite && x.bits.toNat % 2 ^ 52 ≠ 0

/-- `x < 0.0`: the sign is set, and neither zero nor a NaN is negative. -/
def isNegative (x : F64) : Bool := 2 ^ 63 < x.bits.toNat && !x.isNan

/-- `(0.0..=1.0).contains(&x)`; the negative zero is a zero. -/
def inUnit (x : F64) : Bool := x.bits.toNat ≤ 0x3FF0000000000000 || x.bits.toNat = 2 ^ 63

/-- `f64` as JSON; `ofInt` is the double that an integer is read as. -/
def codec (ofInt : ℤ → UInt64) : Codec F64 := (Codec.double ofInt).map F64.mk F64.bits

variable {ofInt : ℤ → UInt64}

/-- A finite double is read back. -/
theorem codec_reads {x : F64} (h : x.isFinite = true) :
    (codec ofInt).write x ≠ .null ∧ (codec ofInt).Reads x := by
  constructor
  · show (Codec.double ofInt).write x.bits ≠ .null
    rw [Codec.double_write h]
    exact Json.noConfusion
  · exact Codec.map_reads rfl (Codec.double_reads h)

/-- An optional double that passed a check of its finiteness is read back. -/
theorem option_reads {x : Option F64} (h : ∀ y, x = some y → y.isFinite = true) :
    (codec ofInt).option.Reads x := by
  cases x with
  | none => exact Codec.option_reads_none
  | some y => exact (Codec.option_reads_some y).mpr (codec_reads (h y rfl))

end Hmux.Pb.F64
