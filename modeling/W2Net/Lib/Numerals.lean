import Mathlib.Algebra.GroupWithZero.Nat
import Mathlib.Data.Nat.Cast.Defs

/-!
# `W2Net.Lib.Numerals`: the proofs behind numerals

A numeral of a field holds a proof that it is at least two, and a numeral of `Fin n` a
proof that `n` is not zero. The instances give these proofs a name for the constants of
the source and for the lengths of its rows, so that a definition with such a numeral
refers to the name instead of a proof of its own.
-/

set_option autoImplicit false

namespace W2Net

/-! ### Constants -/

instance atLeastTwo_2 : Nat.AtLeastTwo 2 := ⟨by decide⟩
instance atLeastTwo_3 : Nat.AtLeastTwo 3 := ⟨by decide⟩
instance atLeastTwo_4 : Nat.AtLeastTwo 4 := ⟨by decide⟩
instance atLeastTwo_5 : Nat.AtLeastTwo 5 := ⟨by decide⟩
instance atLeastTwo_9 : Nat.AtLeastTwo 9 := ⟨by decide⟩
instance atLeastTwo_10 : Nat.AtLeastTwo 10 := ⟨by decide⟩
instance atLeastTwo_20 : Nat.AtLeastTwo 20 := ⟨by decide⟩
instance atLeastTwo_30 : Nat.AtLeastTwo 30 := ⟨by decide⟩
instance atLeastTwo_32 : Nat.AtLeastTwo 32 := ⟨by decide⟩
instance atLeastTwo_40 : Nat.AtLeastTwo 40 := ⟨by decide⟩
instance atLeastTwo_45 : Nat.AtLeastTwo 45 := ⟨by decide⟩
instance atLeastTwo_90 : Nat.AtLeastTwo 90 := ⟨by decide⟩
instance atLeastTwo_100 : Nat.AtLeastTwo 100 := ⟨by decide⟩
instance atLeastTwo_180 : Nat.AtLeastTwo 180 := ⟨by decide⟩
instance atLeastTwo_360 : Nat.AtLeastTwo 360 := ⟨by decide⟩
instance atLeastTwo_1000 : Nat.AtLeastTwo 1000 := ⟨by decide⟩
instance atLeastTwo_2000 : Nat.AtLeastTwo 2000 := ⟨by decide⟩
instance atLeastTwo_100000 : Nat.AtLeastTwo 100000 := ⟨by decide⟩
instance atLeastTwo_2147483647 : Nat.AtLeastTwo 2147483647 := ⟨by decide⟩

/-! ### Lengths of rows -/

instance neZero_4 : NeZero 4 := ⟨by decide⟩
instance neZero_5 : NeZero 5 := ⟨by decide⟩
instance neZero_6 : NeZero 6 := ⟨by decide⟩
instance neZero_8 : NeZero 8 := ⟨by decide⟩

end W2Net
