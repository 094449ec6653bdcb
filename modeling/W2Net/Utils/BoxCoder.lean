import Mathlib.Algebra.Field.Defs
import Mathlib.Data.Fin.VecNotation
import Mathlib.Data.Rat.Defs
import Mathlib.Order.Basic
import Mathlib.Order.Lattice
import Mathlib.Algebra.Order.Ring.Rat
import W2Net.Lib.Numerals

/-!
# `W2Net.Utils.BoxCoder`: boxes as offsets from anchors

The model of `BoxCoder` of `utils/box_coder.py`, one row at a time. A row is
`(x1, y1, x2, y2, theta)` with the angle in degrees. The functions of torch that
leave the rationals are a parameter (`TorchMath`).
-/

set_option autoImplicit false

namespace W2Net

/-- `torch.exp`, `torch.log`, `torch.tan`, `torch.atan` and `np.pi`. -/
structure TorchMath (K : Type) where
  exp : K → K
  log : K → K
  tan : K → K
  atan : K → K
  pi : K

/-- The functions over the rationals, for concrete runs: exact at 0, and the
logarithm at 1. -/
def TorchMath.rat : TorchMath ℚ where
  exp x := 1 + x
  log x := x - 1
  tan x := x
  atan x := x
  pi := 355 / 113

/-- `BoxCoder`, by its weights. -/
structure BoxCoder (K : Type) where
  wx : K
  wy : K
  ww : K
  wh : K
  wt : K

namespace BoxCoder

variable {K : Type} [Field K] [LinearOrder K]

/-- The default weights of `__init__`. -/
def init : BoxCoder K := ⟨10, 10, 10, 5, 15⟩

/-- `torch.clamp(x, min=1)`. -/
def clampMin (x : K) : K := max x 1

/-- The centre and the clamped size of a row: `(ctr_x, ctr_y, width, height)`. -/
def centreSize (box : Fin 5 → K) : K × K × K × K :=
  let width := clampMin (box 2 - box 0)
  let height := clampMin (box 3 - box 1)
  (box 0 + 1 / 2 * width, box 1 + 1 / 2 * height, width, height)

variable (c : BoxCoder K) (tm : TorchMath K)

/-- `theta / 180.0 * np.pi`. -/
def radians (theta : K) : K := theta / 180 * tm.pi

/-- A row of `encode`. -/
def encode (exRoi gtRoi : Fin 5 → K) : Fin 5 → K :=
  let (exCtrX, exCtrY, exWidth, exHeight) := centreSize exRoi
  let (gtCtrX, gtCtrY, gtWidth, gtHeight) := centreSize gtRoi
  ![c.wx * (gtCtrX - exCtrX) / exWidth,
    c.wy * (gtCtrY - exCtrY) / exHeight,
    c.ww * tm.log (gtWidth / exWidth),
    c.wh * tm.log (gtHeight / exHeight),
    c.wt * (tm.tan (radians tm (gtRoi 4)) - tm.tan (radians tm (exRoi 4)))]

/-- A row of `decode`. -/
def decode (mode : String) (box delta : Fin 5 → K) : Fin 5 → K :=
  let (ctrX, ctrY, width, height) := centreSize box
  let theta := box 4
  let dx := delta 0 / c.wx
  let dy := delta 1 / c.wy
  let dw := delta 2 / c.ww
  let dh := delta 3 / c.wh
  let dt := delta 4 / c.wt
  let given (letter : Char) : Bool := mode.toList.contains letter
  let predCtrX := if given 'x' then ctrX + dx * width else ctrX
  let predCtrY := if given 'y' then ctrY + dy * height else ctrY
  let predW := if given 'w' then tm.exp dw * width else width
  let predH := if given 'h' then tm.exp dh * height else height
  let predT := if given 't' then tm.atan (tm.tan (radians tm theta) + dt) / tm.pi * 180 else theta
  ![predCtrX - 1 / 2 * predW, predCtrY - 1 / 2 * predH, predCtrX + 1 / 2 * predW,
    predCtrY + 1 / 2 * predH, predT]

/-- An entry of `lmr5pangle`: the offset for the predicted angle, turned back by 90 degrees. -/
def lmr5pangle (anchorTheta delta : K) : K :=
  let dt := delta / c.wt
  let predT := tm.atan (tm.tan (radians tm anchorTheta) + dt)
  c.wt * (tm.tan (predT - 1 / 2 * tm.pi) - tm.tan (radians tm anchorTheta))

end BoxCoder

end W2Net
