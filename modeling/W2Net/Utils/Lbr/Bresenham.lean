import W2Net.Lib.Python

/-!
# `W2Net.Utils.Lbr.Bresenham`: the digital line of `utils/lbr.py`

`bresenhamLine` is `bresenham_line`: both end points are rounded, and the loop
walks from the first to the second with an error term. The Python loop has no
bound; the model gives it `max(dx, dy) + 1` steps, and
`W2Net.Proofs.Utils.Lbr.Bresenham` shows that the loop always ends by its own
`break` within them. The loop runs on the integers of Python; the arrays of
`np.int32` that it fills hold them as long as both end points lie between
`-2 ^ 31` and `2 ^ 31`.
-/

set_option autoImplicit false

namespace W2Net.Lbr

/-- A pixel: `x` is the column, `y` the row. -/
structure Pixel where
  x : ℤ
  y : ℤ
  deriving Repr, DecidableEq

instance : Inhabited Pixel := ⟨⟨0, 0⟩⟩

/-- The `while True` loop of `bresenham_line`, one list entry a round. -/
def bresenhamLoop (dx dy sx sy x1 y1 : ℤ) : ℕ → ℤ → ℤ → ℤ → List Pixel
  | 0, _, _, _ => []
  | fuel + 1, x, y, err =>
      ⟨x, y⟩ ::
        if x = x1 ∧ y = y1 then []
        else
          -- `e2` is computed once, before `err` changes.
          let e2 := 2 * err
          let err₁ := if -dy < e2 then err - dy else err
          let x₁ := if -dy < e2 then x + sx else x
          let err₂ := if e2 < dx then err₁ + dx else err₁
          let y₁ := if e2 < dx then y + sy else y
          bresenhamLoop dx dy sx sy x1 y1 fuel x₁ y₁ err₂

/-- The line between two pixels. -/
def bresenhamPixels (p q : Pixel) : List Pixel :=
  let dx := |q.x - p.x|
  let dy := |q.y - p.y|
  let sx := if p.x < q.x then 1 else -1
  let sy := if p.y < q.y then 1 else -1
  bresenhamLoop dx dy sx sy q.x q.y ((max dx dy).toNat + 1) p.x p.y (dx - dy)

/-- `bresenham_line(x0, y0, x1, y1)`. The Python function returns the columns
and the rows as two arrays of one length; here they are paired. -/
def bresenhamLine {K : Type} [Field K] [LinearOrder K] [FloorRing K] (p q : K × K) :
    List Pixel :=
  bresenhamPixels ⟨pyRound p.1, pyRound p.2⟩ ⟨pyRound q.1, pyRound q.2⟩

end W2Net.Lbr
