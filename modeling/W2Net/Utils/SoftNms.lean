import W2Net.Utils.Nms

/-!
# `W2Net.Utils.SoftNms`: suppression by decaying scores

The model of `cpu_soft_nms` in `utils/nms/cpu_nms.pyx`. The function works in place on the
rows of `boxes` and on `inds`, the indices that the rows had at first; `SoftArrays` are the
two arrays with `N`. The rows from `N` on are dropped.

`np.exp` is a parameter. The bound of `for i in range(N)` is the first `N`, and the bound of
the two `while` loops is the current one.
-/

set_option autoImplicit false

namespace W2Net.Nms

/-- `boxes`, `inds` and `N`. -/
structure SoftArrays (K : Type) where
  boxes : ℕ → Det K
  inds : ℕ → ℕ
  n : ℕ

/-- The parameters behind `boxes`. -/
structure SoftParams (K : Type) where
  thresh : K
  method : ℕ
  sigma : K
  minScore : K

/-- The defaults of the parameters. -/
def SoftParams.default {K : Type} [Field K] : SoftParams K := ⟨3 / 10, 1, 1 / 2, 1 / 1000⟩

section
variable {K : Type} [LinearOrder K]

/-- The first `while` loop: `maxpos`. -/
def maxPos (boxes : ℕ → Det K) (n i : ℕ) : ℕ :=
  ((List.range' (i + 1) (n - (i + 1))).foldl (fun (best : K × ℕ) pos =>
    if best.1 < (boxes pos).score then ((boxes pos).score, pos) else best)
    ((boxes i).score, i)).2

/-- The assignments that exchange the rows `i` and `maxpos`. -/
def SoftArrays.swapMax (s : SoftArrays K) (i : ℕ) : SoftArrays K :=
  let maxpos := maxPos s.boxes s.n i
  let t := s.boxes i
  let ti := s.inds i
  let boxes := Function.update s.boxes i (s.boxes maxpos)
  let inds := Function.update s.inds i (s.inds maxpos)
  { s with boxes := Function.update boxes maxpos t, inds := Function.update inds maxpos ti }

variable [Field K] [FloorRing K] (cv : Cv2 K) (exp : K → K) (p : SoftParams K)

/-- `weight` for the overlap `ov`. -/
def softWeight (ov : K) : PyM K :=
  if p.method = 1 then
    if p.thresh < ov then .ok (1 - ov) else .ok 1
  else if p.method = 2 then do
    let x ← pyDiv (-(ov * ov)) p.sigma
    .ok (exp x)
  else
    if p.thresh < ov then .ok 0 else .ok 1

/-- The body of the second `while` loop for the row `pos`, with the arrays and `pos` after
it. -/
def softStep (top : Det K) (s : SoftArrays K) (pos : ℕ) : PyM (SoftArrays K × ℕ) :=
  let d := s.boxes pos
  let inter := inter cv top d
  if 0 < inter then do
    let ov ← pyDiv inter (top.area + d.area - inter)
    let weight ← softWeight exp p ov
    let boxes := Function.update s.boxes pos (Function.update d 5 (weight * d.score))
    if weight * d.score < p.minScore then
      -- The last row takes the place of the row, and is looked at next.
      .ok
        ({ boxes := Function.update boxes pos (boxes (s.n - 1))
           inds := Function.update s.inds pos (s.inds (s.n - 1))
           n := s.n - 1 }, pos)
    else .ok ({ s with boxes := boxes }, pos + 1)
  else .ok (s, pos + 1)

/-- The second `while` loop. Each iteration takes 1 from `N - pos`. -/
def softLoop (top : Det K) : ℕ → SoftArrays K → ℕ → PyM (SoftArrays K)
  | 0, s, _ => .ok s
  | fuel + 1, s, pos =>
      if pos < s.n then do
        let next ← softStep cv exp p top s pos
        softLoop top fuel next.1 next.2
      else .ok s

/-- The body of the `for` loop. -/
def softBody (s : SoftArrays K) (i : ℕ) : PyM (SoftArrays K) :=
  let s := s.swapMax i
  softLoop cv exp p (s.boxes i) s.n s (i + 1)

/-- `cpu_soft_nms` with the arrays at its end. -/
def softArrays (dets : List (Det K)) : PyM (SoftArrays K) :=
  (List.range dets.length).foldlM (softBody cv exp p) ⟨row dets, id, dets.length⟩

/-- `cpu_soft_nms`: `inds[:N]`. -/
def cpuSoftNms (dets : List (Det K)) : PyM (List ℕ) := do
  let s ← softArrays cv exp p dets
  .ok ((List.range s.n).map s.inds)

end

end W2Net.Nms
