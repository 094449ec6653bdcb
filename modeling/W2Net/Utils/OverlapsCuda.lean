import W2Net.Utils.Bbox

/-!
# `W2Net.Utils.OverlapsCuda`: the points of an intersection on the device

The part of `utils/overlaps_cuda/rbbox_overlaps_kernel.cu` that collects the points of
the intersection of two rotated rectangles: `convert_region`, `inrect`, `inter2line`
and `inter_pts`. The buffer `int_pts` is the memory from its first cell on, with the
indices that were written.
-/

set_option autoImplicit false

namespace W2Net.OverlapsCuda

variable {K : Type} [Field K]

/-- The point `pts[2 * i]`, `pts[2 * i + 1]`. -/
def corner (pts : QuadRow K) (i : Fin 4) : K × K :=
  (pts ⟨2 * i.val, by omega⟩, pts ⟨2 * i.val + 1, by omega⟩)

/-- `trangle_area`. -/
def trangleArea (a b c : K × K) : K := ((a.1 - c.1) * (b.2 - c.2) - (a.2 - c.2) * (b.1 - c.1)) / 2

/-- `convert_region`, which stores the four points from the last one to the first. -/
def convertRegion (m : PyMath K) (region : RowXywha K) : QuadRow K :=
  let aCos := m.cos (region.a / 180 * (31415926535 / 10000000000))
  let aSin := m.sin (region.a / 180 * (31415926535 / 10000000000))
  let ptsX : Fin 4 → K := ![-region.w / 2, region.w / 2, region.w / 2, -region.w / 2]
  let ptsY : Fin 4 → K := ![-region.h / 2, -region.h / 2, region.h / 2, region.h / 2]
  let x := fun i => aCos * ptsX i - aSin * ptsY i + region.cx
  let y := fun i => aSin * ptsX i + aCos * ptsY i + region.cy
  -- The point `i` goes to `pts[7 - 2 * i - 1]` and `pts[7 - 2 * i]`.
  ![x 3, y 3, x 2, y 2, x 1, y 1, x 0, y 0]

/-- The buffer `int_pts` and `num_of_inter`. -/
structure IntPts (K : Type) where
  cells : ℕ → K
  written : List ℕ
  num : ℕ

/-- The two assignments of a point, and `num_of_inter++`. -/
def IntPts.push (s : IntPts K) (p : K × K) : IntPts K where
  cells := Function.update (Function.update s.cells (s.num * 2) p.1) (s.num * 2 + 1) p.2
  written := s.written ++ [s.num * 2, s.num * 2 + 1]
  num := s.num + 1

variable [LinearOrder K]

/-- `inter2line`: the point where edge `i` crosses edge `j`. -/
def inter2line (pts1 pts2 : QuadRow K) (i j : Fin 4) : Option (K × K) :=
  let a := corner pts1 i
  let b := corner pts1 (i + 1)
  let c := corner pts2 j
  let d := corner pts2 (j + 1)
  let areaAbc := trangleArea a b c
  let areaAbd := trangleArea a b d
  if -(1 / 100000) ≤ areaAbc * areaAbd then none
  else
    let areaCda := trangleArea c d a
    -- The fourth area, from the other three.
    let areaCdb := areaCda + areaAbc - areaAbd
    if -(1 / 100000) ≤ areaCda * areaCdb then none
    else
      let t := areaCda / (areaAbd - areaAbc)
      some (a.1 + t * (b.1 - a.1), a.2 + t * (b.2 - a.2))

/-- `inrect`. -/
def inrect (pt : K × K) (pts : QuadRow K) : Prop :=
  let ab := corner pts 1 - corner pts 0
  let ad := corner pts 3 - corner pts 0
  let ap := pt - corner pts 0
  let abab := ab.1 * ab.1 + ab.2 * ab.2
  let abap := ab.1 * ap.1 + ab.2 * ap.2
  let adad := ad.1 * ad.1 + ad.2 * ad.2
  let adap := ad.1 * ap.1 + ad.2 * ap.2
  abab - abap ≥ -1 ∧ abap ≥ -1 ∧ adad - adap ≥ -1 ∧ adap ≥ -1

instance (pt : K × K) (pts : QuadRow K) : Decidable (inrect pt pts) :=
  inferInstanceAs (Decidable (_ ∧ _ ∧ _ ∧ _))

/-- The body of the first loop: corner `i` of each rectangle. -/
def cornerStep (pts1 pts2 : QuadRow K) (s : IntPts K) (i : Fin 4) : IntPts K :=
  let s := if inrect (corner pts1 i) pts2 then s.push (corner pts1 i) else s
  if inrect (corner pts2 i) pts1 then s.push (corner pts2 i) else s

/-- The body of the two inner loops. -/
def crossingStep (pts1 pts2 : QuadRow K) (i : Fin 4) (s : IntPts K) (j : Fin 4) : IntPts K :=
  match inter2line pts1 pts2 i j with
  | some p => s.push p
  | none => s

/-- `inter_pts`, from the buffer as it is. -/
def interPts (pts1 pts2 : QuadRow K) (intPts : ℕ → K) : IntPts K :=
  -- The corners of both rectangles, then all pairs of edges.
  let s := (List.finRange 4).foldl (cornerStep pts1 pts2) ⟨intPts, [], 0⟩
  (List.finRange 4).foldl
    (fun s i => (List.finRange 4).foldl (crossingStep pts1 pts2 i) s) s

/-- The capacity of `int_pts` in `inter`. -/
def capacity : ℕ := 16

end W2Net.OverlapsCuda
