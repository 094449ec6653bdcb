import W2Net.Lib.Rounding
import W2Net.Utils.Lbr.Crests

/-!
# `W2Net.Utils.Lbr.LambdaGeo`: the wavelength along a profile line

The model of `estimate_lambda_geo_from_mask` of `utils/lbr.py`. Points are laid every half pixel
on a line through the centre, across the direction of the ship, and the mask is read at the
nearest pixel of each. Unlike the scanners of `Crests` it does not clip the samples: a point
outside of the mask counts as background.

The bounds test depends on the last bit of a coordinate, so the points are those of the
floating-point operations: `t_vals` is an array of `float32`, everything else is a double.
-/

set_option autoImplicit false

namespace W2Net.Lbr

variable {K C : Type} [Field K] [LinearOrder K] [FloorRing K]

/-- `bin_mask[iy, ix]`. A negative index counts from the end, and an index beyond raises
`IndexError`. -/
def BinMask.read (m : BinMask) (iy ix : ℤ) : PyM ℕ :=
  if -(m.H : ℤ) ≤ iy ∧ iy < m.H ∧ -(m.W : ℤ) ≤ ix ∧ ix < m.W then
    .ok (m.val (iy % m.H).toNat (ix % m.W).toNat)
  else .error .indexError

/-- `np.arange(start, stop, step, dtype=np.float32)`. The length is computed in double
precision. numpy stores the first two entries and continues with their difference. -/
def npArange (start stop step : K) : List K :=
  let first := single start
  let delta := single (single (double (start + step)) - first)
  (List.range ⌈double (double (stop - start) / step)⌉.toNat).map fun i =>
    if i = 0 then first
    else if i = 1 then single (double (start + step))
    else single (first + single (i * delta))

/-- `step`. -/
def sampleStep : K := 1 / 2

/-- `t_vals`. -/
def tVals (mask : BinMask) : List K :=
  let halfLen : K := double ((min mask.H mask.W : ℕ) * double (6 / 10))
  npArange (-halfLen) (double (halfLen + sampleStep)) sampleStep

/-- `n`: the vector turned by 90 degrees, over its length. -/
def profileNormal (m : PyMath K) (vImg : K × K) : K × K :=
  let square := double (double (vImg.2 * vImg.2) + double (vImg.1 * vImg.1))
  let norm := double (double (m.sqrt square) + double (1 / 10 ^ 9))
  (double (-vImg.2 / norm), double (vImg.1 / norm))

/-- `(x, y)` for each `t`. -/
def profilePoints (m : PyMath K) (mask : BinMask) (vImg center : K × K) : List (K × K) :=
  let n := profileNormal m vImg
  (tVals mask).map fun t =>
    (double (center.1 + double (n.1 * t)), double (center.2 + double (n.2 * t)))

/-- `0 <= x < W and 0 <= y < H`. -/
def BinMask.Covers (mask : BinMask) (p : K × K) : Prop :=
  0 ≤ p.1 ∧ p.1 < mask.W ∧ 0 ≤ p.2 ∧ p.2 < mask.H

instance (mask : BinMask) (p : K × K) : Decidable (mask.Covers p) :=
  inferInstanceAs (Decidable (_ ∧ _ ∧ _ ∧ _))

/-- `(iy, ix)`, the nearest pixel. -/
def readIndex (p : K × K) : ℤ × ℤ := (pyRound p.2, pyRound p.1)

/-- An entry of `line_vals` and of `coords`, which has no coordinates outside of the mask. -/
structure ProfileSample (K : Type) where
  val : ℕ
  coord : Option (K × K)

/-- The body of the sampling loop. -/
def sampleAt (mask : BinMask) (p : K × K) : PyM (ProfileSample K) :=
  if mask.Covers p then do
    let v ← mask.read (readIndex p).1 (readIndex p).2
    .ok ⟨v, some p⟩
  else .ok ⟨0, none⟩

/-- The variables of the loop over `line_vals + [0]`, with the ends `(start_idx, end_idx)` of the
crests whose middle is appended to `crest_indices`. -/
structure RunScan where
  inside : Bool
  startIdx : ℕ
  runs : List (ℕ × ℕ)

/-- The body of the loop. A value other than 0 and 1 neither opens nor closes a crest. -/
def runStep (minRunPx : K) (scan : RunScan) (vi : ℕ × ℕ) : RunScan :=
  let (v, i) := vi
  if v = 1 ∧ scan.inside = false then { scan with inside := true, startIdx := i }
  else if v = 0 ∧ scan.inside = true then
    let endIdx := i - 1
    let runLen : K := ((endIdx : K) - scan.startIdx + 1) * sampleStep
    if scan.startIdx < endIdx ∧ minRunPx ≤ runLen then
      { scan with inside := false, runs := scan.runs ++ [(scan.startIdx, endIdx)] }
    else { scan with inside := false }
  else scan

/-- The crests `(start_idx, end_idx)`. -/
def crestRuns (minRunPx : K) (vals : List ℕ) : List (ℕ × ℕ) :=
  ((vals ++ [0]).zipIdx.foldl (runStep minRunPx) ⟨false, 0, []⟩).runs

/-- `mid_idx`. -/
def midIdx (run : ℕ × ℕ) : K := ((run.1 : K) + run.2) / 2

/-- `crest_indices`. -/
def crestIndices (minRunPx : K) (vals : List ℕ) : List K := (crestRuns minRunPx vals).map midIdx

/-- `crest_points`. -/
def crestPoints (minRunPx : K) (samples : List (ProfileSample K)) : List (K × K) :=
  (crestIndices minRunPx (samples.map ProfileSample.val)).filterMap fun midIdx =>
    let idx := pyRound midIdx
    if 0 ≤ idx then samples[idx.toNat]?.bind ProfileSample.coord else none

/-- `(dpx, d_m)` of two neighbouring crests, if both are positive. `ds` is what `rasterio.open`
gives. Every exception is caught. -/
def crestDistance (m : PyMath K) (pp : PyProj K C) (ds : PyM (Raster K C)) (p q : K × K) :
    Option (K × K) :=
  let dpx := m.hypot (q.1 - p.1) (q.2 - p.2)
  if dpx ≤ 0 then none
  else
    match ds >>= fun ds => pixelSegmentLengthM pp ds p.1 p.2 q.1 q.2 with
    | .ok dM => if dM ≤ 0 then none else some (dpx, dM)
    | .error _ => none

/-- The dictionary of `estimate_lambda_geo_from_mask`. -/
structure LambdaGeo (K : Type) where
  lambdaPx : Option K
  lambdaM : Option K
  nCrests : ℕ
  deriving DecidableEq

/-- What follows the sampling. -/
def lambdaOfSamples (m : PyMath K) (pp : PyProj K C) (ds : PyM (Raster K C)) (minRunPx : K)
    (samples : List (ProfileSample K)) : LambdaGeo K :=
  let points := crestPoints minRunPx samples
  if points.length < 2 then ⟨none, none, points.length⟩
  else
    let lams := (points.zip points.tail).filterMap fun e => crestDistance m pp ds e.1 e.2
    if lams.length = 0 then ⟨none, none, points.length⟩
    else ⟨some (npMean (lams.map Prod.fst)), some (npMean (lams.map Prod.snd)), points.length⟩

/-- `estimate_lambda_geo_from_mask`. Its `min_pairs` is not used. -/
def estimateLambdaGeoFromMask (m : PyMath K) (pp : PyProj K C) (ds : PyM (Raster K C))
    (binMask : BinMask) (vImg center : K × K) (minRunPx : K) : PyM (LambdaGeo K) := do
  let samples ← (profilePoints m binMask vImg center).mapM (sampleAt binMask)
  .ok (lambdaOfSamples m pp ds minRunPx samples)

/-- The pairs with which `bin_mask` is indexed. -/
def reads (m : PyMath K) (binMask : BinMask) (vImg center : K × K) : List (ℤ × ℤ) :=
  ((profilePoints m binMask vImg center).filter fun p => binMask.Covers p).map readIndex

end W2Net.Lbr
