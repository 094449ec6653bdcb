import W2Net.Proofs.Utils.Lbr.Scan

/-!
# `W2Net.Proofs.Utils.Lbr.OffImage`: off-image samples of the scan lines

The scan line of a wave-gap scanner is longer than the image, and every point
of it is clipped to the image, one coordinate at a time, before the mask is
read. A point outside the image therefore reads a border pixel.
`estimate_lambda_geo_from_mask`, in the same file, counts such points as
background.

`fromForeground_iff` says what the clipping does to the segments: they come
from foreground pixels of the image exactly when no window of set samples that
the length filter accepts holds a point outside the image (`OffImageClear`).
`crestSegments_fromForeground_iff` reads this for the four scanners, and
`calcWaveGaps_stripe_offImage` is a line that leaves the image through a set
border pixel.
-/

set_option autoImplicit false

namespace W2Net.Proofs.Lbr

open W2Net.Lbr

/-- Every sample of every segment is a point of the line inside the image, at
a set pixel of the mask. -/
def FromForeground (mask : BinMask) (pixels : List Pixel) (segs : List (ℕ × ℕ)) : Prop :=
  ∀ seg ∈ segs, ∀ i, seg.1 ≤ i → i ≤ seg.2 →
    ∃ p, pixels[i]? = some p ∧ mask.Inside p ∧ mask.fg p = true

/-- No point outside the image lies among `minLen` or more consecutive samples
that are all clipped to set pixels. For `minLen = 1` this says that no point outside
the image is clipped onto a set pixel (`offImageClear_one_iff`). -/
def OffImageClear (mask : BinMask) (pixels : List Pixel) (minLen : ℤ) : Prop :=
  ∀ s e, Window (IsSet (mask.vals pixels)) pixels.length s e → minLen ≤ (e : ℤ) - s + 1 →
    ∀ i, s ≤ i → i ≤ e → ∃ p, pixels[i]? = some p ∧ mask.Inside p

theorem clipPixel_of_inside {mask : BinMask} {p : Pixel} (h : mask.Inside p) :
    mask.clipPixel p = p := by
  obtain ⟨hx, hx', hy, hy'⟩ := h
  rw [BinMask.clipPixel, npClip_of_mem hx (by omega), npClip_of_mem hy (by omega)]

@[simp] theorem length_vals (mask : BinMask) (pixels : List Pixel) :
    (mask.vals pixels).length = pixels.length := List.length_map _

/-- A sample is set when its clipped point is a set pixel. -/
theorem isSet_vals {mask : BinMask} {pixels : List Pixel} {i : ℕ} {p : Pixel}
    (hp : pixels[i]? = some p) :
    IsSet (mask.vals pixels) i ↔ mask.fg (mask.clipPixel p) = true := by
  simp [IsSet, BinMask.vals, hp]

/-- Clear for the minimum length 1: no point outside the image is clipped onto a set pixel. -/
theorem offImageClear_one_iff (mask : BinMask) (pixels : List Pixel) :
    OffImageClear mask pixels 1 ↔
      ∀ p ∈ pixels, mask.fg (mask.clipPixel p) = true → mask.Inside p := by
  constructor
  · intro h p hp hset
    obtain ⟨i, hi⟩ := List.mem_iff_getElem?.mp hp
    have hwindow : Window (IsSet (mask.vals pixels)) pixels.length i i :=
      ⟨le_rfl, (List.getElem?_eq_some_iff.mp hi).1,
        fun j hij hji => le_antisymm hij hji ▸ (isSet_vals hi).mpr hset⟩
    obtain ⟨q, hq, hin⟩ := h i i hwindow (by omega) i le_rfl le_rfl
    rw [hi] at hq
    exact Option.some.inj hq ▸ hin
  · intro h s e hw _ i hs he
    have hi : i < pixels.length := lt_of_le_of_lt he hw.lt
    have hp := List.getElem?_eq_getElem hi
    exact ⟨pixels[i], hp, h _ (List.getElem_mem hi) ((isSet_vals hp).mp (hw.all i hs he))⟩

/-- A filter that accepts a segment accepts every longer one. -/
theorem longEnough_mono {minLen : ℤ} {s e s' e' : ℕ} (hs : s' ≤ s) (he : e ≤ e')
    (h : minLen ≤ (e : ℤ) - s + 1) : longEnough minLen s' e' = true := by
  simp only [longEnough, decide_eq_true_eq]
  omega

/-- The segments kept by a length filter come from foreground pixels of the
image exactly when the line is clear of off-image points. -/
theorem fromForeground_iff (mask : BinMask) (pixels : List Pixel) (minLen : ℤ) :
    FromForeground mask pixels (crestSegments (mask.vals pixels) (longEnough minLen)) ↔
      OffImageClear mask pixels minLen := by
  constructor
  · -- A window extends to a maximal run, which is a reported segment.
    intro h s e hw hlen i hs he
    rw [← length_vals mask pixels] at hw
    obtain ⟨s', e', hs', he', hrun⟩ := hw.exists_maximalRun
    have hmem : (s', e') ∈ crestSegments (mask.vals pixels) (longEnough minLen) :=
      (mem_crestSegments _ _ s' e').mpr ⟨hrun, longEnough_mono hs' he' hlen⟩
    obtain ⟨p, hp, hin, -⟩ := h (s', e') hmem i (Nat.le_trans hs' hs) (Nat.le_trans he he')
    exact ⟨p, hp, hin⟩
  · -- A reported segment is a window, and its points inside the image are not moved.
    rintro h ⟨s, e⟩ hseg i hs he
    obtain ⟨hrun, hkeep⟩ := (mem_crestSegments _ _ s e).mp hseg
    have hw := hrun.toWindow
    rw [length_vals] at hw
    obtain ⟨p, hp, hin⟩ := h s e hw (by simpa [longEnough] using hkeep) i hs he
    refine ⟨p, hp, hin, ?_⟩
    have hset := (isSet_vals hp).mp (hrun.all i hs he)
    rwa [clipPixel_of_inside hin] at hset

/-- Without a length filter the segments are those of the filter `1`. -/
theorem crestSegments_true (vals : List Bool) :
    crestSegments vals (fun _ _ => true) = crestSegments vals (longEnough 1) := by
  have key : ∀ fuel i, scanFrom vals (fun _ _ => true) fuel i
      = scanFrom vals (longEnough 1) fuel i := by
    intro fuel
    induction fuel with
    | zero => intro i; rfl
    | succ fuel ih =>
        intro i
        simp only [scanFrom, ih, if_true]
        split
        · rename_i hi
          split
          · rename_i hset
            -- A run is never shorter than one sample.
            have hle := (runEnd_spec vals vals.length i hi hset (by omega)).1.le
            rw [if_pos (by simp only [longEnough, decide_eq_true_eq]; omega)]
          · rfl
        · rfl
  exact key _ 0

section
variable {K C : Type} [Field K] [LinearOrder K]

/-- The segments of a crest-gap result are those of its line. -/
@[simp] theorem crestGapsOnLine_crestSegments (m : PyMath K) (pp : PyProj K C)
    (ds : Raster K C) (mask : BinMask) (pixels : List Pixel) (keep : ℕ → ℕ → Bool) :
    (crestGapsOnLine m pp ds mask pixels keep).crestSegments
      = crestSegments (mask.vals pixels) keep := by
  simp only [crestGapsOnLine]
  split
  · rfl
  · split <;> rfl

variable [FloorRing K]

/-- The segments of the wavelength scanner: none for a null direction. -/
theorem calculateWavelength_crestSegments (m : PyMath K) (pp : PyProj K C) (ds : Raster K C)
    (mask : BinMask) (vWave c : K × K) (minArea : ℤ) :
    (calculateWavelengthAlongCenterline m pp ds mask vWave c minArea).crestSegments
      = if m.hypot vWave.1 vWave.2 < 1 / 10 ^ 6 then []
        else crestSegments (mask.vals (centerlineLine m mask (unitVector m vWave) c))
          (longEnough minArea) := by
  simp only [calculateWavelengthAlongCenterline]
  split
  · rfl
  · exact crestGapsOnLine_crestSegments _ _ _ _ _ _

/-- The segments of the scanner across the long edge: none for a null
direction. -/
theorem calculateGapAlongObb_crestSegments (m : PyMath K) (pp : PyProj K C) (ds : Raster K C)
    (mask : BinMask) (quad : Quad K) (c : K × K) :
    (calculateGapAlongObbCenterline m pp ds mask quad c).crestSegments
      = if m.hypot (obbScanDirection m quad).1 (obbScanDirection m quad).2 < 1 / 10 ^ 6 then []
        else crestSegments
          (mask.vals (obbCenterlineLine mask (unitVector m (obbScanDirection m quad)) c))
          fun _ _ => true := by
  simp only [calculateGapAlongObbCenterline]
  split
  · rfl
  · exact crestGapsOnLine_crestSegments _ _ _ _ _ _

/-- The stripes of `calcWaveGapsAlongShortMidline` are the segments of its
line. -/
theorem calcWaveGaps_stripes (m : PyMath K) (pp : PyProj K C) (ds : Raster K C)
    (mask : BinMask) (quad : Quad K) :
    (calcWaveGapsAlongShortMidline m pp ds mask quad).stripes
      = crestSegments (mask.vals (shortMidlineLine m quad 0)) fun _ _ => true := by
  simp only [calcWaveGapsAlongShortMidline]
  split <;> rfl

/-- `fromForeground_iff` behind an early return without segments. -/
private theorem fromForeground_ite_iff (mask : BinMask) (pixels : List Pixel) (minLen : ℤ)
    (c : Prop) [Decidable c] :
    FromForeground mask pixels
        (if c then [] else crestSegments (mask.vals pixels) (longEnough minLen)) ↔
      (c ∨ OffImageClear mask pixels minLen) := by
  by_cases hc : c
  · simp [hc, FromForeground]
  · simpa [hc] using fromForeground_iff mask pixels minLen

/-- The four scanners report foreground of the image exactly on the lines that
are clear of off-image points. The first two scan nothing when their direction
is shorter than `1e-6`. The scanners without a length filter ask that no
off-image point is clipped to a set pixel at all (`minLen = 1`). -/
theorem crestSegments_fromForeground_iff (m : PyMath K) (pp : PyProj K C)
    (ds : Raster K C) (mask : BinMask) (vWave obbCenter : K × K) (quad : Quad K)
    (minArea minLenPx : ℤ) :
    (FromForeground mask (centerlineLine m mask (unitVector m vWave) obbCenter)
        (calculateWavelengthAlongCenterline m pp ds mask vWave obbCenter minArea).crestSegments ↔
      (m.hypot vWave.1 vWave.2 < 1 / 10 ^ 6 ∨
        OffImageClear mask (centerlineLine m mask (unitVector m vWave) obbCenter) minArea)) ∧
    (FromForeground mask
        (obbCenterlineLine mask (unitVector m (obbScanDirection m quad)) obbCenter)
        (calculateGapAlongObbCenterline m pp ds mask quad obbCenter).crestSegments ↔
      (m.hypot (obbScanDirection m quad).1 (obbScanDirection m quad).2 < 1 / 10 ^ 6 ∨
        OffImageClear mask
          (obbCenterlineLine mask (unitVector m (obbScanDirection m quad)) obbCenter) 1)) ∧
    (FromForeground mask (shortMidlineLine m quad 0)
        (calcWaveGapsAlongShortMidline m pp ds mask quad).stripes ↔
      OffImageClear mask (shortMidlineLine m quad 0) 1) ∧
    (FromForeground mask (shortMidlineLine m quad (1 / 2))
        (calculateGapAlongShortMidline m pp ds mask quad minLenPx).crestSegments ↔
      OffImageClear mask (shortMidlineLine m quad (1 / 2)) minLenPx) := by
  refine ⟨?_, ?_, ?_, ?_⟩
  · rw [calculateWavelength_crestSegments]
    exact fromForeground_ite_iff mask _ minArea _
  · rw [calculateGapAlongObb_crestSegments, crestSegments_true]
    exact fromForeground_ite_iff mask _ 1 _
  · rw [calcWaveGaps_stripes, crestSegments_true]
    exact fromForeground_iff mask _ 1
  · rw [calculateGapAlongShortMidline, crestGapsOnLine_crestSegments]
    exact fromForeground_iff mask _ minLenPx

end

/-! ### A line that leaves the image -/

/-- A 3 × 3 mask whose only set pixel is the middle of the right border. -/
def borderMask : BinMask where
  H := 3
  W := 3
  H_pos := by decide
  W_pos := by decide
  val y x := if y = 1 ∧ x = 2 then 1 else 0

/-- A box of width 5 and height 2 that reaches past the right border. -/
def wideQuad : Quad ℚ := ![(0, 0), (5, 0), (5, 2), (0, 2)]

/-- The plain raster of the run below. No distance of it is read. -/
def unitRaster : Raster ℚ Unit := ⟨⟨1, 0, 0, 0, 1, 0⟩, none⟩

/-- pyproj for the run below. None of its functions is called. -/
def idlePyProj : PyProj ℚ Unit := ⟨fun _ p => p, fun _ => false, fun _ _ => 0⟩

/-- The midline of `wideQuad` runs from column 5 to column 0 of row 1. Its
points at the columns 5, 4 and 3 are off the image and read the set border
pixel, so the only stripe has four samples instead of one. -/
theorem calcWaveGaps_stripe_offImage :
    ¬ FromForeground borderMask (shortMidlineLine PyMath.rat wideQuad 0)
      (calcWaveGapsAlongShortMidline PyMath.rat idlePyProj unitRaster borderMask
        wideQuad).stripes := by
  intro h
  have hseg : (0, 3) ∈ (calcWaveGapsAlongShortMidline PyMath.rat idlePyProj unitRaster
      borderMask wideQuad).stripes := by decide +kernel
  obtain ⟨p, hp, hin, -⟩ := h (0, 3) hseg 0 (by decide) (by decide)
  have hp' : (shortMidlineLine PyMath.rat wideQuad 0)[0]? = some ⟨5, 1⟩ := by decide +kernel
  rw [hp'] at hp
  cases hp
  revert hin
  decide

end W2Net.Proofs.Lbr
