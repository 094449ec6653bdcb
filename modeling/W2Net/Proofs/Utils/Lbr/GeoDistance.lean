import W2Net.Proofs.Utils.Lbr.OffImage

/-!
# `W2Net.Proofs.Utils.Lbr.GeoDistance`: the gap distances and the reference system

The crest-gap functions measure a gap between two sampled pixels. The live
`pixel_to_lonlat` takes the raster's own coordinates for longitude and
latitude, while `pixel_segment_length_m` and the shadowed `pixel_to_lonlat`
convert them to EPSG:4326 first. `geodesicM` is the distance with the
conversion, at the pixel centres that the live function uses.

`crestGaps_geodesic_iff` is the exact condition for the crest-gap functions:
they append that distance, whatever the geodesic, exactly when the conversion
leaves the pixels next to the gaps where they are. Only EPSG:4326 does this on
every raster. `calculateGap_webMercator` is a projected raster with a gap of 30
metres, which the code measures as 30 degrees.
-/

set_option autoImplicit false

namespace W2Net.Proofs.Lbr

open W2Net.Lbr

section
variable {K C : Type} [Field K]

/-- The raster coordinates of a pixel centre. -/
def centre (A : Affine K) (p : Pixel) : K × K := A.mul (p.x + 1 / 2, p.y + 1 / 2)

/-- The geodesic between two pixel centres, each converted by `T` to longitude
and latitude. -/
def geodesicM [LinearOrder K] (T : K × K → K × K) (D : K × K → K × K → K) (A : Affine K)
    (p1 p2 : Pixel) : K :=
  |D (T (centre A p1)) (T (centre A p2))|

/-- The pixels before and after a gap of the sampled line. -/
def gapPixels (samples : List Pixel) (gap : ℕ × ℕ) : Pixel × Pixel :=
  (samples.getD gap.1 default, samples.getD gap.2 default)

/-- The conversion leaves the pixels on both sides of every gap where they
are. -/
def FixedAtGaps (T : K × K → K × K) (A : Affine K) (samples : List Pixel)
    (segs : List (ℕ × ℕ)) : Prop :=
  ∀ gap ∈ gapIndices segs,
    T (centre A (gapPixels samples gap).1) = centre A (gapPixels samples gap).1 ∧
      T (centre A (gapPixels samples gap).2) = centre A (gapPixels samples gap).2

variable [LinearOrder K]

/-- The distance the code appends: no conversion. -/
theorem gapDistance_eq (pp : PyProj K C) (A : Affine K) (crs : Option C)
    (samples : List Pixel) (gap : ℕ × ℕ) :
    gapDistance pp ⟨A, crs⟩ samples gap
      = geodesicM id pp.geodInv A (gapPixels samples gap).1 (gapPixels samples gap).2 := rfl

/-- The absolute value of one is not that of zero. This holds in every field
with a linear order, compatible or not. -/
private theorem abs_one_ne_abs_zero : |(1 : K)| ≠ |(0 : K)| := by
  rw [abs, abs, neg_zero, max_self]
  rcases max_choice (1 : K) (-1) with h | h <;> rw [h] <;> simp

/-- For one pair of pixels, the unconverted distance is the converted one for
every geodesic exactly when the conversion fixes both. -/
theorem geodesicM_id_iff (T : K × K → K × K) (A : Affine K) (p1 p2 : Pixel) :
    (∀ D, geodesicM id D A p1 p2 = geodesicM T D A p1 p2) ↔
      T (centre A p1) = centre A p1 ∧ T (centre A p2) = centre A p2 := by
  constructor
  · intro h
    -- The distance that is one between these two positions only tells them apart.
    have hD := h fun a b => if a = centre A p1 ∧ b = centre A p2 then 1 else 0
    by_contra hne
    simp only [geodesicM, id_eq, and_self, if_true, if_neg hne] at hD
    exact abs_one_ne_abs_zero hD
  · rintro ⟨h1, h2⟩ D
    rw [geodesicM, geodesicM, h1, h2, id_eq, id_eq]

/-- The gaps of a scan line, with and without the conversion: equal for every
geodesic exactly when the conversion fixes the pixels next to the gaps. -/
theorem map_geodesicM_iff (T : K × K → K × K) (A : Affine K) (samples : List Pixel)
    (gaps : List (ℕ × ℕ)) :
    (∀ D, gaps.map (fun gap => geodesicM id D A (gapPixels samples gap).1
          (gapPixels samples gap).2)
        = gaps.map fun gap => geodesicM T D A (gapPixels samples gap).1
          (gapPixels samples gap).2) ↔
      ∀ gap ∈ gaps,
        T (centre A (gapPixels samples gap).1) = centre A (gapPixels samples gap).1 ∧
          T (centre A (gapPixels samples gap).2) = centre A (gapPixels samples gap).2 := by
  simp only [← geodesicM_id_iff, List.map_inj_left]
  exact ⟨fun h gap hgap D => h D gap hgap, fun h D gap hgap => h gap hgap D⟩

/-- Fewer than two segments have no gap. -/
theorem gapIndices_of_length_lt {segs : List (ℕ × ℕ)} (h : segs.length < 2) :
    gapIndices segs = [] := by
  match segs, h with
  | [], _ => rfl
  | [_], _ => rfl

/-- The gap distances of a scan line, one for each pair of neighbouring
segments. -/
theorem crestGapsOnLine_gapsM (m : PyMath K) (pp : PyProj K C) (ds : Raster K C)
    (mask : BinMask) (line : List Pixel) (keep : ℕ → ℕ → Bool) :
    (crestGapsOnLine m pp ds mask line keep).gapsM
      = (gapIndices (crestSegments (mask.vals line) keep)).map
          (gapDistance pp ds (line.map mask.clipPixel)) := by
  simp only [crestGapsOnLine]
  split
  · rename_i hlt
    rw [gapIndices_of_length_lt hlt, List.map_nil]
  · split
    · rename_i hnil
      exact (List.length_eq_zero_iff.mp hnil).symm
    · rfl

/-- The gap distances of a crest-gap function, as a function of the geodesic,
are those between the converted pixels of its own gaps. -/
def GapsAreGeodesic (T : K × K → K × K) (A : Affine K)
    (result : (K × K → K × K → K) → CrestGaps K) : Prop :=
  ∀ D, (result D).gapsM = (gapIndices (result D).crestSegments).map fun gap =>
    geodesicM T D A (gapPixels ((result D).samples.getD []) gap).1
      (gapPixels ((result D).samples.getD []) gap).2

/-- The samples of a crest-gap result are the clipped points of its line. -/
theorem crestGapsOnLine_samples (m : PyMath K) (pp : PyProj K C) (ds : Raster K C)
    (mask : BinMask) (line : List Pixel) (keep : ℕ → ℕ → Bool) :
    (crestGapsOnLine m pp ds mask line keep).samples = some (line.map mask.clipPixel) := by
  simp only [crestGapsOnLine]
  split
  · rfl
  · split <;> rfl

/-- The gaps of one scan line are geodesic distances exactly when the
conversion fixes the pixels next to them. -/
theorem crestGapsOnLine_geodesic_iff (m : PyMath K) (T : C → K × K → K × K)
    (isProjected : C → Bool) (A : Affine K) (crs : C) (mask : BinMask) (line : List Pixel)
    (keep : ℕ → ℕ → Bool) :
    GapsAreGeodesic (T crs) A
        (fun D => crestGapsOnLine m ⟨T, isProjected, D⟩ ⟨A, some crs⟩ mask line keep) ↔
      FixedAtGaps (T crs) A (line.map mask.clipPixel) (crestSegments (mask.vals line) keep) := by
  simp only [GapsAreGeodesic, crestGapsOnLine_gapsM, crestGapsOnLine_crestSegments,
    crestGapsOnLine_samples, Option.getD_some]
  -- The distances appended are those of the unconverted centres.
  have hdist : ∀ D, gapDistance (⟨T, isProjected, D⟩ : PyProj K C) ⟨A, some crs⟩
      (line.map mask.clipPixel) = fun gap => geodesicM id D A
        (gapPixels (line.map mask.clipPixel) gap).1 (gapPixels (line.map mask.clipPixel) gap).2 :=
    fun D => funext fun gap => gapDistance_eq _ A (some crs) _ gap
  simp only [hdist]
  exact map_geodesicM_iff (T crs) A _ _

/-- A result without segments has no gap to measure. -/
theorem gapsAreGeodesic_empty (T : K × K → K × K) (A : Affine K) :
    GapsAreGeodesic T A (fun _ => CrestGaps.empty K) := fun _ => rfl

/-- The three crest-gap functions append the geodesic distance between the
WGS84 positions of the two pixels, for every geodesic, exactly when the
conversion of the raster's reference system leaves the pixels next to the gaps
where they are. -/
theorem crestGaps_geodesic_iff [FloorRing K] (m : PyMath K) (T : C → K × K → K × K)
    (isProjected : C → Bool) (A : Affine K) (crs : C) (mask : BinMask)
    (vWave obbCenter : K × K) (quad : Quad K) (minArea minLenPx : ℤ) :
    (GapsAreGeodesic (T crs) A (fun D =>
        calculateWavelengthAlongCenterline m ⟨T, isProjected, D⟩ ⟨A, some crs⟩ mask vWave
          obbCenter minArea) ↔
      (m.hypot vWave.1 vWave.2 < 1 / 10 ^ 6 ∨
        let line := centerlineLine m mask (unitVector m vWave) obbCenter
        FixedAtGaps (T crs) A (line.map mask.clipPixel)
          (crestSegments (mask.vals line) (longEnough minArea)))) ∧
    (GapsAreGeodesic (T crs) A (fun D =>
        calculateGapAlongObbCenterline m ⟨T, isProjected, D⟩ ⟨A, some crs⟩ mask quad
          obbCenter) ↔
      (m.hypot (obbScanDirection m quad).1 (obbScanDirection m quad).2 < 1 / 10 ^ 6 ∨
        let line := obbCenterlineLine mask (unitVector m (obbScanDirection m quad)) obbCenter
        FixedAtGaps (T crs) A (line.map mask.clipPixel)
          (crestSegments (mask.vals line) fun _ _ => true))) ∧
    (GapsAreGeodesic (T crs) A (fun D =>
        calculateGapAlongShortMidline m ⟨T, isProjected, D⟩ ⟨A, some crs⟩ mask quad
          minLenPx) ↔
      let line := shortMidlineLine m quad (1 / 2)
      FixedAtGaps (T crs) A (line.map mask.clipPixel)
        (crestSegments (mask.vals line) (longEnough minLenPx))) := by
  -- The first two return no gaps for a direction without length.
  refine ⟨?_, ?_, crestGapsOnLine_geodesic_iff m T isProjected A crs mask _ _⟩
  · by_cases hv : m.hypot vWave.1 vWave.2 < 1 / 10 ^ 6
    · simpa only [calculateWavelengthAlongCenterline, hv, if_true, true_or, iff_true]
        using gapsAreGeodesic_empty (T crs) A
    · simpa only [calculateWavelengthAlongCenterline, hv, if_false, false_or]
        using crestGapsOnLine_geodesic_iff m T isProjected A crs mask _ _
  · by_cases hv : m.hypot (obbScanDirection m quad).1 (obbScanDirection m quad).2 < 1 / 10 ^ 6
    · simpa only [calculateGapAlongObbCenterline, hv, if_true, true_or, iff_true]
        using gapsAreGeodesic_empty (T crs) A
    · simpa only [calculateGapAlongObbCenterline, hv, if_false, false_or]
        using crestGapsOnLine_geodesic_iff m T isProjected A crs mask _ _

end

/-! ### A projected raster -/

/-- The length of one degree of the WGS84 equator, in metres. -/
def metresPerDegree : ℚ := 11131949079327358 / 10 ^ 11

/-- EPSG:3857 (Web Mercator) to longitude and latitude, on the equator. -/
def mercatorToWgs84 (p : ℚ × ℚ) : ℚ × ℚ := (p.1 / metresPerDegree, p.2 / metresPerDegree)

/-- The WGS84 geodesic between two positions on the equator. -/
def equatorGeodesic (a b : ℚ × ℚ) : ℚ := metresPerDegree * |a.1 - b.1|

/-- Pixels of ten metres; the centres of row 1 lie on the equator. -/
def mercatorAffine : Affine ℚ := ⟨10, 0, 0, 0, -10, 15⟩

/-- A 3 × 6 mask with two crests in row 1, at the columns 1 and 4. -/
def twoCrestMask : BinMask where
  H := 3
  W := 6
  H_pos := borderMask.H_pos
  W_pos := by decide
  val y x := if y = 1 ∧ (x = 1 ∨ x = 4) then 1 else 0

/-- A box around both crests. -/
def crestQuad : Quad ℚ := ![(1, 0), (5, 0), (5, 2), (1, 2)]

/-- The result of `calculate_gap_along_short_midline` on the projected raster,
for a geodesic `D`. -/
def mercatorGaps (D : ℚ × ℚ → ℚ × ℚ → ℚ) : CrestGaps ℚ :=
  calculateGapAlongShortMidline (C := Unit) PyMath.rat ⟨fun _ => mercatorToWgs84, fun _ => true, D⟩
    ⟨mercatorAffine, some ()⟩ twoCrestMask crestQuad 1

/-- The two crests are 30 metres apart. The code feeds the metre coordinates 45
and 15 to the geodesic as degrees. -/
theorem calculateGap_webMercator : ¬ GapsAreGeodesic mercatorToWgs84 mercatorAffine mercatorGaps := by
  intro h
  have hgaps := h equatorGeodesic
  revert hgaps
  decide +kernel

end W2Net.Proofs.Lbr
