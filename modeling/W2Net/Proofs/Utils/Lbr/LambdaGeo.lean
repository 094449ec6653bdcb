import W2Net.Utils.Lbr.LambdaGeo

/-!
# `W2Net.Proofs.Utils.Lbr.LambdaGeo`: the half pixel at the right and at the bottom

The bounds test of `estimate_lambda_geo_from_mask` is on the real coordinates of a sample, and
the mask is read at the nearest pixel. The two disagree for a coordinate in the last half pixel
(`pyRound_lt_iff`). `reads_inMask_iff` says that this is the only way to an `IndexError`.
-/

set_option autoImplicit false

namespace W2Net.Proofs.LambdaGeo

open W2Net.Lbr

variable {K C : Type} [Field K] [LinearOrder K] [FloorRing K]

/-! ### One sample -/

/-- A coordinate is not in the last half pixel. The last middle between two pixels is rounded to
an even number. -/
def BeforeHalfPixel (size : ℕ) (x : K) : Prop :=
  x < size - 1 / 2 ∨ (x = size - 1 / 2 ∧ size % 2 = 1)

instance (size : ℕ) (x : K) : Decidable (BeforeHalfPixel size x) :=
  inferInstanceAs (Decidable (_ ∨ _ ∧ _))

/-- A coordinate is rounded to the size in the last half pixel or behind it. -/
theorem pyRound_lt_iff [IsStrictOrderedRing K] {size : ℕ} {x : K} :
    pyRound x < size ↔ BeforeHalfPixel size x := by
  have hle : pyRound x < size ↔ pyRound x ≤ (size : ℤ) - 1 := by omega
  have hhalf : (((size : ℤ) - 1 : ℤ) : K) + 1 / 2 = size - 1 / 2 := by
    push_cast
    ring
  have hparity : ((size : ℤ) - 1) % 2 = 0 ↔ size % 2 = 1 := by omega
  rw [hle, pyRound_le_iff, hhalf, hparity]
  rfl

/-- An index of the mask that does not count from the end. -/
def InMask (mask : BinMask) (idx : ℤ × ℤ) : Prop :=
  0 ≤ idx.1 ∧ idx.1 < mask.H ∧ 0 ≤ idx.2 ∧ idx.2 < mask.W

instance (mask : BinMask) (idx : ℤ × ℤ) : Decidable (InMask mask idx) :=
  inferInstanceAs (Decidable (_ ∧ _ ∧ _ ∧ _))

theorem readIndex_inMask_iff [IsStrictOrderedRing K] {mask : BinMask} {p : K × K}
    (hp : mask.Covers p) :
    InMask mask (readIndex p) ↔ BeforeHalfPixel mask.W p.1 ∧ BeforeHalfPixel mask.H p.2 := by
  obtain ⟨hx, -, hy, -⟩ := hp
  rw [InMask, readIndex, ← pyRound_lt_iff, ← pyRound_lt_iff]
  have hx' := pyRound_nonneg hx
  have hy' := pyRound_nonneg hy
  constructor
  · rintro ⟨-, hiy, -, hix⟩
    exact ⟨hix, hiy⟩
  · rintro ⟨hix, hiy⟩
    exact ⟨hy', hiy, hx', hix⟩

/-- A sample raises nothing when it is not in the mask, or its nearest pixel is. -/
theorem sampleAt_returns_iff {mask : BinMask} {p : K × K} :
    (∃ sample, sampleAt mask p = .ok sample) ↔ (mask.Covers p → InMask mask (readIndex p)) := by
  unfold sampleAt
  by_cases hp : mask.Covers p
  · -- A covered point is not negative, and neither is its rounded index.
    have hy := pyRound_nonneg hp.2.2.1
    have hx := pyRound_nonneg hp.1
    rw [if_pos hp, BinMask.read]
    split
    · rename_i hin
      exact iff_of_true ⟨_, rfl⟩ fun _ => ⟨hy, hin.2.1, hx, hin.2.2.2⟩
    · rename_i hout
      refine iff_of_false (fun ⟨_, h⟩ => by cases h) fun hin => hout ?_
      obtain ⟨hiy, hiyH, hix, hixW⟩ := hin hp
      exact ⟨by omega, hiyH, by omega, hixW⟩
  · rw [if_neg hp]
    exact iff_of_true ⟨_, rfl⟩ fun h => absurd h hp

/-! ### All samples -/

section
variable (m : PyMath K) (pp : PyProj K C) (ds : PyM (Raster K C)) (binMask : BinMask)
  (vImg center : K × K) (minRunPx : K)

theorem forall_reads_iff :
    (∀ idx ∈ reads m binMask vImg center, InMask binMask idx) ↔
      ∀ p ∈ profilePoints m binMask vImg center, binMask.Covers p → InMask binMask (readIndex p) := by
  rw [reads, List.forall_mem_map]
  simp only [List.mem_filter, decide_eq_true_iff, and_imp]

theorem estimate_returns_iff :
    (∃ out, estimateLambdaGeoFromMask m pp ds binMask vImg center minRunPx = .ok out) ↔
      ∀ idx ∈ reads m binMask vImg center, InMask binMask idx := by
  have hsamples : (∃ out, estimateLambdaGeoFromMask m pp ds binMask vImg center minRunPx = .ok out) ↔
      ∃ samples, (profilePoints m binMask vImg center).mapM (sampleAt binMask) = .ok samples := by
    constructor
    · rintro ⟨out, hout⟩
      obtain ⟨samples, hsamples, -⟩ := bind_eq_ok hout
      exact ⟨samples, hsamples⟩
    · rintro ⟨samples, hsamples⟩
      exact ⟨_, by rw [estimateLambdaGeoFromMask, hsamples, ok_bind]⟩
  rw [hsamples, exists_mapM_iff, forall_reads_iff]
  exact forall₂_congr fun p _ => sampleAt_returns_iff

/-- For every mask, direction and centre: no read leaves the mask exactly when no sample inside of
the mask lies in its last half pixel. Then and only then the call returns. -/
theorem reads_inMask_iff [IsStrictOrderedRing K] :
    ((∀ idx ∈ reads m binMask vImg center, InMask binMask idx) ↔
        ∀ p ∈ profilePoints m binMask vImg center, binMask.Covers p →
          BeforeHalfPixel binMask.W p.1 ∧ BeforeHalfPixel binMask.H p.2) ∧
      ((∃ out, estimateLambdaGeoFromMask m pp ds binMask vImg center minRunPx = .ok out) ↔
        ∀ p ∈ profilePoints m binMask vImg center, binMask.Covers p →
          BeforeHalfPixel binMask.W p.1 ∧ BeforeHalfPixel binMask.H p.2) := by
  have hiff : (∀ idx ∈ reads m binMask vImg center, InMask binMask idx) ↔
      ∀ p ∈ profilePoints m binMask vImg center, binMask.Covers p →
        BeforeHalfPixel binMask.W p.1 ∧ BeforeHalfPixel binMask.H p.2 := by
    rw [forall_reads_iff]
    exact forall₂_congr fun p _ => forall_congr' fun hp => readIndex_inMask_iff hp
  exact ⟨hiff, (estimate_returns_iff m pp ds binMask vImg center minRunPx).trans hiff⟩

end

/-! ### A mask of five rows and columns -/

def smallMask : BinMask := ⟨5, 5, by decide, by decide, fun _ _ => 0⟩

/-- The functions of pyproj, for a raster that cannot be opened. -/
def noProj : PyProj ℚ Unit := ⟨fun _ p => p, fun _ => false, fun _ _ => 0⟩

/-- From the middle of the mask, the last sample lies just before the border, and the row 5 is
read. -/
theorem lastRow_read :
    (5, 2) ∈ reads PyMath.rat smallMask (1, 0) ((2, 2) : ℚ × ℚ) ∧ ¬InMask smallMask (5, 2) ∧
      estimateLambdaGeoFromMask PyMath.rat noProj (.error .fileNotFoundError) smallMask (1, 0)
        (2, 2) 3 = .error .indexError :=
  ⟨by decide +kernel, by decide, by decide +kernel⟩

/-- From the row above, every read is inside. -/
theorem reads_inMask_iff_above :
    (∃ out, estimateLambdaGeoFromMask PyMath.rat noProj (.error .fileNotFoundError) smallMask (1, 0)
        (2, 1) 3 = .ok out) ∧
      ∀ idx ∈ reads PyMath.rat smallMask (1, 0) ((2, 1) : ℚ × ℚ), InMask smallMask idx := by
  have hiff := reads_inMask_iff PyMath.rat noProj (.error .fileNotFoundError) smallMask (1, 0) (2, 1) 3
  have hsamples : ∀ p ∈ profilePoints PyMath.rat smallMask (1, 0) ((2, 1) : ℚ × ℚ),
      smallMask.Covers p → BeforeHalfPixel smallMask.W p.1 ∧ BeforeHalfPixel smallMask.H p.2 := by
    decide +kernel
  exact ⟨hiff.2.mpr hsamples, hiff.1.mpr hsamples⟩

end W2Net.Proofs.LambdaGeo
