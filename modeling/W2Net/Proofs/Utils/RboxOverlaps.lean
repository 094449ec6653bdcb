import W2Net.Utils.RboxOverlaps

/-!
# `W2Net.Proofs.Utils.RboxOverlaps`: the two overlap matrices

The Cython `rbox_overlaps` rounds the area of a partial intersection to an integer, and the
Python function it was rewritten from does not. Cython also checks each divisor, where numpy
divides and gives an infinity or a NaN.

Both functions run the same loops, so they are compared pair by pair (`agree_iff_forall`).
A quotient `x / (ua - x)` determines `x` unless `ua` is 0 (`quotient_inj_iff`). So a pair
with a partial intersection has the same entry when its contour area is a natural number
(`partial_iff`). `rboxOverlaps_agree_iff` collects the pairs.
-/

set_option autoImplicit false

namespace W2Net.Proofs.RboxOverlaps

open W2Net.RboxOverlaps

variable {K : Type} [Field K] [LinearOrder K] [FloorRing K] (cv : Cv2 K)

section
variable {N M : ℕ} (boxes : Fin N → RBox K) (queryBoxes : Fin M → RBox K)
  (indicator : Option (Fin N → Fin M → K)) (thresh : K)

/-- Both functions return, and the Python matrix has the numbers of the Cython one. -/
def Agree : Prop :=
  ∃ out, rboxOverlapsLoop cv boxes queryBoxes indicator thresh = .ok out ∧
    Bbox.rboxOverlaps cv boxes queryBoxes indicator thresh = .ok fun i => .finite (out i)

/-- The contour area that OpenCV reports for a pair. -/
def contour (box query : RBox K) : K :=
  cv.contourArea (cv.rotatedRectangleIntersection box.rect query.rect).2

/-- What a pair of boxes needs for the two entries to be the same number. -/
structure SameEntry (box query : RBox K) : Prop where
  /-- For a partial intersection: a natural area that is not the whole sum, or boxes whose
  areas cancel. -/
  partially : cv.kind box.rect query.rect = 1 →
    ((∃ n : ℕ, contour cv box query = n) ∧ box.area + query.area ≠ contour cv box query) ∨
      (box.area + query.area = 0 ∧ 1 / 2 < |contour cv box query|)
  /-- For a box inside the other: an area that is not 0. -/
  inside : cv.kind box.rect query.rect = 2 → max box.area query.area ≠ 0

/-! ### One pair -/

/-- The entry of one index, in both matrices. -/
def EntryAgrees (i : Fin N × Fin M) (x : K) : Prop :=
  (∃ written, overlapStep cv boxes queryBoxes indicator thresh i = .ok written ∧
    x = written.getD 0) ∧
  ∃ written, Bbox.overlapStep cv boxes queryBoxes indicator thresh i = .ok written ∧
    NpFloat.finite x = written.getD (.finite 0)

/-- The loops compare entry by entry. -/
theorem agree_iff_forall :
    Agree cv boxes queryBoxes indicator thresh ↔
      ∀ i, ∃ x, EntryAgrees cv boxes queryBoxes indicator thresh i x := by
  unfold Agree rboxOverlapsLoop Bbox.rboxOverlaps
  simp only [fillLoop_cells_eq_ok_iff]
  rw [Classical.skolem]
  constructor
  · rintro ⟨out, hcython, hpython⟩
    exact ⟨out, fun i => ⟨hcython i, hpython i⟩⟩
  · rintro ⟨out, h⟩
    exact ⟨out, fun i => (h i).1, fun i => (h i).2⟩

end

/-! ### The divisions -/

omit [LinearOrder K] [FloorRing K] in
/-- The quotients of two areas by what they leave of the sum. -/
theorem quotient_inj_iff {ua a b : K} (ha : ua - a ≠ 0) (hb : ua - b ≠ 0) :
    a / (ua - a) = b / (ua - b) ↔ a = b ∨ ua = 0 := by
  rw [div_eq_div_iff ha hb]
  have hfactor : a * (ua - b) - b * (ua - a) = (a - b) * ua := by ring
  rw [← sub_eq_zero, hfactor, mul_eq_zero, sub_eq_zero]

omit [FloorRing K] in
/-- Cython's division and numpy's give the same number. -/
theorem divisions_iff (ua a b : K) :
    (∃ x, pyDiv a (ua - a) = .ok x ∧ npDiv b (ua - b) = .finite x) ↔
      ua ≠ a ∧ ua ≠ b ∧ (a = b ∨ ua = 0) := by
  simp only [pyDiv_eq_ok_iff, npDiv_eq_finite_iff, sub_ne_zero]
  constructor
  · rintro ⟨x, ⟨ha, rfl⟩, hb, hx⟩
    exact ⟨ha, hb, (quotient_inj_iff (sub_ne_zero.mpr ha) (sub_ne_zero.mpr hb)).mp hx⟩
  · rintro ⟨ha, hb, hab⟩
    exact ⟨_, ⟨ha, rfl⟩, hb, (quotient_inj_iff (sub_ne_zero.mpr ha) (sub_ne_zero.mpr hb)).mpr hab⟩

omit [FloorRing K] in
/-- The entry of a box inside the other one. -/
theorem inside_iff (A B : K) :
    (∃ x, pyDiv (min A B) (A + B - min A B) = .ok x ∧
      npDiv (min A B) (A + B - min A B) = .finite x) ↔ max A B ≠ 0 := by
  have hmax : A + B - min A B = max A B := by
    rw [← min_add_max A B, add_sub_cancel_left]
  rw [divisions_iff, and_self_left, and_iff_left (Or.inl rfl), ← sub_ne_zero, hmax]

omit [LinearOrder K] [FloorRing K] in
/-- The written entries of two bodies that divide. -/
theorem exists_written_iff (x : PyM K) (y : NpFloat K) :
    (∃ z, (∃ written, x.map some = .ok written ∧ z = written.getD 0) ∧
      ∃ written, (.ok (some y) : PyM (Option (NpFloat K))) = .ok written ∧
        NpFloat.finite z = written.getD (.finite 0)) ↔
      ∃ z, x = .ok z ∧ y = .finite z := by
  -- A body that raises writes nothing, on either side.
  cases x with
  | error e =>
      refine iff_of_false ?_ ?_
      · rintro ⟨z, ⟨written, h, -⟩, -⟩
        cases h
      · rintro ⟨z, h, -⟩
        cases h
  | ok a =>
      constructor
      · rintro ⟨z, ⟨written, h, rfl⟩, written', h', hz⟩
        cases h
        cases h'
        exact ⟨a, rfl, hz.symm⟩
      · rintro ⟨z, h, rfl⟩
        cases h
        exact ⟨a, ⟨some a, rfl, rfl⟩, _, rfl, rfl⟩

variable [IsStrictOrderedRing K]

/-- Rounding the absolute value gives the number itself exactly for natural numbers. -/
theorem pyRound_abs_eq_iff (a : K) : (pyRound |a| : K) = a ↔ ∃ n : ℕ, a = n := by
  constructor
  · intro h
    obtain ⟨n, hn⟩ := Int.eq_ofNat_of_zero_le (pyRound_nonneg (abs_nonneg a))
    refine ⟨n, ?_⟩
    rw [← h, hn, Int.cast_natCast]
  · rintro ⟨n, rfl⟩
    rw [Nat.abs_cast, ← Int.cast_natCast, pyRound_intCast]

theorem pyRound_abs_eq_zero_iff (a : K) : (pyRound |a| : K) = 0 ↔ |a| ≤ 1 / 2 := by
  have hnonneg := pyRound_nonneg (abs_nonneg a)
  have hle := pyRound_le_iff (x := |a|) (n := 0)
  rw [Int.cast_zero, zero_add, and_iff_left (by rfl), ← le_iff_lt_or_eq] at hle
  rw [Int.cast_eq_zero, ← hle]
  omega

/-- The entry of a partial intersection with the sum `ua` of the areas and the contour area
`a`. -/
theorem partial_iff (ua a : K) :
    (∃ x, pyDiv (pyRound |a| : K) (ua - pyRound |a|) = .ok x ∧ npDiv a (ua - a) = .finite x) ↔
      ((∃ n : ℕ, a = n) ∧ ua ≠ a) ∨ (ua = 0 ∧ 1 / 2 < |a|) := by
  rw [divisions_iff, pyRound_abs_eq_iff]
  constructor
  · rintro ⟨hround, ha, hnat | rfl⟩
    · exact Or.inl ⟨hnat, ha⟩
    · refine Or.inr ⟨rfl, ?_⟩
      rw [← not_le, ← pyRound_abs_eq_zero_iff]
      exact hround.symm
  · rintro (⟨hnat, ha⟩ | ⟨rfl, ha⟩)
    · -- A natural number is not moved by the rounding, so both divisions are the same.
      rw [(pyRound_abs_eq_iff a).mpr hnat]
      exact ⟨ha, ha, Or.inl hnat⟩
    · rw [← not_le, ← pyRound_abs_eq_zero_iff] at ha
      refine ⟨fun h => ha h.symm, ?_, Or.inr rfl⟩
      rintro rfl
      rw [pyRound_abs_eq_zero_iff, abs_zero] at ha
      exact ha one_half_pos.le

/-! ### All pairs -/

variable {N M : ℕ} (boxes : Fin N → RBox K) (queryBoxes : Fin M → RBox K)
  (indicator : Option (Fin N → Fin M → K)) (thresh : K)

/-- An entry is the same in both matrices. A pair without an intersection, or below the
threshold, keeps the 0 of both. -/
theorem exists_entryAgrees_iff (i : Fin N × Fin M) :
    (∃ x, EntryAgrees cv boxes queryBoxes indicator thresh i x) ↔
      (Bbox.skipped indicator thresh i = false → SameEntry cv (boxes i.1) (queryBoxes i.2)) := by
  have hzero : ∃ x : K, (∃ written, (.ok none : PyM (Option K)) = .ok written ∧
      x = written.getD 0) ∧ ∃ written, (.ok none : PyM (Option (NpFloat K))) = .ok written ∧
        NpFloat.finite x = written.getD (.finite 0) :=
    ⟨0, ⟨none, rfl, rfl⟩, none, rfl, rfl⟩
  unfold EntryAgrees overlapStep Bbox.overlapStep
  cases hskip : Bbox.skipped indicator thresh i with
  | true => exact iff_of_true hzero fun h => nomatch h
  | false =>
      simp only [Bool.false_eq_true, if_false, forall_const, add_sub_cancel_right]
      split_ifs with hone htwo
      · -- A partial intersection.
        rw [exists_written_iff]
        have hpair := partial_iff ((boxes i.1).area + (queryBoxes i.2).area)
          (contour cv (boxes i.1) (queryBoxes i.2))
        refine hpair.trans ⟨fun h => ⟨fun _ => h, fun htwo => ?_⟩, fun h => h.partially hone⟩
        omega
      · rw [exists_written_iff]
        refine (inside_iff _ _).trans ⟨fun h => ⟨fun h1 => ?_, fun _ => h⟩, fun h => h.inside htwo⟩
        omega
      · exact iff_of_true hzero ⟨fun h => absurd h hone, fun h => absurd h htwo⟩

/-- The two functions return the same matrix exactly when every pair that passes the
threshold has the same entry. -/
theorem rboxOverlaps_agree_iff :
    Agree cv boxes queryBoxes indicator thresh ↔
      ∀ i, Bbox.skipped indicator thresh i = false →
        SameEntry cv (boxes i.1) (queryBoxes i.2) := by
  rw [agree_iff_forall]
  exact forall_congr' fun i => exists_entryAgrees_iff cv boxes queryBoxes indicator thresh i

/-- A unit square. -/
def unitSquare : RBox ℚ := ⟨0, 0, 1, 1, 0⟩

/-- The square moved along the diagonal. The two share a quarter of each. -/
def unitSquareMoved : RBox ℚ := ⟨1 / 2, 1 / 2, 3 / 2, 3 / 2, 0⟩

/-- The rounded area of their intersection is 0. -/
theorem unitSquares_differ :
    ¬ Agree (Cv2.aligned : Cv2 ℚ) ![unitSquare] ![unitSquareMoved] none (1 / 10) := by
  rw [agree_iff_forall]
  intro h
  obtain ⟨x, ⟨written, hcython, rfl⟩, written', hpython, hx⟩ := h (0, 0)
  have hzero : overlapStep (Cv2.aligned : Cv2 ℚ) ![unitSquare] ![unitSquareMoved] none (1 / 10) (0, 0)
      = .ok (some 0) := by decide +kernel
  have hseventh : Bbox.overlapStep (Cv2.aligned : Cv2 ℚ) ![unitSquare] ![unitSquareMoved] none
      (1 / 10) (0, 0) = .ok (some (.finite (1 / 7))) := by decide +kernel
  rw [hzero] at hcython
  rw [hseventh] at hpython
  cases hcython
  cases hpython
  revert hx
  decide +kernel

theorem rboxOverlaps_agree_iff_unitSquares :
    Agree (Cv2.aligned : Cv2 ℚ) ![unitSquare] ![unitSquareMoved] none (1 / 10) ↔
      ∀ i, Bbox.skipped none (1 / 10) i = false →
        SameEntry (Cv2.aligned : Cv2 ℚ) (![unitSquare] i.1) (![unitSquareMoved] i.2) :=
  rboxOverlaps_agree_iff (Cv2.aligned : Cv2 ℚ) ![unitSquare] ![unitSquareMoved] none (1 / 10)

end W2Net.Proofs.RboxOverlaps
