import W2Net.Proofs.Utils.Lbr.Midline
import W2Net.Proofs.Utils.ScaledLabels

/-!
# `W2Net.Proofs.Utils.Lbr.LongAxis`: the midline is the long axis of the box

`get_short_edge_midline_endpoints` connects the midpoints of the two edges that are
not opposite to the longest one, and extends the segment at both ends. The two
midpoints are symmetric to the centroid (`midlineEnds_add`), and the vector between
them is a long edge (`IsRectangle.midline_sub`). A listing of the corners exchanges
the two ends or keeps them, so that the segment is the same for all eight
(`endpoints_longAxis`).
-/

set_option autoImplicit false

namespace W2Net.Proofs.Lbr

open W2Net.Lbr
open W2Net.Proofs.ScaledLabels (realMath)

variable {K : Type} [Field K] [LinearOrder K]

/-! ### Lengths -/

/-- What the code relies on of `numpy.linalg.norm`: the root is the exact one. -/
structure ExactSqrt (m : PyMath K) : Prop where
  nonneg : ∀ x, 0 ≤ m.sqrt x
  sq : ∀ x, 0 ≤ x → m.sqrt x ^ 2 = x

/-- The length of a multiple of a vector. -/
theorem ExactSqrt.hypot_mul [IsStrictOrderedRing K] {m : PyMath K} (hm : ExactSqrt m) {c : K}
    (hc : 0 ≤ c) (x y : K) : m.hypot (c * x) (c * y) = c * m.hypot x y := by
  have hpos : 0 ≤ x * x + y * y := add_nonneg (mul_self_nonneg x) (mul_self_nonneg y)
  have harg : c * x * (c * x) + c * y * (c * y) = c ^ 2 * (x * x + y * y) := by ring
  rw [PyMath.hypot, PyMath.hypot, harg]
  apply (pow_left_inj₀ (hm.nonneg _) (mul_nonneg hc (hm.nonneg _)) two_ne_zero).mp
  rw [hm.sq _ (mul_nonneg (sq_nonneg c) hpos), mul_pow, hm.sq _ hpos]

/-! ### The segment -/

/-- The centroid of the corners. -/
def centroid (q : Quad K) : K × K :=
  (((q 0).1 + (q 1).1 + (q 2).1 + (q 3).1) / 4, ((q 0).2 + (q 1).2 + (q 2).2 + (q 3).2) / 4)

/-- A segment with both ends moved out by `e` of its length. -/
def extend (e : K) (ends : (K × K) × (K × K)) : (K × K) × (K × K) :=
  let v := (ends.2.1 - ends.1.1, ends.2.2 - ends.1.2)
  ((ends.1.1 - e * v.1, ends.1.2 - e * v.2), (ends.2.1 + e * v.1, ends.2.2 + e * v.2))

variable (m : PyMath K) {q : Quad K}

/-- The returned segment is the midline, extended. -/
theorem endpoints_eq (q : Quad K) (e : K) :
    getShortEdgeMidlineEndpoints m q e = extend e (midlineEnds m q) := by
  simp only [midlineEnds, getShortEdgeMidlineEndpoints, extend, zero_mul, sub_zero, add_zero]

/-- The ends of the midline are symmetric to the centroid. -/
theorem midlineEnds_add [IsStrictOrderedRing K] (q : Quad K) :
    (midlineEnds m q).1 + (midlineEnds m q).2 = (2 * (centroid q).1, 2 * (centroid q).2) := by
  -- The middles of opposite edges are symmetric, whichever pair is the short one.
  have hmids : ∀ i : Fin 4, i = 0 ∨ i = 1 →
      edgeMid q i + edgeMid q (i + 2) = (2 * (centroid q).1, 2 * (centroid q).2) := by
    rintro i (rfl | rfl)
    · show (_, _) = _
      simp only [edgeMid, centroid, Fin.isValue, Fin.reduceAdd, Prod.mk.injEq]
      constructor <;> ring
    · show (_, _) = _
      simp only [edgeMid, centroid, Fin.isValue, Fin.reduceAdd, Prod.mk.injEq]
      constructor <;> ring
  have hends : midlineEnds m q
      = (edgeMid q (shortIdxs (longIdx m q)).1, edgeMid q (shortIdxs (longIdx m q)).2) := by
    simp only [midlineEnds, getShortEdgeMidlineEndpoints, zero_mul, sub_zero, add_zero]
  rw [hends, shortIdxs]
  split
  · exact hmids 1 (Or.inr rfl)
  · exact hmids 0 (Or.inl rfl)

variable [IsStrictOrderedRing K]

omit [LinearOrder K] [IsStrictOrderedRing K] in
/-- The vectors between the midpoints of opposite edges. -/
theorem IsRectangle.edgeMid_sub [CharZero K] (h : IsRectangle q) :
    edgeMid q 2 - edgeMid q 0 = quadEdge q 1 ∧ edgeMid q 3 - edgeMid q 1 = -quadEdge q 0 := by
  have hx := congrArg Prod.fst h.parallel
  have hy := congrArg Prod.snd h.parallel
  simp only [quadEdge, Fin.isValue, Fin.reduceAdd, Prod.fst_neg, Prod.snd_neg] at hx hy
  constructor
  · simp only [edgeMid, quadEdge, Prod.mk_sub_mk, Fin.isValue, Fin.reduceAdd, Prod.mk.injEq]
    constructor
    · linear_combination (1 / 2) * hx
    · linear_combination (1 / 2) * hy
  · simp only [edgeMid, quadEdge, Prod.mk_sub_mk, Prod.neg_mk, Fin.isValue, Fin.reduceAdd,
      Prod.mk.injEq]
    constructor
    · linear_combination (1 / 2) * hx
    · linear_combination (1 / 2) * hy

/-- From one end of the midline to the other it is one of the long edges. -/
theorem IsRectangle.midline_sub (h : IsRectangle q)
    (hne : quadEdgeLength m q 0 ≠ quadEdgeLength m q 1) {i : Fin 4}
    (hi : ∀ j, quadEdgeLength m q j ≤ quadEdgeLength m q i) :
    (midlineEnds m q).2 - (midlineEnds m q).1 = quadEdge q i ∨
      (midlineEnds m q).2 - (midlineEnds m q).1 = -quadEdge q i := by
  have h2 := h.length_two m
  have h3 := h.length_three m
  obtain ⟨hsub0, hsub1⟩ := h.edgeMid_sub
  rcases lt_or_gt_of_ne hne with hlt | hgt
  · -- The second edge is a long one, and so is the fourth.
    rw [midlineEnds_of_one m (h.longIdx_one m hlt)]
    have hi1 := hi 1
    fin_cases i
    · exact absurd hi1 (not_le.mpr hlt)
    · exact Or.inl hsub0
    · exact absurd (hi1.trans_eq h2) (not_le.mpr hlt)
    · exact Or.inr (hsub0.trans (neg_eq_iff_eq_neg.mpr h.parallel').symm)
  · rw [midlineEnds_of_zero m (h.longIdx_zero m hgt)]
    have hi0 := hi 0
    fin_cases i
    · exact Or.inr hsub1
    · exact absurd hi0 (not_le.mpr hgt)
    · exact Or.inl (hsub1.trans h.parallel.symm)
    · exact absurd (hi0.trans_eq h3) (not_le.mpr hgt)

/-- The segment is the long axis of the rectangle, made longer by `e` of its length at
both ends: centred at the centroid, along the long edges `i`, and of the length of
these. -/
structure LongAxis (q : Quad K) (i : Fin 4) (e : K) (ends : (K × K) × (K × K)) : Prop where
  centre : ends.1 + ends.2 = (2 * (centroid q).1, 2 * (centroid q).2)
  parallel : (ends.2.1 - ends.1.1) * (quadEdge q i).2 = (ends.2.2 - ends.1.2) * (quadEdge q i).1
  length : m.hypot (ends.2.1 - ends.1.1) (ends.2.2 - ends.1.2)
    = (1 + 2 * e) * quadEdgeLength m q i

/-- A segment around the centroid, of the length and direction of a long edge, after
the extension. -/
theorem longAxis_extend (hm : ExactSqrt m) {e : K} (he : 0 ≤ e) {i : Fin 4}
    {ends : (K × K) × (K × K)}
    (hadd : ends.1 + ends.2 = (2 * (centroid q).1, 2 * (centroid q).2))
    (hsub : ends.2 - ends.1 = quadEdge q i ∨ ends.2 - ends.1 = -quadEdge q i) :
    LongAxis m q i e (extend e ends) := by
  obtain ⟨a, b⟩ := ends
  have hvec : (extend e (a, b)).2 - (extend e (a, b)).1
      = ((1 + 2 * e) * (b - a).1, (1 + 2 * e) * (b - a).2) := by
    simp only [extend, Prod.mk_sub_mk, Prod.fst_sub, Prod.snd_sub, Prod.mk.injEq]
    constructor <;> ring
  have hx := congrArg Prod.fst hvec
  have hy := congrArg Prod.snd hvec
  simp only [Prod.fst_sub (extend e (a, b)).2, Prod.snd_sub (extend e (a, b)).2] at hx hy
  -- Before the extension the segment is the edge or its opposite.
  have hedge : (b - a).1 * (quadEdge q i).2 = (b - a).2 * (quadEdge q i).1 ∧
      m.hypot (b - a).1 (b - a).2 = quadEdgeLength m q i := by
    rcases hsub with hsub | hsub
    · rw [hsub]
      exact ⟨mul_comm _ _, rfl⟩
    · rw [hsub, hypot_neg]
      exact ⟨by rw [Prod.fst_neg, Prod.snd_neg]; ring, rfl⟩
  refine ⟨?_, ?_, ?_⟩
  · rw [← hadd]
    simp only [extend, Prod.ext_iff, Prod.fst_add, Prod.snd_add]
    constructor <;> ring
  · rw [hx, hy, mul_assoc, mul_assoc, hedge.1]
  · rw [hx, hy, hm.hypot_mul (by linarith), hedge.2]

/-- For every rectangle with different sides, every listing of its corners, and every
extension, the function returns the long axis. -/
theorem endpoints_longAxis (hm : ExactSqrt m) (hq : IsRectangle q)
    (hne : quadEdgeLength m q 0 ≠ quadEdgeLength m q 1) {q' : Quad K} (hq' : IsListing q' q)
    {e : K} (he : 0 ≤ e) {i : Fin 4} (hi : ∀ j, quadEdgeLength m q j ≤ quadEdgeLength m q i) :
    LongAxis m q i e (getShortEdgeMidlineEndpoints m q' e) := by
  have hadd := midlineEnds_add m q
  have hsub := hq.midline_sub m hne hi
  rw [endpoints_eq]
  rcases hq.midlineEnds_listing m hne hq' with hends | hends
  · rw [hends]
    exact longAxis_extend m hm he hadd hsub
  · rw [hends]
    apply longAxis_extend m hm he
    · rw [Prod.fst_swap, Prod.snd_swap, add_comm, hadd]
    · rw [Prod.fst_swap, Prod.snd_swap, ← neg_sub, neg_inj, neg_eq_iff_eq_neg]
      exact hsub.symm

/-- A square root of the real numbers. -/
theorem realMath_exactSqrt : ExactSqrt realMath where
  nonneg := Real.sqrt_nonneg
  sq _ := Real.sq_sqrt

/-- A box along the rows with the sides 8 and 2, listed from its third corner the other
way around. -/
theorem endpoints_longAxis_level :
    LongAxis realMath (![(1, 2), (9, 2), (9, 4), (1, 4)] : Quad ℝ) 0 (1 / 2)
      (getShortEdgeMidlineEndpoints realMath
        (rotateQuad 2 (reverseQuad ![(1, 2), (9, 2), (9, 4), (1, 4)])) (1 / 2)) := by
  have hrect : IsRectangle (![(1, 2), (9, 2), (9, 4), (1, 4)] : Quad ℝ) := by
    constructor <;> simp [quadEdge]
  have hlong : quadEdgeLength realMath (![(1, 2), (9, 2), (9, 4), (1, 4)] : Quad ℝ) 0 = 8 := by
    have hsq : (9 - 1 : ℝ) * (9 - 1) = 8 ^ 2 := by norm_num
    simp [quadEdgeLength, quadEdge, PyMath.hypot, realMath, hsq]
  have hshort : quadEdgeLength realMath (![(1, 2), (9, 2), (9, 4), (1, 4)] : Quad ℝ) 1 = 2 := by
    have hsq : (4 - 2 : ℝ) * (4 - 2) = 2 ^ 2 := by norm_num
    simp [quadEdgeLength, quadEdge, PyMath.hypot, realMath, hsq]
  refine endpoints_longAxis realMath realMath_exactSqrt hrect ?_ ⟨2, Or.inr rfl⟩ (by norm_num)
    fun j => ?_
  · rw [hlong, hshort]
    norm_num
  · have h2 := hrect.length_two realMath
    have h3 := hrect.length_three realMath
    fin_cases j
    · exact le_refl _
    · exact (hshort.trans_le (by norm_num)).trans_eq hlong.symm
    · exact h2.le
    · exact (h3.trans hshort).trans_le ((by norm_num : (2 : ℝ) ≤ 8).trans_eq hlong.symm)

end W2Net.Proofs.Lbr
