import Mathlib.Algebra.Group.Prod
import Mathlib.Algebra.Order.Field.Basic
import Mathlib.Data.Fintype.Basic
import Mathlib.Tactic.FinCases
import Mathlib.Tactic.LinearCombination
import W2Net.Utils.Lbr.Obb

/-!
# `W2Net.Proofs.Utils.Lbr.Listing`: the listings of the corners of a rectangle

Four consecutive corners of a rectangle can be listed from any of them
(`rotateQuad`), and in two orientations (`reverseQuad`). The first longest edge
is one of the two long edges, which are opposite vectors. `longEdge_rotate` says
that a rotation of the listing keeps the long edge or turns it around, and
`longEdge_rotate_two` that the rotation by two corners turns it around.
-/

set_option autoImplicit false

namespace W2Net.Proofs.Lbr

open W2Net.Lbr

variable {K : Type} [Field K]

/-- The listing that starts at corner `k`. -/
def rotateQuad (k : Fin 4) (q : Quad K) : Quad K := fun i => q (i + k)

/-- The corners in the other orientation, from the last one. -/
def reverseQuad (q : Quad K) : Quad K := fun i => q (3 - i)

/-- Four consecutive corners of a rectangle. -/
structure IsRectangle (q : Quad K) : Prop where
  parallel : quadEdge q 2 = -quadEdge q 0
  perp : (quadEdge q 0).1 * (quadEdge q 1).1 + (quadEdge q 0).2 * (quadEdge q 1).2 = 0

theorem quadEdge_rotate (k : Fin 4) (q : Quad K) (i : Fin 4) :
    quadEdge (rotateQuad k q) i = quadEdge q (i + k) := by
  have hadd : i + 1 + k = i + k + 1 := by omega
  simp only [quadEdge, rotateQuad, hadd]

/-- The other two edges are parallel, too: the four edges add up to zero. -/
theorem IsRectangle.parallel' {q : Quad K} (h : IsRectangle q) :
    quadEdge q 3 = -quadEdge q 1 := by
  have hx := congrArg Prod.fst h.parallel
  have hy := congrArg Prod.snd h.parallel
  simp only [quadEdge, Prod.fst_neg, Prod.snd_neg, Fin.isValue, Fin.reduceAdd] at hx hy
  simp only [quadEdge, Prod.neg_mk, Fin.isValue, Fin.reduceAdd, Prod.mk.injEq]
  constructor
  · linear_combination -hx
  · linear_combination -hy

section
variable (m : PyMath K) {q : Quad K}

/-- The length of an edge does not depend on its direction. -/
theorem hypot_neg (v : K × K) : m.hypot (-v).1 (-v).2 = m.hypot v.1 v.2 := by
  simp only [PyMath.hypot, Prod.fst_neg, Prod.snd_neg, neg_mul_neg]

theorem quadEdgeLength_rotate (k : Fin 4) (i : Fin 4) :
    quadEdgeLength m (rotateQuad k q) i = quadEdgeLength m q (i + k) := by
  simp only [quadEdgeLength, quadEdge_rotate]

theorem IsRectangle.length_two (h : IsRectangle q) :
    quadEdgeLength m q 2 = quadEdgeLength m q 0 := by
  rw [quadEdgeLength, h.parallel, hypot_neg]
  rfl

theorem IsRectangle.length_three (h : IsRectangle q) :
    quadEdgeLength m q 3 = quadEdgeLength m q 1 := by
  rw [quadEdgeLength, h.parallel', hypot_neg]
  rfl

end

variable [LinearOrder K] (m : PyMath K) {q : Quad K}

/-- When the first edge is a long one, it is the first longest edge. -/
theorem IsRectangle.longIdx_zero (h : IsRectangle q)
    (hlt : quadEdgeLength m q 1 < quadEdgeLength m q 0) : longIdx m q = 0 := by
  have h2 := h.length_two m
  have h3 := h.length_three m
  refine IsFirstMax.eq_argmax ⟨fun j => ?_, fun j hj => absurd hj (Fin.not_lt_zero j)⟩
  fin_cases j
  · exact le_refl _
  · exact hlt.le
  · exact h2.le
  · exact h3.le.trans hlt.le

/-- When the second edge is a long one, it is the first longest edge. -/
theorem IsRectangle.longIdx_one (h : IsRectangle q)
    (hlt : quadEdgeLength m q 0 < quadEdgeLength m q 1) : longIdx m q = 1 := by
  have h2 := h.length_two m
  have h3 := h.length_three m
  refine IsFirstMax.eq_argmax ⟨fun j => ?_, fun j hj => ?_⟩
  · fin_cases j
    · exact hlt.le
    · exact le_refl _
    · exact h2.le.trans hlt.le
    · exact h3.le
  · have hj0 : j = 0 := by omega
    rw [hj0]
    exact hlt

omit [LinearOrder K] in
theorem IsRectangle.rotate (h : IsRectangle q) (k : Fin 4) : IsRectangle (rotateQuad k q) := by
  have hpar := h.parallel
  have hpar' := h.parallel'
  have hperp := h.perp
  fin_cases k
  all_goals
    constructor
    all_goals
      simp only [quadEdge_rotate, Fin.isValue, Fin.zero_eta, Fin.mk_one, Fin.reduceFinMk,
        Fin.reduceAdd, hpar, hpar', neg_neg, Prod.fst_neg, Prod.snd_neg]
  · linear_combination hperp
  · linear_combination -hperp
  · linear_combination hperp
  · linear_combination -hperp

/-- The long edge of a listing. -/
def longEdge (q : Quad K) : K × K := quadEdge q (longIdx m q)

/-- The long edges of the four listings, when the first edge is a long one. -/
theorem IsRectangle.longEdge_rotate_zero (h : IsRectangle q)
    (hlt : quadEdgeLength m q 1 < quadEdgeLength m q 0) (k : Fin 4) :
    longEdge m (rotateQuad k q)
      = ![quadEdge q 0, -quadEdge q 0, -quadEdge q 0, quadEdge q 0] k := by
  have h2 := h.length_two m
  have h3 := h.length_three m
  have hrot := h.rotate k
  -- The long edge of a listing is its first or its second edge.
  fin_cases k
  · rw [longEdge, hrot.longIdx_zero m (by simpa [quadEdgeLength_rotate] using hlt), quadEdge_rotate]
    rfl
  · rw [longEdge, hrot.longIdx_one m (by simpa [quadEdgeLength_rotate, h2] using hlt),
      quadEdge_rotate]
    exact h.parallel
  · rw [longEdge, hrot.longIdx_zero m (by simpa [quadEdgeLength_rotate, h2, h3] using hlt),
      quadEdge_rotate]
    exact h.parallel
  · rw [longEdge, hrot.longIdx_one m (by simpa [quadEdgeLength_rotate, h3] using hlt),
      quadEdge_rotate]
    rfl

omit [Field K] [LinearOrder K] in
theorem rotateQuad_rotateQuad (k l : Fin 4) :
    rotateQuad k (rotateQuad l q) = rotateQuad (k + l) q := by
  funext i
  have hadd : i + k + l = i + (k + l) := by omega
  rw [rotateQuad, rotateQuad, rotateQuad, hadd]

/-- When the second edge is a long one, it is the first edge of the next listing. -/
theorem IsRectangle.length_lt_rotate_one (h : IsRectangle q)
    (hlt : quadEdgeLength m q 0 < quadEdgeLength m q 1) :
    quadEdgeLength m (rotateQuad 1 q) 1 < quadEdgeLength m (rotateQuad 1 q) 0 := by
  simpa [quadEdgeLength_rotate, h.length_two m] using hlt

/-- The long edges of the four listings, when the second edge is a long one. -/
theorem IsRectangle.longEdge_rotate_one (h : IsRectangle q)
    (hlt : quadEdgeLength m q 0 < quadEdgeLength m q 1) (k : Fin 4) :
    longEdge m (rotateQuad k q)
      = ![quadEdge q 1, quadEdge q 1, -quadEdge q 1, -quadEdge q 1] k := by
  have hrow := (h.rotate 1).longEdge_rotate_zero m (h.length_lt_rotate_one m hlt) (k - 1)
  have hk : k - 1 + 1 = k := by omega
  rw [rotateQuad_rotateQuad, hk, quadEdge_rotate] at hrow
  rw [hrow]
  fin_cases k <;> rfl

omit [Field K] [LinearOrder K] in
theorem rotateQuad_zero : rotateQuad 0 q = q := by
  funext i
  rw [rotateQuad, Fin.add_zero]

/-- The long edge of each listing is one of two opposite vectors. -/
theorem IsRectangle.longEdge_turned (h : IsRectangle q)
    (hne : quadEdgeLength m q 0 ≠ quadEdgeLength m q 1) :
    ∃ turned : Fin 4 → Bool, turned 2 = true ∧
      ∀ k, longEdge m (rotateQuad k q) = if turned k then -longEdge m q else longEdge m q := by
  rcases lt_or_gt_of_ne hne with hlt | hgt
  · have hk := h.longEdge_rotate_one m hlt
    have h0 := hk 0
    rw [rotateQuad_zero] at h0
    refine ⟨![false, false, true, true], rfl, fun k => ?_⟩
    rw [h0, hk k]
    fin_cases k <;> rfl
  · have hk := h.longEdge_rotate_zero m hgt
    have h0 := hk 0
    rw [rotateQuad_zero] at h0
    refine ⟨![false, true, true, false], rfl, fun k => ?_⟩
    rw [h0, hk k]
    fin_cases k <;> rfl

theorem IsRectangle.longEdge_rotate (h : IsRectangle q)
    (hne : quadEdgeLength m q 0 ≠ quadEdgeLength m q 1) (k : Fin 4) :
    longEdge m (rotateQuad k q) = longEdge m q ∨ longEdge m (rotateQuad k q) = -longEdge m q := by
  obtain ⟨turned, -, hturned⟩ := h.longEdge_turned m hne
  rw [hturned k]
  split
  · exact Or.inr rfl
  · exact Or.inl rfl

/-- The listing from the opposite corner turns the long edge around. -/
theorem IsRectangle.longEdge_rotate_two (h : IsRectangle q)
    (hne : quadEdgeLength m q 0 ≠ quadEdgeLength m q 1) :
    longEdge m (rotateQuad 2 q) = -longEdge m q := by
  obtain ⟨turned, htwo, hturned⟩ := h.longEdge_turned m hne
  rw [hturned 2, if_pos htwo]

end W2Net.Proofs.Lbr
