import Mathlib.Algebra.Group.Prod
import Mathlib.Algebra.Order.Field.Basic
import Mathlib.Data.Set.Image
import Mathlib.Data.Set.Insert
import Mathlib.Tactic.LinearCombination
import Mathlib.Tactic.Linarith
import Mathlib.Tactic.Ring
import W2Net.Lib.Numerals

/-!
# `W2Net.Lib.RotatedRect`: the corners of a rotated rectangle

A rectangle with the half extents `a` and `b`, turned by an angle with cosine
`c` and sine `s`, has its corners at the four `cornerOffsets` from its centre.

Stretching the plane by `u` and `v` along the axes and stretching the half
extents by `u` and `v` do not commute with a rotation. `cornerOffsets_stretch_iff` says
when they give the same corners. `cornerOffsets_inside_iff` says when the corners lie in an
upright box. `solid` has all points of the rectangle: a quarter turn with exchanged sides keeps
them (`solid_quarterTurn`), and exchanging the sides alone does only for a square
(`solid_exchange_iff`).
-/

set_option autoImplicit false

namespace W2Net

variable {K : Type} [Field K]

/-- The half extents, rotated. -/
def cornerOffset (c s a b : K) : K × K := (a * c - b * s, a * s + b * c)

/-- The corners, seen from the centre. -/
def cornerOffsets (c s a b : K) : Set (K × K) :=
  {cornerOffset c s a b, cornerOffset c s a (-b), -cornerOffset c s a b, -cornerOffset c s a (-b)}

/-- The plane stretched along its axes. -/
def stretch (u v : K) (p : K × K) : K × K := (u * p.1, v * p.2)

/-- The corners of the stretched plane. -/
def stretchedOffsets (u v c s a b : K) : Set (K × K) := stretch u v '' cornerOffsets c s a b

/-- A half turn exchanges opposite corners. -/
theorem cornerOffsets_neg (c s a b : K) : cornerOffsets (-c) (-s) a b = cornerOffsets c s a b := by
  have hneg : ∀ b : K, cornerOffset (-c) (-s) a b = -cornerOffset c s a b := by
    intro b
    simp only [cornerOffset, Prod.neg_mk, Prod.mk.injEq]
    constructor <;> ring
  ext p
  simp only [cornerOffsets, hneg, neg_neg, Set.mem_insert_iff, Set.mem_singleton_iff]
  tauto

/-- A quarter turn exchanges the sides. -/
theorem cornerOffsets_quarterTurn (c s a b : K) :
    cornerOffsets (-s) c b a = cornerOffsets c s a b := by
  have hturn : cornerOffset (-s) c b a = -cornerOffset c s a (-b) := by
    simp only [cornerOffset, Prod.neg_mk, Prod.mk.injEq]
    constructor <;> ring
  have hturn' : cornerOffset (-s) c b (-a) = cornerOffset c s a b := by
    simp only [cornerOffset, Prod.mk.injEq]
    constructor <;> ring
  ext p
  simp only [cornerOffsets, hturn, hturn', neg_neg, Set.mem_insert_iff, Set.mem_singleton_iff]
  tauto

/-- The offset of a corner determines the extents. -/
theorem cornerOffset_inj {c s a b a' b' : K} (hcs : c ^ 2 + s ^ 2 = 1)
    (h : cornerOffset c s a b = cornerOffset c s a' b') : a = a' ∧ b = b' := by
  rw [cornerOffset, cornerOffset, Prod.mk.injEq] at h
  obtain ⟨hx, hy⟩ := h
  constructor
  · linear_combination c * hx + s * hy + (a' - a) * hcs
  · linear_combination c * hy - s * hx + (b' - b) * hcs

variable [LinearOrder K] [IsStrictOrderedRing K] {u v c s a b : K}

/-- The points of the rectangle, seen from the centre. -/
def solid (c s a b : K) : Set (K × K) :=
  {p | ∃ x y, |x| ≤ a ∧ |y| ≤ b ∧ cornerOffset c s x y = p}

omit [IsStrictOrderedRing K] in
/-- A quarter turn exchanges the sides. -/
theorem solid_quarterTurn (c s a b : K) : solid (-s) c b a = solid c s a b := by
  ext p
  constructor
  · rintro ⟨x, y, hx, hy, rfl⟩
    refine ⟨-y, x, by rwa [abs_neg], hx, ?_⟩
    simp only [cornerOffset, Prod.mk.injEq]
    constructor <;> ring
  · rintro ⟨x, y, hx, hy, rfl⟩
    refine ⟨y, -x, hy, by rwa [abs_neg], ?_⟩
    simp only [cornerOffset, Prod.mk.injEq]
    constructor <;> ring

/-- A rectangle with its sides exchanged is the same only if it is a square. -/
theorem solid_exchange_iff (hcs : c ^ 2 + s ^ 2 = 1) (ha : 0 ≤ a) (hb : 0 ≤ b) :
    solid c s b a = solid c s a b ↔ a = b := by
  have hle : ∀ {a b : K}, 0 ≤ a → 0 ≤ b → solid c s b a = solid c s a b → a ≤ b := by
    intro a b ha hb h
    -- The middle of a side.
    have hmem : cornerOffset c s a 0 ∈ solid c s a b := ⟨a, 0, (abs_of_nonneg ha).le, by simpa, rfl⟩
    rw [← h] at hmem
    obtain ⟨x, y, hx, -, heq⟩ := hmem
    obtain ⟨rfl, -⟩ := cornerOffset_inj hcs heq
    exact (le_abs_self x).trans hx
  constructor
  · intro h
    exact le_antisymm (hle ha hb h) (hle hb ha h.symm)
  · rintro rfl
    rfl

/-- Four points on both sides of a centre lie in an interval when the farthest ones do. -/
theorem four_mem_interval_iff {lo hi ctr p q : K} :
    ((lo ≤ ctr + (p - q) ∧ ctr + (p - q) ≤ hi) ∧ (lo ≤ ctr + (p + q) ∧ ctr + (p + q) ≤ hi) ∧
      (lo ≤ ctr + -(p - q) ∧ ctr + -(p - q) ≤ hi) ∧ lo ≤ ctr + -(p + q) ∧ ctr + -(p + q) ≤ hi) ↔
      lo ≤ ctr - (|p| + |q|) ∧ ctr + (|p| + |q|) ≤ hi := by
  constructor
  · rintro ⟨⟨h1, h2⟩, ⟨h3, h4⟩, ⟨h5, h6⟩, h7, h8⟩
    -- The farthest points are two opposite ones.
    rcases abs_cases p with ⟨hp, -⟩ | ⟨hp, -⟩ <;> rcases abs_cases q with ⟨hq, -⟩ | ⟨hq, -⟩ <;>
      constructor <;> linarith
  · rintro ⟨hlo, hhi⟩
    have hp := le_abs_self p
    have hp' := neg_abs_le p
    have hq := le_abs_self q
    have hq' := neg_abs_le q
    refine ⟨⟨?_, ?_⟩, ⟨?_, ?_⟩, ⟨?_, ?_⟩, ?_, ?_⟩ <;> linarith

/-- The corners of a rectangle around `ctr` lie in a box when its bounding box does. -/
theorem cornerOffsets_inside_iff (ctr lo hi : K × K) :
    (∀ p ∈ cornerOffsets c s a b, (lo.1 ≤ ctr.1 + p.1 ∧ ctr.1 + p.1 ≤ hi.1) ∧
      lo.2 ≤ ctr.2 + p.2 ∧ ctr.2 + p.2 ≤ hi.2) ↔
      (lo.1 ≤ ctr.1 - (|a * c| + |b * s|) ∧ ctr.1 + (|a * c| + |b * s|) ≤ hi.1) ∧
        lo.2 ≤ ctr.2 - (|a * s| + |b * c|) ∧ ctr.2 + (|a * s| + |b * c|) ≤ hi.2 := by
  rw [← four_mem_interval_iff, ← four_mem_interval_iff]
  simp only [cornerOffsets, cornerOffset, Set.mem_insert_iff, Set.mem_singleton_iff,
    forall_eq_or_imp, forall_eq, Prod.fst_neg, Prod.snd_neg, neg_mul, sub_neg_eq_add,
    ← sub_eq_add_neg]
  tauto

/-- The squared distance of a point from the origin, and of a corner. -/
def normSq (p : K × K) : K := p.1 ^ 2 + p.2 ^ 2

theorem mem_cornerOffsets_normSq {p : K × K} (hcs : c ^ 2 + s ^ 2 = 1) (h : p ∈ cornerOffsets c s a b) :
    normSq p = a ^ 2 + b ^ 2 := by
  have hoff : ∀ b : K, normSq (cornerOffset c s a b) = a ^ 2 + b ^ 2 := by
    intro b
    simp only [normSq, cornerOffset]
    linear_combination (a ^ 2 + b ^ 2) * hcs
  have hnegsq : ∀ p : K × K, normSq (-p) = normSq p := by
    intro p
    simp only [normSq, Prod.fst_neg, Prod.snd_neg, neg_sq]
  rcases h with rfl | rfl | rfl | rfl
  · exact hoff b
  · rw [hoff, neg_sq]
  · rw [hnegsq, hoff]
  · rw [hnegsq, hoff, neg_sq]

/-- Different stretches have different squares. -/
theorem sq_sub_sq_ne_zero (hu : 0 < u) (hv : 0 < v) (h : u ≠ v) : u ^ 2 - v ^ 2 ≠ 0 := by
  intro hzero
  have hmul : (u - v) * (u + v) = 0 := by linear_combination hzero
  rcases mul_eq_zero.mp hmul with hsub | hadd
  · exact h (sub_eq_zero.mp hsub)
  · exact absurd hadd (add_pos hu hv).ne'

/-- The corners of the stretched plane are those of a rectangle with the
stretched half extents only if the stretches are equal, the rectangle is not
turned, or it is a point. -/
theorem of_cornerOffsets_stretch (hu : 0 < u) (hv : 0 < v) (hcs : c ^ 2 + s ^ 2 = 1)
    (h : cornerOffsets c s (u * a) (v * b) = stretchedOffsets u v c s a b) :
    u = v ∨ s = 0 ∨ (a = 0 ∧ b = 0) := by
  by_contra hno
  rw [not_or, not_or] at hno
  obtain ⟨huv, hs, hpoint⟩ := hno
  have hsq := sq_sub_sq_ne_zero hu hv huv
  have hmem : ∀ p ∈ cornerOffsets c s a b, stretch u v p ∈ cornerOffsets c s (u * a) (v * b) := by
    intro p hp
    rw [h]
    exact ⟨p, hp, rfl⟩
  -- The corners of a rectangle are at one distance from its centre.
  have h1 := mem_cornerOffsets_normSq hcs (hmem (cornerOffset c s a b) (Or.inl rfl))
  have h2 := mem_cornerOffsets_normSq hcs (hmem (cornerOffset c s a (-b)) (Or.inr (Or.inl rfl)))
  simp only [normSq, stretch, cornerOffset] at h1 h2
  have hsum : s ^ 2 * (u ^ 2 - v ^ 2) * (a ^ 2 - b ^ 2) = 0 := by
    linear_combination -(1 / 2) * h1 - (1 / 2) * h2 + (u ^ 2 * a ^ 2 + v ^ 2 * b ^ 2) * hcs
  have hdiff : (u ^ 2 - v ^ 2) * s * (a * b * c) = 0 := by
    linear_combination (1 / 4) * h2 - (1 / 4) * h1
  have hab : a ^ 2 = b ^ 2 :=
    sub_eq_zero.mp ((mul_eq_zero.mp hsum).resolve_left
      (mul_ne_zero (pow_ne_zero 2 hs) hsq))
  have habc : a * b * c = 0 := (mul_eq_zero.mp hdiff).resolve_left (mul_ne_zero hsq hs)
  have hzero : a = 0 → b = 0 := fun ha => by rw [ha] at hab; simpa using hab.symm
  have hzero' : b = 0 → a = 0 := fun hb => by rw [hb] at hab; simpa using hab
  rcases mul_eq_zero.mp habc with hprod | hc
  · rcases mul_eq_zero.mp hprod with ha | hb
    · exact hpoint ⟨ha, hzero ha⟩
    · exact hpoint ⟨hzero' hb, hb⟩
  · -- A quarter turn of a square: the first coordinates do not fit.
    have hfirst : ∀ p ∈ cornerOffsets c s (u * a) (v * b), p.1 ^ 2 = (v * b * s) ^ 2 := by
      intro p hp
      rw [hc] at hp
      rcases hp with rfl | rfl | rfl | rfl <;> simp only [cornerOffset, Prod.fst_neg] <;> ring
    have hx := hfirst _ (hmem (cornerOffset c s a b) (Or.inl rfl))
    simp only [stretch, cornerOffset, hc] at hx
    have hb : (u ^ 2 - v ^ 2) * (b ^ 2 * s ^ 2) = 0 := by linear_combination hx
    have hb' := (mul_eq_zero.mp hb).resolve_left hsq
    rcases mul_eq_zero.mp hb' with hb0 | hs0
    · have hb0' : b = 0 := by simpa using hb0
      exact hpoint ⟨hzero' hb0', hb0'⟩
    · exact hs (by simpa using hs0)

omit [LinearOrder K] [IsStrictOrderedRing K] in
theorem cornerOffsets_stretch (h : u = v ∨ s = 0 ∨ (a = 0 ∧ b = 0)) :
    cornerOffsets c s (u * a) (v * b) = stretchedOffsets u v c s a b := by
  have hoff : ∀ b' : K, (b' = b ∨ b' = -b) →
      cornerOffset c s (u * a) (v * b') = stretch u v (cornerOffset c s a b') := by
    intro b' hb'
    simp only [cornerOffset, stretch, Prod.mk.injEq]
    rcases h with rfl | rfl | ⟨rfl, rfl⟩
    · constructor <;> ring
    · constructor <;> ring
    · rcases hb' with rfl | rfl <;> simp
  have hneg : ∀ p : K × K, stretch u v (-p) = -stretch u v p := by
    intro p
    simp only [stretch, Prod.fst_neg, Prod.snd_neg, mul_neg, Prod.neg_mk]
  rw [stretchedOffsets, cornerOffsets, cornerOffsets, Set.image_insert_eq, Set.image_insert_eq,
    Set.image_insert_eq, Set.image_singleton, hneg, hneg, ← hoff b (Or.inl rfl),
    ← hoff (-b) (Or.inr rfl), mul_neg]

theorem cornerOffsets_stretch_iff (hu : 0 < u) (hv : 0 < v) (hcs : c ^ 2 + s ^ 2 = 1) :
    cornerOffsets c s (u * a) (v * b) = stretchedOffsets u v c s a b ↔
      u = v ∨ s = 0 ∨ (a = 0 ∧ b = 0) :=
  ⟨of_cornerOffsets_stretch hu hv hcs, cornerOffsets_stretch⟩

end W2Net
