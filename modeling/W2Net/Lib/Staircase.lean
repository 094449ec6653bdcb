import Mathlib.Algebra.BigOperators.Group.Finset.Basic
import Mathlib.Algebra.Order.Field.Basic
import Mathlib.Data.Finset.Max
import Mathlib.Data.List.Lattice
import Mathlib.Order.Bounds.Basic
import Mathlib.Tactic.Linarith
import Mathlib.Tactic.Ring
import W2Net.Lib.Numerals

/-!
# `W2Net.Lib.Staircase`: the area under a descending staircase

Points `(x, y)` are given by increasing `x`. Over each interval between two neighbours the
staircase has the height `top`, the largest `y` from the right end of the interval on. `area` sums
the intervals one point after the other, from a left end `base`.

`area_eq_sum` is the same area summed over the distinct values of `x` above `base`
(`levels`): a repeated value has an interval of length 0. `area_concat_le` and
`area_concat_eq` say what one more point at the right end does to the area.
-/

set_option autoImplicit false

namespace W2Net.Staircase

variable {K : Type} [Field K] [LinearOrder K]

/-- The largest `y`, from 0 on. -/
def top (pts : List (K × K)) : K := pts.foldr (fun p height => max p.2 height) 0

/-- The area of the staircase from `base` on. -/
def area (base : K) : List (K × K) → K
  | [] => 0
  | p :: pts => (p.1 - base) * top (p :: pts) + area p.1 pts

/-- The `x` of the last point. -/
def last (base : K) : List (K × K) → K
  | [] => base
  | p :: pts => last p.1 pts

/-- The points stand by increasing `x`, from `base` on. -/
def Ascending (base : K) (pts : List (K × K)) : Prop :=
  (∀ p ∈ pts, base ≤ p.1) ∧ pts.Pairwise fun p q => p.1 ≤ q.1

/-! ### Heights -/

theorem top_cons (p : K × K) (pts : List (K × K)) : top (p :: pts) = max p.2 (top pts) := rfl

theorem top_nonneg (pts : List (K × K)) : 0 ≤ top pts := by
  induction pts with
  | nil => exact le_refl 0
  | cons p pts ih => exact ih.trans (le_max_right _ _)

theorem le_top {pts : List (K × K)} {p : K × K} (hp : p ∈ pts) : p.2 ≤ top pts := by
  induction pts with
  | nil => cases hp
  | cons q pts ih =>
      rcases List.mem_cons.mp hp with rfl | hp
      · exact le_max_left _ _
      · exact (ih hp).trans (le_max_right _ _)

theorem top_le {pts : List (K × K)} {b : K} (hb : 0 ≤ b) (h : ∀ p ∈ pts, p.2 ≤ b) : top pts ≤ b := by
  induction pts with
  | nil => exact hb
  | cons p pts ih =>
      obtain ⟨hp, hpts⟩ := List.forall_mem_cons.mp h
      exact max_le hp (ih hpts)

theorem top_concat (pts : List (K × K)) (q : K × K) : top (pts ++ [q]) = max (top pts) (max q.2 0) := by
  induction pts with
  | nil => exact (max_eq_right (le_max_right q.2 0)).symm
  | cons p pts ih => rw [List.cons_append, top_cons, top_cons, ih, max_assoc]

/-- The height is the largest `y`, where there is one that is not negative. -/
theorem isGreatest_top {pts : List (K × K)} (hne : pts ≠ []) (h : ∀ p ∈ pts, 0 ≤ p.2) :
    IsGreatest {y | ∃ p ∈ pts, p.2 = y} (top pts) := by
  constructor
  · induction pts with
    | nil => exact absurd rfl hne
    | cons p pts ih =>
        obtain ⟨hp, hpts⟩ := List.forall_mem_cons.mp h
        rcases max_choice p.2 (top pts) with hmax | hmax
        · exact ⟨p, List.mem_cons_self, hmax.symm⟩
        · rcases eq_or_ne pts [] with rfl | hne'
          · -- Only one point: its `y` is at least 0.
            exact ⟨p, List.mem_cons_self, (max_eq_left hp).symm⟩
          · obtain ⟨q, hq, hy⟩ := ih hne' hpts
            refine ⟨q, List.mem_cons_of_mem p hq, ?_⟩
            rw [hy, top_cons, hmax]
  · rintro y ⟨p, hp, rfl⟩
    exact le_top hp

/-! ### The distinct levels -/

/-- The distinct `x` above `base`. -/
def levels (base : K) (pts : List (K × K)) : Finset K :=
  (pts.map Prod.fst).toFinset.filter (base < ·)

/-- The level before `x`, or `base`. -/
def previous (base : K) (pts : List (K × K)) (x : K) : K :=
  (insert base ((levels base pts).filter (· < x))).max' (Finset.insert_nonempty _ _)

/-- The largest `y` of the points from `x` on. -/
def topFrom (pts : List (K × K)) (x : K) : K := top (pts.filter (x ≤ ·.1))

omit [Field K] in
theorem mem_levels {base x : K} {pts : List (K × K)} :
    x ∈ levels base pts ↔ (∃ p ∈ pts, p.1 = x) ∧ base < x := by
  rw [levels, Finset.mem_filter, List.mem_toFinset, List.mem_map]

omit [Field K] in
theorem isGreatest_previous (base : K) (pts : List (K × K)) (x : K) :
    IsGreatest (insert base {l | l ∈ levels base pts ∧ l < x}) (previous base pts x) := by
  have h := Finset.isGreatest_max' (insert base ((levels base pts).filter (· < x)))
    (Finset.insert_nonempty _ _)
  rwa [Finset.coe_insert, Finset.coe_filter] at h

/-- At a level there is a point, so the height from it on is attained. -/
theorem isGreatest_topFrom {base x : K} {pts : List (K × K)} (hx : x ∈ levels base pts)
    (h : ∀ p ∈ pts, 0 ≤ p.2) :
    IsGreatest {y | ∃ p ∈ pts, x ≤ p.1 ∧ p.2 = y} (topFrom pts x) := by
  obtain ⟨⟨p, hp, rfl⟩, -⟩ := mem_levels.mp hx
  have hmem : p ∈ pts.filter (p.1 ≤ ·.1) := List.mem_filter.mpr ⟨hp, decide_eq_true (le_refl _)⟩
  have htop := isGreatest_top (List.ne_nil_of_mem hmem) fun q hq => h q (List.mem_filter.mp hq).1
  have hset : {y | ∃ q ∈ pts.filter (p.1 ≤ ·.1), q.2 = y} = {y | ∃ q ∈ pts, p.1 ≤ q.1 ∧ q.2 = y} := by
    ext y
    simp only [Set.mem_ofPred_eq, List.mem_filter, decide_eq_true_eq, and_assoc]
  rwa [hset] at htop

omit [Field K] in
theorem Ascending.tail {base : K} {p : K × K} {pts : List (K × K)} (h : Ascending base (p :: pts)) :
    base ≤ p.1 ∧ Ascending p.1 pts := by
  obtain ⟨hhead, htail⟩ := List.pairwise_cons.mp h.2
  exact ⟨h.1 p List.mem_cons_self, hhead, htail⟩

omit [Field K] in
/-- A first point above `base` is the lowest level. -/
theorem levels_cons {base : K} {p : K × K} {pts : List (K × K)} (h : Ascending base (p :: pts))
    (hlt : base < p.1) : levels base (p :: pts) = insert p.1 (levels p.1 pts) := by
  ext x
  simp only [Finset.mem_insert, mem_levels, List.exists_mem_cons_iff]
  constructor
  · rintro ⟨rfl | ⟨q, hq, rfl⟩, hx⟩
    · exact Or.inl rfl
    · exact ((h.tail.2.1 q hq).eq_or_lt).imp Eq.symm fun hlt' => ⟨⟨q, hq, rfl⟩, hlt'⟩
  · rintro (rfl | ⟨hq, hx⟩)
    · exact ⟨Or.inl rfl, hlt⟩
    · exact ⟨Or.inr hq, hlt.trans hx⟩

omit [Field K] in
/-- A first point at `base` is no level. -/
theorem levels_cons_self (p : K × K) (pts : List (K × K)) : levels p.1 (p :: pts) = levels p.1 pts := by
  ext x
  simp only [mem_levels, List.exists_mem_cons_iff]
  constructor
  · rintro ⟨rfl | hq, hx⟩
    · exact absurd hx (lt_irrefl _)
    · exact ⟨hq, hx⟩
  · exact fun ⟨hq, hx⟩ => ⟨Or.inr hq, hx⟩

omit [Field K] in
theorem previous_cons_self (p : K × K) (pts : List (K × K)) (x : K) :
    previous p.1 (p :: pts) x = previous p.1 pts x := by
  simp only [previous, levels_cons_self]

/-- A point in front of the level `x` does not count for its height. -/
theorem topFrom_cons {p : K × K} {x : K} (pts : List (K × K)) (h : p.1 < x) :
    topFrom (p :: pts) x = topFrom pts x := by
  rw [topFrom, List.filter_cons_of_neg (by simpa using h)]
  rfl

/-- From the first level on, all points count. -/
theorem topFrom_head {base : K} {p : K × K} {pts : List (K × K)} (h : Ascending base (p :: pts)) :
    topFrom (p :: pts) p.1 = top (p :: pts) := by
  have hall : (p :: pts).filter (p.1 ≤ ·.1) = p :: pts := by
    rw [List.filter_eq_self, List.forall_mem_cons]
    exact ⟨decide_eq_true (le_refl _), fun q hq => decide_eq_true (h.tail.2.1 q hq)⟩
  rw [topFrom, hall]

omit [Field K] in
/-- The first level follows on `base`. -/
theorem previous_head {base : K} {p : K × K} {pts : List (K × K)} (h : Ascending base (p :: pts)) :
    previous base (p :: pts) p.1 = base := by
  refine (isGreatest_previous base (p :: pts) p.1).unique ⟨Or.inl rfl, ?_⟩
  rintro l (rfl | ⟨hl, hlt⟩)
  · exact le_refl _
  · -- No level lies below the first point.
    obtain ⟨⟨q, hq, rfl⟩, -⟩ := mem_levels.mp hl
    rcases List.mem_cons.mp hq with rfl | hq
    · exact absurd hlt (lt_irrefl _)
    · exact absurd hlt (h.tail.2.1 q hq).not_gt

omit [Field K] in
/-- A later level follows on the first one, if on no other. -/
theorem previous_cons {base x : K} {p : K × K} {pts : List (K × K)} (h : Ascending base (p :: pts))
    (hlt : base < p.1) (hx : p.1 < x) : previous base (p :: pts) x = previous p.1 pts x := by
  obtain ⟨hmem, hle⟩ := isGreatest_previous p.1 pts x
  refine (isGreatest_previous base (p :: pts) x).unique ⟨?_, ?_⟩
  · refine Or.inr ?_
    simp only [Set.mem_ofPred_eq, levels_cons h hlt, Finset.mem_insert]
    rcases hmem with hp | ⟨hl, hlx⟩
    · rw [hp]
      exact ⟨Or.inl rfl, hx⟩
    · exact ⟨Or.inr hl, hlx⟩
  · have hp := hle (Set.mem_insert _ _)
    rintro l (rfl | ⟨hl, hlx⟩)
    · exact hlt.le.trans hp
    · rw [levels_cons h hlt, Finset.mem_insert] at hl
      rcases hl with rfl | hl
      · exact hp
      · exact hle (Or.inr ⟨hl, hlx⟩)

/-- The area, level by level. -/
theorem area_eq_sum {base : K} {pts : List (K × K)} (h : Ascending base pts) :
    area base pts = ∑ x ∈ levels base pts, (x - previous base pts x) * topFrom pts x := by
  induction pts generalizing base with
  | nil => rfl
  | cons p pts ih =>
      obtain ⟨hle, htail⟩ := h.tail
      rw [area, ih htail]
      rcases hle.eq_or_lt with rfl | hlt
      · -- An interval of length 0: the levels are those of the other points.
        rw [levels_cons_self, sub_self, zero_mul, zero_add]
        refine Finset.sum_congr rfl fun x hx => ?_
        have hlt := (mem_levels.mp hx).2
        rw [topFrom_cons pts hlt, previous_cons_self]
      · rw [levels_cons h hlt, Finset.sum_insert fun hmem => lt_irrefl _ (mem_levels.mp hmem).2,
          previous_head h, topFrom_head h]
        congr 1
        refine Finset.sum_congr rfl fun x hx => ?_
        have hx' := (mem_levels.mp hx).2
        rw [topFrom_cons pts hx', previous_cons h hlt hx']

/-! ### Bounds -/

variable [IsStrictOrderedRing K]

theorem area_nonneg {base : K} {pts : List (K × K)} (h : Ascending base pts) : 0 ≤ area base pts := by
  induction pts generalizing base with
  | nil => exact le_refl 0
  | cons p pts ih =>
      obtain ⟨hle, htail⟩ := h.tail
      exact add_nonneg (mul_nonneg (sub_nonneg.mpr hle) (top_nonneg _)) (ih htail)

/-- With heights up to 1, the area is at most the length. -/
theorem area_le {base : K} {pts : List (K × K)} (h : Ascending base pts) (hone : ∀ p ∈ pts, p.2 ≤ 1) :
    area base pts ≤ last base pts - base := by
  induction pts generalizing base with
  | nil => exact (sub_self base).ge
  | cons p pts ih =>
      obtain ⟨hle, htail⟩ := h.tail
      have hrest := ih htail (List.forall_mem_cons.mp hone).2
      have htop : (p.1 - base) * top (p :: pts) ≤ p.1 - base :=
        mul_le_of_le_one_right (sub_nonneg.mpr hle) (top_le zero_le_one hone)
      calc area base (p :: pts) ≤ (p.1 - base) + (last p.1 pts - p.1) := add_le_add htop hrest
        _ = last base (p :: pts) - base := by rw [last]; ring

/-! ### One more point -/

omit [Field K] [LinearOrder K] [IsStrictOrderedRing K] in
theorem last_concat (base : K) (pts : List (K × K)) (q : K × K) : last base (pts ++ [q]) = q.1 := by
  induction pts generalizing base with
  | nil => rfl
  | cons p pts ih => exact ih p.1

/-- One more point at the right end does not make the area smaller. -/
theorem area_concat_le {base : K} {pts : List (K × K)} {q : K × K}
    (h : Ascending base (pts ++ [q])) : area base pts ≤ area base (pts ++ [q]) := by
  induction pts generalizing base with
  | nil => exact area_nonneg h
  | cons p pts ih =>
      obtain ⟨hle, htail⟩ := h.tail
      have htop : top (p :: pts) ≤ top (p :: pts ++ [q]) := by
        rw [top_concat]
        exact le_max_left _ _
      exact add_le_add (mul_le_mul_of_nonneg_left htop (sub_nonneg.mpr hle)) (ih htail)

omit [IsStrictOrderedRing K] in
/-- It leaves the area as it is when it stands above the last point and is not higher. -/
theorem area_concat_eq {base : K} {pts : List (K × K)} {q : K × K} (hx : q.1 = last base pts)
    (hy : ∀ p, pts.getLast? = some p → q.2 ≤ p.2) : area base (pts ++ [q]) = area base pts := by
  induction pts generalizing base with
  | nil =>
      show (q.1 - base) * top [q] + 0 = 0
      rw [hx, last, sub_self, zero_mul, add_zero]
  | cons p pts ih =>
      have hrest : area p.1 (pts ++ [q]) = area p.1 pts := by
        refine ih hx fun p' hp' => hy p' ?_
        rw [List.getLast?_cons, hp', Option.getD_some]
      -- The height over each interval counts the last point already.
      have htop : top (p :: pts ++ [q]) = top (p :: pts) := by
        have hmem : (p :: pts).getLast (List.cons_ne_nil p pts) ∈ p :: pts := List.getLast_mem _
        have hle := (hy _ (List.getLast?_eq_some_getLast (List.cons_ne_nil p pts))).trans (le_top hmem)
        rw [top_concat, max_eq_left (max_le hle (top_nonneg _))]
      show (p.1 - base) * top (p :: pts ++ [q]) + area p.1 (pts ++ [q]) = _
      rw [htop, hrest]
      rfl

end W2Net.Staircase
