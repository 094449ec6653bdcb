import W2Net.Lib.Crossing
import W2Net.Proofs.Utils.ScaledLabels
import W2Net.Utils.OverlapsCuda

/-!
# `W2Net.Proofs.Utils.OverlapsCuda`: the points of an intersection and their buffer

`inter_pts` stores the corners of each rectangle that `inrect` accepts for the other one,
and the crossings of the edges. Every crossing is the place where one edge comes in, and
an edge comes in once at most, so each of the eight edges stands for two points at most:
its first corner, and the place where it comes in (`interPts_num`).

For an exact `inrect` no edge stands for both, and eight points are enough
(`interPts_fits_of_exact`). The tolerance of `inrect` also accepts corners outside the
other rectangle; `interPts_fits_iff` is the exact condition.
-/

set_option autoImplicit false

namespace W2Net.Proofs.OverlapsCuda

open Finset
open W2Net.OverlapsCuda
open W2Net.Proofs.ScaledLabels (realMath realMath_circle)

/-! ### The buffer -/

section
variable {K : Type}

/-- The indices that were written are those of the points so far, in order. -/
def Filled (s : IntPts K) : Prop := s.written = List.range (2 * s.num)

theorem filled_push {s : IntPts K} (h : Filled s) (p : K × K) : Filled (s.push p) := by
  show s.written ++ [s.num * 2, s.num * 2 + 1] = List.range (2 * s.num + 1 + 1)
  rw [h, List.range_succ, List.range_succ, List.append_assoc, mul_comm]
  rfl

/-- A part of the loops adds `n` points. -/
def Adds (step : IntPts K → IntPts K) (n : ℕ) : Prop :=
  ∀ s, Filled s → Filled (step s) ∧ (step s).num = s.num + n

theorem adds_push_if (c : Prop) [Decidable c] (p : K × K) :
    Adds (fun s => if c then s.push p else s) (if c then 1 else 0) := by
  intro s hs
  by_cases hc : c
  · simp only [if_pos hc]
    exact ⟨filled_push hs p, rfl⟩
  · simp only [if_neg hc]
    exact ⟨hs, rfl⟩

theorem Adds.comp {f g : IntPts K → IntPts K} {n k : ℕ} (hf : Adds f n) (hg : Adds g k) :
    Adds (fun s => g (f s)) (n + k) := by
  intro s hs
  obtain ⟨hfs, hn⟩ := hf s hs
  obtain ⟨hgs, hk⟩ := hg (f s) hfs
  exact ⟨hgs, by rw [hk, hn, add_assoc]⟩

/-- A loop adds what its steps add. -/
theorem adds_foldl {n : ℕ} {step : IntPts K → Fin n → IntPts K} {k : Fin n → ℕ}
    (h : ∀ i, Adds (step · i) (k i)) :
    Adds (fun s => (List.finRange n).foldl step s) (∑ i, k i) := by
  have hlist : ∀ l : List (Fin n), Adds (fun s => l.foldl step s) (l.map k).sum := by
    intro l
    induction l with
    | nil => exact fun s hs => ⟨hs, rfl⟩
    | cons i l ih => exact (h i).comp ih
  rw [Fin.sum_univ_def]
  exact hlist _

end

/-! ### The points -/

section
variable {K : Type} [Field K] [LinearOrder K]

/-- The slack of `inter2line`. -/
abbrev slack : K := 1 / 100000

theorem adds_cornerStep (pts1 pts2 : QuadRow K) (i : Fin 4) :
    Adds (cornerStep pts1 pts2 · i)
      ((if inrect (corner pts1 i) pts2 then 1 else 0)
        + if inrect (corner pts2 i) pts1 then 1 else 0) :=
  (adds_push_if _ _).comp (adds_push_if _ _)

theorem inter2line_isSome_iff (pts1 pts2 : QuadRow K) (i j : Fin 4) :
    (inter2line pts1 pts2 i j).isSome ↔ Crosses slack (corner pts1) (corner pts2) i j := by
  have hfourth := signedArea_exchange (corner pts1 i) (corner pts1 (i + 1)) (corner pts2 j)
    (corner pts2 (j + 1))
  rw [Crosses, hfourth, inter2line]
  show _ ↔ trangleArea (corner pts1 i) (corner pts1 (i + 1)) (corner pts2 j)
      * trangleArea (corner pts1 i) (corner pts1 (i + 1)) (corner pts2 (j + 1)) < -(1 / 100000) ∧
    trangleArea (corner pts2 j) (corner pts2 (j + 1)) (corner pts1 i)
      * (trangleArea (corner pts2 j) (corner pts2 (j + 1)) (corner pts1 i)
        + trangleArea (corner pts1 i) (corner pts1 (i + 1)) (corner pts2 j)
        - trangleArea (corner pts1 i) (corner pts1 (i + 1)) (corner pts2 (j + 1)))
      < -(1 / 100000)
  dsimp only
  split
  · -- `c` and `d` are not on different sides of the line through `a` and `b`.
    rename_i hle
    exact iff_of_false Bool.false_ne_true fun h => absurd h.1 (not_lt.mpr hle)
  · rename_i hab
    split
    · -- `a` and `b` are not on different sides of the line through `c` and `d`.
      rename_i hle
      exact iff_of_false Bool.false_ne_true fun h => absurd h.2 (not_lt.mpr hle)
    · rename_i hcd
      exact iff_of_true rfl ⟨not_le.mp hab, not_le.mp hcd⟩

theorem adds_crossingStep (pts1 pts2 : QuadRow K) (i j : Fin 4) :
    Adds (crossingStep pts1 pts2 i · j)
      (if Crosses slack (corner pts1) (corner pts2) i j then 1 else 0) := by
  intro s hs
  simp only [← inter2line_isSome_iff]
  cases h : inter2line pts1 pts2 i j with
  | none =>
      have hstep : crossingStep pts1 pts2 i s j = s := by rw [crossingStep, h]
      rw [hstep]
      exact ⟨hs, rfl⟩
  | some p =>
      have hstep : crossingStep pts1 pts2 i s j = s.push p := by rw [crossingStep, h]
      rw [hstep]
      exact ⟨filled_push hs p, rfl⟩

/-- An edge of the first or of the second rectangle. -/
abbrev Edge : Type := Fin 4 ⊕ Fin 4

/-- The edge starts at a corner that `inrect` accepts for the other rectangle. -/
def StartsAccepted (pts1 pts2 : QuadRow K) : Edge → Prop
  | .inl i => inrect (corner pts1 i) pts2
  | .inr i => inrect (corner pts2 i) pts1

/-- The edge crosses an edge of the other rectangle from its outer side. -/
def ComesIn (pts1 pts2 : QuadRow K) : Edge → Prop
  | .inl i => ∃ j, Enters slack (corner pts1) (corner pts2) i j
  | .inr i => ∃ j, Enters slack (corner pts2) (corner pts1) i j

instance (pts1 pts2 : QuadRow K) : DecidablePred (StartsAccepted pts1 pts2)
  | .inl i => inferInstanceAs (Decidable (inrect (corner pts1 i) pts2))
  | .inr i => inferInstanceAs (Decidable (inrect (corner pts2 i) pts1))

instance (pts1 pts2 : QuadRow K) : DecidablePred (ComesIn pts1 pts2)
  | .inl i => inferInstanceAs (Decidable (∃ j, Enters slack (corner pts1) (corner pts2) i j))
  | .inr i => inferInstanceAs (Decidable (∃ j, Enters slack (corner pts2) (corner pts1) i j))

theorem card_edges (p : Edge → Prop) [DecidablePred p] :
    #{e | p e} = #{i | p (.inl i)} + #{i | p (.inr i)} := by
  simp only [card_filter, Fintype.sum_sum_type]

variable [IsStrictOrderedRing K]

theorem slack_nonneg : (0 : K) ≤ slack := by norm_num [slack]

omit [IsStrictOrderedRing K] in
/-- The loops fill the buffer from its first cell on. -/
theorem filled_interPts (pts1 pts2 : QuadRow K) (intPts : ℕ → K) :
    Filled (interPts pts1 pts2 intPts) := by
  have hloops := (adds_foldl (adds_cornerStep pts1 pts2)).comp
    (adds_foldl fun i => adds_foldl (adds_crossingStep pts1 pts2 i))
  exact (hloops ⟨intPts, [], 0⟩ rfl).1

/-- Each edge stands for its first corner, and for the place where it comes in. -/
theorem interPts_num {pts1 pts2 : QuadRow K} (h1 : Clockwise (corner pts1))
    (h2 : Clockwise (corner pts2)) (intPts : ℕ → K) :
    (interPts pts1 pts2 intPts).num
      = #{e | StartsAccepted pts1 pts2 e} + #{e | ComesIn pts1 pts2 e} := by
  have hloops := (adds_foldl (adds_cornerStep pts1 pts2)).comp
    (adds_foldl fun i => adds_foldl (adds_crossingStep pts1 pts2 i))
  refine (hloops ⟨intPts, [], 0⟩ rfl).2.trans ?_
  -- The first loop visits both rectangles at once; the count takes them one by one.
  have hcorners : #{e | StartsAccepted pts1 pts2 e}
      = ∑ i, ((if inrect (corner pts1 i) pts2 then 1 else 0)
        + if inrect (corner pts2 i) pts1 then 1 else 0) := by
    rw [card_edges, card_filter, card_filter, ← sum_add_distrib]
    rfl
  have hcrossings : #{e | ComesIn pts1 pts2 e}
      = ∑ i, ∑ j, if Crosses slack (corner pts1) (corner pts2) i j then 1 else 0 := by
    rw [card_edges, ← Fintype.sum_prod_type', ← card_filter]
    exact (card_crosses slack_nonneg h1 h2).symm
  rw [hcorners, hcrossings]
  exact Nat.zero_add _

/-! ### The capacity -/

/-- Eight points at most, and no index beyond the capacity. -/
def Fits (s : IntPts K) : Prop := s.num ≤ 8 ∧ ∀ n ∈ s.written, n < capacity

omit [Field K] [LinearOrder K] [IsStrictOrderedRing K] in
theorem fits_iff_num {s : IntPts K} (h : Filled s) : Fits s ↔ s.num ≤ 8 := by
  constructor
  · intro hfits
    exact hfits.1
  · intro hnum
    refine ⟨hnum, ?_⟩
    intro n hn
    rw [h, List.mem_range] at hn
    show n < 16
    omega

/-- The points fit when the edges that stand for two are no more than those that stand for
none. -/
theorem fits_iff_edges {pts1 pts2 : QuadRow K} (h1 : Clockwise (corner pts1))
    (h2 : Clockwise (corner pts2)) (intPts : ℕ → K) :
    Fits (interPts pts1 pts2 intPts) ↔
      #{e | StartsAccepted pts1 pts2 e ∧ ComesIn pts1 pts2 e}
        ≤ #{e | ¬StartsAccepted pts1 pts2 e ∧ ¬ComesIn pts1 pts2 e} := by
  rw [fits_iff_num (filled_interPts pts1 pts2 intPts), interPts_num h1 h2, ← card_add_card_le_iff]
  rfl

/-- A corner on the outer side of an edge. -/
def Outside (q : Fin 4 → K × K) (x : K × K) : Prop := ∃ j, 0 < signedArea (q j) (q (j + 1)) x

/-- Eight points are enough when `inrect` accepts no corner outside the other rectangle. -/
theorem interPts_fits_of_exact {pts1 pts2 : QuadRow K} (h1 : Clockwise (corner pts1))
    (h2 : Clockwise (corner pts2))
    (hin1 : ∀ i, inrect (corner pts1 i) pts2 → ¬Outside (corner pts2) (corner pts1 i))
    (hin2 : ∀ i, inrect (corner pts2 i) pts1 → ¬Outside (corner pts1) (corner pts2 i))
    (intPts : ℕ → K) : Fits (interPts pts1 pts2 intPts) := by
  -- An edge that comes in starts outside, and its start is not accepted.
  have hnone : ({e | StartsAccepted pts1 pts2 e ∧ ComesIn pts1 pts2 e} : Finset Edge) = ∅ := by
    rw [filter_eq_empty_iff]
    intro e _ he
    obtain ⟨hstart, hcomes⟩ := he
    cases e with
    | inl i =>
        obtain ⟨j, hj⟩ := hcomes
        exact hin1 i hstart ⟨j, hj.2⟩
    | inr i =>
        obtain ⟨j, hj⟩ := hcomes
        exact hin2 i hstart ⟨j, hj.2⟩
  rw [fits_iff_edges h1 h2, hnone, card_empty]
  exact Nat.zero_le _

/-- The four points of a region with positive sides. -/
theorem clockwise_convertRegion {m : PyMath K} (hm : m.Circle) {region : RowXywha K}
    (hw : 0 < region.w) (hh : 0 < region.h) : Clockwise (corner (convertRegion m region)) where
  opposite := by
    apply Prod.ext <;> simp [corner, convertRegion] <;> ring
  area := by
    have harea : signedArea (corner (convertRegion m region) 0) (corner (convertRegion m region) 1)
        (corner (convertRegion m region) 2)
          = -(region.w * region.h) / 2
            * (m.cos (region.a / 180 * (31415926535 / 10000000000)) ^ 2
              + m.sin (region.a / 180 * (31415926535 / 10000000000)) ^ 2) := by
      simp [signedArea, corner, convertRegion]
      ring
    rw [harea, hm]
    have hpos := mul_pos hw hh
    linarith

end

/-! ### Two unit squares -/

/-- A region that is not turned. -/
theorem corner_upright (cx cy w h : ℝ) :
    corner (convertRegion realMath ⟨cx, cy, w, h, 0⟩)
      = ![(cx - w / 2, cy + h / 2), (cx + w / 2, cy + h / 2), (cx + w / 2, cy - h / 2),
          (cx - w / 2, cy - h / 2)] := by
  funext i
  fin_cases i <;> apply Prod.ext <;> simp [corner, convertRegion, realMath] <;> ring

/-- Unit squares with their centres half a unit apart in each direction. -/
noncomputable def square1 : RowXywha ℝ := ⟨0, 0, 1, 1, 0⟩

noncomputable def square2 : RowXywha ℝ := ⟨1 / 2, 1 / 2, 1, 1, 0⟩

theorem squares_accepted (e : Edge) :
    StartsAccepted (convertRegion realMath square1) (convertRegion realMath square2) e := by
  cases e with
  | inl i =>
      show inrect _ _
      simp only [inrect, square1, square2, corner_upright, Matrix.cons_val]
      fin_cases i <;> norm_num
  | inr i =>
      show inrect _ _
      simp only [inrect, square1, square2, corner_upright, Matrix.cons_val]
      fin_cases i <;> norm_num

/-- The upper edge of the first square comes in through the left edge of the second one. -/
theorem squares_comesIn :
    ComesIn (convertRegion realMath square1) (convertRegion realMath square2) (.inl 0) := by
  refine ⟨3, ?_⟩
  simp only [Enters, Crosses, square1, square2, corner_upright, Fin.reduceAdd, Matrix.cons_val]
  norm_num [signedArea, slack]

end W2Net.Proofs.OverlapsCuda
