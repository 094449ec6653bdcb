import Mathlib.Algebra.BigOperators.Group.List.Basic
import W2Net.Lib.OrderStats
import W2Net.Proofs.Utils.Lbr.Listing
import W2Net.Proofs.Utils.Lbr.Reversal
import W2Net.Proofs.Utils.Lbr.Scan

/-!
# `W2Net.Proofs.Utils.Lbr.Midline`: the wave gaps and the listing of the corners

A listing of the corners of a rectangle decides from which end the midline is
walked, and nothing else (`IsRectangle.midlineEnds_listing`). From the other end the samples are
the reversed ones when the line meets no half pixel. Then the stripes are the
mirrored ones (`crestSegments_reverse`), the gaps the reversed ones
(`gapSteps_mirror`), and their mean is the same.

`waveGaps_listing` states this for the eight listings, and that a half pixel on
the line makes two of the listings draw different pixels.
-/

set_option autoImplicit false

namespace W2Net.Proofs.Lbr

open W2Net.Lbr

/-! ### The scan from the other end -/

/-- A segment of a sequence of `n` samples, read from the other end. -/
def mirrorSegment (n : ℕ) (seg : ℕ × ℕ) : ℕ × ℕ := (n - 1 - seg.2, n - 1 - seg.1)

theorem isSet_reverse {vals : List Bool} {i : ℕ} (hi : i < vals.length) :
    IsSet vals.reverse i ↔ IsSet vals (vals.length - 1 - i) := by
  simp [IsSet, List.getD_eq_getElem?_getD, List.getElem?_reverse hi]

/-- The mirrored segments of the reversed samples are segments of the samples. -/
theorem mirror_mem_crestSegments {vals : List Bool} {seg : ℕ × ℕ}
    (h : seg ∈ crestSegments vals fun _ _ => true) :
    mirrorSegment vals.length seg ∈ crestSegments vals.reverse fun _ _ => true := by
  obtain ⟨hrun, -⟩ := (mem_crestSegments vals _ seg.1 seg.2).mp h
  have hmirror := hrun.mirror (q := IsSet vals.reverse) fun i hi => isSet_reverse hi
  have hlen : vals.length = vals.reverse.length := List.length_reverse.symm
  rw [hlen] at hmirror
  refine (mem_crestSegments _ _ _ _).mpr ⟨?_, rfl⟩
  rwa [List.length_reverse] at hmirror ⊢

theorem lt_of_mem_crestSegments {vals : List Bool} {seg : ℕ × ℕ}
    (h : seg ∈ crestSegments vals fun _ _ => true) : seg.1 ≤ seg.2 ∧ seg.2 < vals.length := by
  obtain ⟨hrun, -⟩ := (mem_crestSegments vals _ seg.1 seg.2).mp h
  exact ⟨hrun.le, hrun.lt⟩

theorem mirrorSegment_mirrorSegment {n : ℕ} {seg : ℕ × ℕ} (h : seg.1 ≤ seg.2 ∧ seg.2 < n) :
    mirrorSegment n (mirrorSegment n seg) = seg := by
  obtain ⟨s, e⟩ := seg
  simp only [mirrorSegment, Prod.mk.injEq] at h ⊢
  omega

/-- The segments of the reversed samples are the mirrored ones. -/
theorem mem_crestSegments_reverse (vals : List Bool) (seg : ℕ × ℕ) :
    seg ∈ (crestSegments vals.reverse fun _ _ => true) ↔
      seg ∈ (crestSegments vals fun _ _ => true).map (mirrorSegment vals.length) := by
  rw [List.mem_map]
  constructor
  · intro h
    have hseg := mirror_mem_crestSegments h
    rw [List.reverse_reverse, List.length_reverse] at hseg
    have hlt := lt_of_mem_crestSegments h
    rw [List.length_reverse] at hlt
    exact ⟨_, hseg, mirrorSegment_mirrorSegment hlt⟩
  · rintro ⟨seg', h, rfl⟩
    exact mirror_mem_crestSegments h

/-- Mirrored, the last segment comes first. -/
theorem separated_mirror (vals : List Bool) :
    Separated ((crestSegments vals fun _ _ => true).map (mirrorSegment vals.length)).reverse where
  le seg hseg := by
    rw [List.mem_reverse, ← mem_crestSegments_reverse] at hseg
    exact (lt_of_mem_crestSegments hseg).1
  apart := by
    rw [List.pairwise_reverse, List.pairwise_map]
    refine (crestSegments_pairwise vals _).imp_of_mem fun {a b} ha hb hab => ?_
    have hlt := lt_of_mem_crestSegments ha
    have hlt' := lt_of_mem_crestSegments hb
    simp only [mirrorSegment]
    omega

/-- The segments of the reversed samples, first to last. -/
theorem crestSegments_reverse (vals : List Bool) :
    (crestSegments vals.reverse fun _ _ => true)
      = ((crestSegments vals fun _ _ => true).map (mirrorSegment vals.length)).reverse := by
  apply (separated_crestSegments vals.reverse _).eq_of_mem_iff (separated_mirror vals)
  intro seg
  rw [List.mem_reverse, mem_crestSegments_reverse]

/-- The gap between the last two segments. -/
theorem gapSteps_concat (l : List (ℕ × ℕ)) (a b : ℕ × ℕ) :
    gapSteps (l ++ [a, b]) = gapSteps (l ++ [a]) ++ gapSteps [a, b] := by
  induction l with
  | nil => simp [gapSteps]
  | cons x xs ih =>
      cases xs with
      | nil =>
          simp only [List.cons_append, List.nil_append, gapSteps]
          split <;> simp
      | cons y ys =>
          simp only [List.cons_append] at ih ⊢
          rw [gapSteps, ih]
          conv_rhs => rw [gapSteps]
          split <;> rfl

/-- The gaps of the mirrored segments. -/
theorem gapSteps_mirror {n : ℕ} {segs : List (ℕ × ℕ)} (h : ∀ seg ∈ segs, seg.1 < n ∧ seg.2 < n) :
    gapSteps (segs.map (mirrorSegment n)).reverse = (gapSteps segs).reverse := by
  induction segs with
  | nil => rfl
  | cons a rest ih =>
      cases rest with
      | nil => rfl
      | cons b rest =>
          have ih' := ih fun seg hseg => h seg (List.mem_cons_of_mem _ hseg)
          have ha := h a List.mem_cons_self
          have hb := h b (List.mem_cons_of_mem _ List.mem_cons_self)
          have hgap : n - 1 - a.2 - (n - 1 - b.1) = b.1 - a.2 := by omega
          simp only [List.map_cons, List.reverse_cons, List.append_assoc, List.cons_append,
            List.nil_append] at ih' ⊢
          rw [gapSteps_concat, ih']
          simp only [gapSteps, mirrorSegment, hgap]
          split <;> simp

/-! ### The ends of the midline -/

variable {K : Type} [Field K]

/-- One of the eight listings of the corners: from one of the four corners, in
one of the two orientations. -/
def IsListing (q' q : Quad K) : Prop :=
  ∃ k, q' = rotateQuad k q ∨ q' = rotateQuad k (reverseQuad q)

theorem edgeMid_rotate (k : Fin 4) (q : Quad K) (i : Fin 4) :
    edgeMid (rotateQuad k q) i = edgeMid q (i + k) := by
  have hadd : i + 1 + k = i + k + 1 := by omega
  simp only [edgeMid, rotateQuad, hadd]

theorem reverse_next (i : Fin 4) : 3 - (i + 1) = 2 - i ∧ 3 - i = 2 - i + 1 := by
  revert i
  decide

theorem quadEdge_reverse (q : Quad K) (i : Fin 4) :
    quadEdge (reverseQuad q) i = -quadEdge q (2 - i) := by
  obtain ⟨h1, h2⟩ := reverse_next i
  simp only [quadEdge, reverseQuad, h1, h2, Prod.neg_mk, neg_sub]

theorem edgeMid_reverse (q : Quad K) (i : Fin 4) :
    edgeMid (reverseQuad q) i = edgeMid q (2 - i) := by
  obtain ⟨h1, h2⟩ := reverse_next i
  simp only [edgeMid, reverseQuad, h1, h2, add_comm]

theorem IsRectangle.reverse {q : Quad K} (h : IsRectangle q) : IsRectangle (reverseQuad q) := by
  have hpar := h.parallel
  have hperp := h.perp
  constructor
  · simp only [quadEdge_reverse, Fin.isValue, Fin.reduceSub, hpar, neg_neg]
  · simp only [quadEdge_reverse, Fin.isValue, Fin.reduceSub, hpar, neg_neg, Prod.fst_neg,
      Prod.snd_neg]
    linear_combination -hperp

theorem quadEdgeLength_reverse (m : PyMath K) {q : Quad K} (i : Fin 4) :
    quadEdgeLength m (reverseQuad q) i = quadEdgeLength m q (2 - i) := by
  rw [quadEdgeLength, quadEdge_reverse, hypot_neg]
  rfl

variable [LinearOrder K] (m : PyMath K) {q : Quad K}

/-- The ends of the midline, which the code calls without an extension. -/
def midlineEnds (q : Quad K) : (K × K) × (K × K) := getShortEdgeMidlineEndpoints m q 0

theorem midlineEnds_of_zero (h : longIdx m q = 0) :
    midlineEnds m q = (edgeMid q 1, edgeMid q 3) := by
  simp [midlineEnds, getShortEdgeMidlineEndpoints, h, shortIdxs]

theorem midlineEnds_of_one (h : longIdx m q = 1) :
    midlineEnds m q = (edgeMid q 0, edgeMid q 2) := by
  simp [midlineEnds, getShortEdgeMidlineEndpoints, h, shortIdxs]

/-- The ends of the midline for the four listings, when the first edge is a long
one. -/
theorem IsRectangle.midlineEnds_rotate_zero (h : IsRectangle q)
    (hlt : quadEdgeLength m q 1 < quadEdgeLength m q 0) (k : Fin 4) :
    midlineEnds m (rotateQuad k q)
      = ![(edgeMid q 1, edgeMid q 3), (edgeMid q 1, edgeMid q 3), (edgeMid q 3, edgeMid q 1),
          (edgeMid q 3, edgeMid q 1)] k := by
  have h2 := h.length_two m
  have h3 := h.length_three m
  have hrot := h.rotate k
  -- Turned by an odd number of corners, the rectangle has its long edge at index 1.
  fin_cases k
  · rw [midlineEnds_of_zero m (hrot.longIdx_zero m (by simpa [quadEdgeLength_rotate] using hlt)),
      edgeMid_rotate, edgeMid_rotate]
    rfl
  · rw [midlineEnds_of_one m (hrot.longIdx_one m (by simpa [quadEdgeLength_rotate, h2] using hlt)),
      edgeMid_rotate, edgeMid_rotate]
    rfl
  · rw [midlineEnds_of_zero m
      (hrot.longIdx_zero m (by simpa [quadEdgeLength_rotate, h2, h3] using hlt)),
      edgeMid_rotate, edgeMid_rotate]
    rfl
  · rw [midlineEnds_of_one m (hrot.longIdx_one m (by simpa [quadEdgeLength_rotate, h3] using hlt)),
      edgeMid_rotate, edgeMid_rotate]
    rfl

/-- The ends of the midline for the four listings, when the second edge is a long
one. -/
theorem IsRectangle.midlineEnds_rotate_one (h : IsRectangle q)
    (hlt : quadEdgeLength m q 0 < quadEdgeLength m q 1) (k : Fin 4) :
    midlineEnds m (rotateQuad k q)
      = ![(edgeMid q 0, edgeMid q 2), (edgeMid q 2, edgeMid q 0), (edgeMid q 2, edgeMid q 0),
          (edgeMid q 0, edgeMid q 2)] k := by
  have hrow := (h.rotate 1).midlineEnds_rotate_zero m (h.length_lt_rotate_one m hlt) (k - 1)
  have hk : k - 1 + 1 = k := by omega
  rw [rotateQuad_rotateQuad, hk, edgeMid_rotate, edgeMid_rotate] at hrow
  rw [hrow]
  fin_cases k <;> rfl

/-- A rotation of the listing keeps the ends of the midline, or exchanges them. -/
theorem IsRectangle.midlineEnds_swapped (h : IsRectangle q)
    (hne : quadEdgeLength m q 0 ≠ quadEdgeLength m q 1) :
    ∃ swapped : Fin 4 → Bool, swapped 2 = true ∧ ∀ k, midlineEnds m (rotateQuad k q) =
      if swapped k then (midlineEnds m q).swap else midlineEnds m q := by
  rcases lt_or_gt_of_ne hne with hlt | hgt
  · have hk := h.midlineEnds_rotate_one m hlt
    have h0 := hk 0
    rw [rotateQuad_zero] at h0
    refine ⟨![false, true, true, false], rfl, fun k => ?_⟩
    rw [h0, hk k]
    fin_cases k <;> rfl
  · have hk := h.midlineEnds_rotate_zero m hgt
    have h0 := hk 0
    rw [rotateQuad_zero] at h0
    refine ⟨![false, false, true, true], rfl, fun k => ?_⟩
    rw [h0, hk k]
    fin_cases k <;> rfl

theorem IsRectangle.midlineEnds_rotate (h : IsRectangle q)
    (hne : quadEdgeLength m q 0 ≠ quadEdgeLength m q 1) (k : Fin 4) :
    midlineEnds m (rotateQuad k q) = midlineEnds m q ∨
      midlineEnds m (rotateQuad k q) = (midlineEnds m q).swap := by
  obtain ⟨swapped, -, hswapped⟩ := h.midlineEnds_swapped m hne
  rw [hswapped k]
  split
  · exact Or.inr rfl
  · exact Or.inl rfl

/-- The listing from the opposite corner exchanges the ends. -/
theorem IsRectangle.midlineEnds_rotate_two (h : IsRectangle q)
    (hne : quadEdgeLength m q 0 ≠ quadEdgeLength m q 1) :
    midlineEnds m (rotateQuad 2 q) = (midlineEnds m q).swap := by
  obtain ⟨swapped, htwo, hswapped⟩ := h.midlineEnds_swapped m hne
  rw [hswapped 2, if_pos htwo]

theorem IsRectangle.midlineEnds_reverse (h : IsRectangle q)
    (hne : quadEdgeLength m q 0 ≠ quadEdgeLength m q 1) :
    midlineEnds m (reverseQuad q) = midlineEnds m q ∨
      midlineEnds m (reverseQuad q) = (midlineEnds m q).swap := by
  have h2 := h.length_two m
  rcases lt_or_gt_of_ne hne with hlt | hgt
  · right
    rw [midlineEnds_of_one m (h.longIdx_one m hlt),
      midlineEnds_of_one m (h.reverse.longIdx_one m (by simpa [quadEdgeLength_reverse, h2] using hlt)),
      edgeMid_reverse, edgeMid_reverse]
    rfl
  · left
    rw [midlineEnds_of_zero m (h.longIdx_zero m hgt),
      midlineEnds_of_zero m
        (h.reverse.longIdx_zero m (by simpa [quadEdgeLength_reverse, h2] using hgt)),
      edgeMid_reverse, edgeMid_reverse]
    rfl

/-- A listing decides from which end the midline is walked. -/
theorem IsRectangle.midlineEnds_listing (h : IsRectangle q)
    (hne : quadEdgeLength m q 0 ≠ quadEdgeLength m q 1) {q' : Quad K} (hq' : IsListing q' q) :
    midlineEnds m q' = midlineEnds m q ∨ midlineEnds m q' = (midlineEnds m q).swap := by
  obtain ⟨k, rfl | rfl⟩ := hq'
  · exact h.midlineEnds_rotate m hne k
  · have hne' : quadEdgeLength m (reverseQuad q) 0 ≠ quadEdgeLength m (reverseQuad q) 1 := by
      simpa [quadEdgeLength_reverse, h.length_two m] using hne
    rcases h.reverse.midlineEnds_rotate m hne' k with h1 | h1 <;>
      rcases h.midlineEnds_reverse m hne with h2 | h2 <;> rw [h1, h2]
    · exact Or.inl rfl
    · exact Or.inr rfl
    · exact Or.inr rfl
    · exact Or.inl rfl

/-! ### The gaps -/

variable [FloorRing K]

/-- The pixel of an end of the midline. -/
def endPixel (p : K × K) : Pixel := ⟨pyRound p.1, pyRound p.2⟩

theorem shortMidlineLine_eq (q : Quad K) :
    shortMidlineLine m q 0
      = bresenhamPixels (endPixel (midlineEnds m q).1) (endPixel (midlineEnds m q).2) := rfl

/-- The midline meets no half pixel. -/
def MidlineClearOfHalves (q : Quad K) : Prop :=
  NoHalfPixel (endPixel (midlineEnds m q).1) (endPixel (midlineEnds m q).2)

theorem shortMidlineLine_swap {q' : Quad K} (hends : midlineEnds m q' = (midlineEnds m q).swap)
    (hclear : MidlineClearOfHalves m q) :
    shortMidlineLine m q' 0 = (shortMidlineLine m q 0).reverse := by
  rw [shortMidlineLine_eq, shortMidlineLine_eq, hends, Prod.fst_swap, Prod.snd_swap]
  exact bresenhamPixels_reverse hclear

omit [Field K] [FloorRing K] in
theorem trimmedGaps_of_three_le {gaps : List K} (h : 3 ≤ gaps.length) :
    trimmedGaps gaps = ((npSort gaps).drop 1).dropLast := by
  rw [trimmedGaps, if_pos h, List.mergeSort_eq_insertionSort]
  rfl

omit [FloorRing K] in
/-- The mean of the trimmed gaps does not depend on their order. -/
theorem npMean_trimmedGaps_perm {gaps gaps' : List K} (h : gaps'.Perm gaps) :
    npMean (trimmedGaps gaps') = npMean (trimmedGaps gaps) := by
  by_cases hlen : 3 ≤ gaps.length
  · rw [trimmedGaps_of_three_le hlen, trimmedGaps_of_three_le (h.length_eq ▸ hlen),
      npSort_eq_of_perm h]
  · have hlen' : ¬ 3 ≤ gaps'.length := h.length_eq ▸ hlen
    rw [trimmedGaps, trimmedGaps, if_neg hlen, if_neg hlen', npMean, npMean, h.sum_eq,
      h.length_eq]

variable {C : Type} (pp : PyProj K C) (ds : Raster K C) (mask : BinMask)

/-- The length of the line on the ground is the same from both ends. -/
theorem lineLengthM_swap (hsin : ∀ x, m.sin (-x) = -m.sin x) (a b : K × K) :
    lineLengthM m pp ds b a = lineLengthM m pp ds a b := by
  have hneg : ∀ x y : K, (x - y) * (m.pi / 180) / 2 = -((y - x) * (m.pi / 180) / 2) := by
    intro x y
    ring
  have hhyp : ∀ v w : K × K, m.hypot (v.1 - w.1) (v.2 - w.2) = m.hypot (w.1 - v.1) (w.2 - v.2) := by
    intro v w
    simp only [PyMath.hypot]
    congr 1
    ring
  have hhav : ∀ v w : K × K, haversine m v w = haversine m w v := by
    intro v w
    simp only [haversine]
    rw [hneg w.2 v.2, hneg w.1 v.1, hsin, hsin, neg_sq, neg_sq,
      mul_comm (m.cos (v.2 * (m.pi / 180)))]
  simp only [lineLengthM, hhyp (ds.transform.mul a), hhav (ds.transform.mul a)]

/-- Two results that agree up to the direction in which the line is walked. -/
structure SameGaps (a b : WaveGaps K) : Prop where
  samples : b.samples = a.samples ∨ b.samples = a.samples.reverse
  gapSteps : b.gapSteps = a.gapSteps ∨ b.gapSteps = a.gapSteps.reverse
  gapMeanM : b.gapMeanM = a.gapMeanM

/-- The result for a listing with the same ends is the same. -/
theorem calcWaveGaps_of_eq {q' : Quad K} (hends : midlineEnds m q' = midlineEnds m q) :
    calcWaveGapsAlongShortMidline m pp ds mask q'
      = calcWaveGapsAlongShortMidline m pp ds mask q := by
  have hends' : getShortEdgeMidlineEndpoints m q' 0 = getShortEdgeMidlineEndpoints m q 0 := hends
  unfold calcWaveGapsAlongShortMidline shortMidlineLine
  rw [hends']

theorem calcWaveGaps_gapSteps :
    (calcWaveGapsAlongShortMidline m pp ds mask q).gapSteps
      = gapSteps (crestSegments (mask.vals (shortMidlineLine m q 0)) fun _ _ => true) := by
  simp only [calcWaveGapsAlongShortMidline]
  split <;> rfl

/-- The mean gap, from the gaps in steps and the length of the line. -/
theorem calcWaveGaps_gapMeanM :
    (calcWaveGapsAlongShortMidline m pp ds mask q).gapMeanM
      = if (calcWaveGapsAlongShortMidline m pp ds mask q).gapSteps.length = 0 then none
        else some (npMean (trimmedGaps
          ((calcWaveGapsAlongShortMidline m pp ds mask q).gapSteps.map fun (g : ℕ) => (g : K) *
            (lineLengthM m pp ds (midlineEnds m q).1 (midlineEnds m q).2
              / (max 1 ((shortMidlineLine m q 0).length - 1) : ℕ))))) := by
  rw [calcWaveGaps_gapSteps]
  simp only [calcWaveGapsAlongShortMidline]
  split <;> rfl

theorem calcWaveGaps_samples :
    (calcWaveGapsAlongShortMidline m pp ds mask q).samples
      = (shortMidlineLine m q 0).map mask.clipPixel := by
  simp only [calcWaveGapsAlongShortMidline]
  split <;> rfl

/-- The result for a listing with the ends exchanged, when the line meets no half
pixel: everything is reversed but the mean. -/
theorem calcWaveGaps_of_swap (hsin : ∀ x, m.sin (-x) = -m.sin x) {q' : Quad K}
    (hends : midlineEnds m q' = (midlineEnds m q).swap) (hclear : MidlineClearOfHalves m q) :
    SameGaps (calcWaveGapsAlongShortMidline m pp ds mask q)
      (calcWaveGapsAlongShortMidline m pp ds mask q') := by
  have hline := shortMidlineLine_swap m hends hclear
  have hsteps : (calcWaveGapsAlongShortMidline m pp ds mask q').gapSteps
      = (calcWaveGapsAlongShortMidline m pp ds mask q).gapSteps.reverse := by
    rw [calcWaveGaps_gapSteps, calcWaveGaps_gapSteps, hline, BinMask.vals, List.map_reverse,
      crestSegments_reverse]
    apply gapSteps_mirror
    intro seg hseg
    have hlt := lt_of_mem_crestSegments hseg
    exact ⟨by omega, hlt.2⟩
  refine ⟨Or.inr ?_, Or.inr hsteps, ?_⟩
  · rw [calcWaveGaps_samples, calcWaveGaps_samples, hline, List.map_reverse]
  · rw [calcWaveGaps_gapMeanM, calcWaveGaps_gapMeanM, hsteps, hline, hends, Prod.fst_swap,
      Prod.snd_swap, lineLengthM_swap m pp ds hsin, List.length_reverse, List.length_reverse,
      List.map_reverse, npMean_trimmedGaps_perm (List.reverse_perm _)]

/-- For a midline without half pixels, the eight listings give the same pixels
and gaps up to the direction of the walk, and the same mean gap. With a half pixel
on the midline, not all of them draw the same pixels. -/
theorem waveGaps_listing (hsin : ∀ x, m.sin (-x) = -m.sin x) (hq : IsRectangle q)
    (hne : quadEdgeLength m q 0 ≠ quadEdgeLength m q 1) :
    (MidlineClearOfHalves m q → ∀ (mask : BinMask) (q' : Quad K), IsListing q' q →
        SameGaps (calcWaveGapsAlongShortMidline m pp ds mask q)
          (calcWaveGapsAlongShortMidline m pp ds mask q')) ∧
      ((∀ q', IsListing q' q → ∀ px, px ∈ shortMidlineLine m q' 0 ↔ px ∈ shortMidlineLine m q 0) ↔
        MidlineClearOfHalves m q) := by
  refine ⟨fun hclear mask q' hq' => ?_, fun hsame => ?_, fun hclear q' hq' px => ?_⟩
  · rcases hq.midlineEnds_listing m hne hq' with hends | hends
    · rw [calcWaveGaps_of_eq m pp ds mask hends]
      exact ⟨Or.inl rfl, Or.inl rfl, rfl⟩
    · exact calcWaveGaps_of_swap m pp ds mask hsin hends hclear
  · have hopp := hsame (rotateQuad 2 q) ⟨2, Or.inl rfl⟩
    rw [shortMidlineLine_eq, hq.midlineEnds_rotate_two m hne, Prod.fst_swap, Prod.snd_swap] at hopp
    exact (bresenhamPixels_mem_iff _ _).mp hopp
  · rcases hq.midlineEnds_listing m hne hq' with hends | hends
    · rw [shortMidlineLine_eq, hends, ← shortMidlineLine_eq]
    · rw [shortMidlineLine_swap m hends hclear, List.mem_reverse]

/-! ### A midline through half pixels -/

/-- A box with sides 10 and 5 whose midline goes from (10, 8) to (2, 2). -/
def slantedQuad : Quad ℚ := ![(7 / 2, 0), (23 / 2, 6), (17 / 2, 10), (1 / 2, 4)]

/-- Two set pixels, which the line from (2, 2) meets at its half pixels. -/
def slantedMask : BinMask where
  H := 12
  W := 12
  H_pos := by decide
  W_pos := by decide
  val y x := if (x = 4 ∧ y = 3) ∨ (x = 8 ∧ y = 6) then 1 else 0

/-- A raster with pixels of one metre and a projected reference system. -/
def metreRaster : Raster ℚ Unit := ⟨⟨1, 0, 0, 0, 1, 0⟩, some ()⟩

/-- pyproj for the runs below. Its transformer and geodesic are not called. -/
def planePyProj : PyProj ℚ Unit := ⟨fun _ p => p, fun _ => true, fun _ _ => 0⟩

/-- From (10, 8) the line passes beside both set pixels, and from (2, 2) it meets
them, four steps apart. -/
theorem slantedQuad_listings_differ :
    IsRectangle slantedQuad ∧
      quadEdgeLength PyMath.rat slantedQuad 0 ≠ quadEdgeLength PyMath.rat slantedQuad 1 ∧
      IsListing (rotateQuad 2 slantedQuad) slantedQuad ∧
      (calcWaveGapsAlongShortMidline PyMath.rat planePyProj metreRaster slantedMask
        slantedQuad).gapSteps = [] ∧
      (calcWaveGapsAlongShortMidline PyMath.rat planePyProj metreRaster slantedMask
        (rotateQuad 2 slantedQuad)).gapSteps = [4] ∧
      (calcWaveGapsAlongShortMidline PyMath.rat planePyProj metreRaster slantedMask
        slantedQuad).gapMeanM = none ∧
      (calcWaveGapsAlongShortMidline PyMath.rat planePyProj metreRaster slantedMask
        (rotateQuad 2 slantedQuad)).gapMeanM = some 5 ∧
      (⟨4, 4⟩ : Pixel) ∈ (calcWaveGapsAlongShortMidline PyMath.rat planePyProj metreRaster
        slantedMask slantedQuad).samples ∧
      (⟨4, 4⟩ : Pixel) ∉ (calcWaveGapsAlongShortMidline PyMath.rat planePyProj metreRaster
        slantedMask (rotateQuad 2 slantedQuad)).samples :=
  ⟨⟨by decide +kernel, by decide +kernel⟩, by decide +kernel, ⟨2, Or.inl rfl⟩, by decide +kernel,
    by decide +kernel, by decide +kernel, by decide +kernel, by decide +kernel, by decide +kernel⟩

/-- A box with sides 17 and 17/2 whose midline goes from (17, 12) to (2, 4). -/
def obliqueQuad : Quad ℚ := ![(4, 1 / 4), (19, 33 / 4), (15, 63 / 4), (0, 31 / 4)]

/-- Three stripes over all rows, of two columns each. -/
def stripedMask : BinMask where
  H := 18
  W := 20
  H_pos := by decide
  W_pos := by decide
  val _ x := if x = 4 ∨ x = 5 ∨ x = 9 ∨ x = 10 ∨ x = 13 ∨ x = 14 then 1 else 0

/-- Fifteen columns and eight rows further the line has met no half pixel, so the opposite listing
sees the two gaps in the opposite order. -/
theorem obliqueQuad_sameGaps :
    SameGaps
        (calcWaveGapsAlongShortMidline PyMath.rat planePyProj metreRaster stripedMask obliqueQuad)
        (calcWaveGapsAlongShortMidline PyMath.rat planePyProj metreRaster stripedMask
          (rotateQuad 2 obliqueQuad)) ∧
      (calcWaveGapsAlongShortMidline PyMath.rat planePyProj metreRaster stripedMask
        obliqueQuad).gapSteps = [3, 4] ∧
      (calcWaveGapsAlongShortMidline PyMath.rat planePyProj metreRaster stripedMask
        (rotateQuad 2 obliqueQuad)).gapSteps = [4, 3] := by
  have hclear : MidlineClearOfHalves PyMath.rat obliqueQuad := by
    have hends : endPixel (midlineEnds PyMath.rat obliqueQuad).1 = ⟨17, 12⟩ ∧
        endPixel (midlineEnds PyMath.rat obliqueQuad).2 = ⟨2, 4⟩ := by decide +kernel
    rw [MidlineClearOfHalves, hends.1, hends.2]
    rintro c - - ⟨j, hj⟩
    simp at hj
    omega
  refine ⟨?_, by decide +kernel, by decide +kernel⟩
  exact (waveGaps_listing PyMath.rat planePyProj metreRaster (fun _ => rfl)
    ⟨by decide +kernel, by decide +kernel⟩ (by decide +kernel)).1 hclear stripedMask _
    ⟨2, Or.inl rfl⟩

end W2Net.Proofs.Lbr
