import Mathlib.Algebra.BigOperators.Ring.Finset
import Mathlib.Algebra.BigOperators.Ring.List
import W2Net.Proofs.Utils.Lbr.Midline

/-!
# `W2Net.Proofs.Utils.Lbr.GapConservation`: stripes and gaps fill the scan line

`calc_wave_gaps_along_short_midline` reads the stripes off a sample sequence and
then the gaps between neighbouring stripes. Both lists are counted in steps:

* `length_gapSteps`, `two_le_of_mem_gapSteps`: one gap for each pair of
  neighbours, of two steps or more, so that the filter for zero gaps drops none.
* `sum_gapSteps`: stripes and gaps together lead from the first start to the
  last end.
* `waveGaps_conserved`: the same for the result of the function, and in metres:
  the gaps are never longer than the line.
-/

set_option autoImplicit false

namespace W2Net.Proofs.Lbr

open W2Net.Lbr

/-! ### Steps -/

/-- The steps inside a stripe. -/
def stripeSteps (seg : ℕ × ℕ) : ℕ := seg.2 - seg.1

/-- Neighbouring stripes leave a gap, which the filter keeps. -/
theorem gapSteps_cons_cons {a b : ℕ × ℕ} (rest : List (ℕ × ℕ)) (h : a.2 + 1 < b.1) :
    gapSteps (a :: b :: rest) = (b.1 - a.2) :: gapSteps (b :: rest) := by
  have hpos : 0 < b.1 - a.2 := by omega
  simp only [gapSteps, if_pos hpos]

/-- There is one gap for each pair of neighbours. -/
theorem length_gapSteps {segs : List (ℕ × ℕ)} (h : segs.Pairwise fun a b => a.2 + 1 < b.1) :
    (gapSteps segs).length = segs.length - 1 := by
  induction segs with
  | nil => rfl
  | cons a rest ih =>
      cases rest with
      | nil => rfl
      | cons b rest =>
          have hab := List.rel_of_pairwise_cons h List.mem_cons_self
          rw [gapSteps_cons_cons rest hab, List.length_cons, ih h.of_cons]
          simp

theorem two_le_of_mem_gapSteps {segs : List (ℕ × ℕ)}
    (h : segs.Pairwise fun a b => a.2 + 1 < b.1) {g : ℕ} (hg : g ∈ gapSteps segs) : 2 ≤ g := by
  induction segs with
  | nil => cases hg
  | cons a rest ih =>
      cases rest with
      | nil => cases hg
      | cons b rest =>
          have hab := List.rel_of_pairwise_cons h List.mem_cons_self
          rw [gapSteps_cons_cons rest hab, List.mem_cons] at hg
          rcases hg with rfl | hg
          · omega
          · exact ih h.of_cons hg

/-- Stripes and gaps take turns from the first start to the last end. Induction
on the stripes behind the first one. -/
theorem sum_gapSteps {rest : List (ℕ × ℕ)} :
    ∀ {first last : ℕ × ℕ}, (first :: rest).Pairwise (fun a b => a.2 + 1 < b.1) →
      (∀ seg ∈ first :: rest, seg.1 ≤ seg.2) → (first :: rest).getLast? = some last →
        first.1 + (((first :: rest).map stripeSteps).sum + (gapSteps (first :: rest)).sum)
          = last.2 := by
  induction rest with
  | nil =>
      intro first last _ hle hlast
      have hfirst := hle first List.mem_cons_self
      cases hlast
      simp [stripeSteps, gapSteps]
      omega
  | cons b rest ih =>
      intro first last hsep hle hlast
      have hab := List.rel_of_pairwise_cons hsep List.mem_cons_self
      have hfirst := hle first List.mem_cons_self
      rw [List.getLast?_cons_cons] at hlast
      -- The gap in front of the second stripe closes the distance to its start.
      have hrest := ih hsep.of_cons (fun seg hseg => hle seg (List.mem_cons_of_mem _ hseg)) hlast
      rw [gapSteps_cons_cons rest hab, List.map_cons, List.sum_cons, List.sum_cons]
      simp only [stripeSteps] at hrest ⊢
      omega

/-- The stripes and the gaps of a sequence of `L` samples. Without a stripe there
is no first start, and both sums are over empty lists. -/
structure GapsConserved (L : ℕ) (stripes : List (ℕ × ℕ)) (steps : List ℕ) : Prop where
  count : steps.length = stripes.length - 1
  atLeastTwo : ∀ g ∈ steps, 2 ≤ g
  ordered : ∀ seg ∈ stripes, seg.1 ≤ seg.2
  total : ∀ first last, stripes.head? = some first → stripes.getLast? = some last →
    first.1 ≤ last.2 ∧ (stripes.map stripeSteps).sum + steps.sum = last.2 - first.1 ∧
      last.2 - first.1 ≤ L - 1

theorem gapsConserved (vals : List Bool) :
    GapsConserved vals.length (crestSegments vals fun _ _ => true)
      (gapSteps (crestSegments vals fun _ _ => true)) := by
  have hsep := crestSegments_pairwise vals fun _ _ => true
  have hle : ∀ seg ∈ (crestSegments vals fun _ _ => true), seg.1 ≤ seg.2 :=
    fun seg hseg => (lt_of_mem_crestSegments hseg).1
  refine ⟨length_gapSteps hsep, fun g hg => two_le_of_mem_gapSteps hsep hg, hle, ?_⟩
  intro first last hfirst hlast
  have hlt := (lt_of_mem_crestSegments (List.mem_of_getLast? hlast)).2
  cases hsegs : crestSegments vals fun _ _ => true with
  | nil =>
      rw [hsegs] at hfirst
      cases hfirst
  | cons a rest =>
      rw [hsegs] at hfirst hlast hsep hle
      cases hfirst
      have hsum := sum_gapSteps hsep hle hlast
      exact ⟨by omega, by omega, by omega⟩

/-- The gaps leave room for the line: with no stripe there is no gap. -/
theorem GapsConserved.sum_le {L : ℕ} {stripes : List (ℕ × ℕ)} {steps : List ℕ}
    (h : GapsConserved L stripes steps) : steps.sum ≤ L - 1 := by
  cases stripes with
  | nil =>
      have hnil : steps = [] := List.eq_nil_of_length_eq_zero h.count
      simp [hnil]
  | cons first rest =>
      have hlast := List.getLast?_eq_some_getLast (List.cons_ne_nil first rest)
      obtain ⟨-, hsum, hle⟩ := h.total first _ rfl hlast
      omega

/-! ### Metres -/

section
variable {K : Type} [Field K] [LinearOrder K]

/-- Each gap is its share of the line, so that the gaps together are no longer
than the line. -/
theorem sum_map_mul_div_le [IsStrictOrderedRing K] {steps : List ℕ} {n : ℕ} {lineLen : K}
    (hlen : 0 ≤ lineLen) (hn : 0 < n) (hsteps : steps.sum ≤ n) :
    (steps.map fun (g : ℕ) => (g : K) * (lineLen / n)).sum ≤ lineLen := by
  have hnK : (0 : K) < n := Nat.cast_pos.mpr hn
  have hcast : ((steps.sum : ℕ) : K) ≤ n := Nat.cast_le.mpr hsteps
  calc (steps.map fun (g : ℕ) => (g : K) * (lineLen / n)).sum
      = ((steps.sum : ℕ) : K) * (lineLen / n) := by
        rw [List.sum_map_mul_right, Nat.cast_list_sum]
    _ ≤ n * (lineLen / n) := mul_le_mul_of_nonneg_right hcast (div_nonneg hlen hnK.le)
    _ = lineLen := mul_div_cancel₀ lineLen hnK.ne'

omit [Field K] in
/-- The trimmed list is never empty, so that its mean divides by no zero. -/
theorem trimmedGaps_ne_nil {gaps : List K} (h : gaps ≠ []) : trimmedGaps gaps ≠ [] := by
  unfold trimmedGaps
  split
  · rename_i hlen
    apply List.ne_nil_of_length_pos
    rw [List.length_dropLast, List.length_drop, List.length_mergeSort]
    omega
  · exact h

variable [FloorRing K] {C : Type} (m : PyMath K) (pp : PyProj K C) (ds : Raster K C)

/-- For every sequence of samples, and so for the ones on the midline, the gaps
and stripes add up. In metres the gaps are no longer than the line, and both
divisors are positive. -/
theorem waveGaps_conserved [IsStrictOrderedRing K] :
    (∀ vals : List Bool, GapsConserved vals.length (crestSegments vals fun _ _ => true)
        (gapSteps (crestSegments vals fun _ _ => true))) ∧
      ∀ (mask : BinMask) (quad : Quad K) (result : WaveGaps K),
        result = calcWaveGapsAlongShortMidline m pp ds mask quad →
        GapsConserved (shortMidlineLine m quad 0).length result.stripes result.gapSteps ∧
          result.nStripes = result.stripes.length ∧
          0 < max 1 ((shortMidlineLine m quad 0).length - 1) ∧
          (result.gapSteps ≠ [] → result.gapDistsUsed ≠ []) ∧
          ∀ lineLenM, result.lineLenM = some lineLenM → 0 ≤ lineLenM →
            result.gapDistsM.sum ≤ lineLenM := by
  refine ⟨gapsConserved, ?_⟩
  rintro mask quad result rfl
  have hcons := gapsConserved (mask.vals (shortMidlineLine m quad 0))
  have hlength : (mask.vals (shortMidlineLine m quad 0)).length
      = (shortMidlineLine m quad 0).length := List.length_map _
  rw [hlength] at hcons
  have hsum := hcons.sum_le
  simp only [calcWaveGapsAlongShortMidline]
  split
  · -- Without a gap the function returns before it measures the line.
    rename_i hnone
    refine ⟨hcons, rfl, by omega, fun hne => ?_, fun lineLenM hlen => by cases hlen⟩
    exact absurd (List.eq_nil_of_length_eq_zero hnone) hne
  · rename_i hsome
    refine ⟨hcons, rfl, by omega, fun hne => ?_, fun lineLenM hlen hpos => ?_⟩
    · exact trimmedGaps_ne_nil fun hnil => hne (List.map_eq_nil_iff.mp hnil)
    · cases hlen
      exact sum_map_mul_div_le hpos (by omega) (hsum.trans (Nat.le_max_right _ _))

end

/-- A box along the rows with sides 8 and 2. -/
def levelQuad : Quad ℚ := ![(1, 2), (9, 2), (9, 4), (1, 4)]

/-- Two stripes on the line from (9, 3) to (1, 3), at the columns 8, 7 and at 4. -/
def levelMask : BinMask where
  H := 12
  W := 12
  H_pos := slantedMask.H_pos
  W_pos := slantedMask.W_pos
  val _ x := if x = 8 ∨ x = 7 ∨ x = 4 then 1 else 0

theorem levelMask_conserved :
    let result := calcWaveGapsAlongShortMidline PyMath.rat planePyProj metreRaster levelMask
      levelQuad
    result.stripes = [(1, 2), (5, 5)] ∧ result.gapSteps = [3] ∧ result.lineLenM = some 8 ∧
      result.gapDistsM.sum ≤ 8 := by
  intro result
  have hlen : result.lineLenM = some 8 := by decide +kernel
  refine ⟨by decide +kernel, by decide +kernel, hlen, ?_⟩
  exact ((waveGaps_conserved PyMath.rat planePyProj metreRaster).2 levelMask levelQuad result
    rfl).2.2.2.2 8 hlen (by norm_num)

end W2Net.Proofs.Lbr
