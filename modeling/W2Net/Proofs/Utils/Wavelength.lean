import Mathlib.Algebra.Order.Field.Rat
import Mathlib.Data.Rat.Floor
import Mathlib.Tactic.FieldSimp
import Mathlib.Tactic.Linarith
import Mathlib.Tactic.Positivity
import Mathlib.Tactic.Ring
import W2Net.Utils.Wavelength

/-!
# `W2Net.Proofs.Utils.Wavelength`: do the two corrections agree?

With two components, both corrections look at the line through the two
centroids. `correctHeadingByCcExtreme` reads it from the smaller to the larger
component, and `correctHeadingByCcTopkVote` from the larger to the smaller one
(`jointDot`). So they flip on opposite sides (`extreme_two`, `vote_two`).
`corrections_agree_iff` gives the inputs on which neither of them flips, which are
the only ones where they agree.
-/

set_option autoImplicit false

namespace W2Net.Proofs.Wavelength

open W2Net.Wavelength
open W2Net.Lbr (Quad)

variable {K : Type} [Field K] [LinearOrder K] [IsStrictOrderedRing K] [FloorRing K]

/-- The projection on the box direction of the unit vector from the centroid of
`c0` to the centroid of `c1`, as the code normalizes both. -/
def jointDot (m : PyMath K) (vObb : K × K) (c0 c1 : Comp K) : K :=
  (m.unit (c1.cx - c0.cx, c1.cy - c0.cy)).1 * (m.unit vObb).1
    + (m.unit (c1.cx - c0.cx, c1.cy - c0.cy)).2 * (m.unit vObb).2

/-- The distance of the centroids. -/
def centroidDist (m : PyMath K) (c0 c1 : Comp K) : K :=
  m.hypot (c1.cx - c0.cx) (c1.cy - c0.cy)

/-- A turn by 180 degrees is never the identity. -/
theorem flipHeading_ne (h : K) : flipHeading true h ≠ flipHeading false h := by
  intro heq
  have heq' : h + 180 - 360 * (⌊(h + 180) / 360⌋ : K) = h := heq
  generalize ⌊(h + 180) / 360⌋ = k at heq'
  have hk : (1 : K) = 2 * (k : K) := by linarith
  have hint : (1 : ℤ) = 2 * k := by exact_mod_cast hk
  omega

theorem flipHeading_inj {b b' : Bool} {h : K} : flipHeading b h = flipHeading b' h ↔ b = b' := by
  constructor
  · intro heq
    cases b with
    | false =>
        cases b' with
        | false => rfl
        | true => exact absurd heq.symm (flipHeading_ne h)
    | true =>
        cases b' with
        | false => exact absurd heq (flipHeading_ne h)
        | true => rfl
  · intro heq
    rw [heq]

section
variable (m : PyMath K) (cv : Cv2Regions K) (binMask : Img ℕ) (quad : Quad K) (vObb : K × K)
  (headingDeg : K) (minCcArea : ℤ)

omit [IsStrictOrderedRing K] in
/-- With two components, the first correction flips when the direction to the
smaller component goes with the box direction. -/
theorem extreme_two (chooseSmall : String) {c0 c1 : Comp K}
    (h : sortByArea (validComponents cv binMask quad minCcArea) = [c0, c1]) :
    (correctHeadingByCcExtreme m cv binMask quad vObb headingDeg minCcArea chooseSmall).flipped
        = decide (-jointDot m vObb c0 c1 < 0) ∧
      (correctHeadingByCcExtreme m cv binMask quad vObb headingDeg minCcArea
          chooseSmall).headingCorrDeg
        = flipHeading (decide (-jointDot m vObb c0 c1 < 0)) headingDeg := by
  have hsmall : smallComponent chooseSmall c0 c1 [] = c1 := by
    unfold smallComponent
    split <;> simp
  -- The source reads the line from the smaller to the larger component.
  have hneg : m.unit (c0.cx - c1.cx, c0.cy - c1.cy)
      = -m.unit (c1.cx - c0.cx, c1.cy - c0.cy) := by
    rw [← m.unit_neg]
    simp only [Prod.neg_mk, neg_sub]
  have hdot : (m.unit vObb).1 * (m.unit (c0.cx - c1.cx, c0.cy - c1.cy)).1
      + (m.unit vObb).2 * (m.unit (c0.cx - c1.cx, c0.cy - c1.cy)).2
        = -jointDot m vObb c0 c1 := by
    rw [hneg, jointDot, Prod.fst_neg, Prod.snd_neg]
    ring
  simp only [correctHeadingByCcExtreme, h, hsmall, hdot]
  exact ⟨trivial, trivial⟩

omit [IsStrictOrderedRing K] in
/-- With two components, the vote flips when the direction to the smaller
component goes against the box direction. -/
theorem vote_two {topK : ℤ} (hk : 2 ≤ topK) (dotEps : K) {c0 c1 : Comp K}
    (h : sortByArea (validComponents cv binMask quad minCcArea) = [c0, c1]) :
    ∃ r, correctHeadingByCcTopkVote m cv binMask quad vObb headingDeg topK minCcArea dotEps
        = .ok r ∧
      (r.flipped = true ↔ ¬ centroidDist m c0 c1 < 1 / 10 ^ 6 ∧
        ¬ dotEps ≤ jointDot m vObb c0 c1 ∧ jointDot m vObb c0 c1 ≤ -dotEps) ∧
      r.headingCorrDeg = flipHeading r.flipped headingDeg := by
  have hlen : (validComponents cv binMask quad minCcArea).length = 2 := by
    have hsort := congrArg List.length h
    rwa [sortByArea, List.length_insertionSort] at hsort
  have hslice : pySliceTo [c0, c1] (min topK 2) = [c0, c1] := by
    rw [min_eq_right hk]
    rfl
  simp only [correctHeadingByCcTopkVote, hlen, h, Nat.lt_irrefl, if_false, Nat.cast_ofNat, hslice]
  -- The one vote, by its tag.
  by_cases hzero : centroidDist m c0 c1 < 1 / 10 ^ 6
  · have hvote : voteOf m (m.unit vObb) dotEps c0 c1 = ⟨c1.lab, c1.area, 0, .skipZero⟩ :=
      if_pos hzero
    simp only [List.map_cons, List.map_nil, hvote]
    exact ⟨_, rfl, iff_of_false (by simp) fun hc => hc.1 hzero, rfl⟩
  · by_cases hpos : dotEps ≤ jointDot m vObb c0 c1
    · have hvote : voteOf m (m.unit vObb) dotEps c0 c1
          = ⟨c1.lab, c1.area, jointDot m vObb c0 c1, .pos⟩ :=
        (if_neg hzero).trans (if_pos hpos)
      simp only [List.map_cons, List.map_nil, hvote]
      exact ⟨_, rfl, iff_of_false (by simp) fun hc => hc.2.1 hpos, rfl⟩
    · by_cases hneg : jointDot m vObb c0 c1 ≤ -dotEps
      · have hvote : voteOf m (m.unit vObb) dotEps c0 c1
            = ⟨c1.lab, c1.area, jointDot m vObb c0 c1, .neg⟩ :=
          (if_neg hzero).trans ((if_neg hpos).trans (if_pos hneg))
        simp only [List.map_cons, List.map_nil, hvote]
        exact ⟨_, rfl, iff_of_true rfl ⟨hzero, hpos, hneg⟩, rfl⟩
      · have hvote : voteOf m (m.unit vObb) dotEps c0 c1
            = ⟨c1.lab, c1.area, jointDot m vObb c0 c1, .skipSmall⟩ :=
          (if_neg hzero).trans ((if_neg hpos).trans (if_neg hneg))
        simp only [List.map_cons, List.map_nil, hvote]
        exact ⟨_, rfl, iff_of_false (by simp) fun hc => hneg hc.2.2, rfl⟩

omit [FloorRing K] in
/-- The two tests on the projection: `near` stands for centroids that are too close. The vote flips
for negative projections only, and the first correction for positive ones. -/
theorem tests_agree_iff {near : Prop} {dot dotEps : K} :
    ((¬near ∧ ¬dotEps ≤ dot ∧ dot ≤ -dotEps) ↔ 0 < dot) ↔
      dot ≤ 0 ∧ (near ∨ dotEps ≤ dot ∨ -dotEps < dot) := by
  constructor
  · intro hiff
    -- With a positive projection the vote would have to flip as well.
    have hle : dot ≤ 0 := by
      by_contra hpos
      obtain ⟨-, hlt, hneg⟩ := hiff.mpr (not_le.mp hpos)
      have := not_le.mp hpos
      have := not_le.mp hlt
      linarith
    refine ⟨hle, ?_⟩
    by_contra hno
    rw [not_or, not_or, not_lt (a := -dotEps)] at hno
    exact absurd (hiff.mp hno) (not_lt.mpr hle)
  · rintro ⟨hle, hkeep⟩
    refine iff_of_false ?_ (not_lt.mpr hle)
    rintro ⟨hdist, heps, hneg⟩
    rcases hkeep with h | h | h
    · exact hdist h
    · exact heps h
    · exact absurd h (not_lt.mpr hneg)

/-- With two components, the corrections agree exactly when the box direction
does not go with the direction to the smaller component and the vote does not
flip either. For a positive threshold that the projection reaches, and centroids
that are not closer than `1e-6`, they never do. -/
theorem corrections_agree_iff (chooseSmall : String) (topK : ℤ) (dotEps : K)
    (htwo : (validComponents cv binMask quad minCcArea).length = 2) (hk : 2 ≤ topK) :
    ∃ c0 c1 vote, sortByArea (validComponents cv binMask quad minCcArea) = [c0, c1] ∧
      correctHeadingByCcTopkVote m cv binMask quad vObb headingDeg topK minCcArea dotEps
        = .ok vote ∧
      ((vote.flipped = (correctHeadingByCcExtreme m cv binMask quad vObb headingDeg minCcArea
            chooseSmall).flipped ∧
          vote.headingCorrDeg = (correctHeadingByCcExtreme m cv binMask quad vObb headingDeg
            minCcArea chooseSmall).headingCorrDeg) ↔
        jointDot m vObb c0 c1 ≤ 0 ∧ (centroidDist m c0 c1 < 1 / 10 ^ 6 ∨
          dotEps ≤ jointDot m vObb c0 c1 ∨ -dotEps < jointDot m vObb c0 c1)) ∧
      (0 < dotEps → dotEps ≤ |jointDot m vObb c0 c1| → 1 / 10 ^ 6 ≤ centroidDist m c0 c1 →
        vote.flipped ≠ (correctHeadingByCcExtreme m cv binMask quad vObb headingDeg minCcArea
          chooseSmall).flipped) := by
  obtain ⟨c0, c1, hsort⟩ : ∃ c0 c1,
      sortByArea (validComponents cv binMask quad minCcArea) = [c0, c1] := by
    rw [← List.length_eq_two, sortByArea, List.length_insertionSort]
    exact htwo
  obtain ⟨hflip, hhead⟩ :=
    extreme_two m cv binMask quad vObb headingDeg minCcArea chooseSmall hsort
  obtain ⟨vote, hvote, hvflip, hvhead⟩ :=
    vote_two m cv binMask quad vObb headingDeg minCcArea hk dotEps hsort
  -- The headings agree when the flags do, so only the flags are compared.
  have hflags : vote.flipped = (correctHeadingByCcExtreme m cv binMask quad vObb headingDeg
      minCcArea chooseSmall).flipped ↔
      jointDot m vObb c0 c1 ≤ 0 ∧ (centroidDist m c0 c1 < 1 / 10 ^ 6 ∨
        dotEps ≤ jointDot m vObb c0 c1 ∨ -dotEps < jointDot m vObb c0 c1) := by
    rw [hflip, Bool.eq_iff_iff, hvflip, decide_eq_true_iff, neg_lt_zero, tests_agree_iff]
  refine ⟨c0, c1, vote, hsort, hvote, ?_, ?_⟩
  · rw [← hflags, hvhead, hhead, ← hflip, flipHeading_inj, and_self]
  · intro heps habs hdist hagree
    obtain ⟨hle, hkeep⟩ := hflags.mp hagree
    rw [abs_of_nonpos hle] at habs
    rcases hkeep with h | h | h
    · exact absurd h (not_lt.mpr hdist)
    · linarith
    · linarith

end

/-! ### Two components -/

/-- Two columns of foreground on the left and one on the right. -/
def plainMask : Img ℕ := ⟨5, 6, fun _ x => if x < 2 ∨ x = 5 then 1 else 0⟩

/-- The components of `plainMask`: areas 10 and 5, centroids (1/2, 2) and (5, 2). -/
def twoRegions : Cv2Regions ℚ where
  connectedComponentsWithStats _ :=
    ⟨3, ⟨5, 6, fun _ x => if x < 2 then 1 else if x = 5 then 2 else 0⟩,
      fun lab => if lab = 1 then 10 else if lab = 2 then 5 else 15,
      fun lab => if lab = 1 then (1 / 2, 2) else if lab = 2 then (5, 2) else (3, 2)⟩
  fillPoly H W _ := ⟨H, W, fun _ _ => 1⟩

/-- A box along the columns, over the whole mask. -/
def plainQuad : Quad ℚ := ![(0, 0), (5, 0), (5, 4), (0, 4)]

/-- The smaller component lies in the box direction: the first correction turns
the heading from 90 to 270 degrees, the vote keeps it. -/
theorem corrections_differ :
    (validComponents twoRegions plainMask plainQuad 5).length = 2 ∧
      (correctHeadingByCcExtreme PyMath.rat twoRegions plainMask plainQuad (1, 0) 90 5
        "smallest").flipped = true ∧
      (correctHeadingByCcExtreme PyMath.rat twoRegions plainMask plainQuad (1, 0) 90 5
        "smallest").headingCorrDeg = 270 ∧
      (correctHeadingByCcTopkVote PyMath.rat twoRegions plainMask plainQuad (1, 0) 90 8 5
        (1 / 20)).map Correction.flipped = .ok false ∧
      (correctHeadingByCcTopkVote PyMath.rat twoRegions plainMask plainQuad (1, 0) 90 8 5
        (1 / 20)).map Correction.headingCorrDeg = .ok 90 := by
  decide +kernel

/-- The comparison on the two components. -/
theorem corrections_agree_iff_twoRegions :
    ∃ c0 c1 vote, sortByArea (validComponents twoRegions plainMask plainQuad 5) = [c0, c1] ∧
      correctHeadingByCcTopkVote PyMath.rat twoRegions plainMask plainQuad (1, 0) 90 8 5 (1 / 20)
        = .ok vote ∧
      ((vote.flipped = (correctHeadingByCcExtreme PyMath.rat twoRegions plainMask plainQuad
            (1, 0) 90 5 "smallest").flipped ∧
          vote.headingCorrDeg = (correctHeadingByCcExtreme PyMath.rat twoRegions plainMask
            plainQuad (1, 0) 90 5 "smallest").headingCorrDeg) ↔
        jointDot PyMath.rat (1, 0) c0 c1 ≤ 0 ∧ (centroidDist PyMath.rat c0 c1 < 1 / 10 ^ 6 ∨
          1 / 20 ≤ jointDot PyMath.rat (1, 0) c0 c1 ∨
          -(1 / 20) < jointDot PyMath.rat (1, 0) c0 c1)) := by
  obtain ⟨c0, c1, vote, hsort, hvote, hiff, -⟩ :=
    corrections_agree_iff PyMath.rat twoRegions plainMask plainQuad (1, 0) 90 5 "smallest" 8
      (1 / 20) (by decide +kernel) (by decide)
  exact ⟨c0, c1, vote, hsort, hvote, hiff⟩

end W2Net.Proofs.Wavelength
