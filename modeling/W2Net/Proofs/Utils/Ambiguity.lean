import W2Net.Lib.Modulus
import W2Net.Proofs.Utils.Wavelength

/-!
# `W2Net.Proofs.Utils.Ambiguity`: the corrections forget the direction they get

Both corrections compare the box direction with the components and turn the
heading when the two disagree. The opposite direction comes with the opposite
heading. It turns the signs around (`unit_neg`, `voteOf_neg_tag`), so that exactly one
of the two runs turns its heading (`flipHeading_opposite`):

* `extreme_opposite`: for a dot product other than 0.
* `vote_opposite`: for vote counts that differ. A positive `dot_eps` puts every
  component on one side or in the dead zone, and the two sides are exchanged.
-/

set_option autoImplicit false

namespace W2Net.Proofs.Wavelength

open W2Net.Wavelength
open W2Net.Lbr (Quad)

variable {K : Type} [Field K] [LinearOrder K] [FloorRing K]

/-- `(h + 180) % 360`: the heading the other way. -/
def oppositeHeading (h : K) : K := pyMod (h + 180) 360

/-- The dot product of the first correction, when it gets to it. -/
def ExtremeInfo.dot? : ExtremeInfo K → Option K
  | .notEnoughComponents _ => none
  | .decided _ _ _ _ dot _ _ => some dot

/-- The two vote counts, when there is a vote. -/
def VoteInfo.votes? : VoteInfo K → Option (ℕ × ℕ)
  | .validCc _ => none
  | .noValidVotes votesPos votesNeg _ _ => some (votesPos, votesNeg)
  | .decided _ _ votesPos votesNeg _ _ _ _ => some (votesPos, votesNeg)

/-- The tag of a component for the opposite box direction. -/
def VoteTag.opposite : VoteTag → VoteTag
  | .pos => .neg
  | .neg => .pos
  | .skipZero => .skipZero
  | .skipSmall => .skipSmall

theorem opposite_eq_iff (t : VoteTag) :
    (VoteTag.opposite t = .pos ↔ t = .neg) ∧ (VoteTag.opposite t = .neg ↔ t = .pos) := by
  cases t <;> simp [VoteTag.opposite]

variable [IsStrictOrderedRing K]

/-- The opposite of the opposite heading. -/
theorem oppositeHeading_oppositeHeading {h : K} (hlow : 0 ≤ h) (hhigh : h < 360) :
    oppositeHeading (oppositeHeading h) = h := by
  unfold oppositeHeading
  rw [pyMod_eq_iff (by norm_num)]
  refine ⟨⟨hlow, hhigh⟩, 1 - ⌊(h + 180) / 360⌋, ?_⟩
  rw [pyMod]
  push_cast
  ring

/-- One turn of the heading, on either side. -/
theorem flipHeading_opposite {h : K} (hlow : 0 ≤ h) (hhigh : h < 360) (flipped : Bool) :
    flipHeading (!flipped) (oppositeHeading h) = flipHeading flipped h := by
  cases flipped with
  | true => rfl
  | false => exact oppositeHeading_oppositeHeading hlow hhigh

section
variable (m : PyMath K) (cv : Cv2Regions K) (binMask : Img ℕ) (quad : Quad K) (vObb : K × K)
  {headingDeg : K} (minCcArea : ℤ)

/-- The first correction gives the same heading from both directions. -/
theorem extreme_opposite (hlow : 0 ≤ headingDeg) (hhigh : headingDeg < 360) (chooseSmall : String)
    {dot : K}
    (hdot : ExtremeInfo.dot? (correctHeadingByCcExtreme m cv binMask quad vObb headingDeg minCcArea
      chooseSmall).info = some dot) (hne : dot ≠ 0) :
    (correctHeadingByCcExtreme m cv binMask quad (-vObb) (oppositeHeading headingDeg) minCcArea
        chooseSmall).headingCorrDeg
      = (correctHeadingByCcExtreme m cv binMask quad vObb headingDeg minCcArea
        chooseSmall).headingCorrDeg := by
  cases hsort : sortByArea (validComponents cv binMask quad minCcArea) with
  | nil =>
      simp only [correctHeadingByCcExtreme, hsort] at hdot
      cases hdot
  | cons cMax l =>
      cases l with
      | nil =>
          simp only [correctHeadingByCcExtreme, hsort] at hdot
          cases hdot
      | cons c1 rest =>
          simp only [correctHeadingByCcExtreme, hsort, m.unit_neg, Prod.fst_neg,
            Prod.snd_neg] at hdot ⊢
          generalize m.unit (cMax.cx - (smallComponent chooseSmall cMax c1 rest).cx,
            cMax.cy - (smallComponent chooseSmall cMax c1 rest).cy) = vCc at hdot ⊢
          have hval : (m.unit vObb).1 * vCc.1 + (m.unit vObb).2 * vCc.2 = dot :=
            Option.some.inj hdot
          have hneg : -(m.unit vObb).1 * vCc.1 + -(m.unit vObb).2 * vCc.2 = -dot := by
            rw [← hval]
            ring
          -- The dot product changes its sign, and with a value other than 0 so does the test.
          have hflip : decide (-dot < 0) = !decide (dot < 0) := by
            rcases lt_or_gt_of_ne hne with hlt | hgt
            · simp [hlt, hlt.le]
            · simp [hgt, hgt.le]
          rw [hval, hneg, hflip]
          exact flipHeading_opposite hlow hhigh _

omit [FloorRing K] in
/-- The opposite box direction exchanges the two kinds of votes. -/
theorem voteOf_neg_tag {dotEps : K} (heps : 0 < dotEps) (vObbN : K × K) (c0 c : Comp K) :
    (voteOf m (-vObbN) dotEps c0 c).tag = VoteTag.opposite (voteOf m vObbN dotEps c0 c).tag := by
  simp only [voteOf, Prod.fst_neg, Prod.snd_neg]
  by_cases hzero : m.hypot (c.cx - c0.cx) (c.cy - c0.cy) < 1 / 10 ^ 6
  · simp only [if_pos hzero, VoteTag.opposite]
  · simp only [if_neg hzero]
    obtain ⟨p, hp⟩ : ∃ p, p = (m.unit (c.cx - c0.cx, c.cy - c0.cy)).1 * vObbN.1
        + (m.unit (c.cx - c0.cx, c.cy - c0.cy)).2 * vObbN.2 := ⟨_, rfl⟩
    have hneg : (m.unit (c.cx - c0.cx, c.cy - c0.cy)).1 * -vObbN.1
        + (m.unit (c.cx - c0.cx, c.cy - c0.cy)).2 * -vObbN.2 = -p := by
      rw [hp]
      ring
    rw [hneg, ← hp]
    -- The projection is on the positive side, on the negative one, or between them.
    rcases le_or_gt dotEps p with hpos | hpos
    · rw [if_neg (by linarith), if_pos (by linarith), if_pos hpos]
      rfl
    · rcases le_or_gt p (-dotEps) with hside | hside
      · rw [if_pos (by linarith), if_neg (by linarith), if_pos hside]
        rfl
      · rw [if_neg (by linarith), if_neg (by linarith), if_neg (by linarith),
          if_neg (by linarith)]
        rfl

omit [FloorRing K] in
/-- The votes are counted the other way round. -/
theorem countP_voteOf_neg {dotEps : K} (heps : 0 < dotEps) (vObbN : K × K) (c0 : Comp K)
    (rest : List (Comp K)) :
    (rest.map (voteOf m (-vObbN) dotEps c0)).countP (fun d => d.tag = .pos)
        = (rest.map (voteOf m vObbN dotEps c0)).countP (fun d => d.tag = .neg) ∧
      (rest.map (voteOf m (-vObbN) dotEps c0)).countP (fun d => d.tag = .neg)
        = (rest.map (voteOf m vObbN dotEps c0)).countP (fun d => d.tag = .pos) := by
  simp only [List.countP_map]
  constructor
  · refine List.countP_congr fun c _ => ?_
    simp only [Function.comp_apply, voteOf_neg_tag m heps, decide_eq_true_iff]
    exact (opposite_eq_iff _).1
  · refine List.countP_congr fun c _ => ?_
    simp only [Function.comp_apply, voteOf_neg_tag m heps, decide_eq_true_iff]
    exact (opposite_eq_iff _).2

/-- The vote gives the same heading from both directions. -/
theorem vote_opposite (hlow : 0 ≤ headingDeg) (hhigh : headingDeg < 360) (topK : ℤ) {dotEps : K}
    (heps : 0 < dotEps) {r : Correction K (VoteInfo K)} {votesPos votesNeg : ℕ}
    (hr : correctHeadingByCcTopkVote m cv binMask quad vObb headingDeg topK minCcArea dotEps
      = .ok r)
    (hvotes : VoteInfo.votes? r.info = some (votesPos, votesNeg)) (hne : votesPos ≠ votesNeg) :
    ∃ r', correctHeadingByCcTopkVote m cv binMask quad (-vObb) (oppositeHeading headingDeg) topK
        minCcArea dotEps = .ok r' ∧ r'.headingCorrDeg = r.headingCorrDeg := by
  unfold correctHeadingByCcTopkVote at hr ⊢
  simp only at hr ⊢
  split at hr
  · cases hr
    cases hvotes
  · rename_i hlen
    rw [if_neg hlen]
    cases hslice : pySliceTo (sortByArea (validComponents cv binMask quad minCcArea))
        (min topK (validComponents cv binMask quad minCcArea).length) with
    | nil =>
        rw [hslice] at hr
        cases hr
    | cons c0 rest =>
        obtain ⟨hpos, hneg⟩ := countP_voteOf_neg m heps (m.unit vObb) c0 rest
        simp only [hslice, m.unit_neg, hpos, hneg] at hr ⊢
        split at hr
        · -- Without a vote the two counts are 0.
          rename_i hnone
          cases hr
          cases hvotes
          exact absurd (by omega) hne
        · rename_i hsome
          cases hr
          cases hvotes
          rw [if_neg (by omega)]
          refine ⟨_, rfl, ?_⟩
          show flipHeading _ _ = flipHeading _ _
          rw [← flipHeading_opposite hlow hhigh]
          congr 1
          rw [Bool.eq_iff_iff]
          simp only [decide_eq_true_iff, Bool.not_eq_true', decide_eq_false_iff_not]
          omega

/-- Both corrections give the same heading from a direction and from the opposite
one, for every set of components: the first when its dot product is not 0, the second
when its vote counts differ and `dotEps` is positive. -/
theorem corrections_opposite (hlow : 0 ≤ headingDeg) (hhigh : headingDeg < 360) :
    (∀ (chooseSmall : String) (dot : K),
        ExtremeInfo.dot? (correctHeadingByCcExtreme m cv binMask quad vObb headingDeg minCcArea
          chooseSmall).info = some dot → dot ≠ 0 →
        (correctHeadingByCcExtreme m cv binMask quad (-vObb) (oppositeHeading headingDeg) minCcArea
            chooseSmall).headingCorrDeg
          = (correctHeadingByCcExtreme m cv binMask quad vObb headingDeg minCcArea
            chooseSmall).headingCorrDeg) ∧
      ∀ (topK : ℤ) (dotEps : K) (r : Correction K (VoteInfo K)) (votesPos votesNeg : ℕ),
        0 < dotEps →
        correctHeadingByCcTopkVote m cv binMask quad vObb headingDeg topK minCcArea dotEps
          = .ok r →
        VoteInfo.votes? r.info = some (votesPos, votesNeg) → votesPos ≠ votesNeg →
        ∃ r', correctHeadingByCcTopkVote m cv binMask quad (-vObb) (oppositeHeading headingDeg)
            topK minCcArea dotEps = .ok r' ∧ r'.headingCorrDeg = r.headingCorrDeg :=
  ⟨fun chooseSmall _ hdot hne =>
      extreme_opposite m cv binMask quad vObb minCcArea hlow hhigh chooseSmall hdot hne,
    fun topK _ _ _ _ heps hr hvotes hne =>
      vote_opposite m cv binMask quad vObb minCcArea hlow hhigh topK heps hr hvotes hne⟩

end

theorem exists_of_map_eq_ok {α β : Type} {x : PyM α} {f : α → β} {b : β}
    (h : x.map f = .ok b) : ∃ a, x = .ok a ∧ f a = b := by
  cases x with
  | error e => cases h
  | ok a => exact ⟨a, rfl, Except.ok.inj h⟩

/-- Two components: from the box direction and 90 degrees, and from the opposite
direction and 270 degrees, the first correction returns 270 and the vote 90. -/
theorem corrections_opposite_twoRegions :
    (correctHeadingByCcExtreme PyMath.rat twoRegions plainMask plainQuad (-(1, 0))
        (oppositeHeading 90) 5 "smallest").headingCorrDeg
      = (correctHeadingByCcExtreme PyMath.rat twoRegions plainMask plainQuad (1, 0) 90 5
        "smallest").headingCorrDeg ∧
      ∃ r', correctHeadingByCcTopkVote PyMath.rat twoRegions plainMask plainQuad (-(1, 0))
        (oppositeHeading 90) 8 5 (1 / 20) = .ok r' ∧ r'.headingCorrDeg = 90 := by
  have h := corrections_opposite PyMath.rat twoRegions plainMask plainQuad (1, 0) 5
    (show (0 : ℚ) ≤ 90 by norm_num) (show (90 : ℚ) < 360 by norm_num)
  have hdot : (ExtremeInfo.dot? (correctHeadingByCcExtreme PyMath.rat twoRegions plainMask
      plainQuad (1, 0) 90 5 "smallest").info).map (fun dot => decide (dot = 0))
        = some false := by decide +kernel
  obtain ⟨dot, hsome, hne⟩ := Option.map_eq_some_iff.mp hdot
  have hvotes : (correctHeadingByCcTopkVote PyMath.rat twoRegions plainMask plainQuad (1, 0) 90 8 5
      (1 / 20)).map (fun r => (VoteInfo.votes? r.info, r.headingCorrDeg))
        = .ok (some (1, 0), 90) := by decide +kernel
  obtain ⟨r, hr, heq⟩ := exists_of_map_eq_ok hvotes
  obtain ⟨hcount, hhead⟩ := Prod.mk.inj heq
  obtain ⟨r', hr', hsame⟩ := h.2 8 (1 / 20) r 1 0 (by norm_num) hr hcount (by decide)
  exact ⟨h.1 "smallest" dot hsome (of_decide_eq_false hne), r', hr', hsame.trans hhead⟩

/-- With `dot_eps = 0` a component that lies across the box votes for every direction: the vote
counts are 1 and 0 both times, so neither heading is turned, and they stay opposite. -/
theorem corrections_zeroEps :
    ∃ r r', correctHeadingByCcTopkVote PyMath.rat twoRegions plainMask plainQuad (0, 1) 90 8 5 0
        = .ok r ∧
      VoteInfo.votes? r.info = some (1, 0) ∧
      correctHeadingByCcTopkVote PyMath.rat twoRegions plainMask plainQuad (-(0, 1))
        (oppositeHeading 90) 8 5 0 = .ok r' ∧
      r'.headingCorrDeg ≠ r.headingCorrDeg := by
  have hvote : (correctHeadingByCcTopkVote PyMath.rat twoRegions plainMask plainQuad (0, 1) 90 8 5
      0).map (fun r => (VoteInfo.votes? r.info, r.headingCorrDeg)) = .ok (some (1, 0), 90) := by
    decide +kernel
  have hvote' : (correctHeadingByCcTopkVote PyMath.rat twoRegions plainMask plainQuad (-(0, 1))
      (oppositeHeading 90) 8 5 0).map (fun r => (VoteInfo.votes? r.info, r.headingCorrDeg))
        = .ok (some (1, 0), 270) := by decide +kernel
  obtain ⟨r, hr, heq⟩ := exists_of_map_eq_ok hvote
  obtain ⟨r', hr', heq'⟩ := exists_of_map_eq_ok hvote'
  obtain ⟨hcount, hhead⟩ := Prod.mk.inj heq
  obtain ⟨-, hhead'⟩ := Prod.mk.inj heq'
  refine ⟨r, r', hr, hcount, hr', ?_⟩
  rw [hhead, hhead']
  norm_num

end W2Net.Proofs.Wavelength
