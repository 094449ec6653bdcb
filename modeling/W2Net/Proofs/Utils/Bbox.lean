import Mathlib.Analysis.SpecialFunctions.Trigonometric.Basic
import W2Net.Lib.RotatedRect
import W2Net.Utils.Bbox

/-!
# `W2Net.Proofs.Utils.Bbox`: bringing the angle of a rectangle to `[-45, 45]`

A quarter turn with exchanged sides keeps the points of a rectangle (`points_add_ninety`), and a
quarter turn or an exchange alone does only for a square. `quad_2_rbox` and `constraint_theta`
do one of each in most of their branches. `quad2RboxRow_preserved_iff` and `constrained_iff` say
for one row when what comes out is the old rectangle, and `rectangles_preserved_iff` for all rows.
-/

set_option autoImplicit false

namespace W2Net.Proofs.Bbox

open W2Net.Bbox

/-! ### The points of a rectangle -/

/-- The points of a rectangle with an angle in degrees. -/
noncomputable def points (box : RowXywha ℝ) : Set (ℝ × ℝ) :=
  (fun p => (box.cx, box.cy) + p) ''
    solid (Real.cos (box.a / 180 * Real.pi)) (Real.sin (box.a / 180 * Real.pi)) (box.w / 2) (box.h / 2)

/-- A quarter turn with exchanged sides. -/
theorem points_add_ninety (cx cy w h a : ℝ) :
    points ⟨cx, cy, h, w, a + 90⟩ = points ⟨cx, cy, w, h, a⟩ := by
  have hangle : (a + 90) / 180 * Real.pi = a / 180 * Real.pi + Real.pi / 2 := by ring
  simp only [points]
  rw [hangle, Real.cos_add_pi_div_two, Real.sin_add_pi_div_two, solid_quarterTurn]

theorem points_sub_ninety (cx cy w h a : ℝ) :
    points ⟨cx, cy, h, w, a - 90⟩ = points ⟨cx, cy, w, h, a⟩ := by
  have hturn := points_add_ninety cx cy h w (a - 90)
  rw [sub_add_cancel] at hturn
  exact hturn.symm

/-- An exchange of the sides alone. -/
theorem points_exchange_iff {cx cy w h a : ℝ} (hw : 0 ≤ w) (hh : 0 ≤ h) :
    points ⟨cx, cy, h, w, a⟩ = points ⟨cx, cy, w, h, a⟩ ↔ w = h := by
  simp only [points]
  rw [(add_right_injective _).image_injective.eq_iff,
    solid_exchange_iff (Real.cos_sq_add_sin_sq _) (by linarith) (by linarith), div_left_inj' two_ne_zero]

/-- The same for the two angles of the tie. -/
theorem points_tie (cx cy w h : ℝ) : points ⟨cx, cy, h, w, 45⟩ = points ⟨cx, cy, w, h, -45⟩ := by
  have hninety := points_add_ninety cx cy w h (-45)
  norm_num at hninety
  exact hninety

/-- A quarter turn alone, from 45 to -45 degrees. -/
theorem points_neg_iff {cx cy w h : ℝ} (hw : 0 ≤ w) (hh : 0 ≤ h) :
    points ⟨cx, cy, w, h, -45⟩ = points ⟨cx, cy, w, h, 45⟩ ↔ w = h := by
  rw [← points_tie, points_exchange_iff hw hh]

/-- The same rectangle, with an angle in `[-45, 45]`. -/
structure Preserved (box out : RowXywha ℝ) : Prop where
  points : points out = points box
  angle_ge : -45 ≤ out.a
  angle_le : out.a ≤ 45

/-- A rectangle, by its centre, its sides and an angle in `[-90, 90]`. -/
structure Proper (box : RowXywha ℝ) : Prop where
  width : 0 ≤ box.w
  height : 0 ≤ box.h
  angle_ge : -90 ≤ box.a
  angle_le : box.a ≤ 90

/-! ### `quad_2_rbox` -/

/-- A rectangle of OpenCV as a row. -/
def ofRect (r : RotatedRect ℝ) : RowXywha ℝ := ⟨r.x, r.y, r.w, r.h, r.t⟩

/-- The row by the angle of the rectangle. -/
theorem quad2RboxRow_eq (cvb : Cv2Boxes ℝ) (quad : QuadRow ℝ) :
    let r := cvb.minAreaRect quad
    (-45 < r.t → r.t < 45 → quad2RboxRow cvb quad = ofRect r) ∧
      (r.t < -45 ∨ 45 < r.t → quad2RboxRow cvb quad = ⟨r.x, r.y, r.h, r.w, 90 + r.t⟩) ∧
      (r.t = -45 ∨ r.t = 45 → quad2RboxRow cvb quad
        = if r.h < r.w then ⟨r.x, r.y, r.w, r.h, -45⟩ else ⟨r.x, r.y, r.h, r.w, 45⟩) := by
  intro r
  unfold quad2RboxRow
  refine ⟨fun hlo hhi => ?_, fun hfar => ?_, fun htie => ?_⟩
  · rw [if_pos (abs_lt.mpr ⟨hlo, hhi⟩)]
    rfl
  · have habs : 45 < |r.t| := lt_abs.mpr (hfar.symm.imp id fun h => by linarith)
    rw [if_neg habs.le.not_gt, if_pos habs]
  · have habs : |r.t| = 45 := by
      rcases htie with h | h <;> rw [h] <;> norm_num
    rw [if_neg habs.not_lt, if_neg habs.not_gt]

/-- `quad_2_rbox` keeps the rectangle of OpenCV exactly for angles below 45 degrees, and for
squares at 45 degrees. -/
theorem quad2RboxRow_preserved_iff (cvb : Cv2Boxes ℝ) (quad : QuadRow ℝ)
    (hr : Proper (ofRect (cvb.minAreaRect quad))) :
    Preserved (ofRect (cvb.minAreaRect quad)) (quad2RboxRow cvb quad) ↔
      (cvb.minAreaRect quad).t < 45 ∨
        ((cvb.minAreaRect quad).t = 45 ∧ (cvb.minAreaRect quad).w = (cvb.minAreaRect quad).h) := by
  obtain ⟨hnear, hfar, htie⟩ := quad2RboxRow_eq cvb quad
  generalize cvb.minAreaRect quad = r at *
  have hw : 0 ≤ r.w := hr.width
  have hh : 0 ≤ r.h := hr.height
  have hlo : -90 ≤ r.t := hr.angle_ge
  rcases lt_trichotomy r.t 45 with hlt | heq | hgt
  · refine iff_of_true ?_ (Or.inl hlt)
    -- Below 45 degrees all three branches are right, those of the old convention.
    rcases lt_trichotomy r.t (-45) with hlt' | heq' | hgt'
    · rw [hfar (Or.inl hlt'), add_comm]
      exact ⟨points_add_ninety _ _ _ _ _, by linarith, by linarith⟩
    · rw [htie (Or.inl heq')]
      split
      · exact ⟨by rw [ofRect, heq'], le_refl _, by norm_num⟩
      · exact ⟨by rw [ofRect, heq', points_tie], by norm_num, le_refl _⟩
    · rw [hnear hgt' hlt]
      exact ⟨rfl, hgt'.le, hlt.le⟩
  · -- At 45 degrees only one of the two is done.
    rw [htie (Or.inr heq), ofRect, heq]
    have hiff : (45 : ℝ) < 45 ∨ ((45 : ℝ) = 45 ∧ r.w = r.h) ↔ r.w = r.h := by simp
    rw [hiff]
    split
    · rw [← points_neg_iff hw hh]
      exact ⟨Preserved.points, fun h => ⟨h, le_refl _, by norm_num⟩⟩
    · rw [← points_exchange_iff hw hh]
      exact ⟨Preserved.points, fun h => ⟨h, by norm_num, le_refl _⟩⟩
  · refine iff_of_false ?_ ?_
    · intro hpres
      -- The branch adds 90 to an angle above 45, which leaves the interval.
      have hangle := hpres.angle_le
      rw [hfar (Or.inr hgt)] at hangle
      exact absurd hangle (by simp only [not_le]; linarith)
    · rintro (hlt | ⟨heq, -⟩) <;> linarith

/-! ### `constraint_theta` -/

section
variable {cx cy w h a : ℝ}

theorem constraintRow_inside (hlo : -45 < a) (hhi : a < 45) :
    constraintRow ⟨cx, cy, w, h, a⟩ = ⟨cx, cy, w, h, a⟩ := by
  have habs : |a| ≠ 45 := (abs_lt.mpr ⟨hlo, hhi⟩).ne
  rw [constraintRow, if_neg hhi.not_gt, if_neg hlo.not_gt, if_neg habs]

theorem constraintRow_tie (htie : |a| = 45) :
    constraintRow ⟨cx, cy, w, h, a⟩
      = if h < w then ⟨cx, cy, w, h, -45⟩ else ⟨cx, cy, h, w, 45⟩ := by
  have hhi : ¬45 < a := ((le_abs_self a).trans htie.le).not_gt
  have hlo : ¬a < -45 := by linarith [neg_abs_le a]
  rw [constraintRow, if_neg hhi, if_neg hlo, if_pos htie]

/-- `constraint_theta` keeps a row, and is done after one time. -/
def Constrained (box : RowXywha ℝ) : Prop :=
  Preserved box (constraintRow box) ∧ constraintRow (constraintRow box) = constraintRow box

/-- Away from 45 and -45 degrees, an angle out of range is turned into the range. -/
theorem constrained_of_ne (hlo : -90 ≤ a) (hhi : a ≤ 90) (hne : |a| ≠ 45) :
    Constrained ⟨cx, cy, w, h, a⟩ := by
  have hne45 : a ≠ 45 := fun heq => hne (by rw [heq]; norm_num)
  have hne45' : a ≠ -45 := fun heq => hne (by rw [heq]; norm_num)
  rcases lt_or_gt_of_ne hne45 with hlt | hgt
  · rcases lt_or_gt_of_ne hne45' with hlt' | hgt'
    · have hrow : constraintRow ⟨cx, cy, w, h, a⟩ = ⟨cx, cy, h, w, a + 90⟩ := by
        rw [constraintRow, if_neg hlt.not_gt, if_pos hlt']
      rw [Constrained, hrow]
      refine ⟨⟨points_add_ninety _ _ _ _ _, ?_, ?_⟩, constraintRow_inside ?_ ?_⟩ <;> linarith
    · rw [Constrained, constraintRow_inside hgt' hlt]
      exact ⟨⟨rfl, hgt'.le, hlt.le⟩, constraintRow_inside hgt' hlt⟩
  · have hrow : constraintRow ⟨cx, cy, w, h, a⟩ = ⟨cx, cy, h, w, a - 90⟩ := by
      rw [constraintRow, if_pos hgt]
    rw [Constrained, hrow]
    refine ⟨⟨points_sub_ninety _ _ _ _ _, ?_, ?_⟩, constraintRow_inside ?_ ?_⟩ <;> linarith

/-- At 45 degrees, only a square is kept. -/
theorem constrained_tie_iff (hw : 0 ≤ w) (hh : 0 ≤ h) : Constrained ⟨cx, cy, w, h, 45⟩ ↔ w = h := by
  have htie : |(45 : ℝ)| = 45 := by norm_num
  rw [Constrained, constraintRow_tie htie]
  constructor
  · rintro ⟨hpres, -⟩
    split at hpres
    · exact (points_neg_iff hw hh).mp hpres.points
    · exact (points_exchange_iff hw hh).mp hpres.points
  · rintro rfl
    rw [if_neg (lt_irrefl w)]
    refine ⟨⟨rfl, by norm_num, le_refl _⟩, ?_⟩
    rw [constraintRow_tie htie, if_neg (lt_irrefl w)]

/-- At -45 degrees, a height above the width is exchanged again by a second call. -/
theorem constrained_neg_tie_iff : Constrained ⟨cx, cy, w, h, -45⟩ ↔ h ≤ w := by
  have htie : |(-45 : ℝ)| = 45 := by norm_num
  have htie' : |(45 : ℝ)| = 45 := by norm_num
  rw [Constrained, constraintRow_tie htie]
  by_cases hlt : h < w
  · rw [if_pos hlt, constraintRow_tie htie, if_pos hlt]
    exact iff_of_true ⟨⟨rfl, le_refl _, by norm_num⟩, rfl⟩ hlt.le
  · rw [if_neg hlt, constraintRow_tie htie']
    constructor
    · rintro ⟨-, hagain⟩
      by_contra hle
      rw [if_pos (not_le.mp hle), RowXywha.mk.injEq] at hagain
      norm_num at hagain
    · intro hle
      obtain rfl : w = h := le_antisymm (not_lt.mp hlt) hle
      rw [if_neg (lt_irrefl w)]
      exact ⟨⟨points_tie _ _ _ _, by norm_num, le_refl _⟩, rfl⟩

end

/-- `constraint_theta` keeps a rectangle, and is done after one time, exactly for angles other
than 45 and -45 degrees, for squares, and at -45 degrees for a width above the height. -/
theorem constrained_iff {box : RowXywha ℝ} (hb : Proper box) :
    Constrained box ↔ |box.a| ≠ 45 ∨ box.w = box.h ∨ (box.a = -45 ∧ box.h < box.w) := by
  obtain ⟨cx, cy, w, h, a⟩ := box
  by_cases htie : |a| = 45
  · rcases eq_or_eq_neg_of_abs_eq htie with rfl | rfl
    · rw [constrained_tie_iff hb.width hb.height]
      norm_num
    · rw [constrained_neg_tie_iff, le_iff_eq_or_lt, eq_comm]
      norm_num
  · exact iff_of_true (constrained_of_ne hb.angle_ge hb.angle_le htie) (Or.inl htie)

/-- `constraint_theta` returns the same rectangles, and itself returns what it returned. -/
def KeepsAll (boxes : BoxArray ℝ) : Prop :=
  Returns (constraintTheta boxes) fun out =>
    List.Forall₂ Preserved boxes.rows out.rows ∧ constraintTheta out = .ok out

/-- A numpy array. -/
def IsNdarray : BoxArray ℝ → Prop
  | .array2 _ => True
  | .array1 _ => True
  | .tensor2 _ => False
  | .tensor1 _ => False

/-- The rectangles that are kept. -/
def Kept (box : RowXywha ℝ) : Prop :=
  |box.a| ≠ 45 ∨ box.w = box.h ∨ (box.a = -45 ∧ box.h < box.w)

theorem Proper.bounds {box : RowXywha ℝ} (h : Proper box) : -90 ≤ box.a ∧ box.a ≤ 90 :=
  ⟨h.angle_ge, h.angle_le⟩

/-- The row that comes out is accepted again. -/
theorem Preserved.bounds {box out : RowXywha ℝ} (h : Preserved box out) : -90 ≤ out.a ∧ out.a ≤ 90 := by
  have hge := h.angle_ge
  have hle := h.angle_le
  constructor <;> linarith

/-- The assertion holds. -/
theorem constraintTheta_array2 {rows : List (RowXywha ℝ)}
    (h : ∀ box ∈ rows, -90 ≤ box.a ∧ box.a ≤ 90) :
    constraintTheta (.array2 rows) = .ok (.array2 (rows.map constraintRow)) := by
  refine if_pos ?_
  rw [List.all_eq_true]
  intro box hbox
  rw [Bool.and_eq_true, decide_eq_true_iff, decide_eq_true_iff]
  exact h box hbox

/-- One row is an array of one row. -/
theorem constraintTheta_array1 {row : RowXywha ℝ} (h : -90 ≤ row.a ∧ row.a ≤ 90) :
    constraintTheta (.array1 row) = .ok (.array1 (constraintRow row)) := by
  refine if_pos ?_
  show ((decide (-90 ≤ row.a) && decide (row.a ≤ 90)) && true) = true
  rw [Bool.and_true, Bool.and_eq_true, decide_eq_true_iff, decide_eq_true_iff]
  exact h

/-- On rows, one after the other. -/
theorem keepsAll_array2_iff {rows : List (RowXywha ℝ)} (h : ∀ box ∈ rows, Proper box) :
    KeepsAll (.array2 rows) ↔ ∀ box ∈ rows, Constrained box := by
  have hok := constraintTheta_array2 fun box hbox => (h box hbox).bounds
  -- The rows that come out satisfy the assertion again, so the second call returns.
  have hagain : (∀ box ∈ rows, Preserved box (constraintRow box)) →
      constraintTheta (.array2 (rows.map constraintRow))
        = .ok (.array2 ((rows.map constraintRow).map constraintRow)) := fun hpres =>
    constraintTheta_array2 (List.forall_mem_map.mpr fun box hbox => (hpres box hbox).bounds)
  constructor
  · rintro ⟨out, hout, hpres, hsame⟩ box hbox
    rw [hok] at hout
    cases hout
    have hall : ∀ box ∈ rows, Preserved box (constraintRow box) :=
      List.forall₂_same.mp (List.forall₂_map_right_iff.mp hpres)
    refine ⟨hall box hbox, ?_⟩
    rw [hagain hall, Except.ok.injEq, BoxArray.array2.injEq, List.map_map] at hsame
    exact List.map_inj_left.mp hsame box hbox
  · intro hall
    have hpres : ∀ box ∈ rows, Preserved box (constraintRow box) := fun box hbox => (hall box hbox).1
    refine ⟨_, hok, List.forall₂_map_right_iff.mpr (List.forall₂_same.mpr hpres), ?_⟩
    rw [hagain hpres, List.map_map]
    exact congrArg _ (congrArg _ (List.map_congr_left fun box hbox => (hall box hbox).2))

theorem keepsAll_array1_iff {row : RowXywha ℝ} (h : Proper row) :
    KeepsAll (.array1 row) ↔ Constrained row := by
  have hok := constraintTheta_array1 h.bounds
  constructor
  · rintro ⟨out, hout, hpres, hsame⟩
    rw [hok] at hout
    cases hout
    have hpres' := (List.forall₂_cons.mp hpres).1
    rw [constraintTheta_array1 hpres'.bounds, Except.ok.injEq, BoxArray.array1.injEq] at hsame
    exact ⟨hpres', hsame⟩
  · rintro ⟨hpres, hsame⟩
    refine ⟨_, hok, .cons hpres .nil, ?_⟩
    rw [constraintTheta_array1 hpres.bounds, hsame]

/-- For every argument of `constraint_theta`. -/
theorem keepsAll_iff {boxes : BoxArray ℝ} (h : ∀ box ∈ boxes.rows, Proper box) :
    KeepsAll boxes ↔ IsNdarray boxes ∧ ∀ box ∈ boxes.rows, Kept box := by
  have hkept : (∀ box ∈ boxes.rows, Constrained box) ↔ ∀ box ∈ boxes.rows, Kept box :=
    forall₂_congr fun box hbox => constrained_iff (h box hbox)
  cases boxes with
  | array2 rows =>
      have hall : KeepsAll (.array2 rows) ↔ ∀ box ∈ rows, Constrained box := keepsAll_array2_iff h
      rw [hall, ← hkept]
      exact ⟨fun hk => ⟨trivial, hk⟩, And.right⟩
  | array1 row =>
      rw [keepsAll_array1_iff (h row List.mem_cons_self), ← hkept]
      simp [IsNdarray, BoxArray.rows]
  | tensor2 rows =>
      refine iff_of_false ?_ fun hno => hno.1
      -- No value of `grad_fn` is `False`, and the assertion raises.
      rintro ⟨out, hout, -⟩
      cases hout
  | tensor1 row =>
      refine iff_of_false ?_ fun hno => hno.1
      rintro ⟨out, hout, -⟩
      cases hout

/-! ### Both functions -/

/-- For every rectangle of OpenCV and every argument of `constraint_theta`: the same rectangle
comes out, with its angle in `[-45, 45]`, exactly under these conditions. -/
theorem rectangles_preserved_iff (cvb : Cv2Boxes ℝ) (quad : QuadRow ℝ) (boxes : BoxArray ℝ)
    (hrect : Proper (ofRect (cvb.minAreaRect quad))) (hrows : ∀ box ∈ boxes.rows, Proper box) :
    (Preserved (ofRect (cvb.minAreaRect quad)) (quad2RboxRow cvb quad) ↔
        (cvb.minAreaRect quad).t < 45 ∨
          ((cvb.minAreaRect quad).t = 45 ∧ (cvb.minAreaRect quad).w = (cvb.minAreaRect quad).h)) ∧
      (KeepsAll boxes ↔ IsNdarray boxes ∧ ∀ box ∈ boxes.rows, Kept box) :=
  ⟨quad2RboxRow_preserved_iff cvb quad hrect, keepsAll_iff hrows⟩

/-- OpenCV, with one rectangle for every quadrilateral. -/
def constBoxes (r : RotatedRect ℝ) : Cv2Boxes ℝ := ⟨fun _ _ => 0, fun _ => r⟩

theorem proper_row {w h a : ℝ} (hw : 0 ≤ w) (hh : 0 ≤ h) (hlo : -90 ≤ a) (hhi : a ≤ 90) :
    Proper ⟨10, 10, w, h, a⟩ := ⟨hw, hh, hlo, hhi⟩

/-- A rectangle turned by 60 degrees gets the angle 150, and one turned by 45 degrees another
rectangle. -/
theorem turned_not_preserved :
    quad2RboxRow (constBoxes ⟨10, 10, 40, 20, 60⟩) 0 = ⟨10, 10, 20, 40, 150⟩ ∧
      ¬Preserved (ofRect ⟨10, 10, 40, 20, 60⟩)
        (quad2RboxRow (constBoxes ⟨10, 10, 40, 20, 60⟩) 0) ∧
      constraintTheta (.array1 ⟨10, 10, 40, 20, 45⟩)
        = .ok (.array1 (⟨10, 10, 40, 20, -45⟩ : RowXywha ℝ)) ∧
      ¬KeepsAll (.array1 ⟨10, 10, 40, 20, 45⟩) := by
  have hproper : Proper (⟨10, 10, 40, 20, 45⟩ : RowXywha ℝ) :=
    proper_row (by norm_num) (by norm_num) (by norm_num) (by norm_num)
  have hrow : quad2RboxRow (constBoxes ⟨10, 10, 40, 20, 60⟩) 0 = ⟨10, 10, 20, 40, 150⟩ := by
    -- The branch of the angles beyond 45.
    refine ((quad2RboxRow_eq (constBoxes ⟨10, 10, 40, 20, 60⟩) 0).2.1 (Or.inr ?_)).trans ?_
    · show (45 : ℝ) < 60
      norm_num
    · show (⟨10, 10, 20, 40, 90 + 60⟩ : RowXywha ℝ) = _
      norm_num
  refine ⟨hrow, fun hpres => ?_, ?_, ?_⟩
  · have hangle := hpres.angle_le
    rw [hrow] at hangle
    norm_num at hangle
  · rw [constraintTheta_array1 hproper.bounds, constraintRow_tie (by norm_num), if_pos (by norm_num)]
  · rw [keepsAll_array1_iff hproper, constrained_tie_iff (by norm_num) (by norm_num)]
    norm_num

/-- Rectangles turned by -60 and by 60 degrees. -/
theorem rectangles_preserved_iff_turned :
    Preserved (ofRect ⟨10, 10, 40, 20, -60⟩) (quad2RboxRow (constBoxes ⟨10, 10, 40, 20, -60⟩) 0) ∧
      KeepsAll (.array1 ⟨10, 10, 40, 20, 60⟩) := by
  have hrect : Proper (ofRect ((constBoxes ⟨10, 10, 40, 20, -60⟩).minAreaRect 0)) :=
    proper_row (by norm_num [constBoxes]) (by norm_num [constBoxes]) (by norm_num [constBoxes])
      (by norm_num [constBoxes])
  have hrows : ∀ box ∈ (BoxArray.array1 (⟨10, 10, 40, 20, 60⟩ : RowXywha ℝ)).rows, Proper box := by
    intro box hbox
    rw [List.mem_singleton.mp hbox]
    exact proper_row (by norm_num) (by norm_num) (by norm_num) (by norm_num)
  have h := rectangles_preserved_iff (constBoxes ⟨10, 10, 40, 20, -60⟩) 0
    (.array1 ⟨10, 10, 40, 20, 60⟩) hrect hrows
  refine ⟨h.1.mpr (Or.inl ?_), h.2.mpr ⟨trivial, fun box hbox => Or.inl ?_⟩⟩
  · norm_num [constBoxes]
  · rw [List.mem_singleton.mp hbox]
    norm_num

end W2Net.Proofs.Bbox
