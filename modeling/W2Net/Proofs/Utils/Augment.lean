import Mathlib.Tactic.NormNum
import W2Net.Datasets.HrscDataset

/-!
# `W2Net.Proofs.Utils.Augment`: the pipeline and its stages

The pipeline calls a drawn augmentation with four arguments and unpacks two
values. No augmentation fits: `HSV`, the flips and `Affine` return three values,
`Noise` and `Blur` take three arguments, and `Affine` passes an unknown keyword
to `random_affine`. `applyAug_eq` gives the exception of each one.

`call_ok_iff` is the exact condition for the pipeline to return the sample
transformed by the drawn augmentations, whatever these are meant to do: none of
them is drawn. With the default probability of 1 the list has to be empty
(`callOfList_cons`).
-/

set_option autoImplicit false

namespace W2Net.Proofs.Augment

open W2Net.Augment

section
variable {K P : Type} [Field K] [LinearOrder K] [FloorRing K] {mode : BoxMode}
  (m : PyMath K) (ops : ImageOps K P)

/-! ### One augmentation -/

/-- The exception that a drawn augmentation ends in. -/
def stageError (draws : Draws K) : Aug K → PyErr
  | .noise .. | .blur .. => .typeError
  | .affine _ _ _ _ p => if p ≤ draws.head then .valueError else .typeError
  | _ => .valueError

/-- `random_affine` has no parameter `return_M`. -/
theorem randomAffineSignature_bind :
    randomAffineSignature.bind 2 ["degree", "translate", "scale", "shear", "return_M"]
      = .error .typeError := by
  decide

/-- Three values do not unpack into two names. -/
theorem applyAug_of_triple {aug : Aug K} {s : Sample K P mode} {draws rest : Draws K}
    {img : Img P} {labels : List (LabelRow K mode)} {segMask : Option (SegMask K)}
    (hbind : aug.signature.bind 4 [] = .ok ())
    (hbody : aug.body m ops s draws = .ok (.triple img labels segMask, rest)) :
    applyAug m ops aug s draws = .error .valueError := by
  rw [applyAug, hbind, hbody]
  rfl

/-- An exception of the body is the exception of the stage. -/
theorem applyAug_of_error {aug : Aug K} {s : Sample K P mode} {draws : Draws K} {e : PyErr}
    (hbind : aug.signature.bind 4 [] = .ok ()) (hbody : aug.body m ops s draws = .error e) :
    applyAug m ops aug s draws = .error e := by
  rw [applyAug, hbind, hbody]
  rfl

/-- A drawn augmentation never gives the two values that the pipeline unpacks. -/
theorem applyAug_eq (aug : Aug K) (s : Sample K P mode) (draws : Draws K) :
    applyAug m ops aug s draws = .error (stageError draws aug) := by
  cases aug with
  | hsv saturation brightness p =>
      -- Three values, whether or not the colours change.
      by_cases hdraw : draws.head < p
      · exact applyAug_of_triple m ops rfl (congrArg Except.ok (if_pos hdraw))
      · exact applyAug_of_triple m ops rfl (congrArg Except.ok (if_neg hdraw))
  | horizontalFlip p =>
      by_cases hdraw : p ≤ draws.head
      · exact applyAug_of_triple m ops rfl (congrArg Except.ok (if_pos hdraw))
      · exact applyAug_of_triple m ops rfl (congrArg Except.ok (if_neg hdraw))
  | verticalFlip p =>
      by_cases hdraw : p ≤ draws.head
      · exact applyAug_of_triple m ops rfl (congrArg Except.ok (if_pos hdraw))
      · exact applyAug_of_triple m ops rfl (congrArg Except.ok (if_neg hdraw))
  | affine degree translate scale shear p =>
      by_cases hdraw : p ≤ draws.head
      · rw [stageError, if_pos hdraw]
        exact applyAug_of_triple m ops rfl (if_pos hdraw)
      · -- The keyword `return_M` is refused before anything is warped.
        rw [stageError, if_neg hdraw]
        refine applyAug_of_error m ops rfl ((if_neg hdraw).trans ?_)
        rw [randomAffineSignature_bind]
        rfl
  | noise intensity p => rfl
  | blur sigma p => rfl

/-! ### The pipeline -/

/-- The transformation that the pipeline stands for: each drawn augmentation
acts on image, labels and mask together. `effect` is what an augmentation is
meant to do. -/
def applyDrawn (effect : Aug K → Sample K P mode → Draws K → Sample K P mode × Draws K)
    (probs : Probs K) : List (Aug K) → ℕ → Sample K P mode → Draws K → Sample K P mode
  | [], _, s, _ => s
  | aug :: augs, i, s, draws =>
      match probs.get? i with
      | none => s
      | some prob =>
          if draws.head < prob then
            let r := effect aug s draws.tail
            applyDrawn effect probs augs (i + 1) r.1 r.2
          else applyDrawn effect probs augs (i + 1) s draws.tail

/-- No augmentation from index `i` on is drawn: each one has a probability, and
its draw is not below it. -/
def NoneDrawn (probs : Probs K) (n i : ℕ) (draws : Draws K) : Prop :=
  ∀ j < n, ∃ prob, probs.get? (i + j) = some prob ∧ prob ≤ draws.next j

omit [FloorRing K] in
theorem noneDrawn_succ (probs : Probs K) (n i : ℕ) (draws : Draws K) :
    NoneDrawn probs (n + 1) i draws ↔
      (∃ prob, probs.get? i = some prob ∧ prob ≤ draws.head) ∧
        NoneDrawn probs n (i + 1) draws.tail := by
  constructor
  · intro h
    refine ⟨h 0 (Nat.succ_pos n), fun j hj => ?_⟩
    have hnext := h (j + 1) (Nat.succ_lt_succ hj)
    rwa [← Nat.add_assoc, Nat.add_right_comm] at hnext
  · intro ⟨hhead, htail⟩ j hj
    cases j with
    | zero => exact hhead
    | succ j =>
        have hnext := htail j (Nat.lt_of_succ_lt_succ hj)
        rwa [Nat.add_right_comm, Nat.add_assoc] at hnext

/-- The loop returns the transformed sample exactly when nothing is drawn. -/
theorem callLoop_ok_iff
    (effect : Aug K → Sample K P mode → Draws K → Sample K P mode × Draws K) (probs : Probs K)
    (augs : List (Aug K)) :
    ∀ (i : ℕ) (s : Sample K P mode) (draws : Draws K),
      (∃ rest, callLoop m ops probs augs i s draws
          = .ok (applyDrawn effect probs augs i s draws, rest)) ↔
        NoneDrawn probs augs.length i draws := by
  induction augs with
  | nil =>
      intro i s draws
      refine ⟨fun _ j hj => absurd hj (Nat.not_lt_zero j), fun _ => ⟨draws, rfl⟩⟩
  | cons aug augs ih =>
      intro i s draws
      rw [List.length_cons, noneDrawn_succ, callLoop, applyDrawn]
      cases hprob : probs.get? i with
      | none => simp
      | some prob =>
          by_cases hdraw : draws.head < prob
          · -- A drawn augmentation ends the run.
            have hnot : ¬ prob ≤ draws.head := not_le.mpr hdraw
            simp [hdraw, hnot, applyAug_eq, bind, Except.bind]
          · have hle : prob ≤ draws.head := not_lt.mp hdraw
            simp only [if_neg hdraw]
            rw [ih (i + 1) s draws.tail]
            simp [hle]

/-- The pipeline returns the triple in which image, labels and mask are
transformed by the drawn augmentations exactly when no augmentation is drawn,
whatever the augmentations are meant to do. -/
theorem call_ok_iff
    (effect : Aug K → Sample K P mode → Draws K → Sample K P mode × Draws K)
    (t : Pipeline K mode) (s : Sample K P mode) (draws : Draws K) :
    (∃ rest, t.call m ops s draws
        = .ok (applyDrawn effect t.probs t.augmentations 0 s draws, rest)) ↔
      ∀ j < t.augmentations.length,
        ∃ prob, t.probs.get? j = some prob ∧ prob ≤ draws.next j := by
  rw [Pipeline.call, callLoop_ok_iff m ops effect t.probs t.augmentations 0 s draws]
  simp only [NoneDrawn, Nat.zero_add]

/-- With the default probability, the first augmentation of a list is always
drawn, and the call ends in its exception. -/
theorem callOfList_cons (aug : Aug K) (augs : List (Aug K)) (s : Sample K P mode)
    (draws : Draws K) :
    (Pipeline.ofList (aug :: augs)).call m ops s draws
      = .error (stageError draws.tail aug) := by
  show callLoop m ops (.number 1) (aug :: augs) 0 s draws = _
  rw [callLoop]
  simp only [Probs.get?, if_pos (show draws.head < 1 from draws.lt_one 0), applyAug_eq]
  rfl

end

/-! ### The pipeline of a dataset -/

/-- Image operations that do nothing. -/
def idleOps : ImageOps ℚ ℕ where
  hsvScale _ _ im := im
  gaussianBlur _ im := im
  gaussianNoise _ im := im
  warpAffine _ im := im
  warpMask _ im := im
  warpPointRows _ pts := .pointRows pts
  boxes := ⟨fun _ _ => 0, fun _ => ⟨0, 0, 0, 0, 0⟩⟩

/-- Draws of 1/2: every stage of the pipeline is drawn, and no augmentation
changes the sample. -/
def halfDraws : Draws ℚ := ⟨fun _ => 1 / 2, fun _ => by norm_num, fun _ => by norm_num⟩

/-- One black pixel without labels, and its mask. -/
def onePixelSample : Sample ℚ ℕ .xywha :=
  ⟨⟨1, 1, fun _ _ => 0⟩, [], some (.raster ⟨1, 1, fun _ _ => 1⟩)⟩

/-- The pipeline of `HRSCDataset` returns nothing: `HSV` gives three values. -/
theorem hrscPipeline_error :
    ¬ ∃ result, HrscDataset.transform.call PyMath.rat idleOps onePixelSample halfDraws
      = .ok result := by
  intro ⟨result, h⟩
  rw [HrscDataset.transform, callOfList_cons] at h
  cases h

end W2Net.Proofs.Augment
