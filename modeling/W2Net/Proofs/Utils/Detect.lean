import Mathlib.Data.Fintype.Basic
import Mathlib.Data.List.GetD
import Mathlib.Tactic.FinCases
import W2Net.Proofs.Utils.Nms
import W2Net.Proofs.Utils.Rescale
import W2Net.Utils.Detect

/-!
# `W2Net.Proofs.Utils.Detect`: background predictions and the suppression

The decoder thresholds and suppresses by the highest class score, whichever
class has it, and `single_scale_detect` drops the detections of class 0
afterwards. On detections the decoder is the greedy selection along the score
order (`decoder_eq`). So the question whether the background could be deleted
first is whether the filter may be applied before the selection
(`greedyFilter_filter_iff`).

`detect_dropBackground_iff` is the answer: exactly when each foreground candidate
that a kept candidate overlaps is also overlapped by a kept foreground one.
-/

set_option autoImplicit false

namespace W2Net.Proofs.Detect

open W2Net.Decoder W2Net.Detect
open W2Net.Letterbox (ResizeOps)
open W2Net.Nms (scoreOrder row cpuNms)
open W2Net.Proofs.Nms

variable {K : Type} [Field K] [LinearOrder K]

/-! ### The order of the candidates -/

/-- The candidates in the order in which `cpu_nms` visits them. -/
def scoreOrdered (argsort : Argsort K) (ds : List (Detection K)) : List (Detection K) :=
  (scoreOrder argsort (ds.map nmsRow)).map fun i => ds.getD i noDetection

omit [LinearOrder K] in
theorem nmsRow_noDetection : nmsRow (noDetection : Detection K) = 0 := by
  funext j
  fin_cases j <;> rfl

omit [LinearOrder K] in
/-- The row of a candidate. -/
theorem row_map_nmsRow (ds : List (Detection K)) (i : ℕ) :
    row (ds.map nmsRow) i = nmsRow (ds.getD i noDetection) := by
  rw [row, ← nmsRow_noDetection, List.getD_map]

omit [LinearOrder K] in
theorem map_getD_range (ds : List (Detection K)) :
    (List.range ds.length).map (fun i => ds.getD i noDetection) = ds := by
  apply List.ext_getElem
  · simp
  · intro i hi hi'
    simp [hi']

theorem scoreOrdered_perm (argsort : Argsort K) (ds : List (Detection K)) :
    (scoreOrdered argsort ds).Perm ds := by
  have hperm := (scoreOrder_perm argsort (ds.map nmsRow)).map fun i => ds.getD i noDetection
  rw [List.length_map, map_getD_range] at hperm
  exact hperm

theorem scoreOrdered_pairwise (argsort : Argsort K) (ds : List (Detection K)) :
    (scoreOrdered argsort ds).Pairwise fun a b => b.score ≤ a.score := by
  rw [scoreOrdered, List.pairwise_map]
  refine (scoreOrder_pairwise argsort (ds.map nmsRow)).imp fun {i j} hle => ?_
  rw [row_map_nmsRow, row_map_nmsRow] at hle
  exact hle

/-- The detection is not background. -/
def isForeground (d : Detection K) : Bool := decide (0 < d.cls)

/-- Deleting the background candidates does not change the order of the others. -/
def KeepsOrder (argsort : Argsort K) (ds : List (Detection K)) : Prop :=
  scoreOrdered argsort (ds.filter isForeground)
    = (scoreOrdered argsort ds).filter isForeground

/-- Different scores leave one order only. -/
theorem keepsOrder_of_nodup (argsort : Argsort K) {ds : List (Detection K)}
    (h : (ds.map Detection.score).Nodup) : KeepsOrder argsort ds := by
  have hperm := (scoreOrdered_perm argsort (ds.filter isForeground)).trans
    ((scoreOrdered_perm argsort ds).filter isForeground).symm
  refine List.Perm.eq_of_pairwise (fun a b ha hb hab hba => ?_)
    (scoreOrdered_pairwise argsort (ds.filter isForeground))
    ((scoreOrdered_pairwise argsort ds).sublist List.filter_sublist) hperm
  have ha' := (List.mem_filter.mp ((scoreOrdered_perm argsort _).mem_iff.mp ha)).1
  have hb' := (scoreOrdered_perm argsort _).mem_iff.mp (List.mem_filter.mp hb).1
  exact List.inj_on_of_nodup_map h ha' hb' (le_antisymm hba hab)

/-! ### The decoder on detections -/

section
variable [FloorRing K] (cfg : Config K) {classes : ℕ} [NeZero classes] (h w : ℕ)
  (preds : List (Prediction K classes)) (thresh nmsThresh : K) (testConf : Option K)

/-- The candidates that reach the threshold. -/
def keptCandidates : List (Detection K) :=
  (preds.map (candidate cfg h w)).filter fun d => decide (testConf.getD thresh ≤ d.score)

/-- `ovr >= nms_thresh` for two detections. -/
def conflict (a b : Detection K) : Bool :=
  decide (nmsThresh ≤ Nms.ovr cfg.cv (nmsRow a) (nmsRow b))

/-- The decoder selects greedily along the score order. -/
theorem decoder_eq :
    decoder cfg h w preds thresh nmsThresh testConf
      = .ok (if (keptCandidates cfg h w preds thresh testConf).isEmpty then [noDetection]
          else greedyFilter (conflict cfg nmsThresh)
            (scoreOrdered cfg.argsort (keptCandidates cfg h w preds thresh testConf))) := by
  show (if (keptCandidates cfg h w preds thresh testConf).isEmpty then _ else _) = _
  generalize hkept : keptCandidates cfg h w preds thresh testConf = kept
  have hdef : (preds.map (candidate cfg h w)).filter
      (fun d => decide (testConf.getD thresh ≤ d.score)) = kept := hkept
  rw [hdef]
  split
  · rfl
  · have hidx := cpuNms_eq_greedyFilter cfg.argsort cfg.cv (kept.map nmsRow) nmsThresh
    have hov : Nms.overlaps cfg.cv (kept.map nmsRow) nmsThresh
        = fun i j => conflict cfg nmsThresh (kept.getD i noDetection) (kept.getD j noDetection) := by
      funext i j
      simp only [Nms.overlaps, row_map_nmsRow, conflict]
    rw [nms_sixColumns]
    show (cpuNms cfg.argsort cfg.cv (kept.map nmsRow) nmsThresh).mapM (getOrIndexError kept) = _
    rw [mapM_eq_ok (g := fun i => kept.getD i noDetection), hidx, hov, scoreOrdered,
      map_greedyFilter]
    -- The selected indices are inside of the list.
    intro i hi
    have hlt := lt_length_of_mem_cpuNms _ _ _ _ hi
    rw [List.length_map] at hlt
    rw [getOrIndexError_eq_ok, List.getElem?_eq_getElem hlt, List.getD_eq_getElem _ _ hlt]

/-- The anchors whose highest-scoring class is the background, left out. -/
def dropBackground : List (Prediction K classes) :=
  preds.filter fun p => decide (argmax p.clsScore ≠ 0)

omit [FloorRing K] in
theorem keptCandidates_dropBackground :
    keptCandidates cfg h w (dropBackground preds) thresh testConf
      = (keptCandidates cfg h w preds thresh testConf).filter isForeground := by
  have hfg : (fun p : Prediction K classes => decide (argmax p.clsScore ≠ 0))
      = isForeground ∘ candidate cfg h w := by
    funext p
    simp only [Function.comp, isForeground, candidate, Nat.pos_iff_ne_zero, ne_eq,
      Fin.val_eq_zero_iff]
  rw [keptCandidates, dropBackground, hfg, ← List.filter_map, keptCandidates, List.filter_filter,
    List.filter_filter]
  congr 1
  funext d
  rw [Bool.and_comm]

/-- The detections of a decoder run, with the class filter. -/
theorem filter_decoder :
    (decoder cfg h w preds thresh nmsThresh testConf).map (List.filter isForeground)
      = .ok ((greedyFilter (conflict cfg nmsThresh)
          (scoreOrdered cfg.argsort (keptCandidates cfg h w preds thresh testConf))).filter
            isForeground) := by
  rw [decoder_eq]
  split
  · rename_i hempty
    have hnil : scoreOrdered cfg.argsort (keptCandidates cfg h w preds thresh testConf) = [] := by
      rw [← List.length_eq_zero_iff, (scoreOrdered_perm _ _).length_eq]
      simpa using hempty
    rw [hnil]
    rfl
  · rfl

end

/-! ### The detections on the original image -/

omit [LinearOrder K] in
theorem entry_ne_zero {s : ImScale K} (hx : s.x ≠ 0) (hy : s.y ≠ 0) (j : ℕ) : s.entry j ≠ 0 := by
  unfold ImScale.entry
  split
  · exact hx
  · exact hy

omit [LinearOrder K] in
theorem divFirst4_injective {s : ImScale K} (hx : s.x ≠ 0) (hy : s.y ≠ 0) {n : ℕ} :
    Function.Injective (s.divFirst4 (n := n)) := by
  intro row row' heq
  funext j
  have hj := congrFun heq j
  simp only [ImScale.divFirst4] at hj
  split at hj
  · exact (div_left_inj' (entry_ne_zero hx hy j)).mp hj
  · exact hj

omit [LinearOrder K] in
theorem unscale_injective {s : ImScale K} (hx : s.x ≠ 0) (hy : s.y ≠ 0) :
    Function.Injective (unscale s) := by
  rintro ⟨score, cls, box, anchor⟩ ⟨score', cls', box', anchor'⟩ heq
  simp only [unscale, Detection.mk.injEq] at heq ⊢
  obtain ⟨hscore, hcls, hbox, hanchor⟩ := heq
  exact ⟨hscore, hcls, divFirst4_injective hx hy hbox,
    Option.map_injective (divFirst4_injective hx hy) hanchor⟩

omit [LinearOrder K] in
/-- The class filter does not look at the boxes. -/
theorem selectDetections_eq (s : ImScale K) (dets : List (Detection K)) :
    selectDetections s dets = (dets.filter isForeground).map (unscale s) := by
  rw [selectDetections, List.filter_map]
  rfl

section
variable [FloorRing K] {P : Type} {ops : ResizeOps P} {src im : Img P} {targetSize : K}
  {imScales : ImScale K}

theorem singleScaleDetect_eq {model : Img P → PyM (List (Detection K))}
    (hres : Rescale.rescale ops src targetSize 2000 true = .ok (im, imScales))
    {dets : List (Detection K)} (hdets : (model im).map (List.filter isForeground) = .ok dets) :
    singleScaleDetect ops model src targetSize = .ok (dets.map (unscale imScales)) := by
  cases hmodel : model im with
  | error e =>
      rw [hmodel] at hdets
      cases hdets
  | ok out =>
      rw [hmodel] at hdets
      cases hdets
      have hrun : singleScaleDetect ops model src targetSize
          = Except.ok (selectDetections imScales out) := by
        show (Rescale.rescale ops src targetSize 2000 true >>= _) = _
        rw [hres]
        show (model im >>= _) = _
        rw [hmodel]
        rfl
      rw [hrun, selectDetections_eq]

/-- The detections are those of the decoder without the background anchors exactly
when every foreground candidate that a kept one overlaps is also overlapped by a
kept foreground one. -/
theorem detect_dropBackground_iff [IsStrictOrderedRing K] (cfg : Config K) {classes : ℕ}
    [NeZero classes] (preds : List (Prediction K classes)) (thresh nmsThresh : K)
    (testConf : Option K)
    (hres : Rescale.rescale ops src targetSize 2000 true = .ok (im, imScales))
    (horder : KeepsOrder cfg.argsort (keptCandidates cfg im.H im.W preds thresh testConf)) :
    singleScaleDetect ops (fun im => decoder cfg im.H im.W preds thresh nmsThresh testConf) src
        targetSize
      = singleScaleDetect ops
          (fun im => decoder cfg im.H im.W (dropBackground preds) thresh nmsThresh testConf) src
          targetSize ↔
      Covered (conflict cfg nmsThresh) isForeground
        (scoreOrdered cfg.argsort (keptCandidates cfg im.H im.W preds thresh testConf)) := by
  obtain ⟨w, h, -, hspec⟩ := Proofs.Rescale.rescale_spec hres
  have hpos := hspec.pos
  -- Both sides become lists before `unscale`, which is injective.
  rw [singleScaleDetect_eq hres (filter_decoder cfg im.H im.W preds thresh nmsThresh testConf),
    singleScaleDetect_eq hres
      (filter_decoder cfg im.H im.W (dropBackground preds) thresh nmsThresh testConf),
    keptCandidates_dropBackground, horder, Except.ok.injEq,
    (List.map_injective_iff.mpr (unscale_injective hpos.1.ne' hpos.2.ne')).eq_iff]
  -- Without the background candidates the last filter has nothing to do.
  have hfg : (greedyFilter (conflict cfg nmsThresh) ((scoreOrdered cfg.argsort
      (keptCandidates cfg im.H im.W preds thresh testConf)).filter isForeground)).filter isForeground
      = greedyFilter (conflict cfg nmsThresh) ((scoreOrdered cfg.argsort
      (keptCandidates cfg im.H im.W preds thresh testConf)).filter isForeground) := by
    rw [List.filter_eq_self]
    intro d hd
    exact (List.mem_filter.mp ((greedyFilter_sublist _ _).subset hd)).2
  rw [hfg]
  exact greedyFilter_filter_iff _ _ _

end

/-! ### Two anchors -/

/-- An image of 32 rows and columns, which `rescale` keeps for the size 32. -/
def squareImage : Img ℕ := ⟨32, 32, fun _ _ => 0⟩

/-- Resizing to the same size keeps the pixels. -/
def sameSizeOps : ResizeOps ℕ := ⟨fun im w h => ⟨h, w, im.px⟩, fun im w h => ⟨h, w, im.px⟩⟩

theorem rescale_squareImage :
    Rescale.rescale sameSizeOps squareImage (32 : ℚ) 2000 true = .ok (squareImage, ⟨1, 1⟩) := by
  have hratio : Rescale.ratio 32 32 (32 : ℚ) 2000 = .ok 1 := by decide +kernel
  have hscale : (Rescale.flooredSize 32 (1 : ℚ) : ℚ) / (32 : ℕ) = 1 := by decide +kernel
  have hround : pyRound (((32 : ℕ) : ℚ) * 1) = 32 := by decide +kernel
  have hres : Rescale.resize sameSizeOps squareImage 32 32 = .ok squareImage := rfl
  simp only [squareImage] at hres
  simp only [Rescale.rescale, squareImage, ↓reduceIte, hratio, ok_bind, hscale, hround, hres]

def ratConfig : Config ℚ := ⟨.init, .rat, .stable, .aligned⟩

/-- Two anchors in one place. The background has the highest score of the first
one, class 1 that of the second one. -/
def twoAnchors : List (Prediction ℚ 2) :=
  [⟨![4, 4, 24, 24, 0], ![9 / 10, 1 / 10], 0⟩, ⟨![4, 4, 24, 24, 0], ![1 / 10, 8 / 10], 0⟩]

/-- The background prediction removes the detection of class 1. -/
theorem background_removes_detection :
    (singleScaleDetect sameSizeOps
        (fun im => decoder ratConfig im.H im.W twoAnchors (2 / 5) (3 / 10) none)
        squareImage 32).map List.length = .ok 0 ∧
      (singleScaleDetect sameSizeOps
        (fun im => decoder ratConfig im.H im.W (dropBackground twoAnchors) (2 / 5) (3 / 10) none)
        squareImage 32).map List.length = .ok 1 := by
  decide +kernel

/-- The comparison for the same two anchors. -/
theorem detect_dropBackground_iff_twoAnchors :
    singleScaleDetect sameSizeOps
        (fun im => decoder ratConfig im.H im.W twoAnchors (2 / 5) (3 / 10) none) squareImage 32
      = singleScaleDetect sameSizeOps
          (fun im => decoder ratConfig im.H im.W (dropBackground twoAnchors) (2 / 5) (3 / 10) none)
          squareImage 32 ↔
      Covered (conflict ratConfig (3 / 10)) isForeground
        (scoreOrdered ratConfig.argsort
          (keptCandidates ratConfig squareImage.H squareImage.W twoAnchors (2 / 5) none)) :=
  detect_dropBackground_iff ratConfig twoAnchors (2 / 5) (3 / 10) none rescale_squareImage
    (keepsOrder_of_nodup _ (by decide +kernel))

end W2Net.Proofs.Detect
