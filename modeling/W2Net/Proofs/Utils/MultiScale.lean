import W2Net.Proofs.Utils.Detect

/-!
# `W2Net.Proofs.Utils.MultiScale`: the detections of several sizes

For two or more sizes `im_detect` is the greedy selection among the detections of all sizes,
along their scores (`imDetect_eq`). So it keeps the best detection of each object, whatever size
it comes from (`imDetect_merges`), and with different scores the result depends on the detections
only, not on the order of the sizes nor on sizes without a detection (`imDetect_congr`).
-/

set_option autoImplicit false

namespace W2Net.Proofs.MultiScale

open W2Net.Decoder W2Net.Detect
open W2Net.Letterbox (ResizeOps)
open W2Net.Nms (cpuNms scoreOrder)
open W2Net.Proofs.Nms
open W2Net.Proofs.Detect (scoreOrdered scoreOrdered_perm scoreOrdered_pairwise row_map_nmsRow
  sameSizeOps squareImage)

variable {K P : Type} [Field K] [LinearOrder K] [FloorRing K]

/-! ### The joined detections -/

/-- `ms_dets` for these detections. -/
def joined (all : List (Detection K)) : Option (List (Detection K)) :=
  if all = [] then none else some all

omit [Field K] [LinearOrder K] [FloorRing K] in
theorem addScale_joined (all clsDets : List (Detection K)) :
    addScale (joined all) clsDets = joined (all ++ clsDets) := by
  unfold addScale joined
  cases clsDets with
  | nil => simp
  | cons d clsDets =>
      cases all with
      | nil => rfl
      | cons e all => rfl

section
variable {ops : ResizeOps P} {model : Img P → PyM (List (Detection K))} {src : Img P}
  {found : K → List (Detection K)}

/-- The loop over the sizes joins what they find. -/
theorem foldlM_addScale (sizes : List K) (all : List (Detection K))
    (hfound : ∀ s ∈ sizes, singleScaleDetect ops model src s = .ok (found s)) :
    sizes.foldlM (fun msDets scale => do
      let clsDets ← singleScaleDetect ops model src scale
      .ok (addScale msDets clsDets)) (joined all) = .ok (joined (all ++ sizes.flatMap found)) := by
  induction sizes generalizing all with
  | nil =>
      rw [List.flatMap_nil, List.append_nil]
      rfl
  | cons s sizes ih =>
      rw [List.forall_mem_cons] at hfound
      rw [List.foldlM_cons, hfound.1, ok_bind, ok_bind, addScale_joined, ih _ hfound.2,
        List.flatMap_cons, List.append_assoc]

variable (argsort : Argsort K) (cv : Cv2 K)

/-- `ovr >= 0.1` for two detections. -/
def overlap (a b : Detection K) : Bool :=
  decide (1 / 10 ≤ Nms.ovr cv (nmsRow a) (nmsRow b))

/-- The suppression of a list of detections. -/
theorem nms_detections (ms : List (Detection K)) :
    (do let keep ← Nms.nms argsort cv (ms.map nmsRow) (1 / 10)
        keep.mapM (getOrIndexError ms))
      = .ok (greedyFilter (overlap cv) (scoreOrdered argsort ms)) := by
  have hov : Nms.overlaps cv (ms.map nmsRow) (1 / 10)
      = fun i j => overlap cv (ms.getD i noDetection) (ms.getD j noDetection) := by
    funext i j
    simp only [Nms.overlaps, row_map_nmsRow, overlap]
  rw [nms_sixColumns, ok_bind, mapM_eq_ok (g := fun i => ms.getD i noDetection),
    cpuNms_eq_greedyFilter, hov, scoreOrdered, map_greedyFilter]
  intro i hi
  have hlt := lt_length_of_mem_cpuNms _ _ _ _ hi
  rw [List.length_map] at hlt
  rw [getOrIndexError_eq_ok, List.getElem?_eq_getElem hlt, List.getD_eq_getElem _ _ hlt]

/-- For two or more sizes `im_detect` selects among the detections of all of them. -/
theorem imDetect_eq {sizes : List K} (hlength : 2 ≤ sizes.length)
    (hfound : ∀ s ∈ sizes, singleScaleDetect ops model src s = .ok (found s)) :
    imDetect argsort cv ops model src sizes
      = .ok (greedyFilter (overlap cv) (scoreOrdered argsort (sizes.flatMap found))) := by
  have hloop := foldlM_addScale sizes [] hfound
  rw [List.nil_append] at hloop
  have hdef : imDetect argsort cv ops model src sizes = (do
      let msDets ← sizes.foldlM (fun msDets scale => do
        let clsDets ← singleScaleDetect ops model src scale
        .ok (addScale msDets clsDets)) none
      suppressScales argsort cv msDets) := by
    rcases sizes with _ | ⟨s, _ | ⟨t, sizes⟩⟩
    · rfl
    · simp at hlength
    · rfl
  have hstart : (none : Option (List (Detection K))) = joined [] := rfl
  rw [hdef, hstart, hloop, ok_bind, joined]
  by_cases hnil : sizes.flatMap found = []
  · rw [if_pos hnil, hnil, (scoreOrdered_perm argsort []).eq_nil]
    rfl
  · rw [if_neg hnil]
    exact nms_detections argsort cv _

/-- `out` is what is left of the detections `all` of several sizes. -/
structure Merged (all out : List (Detection K)) : Prop where
  found : ∀ d ∈ out, d ∈ all
  scores : out.Pairwise fun a b => b.score ≤ a.score
  apart : out.Pairwise fun a b => Nms.ovr cv (nmsRow a) (nmsRow b) < 1 / 10
  /-- A detection that is not kept overlaps a kept one that is at least as good. -/
  covered : ∀ d ∈ all, d ∈ out ∨
    ∃ e ∈ out, d.score ≤ e.score ∧ 1 / 10 ≤ Nms.ovr cv (nmsRow e) (nmsRow d)

/-- The selection among the detections of all sizes keeps the best detection of each object. -/
theorem imDetect_merges {sizes : List K} (hlength : 2 ≤ sizes.length)
    (hfound : ∀ s ∈ sizes, singleScaleDetect ops model src s = .ok (found s)) :
    Returns (imDetect argsort cv ops model src sizes) (Merged cv (sizes.flatMap found)) := by
  rw [imDetect_eq argsort cv hlength hfound]
  have hperm := scoreOrdered_perm argsort (sizes.flatMap found)
  have hsort := scoreOrdered_pairwise argsort (sizes.flatMap found)
  refine Returns.ok
    { found := fun d hd => hperm.subset ((greedyFilter_sublist _ _).subset hd)
      scores := hsort.sublist (greedyFilter_sublist _ _)
      apart := ?_
      covered := ?_ }
  · refine (greedyFilter_pairwise _ _).imp ?_
    intro a b hno
    exact not_le.mp (of_decide_eq_false hno)
  · intro d hd
    obtain ⟨pre, post, hsplit⟩ := List.append_of_mem (hperm.symm.subset hd)
    rw [hsplit, List.pairwise_append] at hsort
    rw [hsplit]
    rcases mem_or_excluded (overlap cv) pre post d with hkept | ⟨e, he, hpre, hed⟩
    · exact .inl hkept
    · exact .inr ⟨e, he, hsort.2.2 e hpre d List.mem_cons_self, of_decide_eq_true hed⟩

omit [FloorRing K] in
/-- With different scores there is one order of the detections. -/
theorem scoreOrdered_eq_of_perm {all all' : List (Detection K)} (hperm : all.Perm all')
    (hdistinct : (all.map Detection.score).Nodup) :
    scoreOrdered argsort all = scoreOrdered argsort all' := by
  have hperm' := (scoreOrdered_perm argsort all).trans
    (hperm.trans (scoreOrdered_perm argsort all').symm)
  refine hperm'.eq_of_pairwise ?_ (scoreOrdered_pairwise argsort all)
    (scoreOrdered_pairwise argsort all')
  intro a b ha hb hba hab
  have ha' := (scoreOrdered_perm argsort all).subset ha
  have hb' := hperm.symm.subset ((scoreOrdered_perm argsort all').subset hb)
  exact List.inj_on_of_nodup_map hdistinct ha' hb' (le_antisymm hab hba)

/-- With different scores, two lists of sizes that find the same detections have the same result:
it depends neither on the order of the sizes, nor on sizes without a detection. -/
theorem imDetect_congr {sizes sizes' : List K} (hlength : 2 ≤ sizes.length)
    (hlength' : 2 ≤ sizes'.length)
    (hfound : ∀ s ∈ sizes, singleScaleDetect ops model src s = .ok (found s))
    (hfound' : ∀ s ∈ sizes', singleScaleDetect ops model src s = .ok (found s))
    (hperm : (sizes.flatMap found).Perm (sizes'.flatMap found))
    (hdistinct : ((sizes.flatMap found).map Detection.score).Nodup) :
    imDetect argsort cv ops model src sizes = imDetect argsort cv ops model src sizes' := by
  rw [imDetect_eq argsort cv hlength hfound, imDetect_eq argsort cv hlength' hfound',
    scoreOrdered_eq_of_perm argsort hperm hdistinct]

end

/-! ### Two sizes -/

/-- One detection in the image of each size, with its own score. -/
def scoreBySize (im : Img ℕ) : PyM (List (Detection ℚ)) :=
  .ok [⟨if im.H = 32 then 9 / 10 else 8 / 10, 1, ![0, 0, 8, 8, 0], none⟩]

/-- What a size finds on the image of 32 rows and columns. -/
def foundBySize (size : ℚ) : List (Detection ℚ) :=
  ((singleScaleDetect sameSizeOps scoreBySize squareImage size).toOption).getD []

theorem singleScaleDetect_foundBySize :
    ∀ s ∈ [(32 : ℚ), 64],
      singleScaleDetect sameSizeOps scoreBySize squareImage s = .ok (foundBySize s) := by
  have hreturns : ∀ s ∈ [(32 : ℚ), 64],
      (singleScaleDetect sameSizeOps scoreBySize squareImage s).toOption.isSome := by
    decide +kernel
  intro s hs
  have hs' := hreturns s hs
  unfold foundBySize
  cases h : singleScaleDetect sameSizeOps scoreBySize squareImage s with
  | error e =>
      rw [h] at hs'
      cases hs'
  | ok ds => rfl

theorem imDetect_merges_twoSizes :
    Returns (imDetect .stable Cv2.aligned sameSizeOps scoreBySize squareImage [32, 64])
      (Merged Cv2.aligned ([(32 : ℚ), 64].flatMap foundBySize)) :=
  imDetect_merges .stable Cv2.aligned le_rfl singleScaleDetect_foundBySize

theorem imDetect_congr_twoSizes :
    imDetect .stable Cv2.aligned sameSizeOps scoreBySize squareImage [(32 : ℚ), 64]
      = imDetect .stable Cv2.aligned sameSizeOps scoreBySize squareImage [64, 32] :=
  imDetect_congr .stable Cv2.aligned le_rfl le_rfl singleScaleDetect_foundBySize
    (fun s hs => singleScaleDetect_foundBySize s (List.mem_reverse.mpr hs))
    ((List.Perm.swap 64 32 []).flatMap_right _) (by decide +kernel)

end W2Net.Proofs.MultiScale
