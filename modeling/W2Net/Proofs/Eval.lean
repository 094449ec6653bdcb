import W2Net.Eval
import W2Net.Lib.Ranking
import W2Net.Proofs.Utils.Map.Curves

/-!
# `W2Net.Proofs.Eval`: the order in which detections are evaluated

`eval_mAP` sorts the detections of a class by their printed scores, and detections with the
same two decimals by the names of their files and their lines. `processed` is this order,
with the scores of the model.

* `classDetections_written`: the evaluation of the written files goes through the detections
  in this order.
* `dataEvaluate_congr`: the AP depends on the order, and not on the scores.
* `ranking`: when the order is the one of the model's scores, and what follows for the AP.
-/

set_option autoImplicit false

namespace W2Net.Proofs.Eval

open W2Net.Eval
open W2Net.Map
open W2Net.Proofs.Map (unitSquares)

variable {B K : Type}

/-! ### Printed scores -/

/-- A line with a printed score. -/
def printLine (print : K → K) (line : DrLine B K) : DrLine B K :=
  { line with confidence := print line.confidence }

/-- A file with printed scores. -/
def printFile (print : K → K) (file : TxtFile (DrLine B K)) : TxtFile (DrLine B K) :=
  ⟨file.stem, file.lines.map (printLine print)⟩

/-- A detection with a printed score. -/
def printDet (print : K → K) (d : Detection B K) : Detection B K :=
  { d with confidence := print d.confidence }

/-- The written files are those with the scores of the model, printed. -/
theorem writeFiles_print (returnClass : ℕ → PyM String) (print : K → K)
    (images : List (ImageDets B K)) :
    writeFiles returnClass print images
      = (writeFiles returnClass id images).map (List.map (printFile print)) := by
  have hline : ∀ d : ModelDet B K,
      writeLine returnClass print d = (writeLine returnClass id d).map (printLine print) := by
    intro d
    unfold writeLine
    cases returnClass d.cls with
    | error e => rfl
    | ok name => rfl
  refine mapM_map_result fun image => ?_
  unfold writeFile
  rw [mapM_map_result hline]
  cases image.dets.mapM (writeLine returnClass id) with
  | error e => rfl
  | ok lines => rfl

theorem foldl_overwrite_print (print : K → K) (files acc : List (TxtFile (DrLine B K))) :
    (files.map (printFile print)).foldl overwrite (acc.map (printFile print))
      = (files.foldl overwrite acc).map (printFile print) := by
  induction files generalizing acc with
  | nil => rfl
  | cons file files ih =>
      have hstep : overwrite (acc.map (printFile print)) (printFile print file)
          = (overwrite acc file).map (printFile print) := by
        rw [overwrite, overwrite, List.map_append, List.filter_map]
        rfl
      rw [List.map_cons, List.foldl_cons, hstep, ih, List.foldl_cons]

theorem onDisk_print (print : K → K) (files : List (TxtFile (DrLine B K))) :
    onDisk (files.map (printFile print)) = (onDisk files).map (printFile print) := by
  have hfold := foldl_overwrite_print print files []
  rw [List.map_nil] at hfold
  have hsort := List.map_insertionSort
    (fun f g : TxtFile (DrLine B K) => f.stem ++ ".txt" ≤ g.stem ++ ".txt")
    (fun f g : TxtFile (DrLine B K) => f.stem ++ ".txt" ≤ g.stem ++ ".txt")
    (printFile print) (files.foldl overwrite []) fun _ _ _ _ => Iff.rfl
  rw [onDisk, hfold, onDisk]
  exact hsort.symm

/-! ### The order of the detections -/

/-- The detections of a class as they are read. -/
def candidates (files : List (TxtFile (DrLine B K))) (className : String) : List (Detection B K) :=
  files.flatMap fun file =>
    (file.lines.filter fun line => line.className = className).map fun line =>
      ⟨line.confidence, fileId file.stem, line.bbox⟩

theorem candidates_print (print : K → K) (files : List (TxtFile (DrLine B K))) (className : String) :
    candidates (files.map (printFile print)) className
      = (candidates files className).map (printDet print) := by
  rw [candidates, List.flatMap_map, candidates, List.map_flatMap]
  refine List.flatMap_congr fun file _ => ?_
  rw [printFile, List.filter_map, List.map_map, List.map_map]
  rfl

section
variable [LinearOrder K]

/-- The detections of a class in the order of the evaluation, with the scores of the model. -/
def processed (print : K → K) (files : List (TxtFile (DrLine B K))) (className : String) :
    List (Detection B K) :=
  rankBy (fun d => print d.confidence) (candidates (onDisk files) className)

/-- The evaluation of the written files goes through the detections in this order. -/
theorem classDetections_written (print : K → K) (files : List (TxtFile (DrLine B K)))
    (className : String) :
    classDetections (onDisk (files.map (printFile print))) className
      = (processed print files className).map (printDet print) := by
  show rankBy Detection.confidence (candidates (onDisk (files.map (printFile print))) className) = _
  rw [onDisk_print, candidates_print, ← map_rankBy]
  rfl

end

/-! ### The AP depends on the order only -/

section
variable [Field K] [LinearOrder K] {overlap : B → B → PyM (K × K)} {thres : K}

/-- What the loop reads of a detection. -/
def place (d : Detection B K) : String × B := (d.fileId, d.bbox)

theorem assign_congr {d d' : Detection B K} (h : place d = place d') (className : String)
    (store : Store B) :
    assign overlap thres className store d = assign overlap thres className store d' := by
  obtain ⟨hid, hbox⟩ := Prod.mk.inj h
  rw [assign, assign, hid, hbox]

theorem assignAll_congr {ds ds' : List (Detection B K)} (h : ds.map place = ds'.map place)
    (className : String) (store : Store B) :
    assignAll overlap thres className store ds = assignAll overlap thres className store ds' := by
  induction ds generalizing ds' store with
  | nil =>
      rw [List.map_nil, eq_comm, List.map_eq_nil_iff] at h
      rw [h]
  | cons d ds ih =>
      cases ds' with
      | nil => cases h
      | cons d' ds' =>
          rw [List.map_cons, List.map_cons, List.cons.injEq] at h
          rw [assignAll, assignAll, assign_congr h.1]
          congr 1
          funext step
          rw [ih h.2]

/-- The AP of the results of `evalClasses`. -/
def apOf (r : ClassResult B K) : String × K := (r.className, vocAp r.curve.recalls r.curve.prec)

/-- The APs of the classes. -/
def apsOf (out : List (ClassResult B K) × Store B) : PyM (List (String × K)) :=
  .ok (out.1.map apOf)

/-- The AP of a class is put in front of those of the other classes. -/
theorem evalClasses_cons_bind (gt : GroundTruth B) (dets : String → List (Detection B K))
    (store : Store B) (c : String) (cs : List String) :
    evalClasses overlap thres gt dets store (c :: cs) >>= apsOf = (do
      let assigned ← assignAll overlap thres c store (dets c)
      let curve ← classCurve gt c assigned.1
      let aps ← evalClasses overlap thres gt dets assigned.2 cs >>= apsOf
      .ok ((c, vocAp curve.recalls curve.prec) :: aps)) := by
  simp only [evalClasses, bind_assoc, apsOf, ok_bind]
  rfl

theorem evalClasses_congr {gt : GroundTruth B} {dets dets' : String → List (Detection B K)}
    {cs : List String} (h : ∀ c ∈ cs, (dets c).map place = (dets' c).map place) (store : Store B) :
    evalClasses overlap thres gt dets store cs >>= apsOf
      = evalClasses overlap thres gt dets' store cs >>= apsOf := by
  induction cs generalizing store with
  | nil => rfl
  | cons c cs ih =>
      rw [List.forall_mem_cons] at h
      rw [evalClasses_cons_bind, evalClasses_cons_bind, assignAll_congr h.1]
      simp only [ih h.2]

omit [Field K] [LinearOrder K] in
theorem fileExists_print (print : K → K) (files : List (TxtFile (DrLine B K))) (id : String) :
    fileExists (files.map (printFile print)) id = fileExists files id := by
  rw [fileExists, fileExists, List.any_map]
  rfl

theorem evalAP_eq (gtFiles : List (TxtFile (GtLine B))) (drFiles : List (TxtFile (DrLine B K))) :
    evalAP overlap thres gtFiles drFiles = (do
      let gt ← loadGroundTruth gtFiles drFiles
      checkDetectionFiles gtFiles drFiles gt.gtClasses
      evalClasses overlap thres gt (classDetections drFiles) gt.store gt.gtClasses >>= apsOf) := by
  simp only [evalAP, evalCurves, bind_assoc, ok_bind]
  rfl

/-- Files with the same names, whose detections are gone through in the same order, have the
same AP. -/
theorem evalAP_print (gtFiles : List (TxtFile (GtLine B))) (print : K → K)
    (files : List (TxtFile (DrLine B K)))
    (h : ∀ c, processed print files c = processed id files c) :
    evalAP overlap thres gtFiles (onDisk (files.map (printFile print)))
      = evalAP overlap thres gtFiles (onDisk files) := by
  -- The confidences are printed differently, but the evaluation reads the places in their order
  -- only.
  have hplaces : ∀ c, (classDetections (onDisk (files.map (printFile print))) c).map place
      = (classDetections (onDisk files) c).map place := by
    intro c
    rw [classDetections_written, h, List.map_map]
    rfl
  have hload : loadGroundTruth gtFiles (onDisk (files.map (printFile print)))
      = loadGroundTruth gtFiles (onDisk files) := by
    rw [loadGroundTruth, loadGroundTruth, onDisk_print]
    simp only [fileExists_print]
  have hcheck : ∀ gtClasses, checkDetectionFiles gtFiles (onDisk (files.map (printFile print))) gtClasses
      = checkDetectionFiles gtFiles (onDisk files) gtClasses := by
    intro gtClasses
    rw [checkDetectionFiles, checkDetectionFiles, onDisk_print, List.all_map]
    rfl
  rw [evalAP_eq, evalAP_eq, hload]
  simp only [hcheck, evalClasses_congr fun c _ => hplaces c]

/-- The AP of the written files when printing keeps the order. -/
theorem dataEvaluate_congr (returnClass : ℕ → PyM String) (print : K → K)
    (gtFiles : List (TxtFile (GtLine B))) (images : List (ImageDets B K))
    {files : List (TxtFile (DrLine B K))} (hfiles : writeFiles returnClass id images = .ok files)
    (h : ∀ c, processed print files c = processed id files c) :
    dataEvaluate returnClass print overlap thres gtFiles images
      = dataEvaluate returnClass id overlap thres gtFiles images := by
  have hwritten : writeFiles returnClass print images = .ok (files.map (printFile print)) := by
    rw [writeFiles_print, hfiles]
    rfl
  rw [dataEvaluate, dataEvaluate, hwritten, hfiles, ok_bind, ok_bind]
  exact evalAP_print gtFiles print files h

end

/-! ### Two decimals -/

section
variable [Field K] [LinearOrder K] [IsStrictOrderedRing K] [FloorRing K]

theorem round2_mono {x y : K} (h : x ≤ y) : round2 x ≤ round2 y := by
  have hround : (pyRound (x * 100) : K) ≤ pyRound (y * 100) :=
    Int.cast_le.mpr (pyRound_mono (mul_le_mul_of_nonneg_right h (by norm_num)))
  exact div_le_div_of_nonneg_right hround (by norm_num)

/-- The detections of a class, by their printed scores: a higher printed score first, equal ones
as they stand in the files. -/
structure ByPrintedScore (files : List (TxtFile (DrLine B K))) (className : String)
    (order : List (Detection B K)) : Prop where
  perm : order.Perm (candidates (onDisk files) className)
  descending : order.Pairwise fun a b => round2 b.confidence ≤ round2 a.confidence
  stable : ∀ a b, [a, b].Sublist (candidates (onDisk files) className) →
    round2 a.confidence = round2 b.confidence → [a, b].Sublist order

/-- No detection stands in front of one with a strictly higher score and the same two
decimals. -/
def KeepsRanking (files : List (TxtFile (DrLine B K))) (className : String) : Prop :=
  (candidates (onDisk files) className).Pairwise fun a b =>
    a.confidence < b.confidence → round2 a.confidence ≠ round2 b.confidence

/-- The written detections are evaluated by their printed scores. That is the ranking of the model
when no lower score stands in front of a higher one with the same two decimals, and then the
AP is the one of the scores of the model. -/
theorem ranking (returnClass : ℕ → PyM String) (images : List (ImageDets B K))
    {files : List (TxtFile (DrLine B K))} (hfiles : writeFiles returnClass id images = .ok files)
    (overlap : B → B → PyM (K × K)) (thres : K) (gtFiles : List (TxtFile (GtLine B))) :
    (∃ written, writeFiles returnClass round2 images = .ok written ∧ ∀ c,
      classDetections (onDisk written) c = (processed round2 files c).map (printDet round2)) ∧
    (∀ c, ByPrintedScore files c (processed round2 files c)) ∧
    (∀ c, (processed round2 files c).Pairwise (fun a b => b.confidence ≤ a.confidence) ↔
      KeepsRanking files c) ∧
    ((∀ c, KeepsRanking files c) →
      dataEvaluate returnClass round2 overlap thres gtFiles images
        = dataEvaluate returnClass id overlap thres gtFiles images) := by
  have hmono : ∀ a b : Detection B K, a.confidence ≤ b.confidence →
      round2 a.confidence ≤ round2 b.confidence := fun _ _ h => round2_mono h
  -- A rounded score that differs is also ordered, since rounding is monotone.
  have hkeeps : ∀ c, KeepsRanking files c ↔
      Separates (fun d => round2 d.confidence) Detection.confidence (candidates (onDisk files) c) := by
    intro c
    refine ⟨fun h => h.imp fun {a b} hab hlt => ?_, fun h => h.imp fun {a b} hab hlt => (hab hlt).ne⟩
    exact lt_of_le_of_ne (round2_mono hlt.le) (hab hlt)
  refine ⟨?_, ?_, ?_, ?_⟩
  · refine ⟨files.map (printFile round2), ?_, classDetections_written round2 files⟩
    rw [writeFiles_print, hfiles]
    rfl
  · intro c
    exact ⟨rankBy_perm _ _, rankBy_pairwise _ _, fun a b hsub heq => rankBy_stable hsub heq.ge⟩
  · intro c
    rw [hkeeps]
    exact rankBy_ranks_iff hmono
  · intro h
    exact dataEvaluate_congr returnClass round2 gtFiles images hfiles fun c =>
      rankBy_eq_of_separates hmono ((hkeeps c).mp (h c))

end

/-! ### Two images -/

/-- `return_class` of the dataset with the class `wake`. -/
def wakeClass (cls : ℕ) : PyM String := getOrIndexError ["__background__", "wake"] cls

/-- One object in each image. -/
def twoObjects : List (TxtFile (GtLine ℚ)) := [⟨"a", [⟨"wake", 0, false⟩]⟩, ⟨"b", [⟨"wake", 0, false⟩]⟩]

/-- A miss on the first image, and a match on the second one, with these scores. -/
def missAndMatch (miss hit : ℚ) : List (ImageDets ℚ ℚ) :=
  [⟨"a", [⟨1, miss, 9⟩]⟩, ⟨"b", [⟨1, hit, 0⟩]⟩]

/-- The files with the scores of the model. -/
def filesOf (miss hit : ℚ) : List (TxtFile (DrLine ℚ ℚ)) :=
  [⟨"a", [⟨"wake", miss, 9⟩]⟩, ⟨"b", [⟨"wake", hit, 0⟩]⟩]

theorem writeFiles_missAndMatch (miss hit : ℚ) :
    writeFiles wakeClass id (missAndMatch miss hit) = .ok (filesOf miss hit) := rfl

/-- Both scores are printed as 0.91. The miss with the lower score is evaluated first, and the
AP is another one. -/
theorem ranking_not_preserved :
    ¬(processed round2 (filesOf (908 / 1000) (912 / 1000)) "wake").Pairwise
        (fun a b => b.confidence ≤ a.confidence) ∧
      dataEvaluate wakeClass round2 (skewiou unitSquares) (1 / 2) twoObjects
          (missAndMatch (908 / 1000) (912 / 1000))
        ≠ dataEvaluate wakeClass id (skewiou unitSquares) (1 / 2) twoObjects
          (missAndMatch (908 / 1000) (912 / 1000)) := by
  constructor <;> decide +kernel

/-- With the scores 0.90 and 0.91 the ranking and the AP are those of the model. -/
theorem ranking_missAndMatch :
    (processed round2 (filesOf (90 / 100) (91 / 100)) "wake").Pairwise
        (fun a b => b.confidence ≤ a.confidence) ∧
      dataEvaluate wakeClass round2 (skewiou unitSquares) (1 / 2) twoObjects
          (missAndMatch (90 / 100) (91 / 100))
        = dataEvaluate wakeClass id (skewiou unitSquares) (1 / 2) twoObjects
          (missAndMatch (90 / 100) (91 / 100)) := by
  obtain ⟨-, -, hrank, hap⟩ := ranking wakeClass (missAndMatch (90 / 100) (91 / 100))
    (writeFiles_missAndMatch _ _) (skewiou unitSquares) (1 / 2) twoObjects
  have hkeeps : ∀ c, KeepsRanking (filesOf (90 / 100) (91 / 100)) c := by
    intro c
    by_cases hc : c = "wake"
    · rw [hc, KeepsRanking]
      decide +kernel
    · -- There are no detections of another class.
      have hdisk : onDisk (filesOf (90 / 100) (91 / 100)) = filesOf (90 / 100) (91 / 100) := by
        simp [onDisk, filesOf, overwrite]
      have hnone : candidates (filesOf (90 / 100) (91 / 100)) c = [] := by
        simp [candidates, filesOf, Ne.symm hc]
      rw [KeepsRanking, hdisk, hnone]
      exact List.Pairwise.nil
  exact ⟨(hrank "wake").mpr (hkeeps "wake"), hap hkeeps⟩

end W2Net.Proofs.Eval
