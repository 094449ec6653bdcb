import Mathlib.Data.Fin.VecNotation
import W2Net.Proofs.Utils.Map.FileIds
import W2Net.Proofs.Utils.Map.VocAp

/-!
# `W2Net.Proofs.Utils.Map.MeanAP`: the divisors of `eval_mAP`

The counters are filled line by line. `Counted` is the invariant of this loop: the keys of
the class counter are the classes of the lines that are not difficult, and each of them has a
positive number of images. So the recall of a class in `gt_classes` and its miss rate are
never divided by 0 (`counters_pos`).

The mean is divided by the number of classes, which is 0 when every object is difficult.
`evalMAP_returns_iff` says that this is the only way to a `ZeroDivisionError`: with a counterpart
for each file, and names of classes that can be part of a file name, the evaluation returns
exactly when there is a line that is not difficult.
-/

set_option autoImplicit false

namespace W2Net.Proofs.Map

open W2Net.Map

/-! ### The counters -/

section
variable {B : Type}

/-- The class names of the lines that are not difficult. -/
def countedClasses (lines : List (GtLine B)) : List String :=
  (lines.filter fun line => !line.difficult).map GtLine.className

theorem countedClasses_append (lines lines' : List (GtLine B)) :
    countedClasses (lines ++ lines') = countedClasses lines ++ countedClasses lines' := by
  rw [countedClasses, List.filter_append, List.map_append]
  rfl

/-- The counters after the files with the counted classes `classes`. -/
structure Counted (classes : List String) (objects images : Counter String) : Prop where
  mem_keys : ∀ c, c ∈ objects.keys ↔ c ∈ classes
  mem_images : ∀ c, c ∈ classes → c ∈ images.keys
  images_pos : images.Positive

/-- One line. The classes seen in this file have their image counted. -/
theorem counted_scanLine {classes : List String} {st : FileScan B} (line : GtLine B)
    (h : Counted classes st.gtCounterPerClass st.counterImagesPerClass)
    (hseen : ∀ c ∈ st.alreadySeenClasses, c ∈ st.counterImagesPerClass.keys) :
    Counted (classes ++ countedClasses [line]) (scanLine st line).gtCounterPerClass
        (scanLine st line).counterImagesPerClass ∧
      ∀ c ∈ (scanLine st line).alreadySeenClasses,
        c ∈ (scanLine st line).counterImagesPerClass.keys := by
  unfold scanLine countedClasses
  cases hd : line.difficult with
  | true =>
      simp only [List.filter_cons, hd, Bool.not_true, Bool.false_eq_true, if_false, if_true,
        List.filter_nil, List.map_nil, List.append_nil]
      exact ⟨h, hseen⟩
  | false =>
      simp only [List.filter_cons, hd, Bool.not_false, if_true, Bool.false_eq_true, if_false,
        List.filter_nil, List.map_cons, List.map_nil]
      have hobjects : ∀ c, c ∈ (st.gtCounterPerClass.incr line.className).keys ↔
          c ∈ classes ++ [line.className] := by
        intro c
        rw [Counter.mem_keys_incr, h.mem_keys, List.mem_append, List.mem_singleton, or_comm]
      by_cases hmem : line.className ∈ st.alreadySeenClasses
      · -- Its image is counted already.
        rw [if_pos hmem, if_pos hmem]
        refine ⟨⟨hobjects, fun c hc => ?_, h.images_pos⟩, hseen⟩
        rcases List.mem_append.mp hc with hc | hc
        · exact h.mem_images c hc
        · rw [List.mem_singleton.mp hc]
          exact hseen _ hmem
      · rw [if_neg hmem, if_neg hmem]
        refine ⟨⟨hobjects, fun c hc => ?_, h.images_pos.incr _⟩, fun c hc => ?_⟩
        all_goals
          rw [Counter.mem_keys_incr]
          rw [List.mem_append, List.mem_singleton] at hc
        · exact hc.symm.imp_right (h.mem_images c)
        · exact hc.symm.imp_right (hseen c)

/-- All lines of a file. -/
theorem counted_foldl_scanLine {classes : List String} {st : FileScan B} (lines : List (GtLine B))
    (h : Counted classes st.gtCounterPerClass st.counterImagesPerClass)
    (hseen : ∀ c ∈ st.alreadySeenClasses, c ∈ st.counterImagesPerClass.keys) :
    Counted (classes ++ countedClasses lines) (lines.foldl scanLine st).gtCounterPerClass
      (lines.foldl scanLine st).counterImagesPerClass := by
  induction lines generalizing classes st with
  | nil => exact (List.append_nil classes).symm ▸ h
  | cons line lines ih =>
      obtain ⟨hline, hseen'⟩ := counted_scanLine line h hseen
      have hrest := ih hline hseen'
      rwa [List.append_assoc, ← countedClasses_append] at hrest

variable (ident : String → String)

/-- All files. -/
theorem counted_loadFilesBy (files : List (TxtFile (GtLine B))) :
    Counted (countedClasses (files.flatMap TxtFile.lines))
      (loadFilesBy ident files).gtCounterPerClass
      (loadFilesBy ident files).counterImagesPerClass := by
  -- Induction on the files, for counters that have already counted some classes.
  have hrun : ∀ (files : List (TxtFile (GtLine B))) (gt : GroundTruth B) (classes : List String),
      Counted classes gt.gtCounterPerClass gt.counterImagesPerClass →
      Counted (classes ++ countedClasses (files.flatMap TxtFile.lines))
        (files.foldl (loadFileBy ident) gt).gtCounterPerClass
        (files.foldl (loadFileBy ident) gt).counterImagesPerClass := by
    intro files
    induction files with
    | nil => exact fun gt classes h => (List.append_nil classes).symm ▸ h
    | cons file files ih =>
        intro gt classes h
        have hfile : Counted (classes ++ countedClasses file.lines)
            (loadFileBy ident gt file).gtCounterPerClass
            (loadFileBy ident gt file).counterImagesPerClass :=
          counted_foldl_scanLine file.lines h fun c hc => absurd hc List.not_mem_nil
        have hrest := ih (loadFileBy ident gt file) _ hfile
        rwa [List.append_assoc, ← countedClasses_append] at hrest
  have hempty : Counted [] ([] : Counter String) [] :=
    ⟨fun _ => Iff.rfl, fun c hc => absurd hc List.not_mem_nil, nofun⟩
  exact hrun files ⟨fun _ => none, [], []⟩ [] hempty

/-- The two counters of a class that is evaluated. -/
theorem counters_pos (files : List (TxtFile (GtLine B))) {c : String}
    (h : c ∈ (loadFilesBy ident files).gtClasses) :
    ∃ objects images,
      (loadFilesBy ident files).gtCounterPerClass.get? c = some objects ∧ 0 < objects ∧
      (loadFilesBy ident files).counterImagesPerClass.get? c = some images ∧ 0 < images := by
  obtain ⟨objects, hobjects, hpos⟩ := exists_counter (covered_loadFilesBy ident files) h
  have hcounted := counted_loadFilesBy ident files
  have hkeys := (hcounted.mem_keys c).mp ((List.mem_insertionSort _).mp h)
  obtain ⟨images, himages, hpos'⟩ :=
    hcounted.images_pos.get?_of_mem_keys (hcounted.mem_images c hkeys)
  exact ⟨objects, images, hobjects, hpos, himages, hpos'⟩

/-- The classes of the lines that are not difficult are evaluated. -/
theorem mem_gtClasses_iff (files : List (TxtFile (GtLine B))) (c : String) :
    c ∈ (loadFilesBy ident files).gtClasses ↔
      ∃ f ∈ files, ∃ line ∈ f.lines, line.difficult = false ∧ line.className = c := by
  unfold GroundTruth.gtClasses
  simp only [List.mem_insertionSort, (counted_loadFilesBy ident files).mem_keys, countedClasses,
    List.mem_map, List.mem_filter, List.mem_flatMap, Bool.not_eq_true']
  constructor
  · rintro ⟨line, ⟨⟨f, hf, hline⟩, hd⟩, hc⟩
    exact ⟨f, hf, line, hline, hd, hc⟩
  · rintro ⟨f, hf, line, hline, hd, hc⟩
    exact ⟨line, ⟨⟨f, hf, hline⟩, hd⟩, hc⟩

/-- There is a class to evaluate exactly when some line is not difficult. -/
theorem gtClasses_ne_nil_iff (files : List (TxtFile (GtLine B))) :
    (loadFilesBy ident files).gtClasses ≠ [] ↔
      ∃ f ∈ files, ∃ line ∈ f.lines, line.difficult = false := by
  rw [← List.length_pos_iff, List.length_pos_iff_exists_mem]
  simp only [mem_gtClasses_iff]
  constructor
  · rintro ⟨c, f, hf, line, hline, hd, -⟩
    exact ⟨f, hf, line, hline, hd⟩
  · rintro ⟨f, hf, line, hline, hd⟩
    exact ⟨line.className, f, hf, line, hline, hd, rfl⟩

end

/-! ### The miss rate -/

section
variable {K : Type} [Field K] [LinearOrder K] [IsStrictOrderedRing K] (np : NpLog K)

omit [Field K] [IsStrictOrderedRing K] in
/-- The last index below `r`, when the first entry is. -/
theorem lastIndexLe_returns {x : NpFloat K} (xs : List (NpFloat K)) {r : K}
    (h : leNumber r x = true) : Returns (lastIndexLe (x :: xs) r) fun j => j < xs.length + 1 := by
  have hmem : 0 ∈ (List.range (x :: xs).length).filter
      fun j => (x :: xs)[j]?.any (leNumber r) :=
    List.mem_filter.mpr ⟨List.mem_range.mpr (Nat.succ_pos _), h⟩
  have hlast := List.getLast?_eq_some_getLast (List.ne_nil_of_mem hmem)
  unfold lastIndexLe
  rw [hlast]
  refine Returns.ok ?_
  exact List.mem_range.mp (List.mem_filter.mp (List.getLast_mem (List.ne_nil_of_mem hmem))).1

/-- The miss rate is defined for every number of images: the first point, -1, lies below each
reference point. -/
theorem logAverageMissRate_returns {precision : List K} {fpCumsum : List ℕ}
    (h : fpCumsum.length = precision.length) (numImages : ℕ) :
    ∃ rate, logAverageMissRate np precision fpCumsum numImages = .ok rate := by
  unfold logAverageMissRate
  split
  · exact ⟨_, rfl⟩
  · have hpoint : ∀ refI ∈ List.ofFn np.logspace, ∃ r,
        missRateAt (.finite (-1) :: fpCumsum.map fun (fp : ℕ) => npDiv (fp : K) numImages)
          (1 :: precision.map fun p => 1 - p) refI = .ok r := by
      intro refI hrefI
      obtain ⟨i, rfl⟩ := List.mem_ofFn.mp hrefI
      have hneg : leNumber (np.logspace i) (.finite (-1)) = true := by
        have hpos := np.logspace_pos i
        exact decide_eq_true (by linarith)
      obtain ⟨j, hj, hlt⟩ := lastIndexLe_returns
        (fpCumsum.map fun (fp : ℕ) => npDiv (fp : K) numImages) hneg
      -- The list of the miss rates has an entry for each point.
      have hlt' : j < (1 :: precision.map fun p => 1 - p).length := by
        rw [List.length_cons, List.length_map, ← h]
        rwa [List.length_map] at hlt
      refine ⟨(1 :: precision.map fun p => 1 - p)[j], ?_⟩
      rw [missRateAt, hj, ok_bind, getOrIndexError_eq_ok]
      exact List.getElem?_eq_getElem hlt'
    obtain ⟨ref, href⟩ := exists_mapM hpoint
    simp only [href]
    exact ⟨_, rfl⟩

end

/-! ### The files of the detections -/

section
variable {B K : Type} {locate : String → Option String}
variable (detections : String → List (Detection B K)) {classes : List String}

/-- The detections are read when the file of every class is opened, and what is read for a class
was written for one. -/
theorem tempDetections_returns (h : ∀ c ∈ classes, (locate c).isSome = true) :
    Returns (tempDetections locate detections classes) fun temp =>
      ∀ c, ∀ d ∈ temp c, ∃ c', d ∈ detections c' := by
  have hdump : ∀ c ∈ classes,
      dumpDetections locate detections c = .ok ((locate c).getD "", detections c) := by
    intro c hc
    obtain ⟨drFile, hdr⟩ := Option.isSome_iff_exists.mp (h c hc)
    rw [dumpDetections, hdr]
    rfl
  rw [tempDetections, mapM_eq_ok hdump, ok_bind]
  refine Returns.ok fun c d hd => ?_
  cases hfind : (classes.map fun c => ((locate c).getD "", detections c)).reverse.find?
      fun file => some file.1 = locate c with
  | none =>
      rw [hfind] at hd
      exact absurd hd List.not_mem_nil
  | some file =>
      rw [hfind] at hd
      have hfile := List.mem_reverse.mp (List.mem_of_find?_eq_some hfind)
      obtain ⟨c', -, rfl⟩ := List.mem_map.mp hfile
      exact ⟨c', hd⟩

/-- When the file of a class cannot be opened, `open` raises. -/
theorem tempDetections_fileNotFound (h : ∃ c ∈ classes, locate c = none) :
    tempDetections locate detections classes = .error .fileNotFoundError := by
  have hdump : classes.mapM (dumpDetections locate detections) = .error .fileNotFoundError := by
    induction classes with
    | nil =>
        obtain ⟨c, hc, -⟩ := h
        exact absurd hc List.not_mem_nil
    | cons c classes ih =>
        rw [List.mapM_cons, dumpDetections]
        cases hdr : locate c with
        | none => rfl
        | some drFile =>
            obtain ⟨c', hc', hnone⟩ := h
            rcases List.mem_cons.mp hc' with rfl | hc'
            · rw [hdr] at hnone
              cases hnone
            · rw [ok_bind, ih ⟨c', hc', hnone⟩]
              rfl
  rw [tempDetections, hdump]
  rfl

end

/-! ### The mean -/

section
variable {B K : Type} [Field K] [LinearOrder K] [IsStrictOrderedRing K]
variable (np : NpLog K) {overlap : B → B → PyM (K × K)} {thres : K}

/-- The loop sums the APs of the classes that `evalClasses` evaluates, as long as their plots are
saved. -/
theorem sumAPLoop_eq (ident : String → String) (gtFiles : List (TxtFile (GtLine B)))
    {detections : String → List (Detection B K)} {classes : List String}
    (hclasses : ∀ c ∈ classes, c ∈ (loadFilesBy ident gtFiles).gtClasses)
    (plotted : String → Bool) (sumAP : K) {store after : Store B} {results : List (ClassResult B K)}
    (h : evalClasses overlap thres (loadFilesBy ident gtFiles) detections store classes
      = .ok (results, after)) :
    sumAPLoop np overlap thres plotted (loadFilesBy ident gtFiles) detections sumAP store classes
      = if classes.all plotted then
          .ok (sumAP + (results.map fun r => vocAp r.curve.recalls r.curve.prec).sum)
        else .error .fileNotFoundError := by
  induction classes generalizing sumAP store results with
  | nil =>
      cases h
      rw [List.map_nil, List.sum_nil, add_zero]
      rfl
  | cons c classes ih =>
      obtain ⟨assigned, hassigned, h⟩ := bind_eq_ok h
      obtain ⟨curve, hcurve, h⟩ := bind_eq_ok h
      obtain ⟨out, hout, h⟩ := bind_eq_ok h
      cases h
      obtain ⟨objects, images, hobjects, hpos, himages, -⟩ :=
        counters_pos ident gtFiles (hclasses c List.mem_cons_self)
      -- The miss rate is computed for every class, and it has to return for the loop to go on.
      have hlength : curve.fp.length = curve.recalls.length := by
        rw [classCurve_eq hobjects hpos, Except.ok.injEq] at hcurve
        rw [← hcurve, length_cumsum, List.length_map, List.length_map, length_cumsum, List.length_map]
      obtain ⟨rate, hrate⟩ := logAverageMissRate_returns np hlength images
      rw [sumAPLoop, hassigned, ok_bind, hcurve, ok_bind]
      simp only [himages]
      rw [hrate, ok_bind, List.all_cons]
      cases plotted c with
      | false => rfl
      | true =>
          rw [if_pos rfl, ih (fun c' hc' => hclasses c' (List.mem_cons_of_mem c hc')) _ hout,
            List.map_cons, List.sum_cons, add_assoc, Bool.true_and]

/-- Some object is not difficult. -/
def HasObject (gtFiles : List (TxtFile (GtLine B))) : Prop :=
  ∃ f ∈ gtFiles, ∃ line ∈ f.lines, line.difficult = false

/-- The files for the class of an object that is not difficult can be written. -/
def Writable (names : ClassFiles) (gtFiles : List (TxtFile (GtLine B))) : Prop :=
  ∀ f ∈ gtFiles, ∀ line ∈ f.lines, line.difficult = false →
    (names.drFile line.className).isSome = true ∧ names.plotted line.className = true

/-- The directories that the evaluation does not stop at: there is a ground-truth file, and every
file has its counterpart. -/
structure Paired (rootDir : Text) (gtDir : TxtDir (GtLine B)) (drDir : TxtDir (DrLine B K)) :
    Prop where
  nonempty : gtDir.files ≠ []
  detections : ∀ f ∈ gtDir.files, drDir.has (idIn (gtPath rootDir) f.stem) = true
  groundTruths : ∀ f ∈ drDir.files, gtDir.has (idIn (drPath rootDir) f.stem) = true

variable {rootDir : Text} {names : ClassFiles} {gtDir : TxtDir (GtLine B)}
variable {drDir : TxtDir (DrLine B K)}

omit [Field K] [LinearOrder K] [IsStrictOrderedRing K] in
theorem writable_iff (ident : String → String) (gtFiles : List (TxtFile (GtLine B))) :
    Writable names gtFiles ↔ ∀ c ∈ (loadFilesBy ident gtFiles).gtClasses,
      (names.drFile c).isSome = true ∧ names.plotted c = true := by
  simp only [mem_gtClasses_iff]
  constructor
  · rintro h c ⟨f, hf, line, hline, hd, rfl⟩
    exact h f hf line hline hd
  · intro h f hf line hline hd
    exact h line.className ⟨f, hf, line, hline, hd, rfl⟩

/-- What is loaded from the ground-truth directory. -/
abbrev loadDir (rootDir : Text) (gtDir : TxtDir (GtLine B)) : GroundTruth B :=
  loadFilesBy (idIn (gtPath rootDir)) gtDir.files

omit [Field K] [IsStrictOrderedRing K] in
/-- Every detection of paired directories has the objects of a ground-truth file. -/
theorem store_ne_none_of_dirs (hpaired : Paired rootDir gtDir drDir) {c : String}
    {d : Detection B K} (hd : d ∈ classDetectionsBy (idIn (drPath rootDir)) drDir.files c) :
    (loadDir rootDir gtDir).store d.fileId ≠ none := by
  obtain ⟨f, hf, hid⟩ := exists_file_of_mem hd
  obtain ⟨g, hg, hgid⟩ := exists_idIn_eq hpaired.nonempty (drDir.visible_of_mem f hf)
    (hpaired.groundTruths f hf)
  rw [hid, ← hgid]
  exact loadFilesBy_store_ne_none _ gtDir.files g hg

variable (overlap thres) in
omit [IsStrictOrderedRing K] in
/-- Behind the first check, with a class to evaluate. -/
theorem evalMAP_checked (hne : gtDir.files ≠ [])
    (hall : ∀ f ∈ gtDir.files, drDir.has (idIn (gtPath rootDir) f.stem) = true)
    (hobject : HasObject gtDir.files) :
    evalMAP np overlap thres rootDir names gtDir drDir =
      if drDir.files.all fun f => gtDir.has (idIn (drPath rootDir) f.stem) then do
        let detections ← tempDetections names.drFile
          (classDetectionsBy (idIn (drPath rootDir)) drDir.files) (loadDir rootDir gtDir).gtClasses
        let sumAP ← sumAPLoop np overlap thres names.plotted (loadDir rootDir gtDir) detections 0
          (loadDir rootDir gtDir).store (loadDir rootDir gtDir).gtClasses
        pyDiv sumAP (loadDir rootDir gtDir).gtClasses.length
      else .error .systemExit := by
  have hclasses := (gtClasses_ne_nil_iff (idIn (gtPath rootDir)) gtDir.files).mpr hobject
  rw [← List.isEmpty_eq_false_iff] at hne hclasses
  simp only [evalMAP, hne, List.all_eq_true.mpr hall, hclasses]
  cases drDir.files.all fun f => gtDir.has (idIn (drPath rootDir) f.stem) with
  | false => rfl
  | true => rfl

omit [IsStrictOrderedRing K] in
/-- Without an object, the sum of no AP is divided by 0. -/
theorem evalMAP_zeroDivision (hne : gtDir.files ≠ [])
    (hall : ∀ f ∈ gtDir.files, drDir.has (idIn (gtPath rootDir) f.stem) = true)
    (hobject : ¬ HasObject gtDir.files) :
    evalMAP np overlap thres rootDir names gtDir drDir = .error .zeroDivisionError := by
  have hclasses : (loadDir rootDir gtDir).gtClasses = [] := by
    by_contra h
    exact hobject ((gtClasses_ne_nil_iff _ _).mp h)
  rw [← List.isEmpty_eq_false_iff] at hne
  simp only [evalMAP, hne, List.all_eq_true.mpr hall, hclasses]
  exact if_pos Nat.cast_zero

omit [IsStrictOrderedRing K] in
/-- Without a ground-truth file, or without a detection file for one of them, the program stops. -/
theorem evalMAP_systemExit (h : ¬ (gtDir.files ≠ [] ∧
      ∀ f ∈ gtDir.files, drDir.has (idIn (gtPath rootDir) f.stem) = true)) :
    evalMAP np overlap thres rootDir names gtDir drDir = .error .systemExit := by
  cases hempty : gtDir.files.isEmpty with
  | true => simp only [evalMAP, hempty, if_true]
  | false =>
      have hall : (gtDir.files.all fun f => drDir.has (idIn (gtPath rootDir) f.stem)) = false := by
        rw [← Bool.not_eq_true]
        exact fun hall => h ⟨List.isEmpty_eq_false_iff.mp hempty, List.all_eq_true.mp hall⟩
      simp only [evalMAP, hempty, hall]
      rfl

omit [IsStrictOrderedRing K] in
/-- With a class to evaluate, the program also stops without a ground-truth file for one of the
detection files. -/
theorem evalMAP_unpaired (hne : gtDir.files ≠ [])
    (hall : ∀ f ∈ gtDir.files, drDir.has (idIn (gtPath rootDir) f.stem) = true)
    (hobject : HasObject gtDir.files)
    (h : ¬ ∀ f ∈ drDir.files, gtDir.has (idIn (drPath rootDir) f.stem) = true) :
    evalMAP np overlap thres rootDir names gtDir drDir = .error .systemExit := by
  rw [evalMAP_checked np overlap thres hne hall hobject]
  exact if_neg fun hall' => h (List.all_eq_true.mp hall')

variable (overlap thres names) in
/-- With paired directories and an object, the evaluation returns the mean of the APs if it can
write its files. -/
theorem evalMAP_paired (hthres : -1 < thres) (hoverlap : ∀ a b, ∃ v, overlap a b = .ok v)
    (hpaired : Paired rootDir gtDir drDir) (hobject : HasObject gtDir.files) :
    (Writable names gtDir.files →
      ∃ v, evalMAP np overlap thres rootDir names gtDir drDir = .ok v) ∧
    (¬ Writable names gtDir.files →
      evalMAP np overlap thres rootDir names gtDir drDir = .error .fileNotFoundError) := by
  have hgt := covered_loadFilesBy (idIn (gtPath rootDir)) gtDir.files
  have hclasses := (gtClasses_ne_nil_iff (idIn (gtPath rootDir)) gtDir.files).mpr hobject
  rw [evalMAP_checked np overlap thres hpaired.nonempty hpaired.detections hobject,
    if_pos (List.all_eq_true.mpr hpaired.groundTruths), writable_iff (idIn (gtPath rootDir))]
  by_cases hdr : ∀ c ∈ (loadDir rootDir gtDir).gtClasses,
      (names.drFile c).isSome = true
  · obtain ⟨detections, hdetections, hmem⟩ := tempDetections_returns
      (classDetectionsBy (idIn (drPath rootDir)) drDir.files) hdr
    have hfiles : ∀ c ∈ (loadDir rootDir gtDir).gtClasses, ∀ d ∈ detections c,
        (loadDir rootDir gtDir).store d.fileId ≠ none := by
      intro c _ d hd
      obtain ⟨c', hc'⟩ := hmem c d hd
      exact store_ne_none_of_dirs hpaired hc'
    obtain ⟨⟨results, after⟩, hout⟩ :=
      exists_evalClasses hgt hthres hoverlap (fun _ h => h) hfiles []
    rw [hgt.markUsed_nil] at hout
    have hsum := sumAPLoop_eq np (idIn (gtPath rootDir)) gtDir.files (fun _ h => h) names.plotted 0
      hout
    constructor
    · intro hnames
      rw [if_pos (List.all_eq_true.mpr fun c hc => (hnames c hc).2)] at hsum
      -- The mean is taken over the classes, and there is one.
      have hlength : ((loadDir rootDir gtDir).gtClasses.length : K) ≠ 0 :=
        Nat.cast_ne_zero.mpr (List.length_pos_iff.mpr hclasses).ne'
      refine ⟨(0 + (results.map fun r => vocAp r.curve.recalls r.curve.prec).sum) /
        (loadDir rootDir gtDir).gtClasses.length, ?_⟩
      rw [hdetections, ok_bind, hsum, ok_bind]
      exact if_neg hlength
    · intro hnames
      have hplots : ¬ (loadDir rootDir gtDir).gtClasses.all
          names.plotted = true :=
        fun hall => hnames fun c hc => ⟨hdr c hc, List.all_eq_true.mp hall c hc⟩
      rw [if_neg hplots] at hsum
      rw [hdetections, ok_bind, hsum]
      rfl
  · constructor
    · exact fun hnames => absurd (fun c hc => (hnames c hc).1) hdr
    · intro _
      push Not at hdr
      obtain ⟨c, hc, hnone⟩ := hdr
      rw [tempDetections_fileNotFound _ ⟨c, hc, Option.not_isSome_iff_eq_none.mp hnone⟩]
      rfl

end

/-! ### A directory without an object -/

/-- The functions over the rationals, for concrete runs: `exp` and `log` are exact at 0 and 1,
and the points are rounded to four digits. -/
def ratLog : NpLog ℚ where
  exp x := 1 + x
  log x := x - 1
  logspace := ![1 / 100, 178 / 10000, 316 / 10000, 562 / 10000, 1 / 10, 1778 / 10000, 3162 / 10000,
    5623 / 10000, 1]
  logspace_pos := by decide +kernel

/-- Class names without a slash. -/
def plainNames : ClassFiles where
  drFile := some
  plotted _ := true

/-- A directory with the file `a.txt` alone. -/
def onlyA {L : Type} (lines : List L) : TxtDir L where
  files := [⟨"a", lines⟩]
  hidden := []
  visible_of_mem := by
    intro f hf
    rw [List.mem_singleton.mp hf]
    have ha : Visible "a" := ⟨by decide, by decide, by decide⟩
    exact ha
  not_visible := nofun

/-- Four detections, and one difficult object only. -/
def drDirA : TxtDir (DrLine ℚ ℚ) := onlyA (fourDetections.flatMap TxtFile.lines)

def difficultDir : TxtDir (GtLine ℚ) := onlyA [⟨"wake", 5, true⟩]

theorem onlyA_has {L : Type} (lines : List L) : (onlyA lines).has "a" = true := by
  simp [TxtDir.has, fileExists, onlyA]

theorem paired_onlyA (gtLines : List (GtLine ℚ)) :
    Paired "datasets/evaluate".toList (onlyA gtLines) drDirA where
  nonempty := List.cons_ne_nil _ _
  detections := by
    intro f hf
    have hid : idIn (gtPath "datasets/evaluate".toList) "a" = "a" := by decide +kernel
    rw [List.mem_singleton.mp hf, hid]
    exact onlyA_has _
  groundTruths := by
    intro f hf
    have hid : idIn (drPath "datasets/evaluate".toList) "a" = "a" := by decide +kernel
    rw [List.mem_singleton.mp hf, hid]
    exact onlyA_has _

end W2Net.Proofs.Map
