import W2Net.Proofs.Utils.Map.MeanAP
import W2Net.Utils.MapReport

/-!
# `W2Net.Proofs.Utils.Map.Report`: the counts in `output.txt`

`eval_mAP` counts the detections twice: the loop over the classes marks each one as a true
positive, as a false positive, or as neither when its best match is difficult, and the report
counts the lines of the detection files again. `CountsSound` says how the two fit together
(`evalCounts_sound`). The false positives of the report are those of the precision and the
detections of difficult objects, so the report counts as errors what the AP leaves out.

`evalClasses_requests` is the invariant of the loop over the classes: the marks of each class
are those of `settleAll` on the requests of its detections, and the ground-truth counter bounds
its true positives.
-/

set_option autoImplicit false

namespace W2Net.Proofs.Map

open W2Net.Map

section
variable {B K : Type} [Field K] [LinearOrder K]

/-! ### Detections of difficult objects -/

section
variable (overlap : B → B → PyM (K × K)) (thres : K) (className : String)

/-- The best match of a detection reaches the minimum overlap and is difficult. -/
def OnDifficult (store : Store B) (detection : Detection B K) : Prop :=
  ∃ p obj, IsMatch overlap thres className store detection p obj ∧ obj.difficult = true

variable {overlap thres className}

theorem request_eq_skip_iff {store : Store B} {detection : Detection B K} :
    request overlap thres className store detection = .ok .skip ↔
      OnDifficult overlap thres className store detection := by
  constructor
  · intro h
    obtain ⟨p, obj, hr, -⟩ | hr | ⟨-, hmatch⟩ := request_cases h
    · cases hr
    · cases hr
    · exact hmatch
  · rintro ⟨p, obj, ⟨-, objs, ov, hobjs, hbest, hthres⟩, hdifficult⟩
    unfold request
    simp only [hobjs, hbest]
    show (if thres ≤ ov then _ else _) = _
    rw [if_pos hthres]
    exact if_pos hdifficult

instance (store : Store B) (detection : Detection B K) :
    Decidable (OnDifficult overlap thres className store detection) :=
  decidable_of_iff _ request_eq_skip_iff

/-- The skipped requests are those of the detections on difficult objects. -/
theorem countP_skip {store : Store B} {detections : List (Detection B K)}
    {rs : List (Request (String × ℕ))}
    (h : detections.mapM (request overlap thres className store) = .ok rs) :
    rs.countP (fun r => r = .skip)
      = detections.countP fun d => OnDifficult overlap thres className store d := by
  have hall := forall₂_of_mapM_eq_ok h
  clear h
  induction hall with
  | nil => rfl
  | @cons d r ds rs hr _ ih =>
      have hiff : r = .skip ↔ OnDifficult overlap thres className store d := by
        rw [← request_eq_skip_iff, hr, Except.ok.injEq]
      simp only [List.countP_cons, ih, hiff]

end

/-! ### The loop over the classes -/

variable (overlap : B → B → PyM (K × K)) (thres : K)

/-- What the loop leaves for a class: its marks are those of the requests of its detections, and
the counter of its objects bounds the true positives. -/
structure ClassRun (gt : GroundTruth B) (detections : String → List (Detection B K))
    (r : ClassResult B K) : Prop where
  detections : r.detections = detections r.className
  tp_le_one : ∀ m ∈ r.marks, m.tp ≤ 1
  tp_le : (r.marks.map Marks.tp).sum ≤ gt.gtCounterPerClass.count r.className
  total : (r.marks.map Marks.tp).sum + (r.marks.map Marks.fp).sum
    + r.detections.countP (fun d => OnDifficult overlap thres r.className gt.store d)
      = r.detections.length

variable {overlap thres}

/-- The classes are evaluated in order, each with the marks of its requests. -/
theorem evalClasses_requests {gt : GroundTruth B} (hgt : Covered gt)
    {detections : String → List (Detection B K)} {classes : List String}
    {taken : List (String × ℕ)} {results : List (ClassResult B K)} {after : Store B}
    (h : evalClasses overlap thres gt detections (markUsed gt.store taken) classes =
      .ok (results, after)) :
    results.map ClassResult.className = classes ∧
      ∀ r ∈ results, ClassRun overlap thres gt detections r := by
  induction classes generalizing taken results with
  | nil =>
      cases h
      exact ⟨rfl, nofun⟩
  | cons c classes ih =>
      rw [evalClasses] at h
      obtain ⟨⟨marks, store⟩, hassign, h⟩ := bind_eq_ok h
      obtain ⟨curve, -, h⟩ := bind_eq_ok h
      obtain ⟨⟨results', after'⟩, hrest, h⟩ := bind_eq_ok h
      cases h
      obtain ⟨hsound, hstore, hplaces⟩ := assignAll_sound hassign
      rw [hstore] at hrest
      obtain ⟨hclasses, hruns⟩ := ih hrest
      refine ⟨congrArg (c :: ·) hclasses, ?_⟩
      intro r hr
      rcases List.mem_cons.mp hr with rfl | hr
      · rw [assignAll_markUsed] at hassign
        cases hrs : (detections c).mapM (request overlap thres c gt.store) with
        | error e =>
            rw [hrs] at hassign
            cases hassign
        | ok rs =>
            rw [hrs] at hassign
            cases hassign
            exact
              { detections := rfl
                tp_le_one := fun m hm => settleAll_tp_le_one hm
                tp_le := by
                  rw [← hsound.total]
                  exact hgt.cover c _ hsound.once fun p hp => (hplaces p hp).2
                total := by
                  have hlength := (forall₂_of_mapM_eq_ok hrs).length_eq
                  show _ + _ + (detections c).countP _ = (detections c).length
                  rw [← countP_skip hrs, sum_settleAll, hlength] }
      · exact hruns r hr

/-! ### The counters -/

omit [Field K] [LinearOrder K] in
/-- The entry of a class behind its loop. -/
theorem get?_countClass {r : ClassResult B K} (h : ∀ m ∈ r.marks, m.tp ≤ 1)
    (counter : Counter String) (c : String) :
    (countClass counter r).get? c
      = if r.className = c then some (r.marks.map Marks.tp).sum else counter.get? c := by
  have hrun : ∀ (marks : List Marks) (counter : Counter String) (n : ℕ),
      (∀ m ∈ marks, m.tp ≤ 1) → counter.get? r.className = some n →
      (marks.foldl (fun (counter : Counter String) mark =>
          if mark.tp = 1 then counter.incr r.className else counter) counter).get? c
        = if r.className = c then some (n + (marks.map Marks.tp).sum) else counter.get? c := by
    intro marks
    induction marks with
    | nil =>
        intro counter n _ hn
        show counter.get? c = _
        split
        · rename_i hc
          rw [← hc]
          exact hn
        · rfl
    | cons m marks ih =>
        intro counter n hle hn
        rw [List.forall_mem_cons] at hle
        rw [List.foldl_cons, List.map_cons, List.sum_cons]
        rcases Nat.le_one_iff_eq_zero_or_eq_one.mp hle.1 with hm | hm
        · simp only [hm, Nat.zero_ne_one, if_false, Nat.zero_add]
          exact ih counter n hle.2 hn
        · have hcount : counter.count r.className = n := by rw [Counter.count, hn, Option.getD_some]
          have hself : (counter.incr r.className).get? r.className = some (n + 1) := by
            rw [Counter.get?_incr, if_pos rfl, hcount]
          simp only [hm, if_true]
          rw [ih _ (n + 1) hle.2 hself, Counter.get?_incr, Nat.add_assoc]
          split
          · rfl
          · rfl
  have hstart : (counter.assign r.className 0).get? r.className = some 0 := by
    rw [Counter.get?_assign, if_pos rfl]
  rw [countClass, hrun r.marks _ 0 h hstart, Nat.zero_add, Counter.get?_assign]
  split
  · rfl
  · rfl

omit [Field K] [LinearOrder K] in
/-- Each class has its own entry. -/
theorem get?_countTruePositives {results : List (ClassResult B K)}
    (hnodup : (results.map ClassResult.className).Nodup)
    (hle : ∀ r ∈ results, ∀ m ∈ r.marks, m.tp ≤ 1) (counter : Counter String) :
    (∀ r ∈ results, (results.foldl countClass counter).get? r.className
        = some (r.marks.map Marks.tp).sum) ∧
      ∀ c, c ∉ results.map ClassResult.className →
        (results.foldl countClass counter).get? c = counter.get? c := by
  induction results generalizing counter with
  | nil => exact ⟨nofun, fun _ _ => rfl⟩
  | cons r results ih =>
      rw [List.map_cons, List.nodup_cons] at hnodup
      rw [List.forall_mem_cons] at hle
      obtain ⟨hmem, hother⟩ := ih hnodup.2 hle.2 (countClass counter r)
      constructor
      · intro r' hr'
        rw [List.foldl_cons]
        rcases List.mem_cons.mp hr' with rfl | hr'
        · -- The later classes leave the entry.
          rw [hother _ hnodup.1, get?_countClass hle.1, if_pos rfl]
        · exact hmem r' hr'
      · intro c hc
        rw [List.map_cons, List.mem_cons, not_or] at hc
        rw [List.foldl_cons, hother c hc.2, get?_countClass hle.1, if_neg (Ne.symm hc.1)]

/-- The classes without an entry get 0. -/
theorem get?_finishCounting (gtClasses drClasses : List String) (counter : Counter String)
    (c : String) :
    (finishCounting gtClasses drClasses counter).get? c
      = if c ∈ drClasses ∧ c ∉ gtClasses then some 0 else counter.get? c := by
  rw [finishCounting]
  induction drClasses generalizing counter with
  | nil => simp
  | cons k drClasses ih =>
      rw [List.foldl_cons, ih]
      by_cases hk : k ∈ gtClasses
      · have hiff : (c ∈ k :: drClasses ∧ c ∉ gtClasses) ↔ c ∈ drClasses ∧ c ∉ gtClasses := by
          rw [List.mem_cons]
          grind
        simp only [if_pos hk, hiff]
      · rw [if_neg hk, Counter.get?_assign]
        by_cases hc : k = c
        · subst hc
          simp [hk]
        · simp [hc, Ne.symm hc]

omit [Field K] [LinearOrder K] in
theorem detCounterPerClass_eq (drFiles : List (TxtFile (DrLine B K))) :
    detCounterPerClass drFiles
      = Counter.tally DrLine.className (drFiles.flatMap TxtFile.lines) [] := by
  have hrun : ∀ counter, drFiles.foldl
      (fun counter file => Counter.tally DrLine.className file.lines counter) counter
        = Counter.tally DrLine.className (drFiles.flatMap TxtFile.lines) counter := by
    induction drFiles with
    | nil => exact fun _ => rfl
    | cons file drFiles ih =>
        intro counter
        rw [List.foldl_cons, ih, List.flatMap_cons, Counter.tally, Counter.tally, Counter.tally,
          List.foldl_append]
  exact hrun []

omit [Field K] in
/-- The detections of a class are its lines. -/
theorem length_classDetections (drFiles : List (TxtFile (DrLine B K))) (className : String) :
    (classDetections drFiles className).length
      = (drFiles.flatMap TxtFile.lines).countP fun line => line.className = className := by
  rw [classDetections, classDetectionsBy, List.length_insertionSort]
  induction drFiles with
  | nil => rfl
  | cons file drFiles ih =>
      rw [List.flatMap_cons, List.length_append, ih, List.flatMap_cons, List.countP_append,
        List.length_map, ← List.countP_eq_length_filter]

/-! ### The report -/

/-- The objects of a class that are counted, among the lines of all files. -/
def countedObjects (gtFiles : List (TxtFile (GtLine B))) (className : String) : ℕ :=
  (gtFiles.flatMap TxtFile.lines).countP fun line =>
    !line.difficult && decide (line.className = className)

/-- The detections of a class, among the lines of all files. -/
def detectedObjects (drFiles : List (TxtFile (DrLine B K))) (className : String) : ℕ :=
  (drFiles.flatMap TxtFile.lines).countP fun line => line.className = className

variable (overlap thres) in
/-- The two sections fit the files and the marks of the evaluation.

* `objects`: the classes with a counted object, in order, with the number of these objects.
* `classes`: the classes of the detection files, in order, each once.
* `detections`, `bounds`: the detections of a class, and how many of them can be true positives.
* `uncounted`: a class without a counted object has false positives only.
* `counted`: the others have the true positives of the evaluation. Their false positives are
  those of the evaluation and the detections of difficult objects. -/
structure CountsSound (gtFiles : List (TxtFile (GtLine B))) (drFiles : List (TxtFile (DrLine B K)))
    (results : List (ClassResult B K)) (out : OutputCounts) : Prop where
  objects : out.groundTruth
    = (loadFiles gtFiles).gtClasses.map fun c => (c, countedObjects gtFiles c)
  classes : (out.detected.map DetectedLine.className).Pairwise (· < ·) ∧
    ∀ c, c ∈ out.detected.map DetectedLine.className ↔
      ∃ line ∈ drFiles.flatMap TxtFile.lines, line.className = c
  detections : ∀ l ∈ out.detected, l.nDet = detectedObjects drFiles l.className
  bounds : ∀ l ∈ out.detected, l.tp ≤ l.nDet ∧ l.tp ≤ countedObjects gtFiles l.className
  uncounted : ∀ l ∈ out.detected, l.className ∉ (loadFiles gtFiles).gtClasses →
    l.tp = 0 ∧ l.fp = l.nDet
  counted : ∀ l ∈ out.detected, ∀ r ∈ results, r.className = l.className →
    l.tp = (r.marks.map Marks.tp).sum ∧
      l.fp = ((r.marks.map Marks.fp).sum + r.detections.countP fun d =>
        OnDifficult overlap thres r.className (loadFiles gtFiles).store d : ℕ)

omit [Field K] [LinearOrder K] in
/-- The counter of a class is the number of its objects. -/
theorem count_loadFiles (gtFiles : List (TxtFile (GtLine B))) (c : String) :
    (loadFiles gtFiles).gtCounterPerClass.count c = countedObjects gtFiles c := by
  have hrun : ∀ gt : GroundTruth B, (gtFiles.foldl (loadFileBy fileId) gt).gtCounterPerClass.count c
      = gt.gtCounterPerClass.count c + countedObjects gtFiles c := by
    induction gtFiles with
    | nil => exact fun _ => rfl
    | cons file gtFiles ih =>
        intro gt
        have hfile : (loadFileBy fileId gt file).gtCounterPerClass.count c
            = gt.gtCounterPerClass.count c + (file.lines.map lineObject).countP (isCounted c) :=
          (foldl_scanLine c file.lines _).2.1
        rw [List.foldl_cons, ih, hfile, countedObjects, countedObjects, List.flatMap_cons,
          List.countP_append, List.countP_map, Nat.add_assoc]
        rfl
  rw [loadFiles, loadFilesBy, hrun]
  exact Nat.zero_add _

theorem getOrKeyError_eq {counter : Counter String} {c : String} {n : ℕ}
    (h : counter.get? c = some n) : getOrKeyError counter c = .ok n := by
  rw [getOrKeyError, h]

omit [Field K] [LinearOrder K] in
/-- The entry of a class behind both loops. -/
theorem get?_truePositives {gt : GroundTruth B} {results : List (ClassResult B K)}
    (hnodup : gt.gtClasses.Nodup) (hclasses : results.map ClassResult.className = gt.gtClasses)
    (hle : ∀ r ∈ results, ∀ m ∈ r.marks, m.tp ≤ 1) (drClasses : List String) :
    (∀ r ∈ results, (finishCounting gt.gtClasses drClasses (countTruePositives results)).get?
        r.className = some (r.marks.map Marks.tp).sum) ∧
      ∀ c ∈ drClasses, c ∉ gt.gtClasses →
        (finishCounting gt.gtClasses drClasses (countTruePositives results)).get? c = some 0 := by
  rw [← hclasses] at hnodup
  constructor
  · intro r hr
    have hmem : r.className ∈ gt.gtClasses := hclasses ▸ List.mem_map_of_mem hr
    rw [get?_finishCounting, if_neg fun h => h.2 hmem]
    exact (get?_countTruePositives hnodup hle []).1 r hr
  · intro c hc hnot
    rw [get?_finishCounting, if_pos ⟨hc, hnot⟩]

omit [Field K] [LinearOrder K] in
/-- No class is evaluated twice. -/
theorem nodup_gtClasses (gtFiles : List (TxtFile (GtLine B))) :
    (loadFiles gtFiles).gtClasses.Nodup := by
  have hscan : ∀ (lines : List (GtLine B)) (st : FileScan B), st.gtCounterPerClass.keys.Nodup →
      (lines.foldl scanLine st).gtCounterPerClass.keys.Nodup := by
    intro lines
    induction lines with
    | nil => exact fun _ h => h
    | cons line lines ih =>
        intro st h
        refine ih (scanLine st line) ?_
        rw [scanLine]
        split
        · exact h
        · exact Counter.nodup_keys_incr h
  have hrun : ∀ gt : GroundTruth B, gt.gtCounterPerClass.keys.Nodup →
      (gtFiles.foldl (loadFileBy fileId) gt).gtCounterPerClass.keys.Nodup := by
    induction gtFiles with
    | nil => exact fun _ h => h
    | cons file gtFiles ih => exact fun gt h => ih (loadFileBy fileId gt file) (hscan file.lines _ h)
  exact (List.perm_insertionSort _ _).nodup_iff.mpr (hrun _ List.nodup_nil)

/-- The line of a class whose counts are `n` and `tp`. -/
def lineOf (n tp : String → ℕ) (c : String) : DetectedLine := ⟨c, n c, tp c, n c - tp c⟩

omit [Field K] [LinearOrder K] in
/-- The report has a line for each class that is counted. -/
theorem writeCounts_eq {gt : GroundTruth B} {results : List (ClassResult B K)}
    {drFiles : List (TxtFile (DrLine B K))} {objects n tp : String → ℕ}
    (hobjects : ∀ c ∈ gt.gtClasses, gt.gtCounterPerClass.get? c = some (objects c))
    (hn : ∀ c ∈ (detCounterPerClass drFiles).keys,
      (detCounterPerClass drFiles).get? c = some (n c))
    (htp : ∀ c ∈ (detCounterPerClass drFiles).keys,
      (finishCounting gt.gtClasses (detCounterPerClass drFiles).keys
        (countTruePositives results)).get? c = some (tp c)) :
    writeCounts gt results drFiles = .ok
      { groundTruth := gt.gtClasses.map fun c => (c, objects c)
        detected := ((detCounterPerClass drFiles).keys.insertionSort (· ≤ ·)).map (lineOf n tp) } := by
  have hleft : ∀ c ∈ gt.gtCounterPerClass.keys.insertionSort (· ≤ ·),
      (do let n ← getOrKeyError gt.gtCounterPerClass c
          (.ok (c, n) : PyM (String × ℕ))) = .ok (c, objects c) := by
    intro c hc
    rw [getOrKeyError_eq (hobjects c hc), ok_bind]
  have hright : ∀ c ∈ (detCounterPerClass drFiles).keys.insertionSort (· ≤ ·),
      detectedLine (detCounterPerClass drFiles) (finishCounting gt.gtClasses
        (detCounterPerClass drFiles).keys (countTruePositives results)) c = .ok (lineOf n tp c) := by
    intro c hc
    have hc' := (List.mem_insertionSort _).mp hc
    rw [detectedLine, getOrKeyError_eq (hn c hc'), ok_bind, getOrKeyError_eq (htp c hc'), ok_bind]
    rfl
  rw [writeCounts, mapM_eq_ok hleft, ok_bind]
  show (List.mapM _ _ >>= fun detected => _) = _
  rw [mapM_eq_ok hright]
  rfl

omit [Field K] [LinearOrder K] in
/-- The counter of the detections, class by class. -/
theorem count_detCounterPerClass (drFiles : List (TxtFile (DrLine B K))) (c : String) :
    (detCounterPerClass drFiles).count c = detectedObjects drFiles c := by
  rw [detCounterPerClass_eq, Counter.count_tally]
  exact Nat.zero_add _

omit [Field K] [LinearOrder K] in
theorem mem_keys_detCounterPerClass (drFiles : List (TxtFile (DrLine B K))) (c : String) :
    c ∈ (detCounterPerClass drFiles).keys ↔
      ∃ line ∈ drFiles.flatMap TxtFile.lines, line.className = c := by
  rw [detCounterPerClass_eq, Counter.mem_keys_tally]
  exact or_iff_right List.not_mem_nil

omit [Field K] [LinearOrder K] in
theorem nodup_keys_detCounterPerClass (drFiles : List (TxtFile (DrLine B K))) :
    (detCounterPerClass drFiles).keys.Nodup := by
  rw [detCounterPerClass_eq]
  exact Counter.nodup_keys_tally DrLine.className _ List.nodup_nil

/-- The true positives of the report are those of the evaluation, and 0 for the classes without a
counted object. -/
structure FinishedTps (gt : GroundTruth B) (drFiles : List (TxtFile (DrLine B K)))
    (results : List (ClassResult B K)) (tp : String → ℕ) : Prop where
  entry : ∀ c ∈ (detCounterPerClass drFiles).keys,
    (finishCounting gt.gtClasses (detCounterPerClass drFiles).keys
      (countTruePositives results)).get? c = some (tp c)
  counted : ∀ c ∈ (detCounterPerClass drFiles).keys, ∀ r ∈ results, r.className = c →
    tp c = (r.marks.map Marks.tp).sum
  uncounted : ∀ c ∈ (detCounterPerClass drFiles).keys, c ∉ gt.gtClasses → tp c = 0

omit [Field K] [LinearOrder K] in
/-- Every class of the detection files has an entry behind both loops. -/
theorem exists_finishedTps {gt : GroundTruth B} {results : List (ClassResult B K)}
    (hnodup : gt.gtClasses.Nodup) (hclasses : results.map ClassResult.className = gt.gtClasses)
    (hle : ∀ r ∈ results, ∀ m ∈ r.marks, m.tp ≤ 1) (drFiles : List (TxtFile (DrLine B K))) :
    ∃ tp, FinishedTps gt drFiles results tp := by
  obtain ⟨hcounted, hother⟩ :=
    get?_truePositives hnodup hclasses hle (detCounterPerClass drFiles).keys
  have htps : ∀ c ∈ (detCounterPerClass drFiles).keys, ∃ tp,
      (finishCounting gt.gtClasses (detCounterPerClass drFiles).keys
        (countTruePositives results)).get? c = some tp := by
    intro c hc
    by_cases hmem : c ∈ gt.gtClasses
    · rw [← hclasses] at hmem
      obtain ⟨r, hr, rfl⟩ := List.mem_map.mp hmem
      exact ⟨_, hcounted r hr⟩
    · exact ⟨0, hother c hc hmem⟩
  choose! tp htp using htps
  refine ⟨tp, htp, fun c hc r hr heq => ?_, fun c hc hnot => ?_⟩
  · have hsome := htp c hc
    rw [← heq, hcounted r hr, Option.some.injEq] at hsome
    rw [← heq]
    exact hsome.symm
  · have hsome := htp c hc
    rw [hother c hc hnot, Option.some.injEq] at hsome
    exact hsome.symm

/-- The lines of the detected classes. -/
def reportLines (drFiles : List (TxtFile (DrLine B K))) (tp : String → ℕ) : List DetectedLine :=
  ((detCounterPerClass drFiles).keys.insertionSort (· ≤ ·)).map (lineOf (detectedObjects drFiles) tp)

omit [Field K] [LinearOrder K] in
/-- A line is the one of a class of the detection files. -/
theorem exists_of_mem_reportLines {drFiles : List (TxtFile (DrLine B K))} {tp : String → ℕ}
    {l : DetectedLine} (hl : l ∈ reportLines drFiles tp) :
    ∃ c ∈ (detCounterPerClass drFiles).keys, l = lineOf (detectedObjects drFiles) tp c := by
  obtain ⟨c, hc, rfl⟩ := List.mem_map.mp hl
  exact ⟨c, (List.mem_insertionSort _).mp hc, rfl⟩

omit [Field K] [LinearOrder K] in
/-- The lines are in the order of the classes, and each class of the detection files has one. -/
theorem classNames_reportLines (drFiles : List (TxtFile (DrLine B K))) (tp : String → ℕ) :
    ((reportLines drFiles tp).map DetectedLine.className).Pairwise (· < ·) ∧
      ∀ c, c ∈ (reportLines drFiles tp).map DetectedLine.className ↔
        ∃ line ∈ drFiles.flatMap TxtFile.lines, line.className = c := by
  have hnames : (reportLines drFiles tp).map DetectedLine.className
      = (detCounterPerClass drFiles).keys.insertionSort (· ≤ ·) := by
    rw [reportLines, List.map_map]
    exact List.map_id _
  rw [hnames]
  constructor
  · have hsort := List.pairwise_insertionSort (· ≤ ·) (detCounterPerClass drFiles).keys
    have hdistinct := (List.perm_insertionSort (· ≤ ·) _).nodup_iff.mpr
      (nodup_keys_detCounterPerClass drFiles)
    exact hsort.imp₂ (fun _ _ hle hne => lt_of_le_of_ne hle hne) hdistinct
  · intro c
    rw [List.mem_insertionSort, mem_keys_detCounterPerClass]

section
variable {gtFiles : List (TxtFile (GtLine B))} {drFiles : List (TxtFile (DrLine B K))}
  {results : List (ClassResult B K)} {tp : String → ℕ}

/-- The true positives are among the detections and among the objects. -/
theorem FinishedTps.bounds (htps : FinishedTps (loadFiles gtFiles) drFiles results tp)
    (hclasses : results.map ClassResult.className = (loadFiles gtFiles).gtClasses)
    (hruns : ∀ r ∈ results,
      ClassRun overlap thres (loadFiles gtFiles) (classDetections drFiles) r)
    {c : String} (hc : c ∈ (detCounterPerClass drFiles).keys) :
    tp c ≤ detectedObjects drFiles c ∧ tp c ≤ countedObjects gtFiles c := by
  by_cases hmem : c ∈ (loadFiles gtFiles).gtClasses
  · rw [← hclasses] at hmem
    obtain ⟨r, hr, rfl⟩ := List.mem_map.mp hmem
    have htotal := (hruns r hr).total
    have hle := (hruns r hr).tp_le
    rw [(hruns r hr).detections, length_classDetections] at htotal
    rw [count_loadFiles] at hle
    rw [htps.counted _ hc r hr rfl]
    refine ⟨?_, hle⟩
    show _ ≤ (drFiles.flatMap TxtFile.lines).countP _
    omega
  · rw [htps.uncounted c hc hmem]
    exact ⟨Nat.zero_le _, Nat.zero_le _⟩

/-- The other detections of an evaluated class are its false positives and its detections of
difficult objects. -/
theorem FinishedTps.rest (htps : FinishedTps (loadFiles gtFiles) drFiles results tp)
    {r : ClassResult B K} (hr : r ∈ results)
    (hrun : ClassRun overlap thres (loadFiles gtFiles) (classDetections drFiles) r)
    (hc : r.className ∈ (detCounterPerClass drFiles).keys) :
    (detectedObjects drFiles r.className : ℤ) - tp r.className
      = ((r.marks.map Marks.fp).sum + r.detections.countP fun d =>
        OnDifficult overlap thres r.className (loadFiles gtFiles).store d : ℕ) := by
  have htotal := hrun.total
  have hlength : r.detections.length = detectedObjects drFiles r.className := by
    rw [hrun.detections, length_classDetections]
    rfl
  rw [hlength] at htotal
  rw [htps.counted _ hc r hr rfl]
  omega

/-- The counts of the report fit the runs of the classes. -/
theorem writeCounts_sound
    (hclasses : results.map ClassResult.className = (loadFiles gtFiles).gtClasses)
    (hruns : ∀ r ∈ results,
      ClassRun overlap thres (loadFiles gtFiles) (classDetections drFiles) r) :
    Returns (writeCounts (loadFiles gtFiles) results drFiles)
      (CountsSound overlap thres gtFiles drFiles results) := by
  obtain ⟨tp, htps⟩ := exists_finishedTps (nodup_gtClasses gtFiles) hclasses
    (fun r hr => (hruns r hr).tp_le_one) drFiles
  have hobjects : ∀ c ∈ (loadFiles gtFiles).gtClasses,
      (loadFiles gtFiles).gtCounterPerClass.get? c = some (countedObjects gtFiles c) := by
    intro c hc
    rw [Counter.get?_eq_some_count ((List.mem_insertionSort _).mp hc), count_loadFiles]
  have hn : ∀ c ∈ (detCounterPerClass drFiles).keys,
      (detCounterPerClass drFiles).get? c = some (detectedObjects drFiles c) := by
    intro c hc
    rw [Counter.get?_eq_some_count hc, count_detCounterPerClass]
  refine ⟨_, writeCounts_eq hobjects hn htps.entry, ?_⟩
  constructor
  case objects => rfl
  case classes => exact classNames_reportLines drFiles tp
  case detections =>
    intro l hl
    obtain ⟨c, -, rfl⟩ := exists_of_mem_reportLines hl
    rfl
  case bounds =>
    intro l hl
    obtain ⟨c, hc, rfl⟩ := exists_of_mem_reportLines hl
    exact htps.bounds hclasses hruns hc
  case uncounted =>
    intro l hl hnot
    obtain ⟨c, hc, rfl⟩ := exists_of_mem_reportLines hl
    have htp : tp c = 0 := htps.uncounted c hc hnot
    refine ⟨htp, ?_⟩
    show (detectedObjects drFiles c : ℤ) - tp c = detectedObjects drFiles c
    rw [htp, Nat.cast_zero, sub_zero]
  case counted =>
    intro l hl r hr heq
    obtain ⟨c, hc, rfl⟩ := exists_of_mem_reportLines hl
    have hclass : r.className = c := heq
    subst hclass
    exact ⟨htps.counted _ hc r hr rfl, htps.rest hr (hruns r hr) hc⟩

end

/-- The report returns with the evaluation, and its counts fit. -/
theorem evalCounts_sound [IsStrictOrderedRing K] {gtFiles : List (TxtFile (GtLine B))}
    {drFiles : List (TxtFile (DrLine B K))} {results : List (ClassResult B K)}
    (hcurves : evalCurves overlap thres gtFiles drFiles = .ok results)
    (hobject : ∃ f ∈ gtFiles, ∃ line ∈ f.lines, line.difficult = false) :
    Returns (evalCounts overlap thres gtFiles drFiles)
      (CountsSound overlap thres gtFiles drFiles results) := by
  have hgt := covered_loadFiles gtFiles
  obtain ⟨gt, hload, hcurves⟩ := bind_eq_ok hcurves
  obtain ⟨_, hcheck, hcurves⟩ := bind_eq_ok hcurves
  obtain ⟨⟨results', after⟩, heval, hcurves⟩ := bind_eq_ok hcurves
  cases hcurves
  have hgt' : gt = loadFiles gtFiles := by
    obtain ⟨hok, -⟩ | ⟨herror, -⟩ := loadGroundTruth_cases gtFiles drFiles
    · rw [hok] at hload
      exact (Except.ok.inj hload).symm
    · rw [herror] at hload
      cases hload
  subst hgt'
  have hne := (gtClasses_ne_nil_iff fileId gtFiles).mpr hobject
  rw [evalCounts, hload, ok_bind, hcheck, ok_bind, heval, ok_bind,
    if_neg (by rwa [List.isEmpty_iff])]
  rw [← hgt.markUsed_nil] at heval
  obtain ⟨hclasses, hruns⟩ := evalClasses_requests hgt heval
  exact writeCounts_sound hclasses hruns

end

/-- The detection of the difficult object is a false positive of the report. -/
theorem evalCounts_sound_oneImage :
    ∃ results, evalCurves (skewiou unitSquares) (1 / 2) oneImage fourDetections = .ok results ∧
      CountsSound (skewiou unitSquares) (1 / 2) oneImage fourDetections results
        ⟨[("wake", 1)], [⟨"wake", 4, 1, 3⟩]⟩ := by
  have hok : (evalCurves (skewiou unitSquares) (1 / 2) oneImage fourDetections).isOk = true := by
    decide +kernel
  have hcounts : evalCounts (skewiou unitSquares) (1 / 2) oneImage fourDetections
      = .ok ⟨[("wake", 1)], [⟨"wake", 4, 1, 3⟩]⟩ := by decide +kernel
  cases hcurves : evalCurves (skewiou unitSquares) (1 / 2) oneImage fourDetections with
  | error e =>
      rw [hcurves] at hok
      cases hok
  | ok results =>
      obtain ⟨out, hout, hsound⟩ := evalCounts_sound hcurves
        ⟨_, List.mem_cons_self, _, List.mem_cons_self, rfl⟩
      rw [hcounts] at hout
      cases hout
      exact ⟨results, rfl, hsound⟩

end W2Net.Proofs.Map
