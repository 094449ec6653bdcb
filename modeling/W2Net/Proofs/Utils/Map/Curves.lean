import Mathlib.Algebra.Order.Field.Basic
import Mathlib.Tactic.NormNum
import Mathlib.Tactic.Positivity
import W2Net.Proofs.Utils.Map.Assign

/-!
# `W2Net.Proofs.Utils.Map.Curves`: precision and recall are well defined

`AssignmentSound` says what one run of the assignment loop does with the
detections of a class. `assignAll_sound` proves it for every list of detections,
so also for every prefix of the list, at every store that the evaluation can
reach. The reachable stores are `markUsed gt.store taken`, and
`evalClasses_run` follows `taken` through the classes: it is the list of the
places that were counted, and it has no duplicates.

`evalCurves_sound` is the result. The counter bounds the true positives by
`Covered`, which bounds the recall.
-/

set_option autoImplicit false

namespace W2Net.Proofs.Map

open W2Net.Map

section
variable {B K : Type} [Field K] [LinearOrder K]
variable (overlap : B → B → PyM (K × K)) (thres : K) (className : String)

/-! ### One class -/

/-- The place of the best match of a detection. -/
def bestPlace (store : Store B) (detection : Detection B K) : Option (String × ℕ) :=
  match store detection.fileId with
  | none => none
  | some objs =>
      match bestMatch overlap className detection.bbox objs with
      | .ok (_, some (i, _)) => some (detection.fileId, i)
      | _ => none

/-- The places that a run counts as true positives, in order. -/
def countedPlaces (store : Store B) (detections : List (Detection B K)) (marks : List Marks) :
    List (String × ℕ) :=
  (detections.zip marks).filterMap fun e =>
    if e.2.tp = 1 then bestPlace overlap className store e.1 else none

/-- What the loop does with the detections of a class. `loaded` is the ground
truth as it was loaded, and the loop runs from the store `before` to `after`.

* `marked`, `atMostOne`: each detection has its entries in `tp` and `fp`, and
  counts as at most one of the two.
* `neither`: it counts as neither only when its best match is difficult.
* `truePositive`: a true positive has a best match of the class that is not
  difficult.
* `once`: no object is counted twice. Every true positive is in this list.
* `otherClasses`: the objects of other classes are untouched. -/
structure AssignmentSound (loaded before : Store B) (detections : List (Detection B K))
    (marks : List Marks) (after : Store B) : Prop where
  marked : marks.length = detections.length
  atMostOne : ∀ e ∈ detections.zip marks, e.2.tp + e.2.fp ≤ 1
  neither : ∀ e ∈ detections.zip marks, e.2.tp = 0 → e.2.fp = 0 →
    ∃ p obj, IsMatch overlap thres className loaded e.1 p obj ∧ obj.difficult = true
  truePositive : ∀ e ∈ detections.zip marks, e.2.tp = 1 →
    ∃ p obj, IsMatch overlap thres className loaded e.1 p obj ∧ obj.difficult = false ∧
      obj.className = className
  once : (countedPlaces overlap className loaded detections marks).Nodup
  total : (countedPlaces overlap className loaded detections marks).length =
    (marks.map Marks.tp).sum
  otherClasses : ∀ p obj, objectAt before p = some obj → obj.className ≠ className →
    objectAt after p = some obj

variable {overlap thres className}

theorem IsMatch.bestPlace_eq {store : Store B} {detection : Detection B K} {p : String × ℕ}
    {obj : GtObject B} (h : IsMatch overlap thres className store detection p obj) :
    bestPlace overlap className store detection = some p := by
  obtain ⟨hid, objs, ov, hobjs, hbest, -⟩ := h
  unfold bestPlace
  rw [hobjs]
  simp only [hbest, ← hid]

/-- The entries of a detection come from one step, on its own request. -/
theorem exists_settle {store : Store B} {taken : List (String × ℕ)}
    {detections : List (Detection B K)} {rs : List (Request (String × ℕ))}
    (h : List.Forall₂ (fun d r => request overlap thres className store d = .ok r) detections rs)
    {e : Detection B K × Marks} (he : e ∈ detections.zip (settleAll taken rs).1) :
    ∃ r taken', request overlap thres className store e.1 = .ok r ∧ e.2 = (settle taken' r).1 := by
  induction h generalizing taken with
  | nil => cases he
  | @cons d r ds rs hr _ ih =>
      rcases List.mem_cons.mp he with rfl | he
      · exact ⟨r, taken, hr, rfl⟩
      · exact ih he

/-- The counted places are those that `settleAll` hands out. -/
theorem countedPlaces_eq_hits {store : Store B} {taken : List (String × ℕ)}
    {detections : List (Detection B K)} {rs : List (Request (String × ℕ))}
    (h : List.Forall₂ (fun d r => request overlap thres className store d = .ok r)
      detections rs) :
    countedPlaces overlap className store detections (settleAll taken rs).1 = hits taken rs := by
  induction h generalizing taken with
  | nil => rfl
  | @cons d r ds rs hr _ ih =>
      -- What the first detection counts, before what the others count.
      have hrest : countedPlaces overlap className store (d :: ds) (settleAll taken (r :: rs)).1 =
          (if (settle taken r).1.tp = 1 then bestPlace overlap className store d
            else none).toList ++ hits (settle taken r).2 rs := by
        rw [← ih]
        show List.filterMap _ ((d, (settle taken r).1) :: _) = _
        rw [List.filterMap_cons]
        cases (if (settle taken r).1.tp = 1 then bestPlace overlap className store d
          else none) with
        | none => rfl
        | some p => rfl
      rw [hrest]
      obtain ⟨p, obj, rfl, hmatch, -⟩ | rfl | ⟨rfl, -⟩ := request_cases hr
      · by_cases hmem : p ∈ taken
        · simp [settle, hits, hmem]
        · simp [settle, hits, hmem, hmatch.bestPlace_eq]
      · rfl
      · rfl

/-- A place that is handed out is a counted object of the class. -/
theorem counted_of_mem_hits {store : Store B} {taken : List (String × ℕ)}
    {detections : List (Detection B K)} {rs : List (Request (String × ℕ))}
    (hrs : detections.mapM (request overlap thres className store) = .ok rs) {p : String × ℕ}
    (hp : p ∈ hits taken rs) :
    ∃ obj, objectAt store p = some obj ∧ isCounted className obj = true := by
  obtain ⟨d, -, hd⟩ := (mem_mapM_iff hrs _).mp (claim_mem_of_mem_hits hp)
  obtain ⟨q, obj, hq, hmatch, hdiff⟩ | hq | ⟨hq, -⟩ := request_cases hd
  · cases hq
    obtain ⟨hobj, hcls⟩ := hmatch.objectAt
    exact ⟨obj, hobj, by simp [isCounted, hdiff, hcls]⟩
  · cases hq
  · cases hq

/-- The place of an object of another class is not handed out, so its flag stays. -/
theorem objectAt_settleAll {store : Store B} {taken : List (String × ℕ)}
    {detections : List (Detection B K)} {rs : List (Request (String × ℕ))}
    (hrs : detections.mapM (request overlap thres className store) = .ok rs) {p : String × ℕ}
    {obj : GtObject B} (hobj : objectAt (markUsed store taken) p = some obj)
    (hcls : obj.className ≠ className) :
    objectAt (markUsed store (settleAll taken rs).2) p = some obj := by
  rw [settleAll_taken]
  rw [objectAt_markUsed] at hobj ⊢
  obtain ⟨obj₀, hobj₀, rfl⟩ := Option.map_eq_some_iff.mp hobj
  -- A place that is handed out holds an object of this class.
  have hnot : p ∉ hits taken rs := by
    intro hp
    obtain ⟨obj₁, hobj₁, hcounted₁⟩ := counted_of_mem_hits hrs hp
    rw [hobj₀, Option.some.injEq] at hobj₁
    subst hobj₁
    simp only [isCounted, Bool.and_eq_true, decide_eq_true_eq] at hcounted₁
    exact hcls hcounted₁.2
  rw [hobj₀]
  simp [hnot]

/-- The steps on the requests of a class do what the loop is for. -/
theorem assignmentSound_settleAll {store : Store B} {taken : List (String × ℕ)}
    {detections : List (Detection B K)} {rs : List (Request (String × ℕ))}
    (hrs : detections.mapM (request overlap thres className store) = .ok rs) :
    AssignmentSound overlap thres className store (markUsed store taken) detections
      (settleAll taken rs).1 (markUsed store (settleAll taken rs).2) := by
  have hreq := forall₂_of_mapM_eq_ok hrs
  -- Everything is said about the places that the loop hands out.
  have hplaces : countedPlaces overlap className store detections (settleAll taken rs).1 =
      hits taken rs := countedPlaces_eq_hits hreq
  constructor
  case marked => rw [settleAll_length, hreq.length_eq]
  case atMostOne =>
    intro e he
    obtain ⟨r, taken', -, hm⟩ := exists_settle hreq he
    rw [hm]
    exact settle_sum_le_one taken' r
  case neither =>
    intro e he htp hfp
    obtain ⟨r, taken', hr, hm⟩ := exists_settle hreq he
    rw [hm] at htp hfp
    have hskip := settle_eq_zero htp hfp
    obtain ⟨p, obj, hq, -⟩ | hq | ⟨-, hmatch⟩ := request_cases hr
    · rw [hskip] at hq
      cases hq
    · rw [hskip] at hq
      cases hq
    · exact hmatch
  case truePositive =>
    intro e he htp
    obtain ⟨r, taken', hr, hm⟩ := exists_settle hreq he
    rw [hm] at htp
    obtain ⟨a, ha, -⟩ := settle_tp_eq_one htp
    obtain ⟨p, obj, -, hmatch, hdiff⟩ | hq | ⟨hq, -⟩ := request_cases hr
    · exact ⟨p, obj, hmatch, hdiff, hmatch.objectAt.2⟩
    · rw [ha] at hq
      cases hq
    · rw [ha] at hq
      cases hq
  case once =>
    rw [hplaces]
    exact nodup_hits taken rs
  case total => rw [hplaces, sum_tp_settleAll]
  case otherClasses =>
    intro p obj hobj hcls
    exact objectAt_settleAll hrs hobj hcls

/-- One class, from a store in which `taken` is used. -/
theorem assignAll_sound {store after : Store B} {taken : List (String × ℕ)}
    {detections : List (Detection B K)} {marks : List Marks}
    (h : assignAll overlap thres className (markUsed store taken) detections =
      .ok (marks, after)) :
    AssignmentSound overlap thres className store (markUsed store taken) detections marks after ∧
      after = markUsed store
        ((countedPlaces overlap className store detections marks).reverse ++ taken) ∧
      (∀ p ∈ countedPlaces overlap className store detections marks,
        p ∉ taken ∧ ∃ obj, objectAt store p = some obj ∧ isCounted className obj = true) := by
  rw [assignAll_markUsed] at h
  cases hrs : detections.mapM (request overlap thres className store) with
  | error e =>
      rw [hrs] at h
      cases h
  | ok rs =>
      rw [hrs] at h
      cases h
      -- Both statements on the counted places are about the places that the loop hands out.
      refine ⟨assignmentSound_settleAll hrs, ?_, ?_⟩
      · rw [countedPlaces_eq_hits (forall₂_of_mapM_eq_ok hrs), settleAll_taken]
      · rw [countedPlaces_eq_hits (forall₂_of_mapM_eq_ok hrs)]
        intro p hp
        exact ⟨not_mem_of_mem_hits hp, counted_of_mem_hits hrs hp⟩

/-! ### The curve of a class -/

/-- The values of a curve: the recall does not decrease and stays in `[0, 1]`,
the precision stays in `[0, 1)`. -/
structure CurveSound (curve : Curve K) : Prop where
  monotone : curve.recalls.Pairwise (· ≤ ·)
  recall_mem : ∀ x ∈ curve.recalls, 0 ≤ x ∧ x ≤ 1
  prec_mem : ∀ x ∈ curve.prec, 0 ≤ x ∧ x < 1

section
variable [IsStrictOrderedRing K]

/-- The curve of a class with counter `n > 0`: no division raises. -/
theorem classCurve_eq {gt : GroundTruth B} {n : ℕ}
    (hn : gt.gtCounterPerClass.get? className = some n) (hpos : 0 < n) (marks : List Marks) :
    classCurve gt className marks = .ok
      { fp := cumsum 0 (marks.map Marks.fp)
        tp := cumsum 0 (marks.map Marks.tp)
        recalls := (cumsum 0 (marks.map Marks.tp)).map fun (t : ℕ) => (t : K) / n
        prec := ((cumsum 0 (marks.map Marks.tp)).zip (cumsum 0 (marks.map Marks.fp))).map
          fun (p : ℕ × ℕ) => (p.1 : K) / (p.2 + p.1 + 1 / 10 ^ 6) } := by
  have hrec : ∀ t ∈ cumsum 0 (marks.map Marks.tp), pyDiv (t : K) n = .ok ((t : K) / n) :=
    fun t _ => if_neg (Nat.cast_ne_zero.mpr hpos.ne')
  have hprec : ∀ p ∈ (cumsum 0 (marks.map Marks.tp)).zip (cumsum 0 (marks.map Marks.fp)),
      pyDiv (p.1 : K) (p.2 + p.1 + 1 / 10 ^ 6) =
        .ok ((p.1 : K) / (p.2 + p.1 + 1 / 10 ^ 6)) := by
    intro p _
    -- The small constant keeps the divisor of the precision positive.
    have hp : (0 : K) < p.2 + p.1 + 1 / 10 ^ 6 := by positivity
    exact if_neg hp.ne'
  unfold classCurve
  rw [hn]
  simp only
  rw [mapM_eq_ok hrec, mapM_eq_ok hprec]
  rfl

/-- With no more true positives than the counter says, the curve is sound. -/
theorem curveSound {gt : GroundTruth B} {n : ℕ} {marks : List Marks} {curve : Curve K}
    (hn : gt.gtCounterPerClass.get? className = some n) (hpos : 0 < n)
    (htotal : (marks.map Marks.tp).sum ≤ n) (h : classCurve gt className marks = .ok curve) :
    CurveSound curve := by
  rw [classCurve_eq hn hpos, Except.ok.injEq] at h
  subst h
  have hn' : (0 : K) < n := Nat.cast_pos.mpr hpos
  constructor
  case monotone =>
    refine (pairwise_cumsum 0 (marks.map Marks.tp)).map _ fun a b hab => ?_
    exact div_le_div_of_nonneg_right (Nat.cast_le.mpr hab) hn'.le
  case recall_mem =>
    intro x hx
    obtain ⟨t, ht, rfl⟩ := List.mem_map.mp hx
    have hle := (mem_cumsum ht).2
    rw [Nat.zero_add] at hle
    exact ⟨by positivity, (div_le_one hn').mpr (Nat.cast_le.mpr (hle.trans htotal))⟩
  case prec_mem =>
    intro x hx
    obtain ⟨p, -, rfl⟩ := List.mem_map.mp hx
    have hp : (0 : K) < p.2 + p.1 + 1 / 10 ^ 6 := by positivity
    refine ⟨by positivity, (div_lt_one hp).mpr ?_⟩
    -- The summand `1e-6` keeps the divisor above `tp`.
    have hfp : (0 : K) ≤ p.2 := Nat.cast_nonneg _
    have heps : (0 : K) < 1 / 10 ^ 6 := by positivity
    linarith

/-- The counter of a class of `gt_classes` is positive. -/
theorem exists_counter {gt : GroundTruth B} (hgt : Covered gt) (h : className ∈ gt.gtClasses) :
    ∃ n, gt.gtCounterPerClass.get? className = some n ∧ 0 < n :=
  hgt.positive.get?_of_mem_keys ((List.mem_insertionSort _).mp h)

/-! ### All classes -/

variable (overlap) in
/-- The places counted by all the classes evaluated so far. -/
def allCounted (store : Store B) (results : List (ClassResult B K)) : List (String × ℕ) :=
  results.flatMap fun r => countedPlaces overlap r.className store r.detections r.marks

/-- The places of one more class join the used ones. -/
theorem nodup_reverse_append {counted taken : List (String × ℕ)} (hcounted : counted.Nodup)
    (htaken : taken.Nodup) (h : ∀ p ∈ counted, p ∉ taken) : (counted.reverse ++ taken).Nodup :=
  List.nodup_append'.mpr ⟨List.nodup_reverse.mpr hcounted, htaken,
    fun p hp hp' => h p (List.mem_reverse.mp hp) hp'⟩

/-- The loop over the classes, from a store in which `taken` is used. At the
end the counted places are used as well, each of them once, and every curve is
sound. -/
theorem evalClasses_run {gt : GroundTruth B} (hgt : Covered gt)
    {detections : String → List (Detection B K)} {classes : List String}
    (hclasses : ∀ c ∈ classes, c ∈ gt.gtClasses) {taken : List (String × ℕ)} (hnodup : taken.Nodup)
    {results : List (ClassResult B K)} {after : Store B}
    (h : evalClasses overlap thres gt detections (markUsed gt.store taken) classes =
      .ok (results, after)) :
    ∃ taken', after = markUsed gt.store taken' ∧ taken'.Nodup ∧
      taken'.Perm (allCounted overlap gt.store results ++ taken) ∧
      ∀ r ∈ results, CurveSound r.curve := by
  induction classes generalizing taken results with
  | nil =>
      cases h
      exact ⟨taken, rfl, hnodup, List.Perm.refl _, nofun⟩
  | cons c classes ih =>
      rw [evalClasses] at h
      obtain ⟨⟨marks, store⟩, hassign, h⟩ := bind_eq_ok h
      obtain ⟨curve, hcurve, h⟩ := bind_eq_ok h
      obtain ⟨⟨results', after'⟩, hrest, h⟩ := bind_eq_ok h
      cases h
      obtain ⟨hsound, rfl, hplaces⟩ := assignAll_sound hassign
      obtain ⟨n, hn, hpos⟩ := exists_counter hgt (hclasses c List.mem_cons_self)
      -- The counter covers the places that were counted.
      have htotal : (marks.map Marks.tp).sum ≤ n := by
        have hcover := hgt.cover c _ hsound.once fun p hp => (hplaces p hp).2
        rw [Counter.count, hn] at hcover
        rw [← hsound.total]
        exact hcover
      obtain ⟨taken', hafter, hnodup', hperm, hcurves⟩ :=
        ih (fun c' hc' => hclasses c' (List.mem_cons_of_mem c hc'))
          (nodup_reverse_append hsound.once hnodup fun p hp => (hplaces p hp).1) hrest
      refine ⟨taken', hafter, hnodup', hperm.trans ?_, fun r hr => ?_⟩
      · show (_ ++ (_ ++ taken)).Perm ((_ ++ allCounted overlap gt.store results') ++ taken)
        rw [← List.append_assoc]
        refine List.Perm.append_right taken (List.perm_append_comm.trans ?_)
        exact List.Perm.append_right _ (List.reverse_perm _)
      · rcases List.mem_cons.mp hr with rfl | hr
        · exact curveSound hn hpos htotal hcurve
        · exact hcurves r hr

/-- The evaluation of the classes returns when every detection has a
ground-truth file. -/
theorem exists_evalClasses {gt : GroundTruth B} (hgt : Covered gt) (hthres : -1 < thres)
    (hoverlap : ∀ a b, ∃ v, overlap a b = .ok v) {detections : String → List (Detection B K)}
    {classes : List String} (hclasses : ∀ c ∈ classes, c ∈ gt.gtClasses)
    (hfiles : ∀ c ∈ classes, ∀ d ∈ detections c, gt.store d.fileId ≠ none)
    (taken : List (String × ℕ)) :
    ∃ out, evalClasses overlap thres gt detections (markUsed gt.store taken) classes =
      .ok out := by
  induction classes generalizing taken with
  | nil => exact ⟨_, rfl⟩
  | cons c classes ih =>
      obtain ⟨rs, hrs⟩ := exists_mapM fun d hd =>
        exists_request overlap thres c hthres hoverlap (hfiles c List.mem_cons_self d hd)
      obtain ⟨n, hn, hpos⟩ := exists_counter hgt (hclasses c List.mem_cons_self)
      -- The next classes start from the store that this class leaves.
      obtain ⟨out, hout⟩ := ih (fun c' hc' => hclasses c' (List.mem_cons_of_mem c hc'))
        (fun c' hc' => hfiles c' (List.mem_cons_of_mem c hc')) (settleAll taken rs).2
      rw [evalClasses, assignAll_markUsed, hrs]
      show ∃ out, (classCurve gt c (settleAll taken rs).1 >>= fun _ => _) = Except.ok out
      rw [classCurve_eq hn hpos]
      show ∃ out, (evalClasses overlap thres gt detections
        (markUsed gt.store (settleAll taken rs).2) classes >>= fun _ => _) = Except.ok out
      rw [hout]
      exact ⟨_, rfl⟩

variable (overlap thres) in
/-- The curves that the evaluation returns. -/
theorem evalCurves_curves (gtFiles : List (TxtFile (GtLine B)))
    (drFiles : List (TxtFile (DrLine B K))) {results : List (ClassResult B K)}
    (h : evalCurves overlap thres gtFiles drFiles = .ok results) :
    ∀ r ∈ results, CurveSound r.curve := by
  have hgt := covered_loadFiles gtFiles
  obtain ⟨gt, hload, h⟩ := bind_eq_ok h
  obtain ⟨_, -, h⟩ := bind_eq_ok h
  obtain ⟨out, hout, h⟩ := bind_eq_ok h
  cases h
  have hgt' : loadFiles gtFiles = gt := by
    unfold loadGroundTruth at hload
    split_ifs at hload
    exact Except.ok.inj hload
  subst hgt'
  rw [← hgt.markUsed_nil] at hout
  obtain ⟨-, -, -, -, hcurves⟩ := evalClasses_run hgt (fun _ h => h) List.nodup_nil hout
  exact hcurves

end

omit [Field K] in
/-- A detection is named by its file. -/
theorem exists_file_of_mem {ident : String → String} {drFiles : List (TxtFile (DrLine B K))}
    {d : Detection B K} (h : d ∈ classDetectionsBy ident drFiles className) :
    ∃ f ∈ drFiles, d.fileId = ident f.stem := by
  obtain ⟨f, hf, hd⟩ := List.mem_flatMap.mp ((List.mem_insertionSort _).mp h)
  obtain ⟨line, -, rfl⟩ := List.mem_map.mp hd
  exact ⟨f, hf, rfl⟩

omit [Field K] in
/-- When every detection file has a ground-truth file, every detection does. -/
theorem store_ne_none_of_paired {gtFiles : List (TxtFile (GtLine B))}
    {drFiles : List (TxtFile (DrLine B K))}
    (hall : ∀ f ∈ drFiles, fileExists gtFiles (fileId f.stem) = true) {d : Detection B K}
    (hd : d ∈ classDetections drFiles className) : (loadFiles gtFiles).store d.fileId ≠ none := by
  obtain ⟨f, hf, hid⟩ := exists_file_of_mem hd
  obtain ⟨g, hg, hstem⟩ := List.any_eq_true.mp (hall f hf)
  have hstore := loadFilesBy_store_ne_none fileId gtFiles g hg
  rwa [of_decide_eq_true hstem, fileId_idem, ← hid] at hstore

omit [Field K] [LinearOrder K] in
/-- When the first check passes, all files are loaded. -/
theorem loadGroundTruth_eq {gtFiles : List (TxtFile (GtLine B))}
    {drFiles : List (TxtFile (DrLine B K))} (hne : gtFiles ≠ [])
    (hall : ∀ f ∈ gtFiles, fileExists drFiles (fileId f.stem) = true) :
    loadGroundTruth gtFiles drFiles = .ok (loadFiles gtFiles) := by
  rw [loadGroundTruth, if_neg (by simpa using hne), List.all_eq_true.mpr hall]
  rfl

omit [Field K] [LinearOrder K] in
/-- Otherwise the program stops. -/
theorem loadGroundTruth_cases (gtFiles : List (TxtFile (GtLine B)))
    (drFiles : List (TxtFile (DrLine B K))) :
    (loadGroundTruth gtFiles drFiles = .ok (loadFiles gtFiles) ∧ gtFiles ≠ [] ∧
      ∀ f ∈ gtFiles, fileExists drFiles (fileId f.stem) = true) ∨
    (loadGroundTruth gtFiles drFiles = .error .systemExit ∧
      ¬ (gtFiles ≠ [] ∧ ∀ f ∈ gtFiles, fileExists drFiles (fileId f.stem) = true)) := by
  by_cases h : gtFiles ≠ [] ∧ ∀ f ∈ gtFiles, fileExists drFiles (fileId f.stem) = true
  · exact Or.inl ⟨loadGroundTruth_eq h.1 h.2, h⟩
  · refine Or.inr ⟨?_, h⟩
    unfold loadGroundTruth
    split_ifs with hempty hmissing
    · rfl
    · rfl
    · refine absurd ⟨fun hnil => hempty (List.isEmpty_iff.mpr hnil), ?_⟩ h
      rw [Bool.not_eq_true', Bool.not_eq_false] at hmissing
      exact List.all_eq_true.mp hmissing

omit [Field K] [LinearOrder K] in
/-- The second check passes or stops the program. It is made when there is a class. -/
theorem checkDetectionFiles_cases (gtFiles : List (TxtFile (GtLine B)))
    (drFiles : List (TxtFile (DrLine B K))) (classes : List String) :
    (checkDetectionFiles gtFiles drFiles classes = .ok () ∧
      (classes ≠ [] → ∀ f ∈ drFiles, fileExists gtFiles (fileId f.stem) = true)) ∨
    checkDetectionFiles gtFiles drFiles classes = .error .systemExit := by
  unfold checkDetectionFiles
  split_ifs with hcheck
  · refine Or.inl ⟨rfl, fun hne => ?_⟩
    rw [List.isEmpty_eq_false_iff.mpr hne, Bool.false_or] at hcheck
    exact List.all_eq_true.mp hcheck
  · exact Or.inr rfl

variable (overlap thres) in
/-- With an overlap function that does not raise and a minimum overlap above -1,
the evaluation returns unless the counterpart of a file is missing. -/
theorem evalCurves_returns [IsStrictOrderedRing K] (gtFiles : List (TxtFile (GtLine B)))
    (drFiles : List (TxtFile (DrLine B K))) (hthres : -1 < thres)
    (hoverlap : ∀ a b, ∃ v, overlap a b = .ok v) :
    evalCurves overlap thres gtFiles drFiles = .error .systemExit ∨
      ∃ results, evalCurves overlap thres gtFiles drFiles = .ok results := by
  have hgt := covered_loadFiles gtFiles
  obtain ⟨hload, -, -⟩ | ⟨hload, -⟩ := loadGroundTruth_cases gtFiles drFiles
  · obtain ⟨hcheck, hall⟩ | hcheck :=
      checkDetectionFiles_cases gtFiles drFiles (loadFiles gtFiles).gtClasses
    · have hfiles : ∀ c ∈ (loadFiles gtFiles).gtClasses, ∀ d ∈ classDetections drFiles c,
          (loadFiles gtFiles).store d.fileId ≠ none :=
        fun c hc d hd => store_ne_none_of_paired (hall (List.ne_nil_of_mem hc)) hd
      obtain ⟨out, hout⟩ := exists_evalClasses hgt hthres hoverlap (fun _ h => h) hfiles []
      rw [hgt.markUsed_nil] at hout
      refine Or.inr ⟨out.1, ?_⟩
      rw [evalCurves, hload, ok_bind, hcheck, ok_bind, hout]
      rfl
    · rw [evalCurves, hload, ok_bind, hcheck]
      exact Or.inl rfl
  · rw [evalCurves, hload]
    exact Or.inl rfl

variable (overlap thres) in
/-- `eval_mAP` for all files, overlaps and thresholds.

After every step of the evaluation, with the classes `done` finished and the
detections `pre` of the class `c` processed, the assignment is sound, and no
object was counted twice by any of them. The curve of a class divides by zero
for no marks, and the curves that the evaluation returns are sound. With an
overlap function that does not raise and a minimum overlap above -1, it returns
unless the counterpart of a file is missing. -/
theorem evalCurves_sound [IsStrictOrderedRing K] (gtFiles : List (TxtFile (GtLine B)))
    (drFiles : List (TxtFile (DrLine B K))) :
    (∀ done c todo pre post results before marks after,
      (loadFiles gtFiles).gtClasses = done ++ c :: todo →
      classDetections drFiles c = pre ++ post →
      evalClasses overlap thres (loadFiles gtFiles) (classDetections drFiles)
        (loadFiles gtFiles).store done = .ok (results, before) →
      assignAll overlap thres c before pre = .ok (marks, after) →
      AssignmentSound overlap thres c (loadFiles gtFiles).store before pre marks after ∧
        (allCounted overlap (loadFiles gtFiles).store results ++
          countedPlaces overlap c (loadFiles gtFiles).store pre marks).Nodup) ∧
    (∀ c ∈ (loadFiles gtFiles).gtClasses, ∀ marks, ∃ curve : Curve K,
      classCurve (loadFiles gtFiles) c marks = .ok curve) ∧
    (∀ results, evalCurves overlap thres gtFiles drFiles = .ok results →
      ∀ r ∈ results, CurveSound r.curve) ∧
    (-1 < thres → (∀ a b, ∃ v, overlap a b = .ok v) →
      evalCurves overlap thres gtFiles drFiles = .error .systemExit ∨
        ∃ results, evalCurves overlap thres gtFiles drFiles = .ok results) := by
  have hgt := covered_loadFiles gtFiles
  refine ⟨?_, ?_, fun results h => evalCurves_curves overlap thres gtFiles drFiles h,
    evalCurves_returns overlap thres gtFiles drFiles⟩
  · intro done c todo pre post results before marks after hclasses _ hdone hassign
    have hmem : ∀ c' ∈ done, c' ∈ (loadFiles gtFiles).gtClasses := fun c' hc' => by
      rw [hclasses]
      exact List.mem_append_left _ hc'
    rw [← hgt.markUsed_nil] at hdone
    -- The classes before leave behind a list of places, each taken once.
    obtain ⟨taken, rfl, hnodup, hperm, -⟩ := evalClasses_run hgt hmem List.nodup_nil hdone
    obtain ⟨hsound, -, hplaces⟩ := assignAll_sound hassign
    refine ⟨hsound, ?_⟩
    rw [List.append_nil] at hperm
    have hall := nodup_reverse_append hsound.once hnodup fun p hp => (hplaces p hp).1
    have hall' : (taken ++ countedPlaces overlap c _ pre marks).Nodup :=
      (List.perm_append_comm.trans ((List.reverse_perm _).append_left taken)).nodup_iff.mp hall
    exact (hperm.append_right _).nodup_iff.mp hall'
  · intro c hc marks
    obtain ⟨n, hn, hpos⟩ := exists_counter hgt hc
    exact ⟨_, classCurve_eq hn hpos marks⟩

end

/-- Unit squares on a line: shapely's areas, for boxes given by their left edge. -/
def unitSquares : Shapely ℚ ℚ where
  isValid _ := true
  area _ := 1
  intersection a b := max 0 (1 - |a - b|)

/-- One image with an object and a difficult one. -/
def oneImage : List (TxtFile (GtLine ℚ)) :=
  [⟨"a", [⟨"wake", 0, false⟩, ⟨"wake", 5, true⟩]⟩]

/-- A match, a repeated match, a match with the difficult object, and a miss. -/
def fourDetections : List (TxtFile (DrLine ℚ ℚ)) :=
  [⟨"a", [⟨"wake", 9 / 10, 0⟩, ⟨"wake", 8 / 10, 1 / 4⟩, ⟨"wake", 7 / 10, 5⟩,
    ⟨"wake", 6 / 10, 9⟩]⟩]

/-- The evaluation of `oneImage` against `fourDetections`. -/
theorem evalCurves_sound_oneImage :
    (∃ after, AssignmentSound (skewiou unitSquares) (1 / 2) "wake" (loadFiles oneImage).store
      (loadFiles oneImage).store (classDetections fourDetections "wake")
      [⟨1, 0⟩, ⟨0, 1⟩, ⟨0, 0⟩, ⟨0, 1⟩] after) ∧
    (∃ results, evalCurves (skewiou unitSquares) (1 / 2) oneImage fourDetections = .ok results ∧
      ∀ r ∈ results, CurveSound r.curve) := by
  obtain ⟨hstep, -, hcurves, hreturns⟩ :=
    evalCurves_sound (skewiou unitSquares) (1 / 2) oneImage fourDetections
  refine ⟨?_, ?_⟩
  · have hmarks : (assignAll (skewiou unitSquares) (1 / 2) "wake" (loadFiles oneImage).store
        (classDetections fourDetections "wake")).map Prod.fst =
        .ok [⟨1, 0⟩, ⟨0, 1⟩, ⟨0, 0⟩, ⟨0, 1⟩] := by decide +kernel
    -- The marks are evaluated, and the store behind them is the one that the loop returns.
    cases hassign : assignAll (skewiou unitSquares) (1 / 2) "wake" (loadFiles oneImage).store
        (classDetections fourDetections "wake") with
    | error e =>
        rw [hassign] at hmarks
        cases hmarks
    | ok out =>
        rw [hassign] at hmarks
        have hout : out = ([⟨1, 0⟩, ⟨0, 1⟩, ⟨0, 0⟩, ⟨0, 1⟩], out.2) :=
          Prod.ext (Except.ok.inj hmarks) rfl
        rw [hout] at hassign
        exact ⟨out.2, (hstep [] "wake" [] _ [] [] _ _ _ (by decide +kernel)
          (List.append_nil _).symm rfl hassign).1⟩
  · have hnoexit : evalCurves (skewiou unitSquares) (1 / 2) oneImage fourDetections ≠
        .error .systemExit := by
      have hok : (evalCurves (skewiou unitSquares) (1 / 2) oneImage fourDetections).isOk = true := by
        decide +kernel
      intro h
      rw [h] at hok
      cases hok
    obtain ⟨results, hresults⟩ :=
      (hreturns (by norm_num) fun _ _ => exists_skewiou rfl rfl).resolve_left hnoexit
    exact ⟨results, hresults, hcurves results hresults⟩

end W2Net.Proofs.Map
