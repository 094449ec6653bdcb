import W2Net.Lib.Ranking
import W2Net.Proofs.Utils.Map.VocAp

/-!
# `W2Net.Proofs.Utils.Map.Appending`: one more detection at the end

The loop of `eval_mAP` assigns the detections of a class in the order of their confidence, so
a detection with the lowest confidence comes last (`classDetections_lowest`). It adds one
mark and changes none of the others (`assignAll_concat`).

The curve of the class gets one more point (`points_concat`). Behind the last recall it adds
area, and over the earlier intervals it can only lift the envelope. Without a true positive
the new point stands above the last one and is not higher, so the AP stays
(`area_points_concat`). `ap_append` puts the parts together.
-/

set_option autoImplicit false

namespace W2Net.Proofs.Map

open W2Net.Map
open W2Net.Staircase

section
variable {B K : Type} [Field K] [LinearOrder K]
variable (overlap : B → B → PyM (K × K)) (thres : K) (className : String)

/-! ### The marks -/

/-- The last detection is assigned after all others. -/
theorem assignAll_concat (store : Store B) (detections : List (Detection B K))
    (detection : Detection B K) :
    assignAll overlap thres className store (detections ++ [detection]) = (do
      let assigned ← assignAll overlap thres className store detections
      let step ← assign overlap thres className assigned.2 detection
      .ok (assigned.1 ++ [step.1], step.2)) := by
  induction detections generalizing store with
  | nil =>
      show (assign overlap thres className store detection >>= fun _ => _) =
        assign overlap thres className store detection >>= fun _ => _
      rfl
  | cons d detections ih =>
      rw [List.cons_append, assignAll, assignAll]
      cases assign overlap thres className store d with
      | error e => rfl
      | ok first =>
          rw [ok_bind, ok_bind, ih]
          -- Both sides stop at the first error, in the same order of the calls.
          cases assignAll overlap thres className first.2 detections with
          | error e => rfl
          | ok rest =>
              rw [ok_bind, ok_bind, ok_bind]
              cases assign overlap thres className rest.2 detection with
              | error e => rfl
              | ok last => rfl

variable {overlap thres className} in
/-- A detection is a true positive, a false positive, or out of account. -/
theorem assign_marks {store after : Store B} {detection : Detection B K} {mark : Marks}
    (h : assign overlap thres className store detection = .ok (mark, after)) :
    mark = ⟨1, 0⟩ ∨ mark = ⟨0, 1⟩ ∨ mark = ⟨0, 0⟩ := by
  unfold assign at h
  split at h
  · cases h
  · obtain ⟨best, -, h⟩ := bind_eq_ok h
    split_ifs at h
    · split at h
      · cases h
      · split_ifs at h
        · cases h
          exact Or.inr (Or.inr rfl)
        · cases h
          exact Or.inr (Or.inl rfl)
        · cases h
          exact Or.inl rfl
    · cases h
      exact Or.inr (Or.inl rfl)

end

/-! ### The points of the curve -/

section
variable {K : Type} [Field K]

/-- The recall and the precision after `p.1` true and `p.2` false positives of `n` objects. -/
def point (n : ℕ) (p : ℕ × ℕ) : K × K := ((p.1 : K) / n, (p.1 : K) / (p.2 + p.1 + 1 / 10 ^ 6))

/-- The running sums of the marks. -/
def sums (marks : List Marks) : List (ℕ × ℕ) :=
  (cumsum 0 (marks.map Marks.tp)).zip (cumsum 0 (marks.map Marks.fp))

/-- The true and the false positives of all marks. -/
def total (marks : List Marks) : ℕ × ℕ := ((marks.map Marks.tp).sum, (marks.map Marks.fp).sum)

/-- The points `(recall, precision)` of a class with `n` objects. -/
def points (n : ℕ) (marks : List Marks) : List (K × K) := (sums marks).map (point n)

theorem sums_concat (marks : List Marks) (mark : Marks) :
    sums (marks ++ [mark]) = sums marks ++ [total (marks ++ [mark])] := by
  unfold sums total
  simp only [List.map_append, List.map_cons, List.map_nil, cumsum_concat, Nat.zero_add,
    List.sum_append, List.sum_cons, List.sum_nil, Nat.add_zero]
  rw [List.zip_append (by rw [length_cumsum, length_cumsum, List.length_map, List.length_map])]
  rfl

theorem points_concat (n : ℕ) (marks : List Marks) (mark : Marks) :
    points n (marks ++ [mark]) = (points n marks ++ [point n (total (marks ++ [mark]))] : List (K × K)) := by
  rw [points, sums_concat, List.map_append]
  rfl

theorem total_concat (marks : List Marks) (mark : Marks) :
    total (marks ++ [mark]) = ((total marks).1 + mark.tp, (total marks).2 + mark.fp) := by
  simp only [total, List.map_append, List.map_cons, List.map_nil, List.sum_append, List.sum_cons,
    List.sum_nil, Nat.add_zero]

variable [LinearOrder K] [IsStrictOrderedRing K]

/-- The curve of a class has these points, and its AP is the area under them. -/
theorem vocAp_curve {B : Type} {gt : GroundTruth B} {className : String} {n : ℕ}
    (hn : gt.gtCounterPerClass.get? className = some n) (hpos : 0 < n) (marks : List Marks) :
    ∃ curve : Curve K, classCurve gt className marks = .ok curve ∧
      vocAp curve.recalls curve.prec = area 0 (points n marks) := by
  refine ⟨_, classCurve_eq hn hpos marks, ?_⟩
  have hlength : (cumsum 0 (marks.map Marks.tp)).length = (cumsum 0 (marks.map Marks.fp)).length := by
    rw [length_cumsum, length_cumsum, List.length_map, List.length_map]
  have hrecalls : (cumsum 0 (marks.map Marks.tp)).map (fun (t : ℕ) => (t : K) / n)
      = (sums marks).map ((fun (t : ℕ) => (t : K) / n) ∘ Prod.fst) := by
    rw [← List.map_map, sums, List.map_fst_zip hlength.le]
  rw [vocAp_eq_area (by rw [List.length_map, List.length_map, List.length_zip, hlength, min_self])]
  simp only [hrecalls]
  exact congrArg (area 0) List.zip_map'

theorem ascending_points (n : ℕ) (marks : List Marks) :
    Ascending (0 : K) (points n marks) := by
  constructor
  · intro p hp
    obtain ⟨s, -, rfl⟩ := List.mem_map.mp hp
    exact div_nonneg (Nat.cast_nonneg _) (Nat.cast_nonneg _)
  · -- The recall grows with the running sum of the true positives.
    have hlength : (cumsum 0 (marks.map Marks.tp)).length ≤ (cumsum 0 (marks.map Marks.fp)).length := by
      rw [length_cumsum, length_cumsum, List.length_map, List.length_map]
    have htp : (sums marks).Pairwise fun s t => s.1 ≤ t.1 := by
      rw [← List.pairwise_map (f := Prod.fst) (R := (· ≤ ·)), sums, List.map_fst_zip hlength]
      exact pairwise_cumsum 0 _
    refine htp.map _ fun s t hst => ?_
    exact div_le_div_of_nonneg_right (Nat.cast_le.mpr hst) (Nat.cast_nonneg n)

/-- More false positives do not raise the precision. -/
theorem point_snd_le {n t f g : ℕ} (h : f ≤ g) : (point n (t, g) : K × K).2 ≤ (point n (t, f)).2 := by
  have hpos : (0 : K) < f + t + 1 / 10 ^ 6 := by positivity
  refine div_le_div_of_nonneg_left (Nat.cast_nonneg t) hpos ?_
  have hcast : (f : K) ≤ g := Nat.cast_le.mpr h
  show (f : K) + t + 1 / 10 ^ 6 ≤ g + t + 1 / 10 ^ 6
  linarith

/-- The area with one more mark. -/
theorem area_points_concat (n : ℕ) (marks : List Marks) (mark : Marks) :
    area 0 (points n marks : List (K × K)) ≤ area 0 (points n (marks ++ [mark])) ∧
      (mark.tp = 0 →
        area 0 (points n (marks ++ [mark])) = area 0 (points n marks : List (K × K))) := by
  have hascending := ascending_points (K := K) n (marks ++ [mark])
  rw [points_concat] at hascending ⊢
  refine ⟨area_concat_le hascending, fun htp => area_concat_eq ?_ ?_⟩
  all_goals rw [total_concat, htp, Nat.add_zero]
  · -- The recall is the one of the last mark.
    rcases List.eq_nil_or_concat' marks with rfl | ⟨before, m, rfl⟩
    · show ((0 : ℕ) : K) / n = 0
      rw [Nat.cast_zero, zero_div]
    · rw [points_concat, last_concat]
      rfl
  · intro p hp
    rcases List.eq_nil_or_concat' marks with rfl | ⟨before, m, rfl⟩
    · cases hp
    · rw [points_concat, List.getLast?_concat, Option.some.injEq] at hp
      rw [← hp]
      exact point_snd_le (Nat.le_add_right _ _)

end

/-! ### The order of the detections -/

section
variable {B K : Type} [LinearOrder K]

/-- The detections of a class in one file. -/
def ofFile (className : String) (file : TxtFile (DrLine B K)) : List (Detection B K) :=
  (file.lines.filter fun line => line.className = className).map fun line =>
    ⟨line.confidence, fileId file.stem, line.bbox⟩

theorem classDetections_eq (drFiles : List (TxtFile (DrLine B K))) (className : String) :
    classDetections drFiles className
      = rankBy Detection.confidence (drFiles.flatMap (ofFile className)) := rfl

/-- A line with a confidence below all others of its class comes last, and does not count for
the other classes. -/
theorem classDetections_lowest (before after : List (TxtFile (DrLine B K))) (stem : String)
    (above below : List (DrLine B K)) (line : DrLine B K)
    (hlowest : ∀ d ∈ classDetections (before ++ ⟨stem, above ++ below⟩ :: after) line.className,
      line.confidence < d.confidence) (className : String) :
    classDetections (before ++ ⟨stem, above ++ line :: below⟩ :: after) className
      = classDetections (before ++ ⟨stem, above ++ below⟩ :: after) className ++
        if line.className = className then [⟨line.confidence, fileId stem, line.bbox⟩] else [] := by
  simp only [classDetections_eq, List.flatMap_append, List.flatMap_cons, ofFile,
    List.filter_append, List.map_append] at hlowest ⊢
  split_ifs with hclass
  · subst hclass
    rw [List.filter_cons_of_pos (by simp), List.map_cons]
    simp only [List.append_assoc, List.cons_append]
    rw [← List.append_assoc, ← List.append_assoc _ _ (_ ++ _)]
    -- The ranking permutes the detections, so the line is below all of them before it as well.
    have hmem : ∀ d ∈ _, line.confidence < Detection.confidence d :=
      fun d hd => hlowest d ((rankBy_perm _ _).mem_iff.mpr hd)
    refine rankBy_lowest (fun d hd => (hmem d ?_).le) fun d hd => hmem d ?_
    all_goals
      simp only [List.mem_append] at hd ⊢
      tauto
  · rw [List.filter_cons_of_neg (by simpa using hclass), List.append_nil]

end

section
variable {B K : Type} [Field K] [LinearOrder K] [IsStrictOrderedRing K]
variable (overlap : B → B → PyM (K × K)) (thres : K)

/-- The marks before and after one more detection: its own mark comes last, the AP does not
fall, and only a true positive changes it. -/
structure APAppended (gt : GroundTruth B) (className : String) (marks : List Marks) (mark : Marks) :
    Prop where
  kind : mark = ⟨1, 0⟩ ∨ mark = ⟨0, 1⟩ ∨ mark = ⟨0, 0⟩
  ap : ∃ curve curve' : Curve K, classCurve gt className marks = .ok curve ∧
    classCurve gt className (marks ++ [mark]) = .ok curve' ∧
    vocAp curve.recalls curve.prec ≤ vocAp curve'.recalls curve'.prec ∧
    (mark.tp = 0 → vocAp curve'.recalls curve'.prec = vocAp curve.recalls curve.prec)

/-- One more detection at the end of the list of a class, for every store that the loop may
start from, and one more line in a detection file, below all others of its class. -/
theorem ap_append (gtFiles : List (TxtFile (GtLine B))) {className : String}
    (hclass : className ∈ (loadFiles gtFiles).gtClasses) :
    (∀ (store after' : Store B) (detections : List (Detection B K)) (detection : Detection B K)
      (marks' : List Marks),
      assignAll overlap thres className store (detections ++ [detection]) = .ok (marks', after') →
      ∃ marks mark after, assignAll overlap thres className store detections = .ok (marks, after) ∧
        marks' = marks ++ [mark] ∧ APAppended (K := K) (loadFiles gtFiles) className marks mark) ∧
    ∀ (before behind : List (TxtFile (DrLine B K))) (stem : String)
      (above below : List (DrLine B K)) (line : DrLine B K),
      line.className = className →
      (∀ d ∈ classDetections (before ++ ⟨stem, above ++ below⟩ :: behind) className,
        line.confidence < d.confidence) →
      classDetections (before ++ ⟨stem, above ++ line :: below⟩ :: behind) className
        = classDetections (before ++ ⟨stem, above ++ below⟩ :: behind) className ++
          [⟨line.confidence, fileId stem, line.bbox⟩] := by
  constructor
  · intro store after' detections detection marks' h
    rw [assignAll_concat] at h
    obtain ⟨⟨marks, after⟩, hmarks, h⟩ := bind_eq_ok h
    obtain ⟨⟨mark, last⟩, hmark, h⟩ := bind_eq_ok h
    cases h
    refine ⟨marks, mark, after, hmarks, rfl, assign_marks hmark, ?_⟩
    -- Both values are areas under the same formula, for the marks with and without the last one.
    obtain ⟨n, hn, hpos⟩ := exists_counter (covered_loadFiles gtFiles) hclass
    obtain ⟨curve, hcurve, hap⟩ := vocAp_curve (K := K) hn hpos marks
    obtain ⟨curve', hcurve', hap'⟩ := vocAp_curve (K := K) hn hpos (marks ++ [mark])
    refine ⟨curve, curve', hcurve, hcurve', ?_⟩
    rw [hap, hap']
    exact area_points_concat n marks mark
  · rintro before behind stem above below line rfl hlowest
    rw [classDetections_lowest before behind stem above below line hlowest, if_pos rfl]

end

/-- A repeated detection of the object of `oneImage`, below the four others. -/
theorem ap_append_oneImage :
    ∃ marks mark after,
      assignAll (skewiou unitSquares) (1 / 2) "wake" (loadFiles oneImage).store
        (classDetections fourDetections "wake") = .ok (marks, after) ∧
      APAppended (K := ℚ) (loadFiles oneImage) "wake" marks mark := by
  have hclass : "wake" ∈ (loadFiles oneImage).gtClasses := by decide +kernel
  have happend := (ap_append (skewiou unitSquares) (1 / 2) oneImage hclass).1
    (loadFiles oneImage).store
  cases hassign : assignAll (skewiou unitSquares) (1 / 2) "wake" (loadFiles oneImage).store
      (classDetections fourDetections "wake" ++ [⟨1 / 2, "a", 1 / 8⟩]) with
  | error e =>
      have hok : (assignAll (skewiou unitSquares) (1 / 2) "wake" (loadFiles oneImage).store
          (classDetections fourDetections "wake" ++ [⟨1 / 2, "a", 1 / 8⟩])).isOk = true := by
        decide +kernel
      rw [hassign] at hok
      cases hok
  | ok out =>
      obtain ⟨marks, mark, after, hmarks, -, happended⟩ := happend out.2 _ _ out.1 hassign
      exact ⟨marks, mark, after, hmarks, happended⟩

end W2Net.Proofs.Map
