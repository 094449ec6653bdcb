import W2Net.Lib.Staircase
import W2Net.Proofs.Utils.Map.Curves

/-!
# `W2Net.Proofs.Utils.Map.VocAp`: the interpolated area

`voc_ap` puts a sentinel at both ends of the recall and the precision, sweeps the maximum of
the precision backwards and sums the intervals where the recall changes.

`vocAp_eq_area` reads the sum as the area of a staircase over the points `(recall, precision)`. The
sentinels drop out: the precision 0 at the end is the lowest height, so the interval up to
the recall 1 has no area, and the precision 0 at the front belongs to no interval.
`interpolated_of_sorted` then sums over the distinct recall levels.

`vocAp_interpolated` states it for all lists, and for the curves of `eval_mAP`: their recall
does not decrease, and both lists have an entry for each detection
(`length_of_classCurve`).
-/

set_option autoImplicit false

namespace W2Net.Proofs.Map

open W2Net.Map
open W2Net.Staircase

variable {K : Type} [Field K] [LinearOrder K]

/-- The sweep starts with the largest precision. -/
theorem envelope_concat_zero (ps : List K) :
    ∃ rest, envelope (ps ++ [0]) = ps.foldr max 0 :: rest := by
  induction ps with
  | nil => exact ⟨[], rfl⟩
  | cons p ps ih =>
      obtain ⟨rest, hrest⟩ := ih
      refine ⟨ps.foldr max 0 :: rest, ?_⟩
      rw [List.cons_append, envelope, hrest]
      rfl

/-- The sweep does not look back. -/
theorem tail_envelope_cons (p : K) (ps : List K) :
    (envelope (p :: ps ++ [0])).tail = envelope (ps ++ [0]) := by
  obtain ⟨rest, hrest⟩ := envelope_concat_zero ps
  rw [List.cons_append, envelope, hrest]
  rfl

theorem foldr_max_eq_top {recalls prec : List K} (h : recalls.length = prec.length) :
    prec.foldr max 0 = top (recalls.zip prec) := by
  induction recalls generalizing prec with
  | nil =>
      cases prec with
      | nil => rfl
      | cons p prec => cases h
  | cons r recalls ih =>
      cases prec with
      | nil => cases h
      | cons p prec =>
          show max p (prec.foldr max 0) = max p (top (recalls.zip prec))
          rw [ih (Nat.succ.inj h)]

/-- The sum of `voc_ap` behind a recall of `base`. -/
def intervalSum (base : K) (recalls prec : List K) : K :=
  ((((base :: recalls ++ [1]).zip (recalls ++ [1])).zip (envelope (prec ++ [0]))).map
    fun e : (K × K) × K => if e.1.2 ≠ e.1.1 then (e.1.2 - e.1.1) * e.2 else 0).sum

/-- Where the recall does not change, the product is 0 as well. -/
theorem ite_interval (r s q : K) : (if s ≠ r then (s - r) * q else 0) = (s - r) * q := by
  split_ifs with h
  · rfl
  · rw [not_ne_iff.mp h, sub_self, zero_mul]

/-- The induction on the points: the sum is the area from `base` on. -/
theorem intervalSum_eq_area {base : K} {recalls prec : List K} (h : recalls.length = prec.length) :
    intervalSum base recalls prec = area base (recalls.zip prec) := by
  induction recalls generalizing base prec with
  | nil =>
      cases prec with
      | nil =>
          -- The interval up to the sentinel 1 has the height of the sentinel 0.
          show (if (1 : K) ≠ base then (1 - base) * 0 else 0) + 0 = 0
          rw [ite_interval, mul_zero, add_zero]
      | cons p prec => cases h
  | cons r recalls ih =>
      cases prec with
      | nil => cases h
      | cons p prec =>
          have hlength := Nat.succ.inj h
          obtain ⟨rest, hrest⟩ := envelope_concat_zero (p :: prec)
          have htail := tail_envelope_cons p prec
          rw [hrest, List.tail_cons] at htail
          rw [intervalSum, hrest, htail]
          show (if r ≠ base then (r - base) * (p :: prec).foldr max 0 else 0)
            + intervalSum r recalls prec = area base ((r, p) :: recalls.zip prec)
          rw [ite_interval, foldr_max_eq_top h, ih hlength]
          rfl

/-- `voc_ap` is the area of the staircase. -/
theorem vocAp_eq_area {recalls prec : List K} (h : recalls.length = prec.length) :
    vocAp recalls prec = area 0 (recalls.zip prec) := by
  rw [← intervalSum_eq_area h, vocAp]
  simp only [tail_envelope_cons]
  rfl

section
variable {recalls prec : List K}

omit [Field K] in
theorem ascending_zip {base : K} (hbase : ∀ r ∈ recalls, base ≤ r)
    (hsorted : recalls.Pairwise (· ≤ ·)) : Ascending base (recalls.zip prec) := by
  constructor
  · exact fun p hp => hbase p.1 (List.of_mem_zip hp).1
  · induction recalls generalizing prec with
    | nil => exact List.Pairwise.nil
    | cons r recalls ih =>
        obtain ⟨hr, hsorted⟩ := List.pairwise_cons.mp hsorted
        cases prec with
        | nil => exact List.Pairwise.nil
        | cons p prec =>
            refine List.pairwise_cons.mpr ⟨fun q hq => hr q.1 (List.of_mem_zip hq).1, ?_⟩
            exact ih (fun r' hr' => hbase r' (List.mem_cons_of_mem r hr')) hsorted

omit [Field K] [LinearOrder K] in
theorem last_zip (base : K) (h : recalls.length = prec.length) :
    last base (recalls.zip prec) = recalls.getLastD base := by
  induction recalls generalizing base prec with
  | nil => rfl
  | cons r recalls ih =>
      cases prec with
      | nil => cases h
      | cons p prec =>
          rw [List.zip_cons_cons, last, ih r (Nat.succ.inj h), List.getLastD_cons]

end

/-- `ap` is the interpolated area of a recall and a precision list.

* `sum`: each distinct positive recall level adds the step from the level before, times the
  height from the level on.
* `best`: this height is the best precision from the level on.
* `nonneg`, `le_last`, `last_le_one`: the bounds. -/
structure Interpolated (recalls prec : List K) (ap : K) : Prop where
  sum : ap = ∑ r ∈ levels 0 (recalls.zip prec),
    (r - previous 0 (recalls.zip prec) r) * topFrom (recalls.zip prec) r
  best : ∀ r ∈ levels 0 (recalls.zip prec),
    IsGreatest {p | ∃ e ∈ recalls.zip prec, r ≤ e.1 ∧ e.2 = p} (topFrom (recalls.zip prec) r)
  nonneg : 0 ≤ ap
  le_last : ap ≤ recalls.getLastD 0
  last_le_one : recalls.getLastD 0 ≤ 1

variable [IsStrictOrderedRing K]

theorem interpolated_of_sorted {recalls prec : List K} (hlength : recalls.length = prec.length)
    (hsorted : recalls.Pairwise (· ≤ ·)) (hrecalls : ∀ r ∈ recalls, 0 ≤ r ∧ r ≤ 1)
    (hprec : ∀ p ∈ prec, 0 ≤ p ∧ p ≤ 1) : Interpolated recalls prec (vocAp recalls prec) := by
  -- The points of the curve, from left to right.
  have hascending : Ascending 0 (recalls.zip prec) :=
    ascending_zip (fun r hr => (hrecalls r hr).1) hsorted
  have hy : ∀ e ∈ recalls.zip prec, 0 ≤ e.2 ∧ e.2 ≤ 1 :=
    fun e he => hprec e.2 (List.of_mem_zip he).2
  rw [vocAp_eq_area hlength]
  constructor
  case sum => exact area_eq_sum hascending
  case best => exact fun r hr => isGreatest_topFrom hr fun e he => (hy e he).1
  case nonneg => exact area_nonneg hascending
  case le_last =>
    have hle := area_le hascending fun e he => (hy e he).2
    rwa [sub_zero, last_zip 0 hlength] at hle
  case last_le_one =>
    rw [List.getLastD_eq_getLast?]
    cases hlast : recalls.getLast? with
    | none => exact zero_le_one
    | some r => exact (hrecalls r (List.mem_of_getLast? hlast)).2

/-! ### The curves of `eval_mAP` -/

section
variable {B : Type} {gt : GroundTruth B} {overlap : B → B → PyM (K × K)} {thres : K}

omit [IsStrictOrderedRing K] in
/-- The recall and the precision of a class have the same length. -/
theorem length_of_classCurve {className : String} {marks : List Marks} {curve : Curve K}
    (h : classCurve gt className marks = .ok curve) : curve.recalls.length = curve.prec.length := by
  unfold classCurve at h
  split at h
  · cases h
  · obtain ⟨recalls, hrecalls, h⟩ := bind_eq_ok h
    obtain ⟨prec, hprec, h⟩ := bind_eq_ok h
    cases h
    have hr := (forall₂_of_mapM_eq_ok hrecalls).length_eq
    have hp := (forall₂_of_mapM_eq_ok hprec).length_eq
    rw [List.length_zip, length_cumsum, length_cumsum, List.length_map, List.length_map,
      min_self] at hp
    rw [length_cumsum, List.length_map] at hr
    exact hr.symm.trans hp

omit [IsStrictOrderedRing K] in
/-- Every result holds the curve of its marks. -/
theorem classCurve_of_mem {detections : String → List (Detection B K)} {classes : List String}
    {store after : Store B} {results : List (ClassResult B K)}
    (h : evalClasses overlap thres gt detections store classes = .ok (results, after)) :
    ∀ r ∈ results, classCurve gt r.className r.marks = .ok r.curve := by
  induction classes generalizing store results with
  | nil =>
      cases h
      exact fun r hr => absurd hr List.not_mem_nil
  | cons c classes ih =>
      obtain ⟨assigned, -, h⟩ := bind_eq_ok h
      obtain ⟨curve, hcurve, h⟩ := bind_eq_ok h
      obtain ⟨out, hout, h⟩ := bind_eq_ok h
      cases h
      exact List.forall_mem_cons.mpr ⟨hcurve, ih hout⟩

end

/-- `voc_ap` computes the interpolated area, for all lists of the form that the precision and
the recall have, and for the lists of `eval_mAP` in particular. The AP of empty lists
is 0. -/
theorem vocAp_interpolated :
    (∀ recalls prec : List K, recalls.length = prec.length → recalls.Pairwise (· ≤ ·) →
      (∀ r ∈ recalls, 0 ≤ r ∧ r ≤ 1) → (∀ p ∈ prec, 0 ≤ p ∧ p ≤ 1) →
      Interpolated recalls prec (vocAp recalls prec)) ∧
    vocAp [] [] = (0 : K) ∧
    ∀ {B : Type} (overlap : B → B → PyM (K × K)) (thres : K) (gtFiles : List (TxtFile (GtLine B)))
      (drFiles : List (TxtFile (DrLine B K))) (results : List (ClassResult B K)),
      evalCurves overlap thres gtFiles drFiles = .ok results →
      ∀ r ∈ results, Interpolated r.curve.recalls r.curve.prec (vocAp r.curve.recalls r.curve.prec) := by
  refine ⟨fun recalls prec hlength hsorted hrecalls hprec =>
    interpolated_of_sorted hlength hsorted hrecalls hprec, vocAp_eq_area rfl, ?_⟩
  intro B overlap thres gtFiles drFiles results h r hr
  have hsound := evalCurves_curves overlap thres gtFiles drFiles h r hr
  obtain ⟨gt, -, h⟩ := bind_eq_ok h
  obtain ⟨_, -, h⟩ := bind_eq_ok h
  obtain ⟨out, hout, h⟩ := bind_eq_ok h
  cases h
  exact interpolated_of_sorted (length_of_classCurve (classCurve_of_mem hout r hr)) hsound.monotone
    hsound.recall_mem fun p hp => ⟨(hsound.prec_mem p hp).1, (hsound.prec_mem p hp).2.le⟩

/-- Two levels, one of them repeated. -/
theorem vocAp_interpolated_threePoints :
    Interpolated [(1 / 2 : ℚ), 1 / 2, 1] [1, 1 / 2, 2 / 3]
      (vocAp [(1 / 2 : ℚ), 1 / 2, 1] [1, 1 / 2, 2 / 3]) :=
  (vocAp_interpolated (K := ℚ)).1 [1 / 2, 1 / 2, 1] [1, 1 / 2, 2 / 3] rfl (by decide +kernel)
    (by decide +kernel) (by decide +kernel)

/-- The AP is 1/2 up to the first level and 2/3 of the other half. -/
example : vocAp [(1 / 2 : ℚ), 1 / 2, 1] [1, 1 / 2, 2 / 3] = 5 / 6 := by decide +kernel

end W2Net.Proofs.Map
