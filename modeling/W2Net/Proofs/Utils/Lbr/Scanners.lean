import W2Net.Proofs.Utils.Lbr.Scan
import W2Net.Utils.Lbr.LambdaGeo

/-!
# `W2Net.Proofs.Utils.Lbr.Scanners`: the two run scans find the same runs

`estimate_lambda_geo_from_mask` finds its crests with a flag and a 0 behind the last sample, the
functions of `Crests` with nested loops. `ScanInv` is what the loop with the flag keeps: after `k`
samples it has the maximal runs whose closing 0 is among them, and an open run is a window up to
the sample `k - 1` that cannot be extended to the left. The four cases of a step are those of the
sample and the flag (`ScanInv.open_run`, `ScanInv.extend`, `ScanInv.close`, `ScanInv.skip`).

Behind the appended 0 every run is closed, so both scans have the same members in the same order
(`crestRuns_eq_crestSegments`). `scanners_agree` adds what the runs are, and that the rounded
middle of a run lies in it.
-/

set_option autoImplicit false

namespace W2Net.Proofs.Lbr

open W2Net.Lbr

variable {K : Type} [Field K] [LinearOrder K]

/-! ### The loop with the flag -/

/-- The test behind a closed run. -/
def keepsRun (minRunPx : K) (s e : ℕ) : Bool :=
  decide (s < e ∧ minRunPx ≤ ((e : K) - s + 1) * sampleStep)

/-- The samples as the numbers 0 and 1. -/
def bits (vals : List Bool) : List ℕ := vals.map Bool.toNat

/-- The entries of `enumerate(line_vals + [0])`. Behind the last sample there is a 0. -/
theorem zipIdx_bits (vals : List Bool) :
    (bits vals ++ [0]).zipIdx =
      (List.range (vals.length + 1)).map fun i => ((vals.getD i false).toNat, i) := by
  apply List.ext_getElem
  · simp [bits]
  · intro i h₁ h₂
    rw [List.getElem_zipIdx, List.getElem_map, List.getElem_range, Nat.zero_add]
    rw [List.length_map, List.length_range] at h₂
    by_cases hi : i < vals.length
    · simp [bits, hi]
    · have hlast : i = vals.length := by omega
      simp [bits, hlast]

/-- What the loop knows after `k` samples. -/
structure ScanInv (vals : List Bool) (keep : ℕ → ℕ → Bool) (k : ℕ) (scan : RunScan) : Prop where
  inside : scan.inside = true → ∃ e, e + 1 = k ∧
    Window (IsSet vals) vals.length scan.startIdx e ∧ ∀ j, j + 1 = scan.startIdx → ¬IsSet vals j
  outside : scan.inside = false → ∀ j, j + 1 = k → ¬IsSet vals j
  mem : ∀ s e, (s, e) ∈ scan.runs ↔
    MaximalRun (IsSet vals) vals.length s e ∧ e + 1 < k ∧ keep s e = true
  apart : scan.runs.Pairwise fun a b => a.2 + 1 < b.1

theorem IsSet.lt {vals : List Bool} {i : ℕ} (h : IsSet vals i) : i < vals.length := by
  by_contra hge
  rw [IsSet, List.getD_eq_getElem?_getD, List.getElem?_eq_none (by omega)] at h
  exact Bool.false_ne_true h

section
variable {vals : List Bool} {keep : ℕ → ℕ → Bool} {k : ℕ} {scan : RunScan}

/-- A set sample closes no run. -/
theorem ScanInv.mem_of_isSet (h : ScanInv vals keep k scan) (hk : IsSet vals k) (s e : ℕ) :
    (s, e) ∈ scan.runs ↔
      MaximalRun (IsSet vals) vals.length s e ∧ e + 1 < k + 1 ∧ keep s e = true := by
  rw [h.mem]
  refine and_congr_right fun hr => and_congr_left fun _ => ⟨fun hlt => by omega, fun hlt => ?_⟩
  rcases Nat.lt_or_ge (e + 1) k with h' | h'
  · exact h'
  · -- The run would end right in front of `k` and go on.
    have hek : e + 1 = k := by omega
    exact absurd (hek ▸ hk) (hr.right (hek ▸ hk.lt))

/-- A set sample outside of a run opens one. -/
theorem ScanInv.open_run (h : ScanInv vals keep k scan) (hk : IsSet vals k)
    (hout : scan.inside = false) :
    ScanInv vals keep (k + 1) { scan with inside := true, startIdx := k } where
  inside _ := ⟨k, rfl, Window.single hk.lt hk, h.outside hout⟩
  outside hin := by cases hin
  mem := h.mem_of_isSet hk
  apart := h.apart

/-- A set sample in a run extends it. -/
theorem ScanInv.extend (h : ScanInv vals keep k scan) (hk : IsSet vals k)
    (hin : scan.inside = true) : ScanInv vals keep (k + 1) scan where
  inside _ := by
    obtain ⟨e, rfl, hw, hleft⟩ := h.inside hin
    have hle := hw.le
    refine ⟨e + 1, rfl, { le := by omega, lt := hk.lt, all := fun j hj hj' => ?_ }, hleft⟩
    rcases Nat.lt_or_ge e j with hlt | hge
    · have : j = e + 1 := by omega
      exact this ▸ hk
    · exact hw.all j hj hge
  outside hout := by
    rw [hin] at hout
    cases hout
  mem := h.mem_of_isSet hk
  apart := h.apart

/-- An unset sample outside of a run changes nothing. -/
theorem ScanInv.skip (h : ScanInv vals keep k scan) (hk : ¬IsSet vals k)
    (hout : scan.inside = false) : ScanInv vals keep (k + 1) scan where
  inside hin := by
    rw [hin] at hout
    cases hout
  outside _ j hj := by
    have : j = k := by omega
    exact this ▸ hk
  mem s e := by
    rw [h.mem]
    refine and_congr_right fun hr => and_congr_left fun _ => ⟨fun hlt => by omega, fun hlt => ?_⟩
    rcases Nat.lt_or_ge (e + 1) k with h' | h'
    · exact h'
    · -- No run ends right in front of `k`.
      exact absurd (hr.all e hr.le (Nat.le_refl e)) (h.outside hout e (by omega))
  apart := h.apart

/-- The run that an unset sample closes. -/
theorem ScanInv.maximalRun (h : ScanInv vals keep k scan) (hk : ¬IsSet vals k)
    (hin : scan.inside = true) :
    ∃ e, e + 1 = k ∧ MaximalRun (IsSet vals) vals.length scan.startIdx e := by
  obtain ⟨e, rfl, hw, hleft⟩ := h.inside hin
  exact ⟨e, rfl, { hw with left := hleft, right := fun _ => hk }⟩

/-- The list behind a closed run: the kept runs that end up to its end. -/
theorem ScanInv.mem_closed {e : ℕ} (h : ScanInv vals keep (e + 1) scan)
    (hrun : MaximalRun (IsSet vals) vals.length scan.startIdx e) (s e' : ℕ) :
    (s, e') ∈ (if keep scan.startIdx e = true then scan.runs ++ [(scan.startIdx, e)]
        else scan.runs) ↔
      MaximalRun (IsSet vals) vals.length s e' ∧ e' + 1 < e + 1 + 1 ∧ keep s e' = true := by
  have hadd : (s, e') ∈ scan.runs ++ [(scan.startIdx, e)] ↔
      s = scan.startIdx ∧ e' = e ∨ (s, e') ∈ scan.runs := by
    rw [List.mem_append, List.mem_singleton, Prod.mk.injEq, or_comm]
  have hbefore : e' + 1 < e + 1 ↔ e' < e := Nat.add_lt_add_iff_right
  have hupto : e' + 1 < e + 1 + 1 ↔ e' ≤ e := by omega
  rw [mem_addRun_iff hadd, h.mem, hbefore, hupto, ← and_assoc, ← and_assoc, hrun.to_end_iff,
    or_comm, or_and_right]

/-- A closed run is apart from the runs of the list. -/
theorem ScanInv.apart_closed {e : ℕ} (h : ScanInv vals keep (e + 1) scan)
    (hrun : MaximalRun (IsSet vals) vals.length scan.startIdx e) :
    (scan.runs ++ [(scan.startIdx, e)]).Pairwise fun a b => a.2 + 1 < b.1 := by
  refine List.pairwise_append.mpr ⟨h.apart, List.pairwise_singleton _ _, ?_⟩
  intro a ha b hb
  rw [List.mem_singleton.mp hb]
  obtain ⟨hr, hlt, -⟩ := (h.mem a.1 a.2).mp ha
  have hle := hr.le
  have hle' := hrun.le
  rcases hr.trichotomy hrun with hfront | ⟨-, heq⟩ | hbehind
  · exact hfront
  · -- The runs of the list end in front of this one.
    omega
  · omega

/-- An unset sample in a run closes it. -/
theorem ScanInv.close (h : ScanInv vals keep k scan) (hk : ¬IsSet vals k)
    (hin : scan.inside = true) :
    ScanInv vals keep (k + 1)
      { scan with
        inside := false
        runs := if keep scan.startIdx (k - 1) = true then scan.runs ++ [(scan.startIdx, k - 1)]
          else scan.runs } := by
  obtain ⟨e, rfl, hrun⟩ := h.maximalRun hk hin
  exact
    { inside := fun hin' => by cases hin'
      outside := fun _ j hj => by
        have : j = e + 1 := by omega
        exact this ▸ hk
      mem := h.mem_closed hrun
      apart := by
        show (if keep scan.startIdx e = true then scan.runs ++ [(scan.startIdx, e)]
          else scan.runs).Pairwise _
        split
        · exact h.apart_closed hrun
        · exact h.apart }

/-- One sample. -/
theorem ScanInv.step (minRunPx : K) (h : ScanInv vals (keepsRun minRunPx) k scan) :
    ScanInv vals (keepsRun minRunPx) (k + 1)
      (runStep minRunPx scan ((vals.getD k false).toNat, k)) := by
  -- The four cases of the sample and the flag.
  by_cases hk : IsSet vals k
  · have hval : (vals.getD k false).toNat = 1 := by rw [show vals.getD k false = true from hk]; rfl
    rw [hval]
    cases hin : scan.inside with
    | false =>
        simp only [runStep, hin]
        exact h.open_run hk hin
    | true =>
        simp only [runStep, hin]
        exact h.extend hk hin
  · have hval : (vals.getD k false).toNat = 0 := by
      rw [show vals.getD k false = false from Bool.eq_false_of_not_eq_true hk]
      rfl
    rw [hval]
    cases hin : scan.inside with
    | false =>
        simp only [runStep, hin]
        exact h.skip hk hin
    | true =>
        have hclose := h.close hk hin
        simp only [runStep, hin]
        by_cases hkeep : keepsRun minRunPx scan.startIdx (k - 1) = true
        · rw [if_pos hkeep] at hclose
          rw [keepsRun, decide_eq_true_iff] at hkeep
          simpa [hkeep] using hclose
        · rw [if_neg hkeep] at hclose
          rw [keepsRun, decide_eq_true_iff] at hkeep
          simpa [hkeep] using hclose

end

/-- After `k` samples. Induction on the samples in front of it. -/
theorem scanInv_range (vals : List Bool) (minRunPx : K) (k : ℕ) :
    ScanInv vals (keepsRun minRunPx) k
      (((List.range k).map fun i => ((vals.getD i false).toNat, i)).foldl (runStep minRunPx)
        ⟨false, 0, []⟩) := by
  induction k with
  | zero =>
      exact
        { inside := fun hin => by cases hin
          outside := fun _ j hj => by omega
          mem := fun s e => by simp
          apart := List.Pairwise.nil }
  | succ k ih =>
      rw [List.range_succ, List.map_append, List.foldl_append]
      exact ih.step minRunPx

/-- The crests are exactly the maximal runs that pass the test. -/
theorem mem_crestRuns (vals : List Bool) (minRunPx : K) (s e : ℕ) :
    (s, e) ∈ crestRuns minRunPx (bits vals) ↔
      MaximalRun (IsSet vals) vals.length s e ∧ keepsRun minRunPx s e = true := by
  rw [crestRuns, zipIdx_bits, (scanInv_range vals minRunPx (vals.length + 1)).mem]
  refine and_congr_right fun hr => and_iff_right ?_
  have := hr.lt
  omega

theorem separated_crestRuns (vals : List Bool) (minRunPx : K) :
    Separated (crestRuns minRunPx (bits vals)) where
  le a ha := ((mem_crestRuns vals minRunPx a.1 a.2).mp ha).1.le
  apart := by
    rw [crestRuns, zipIdx_bits]
    exact (scanInv_range vals minRunPx (vals.length + 1)).apart

/-- The two scans return the same runs, when they keep the same ones. -/
theorem crestRuns_eq_crestSegments (vals : List Bool) (minRunPx : K) :
    crestRuns minRunPx (bits vals) = crestSegments vals (keepsRun minRunPx) := by
  apply (separated_crestRuns vals minRunPx).eq_of_mem_iff (separated_crestSegments vals _)
  intro a
  rw [show a = (a.1, a.2) from rfl, mem_crestRuns, mem_crestSegments]

/-! ### The lengths and the middles -/

/-- For a minimum of two samples or more, the test on the length in pixels is the one on the number
of samples: it drops the runs of a single sample either way. -/
theorem keepsRun_eq_longEnough [IsStrictOrderedRing K] {m : ℤ} (hm : 2 ≤ m) :
    keepsRun (m * sampleStep : K) = longEnough m := by
  funext s e
  have hlen : (m * sampleStep : K) ≤ ((e : K) - s + 1) * sampleStep ↔ m ≤ (e : ℤ) - s + 1 := by
    have hstep : (0 : K) < sampleStep := one_half_pos
    rw [mul_le_mul_iff_left₀ hstep]
    exact_mod_cast Iff.rfl
  rw [keepsRun, longEnough, decide_eq_decide, hlen]
  omega

/-- The middle of a run is rounded to an index of the run. -/
theorem pyRound_midIdx [IsStrictOrderedRing K] [FloorRing K] {r : ℕ × ℕ} (h : r.1 ≤ r.2) :
    (r.1 : ℤ) ≤ pyRound (midIdx r : K) ∧ pyRound (midIdx r : K) ≤ r.2 := by
  have hle : (r.1 : K) ≤ r.2 := by exact_mod_cast h
  have hlow : ((r.1 : ℤ) : K) ≤ midIdx r := by
    push_cast
    unfold midIdx
    linarith
  have hhigh : (midIdx r : K) ≤ ((r.2 : ℤ) : K) := by
    push_cast
    unfold midIdx
    linarith
  constructor
  · rw [← pyRound_intCast (K := K) r.1]
    exact pyRound_mono hlow
  · rw [← pyRound_intCast (K := K) r.2]
    exact pyRound_mono hhigh

/-! ### The agreement -/

/-- The runs of a sample sequence with at least `m` samples, as both scans return them. -/
structure RunList (vals : List Bool) (m : ℤ) (runs : List (ℕ × ℕ)) : Prop where
  /-- First to last, with an unset sample between any two. -/
  sorted : runs.Pairwise fun a b => a.2 < b.1 ∧ ∃ i, a.2 < i ∧ i < b.1 ∧ ¬IsSet vals i
  maximal : ∀ r ∈ runs, MaximalRun (IsSet vals) vals.length r.1 r.2
  long : ∀ r ∈ runs, m ≤ (r.2 : ℤ) - r.1 + 1
  /-- Every sample of a long maximal run is in one of them. -/
  cover : ∀ s e i, MaximalRun (IsSet vals) vals.length s e → m ≤ (e : ℤ) - s + 1 → s ≤ i → i ≤ e →
    ∃ r ∈ runs, r.1 ≤ i ∧ i ≤ r.2

theorem runList_crestSegments (vals : List Bool) (m : ℤ) :
    RunList vals m (crestSegments vals (longEnough m)) where
  sorted := by
    refine (crestSegments_pairwise vals _).imp_of_mem fun {a b} ha hb hlt => ?_
    have hrun := ((mem_crestSegments vals _ a.1 a.2).mp ha).1
    have hnext := ((mem_crestSegments vals _ b.1 b.2).mp hb).1
    have hb₁ := hnext.le
    have hb₂ := hnext.lt
    exact ⟨by omega, a.2 + 1, by omega, hlt, hrun.right (by omega)⟩
  maximal r hr := ((mem_crestSegments vals _ r.1 r.2).mp hr).1
  long r hr := of_decide_eq_true ((mem_crestSegments vals _ r.1 r.2).mp hr).2
  cover s e i hr hlong hs he :=
    ⟨(s, e), (mem_crestSegments vals _ s e).mpr ⟨hr, decide_eq_true hlong⟩, hs, he⟩

/-- For every sequence of samples and every minimum of two samples or more: the loop with the flag
and the nested loops return the same runs, which are the maximal runs of at least this length,
first to last. `crest_indices` are their middles, and each is rounded to an index of its run. -/
theorem scanners_agree [IsStrictOrderedRing K] [FloorRing K] (vals : List Bool) {m : ℤ}
    (hm : 2 ≤ m) :
    crestRuns (m * sampleStep : K) (bits vals) = crestSegments vals (longEnough m) ∧
    crestIndices (m * sampleStep : K) (bits vals) =
      (crestSegments vals (longEnough m)).map midIdx ∧
    RunList vals m (crestSegments vals (longEnough m)) ∧
    ∀ r ∈ crestSegments vals (longEnough m),
      (r.1 : ℤ) ≤ pyRound (midIdx r : K) ∧ pyRound (midIdx r : K) ≤ r.2 := by
  have hruns : crestRuns (m * sampleStep : K) (bits vals) = crestSegments vals (longEnough m) := by
    rw [crestRuns_eq_crestSegments, keepsRun_eq_longEnough hm]
  refine ⟨hruns, ?_, runList_crestSegments vals m, fun r hr => ?_⟩
  · rw [crestIndices, hruns]
  · exact pyRound_midIdx ((separated_crestSegments vals _).le r hr)

/-- Runs at both ends of the sequence, and a run of a single sample. -/
theorem scanners_agree_bothEnds :
    crestRuns ((2 : ℤ) * sampleStep : ℚ) (bits [true, true, false, true, false, true, true, true]) =
      crestSegments [true, true, false, true, false, true, true, true] (longEnough 2) ∧
    crestSegments [true, true, false, true, false, true, true, true] (longEnough 2) =
      [(0, 1), (5, 7)] :=
  ⟨(scanners_agree (K := ℚ) [true, true, false, true, false, true, true, true] (by decide)).1,
    by decide⟩

end W2Net.Proofs.Lbr
