import Mathlib.Data.List.TakeWhile
import Mathlib.Algebra.Order.Field.Basic
import W2Net.Lib.RunningMean
import W2Net.Train

/-!
# `W2Net.Proofs.Train.EpochLoss`: the mean of the losses of an epoch

`train_model` updates `mloss` with the index of the batch. A batch with a loss of
0 is passed over in front of the update, but its index is used up, so the next
update takes the batch into a mean of too many.

`Outcome` says what the loop does with a batch. Whether `mloss` is a mean is a
question of the outcomes alone: `epochLoss_averages_iff` answers it for each
sequence of outcomes, with any losses that have it.

Both directions follow the loop batch by batch from the end of the epoch
(`epochLoss_concat`).
-/

set_option autoImplicit false

namespace W2Net.Proofs.EpochLoss

open W2Net.Train

variable {K : Type} [Field K] [LinearOrder K]

/-- What the loop does with a batch: a step of the optimizer, `continue` or `break`. -/
inductive Outcome where
  | step
  | skip
  | stop
deriving DecidableEq

section Loop
variable (lambda1 lambda2 : K)

/-- The outcome of a batch with the given losses. -/
def outcome (losses : Losses K) : Outcome :=
  match losses.total lambda1 lambda2 with
  | .finite loss => if loss = 0 then .skip else .step
  | _ => .stop

/-- The loss items of the batches on which a step was taken, in order. -/
def stepItems (batches : List (Losses K)) : List (Fin 3 → K) :=
  ((batches.takeWhile fun b => outcome lambda1 lambda2 b ≠ .stop).filter
    fun b => outcome lambda1 lambda2 b = .step).map Losses.items

/-- `mloss` after the batch `i`. -/
def update (i : ℕ) (mloss : Fin 3 → K) (losses : Losses K) : Fin 3 → K :=
  if outcome lambda1 lambda2 losses = .step then fun c => meanStep i (mloss c) (losses.items c)
  else mloss

/-- The epoch without its skipped batches. -/
def unskipped (batches : List (Losses K)) : List (Losses K) :=
  batches.filter fun b => outcome lambda1 lambda2 b ≠ .skip

/-- The loop ends with `mloss` as the mean of the taken steps, and the skipped
batches could be left out. -/
structure Averages (batches : List (Losses K)) : Prop where
  mean : ∀ c, epochLoss lambda1 lambda2 batches c
    = W2Net.mean ((stepItems lambda1 lambda2 batches).map fun items => items c)
  placement : epochLoss lambda1 lambda2 batches
    = epochLoss lambda1 lambda2 (unskipped lambda1 lambda2 batches)

end Loop

/-- No batch is skipped in front of a batch on which a step is taken. -/
def StepsFirst (outcomes : List Outcome) : Prop :=
  ∀ before after, outcomes = before ++ .step :: after → .stop ∉ before → .skip ∉ before

/-! ### One more batch -/

section Concat
variable {lambda1 lambda2 : K}

/-- The loop by the outcome of its next batch. -/
theorem batchLoop_cons (i : ℕ) (mloss : Fin 3 → K) (b : Losses K) (batches : List (Losses K)) :
    batchLoop lambda1 lambda2 i mloss (b :: batches)
      = if outcome lambda1 lambda2 b = .stop then mloss
        else batchLoop lambda1 lambda2 (i + 1) (update lambda1 lambda2 i mloss b) batches := by
  cases htotal : b.total lambda1 lambda2 with
  | finite loss =>
      by_cases hzero : loss = 0
      · have hout : outcome lambda1 lambda2 b = .skip := by simp [outcome, htotal, hzero]
        simp [batchLoop, update, htotal, hzero, hout]
      · have hout : outcome lambda1 lambda2 b = .step := by simp [outcome, htotal, hzero]
        simp [batchLoop, update, htotal, hzero, hout, meanStep]
  | _ =>
      have hout : outcome lambda1 lambda2 b = .stop := by simp [outcome, htotal]
      simp [batchLoop, htotal, hout]

/-- The loop goes on to a batch when nothing has stopped it. -/
theorem batchLoop_concat (i : ℕ) (mloss : Fin 3 → K) (batches : List (Losses K))
    (b : Losses K) :
    batchLoop lambda1 lambda2 i mloss (batches ++ [b])
      = if .stop ∈ batches.map (outcome lambda1 lambda2) then
          batchLoop lambda1 lambda2 i mloss batches
        else update lambda1 lambda2 (i + batches.length)
          (batchLoop lambda1 lambda2 i mloss batches) b := by
  induction batches generalizing i mloss with
  | nil =>
      rw [List.nil_append, batchLoop_cons]
      by_cases hstop : outcome lambda1 lambda2 b = .stop
      · simp [hstop, batchLoop, update]
      · simp [hstop, batchLoop]
  | cons a batches ih =>
      rw [List.cons_append, batchLoop_cons, batchLoop_cons, ih]
      by_cases hstop : outcome lambda1 lambda2 a = .stop
      · simp [hstop]
      · have hlen : i + (a :: batches).length = i + 1 + batches.length := by
          rw [List.length_cons]
          omega
        -- The first batch does not stop the loop, so a stop is one of the others.
        have hmem : (.stop ∈ (a :: batches).map (outcome lambda1 lambda2)) ↔
            .stop ∈ batches.map (outcome lambda1 lambda2) := by
          rw [List.map_cons, List.mem_cons, or_iff_right (Ne.symm hstop)]
        simp only [if_neg hstop, hlen, hmem]

theorem epochLoss_concat (batches : List (Losses K)) (b : Losses K) :
    epochLoss lambda1 lambda2 (batches ++ [b])
      = if .stop ∈ batches.map (outcome lambda1 lambda2) then epochLoss lambda1 lambda2 batches
        else update lambda1 lambda2 batches.length (epochLoss lambda1 lambda2 batches) b := by
  rw [epochLoss, batchLoop_concat, Nat.zero_add]
  rfl

theorem takeWhile_concat_of_stop {batches : List (Losses K)} {b : Losses K}
    (h : .stop ∈ batches.map (outcome lambda1 lambda2)) :
    ((batches ++ [b]).takeWhile fun a => outcome lambda1 lambda2 a ≠ .stop)
      = batches.takeWhile fun a => outcome lambda1 lambda2 a ≠ .stop := by
  induction batches with
  | nil => simp at h
  | cons a batches ih =>
      rw [List.map_cons, List.mem_cons] at h
      rw [List.cons_append, List.takeWhile_cons, List.takeWhile_cons]
      by_cases hstop : outcome lambda1 lambda2 a = .stop
      · simp [hstop]
      · rw [ih (h.resolve_left (Ne.symm hstop))]

/-- The steps of the epoch with one more batch. -/
theorem stepItems_concat (batches : List (Losses K)) (b : Losses K) :
    stepItems lambda1 lambda2 (batches ++ [b])
      = if .stop ∉ batches.map (outcome lambda1 lambda2) ∧ outcome lambda1 lambda2 b = .step then
          stepItems lambda1 lambda2 batches ++ [b.items]
        else stepItems lambda1 lambda2 batches := by
  simp only [stepItems]
  by_cases hstop : .stop ∈ batches.map (outcome lambda1 lambda2)
  · -- The loop does not get past a stop.
    rw [if_neg fun h => h.1 hstop, takeWhile_concat_of_stop hstop]
  · have hall : ∀ a ∈ batches, decide (outcome lambda1 lambda2 a ≠ .stop) = true := by
      intro a ha
      exact decide_eq_true fun h => hstop (List.mem_map.mpr ⟨a, ha, h⟩)
    rw [List.takeWhile_append_of_pos hall, List.takeWhile_eq_self_iff.mpr hall]
    cases hb : outcome lambda1 lambda2 b <;> simp [hb, hstop]

end Concat

/-! ### The outcomes in front of a step -/

theorem stepsFirst_of_skip_notMem {outcomes : List Outcome} (h : .skip ∉ outcomes) :
    StepsFirst outcomes := by
  intro before after heq _ hskip
  rw [heq] at h
  exact h (List.mem_append_left _ hskip)

/-- The last outcome matters when it is a step that the loop gets to. -/
theorem stepsFirst_concat_iff {outcomes : List Outcome} {o : Outcome} :
    StepsFirst (outcomes ++ [o]) ↔
      StepsFirst outcomes ∧ (o = .step → .stop ∉ outcomes → .skip ∉ outcomes) := by
  constructor
  · intro h
    constructor
    · intro before after heq hstop
      refine h before (after ++ [o]) ?_ hstop
      rw [heq, List.append_assoc, List.cons_append]
    · intro ho hstop
      refine h outcomes [] ?_ hstop
      rw [ho]
  · rintro ⟨h, hlast⟩ before after heq hstop
    -- The step is the last outcome, or one of those before it.
    cases after using List.reverseRec with
    | nil =>
        obtain ⟨rfl, ho⟩ := List.append_inj' heq rfl
        exact hlast (List.singleton_inj.mp ho) hstop
    | append_singleton after o' _ =>
        rw [← List.cons_append, ← List.append_assoc] at heq
        obtain ⟨heq, -⟩ := List.append_inj' heq rfl
        exact h before after heq hstop

/-! ### The mean of the steps -/

section Averages
variable {lambda1 lambda2 : K}

theorem length_stepItems_le (batches : List (Losses K)) :
    (stepItems lambda1 lambda2 batches).length ≤ batches.length := by
  rw [stepItems, List.length_map]
  exact (List.length_filter_le _ _).trans (List.takeWhile_sublist _).length_le

/-- Without a stop, the steps are all batches exactly when none is skipped. -/
theorem length_stepItems_eq_iff {batches : List (Losses K)}
    (h : .stop ∉ batches.map (outcome lambda1 lambda2)) :
    (stepItems lambda1 lambda2 batches).length = batches.length ↔
      .skip ∉ batches.map (outcome lambda1 lambda2) := by
  induction batches using List.reverseRecOn with
  | nil => simp [stepItems]
  | append_singleton batches b ih =>
      rw [List.map_append, List.mem_append, not_or] at h
      -- A skipped batch leaves one step less, and no later batch makes up for it.
      have hle : (stepItems lambda1 lambda2 batches).length ≤ batches.length :=
        length_stepItems_le batches
      have ih := ih h.1
      rw [stepItems_concat, List.map_append, List.mem_append, not_or, ← ih]
      cases hb : outcome lambda1 lambda2 b with
      | step => simp [h.1, hb]
      | skip =>
          simp [hb]
          omega
      | stop => simp [hb] at h

/-- With no skipped batch in front of a step, every step has the right index. -/
theorem epochLoss_eq_mean [CharZero K] {batches : List (Losses K)}
    (h : StepsFirst (batches.map (outcome lambda1 lambda2))) (c : Fin 3) :
    epochLoss lambda1 lambda2 batches c
      = mean ((stepItems lambda1 lambda2 batches).map fun items => items c) := by
  induction batches using List.reverseRecOn with
  | nil => simp [epochLoss, batchLoop, stepItems]
  | append_singleton batches b ih =>
      rw [List.map_append, List.map_singleton, stepsFirst_concat_iff] at h
      obtain ⟨hinit, hlast⟩ := h
      have ih := ih hinit
      rw [epochLoss_concat, stepItems_concat]
      by_cases hstop : .stop ∈ batches.map (outcome lambda1 lambda2)
      · rw [if_pos hstop, if_neg fun h => h.1 hstop]
        exact ih
      · by_cases hb : outcome lambda1 lambda2 b = .step
        · -- No batch in front was skipped, so the index of this one is the number of steps.
          have hlen := (length_stepItems_eq_iff hstop).mpr (hlast hb hstop)
          rw [if_neg hstop, if_pos ⟨hstop, hb⟩, update, if_pos hb, List.map_append,
            List.map_singleton, mean_concat, List.length_map, hlen, ih]
        · rw [if_neg hstop, if_neg fun h => hb h.2, update, if_neg hb]
          exact ih

theorem unskipped_concat (batches : List (Losses K)) (b : Losses K) :
    unskipped lambda1 lambda2 (batches ++ [b])
      = if outcome lambda1 lambda2 b = .skip then unskipped lambda1 lambda2 batches
        else unskipped lambda1 lambda2 batches ++ [b] := by
  rw [unskipped, List.filter_append]
  split
  · rename_i hb
    simp [hb, unskipped]
  · rename_i hb
    simp [hb, unskipped]

theorem mem_outcomes_unskipped {batches : List (Losses K)} {o : Outcome} :
    o ∈ (unskipped lambda1 lambda2 batches).map (outcome lambda1 lambda2) ↔
      o ∈ batches.map (outcome lambda1 lambda2) ∧ o ≠ .skip := by
  simp only [unskipped, List.mem_map, List.mem_filter, decide_eq_true_iff]
  constructor
  · rintro ⟨b, ⟨hb, hne⟩, rfl⟩
    exact ⟨⟨b, hb, rfl⟩, hne⟩
  · rintro ⟨⟨b, hb, rfl⟩, hne⟩
    exact ⟨b, ⟨hb, hne⟩, rfl⟩

/-- The skipped batches take no step. -/
theorem stepItems_unskipped (batches : List (Losses K)) :
    stepItems lambda1 lambda2 (unskipped lambda1 lambda2 batches)
      = stepItems lambda1 lambda2 batches := by
  induction batches using List.reverseRecOn with
  | nil => rfl
  | append_singleton batches b ih =>
      have hstop : .stop ∈ (unskipped lambda1 lambda2 batches).map (outcome lambda1 lambda2) ↔
          .stop ∈ batches.map (outcome lambda1 lambda2) := by
        rw [mem_outcomes_unskipped, and_iff_left (by decide)]
      rw [unskipped_concat]
      by_cases hb : outcome lambda1 lambda2 b = .skip
      · have hne : outcome lambda1 lambda2 b ≠ .step := by
          rw [hb]
          exact Outcome.noConfusion
        rw [if_pos hb, stepItems_concat, if_neg fun h => hne h.2, ih]
      · simp only [if_neg hb, stepItems_concat, hstop, ih]

theorem stepsFirst_unskipped (batches : List (Losses K)) :
    StepsFirst ((unskipped lambda1 lambda2 batches).map (outcome lambda1 lambda2)) := by
  refine stepsFirst_of_skip_notMem ?_
  intro hmem
  exact (mem_outcomes_unskipped.mp hmem).2 rfl

theorem averages_of_stepsFirst [CharZero K] {batches : List (Losses K)}
    (h : StepsFirst (batches.map (outcome lambda1 lambda2))) :
    Averages lambda1 lambda2 batches where
  mean := epochLoss_eq_mean h
  placement := by
    funext c
    rw [epochLoss_eq_mean h, epochLoss_eq_mean (stepsFirst_unskipped batches), stepItems_unskipped]

end Averages

/-! ### Losses for any outcomes -/

section Sample

/-- A batch with a given outcome, where `t` is the loss of a step. -/
def sample (t : K) : Outcome → Losses K
  | .step => ⟨t, 0, none, none⟩
  | .skip => ⟨0, 0, none, none⟩
  | .stop => ⟨0, 0, none, some .nan⟩

variable {lambda1 lambda2 : K}

theorem outcome_sample {t : K} (ht : t ≠ 0) (o : Outcome) :
    outcome lambda1 lambda2 (sample t o) = o := by
  cases o <;> simp [outcome, sample, Losses.total, Losses.seg, ht]

theorem map_outcome_sample (outcomes : List Outcome) :
    (outcomes.map (sample (1 : K))).map (outcome lambda1 lambda2) = outcomes := by
  have hid : outcome lambda1 lambda2 ∘ sample (1 : K) = id :=
    funext fun o => outcome_sample one_ne_zero o
  rw [List.map_map, hid, List.map_id]

/-- A skipped batch in front of a step shows in the losses of that step. -/
theorem skip_notMem_of_mean [CharZero K] {outcomes : List Outcome} (hstop : .stop ∉ outcomes)
    (h : ∀ batches : List (Losses K),
      batches.map (outcome lambda1 lambda2) = outcomes ++ [.step] →
        epochLoss lambda1 lambda2 batches 0
          = mean ((stepItems lambda1 lambda2 batches).map fun items => items 0)) :
    .skip ∉ outcomes := by
  have hmap : (outcomes.map (sample (1 : K))).map (outcome lambda1 lambda2) = outcomes :=
    map_outcome_sample outcomes
  have hstop' : .stop ∉ (outcomes.map (sample (1 : K))).map (outcome lambda1 lambda2) := by
    rw [hmap]
    exact hstop
  -- The last step with any loss `t`.
  have hstep : ∀ t : K, t ≠ 0 →
      meanStep outcomes.length (epochLoss lambda1 lambda2 (outcomes.map (sample 1)) 0) t
        = mean ((stepItems lambda1 lambda2 (outcomes.map (sample 1))).map (fun items => items 0)
            ++ [t]) := by
    intro t ht
    have hb : outcome lambda1 lambda2 (sample t .step) = .step := outcome_sample ht .step
    have hmean := h (outcomes.map (sample 1) ++ [sample t .step]) (by
      rw [List.map_append, hmap, List.map_singleton, hb])
    rw [epochLoss_concat, if_neg hstop', stepItems_concat, if_pos ⟨hstop', hb⟩, update, if_pos hb,
      List.map_append, List.length_map] at hmean
    exact hmean
  have hlen := eq_length_of_meanStep (by norm_num) (hstep 1 one_ne_zero) (hstep 2 (by norm_num))
  rw [List.length_map] at hlen
  rw [← hmap]
  exact (length_stepItems_eq_iff hstop').mp (by rw [← hlen, List.length_map])

theorem stepsFirst_of_mean [CharZero K] {outcomes : List Outcome}
    (h : ∀ batches : List (Losses K), batches.map (outcome lambda1 lambda2) = outcomes →
      epochLoss lambda1 lambda2 batches 0
        = mean ((stepItems lambda1 lambda2 batches).map fun items => items 0)) :
    StepsFirst outcomes := by
  induction outcomes using List.reverseRecOn with
  | nil => exact stepsFirst_of_skip_notMem List.not_mem_nil
  | append_singleton outcomes o ih =>
      rw [stepsFirst_concat_iff]
      by_cases hlast : o = .step ∧ .stop ∉ outcomes
      · obtain ⟨rfl, hstop⟩ := hlast
        have hskip := skip_notMem_of_mean hstop h
        exact ⟨stepsFirst_of_skip_notMem hskip, fun _ _ => hskip⟩
      · -- The last batch changes neither `mloss` nor the steps.
        refine ⟨ih fun batches hmap => ?_, fun ho hstop => absurd ⟨ho, hstop⟩ hlast⟩
        have hb : outcome lambda1 lambda2 (sample (1 : K) o) = o := outcome_sample one_ne_zero o
        have hmean := h (batches ++ [sample 1 o]) (by
          rw [List.map_append, hmap, List.map_singleton, hb])
        have hsteps : ¬ (.stop ∉ outcomes ∧ o = .step) := fun h => hlast ⟨h.2, h.1⟩
        rw [epochLoss_concat, stepItems_concat, hmap, hb, if_neg hsteps] at hmean
        by_cases hstop : .stop ∈ outcomes
        · rw [if_pos hstop] at hmean
          exact hmean
        · rw [if_neg hstop, update, hb, if_neg fun ho => hsteps ⟨hstop, ho⟩] at hmean
          exact hmean

end Sample

/-! ### The comparison -/

/-- Take the outcomes of the batches of an epoch. For all losses with these
outcomes, `mloss` ends as the mean of the loss items of the steps, and the
skipped batches could be left out, exactly when no batch is skipped in front of
a step. -/
theorem epochLoss_averages_iff [CharZero K] (lambda1 lambda2 : K) (outcomes : List Outcome) :
    (∀ batches : List (Losses K), batches.map (outcome lambda1 lambda2) = outcomes →
        Averages lambda1 lambda2 batches) ↔
      StepsFirst outcomes := by
  constructor
  · intro h
    exact stepsFirst_of_mean fun batches hmap => (h batches hmap).mean 0
  · intro h batches hmap
    refine averages_of_stepsFirst ?_
    rw [hmap]
    exact h

/-- Two steps and a skipped batch behind them. -/
theorem epochLoss_averages_lastSkipped :
    Averages 1 1 [(⟨1, 0, none, none⟩ : Losses ℚ), ⟨2, 0, none, none⟩, ⟨0, 0, none, none⟩] := by
  have hsteps : StepsFirst [.step, .step] := stepsFirst_of_skip_notMem (by decide)
  have hfirst : StepsFirst ([.step, .step] ++ [.skip]) :=
    stepsFirst_concat_iff.mpr ⟨hsteps, by decide⟩
  exact (epochLoss_averages_iff 1 1 [.step, .step, .skip]).mpr hfirst _ (by decide +kernel)

/-- The skipped batch has index 0, so the only step counts one half. -/
theorem firstSkipped_halves :
    ¬ Averages 1 1 [(⟨0, 0, none, none⟩ : Losses ℚ), ⟨1, 0, none, none⟩] ∧
      epochLoss 1 1 [(⟨0, 0, none, none⟩ : Losses ℚ), ⟨1, 0, none, none⟩] 0 = 1 / 2 ∧
      (stepItems 1 1 [(⟨0, 0, none, none⟩ : Losses ℚ), ⟨1, 0, none, none⟩]).map (fun items => items 0)
        = [1] := by
  refine ⟨?_, by decide +kernel, by decide +kernel⟩
  intro h
  exact absurd (h.mean 0) (by decide +kernel)

end W2Net.Proofs.EpochLoss
