import W2Net.Proofs.Train.Session

/-!
# `W2Net.Proofs.Train.Schedule`: the learning rate of each epoch

`WarmupLR` sets the rate anew in each warm-up step, so the rate of an epoch depends on its
session only: on the number of steps that the scheduler has made since the training was started
or resumed. `sessionRate` is the closed form, and `rates_closedForm` says that each epoch of a
training with restarts is trained with it.

* The first epoch has the full rate. The warm-up starts with the second one, at the low rate.
* `MultiStepLR` makes its first step behind the warm-up, so each milestone takes effect
  `⌊warm_epoch⌋ + 1` epochs late, and not at all when the session ends before.
* A restart begins the warm-up and the milestones from the start.
-/

set_option autoImplicit false

namespace W2Net.Proofs.Train

open W2Net.Train

variable {K : Type} [Field K] [LinearOrder K] [FloorRing K]

section
variable (hyps : Hyps K) (m : PyMath K)

/-- The rate that the warm-up step `j` sets. -/
def warmRate (j : ℕ) : K :=
  warmupCos m (min hyps.warmupLr hyps.lr0) hyps.lr0 (j / hyps.warmEpoch)

/-- The rate behind the warm-up. -/
def peakRate : K := if warmSteps hyps = 0 then hyps.lr0 else warmRate hyps m (warmSteps hyps - 1)

/-- The number of milestones that `n` steps of `MultiStepLR` have passed. -/
def decays (n : ℕ) : ℕ := hyps.multiStep.milestones.countP fun x : ℤ => 0 < x ∧ x ≤ n

/-- The rate behind `k` steps of a session, for `0 < k`. -/
def sessionRate (k : ℕ) : K :=
  warmRate hyps m (min k (warmSteps hyps) - 1) * (1 / 10) ^ decays hyps (k - warmSteps hyps)

variable {hyps m}

theorem decays_zero : decays hyps 0 = 0 := by
  rw [decays, List.countP_eq_zero]
  intro x _
  simp only [Nat.cast_zero, decide_eq_true_eq]
  omega

/-- One more step passes the milestones of its own number. -/
theorem decays_succ (n : ℕ) :
    decays hyps (n + 1) = decays hyps n + hyps.multiStep.milestones.count ((n + 1 : ℕ) : ℤ) := by
  unfold decays
  induction hyps.multiStep.milestones with
  | nil => rfl
  | cons x milestones ih =>
      rw [List.countP_cons, List.countP_cons, List.count_cons, ih]
      simp only [decide_eq_true_eq, beq_iff_eq]
      split_ifs <;> omega

theorem warmSteps_pos (hw : 0 < hyps.warmEpoch) : 0 < warmSteps hyps := by
  rw [← cast_le_warmEpoch_iff, Nat.cast_zero]
  exact hw.le

/-- The milestones are behind the first epoch, which has the full rate. -/
theorem milestones_pos [IsStrictOrderedRing K] (h : 0 < hyps.epochs) :
    ∀ x ∈ hyps.multiStep.milestones, 0 < x := by
  have hone : (1 : K) ≤ hyps.epochs := by exact_mod_cast h
  have hround : ∀ share : K, 7 / 10 ≤ share → 0 < hyps.milestone share := by
    intro share hshare
    -- Two roundings do not take a share of at least 7/10 below one half.
    have hdouble := le_roundTo 53 (by linarith : (0 : K) ≤ share)
    have hlarge : 6 / 10 ≤ roundTo 53 share := by linarith
    have hmul : 6 / 10 ≤ (hyps.epochs : K) * roundTo 53 share := by nlinarith
    have hproduct := le_roundTo 53 (by linarith : (0 : K) ≤ hyps.epochs * roundTo 53 share)
    have hhalf : ¬hyps.milestone share ≤ 0 := by
      rw [Hyps.milestone, pyRound_le_iff, Int.cast_zero, zero_add]
      rintro (h | ⟨h, -⟩) <;> unfold double at h <;> linarith
    omega
  intro x hx
  rcases List.mem_cons.mp hx with rfl | hx
  · exact hround _ le_rfl
  · rw [List.mem_singleton.mp hx]
    exact hround _ (by norm_num)

theorem paramGroup_lr [IsStrictOrderedRing K] (h : 0 < hyps.epochs) :
    hyps.paramGroup.lr = hyps.lr0 := by
  refine if_neg ?_
  intro hmem
  exact lt_irrefl (0 : ℤ) (milestones_pos h _ hmem)

/-- The scheduler's step `j`: a value of the warm-up curve, then the decay. -/
theorem nextRate_of_lt [IsStrictOrderedRing K] (h : 0 < hyps.epochs) {j : ℕ}
    (hj : j < warmSteps hyps) (lr : K) : nextRate hyps m j lr = warmRate hyps m j := by
  rw [nextRate, if_pos ((cast_le_warmEpoch_iff hyps j).mpr hj)]
  show warmupCos m (min hyps.warmupLr hyps.paramGroup.lr) hyps.paramGroup.lr _ = _
  rw [paramGroup_lr h]
  rfl

theorem nextRate_of_le {j : ℕ} (hj : warmSteps hyps ≤ j) (lr : K) :
    nextRate hyps m j lr
      = lr * (1 / 10) ^ hyps.multiStep.milestones.count ((j + 1 - warmSteps hyps : ℕ) : ℤ) := by
  have hgt : ¬(j : K) ≤ hyps.warmEpoch := fun h => hj.not_gt ((cast_le_warmEpoch_iff hyps j).mp h)
  rw [nextRate, if_neg hgt, MultiStepLR.getLr]
  show (if ((j + 1 - warmSteps hyps : ℕ) : ℤ) ∈ hyps.multiStep.milestones then _ else _) = _
  split
  · rfl
  · rename_i hmem
    rw [List.count_eq_zero.mpr hmem, pow_zero, mul_one]

/-- Behind the warm-up, the rate of a training without restarts. -/
theorem rate_empty_of_le [IsStrictOrderedRing K] (h : 0 < hyps.epochs) {x : ℕ}
    (hx : warmSteps hyps ≤ x) :
    rate hyps m ∅ x = peakRate hyps m * (1 / 10) ^ decays hyps (x - warmSteps hyps) := by
  induction x, hx using Nat.le_induction with
  | base =>
      rw [Nat.sub_self, decays_zero, pow_zero, mul_one, peakRate]
      split
      · rename_i hzero
        rw [hzero]
        exact paramGroup_lr h
      · rename_i hne
        obtain ⟨k, hk⟩ := Nat.exists_eq_succ_of_ne_zero hne
        rw [hk, Nat.succ_sub_one, rate, sessionStart_empty, Nat.sub_zero,
          nextRate_of_lt h (by omega)]
  | succ x hx ih =>
      have hstep : x + 1 - warmSteps hyps = x - warmSteps hyps + 1 := by omega
      rw [rate, sessionStart_empty, Nat.sub_zero, nextRate_of_le hx, ih, hstep, decays_succ,
        pow_add, ← mul_assoc]

/-- The rate of an epoch that is not the first one, by the steps of its session. -/
theorem rate_succ [IsStrictOrderedRing K] (h : 0 < hyps.epochs) (hw : 0 < hyps.warmEpoch)
    (stops : Finset ℕ) (x : ℕ) :
    rate hyps m stops (x + 1) = sessionRate hyps m (x + 1 - sessionStart stops x) := by
  have hpos : 0 < warmSteps hyps := warmSteps_pos hw
  have hle : sessionStart stops x ≤ x := sessionStart_le stops x
  induction x with
  | zero =>
      have hmin : min 1 (warmSteps hyps) - 1 = 0 := by omega
      have hsub : 1 - warmSteps hyps = 0 := by omega
      show nextRate hyps m 0 _ = sessionRate hyps m 1
      rw [nextRate_of_lt h hpos, sessionRate, hmin, hsub, decays_zero, pow_zero, mul_one]
  | succ x ih =>
      rw [rate]
      by_cases hj : x + 1 - sessionStart stops (x + 1) < warmSteps hyps
      · -- The warm-up does not read the rate before.
        have hmin : min (x + 1 + 1 - sessionStart stops (x + 1)) (warmSteps hyps) - 1
            = x + 1 - sessionStart stops (x + 1) := by omega
        have hsub : x + 1 + 1 - sessionStart stops (x + 1) - warmSteps hyps = 0 := by omega
        rw [nextRate_of_lt h hj, sessionRate, hmin, hsub, decays_zero, pow_zero, mul_one]
      · -- The epoch before is one of the same session.
        have hnot : x + 1 ∉ stops := by
          intro hmem
          rw [sessionStart_of_mem hmem] at hj
          omega
        have hsame : sessionStart stops (x + 1) = sessionStart stops x := by
          rw [sessionStart, if_neg hnot]
        rw [nextRate_of_le (not_lt.mp hj), hsame, ih (sessionStart_le stops x), sessionRate,
          sessionRate]
        rw [hsame] at hj
        have hmin : min (x + 1 - sessionStart stops x) (warmSteps hyps)
            = min (x + 1 + 1 - sessionStart stops x) (warmSteps hyps) := by omega
        have hstep : x + 1 - sessionStart stops x + 1 - warmSteps hyps
            = x + 1 - sessionStart stops x - warmSteps hyps + 1 := by omega
        have hnext : x + 1 + 1 - sessionStart stops x - warmSteps hyps
            = x + 1 - sessionStart stops x - warmSteps hyps + 1 := by omega
        rw [hstep, hnext, decays_succ, hmin, pow_add, ← mul_assoc]

/-- The epochs of a training follow the schedule. In a session, `⌊warm_epoch⌋ + 1` steps are
those of the warm-up, and the milestones are counted from there. -/
structure FollowsSchedule (hyps : Hyps K) (m : PyMath K) (stops : Finset ℕ) (n : ℕ)
    (rates : List K) : Prop where
  length : rates.length = n
  full : 0 < n → rates[0]? = some hyps.lr0
  warmUp : ∀ x, x + 1 < n → x - sessionStart stops x < warmSteps hyps →
    rates[x + 1]? = some (warmupCos m (min hyps.warmupLr hyps.lr0) hyps.lr0
      (((x - sessionStart stops x : ℕ) : K) / hyps.warmEpoch))
  decay : ∀ x, x + 1 < n → warmSteps hyps ≤ x - sessionStart stops x →
    rates[x + 1]? = some (warmupCos m (min hyps.warmupLr hyps.lr0) hyps.lr0
      (((warmSteps hyps - 1 : ℕ) : K) / hyps.warmEpoch) * (1 / 10) ^
        hyps.multiStep.milestones.countP fun y : ℤ =>
          y + warmSteps hyps ≤ (x + 1 - sessionStart stops x : ℕ))

/-- For every training and all its restarts, the epochs are trained with the rates of the
schedule, each by its place in its session. -/
theorem rates_closedForm [IsStrictOrderedRing K] (hyps : Hyps K) (m : PyMath K)
    (evaluate : ℕ → Results K) (stops : Finset ℕ) (hw : 0 < hyps.warmEpoch)
    (ht : hyps.testInterval ≠ 0) {n : ℕ} (hn : n ≤ hyps.epochs) :
    Returns (runTo hyps m evaluate stops n) fun st =>
      FollowsSchedule hyps m stops n st.model := by
  obtain ⟨st, e, hst, htracks⟩ :=
    runTo_tracks m evaluate stops (fun _ => ⟨hw.ne', ht⟩) hn
  refine ⟨st, hst, ?_⟩
  have hget : ∀ x < n, st.model[x]? = some (rate hyps m stops x) := by
    intro x hx
    rw [htracks.model, List.getElem?_map, List.getElem?_range hx]
    rfl
  constructor
  case length => rw [htracks.model, List.length_map, List.length_range]
  case full =>
    intro hpos
    rw [hget 0 hpos]
    exact congrArg some (paramGroup_lr (hpos.trans_le hn))
  case warmUp =>
    intro x hx hlt
    have hmin : min (x + 1 - sessionStart stops x) (warmSteps hyps) - 1
        = x - sessionStart stops x := by omega
    have hsub : x + 1 - sessionStart stops x - warmSteps hyps = 0 := by omega
    rw [hget (x + 1) hx, rate_succ (by omega) hw, sessionRate, hmin, hsub, decays_zero, pow_zero,
      mul_one]
    rfl
  case decay =>
    intro x hx hge
    have hpos := warmSteps_pos hw
    have hmin : min (x + 1 - sessionStart stops x) (warmSteps hyps) - 1 = warmSteps hyps - 1 := by
      omega
    have hdecays : decays hyps (x + 1 - sessionStart stops x - warmSteps hyps)
        = hyps.multiStep.milestones.countP fun y : ℤ =>
          y + warmSteps hyps ≤ (x + 1 - sessionStart stops x : ℕ) := by
      refine List.countP_congr ?_
      intro y hy
      have hypos := milestones_pos (by omega) y hy
      simp only [decide_eq_true_eq]
      omega
    rw [hget (x + 1) hx, rate_succ (by omega) hw, sessionRate, hmin, hdecays]
    rfl

end

/-- `math.cos` is exact at `0` and at `pi`, the arguments of a warm-up of one epoch. -/
def halfTurn : PyMath ℚ := { PyMath.rat with cos := fun x => if x = 0 then 1 else -1 }

/-- Ten epochs with an evaluation of the epochs 6 and 8. -/
def tenEpochs : Hyps ℚ := ⟨10, 1 / 10000, 1 / 100000, 1, 2⟩

/-- Epoch 6 is better than epoch 8. -/
def worseLater (x : ℕ) : Results ℚ :=
  if x = 6 then ⟨1 / 2, 1 / 2, 1 / 2, 1 / 2, 1 / 2, 3 / 5⟩
  else ⟨1 / 2, 1 / 2, 1 / 2, 1 / 2, 3 / 10, 2 / 5⟩

/-- In ten epochs with a warm-up of one, the first milestone takes effect in the last epoch, and
the second one not at all. -/
theorem rates_closedForm_tenEpochs :
    Returns (runTo tenEpochs halfTurn worseLater ∅ 10) fun st =>
      FollowsSchedule tenEpochs halfTurn ∅ 10 st.model ∧
        st.model[8]? = some (1 / 10000) ∧ st.model[9]? = some (1 / 100000) := by
  obtain ⟨st, hst, hfollows⟩ := rates_closedForm tenEpochs halfTurn worseLater ∅ (by decide)
    (by decide) (le_refl 10)
  refine ⟨st, hst, hfollows, ?_, ?_⟩
  · rw [hfollows.decay 7 (by decide) (by decide +kernel)]
    decide +kernel
  · rw [hfollows.decay 8 (by decide) (by decide +kernel)]
    decide +kernel

end W2Net.Proofs.Train
