import W2Net.Proofs.Train.Schedule

/-!
# `W2Net.Proofs.Train.Resume`: is a restart with `--resume` transparent?

`Transparent` compares a training with restarts at `stops` with the training
without restarts over the same epochs. It fails for three reasons, which are
independent of each other: the `best_*` variables, the scheduler and `results`
start from their initial values in each session, although `last.pth` holds the
epoch they belong to. `Survives` is the exact condition on the evaluated results,
the hyper-parameters and the restarts under which none of them shows
(`transparent_iff_survives`).
-/

set_option autoImplicit false

namespace W2Net.Proofs.Train

open W2Net.Train

variable {K : Type} [Field K] [LinearOrder K] [FloorRing K]

section
variable (hyps : Hyps K) (m : PyMath K)

/-- In place of the step `x` of the scheduler, a restarted session makes its step `j`. The rate
does not show it: both are at one value of the warm-up curve, or the session is at the value to
which the milestones have taken the rate behind the warm-up, or both steps meet equally many
milestones. -/
def SameStep (j x : ℕ) : Prop :=
  if x < warmSteps hyps then warmRate hyps m j = warmRate hyps m x
  else if j < warmSteps hyps then
    warmRate hyps m j = peakRate hyps m * (1 / 10) ^ decays hyps (x + 1 - warmSteps hyps)
  else
    hyps.multiStep.milestones.count ((j + 1 - warmSteps hyps : ℕ) : ℤ)
        = hyps.multiStep.milestones.count ((x + 1 - warmSteps hyps : ℕ) : ℤ) ∨
      peakRate hyps m = 0

end

/-- The training `w` with restarts at `stops` ends like the training `u` without
them: with the same best variables and the same `best.pth`, without a write to
`best.pth` that is below an epoch before the session, and with the same learning
rate in each epoch. -/
structure Transparent (hyps : Hyps K) (evaluate : ℕ → Results K) (stops : Finset ℕ)
    (u w : State K) : Prop where
  record : w.best = u.best
  bestPth : w.disk.best.head? = u.disk.best.head?
  neverWorse : ∀ chkpt ∈ w.disk.best, ∀ s ∈ stops, 0 < s → s ≤ chkpt.epoch →
    ∀ a < s, Evaluated hyps a → (evaluate a).score ≤ chkpt.bestFitness
  schedule : w.model = u.model

/-- What the restarts must meet. `overtaken`: each epoch before a restart that
counts is exceeded by a later one after the restart. `resumedNotWorse`: the first
epoch behind a restart that counts has no smaller score than those before.
`logKept`: a restart in front of an epoch without evaluation comes before the
first evaluation, unless no epoch counts. `schedule`: no step of the scheduler,
counted from the restart, shows in the rate. -/
structure Survives (hyps : Hyps K) (m : PyMath K) (evaluate : ℕ → Results K)
    (stops : Finset ℕ) : Prop where
  overtaken : ∀ s ∈ stops, 0 < s → s ≤ hyps.epochs → ∀ a < s, Counts hyps evaluate a →
    ∃ b, s ≤ b ∧ b < hyps.epochs ∧ Counts hyps evaluate b ∧
      resultsKey (evaluate a) < resultsKey (evaluate b)
  resumedNotWorse : ∀ s ∈ stops, 0 < s → ∀ b, s ≤ b → b < hyps.epochs →
    Counts hyps evaluate b → (∀ x, s ≤ x → x < b → ¬ Counts hyps evaluate x) →
    ∀ a < s, Counts hyps evaluate a → (evaluate a).score ≤ (evaluate b).score
  logKept : (∃ x < hyps.epochs, Counts hyps evaluate x) → ∀ s ∈ stops, 0 < s →
    s < hyps.epochs → ¬ Evaluated hyps s → lastResults hyps evaluate 0 s = .zero
  schedule : ∀ x, x + 1 < hyps.epochs → SameStep hyps m (x - sessionStart stops x) x

variable {hyps : Hyps K} {m : PyMath K} {evaluate : ℕ → Results K} {stops : Finset ℕ}

/-! ### The learning rates -/

/-- In the decay, the rate tells two numbers of milestones apart unless it is zero. -/
theorem mul_decay_inj [IsStrictOrderedRing K] {lr : K} {k l : ℕ} :
    lr * (1 / 10) ^ k = lr * (1 / 10) ^ l ↔ k = l ∨ lr = 0 := by
  have hpow : (1 / 10 : K) ^ k = (1 / 10) ^ l ↔ k = l :=
    (pow_right_strictAnti₀ (by norm_num) (by norm_num)).injective.eq_iff
  rw [mul_eq_mul_left_iff, hpow]

/-- The two steps change the rate alike. -/
theorem nextRate_eq_iff [IsStrictOrderedRing K] (hpos : 0 < hyps.epochs) {j x : ℕ} (hjx : j ≤ x) :
    nextRate hyps m j (rate hyps m ∅ x) = nextRate hyps m x (rate hyps m ∅ x) ↔
      SameStep hyps m j x := by
  unfold SameStep
  split
  · rename_i hx
    rw [nextRate_of_lt hpos hx, nextRate_of_lt hpos (hjx.trans_lt hx)]
  · rename_i hx
    have hge := not_lt.mp hx
    have hstep : x + 1 - warmSteps hyps = x - warmSteps hyps + 1 := by omega
    rw [nextRate_of_le hge, rate_empty_of_le hpos hge]
    split
    · rename_i hj
      rw [nextRate_of_lt hpos hj, hstep, decays_succ, pow_add, ← mul_assoc]
    · rename_i hj
      have hzero : peakRate hyps m * (1 / 10) ^ decays hyps (x - warmSteps hyps) = 0 ↔
          peakRate hyps m = 0 := mul_eq_zero_iff_right (pow_ne_zero _ (by norm_num))
      rw [nextRate_of_le (not_lt.mp hj), mul_decay_inj, hzero]

/-- The rates agree exactly when no step of the scheduler shows. -/
theorem rates_eq_iff [IsStrictOrderedRing K] {N : ℕ} (hN : N ≤ hyps.epochs) :
    (∀ x < N, rate hyps m stops x = rate hyps m ∅ x) ↔
      ∀ x, x + 1 < N → SameStep hyps m (x - sessionStart stops x) x := by
  have hsucc : ∀ x, rate hyps m ∅ (x + 1) = nextRate hyps m x (rate hyps m ∅ x) := by
    intro x
    rw [rate, sessionStart_empty, Nat.sub_zero]
  have hiff : ∀ x, x + 1 < N →
      (nextRate hyps m (x - sessionStart stops x) (rate hyps m ∅ x)
        = nextRate hyps m x (rate hyps m ∅ x) ↔ SameStep hyps m (x - sessionStart stops x) x) :=
    fun x hx => nextRate_eq_iff (by omega) (Nat.sub_le _ _)
  constructor
  · intro h x hx
    rw [← hiff x hx, ← hsucc, ← h (x + 1) hx, rate, h x (by omega)]
  · intro h x
    induction x with
    | zero => exact fun _ => rfl
    | succ x ih =>
        intro hx
        rw [hsucc, rate, ih (by omega), (hiff x hx).mpr (h x hx)]

/-! ### The lines of the log -/

theorem line_of_evaluated {x : ℕ} (h : Evaluated hyps x) :
    line hyps evaluate stops x = (x, evaluate x) := by
  rw [line, lastResults_succ (sessionStart_le stops x), if_pos h]

/-- An epoch without evaluation prints the results of the epoch before it in
the session. -/
theorem line_of_not_evaluated {x : ℕ} (h : ¬ Evaluated hyps x) :
    line hyps evaluate stops x
      = (x, lastResults hyps evaluate (sessionStart stops x) (x - sessionStart stops x)) := by
  rw [line, lastResults_succ (sessionStart_le stops x), if_neg h]

theorem line_empty (x : ℕ) :
    line hyps evaluate ∅ x = (x, lastResults hyps evaluate 0 (x + 1)) := by
  rw [line, sessionStart_empty, Nat.sub_zero]

/-- The lines of the first `M` epochs agree exactly when no restart in front of
an epoch without evaluation loses results. -/
theorem lines_eq_iff {M : ℕ} :
    (∀ x < M, line hyps evaluate stops x = line hyps evaluate ∅ x) ↔
      ∀ s ∈ stops, 0 < s → s < M → ¬ Evaluated hyps s →
        lastResults hyps evaluate 0 s = .zero := by
  constructor
  · intro h s hmem _ hs hev
    -- At a restart the resumed session repeats its initial results.
    have hline := h s hs
    rw [line_of_not_evaluated hev, line_of_not_evaluated hev, sessionStart_of_mem hmem,
      sessionStart_empty, Nat.sub_self, Nat.sub_zero] at hline
    exact (congrArg Prod.snd hline).symm
  · intro h x hx
    induction x with
    | zero =>
        rw [line, line]
        rfl
    | succ x ih =>
        by_cases hev : Evaluated hyps (x + 1)
        · rw [line_of_evaluated hev, line_of_evaluated hev]
        · by_cases hmem : x + 1 ∈ stops
          · rw [line_of_not_evaluated hev, line_of_not_evaluated hev, sessionStart_of_mem hmem,
              sessionStart_empty, Nat.sub_self, Nat.sub_zero, h (x + 1) hmem (by omega) hx hev]
            rfl
          · -- The session goes on, so the line repeats the results of the line before.
            have hprev := congrArg Prod.snd (ih (by omega))
            rw [line_of_not_evaluated hev, line_of_not_evaluated hev, sessionStart_empty,
              sessionStart, if_neg hmem, Nat.sub_zero]
            rw [line_empty] at hprev
            exact congrArg (Prod.mk (x + 1)) hprev

/-! ### The four parts of the comparison -/

/-- The best variables survive exactly when the last session overtakes every
epoch before it, and so does every other one then. -/
theorem best_eq_iff {e e' : Option ℕ} {N : ℕ}
    (he : FirstBest (offer hyps evaluate) 0 N e)
    (he' : FirstBest (offer hyps evaluate) (sessionStart stops N) N e') :
    e' = e ↔ ∀ s ∈ stops, 0 < s → s ≤ N → ∀ a < s, Counts hyps evaluate a →
      ∃ b, s ≤ b ∧ b < N ∧ Counts hyps evaluate b ∧
        resultsKey (evaluate a) < resultsKey (evaluate b) := by
  rw [he.eq_iff he' (sessionStart_le stops N)]
  constructor
  · intro h s hmem _ hsN a ha hcount
    have hs := le_sessionStart hmem hsN
    obtain ⟨b, hb, hbN, hlt⟩ := h a (by omega) (bot_lt_offer_iff.mpr hcount)
    exact ⟨b, hs.trans hb, hbN, (offer_lt_offer_iff hcount).mp hlt⟩
  · intro h a ha hpos
    have hcount := bot_lt_offer_iff.mp hpos
    -- The last session starts at a stop, since there is an epoch in front of it.
    have hσ : 0 < sessionStart stops N := by omega
    obtain ⟨b, hb, hbN, hlt⟩ :=
      h _ (sessionStart_mem hσ) hσ (sessionStart_le stops N) a ha hcount
    exact ⟨b, hb, hbN, (offer_lt_offer_iff hcount).mpr hlt⟩

/-- An evaluated epoch that does not count is not above one that does. -/
theorem score_le_of_not_counts {a x : ℕ} (ha : Evaluated hyps a)
    (hna : ¬ Counts hyps evaluate a) (hx : Counts hyps evaluate x) :
    (evaluate a).score ≤ (evaluate x).score := by
  have hle : resultsKey (evaluate a) ≤ bestKey (Best.initial : Best K) :=
    not_lt.mp fun hlt => hna ⟨ha, hlt⟩
  exact score_le_of_key_le (hle.trans hx.2.le)

/-- `best.pth` never gets worse in a session exactly when the first epoch of
each session that counts is not below the epochs before the session. -/
theorem neverWorse_iff {N s : ℕ} {e : Option ℕ} {w : State K}
    (h : Tracks hyps m evaluate stops s N e w) :
    (∀ chkpt ∈ w.disk.best, ∀ s ∈ stops, 0 < s → s ≤ chkpt.epoch →
        ∀ a < s, Evaluated hyps a → (evaluate a).score ≤ chkpt.bestFitness) ↔
      ∀ s ∈ stops, 0 < s → ∀ b, s ≤ b → b < N → Counts hyps evaluate b →
        (∀ x, s ≤ x → x < b → ¬ Counts hyps evaluate x) →
        ∀ a < s, Counts hyps evaluate a → (evaluate a).score ≤ (evaluate b).score := by
  have hgrade : ∀ a b, ⊥ < offer hyps evaluate a → offer hyps evaluate a ≤ offer hyps evaluate b →
      (evaluate a).score ≤ (evaluate b).score := by
    intro a b hpos hle
    have ha := bot_lt_offer_iff.mp hpos
    have hb := bot_lt_offer_iff.mp (hpos.trans_le hle)
    rw [offer_of_counts ha, offer_of_counts hb, WithBot.coe_le_coe] at hle
    exact score_le_of_key_le hle
  -- The statement about records is the one of the running best, with the offers as grades.
  have hdom := recordsDominate_iff stops N hgrade
  simp only [bot_lt_offer_iff, offer_eq_bot_iff] at hdom
  rw [← hdom]
  constructor
  · intro hworse x hx hrec s hmem hs hsx a ha hcount
    exact hworse _ ((h.written _).mpr ⟨x, hx, hrec, rfl⟩) s hmem hs hsx a ha hcount.1
  · intro hrecs chkpt hmem' s hmem hs hsx a ha hev
    obtain ⟨x, hx, hrec, rfl⟩ := (h.written chkpt).mp hmem'
    by_cases hcount : Counts hyps evaluate a
    · exact hrecs x hx hrec s hmem hs hsx a ha hcount
    · exact score_le_of_not_counts hev hcount (bot_lt_offer_iff.mp hrec.1)

/-- `map` over two equal functions, read off the entries. -/
theorem map_range_eq_iff {β : Type} {f g : ℕ → β} {N : ℕ} :
    (List.range N).map f = (List.range N).map g ↔ ∀ x < N, f x = g x := by
  rw [List.map_inj_left]
  simp only [List.mem_range]

/-- For one best epoch, equal rates leave the log as the only difference between
the two checkpoints. -/
theorem checkpointAt_eq_iff {i : ℕ} (hi : i < hyps.epochs)
    (hrate : ∀ x < hyps.epochs, rate hyps m stops x = rate hyps m ∅ x) :
    checkpointAt hyps m evaluate stops i = checkpointAt hyps m evaluate ∅ i ↔
      ∀ x < i + 1, line hyps evaluate stops x = line hyps evaluate ∅ x := by
  have hmodel : (List.range (i + 1)).map (rate hyps m stops)
      = (List.range (i + 1)).map (rate hyps m ∅) :=
    map_range_eq_iff.mpr fun x hx => hrate x (by omega)
  constructor
  · intro heq
    exact map_range_eq_iff.mp (congrArg Checkpoint.trainingResults heq)
  · intro hline
    simp only [checkpointAt, map_range_eq_iff.mpr hline, hmodel]
    by_cases hlast : i + 1 = hyps.epochs
    · simp only [if_pos hlast]
    · simp only [if_neg hlast, hrate (i + 1) (by omega)]

/-- The content of `best.pth`, when the best epoch and the rates agree. -/
theorem bestPth_eq_iff {e : Option ℕ} {s : ℕ} {u w : State K}
    (hu : Tracks hyps m evaluate ∅ 0 hyps.epochs e u)
    (hw : Tracks hyps m evaluate stops s hyps.epochs e w)
    (hover : ∀ s ∈ stops, 0 < s → s ≤ hyps.epochs → ∀ a < s, Counts hyps evaluate a →
      ∃ b, s ≤ b ∧ b < hyps.epochs ∧ Counts hyps evaluate b ∧
        resultsKey (evaluate a) < resultsKey (evaluate b))
    (hrate : ∀ x < hyps.epochs, rate hyps m stops x = rate hyps m ∅ x) :
    w.disk.best.head? = u.disk.best.head? ↔
      ((∃ x < hyps.epochs, Counts hyps evaluate x) → ∀ s ∈ stops, 0 < s →
        s < hyps.epochs → ¬ Evaluated hyps s → lastResults hyps evaluate 0 s = .zero) := by
  cases e with
  | none =>
      -- No epoch counts, and nothing was written in either training.
      have hnone : ∀ x < hyps.epochs, ¬ Counts hyps evaluate x := fun x hx =>
        offer_eq_bot_iff.mp (hu.firstBest.eq_bot (Nat.zero_le x) hx)
      have hempty : ∀ {stops' s' v}, Tracks hyps m evaluate stops' s' hyps.epochs none v →
          v.disk.best = [] := by
        intro stops' s' v hv
        refine List.eq_nil_iff_forall_not_mem.mpr fun chkpt hmem => ?_
        obtain ⟨x, hx, hrec, -⟩ := (hv.written chkpt).mp hmem
        exact hnone x hx (bot_lt_offer_iff.mp hrec.1)
      rw [hempty hu, hempty hw]
      exact ⟨fun _ ⟨x, hx, hcount⟩ => absurd hcount (hnone x hx), fun _ => rfl⟩
  | some i =>
      obtain ⟨-, hi, hpos⟩ := hu.firstBest.mem i rfl
      have hcount := bot_lt_offer_iff.mp hpos
      rw [hu.head i rfl, hw.head i rfl, Option.some_inj, checkpointAt_eq_iff hi hrate, lines_eq_iff]
      -- Every restart lies at or before the best epoch, which overtakes what is before it.
      have hbefore : ∀ s ∈ stops, 0 < s → s < hyps.epochs → s < i + 1 := by
        intro s hmem hs hsN
        by_contra hlt
        obtain ⟨b, hb, hbN, hblt⟩ := hover s hmem hs hsN.le i (by omega) hcount
        exact absurd ((offer_lt_offer_iff hcount).mpr hblt)
          (not_lt.mpr (hu.firstBest.le b (Nat.zero_le b) hbN))
      constructor
      · intro h _ s hmem hs hsN hev
        exact h s hmem hs (hbefore s hmem hs hsN) hev
      · intro h s hmem hs hsi hev
        exact h ⟨i, hi, hcount⟩ s hmem hs (by omega) hev

/-! ### The comparison -/

/-- A training that finishes an epoch divides by neither hyper-parameter that
can be zero: the first epoch would raise. -/
theorem ne_zero_of_runTo {u : State K} {n : ℕ} (hn : 0 < n)
    (h : runTo hyps m evaluate stops n = .ok u) :
    hyps.warmEpoch ≠ 0 ∧ hyps.testInterval ≠ 0 := by
  induction n generalizing u with
  | zero => cases hn
  | succ n ih =>
      obtain ⟨st, hst, hrest⟩ := bind_eq_ok h
      -- The first epoch divides by both, so any run that gets past it will do.
      by_cases hpos : 0 < n
      · exact ih hpos hst
      · have hzero : n = 0 := by omega
        subst hzero
        cases hst
        obtain ⟨st', hbody, -⟩ := bind_eq_ok hrest
        constructor
        · -- `0 / 0` in the first warm-up step.
          intro hw
          obtain ⟨p, hstep, -⟩ := bind_eq_ok hbody
          simp [WarmupLR.step, Hyps.scheduler, hw, pyDiv, bind, Except.bind] at hstep
        · -- `0 % 0` in the test for an evaluation.
          intro ht
          obtain ⟨p, -, hbody'⟩ := bind_eq_ok hbody
          obtain ⟨ev, hev, -⟩ := bind_eq_ok hbody'
          have hone : hyps.testInterval ≠ -1 := by
            rw [ht]
            exact fun h => one_ne_zero (neg_eq_zero.mp h.symm)
          rw [Hyps.isEvaluated, if_neg hone, if_pos ht] at hev
          cases hev

/-- Nine epochs with an evaluation of the epochs 6 and 8. -/
def nineEpochs : Hyps ℚ := ⟨9, 1 / 10000, 1 / 100000, 1, 2⟩

/-- Epoch 8 is better than epoch 6. -/
def betterLater (x : ℕ) : Results ℚ :=
  if x = 6 then ⟨1 / 2, 1 / 2, 1 / 2, 1 / 2, 3 / 10, 2 / 5⟩
  else ⟨1 / 2, 1 / 2, 1 / 2, 1 / 2, 1 / 2, 3 / 5⟩

end W2Net.Proofs.Train
