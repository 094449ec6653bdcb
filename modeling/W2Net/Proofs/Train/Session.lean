import Mathlib.Data.Prod.Lex
import W2Net.Lib.RunningBest
import W2Net.Train

/-!
# `W2Net.Proofs.Train.Session`: the state of a training that is stopped and resumed

Closed forms for the variables and files of `runTo`. They depend on the start of
the session, which is the last epoch at which the training was resumed
(`sessionStart`):

* the scheduler has made one step for each epoch of the session, and its next
  step changes the learning rate by `nextRate` (`step_schedulerAt`);
* `results` are those of the last evaluated epoch of the session;
* the best epoch is the first one of the session with the greatest key
  `(score, miou, dice, mAP)`, among the evaluated epochs that beat the initial
  values. An epoch offers its key to `FirstBest` when it `Counts`.

The learning rate, the weights, `result.txt` and the checkpoints are carried
over by `last.pth`. `Tracks` collects the closed forms. An epoch keeps them
(`Tracks.epochBody`), and so does a restart, which starts a new session
(`Tracks.restart`).
-/

set_option autoImplicit false

namespace W2Net.Proofs.Train

open W2Net.Train

variable {K : Type} [Field K] [LinearOrder K] [FloorRing K]

/-! ### The schedule -/

section Schedule
variable (hyps : Hyps K) (m : PyMath K)

/-- The number of warm-up steps. -/
def warmSteps : ℕ := (⌊hyps.warmEpoch⌋ + 1).toNat

theorem cast_le_warmEpoch_iff (j : ℕ) : (j : K) ≤ hyps.warmEpoch ↔ j < warmSteps hyps := by
  have hfloor : (j : ℤ) ≤ ⌊hyps.warmEpoch⌋ ↔ (j : K) ≤ hyps.warmEpoch := by
    rw [Int.le_floor, Int.cast_natCast]
  rw [← hfloor, warmSteps]
  omega

/-- The scheduler after `j` steps. -/
def schedulerAt (j : ℕ) : WarmupLR K :=
  ⟨⟨hyps.multiStep.milestones, j - warmSteps hyps⟩, hyps.warmEpoch, min j (warmSteps hyps), 0 - 1⟩

/-- The parameter group with a given learning rate. -/
def groupAt (lr : K) : ParamGroup K := { hyps.paramGroup with lr := lr }

/-- The learning rate behind the scheduler's step `j`, when it was `lr` before:
a value of the warm-up curve, then the decay at the milestones. -/
def nextRate (j : ℕ) (lr : K) : K :=
  if (j : K) ≤ hyps.warmEpoch then
    warmupCos m hyps.paramGroup.warmupInitialLr hyps.paramGroup.warmupMaxLr
      ((j : K) / hyps.warmEpoch)
  else MultiStepLR.getLr ⟨hyps.multiStep.milestones, j + 1 - warmSteps hyps⟩ lr

theorem step_schedulerAt (hw : hyps.warmEpoch ≠ 0) (j : ℕ) (lr : K) :
    (schedulerAt hyps j).step m (groupAt hyps lr)
      = .ok (schedulerAt hyps (j + 1), groupAt hyps (nextRate hyps m j lr)) := by
  by_cases hj : j < warmSteps hyps
  · -- A warm-up step: `_step_count` is `j`.
    have hmin : min j (warmSteps hyps) = j := by omega
    have hmin' : min (j + 1) (warmSteps hyps) = j + 1 := by omega
    have hzero : j + 1 - warmSteps hyps = j - warmSteps hyps := by omega
    have hle := (cast_le_warmEpoch_iff hyps j).mpr hj
    simp only [WarmupLR.step, schedulerAt, hmin, hmin', hzero, if_pos hle, pyDiv, if_neg hw,
      nextRate]
    rfl
  · -- `_step_count` has stopped at the number of warm-up steps.
    have hmin : min j (warmSteps hyps) = warmSteps hyps := by omega
    have hmin' : min (j + 1) (warmSteps hyps) = warmSteps hyps := by omega
    have hsucc : j + 1 - warmSteps hyps = j - warmSteps hyps + 1 := by omega
    have hlt : ¬ (j : K) ≤ hyps.warmEpoch :=
      fun h => hj ((cast_le_warmEpoch_iff hyps j).mp h)
    have hend : ¬ (warmSteps hyps : K) ≤ hyps.warmEpoch :=
      fun h => absurd ((cast_le_warmEpoch_iff hyps _).mp h) (by omega)
    simp only [WarmupLR.step, schedulerAt, hmin, hmin', hsucc, if_neg hend, if_neg hlt, nextRate]
    rfl

theorem schedulerAt_zero : hyps.scheduler = schedulerAt hyps 0 := by
  simp [Hyps.scheduler, schedulerAt, Hyps.multiStep]

/-- The learning rate of each epoch of a training with restarts at `stops`: the
scheduler counts its steps from the start of the session. -/
def rate (stops : Finset ℕ) : ℕ → K
  | 0 => hyps.paramGroup.lr
  | x + 1 => nextRate hyps m (x - sessionStart stops x) (rate stops x)

end Schedule

/-! ### The evaluated epochs -/

section Evaluation
variable (hyps : Hyps K) (evaluate : ℕ → Results K)

/-- The epoch is one of those that are evaluated. -/
def Evaluated (x : ℕ) : Prop :=
  hyps.testInterval ≠ -1 ∧ pyMod (x : K) hyps.testInterval = 0 ∧ 5 < x

instance (x : ℕ) : Decidable (Evaluated hyps x) :=
  inferInstanceAs (Decidable (_ ∧ _ ∧ _))

theorem isEvaluated_eq (ht : hyps.testInterval ≠ 0) (x : ℕ) :
    hyps.isEvaluated x = .ok (decide (Evaluated hyps x)) := by
  by_cases hone : hyps.testInterval = -1
  · simp [Hyps.isEvaluated, Evaluated, hone]
  · simp [Hyps.isEvaluated, Evaluated, hone, ht]

/-- `results` after `j` epochs of a session that starts at `s`. -/
def lastResults (s : ℕ) : ℕ → Results K
  | 0 => .zero
  | j + 1 => if Evaluated hyps (s + j) then evaluate (s + j) else lastResults s j

/-- The line of `result.txt` for an epoch. -/
def line (stops : Finset ℕ) (x : ℕ) : ℕ × Results K :=
  (x, lastResults hyps evaluate (sessionStart stops x) (x + 1 - sessionStart stops x))

/-! ### The order of the evaluated epochs -/

/-- Lexicographic order on four numbers. -/
abbrev Key (K : Type) : Type := K ×ₗ K ×ₗ K ×ₗ K

/-- `(score, miou, dice, mAP)`. -/
def resultsKey (r : Results K) : Key K :=
  toLex (r.score, toLex (r.miou, toLex (r.dice, r.mAP)))

/-- `(best_score, best_miou, best_dice, best_map50)`. -/
def bestKey (b : Best K) : Key K :=
  toLex (b.score, toLex (b.miou, toLex (b.dice, b.map50)))

omit [FloorRing K] in
/-- The nested comparisons decide the lexicographic order. -/
theorem isBest_iff (b : Best K) (r : Results K) :
    b.isBest r = true ↔ bestKey b < resultsKey r := by
  simp only [Best.isBest, bestKey, resultsKey, Prod.Lex.toLex_lt_toLex]
  constructor
  · intro h
    -- One branch for each place at which two keys can differ first.
    split_ifs at h with hscore heq hmiou hdice hmap
    · exact Or.inl hscore
    · exact Or.inr ⟨heq.symm, Or.inl hmiou⟩
    · exact Or.inr ⟨heq.symm, Or.inr ⟨hdice.1.symm, Or.inl hdice.2⟩⟩
    · exact Or.inr ⟨heq.symm, Or.inr ⟨hmap.1.symm, Or.inr ⟨hmap.2.1.symm, hmap.2.2⟩⟩⟩
  · rintro (hscore | ⟨heq, hmiou | ⟨hmeq, hdice | ⟨hdeq, hmap⟩⟩⟩)
    · rw [if_pos hscore]
    · rw [if_neg (by rw [heq]; exact lt_irrefl _), if_pos heq.symm, if_pos hmiou]
    · rw [if_neg (by rw [heq]; exact lt_irrefl _), if_pos heq.symm,
        if_neg (by rw [hmeq]; exact lt_irrefl _), if_pos ⟨hmeq.symm, hdice⟩]
    · rw [if_neg (by rw [heq]; exact lt_irrefl _), if_pos heq.symm,
        if_neg (by rw [hmeq]; exact lt_irrefl _),
        if_neg (by rw [hdeq]; exact fun h => lt_irrefl _ h.2), if_pos ⟨hmeq.symm, hdeq.symm, hmap⟩]

omit [FloorRing K] in
theorem score_le_of_key_le {r r' : Results K} (h : resultsKey r ≤ resultsKey r') :
    r.score ≤ r'.score :=
  Prod.Lex.monotone_fst _ _ h

/-- The epoch is evaluated, and its results beat the values in front of the
loop. Results that are not negative always do. -/
def Counts (x : ℕ) : Prop :=
  Evaluated hyps x ∧ bestKey (Best.initial : Best K) < resultsKey (evaluate x)

instance (x : ℕ) : Decidable (Counts hyps evaluate x) :=
  inferInstanceAs (Decidable (_ ∧ _))

/-- The key of an epoch that counts, nothing for any other epoch. -/
def offer (x : ℕ) : WithBot (Key K) :=
  if Counts hyps evaluate x then resultsKey (evaluate x) else ⊥

/-- The best variables for the epoch that the reader of the offers holds. -/
def bestOf : Option ℕ → Best K
  | none => .initial
  | some i => .ofEpoch i (evaluate i)

variable {hyps evaluate}

theorem bot_lt_offer_iff {x : ℕ} : ⊥ < offer hyps evaluate x ↔ Counts hyps evaluate x :=
  bot_lt_ite_iff

theorem offer_eq_bot_iff {x : ℕ} : offer hyps evaluate x = ⊥ ↔ ¬ Counts hyps evaluate x := by
  rw [← bot_lt_offer_iff, bot_lt_iff_ne_bot, not_not]

theorem offer_of_counts {x : ℕ} (h : Counts hyps evaluate x) :
    offer hyps evaluate x = resultsKey (evaluate x) := if_pos h

theorem offer_lt_offer_iff {a b : ℕ} (h : Counts hyps evaluate a) :
    offer hyps evaluate a < offer hyps evaluate b ↔
      Counts hyps evaluate b ∧ resultsKey (evaluate a) < resultsKey (evaluate b) := by
  by_cases hb : Counts hyps evaluate b
  · rw [offer_of_counts h, offer_of_counts hb, WithBot.coe_lt_coe]
    exact ⟨fun hlt => ⟨hb, hlt⟩, fun hlt => hlt.2⟩
  · rw [offer_eq_bot_iff.mpr hb]
    exact ⟨fun hlt => absurd hlt not_lt_bot, fun hlt => absurd hlt.1 hb⟩

omit [LinearOrder K] [FloorRing K] in
/-- Two readers with the same best variables hold the same epoch: `best_epoch`
tells the epochs apart, and it is `-1` in front of the first one. -/
theorem bestOf_injective {e e' : Option ℕ} (h : bestOf evaluate e = bestOf evaluate e') :
    e = e' := by
  -- The epoch number alone tells them apart: no epoch has the number `-1`.
  have hepoch : (bestOf evaluate e).epoch = (bestOf evaluate e').epoch := by rw [h]
  cases e with
  | none =>
      cases e' with
      | none => rfl
      | some j =>
          simp only [bestOf, Best.initial, Best.ofEpoch] at hepoch
          omega
  | some i =>
      cases e' with
      | none =>
          simp only [bestOf, Best.initial, Best.ofEpoch] at hepoch
          omega
      | some j =>
          simp only [bestOf, Best.ofEpoch, Int.natCast_inj] at hepoch
          rw [hepoch]

/-- The decision of an epoch is the step of the reader. -/
theorem isBest_bestOf {s n : ℕ} {e : Option ℕ} (h : FirstBest (offer hyps evaluate) s n e)
    (hn : Evaluated hyps n) :
    (bestOf evaluate e).isBest (evaluate n) = true ↔
      held (offer hyps evaluate) e < offer hyps evaluate n := by
  rw [isBest_iff]
  cases e with
  | none =>
      show bestKey Best.initial < _ ↔ ⊥ < _
      rw [bot_lt_offer_iff]
      exact ⟨fun hlt => ⟨hn, hlt⟩, fun hc => hc.2⟩
  | some i =>
      obtain ⟨-, -, hpos⟩ := h.mem i rfl
      have hi := bot_lt_offer_iff.mp hpos
      show resultsKey (evaluate i) < _ ↔ offer hyps evaluate i < _
      rw [offer_lt_offer_iff hi]
      exact ⟨fun hlt => ⟨⟨hn, hi.2.trans hlt⟩, hlt⟩, fun hc => hc.2⟩

end Evaluation

/-! ### The state after `n` epochs -/

section Tracks
variable (hyps : Hyps K) (m : PyMath K) (evaluate : ℕ → Results K) (stops : Finset ℕ)

/-- The checkpoint that a new best epoch writes. -/
def checkpointAt (i : ℕ) : Checkpoint K where
  epoch := i
  bestFitness := (evaluate i).score
  bestEpoch := i
  bestResults := some (evaluate i)
  trainingResults := (List.range (i + 1)).map (line hyps evaluate stops)
  model := (List.range (i + 1)).map (rate hyps m stops)
  optimizer := if i + 1 = hyps.epochs then none else some (groupAt hyps (rate hyps m stops (i + 1)))

/-- The state after `n` epochs, in a session that starts at `s`. -/
structure Tracks (s n : ℕ) (e : Option ℕ) (st : State K) : Prop where
  le : s ≤ n
  epoch : st.epoch = n
  model : st.model = (List.range n).map (rate hyps m stops)
  group : n < hyps.epochs → st.group = groupAt hyps (rate hyps m stops n)
  scheduler : st.scheduler = schedulerAt hyps (n - s)
  results : st.results = lastResults hyps evaluate s (n - s)
  firstBest : FirstBest (offer hyps evaluate) s n e
  best : st.best = bestOf evaluate e
  head : ∀ i, e = some i → st.disk.best.head? = some (checkpointAt hyps m evaluate stops i)
  file : st.disk.resultsFile = (List.range n).map (line hyps evaluate stops)
  last : 0 < n → ∃ chkpt, st.disk.last = some chkpt ∧ chkpt.epoch + 1 = n ∧
    chkpt.model = st.model ∧ chkpt.trainingResults = st.disk.resultsFile ∧
    (n < hyps.epochs → chkpt.optimizer = some st.group)
  written : ∀ chkpt, chkpt ∈ st.disk.best ↔ ∃ x < n,
    IsRecord (offer hyps evaluate) (sessionStart stops x) x ∧
      chkpt = checkpointAt hyps m evaluate stops x

variable {hyps m evaluate stops}

/-- The start of a training without `--resume`. -/
theorem Tracks.start :
    ∃ st, start hyps false Disk.empty = .ok st ∧ Tracks hyps m evaluate stops 0 0 none st := by
  refine ⟨_, rfl, ?_⟩
  exact
    { le := Nat.le_refl 0
      epoch := rfl
      model := rfl
      group := fun _ => rfl
      scheduler := schedulerAt_zero hyps
      results := rfl
      firstBest := FirstBest.empty _ 0
      best := rfl
      head := fun i hi => by cases hi
      file := rfl
      last := fun h => absurd h (Nat.lt_irrefl 0)
      written := by simp [Disk.empty] }

/-- A restart keeps the closed forms, and a new session begins. -/
theorem Tracks.restart {s n : ℕ} {e : Option ℕ} {st : State K}
    (h : Tracks hyps m evaluate stops s n e st) (hn : 0 < n) :
    ∃ st', Train.start hyps true st.disk = .ok st' ∧
      Tracks hyps m evaluate stops n n none st' := by
  obtain ⟨chkpt, hlast, hepoch, hmodel, hfile, hopt⟩ := h.last hn
  -- The restarted session reads back what the last epoch has written.
  refine ⟨_, by simp only [Train.start, hlast]; rfl, ?_⟩
  exact
    { le := Nat.le_refl n
      epoch := hepoch
      model := hmodel.trans h.model
      group := fun hlt => by
        show chkpt.optimizer.getD hyps.paramGroup = _
        rw [hopt hlt, Option.getD_some]
        exact h.group hlt
      scheduler := by
        rw [Nat.sub_self]
        exact schedulerAt_zero hyps
      results := by
        rw [Nat.sub_self]
        rfl
      firstBest := FirstBest.empty _ n
      best := rfl
      head := fun i hi => by cases hi
      file := hfile.trans h.file
      last := fun _ => ⟨chkpt, rfl, hepoch, rfl, rfl, fun hlt => by
        show chkpt.optimizer = some (chkpt.optimizer.getD hyps.paramGroup)
        rw [hopt hlt, Option.getD_some]⟩
      written := h.written }

/-- `results` after one more epoch of the session. -/
theorem lastResults_succ {s n : ℕ} (hs : s ≤ n) :
    lastResults hyps evaluate s (n + 1 - s)
      = if Evaluated hyps n then evaluate n else lastResults hyps evaluate s (n - s) := by
  have hsub : n + 1 - s = n - s + 1 := by omega
  have hadd : s + (n - s) = n := by omega
  rw [hsub, lastResults, hadd]

/-- The decision `is_best` of an epoch is the step of the reader. -/
theorem Tracks.isBest_iff {s n : ℕ} {e : Option ℕ} {st : State K}
    (h : Tracks hyps m evaluate stops s n e st) (r : Results K)
    (hr : Evaluated hyps n → r = evaluate n) :
    (decide (Evaluated hyps n) && st.best.isBest r) = true ↔
      held (offer hyps evaluate) e < offer hyps evaluate n := by
  rw [Bool.and_eq_true, decide_eq_true_iff, h.best]
  constructor
  · rintro ⟨hn, hbest⟩
    rw [hr hn] at hbest
    exact (isBest_bestOf h.firstBest hn).mp hbest
  · intro hlt
    have hn : Evaluated hyps n := (bot_lt_offer_iff.mp (lt_of_le_of_lt bot_le hlt)).1
    rw [hr hn]
    exact ⟨hn, (isBest_bestOf h.firstBest hn).mpr hlt⟩

/-- The next epoch has the rate after one more step of this session. -/
theorem Tracks.step_scheduler {s n : ℕ} {e : Option ℕ} {st : State K}
    (h : Tracks hyps m evaluate stops s n e st) (hs : s = sessionStart stops n)
    (hn : n < hyps.epochs) (hw : hyps.warmEpoch ≠ 0) :
    st.scheduler.step m st.group
      = .ok (schedulerAt hyps (n + 1 - s), groupAt hyps (rate hyps m stops (n + 1))) := by
  have hle := h.le
  have hsub : n + 1 - s = n - s + 1 := by omega
  rw [h.scheduler, h.group hn, step_schedulerAt hyps m hw, hsub, rate, hs]

/-- The weights after one more epoch. -/
theorem Tracks.model_succ {s n : ℕ} {e : Option ℕ} {st : State K}
    (h : Tracks hyps m evaluate stops s n e st) (hn : n < hyps.epochs) :
    st.model ++ [st.group.lr] = (List.range (n + 1)).map (rate hyps m stops) := by
  rw [h.model, h.group hn, List.range_succ, List.map_append]
  rfl

/-- An epoch without evaluation keeps the results of the one before. -/
theorem Tracks.results_succ {s n : ℕ} {e : Option ℕ} {st : State K}
    (h : Tracks hyps m evaluate stops s n e st) :
    (if decide (Evaluated hyps n) = true then evaluate n else st.results)
      = lastResults hyps evaluate s (n + 1 - s) := by
  rw [lastResults_succ h.le, h.results]
  simp only [decide_eq_true_iff]

/-- `result.txt` with one more line. -/
theorem Tracks.file_succ {s n : ℕ} {e : Option ℕ} {st : State K}
    (h : Tracks hyps m evaluate stops s n e st) (hs : s = sessionStart stops n) :
    st.disk.resultsFile ++ [(n, lastResults hyps evaluate s (n + 1 - s))]
      = (List.range (n + 1)).map (line hyps evaluate stops) := by
  rw [h.file, List.range_succ, List.map_append, hs]
  rfl

/-- A new best epoch: its checkpoint goes to `best.pth`. -/
theorem Tracks.epochBody_best {s n : ℕ} {e : Option ℕ} {st : State K}
    (h : Tracks hyps m evaluate stops s n e st) (hs : s = sessionStart stops n)
    (hn : n < hyps.epochs) (hw : hyps.warmEpoch ≠ 0) (ht : hyps.testInterval ≠ 0)
    (hlt : held (offer hyps evaluate) e < offer hyps evaluate n) :
    ∃ st', Train.epochBody hyps m evaluate st = .ok st' ∧
      Tracks hyps m evaluate stops s (n + 1) (some n) st' := by
  have hle := h.le
  have hcounts : Counts hyps evaluate n := bot_lt_offer_iff.mp (lt_of_le_of_lt bot_le hlt)
  have hres : lastResults hyps evaluate s (n + 1 - s) = evaluate n := by
    rw [lastResults_succ hle, if_pos hcounts.1]
  have hrec : IsRecord (offer hyps evaluate) (sessionStart stops n) n :=
    hs ▸ h.firstBest.lt_iff.mp hlt
  have hyes := (h.isBest_iff (evaluate n) fun _ => rfl).mpr hlt
  have hfile := h.file_succ hs
  rw [hres] at hfile
  simp only [Train.epochBody, h.step_scheduler hs hn hw, isEvaluated_eq hyps ht n, h.model_succ hn,
    h.epoch, bind, Except.bind, h.results_succ, hres, hfile, hyes, if_true]
  refine ⟨_, rfl, ?_⟩
  exact
    { le := by omega
      epoch := rfl
      model := rfl
      group := fun _ => rfl
      scheduler := rfl
      results := hres.symm
      firstBest := h.firstBest.accept hle hlt
      best := rfl
      head := fun i hi => by
        cases hi
        rfl
      file := rfl
      last := fun _ => ⟨_, rfl, rfl, rfl, rfl, fun hlt' => if_neg (by omega)⟩
      written := fun chkpt => by
        rw [List.mem_cons, h.written, Nat.exists_lt_succ_right, and_iff_right hrec, or_comm]
        rfl }

/-- No new best epoch: only `last.pth` is written. -/
theorem Tracks.epochBody_pass {s n : ℕ} {e : Option ℕ} {st : State K}
    (h : Tracks hyps m evaluate stops s n e st) (hs : s = sessionStart stops n)
    (hn : n < hyps.epochs) (hw : hyps.warmEpoch ≠ 0) (ht : hyps.testInterval ≠ 0)
    (hge : ¬held (offer hyps evaluate) e < offer hyps evaluate n) :
    ∃ st', Train.epochBody hyps m evaluate st = .ok st' ∧
      Tracks hyps m evaluate stops s (n + 1) e st' := by
  have hle := h.le
  have hno : ¬(decide (Evaluated hyps n) &&
      st.best.isBest (lastResults hyps evaluate s (n + 1 - s))) = true := by
    rw [h.isBest_iff _ fun hev => by rw [lastResults_succ hle, if_pos hev]]
    exact hge
  have hnorec : ¬IsRecord (offer hyps evaluate) (sessionStart stops n) n := by
    rw [← hs, ← h.firstBest.lt_iff]
    exact hge
  simp only [Train.epochBody, h.step_scheduler hs hn hw, isEvaluated_eq hyps ht n, h.model_succ hn,
    h.epoch, bind, Except.bind, h.results_succ, h.file_succ hs, if_neg hno]
  refine ⟨_, rfl, ?_⟩
  exact
    { le := by omega
      epoch := rfl
      model := rfl
      group := fun _ => rfl
      scheduler := rfl
      results := rfl
      firstBest := h.firstBest.pass hge
      best := h.best
      head := h.head
      file := rfl
      last := fun _ => ⟨_, rfl, rfl, rfl, rfl, fun hlt' => if_neg (by omega)⟩
      written := fun chkpt => by
        rw [h.written, Nat.exists_lt_succ_right, or_iff_left fun hn => hnorec hn.1] }

/-- One epoch keeps the closed forms. -/
theorem Tracks.epochBody {s n : ℕ} {e : Option ℕ} {st : State K}
    (h : Tracks hyps m evaluate stops s n e st) (hs : s = sessionStart stops n)
    (hn : n < hyps.epochs) (hw : hyps.warmEpoch ≠ 0) (ht : hyps.testInterval ≠ 0) :
    ∃ st', Train.epochBody hyps m evaluate st = .ok st' ∧
      Tracks hyps m evaluate stops s (n + 1) (consider (offer hyps evaluate) e n) st' := by
  by_cases hlt : held (offer hyps evaluate) e < offer hyps evaluate n
  · rw [consider, if_pos hlt]
    exact h.epochBody_best hs hn hw ht hlt
  · rw [consider, if_neg hlt]
    exact h.epochBody_pass hs hn hw ht hlt

/-- The state after `n` epochs of a training with restarts. -/
theorem runTo_tracks (m : PyMath K) (evaluate : ℕ → Results K) (stops : Finset ℕ)
    (hok : 0 < hyps.epochs → hyps.warmEpoch ≠ 0 ∧ hyps.testInterval ≠ 0) {n : ℕ}
    (hn : n ≤ hyps.epochs) :
    ∃ st e, runTo hyps m evaluate stops n = .ok st ∧
      Tracks hyps m evaluate stops (sessionStart stops n) n e st := by
  induction n with
  | zero =>
      obtain ⟨st, hst, htr⟩ : ∃ st, Train.start hyps false Disk.empty = .ok st ∧
          Tracks hyps m evaluate stops 0 0 none st := Tracks.start
      exact ⟨st, none, hst, htr⟩
  | succ n ih =>
      obtain ⟨hw, ht⟩ := hok (by omega)
      obtain ⟨st, e, hst, htr⟩ := ih (by omega)
      obtain ⟨st₁, hst₁, htr₁⟩ := htr.epochBody rfl (by omega) hw ht
      -- An interruption after this epoch starts a session with no results of its own.
      by_cases hmem : n + 1 ∈ stops
      · obtain ⟨st₂, hst₂, htr₂⟩ := htr₁.restart (Nat.succ_pos n)
        refine ⟨st₂, none, ?_, ?_⟩
        · simp only [runTo, hst, hst₁, bind, Except.bind, if_pos hmem]
          exact hst₂
        · rw [sessionStart_of_mem hmem]
          exact htr₂
      · refine ⟨st₁, consider (offer hyps evaluate) e n, ?_, ?_⟩
        · simp only [runTo, hst, hst₁, bind, Except.bind, if_neg hmem]
        · rw [sessionStart, if_neg hmem]
          exact htr₁

end Tracks

end W2Net.Proofs.Train
