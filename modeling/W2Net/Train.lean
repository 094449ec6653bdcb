import Mathlib.Data.Fin.VecNotation
import Mathlib.Data.Finset.Basic
import W2Net.Lib.Rounding

/-!
# `W2Net.Train`: the epochs, the checkpoints and the restarts of `train_model`

The model of `train_model` of `train.py`, with the scheduler `WarmupLR` of the
vendored `torch_warmup_lr` around `MultiStepLR`. `State` holds the variables of
`train_model` and the files that it writes. `start` is the part in front of the
loop, `epochBody` is one iteration of it, and `runTo` is a training that is
stopped and resumed at a set of epochs. `batchLoop` is the loop over the batches
of an epoch, with the mean of the losses that it keeps. The milestones are computed in
double precision; the rates and the losses are exact numbers.

The results of `evaluate` are given as a function of the epoch. The weights are
modelled by what they were trained with: the learning rates of the epochs so
far, in order. The text in front of the results in a line of `result.txt` is
modelled by its epoch.
-/

set_option autoImplicit false

namespace W2Net.Train

variable {K : Type} [Field K] [LinearOrder K] [FloorRing K]

/-- The entries of `hyps` that are read here, with `epochs` after `int`. -/
structure Hyps (K : Type) where
  epochs : ℕ
  lr0 : K
  warmupLr : K
  warmEpoch : K
  testInterval : K

/-! ### The learning rate -/

/-- The parameter group of the optimizer. -/
structure ParamGroup (K : Type) where
  lr : K
  warmupMaxLr : K
  warmupInitialLr : K

/-- `torch.optim.lr_scheduler.MultiStepLR` with `gamma=0.1`. -/
structure MultiStepLR where
  milestones : List ℤ
  lastEpoch : ℕ

/-- `get_lr`: the rate falls by `gamma` for each milestone at `last_epoch`. -/
def MultiStepLR.getLr (sched : MultiStepLR) (lr : K) : K :=
  if (sched.lastEpoch : ℤ) ∈ sched.milestones then
    lr * (1 / 10) ^ sched.milestones.count (sched.lastEpoch : ℤ)
  else lr

/-- The attributes of `WarmupLR`. `lastEpoch` is the attribute that
`train_model` sets on the wrapper; `step` does not read it. -/
structure WarmupLR (K : Type) where
  wrapped : MultiStepLR
  numWarmup : K
  stepCount : ℕ
  lastEpoch : ℤ

/-- `_warmup_cos`. -/
def warmupCos (m : PyMath K) (start stop pct : K) : K :=
  stop + (start - stop) / 2 * (m.cos (m.pi * pct) + 1)

/-- `WarmupLR.step`: a warm-up step while `_step_count <= num_warmup`, and a
step of the wrapped scheduler afterwards. -/
def WarmupLR.step (m : PyMath K) (sched : WarmupLR K) (group : ParamGroup K) :
    PyM (WarmupLR K × ParamGroup K) :=
  if (sched.stepCount : K) ≤ sched.numWarmup then do
    let pct ← pyDiv (sched.stepCount : K) sched.numWarmup
    let lr := warmupCos m group.warmupInitialLr group.warmupMaxLr pct
    .ok ({ sched with stepCount := sched.stepCount + 1 }, { group with lr := lr })
  else
    let wrapped := { sched.wrapped with lastEpoch := sched.wrapped.lastEpoch + 1 }
    .ok ({ sched with wrapped := wrapped }, { group with lr := wrapped.getLr group.lr })

namespace Hyps

/-- `round(epochs * x)` for the double nearest to `x`. The product is a double too, which
decides at a half: `round(45 * 0.7)` is 31. -/
def milestone (hyps : Hyps K) (x : K) : ℤ := pyRound (double (hyps.epochs * double x))

/-- `MultiStepLR(optimizer, milestones=[round(epochs * x) for x in [0.7, 0.9]])`.
The constructor makes the step to `last_epoch = 0`. -/
def multiStep (hyps : Hyps K) : MultiStepLR :=
  ⟨[hyps.milestone (7 / 10), hyps.milestone (9 / 10)], 0⟩

/-- The parameter group behind the two constructors (`_format_param`). -/
def paramGroup (hyps : Hyps K) : ParamGroup K :=
  let lr := hyps.multiStep.getLr hyps.lr0
  ⟨lr, lr, min hyps.warmupLr lr⟩

/-- The scheduler before the loop; `last_epoch` is `start_epoch - 1`, and
`start_epoch` is still 0 there. -/
def scheduler (hyps : Hyps K) : WarmupLR K := ⟨hyps.multiStep, hyps.warmEpoch, 0, 0 - 1⟩

/-- `test_interval != -1 and epoch % test_interval == 0 and epoch > 5`. -/
def isEvaluated (hyps : Hyps K) (epoch : ℕ) : PyM Bool :=
  if hyps.testInterval = -1 then .ok false
  else if hyps.testInterval = 0 then .error .zeroDivisionError
  else .ok (decide (pyMod (epoch : K) hyps.testInterval = 0) && decide (5 < epoch))

end Hyps

/-! ### The batches of an epoch -/

/-- The entries of `losses` that are read, with `loss_cls` and `loss_reg` after
`.mean()`. The last two can be missing, and only a `loss` from the model can be
an infinity or a NaN in exact arithmetic. -/
structure Losses (K : Type) where
  lossCls : K
  lossReg : K
  lossSeg : Option K
  loss : Option (NpFloat K)

namespace Losses

/-- `losses.get('loss_seg', torch.zeros_like(loss_cls))`. -/
def seg (losses : Losses K) : K := losses.lossSeg.getD 0

/-- The `loss` of the batch: the total from the model, or the weighted sum. -/
def total (lambda1 lambda2 : K) (losses : Losses K) : NpFloat K :=
  losses.loss.getD
    (.finite (losses.lossCls + losses.lossReg * lambda1 + losses.seg * lambda2))

/-- `loss_items`. -/
def items (losses : Losses K) : Fin 3 → K := ![losses.lossCls, losses.lossReg, losses.seg]

end Losses

/-- `for i, (ni, batch) in enumerate(pbar)`, with what the loop does to `mloss`.
A loss that is not finite ends the loop; a loss of 0 goes on with the next batch
before the step of the optimizer and the update. -/
def batchLoop (lambda1 lambda2 : K) : ℕ → (Fin 3 → K) → List (Losses K) → (Fin 3 → K)
  | _, mloss, [] => mloss
  | i, mloss, losses :: rest =>
      match losses.total lambda1 lambda2 with
      | .finite loss =>
          if loss = 0 then batchLoop lambda1 lambda2 (i + 1) mloss rest
          else
            let mloss := fun c => (mloss c * i + losses.items c) / (i + 1)
            batchLoop lambda1 lambda2 (i + 1) mloss rest
      | _ => mloss

/-- `mloss` at the end of an epoch. It starts with `torch.zeros(3)`. -/
def epochLoss (lambda1 lambda2 : K) (batches : List (Losses K)) : Fin 3 → K :=
  batchLoop lambda1 lambda2 0 (fun _ => 0) batches

/-! ### The best epoch -/

/-- What `evaluate` returns. -/
structure Results (K : Type) where
  P : K
  R : K
  mAP : K
  F1 : K
  miou : K
  dice : K
deriving DecidableEq

/-- `results = (0, 0, 0, 0, 0, 0)`. -/
def Results.zero : Results K := ⟨0, 0, 0, 0, 0, 0⟩

/-- `score = seg_avg = 1 * (miou + dice)`. -/
def Results.score (r : Results K) : K := 1 * (r.miou + r.dice)

/-- The variables `best_score`, `best_epoch`, `best_results`, `best_map50`,
`best_miou` and `best_dice`. -/
structure Best (K : Type) where
  score : K
  epoch : ℤ
  results : Option (Results K)
  map50 : K
  miou : K
  dice : K
deriving DecidableEq

/-- The values in front of the loop. -/
def Best.initial : Best K := ⟨-1, -1, none, -1, -1, -1⟩

/-- The values after a new best epoch. -/
def Best.ofEpoch (epoch : ℕ) (r : Results K) : Best K :=
  ⟨r.score, epoch, some r, r.mAP, r.miou, r.dice⟩

/-- The decision `is_best` of an evaluated epoch. -/
def Best.isBest (b : Best K) (r : Results K) : Bool :=
  if b.score < r.score then true
  else if r.score = b.score then
    if b.miou < r.miou then true
    else if r.miou = b.miou ∧ b.dice < r.dice then true
    else if r.miou = b.miou ∧ r.dice = b.dice ∧ b.map50 < r.mAP then true
    else false
  else false

/-! ### Files and variables -/

/-- `chkpt`. -/
structure Checkpoint (K : Type) where
  epoch : ℕ
  bestFitness : K
  bestEpoch : ℤ
  bestResults : Option (Results K)
  trainingResults : List (ℕ × Results K)
  model : List K
  optimizer : Option (ParamGroup K)

/-- The files: `result.txt`, `last.pth`, and the checkpoints that were saved to
`best.pth`, the latest one (the content of the file) first. -/
structure Disk (K : Type) where
  resultsFile : List (ℕ × Results K)
  last : Option (Checkpoint K)
  best : List (Checkpoint K)

def Disk.empty : Disk K := ⟨[], none, []⟩

/-- The variables of `train_model` between two iterations, with the files.
`epoch` is the next value of the loop variable. -/
structure State (K : Type) where
  epoch : ℕ
  model : List K
  group : ParamGroup K
  scheduler : WarmupLR K
  bestFitness : K
  results : Results K
  best : Best K
  disk : Disk K

/-- `# load chkpt`, with `args.resume`. -/
def State.load (st : State K) (chkpt : Checkpoint K) : State K :=
  { st with
    epoch := chkpt.epoch + 1
    model := chkpt.model
    group := chkpt.optimizer.getD st.group
    bestFitness := if chkpt.optimizer.isSome then chkpt.bestFitness else st.bestFitness
    disk := { st.disk with resultsFile := chkpt.trainingResults } }

/-- `train_model` up to the loop. Without `--resume` it starts from weights
that were trained for no epoch. -/
def start (hyps : Hyps K) (resume : Bool) (disk : Disk K) : PyM (State K) :=
  let st : State K :=
    { epoch := 0
      model := []
      group := hyps.paramGroup
      scheduler := hyps.scheduler
      bestFitness := 0
      results := .zero
      best := .initial
      disk := { disk with resultsFile := [] } }
  if resume then
    match disk.last with
    | none => .error .fileNotFoundError
    | some chkpt => .ok (st.load chkpt)
  else .ok st

/-- One iteration of `for epoch in range(start_epoch, epochs)`. -/
def epochBody (hyps : Hyps K) (m : PyMath K) (evaluate : ℕ → Results K) (st : State K) :
    PyM (State K) := do
  let model := st.model ++ [st.group.lr]
  let (scheduler, group) ← st.scheduler.step m st.group
  let evaluated ← hyps.isEvaluated st.epoch
  let results := if evaluated then evaluate st.epoch else st.results
  let resultsFile := st.disk.resultsFile ++ [(st.epoch, results)]
  let isBest := evaluated && st.best.isBest results
  let best := if isBest then .ofEpoch st.epoch results else st.best
  let bestFitness := if isBest then best.score else st.bestFitness
  let chkpt : Checkpoint K :=
    { epoch := st.epoch
      bestFitness := bestFitness
      bestEpoch := best.epoch
      bestResults := best.results
      trainingResults := resultsFile
      model := model
      optimizer := if st.epoch + 1 = hyps.epochs then none else some group }
  .ok
    { epoch := st.epoch + 1
      model := model
      group := group
      scheduler := scheduler
      bestFitness := bestFitness
      results := results
      best := best
      disk :=
        { resultsFile := resultsFile
          last := some chkpt
          best := if isBest then chkpt :: st.disk.best else st.disk.best } }

/-- The first `n` epochs of a training that is stopped in front of every epoch
of `stops` and restarted with `--resume`. -/
def runTo (hyps : Hyps K) (m : PyMath K) (evaluate : ℕ → Results K) (stops : Finset ℕ) :
    ℕ → PyM (State K)
  | 0 => start hyps false .empty
  | n + 1 => do
      let st ← runTo hyps m evaluate stops n
      let st ← epochBody hyps m evaluate st
      if n + 1 ∈ stops then start hyps true st.disk else .ok st

end W2Net.Train
