import W2Net.Models.Layers

/-!
# `W2Net.Models.Heads`: the classification and the regression head

The models of `CLSHead` and `REGHead` of `models/heads.py`. Both run the same
stack of convolutions, which keeps the size of the feature, and then move the
channels of each anchor into a row of their own. `maps` is the tensor in front of
this step, `forward` the whole head.
-/

set_option autoImplicit false

namespace W2Net.Heads

open W2Net.Layers

variable {α : Type} (E : Entries α) (name : String)

/-- The convolutions of a head, from number `i` on: the first one reads
`inChannels`, the others `featChannels`. -/
def convs (inChannels featChannels : ℕ) : ℕ → ℕ → Tensor α → PyM (Tensor α)
  | _, 0, x => .ok x
  | i, k + 1, x => do
      let chns := if i = 0 then inChannels else featChannels
      let x ← (⟨chns, featChannels, 3, 1, 1⟩ : Conv2d).forward E
        (name ++ ".convs." ++ toString (2 * i)) x
      convs inChannels featChannels (i + 1) k
        (pointwise E (name ++ ".convs." ++ toString (2 * i + 1)) x)

/-- `CLSHead`. `__init__` asserts at least one convolution. -/
structure CLSHead where
  inChannels : ℕ
  featChannels : ℕ
  numStacked : ℕ
  numAnchors : ℕ
  numClasses : ℕ
  stacked : 1 ≤ numStacked

/-- `torch.sigmoid(self.head(x))` after the convolutions. -/
def CLSHead.maps (head : CLSHead) (x : Tensor α) : PyM (Tensor α) := do
  let x ← convs E name head.inChannels head.featChannels 0 head.numStacked x
  let x ← (⟨head.featChannels, head.numAnchors * head.numClasses, 3, 1, 1⟩ : Conv2d).forward E
    (name ++ ".head") x
  .ok (pointwise E (name ++ ".sigmoid") x)

/-- The rows of the anchors: `permute` and the two calls of `reshape`. -/
def CLSHead.rows (head : CLSHead) (x : Tensor α) : PyM (Tensor α) := do
  let x ← x.permute [0, 2, 3, 1]
  match x.shape with
  | [n, w, h, _] =>
      let x ← x.reshape [some n, some w, some h, some head.numAnchors, some head.numClasses]
      x.reshape [some n, none, some head.numClasses]
  | _ => .error .valueError

def CLSHead.forward (head : CLSHead) (x : Tensor α) : PyM (Tensor α) := do
  let x ← head.maps E name x
  head.rows x

/-- `REGHead`. -/
structure REGHead where
  inChannels : ℕ
  featChannels : ℕ
  numStacked : ℕ
  numAnchors : ℕ
  numRegress : ℕ
  stacked : 1 ≤ numStacked

/-- `self.head(x)` after the convolutions. -/
def REGHead.maps (head : REGHead) (x : Tensor α) : PyM (Tensor α) := do
  let x ← convs E name head.inChannels head.featChannels 0 head.numStacked x
  (⟨head.featChannels, head.numAnchors * head.numRegress, 3, 1, 1⟩ : Conv2d).forward E
    (name ++ ".head") x

/-- The rows of the anchors, with one call of `reshape`. -/
def REGHead.rows (head : REGHead) (x : Tensor α) : PyM (Tensor α) := do
  let x ← x.permute [0, 2, 3, 1]
  x.reshape [some (x.shape.getD 0 0), none, some head.numRegress]

def REGHead.forward (head : REGHead) (x : Tensor α) : PyM (Tensor α) := do
  let x ← head.maps E name x
  head.rows x

end W2Net.Heads
