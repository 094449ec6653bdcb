import W2Net.Lib.ConvSize
import W2Net.Lib.Tensor

/-!
# `W2Net.Models.Layers`: the layers of the network

The layers of `torch.nn` that the modules of `models/` are built from. A layer
is what it does to the shape of a tensor. What it computes for the entries
depends on its weights, so it is a parameter: `Entries` gives the entries of the
output for the name of a layer, as `state_dict` has it, and its inputs.

A layer whose input does not fit raises `RuntimeError`.
-/

set_option autoImplicit false

namespace W2Net.Layers

/-- The entries that a layer computes, for its name and its inputs. -/
abbrev Entries (α : Type) : Type := String → List (Tensor α) → ℕ → α

variable {α : Type} (E : Entries α) (name : String)

/-- A layer that keeps the shape: `BatchNorm2d`, `ReLU`, `Sigmoid`, `Softmax`, a
multiplication with a scalar. -/
def pointwise (x : Tensor α) : Tensor α := ⟨x.shape, E name [x]⟩

/-- `nn.Conv2d(inChannels, outChannels, kernelSize, stride, padding)`. -/
structure Conv2d where
  inChannels : ℕ
  outChannels : ℕ
  kernelSize : ℕ
  stride : ℕ
  padding : ℕ

/-- The kernel has to fit into the padded input. -/
def Conv2d.forward (conv : Conv2d) (x : Tensor α) : PyM (Tensor α) :=
  match x.shape with
  | [n, c, h, w] =>
      if c = conv.inChannels ∧ conv.kernelSize ≤ h + 2 * conv.padding ∧
          conv.kernelSize ≤ w + 2 * conv.padding then
        .ok
          { shape := [n, conv.outChannels, convOut conv.kernelSize conv.stride conv.padding h,
              convOut conv.kernelSize conv.stride conv.padding w]
            data := E name [x] }
      else .error .runtimeError
  | _ => .error .runtimeError

/-- `nn.MaxPool2d(kernelSize, stride, padding)`. -/
def maxPool2d (kernelSize stride padding : ℕ) (x : Tensor α) : PyM (Tensor α) :=
  match x.shape with
  | [n, c, h, w] =>
      if kernelSize ≤ h + 2 * padding ∧ kernelSize ≤ w + 2 * padding then
        .ok
          { shape := [n, c, convOut kernelSize stride padding h, convOut kernelSize stride padding w]
            data := E name [x] }
      else .error .runtimeError
  | _ => .error .runtimeError

/-- `nn.Linear(inFeatures, outFeatures)` on a tensor with three dimensions. -/
def linear (inFeatures outFeatures : ℕ) (x : Tensor α) : PyM (Tensor α) :=
  match x.shape with
  | [b, r, c] =>
      if c = inFeatures then .ok ⟨[b, r, outFeatures], E name [x]⟩ else .error .runtimeError
  | _ => .error .runtimeError

/-- `torch.bmm(x, y)`. -/
def bmm (x y : Tensor α) : PyM (Tensor α) :=
  match x.shape, y.shape with
  | [b, n, m], [b', m', p] =>
      if b = b' ∧ m = m' then .ok ⟨[b, n, p], E name [x, y]⟩ else .error .runtimeError
  | _, _ => .error .runtimeError

/-- `x + y` into the shape of `x`: each dimension of `y` is that of `x`, or 1. -/
def addTo (x y : Tensor α) : PyM (Tensor α) :=
  if x.shape.length = y.shape.length ∧
      (y.shape.zip x.shape).all fun p => p.1 = p.2 ∨ p.1 = 1 then
    .ok ⟨x.shape, E name [x, y]⟩
  else .error .runtimeError

/-- `x * y`, which broadcasts as the addition does. -/
def mulTo (x y : Tensor α) : PyM (Tensor α) := addTo E name x y

/-- `nn.AdaptiveAvgPool2d(size)`. -/
def adaptiveAvgPool2d (size : ℕ) (x : Tensor α) : PyM (Tensor α) :=
  match x.shape with
  | [n, c, _, _] => .ok ⟨[n, c, size, size], E name [x]⟩
  | _ => .error .runtimeError

/-- `F.interpolate(x, size=(h, w))`. -/
def interpolate (h w : ℕ) (x : Tensor α) : PyM (Tensor α) :=
  match x.shape with
  | [n, c, _, _] => .ok ⟨[n, c, h, w], E name [x]⟩
  | _ => .error .runtimeError

/-! ### Shapes -/

/-- The postcondition of most layers. -/
def HasShape (shape : List ℕ) (x : Tensor α) : Prop := x.shape = shape

section
variable {x y : Tensor α} {n c h w : ℕ}

theorem HasShape.pointwise {shape : List ℕ} (hx : HasShape shape x) :
    HasShape shape (pointwise E name x) := hx

/-- A convolution with an odd kernel and half of it as padding. -/
theorem Conv2d.returns (conv : Conv2d) (hk : conv.kernelSize = 2 * conv.padding + 1)
    (hx : HasShape [n, conv.inChannels, h, w] x) (hh : 0 < h) (hw : 0 < w) :
    Returns (conv.forward E name x)
      (HasShape [n, conv.outChannels, strided conv.stride h, strided conv.stride w]) := by
  have hfit : conv.inChannels = conv.inChannels ∧ conv.kernelSize ≤ h + 2 * conv.padding ∧
      conv.kernelSize ≤ w + 2 * conv.padding := by omega
  unfold Conv2d.forward
  rw [show x.shape = _ from hx]
  refine ⟨_, if_pos hfit, ?_⟩
  rw [hk, convOut_odd, convOut_odd]
  rfl

/-- With stride 1 it keeps the size. -/
theorem Conv2d.returns_same (conv : Conv2d) (hk : conv.kernelSize = 2 * conv.padding + 1)
    (hs : conv.stride = 1) (hx : HasShape [n, conv.inChannels, h, w] x) (hh : 0 < h) (hw : 0 < w) :
    Returns (conv.forward E name x) (HasShape [n, conv.outChannels, h, w]) := by
  have h := conv.returns E name hk hx hh hw
  rwa [hs, strided_one hh, strided_one hw] at h

theorem maxPool2d_returns {k s p : ℕ} (hk : k = 2 * p + 1) (hx : HasShape [n, c, h, w] x)
    (hh : 0 < h) (hw : 0 < w) :
    Returns (maxPool2d E name k s p x) (HasShape [n, c, strided s h, strided s w]) := by
  have hfit : k ≤ h + 2 * p ∧ k ≤ w + 2 * p := by omega
  unfold maxPool2d
  rw [show x.shape = _ from hx]
  refine ⟨_, if_pos hfit, ?_⟩
  rw [hk, convOut_odd, convOut_odd]
  rfl

/-- An addition of two tensors of one shape. -/
theorem addTo_returns {shape : List ℕ} (hx : HasShape shape x) (hy : HasShape shape y) :
    Returns (addTo E name x y) (HasShape shape) := by
  have hxy : x.shape = y.shape := hx.trans hy.symm
  have hfit : x.shape.length = y.shape.length ∧
      (y.shape.zip x.shape).all fun p => p.1 = p.2 ∨ p.1 = 1 := by
    refine ⟨congrArg List.length hxy, ?_⟩
    rw [hxy, List.all_eq_true]
    intro p hp
    have heq := List.forall₂_zip (R := Eq) (List.forall₂_refl y.shape) hp
    exact decide_eq_true (Or.inl heq)
  exact ⟨_, if_pos hfit, hx⟩

theorem interpolate_returns {h' w' : ℕ} (hx : HasShape [n, c, h', w'] x) (h w : ℕ) :
    Returns (interpolate E name h w x) (HasShape [n, c, h, w]) := by
  unfold interpolate
  rw [show x.shape = _ from hx]
  exact ⟨_, rfl, rfl⟩

theorem linear_eq {i o b r : ℕ} (hx : x.shape = [b, r, i]) :
    linear E name i o x = .ok ⟨[b, r, o], E name [x]⟩ := by
  unfold linear
  rw [hx]
  exact if_pos rfl

theorem linear_returns {i o b r : ℕ} (hx : HasShape [b, r, i] x) :
    Returns (linear E name i o x) (HasShape [b, r, o]) := ⟨_, linear_eq E name hx, rfl⟩

theorem bmm_eq {b m p : ℕ} (hx : x.shape = [b, n, m]) (hy : y.shape = [b, m, p]) :
    bmm E name x y = .ok ⟨[b, n, p], E name [x, y]⟩ := by
  unfold bmm
  rw [hx, hy]
  exact if_pos ⟨rfl, rfl⟩

theorem bmm_returns {b m p : ℕ} (hx : HasShape [b, n, m] x) (hy : HasShape [b, m, p] y) :
    Returns (bmm E name x y) (HasShape [b, n, p]) := ⟨_, bmm_eq E name hx hy, rfl⟩

end

end W2Net.Layers
