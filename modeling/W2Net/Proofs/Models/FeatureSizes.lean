import W2Net.Models.FcaNet
import W2Net.Models.Fpan

/-!
# `W2Net.Proofs.Models.FeatureSizes`: the sizes of the feature pyramid

Every convolution and every pooling of the network has an odd kernel with half
of it as padding, so an axis of size `n` becomes `strided s n` for the stride
`s`. The lemmas follow the modules, with `Returns.bind` for each line of a
`forward`: a block, a layer, the backbone (`features_returns`), and the pyramid
(`fpan_returns`). Each says that the module returns, and the shape of what it
returns.

Nothing is assumed about what the layers compute.
-/

set_option autoImplicit false

namespace W2Net.Proofs.FeatureSizes

open W2Net.Layers

variable {α : Type} (E : Entries α) {x : Tensor α} {n h w : ℕ}

/-! ### The backbone -/

section
open W2Net.FcaNet

/-- The strides of a block are those of its one strided convolution. -/
theorem branch_returns (block : Block) (name : String) (inplanes planes stride : ℕ)
    (hx : HasShape [n, inplanes, h, w] x) (hh : 0 < h) (hw : 0 < w) :
    Returns (block.branch E name inplanes planes stride x)
      (HasShape [n, planes * block.expansion, strided stride h, strided stride w]) := by
  have hh' : 0 < strided stride h := strided_pos stride h
  have hw' : 0 < strided stride w := strided_pos stride w
  cases block with
  | basic =>
      refine (Conv2d.returns E _ (conv3x3 inplanes planes stride) rfl hx hh hw).bind fun y₁ h₁ => ?_
      refine (Conv2d.returns_same E _ (conv3x3 planes planes 1) rfl rfl
        ((h₁.pointwise E _).pointwise E _) hh' hw').bind fun y₂ h₂ => ?_
      refine Returns.ok ?_
      show HasShape [n, planes * 1, _, _] _
      rw [Nat.mul_one]
      exact (h₂.pointwise E _).pointwise E _
  | bottleneck =>
      refine (Conv2d.returns_same E _ (conv1x1 inplanes planes 1) rfl rfl hx hh hw).bind
        fun y₁ h₁ => ?_
      -- The stride is in the second convolution here, and in the first one of a basic block.
      refine (Conv2d.returns E _ (conv3x3 planes planes stride) rfl
        ((h₁.pointwise E _).pointwise E _) hh hw).bind fun y₂ h₂ => ?_
      refine (Conv2d.returns_same E _ (conv1x1 planes (planes * 4) 1) rfl rfl
        ((h₂.pointwise E _).pointwise E _) hh' hw').bind fun y₃ h₃ => ?_
      exact Returns.ok ((h₃.pointwise E _).pointwise E _)

/-- A block. Without `downsample` the residual has the shape of the branch
already. -/
theorem block_returns (block : Block) (name : String) (inplanes planes stride : ℕ)
    {downsample : Bool}
    (hdown : downsample = false → stride = 1 ∧ inplanes = planes * block.expansion)
    (hx : HasShape [n, inplanes, h, w] x) (hh : 0 < h) (hw : 0 < w) :
    Returns (block.forward E name inplanes planes stride downsample x)
      (HasShape [n, planes * block.expansion, strided stride h, strided stride w]) := by
  refine (branch_returns E block name inplanes planes stride hx hh hw).bind fun out hout => ?_
  have hresidual : Returns (block.residual E name inplanes planes stride downsample x)
      (HasShape [n, planes * block.expansion, strided stride h, strided stride w]) := by
    cases downsample with
    | true =>
        exact (Conv2d.returns E _ (conv1x1 inplanes (planes * block.expansion) stride) rfl hx
          hh hw).bind fun y hy => Returns.ok (hy.pointwise E _)
    | false =>
        -- The input itself is added, and it has the size of a stride of 1.
        obtain ⟨rfl, rfl⟩ := hdown rfl
        rw [strided_one hh, strided_one hw]
        exact Returns.ok hx
  refine hresidual.bind fun residual hres => ?_
  exact (addTo_returns E _ hout hres).bind fun y hy => Returns.ok (hy.pointwise E _)

/-- The later blocks of a layer keep the shape. Induction on their number. -/
theorem restBlocks_returns (block : Block) (name : String) (planes i k : ℕ)
    (hx : HasShape [n, planes * block.expansion, h, w] x) (hh : 0 < h) (hw : 0 < w) :
    Returns (restBlocks E block name planes i k x)
      (HasShape [n, planes * block.expansion, h, w]) := by
  induction k generalizing i x with
  | zero => exact Returns.ok hx
  | succ k ih =>
      refine (block_returns E block _ _ planes 1 (fun _ => ⟨rfl, rfl⟩) hx hh hw).bind
        fun y hy => ?_
      rw [strided_one hh, strided_one hw] at hy
      exact ih (i + 1) hy

theorem makeLayer_returns (block : Block) (name : String) (inplanes planes blocks stride : ℕ)
    (hx : HasShape [n, inplanes, h, w] x) (hh : 0 < h) (hw : 0 < w) :
    Returns (makeLayer E block name inplanes planes blocks stride x)
      (HasShape [n, planes * block.expansion, strided stride h, strided stride w]) := by
  refine (block_returns E block _ inplanes planes stride (fun hdown => ?_) hx hh hw).bind
    fun y hy => ?_
  · simpa using hdown
  · exact restBlocks_returns E block name planes 1 _ hy (strided_pos _ _) (strided_pos _ _)

/-- The channels of the features are those that the pyramid expects. -/
theorem fpnInChannels_eq (backbone : Backbone) :
    backbone.fpnInChannels = (128 * backbone.block.expansion, 256 * backbone.block.expansion,
      512 * backbone.block.expansion) := by
  cases backbone <;> rfl

/-- The backbone: `c3`, `c4` and `c5` are halved three, four and five times. -/
theorem features_returns (backbone : Backbone) (hx : HasShape [n, 3, h, w] x) (hh : 0 < h)
    (hw : 0 < w) :
    Returns (features E backbone x) fun c =>
      HasShape [n, backbone.fpnInChannels.1, (strided 2)^[3] h, (strided 2)^[3] w] c.2.2.1 ∧
      HasShape [n, backbone.fpnInChannels.2.1, (strided 2)^[4] h, (strided 2)^[4] w] c.2.2.2.1 ∧
      HasShape [n, backbone.fpnInChannels.2.2, (strided 2)^[5] h, (strided 2)^[5] w] c.2.2.2.2 := by
  have hpos : ∀ s m, 0 < strided s m := strided_pos
  rw [fpnInChannels_eq]
  have hstem : Returns (stem E x) (HasShape [n, 64, strided 2 h, strided 2 w]) :=
    (Conv2d.returns E _ ⟨3, 64, 7, 2, 3⟩ rfl hx hh hw).bind fun y hy =>
      Returns.ok ((hy.pointwise E _).pointwise E _)
  refine hstem.bind fun c1 h₁ => ?_
  refine (maxPool2d_returns E _ (k := 3) (p := 1) rfl h₁ (hpos _ _) (hpos _ _)).bind fun p hp => ?_
  refine (makeLayer_returns E backbone.block _ 64 64 _ 1 hp (hpos _ _) (hpos _ _)).bind
    fun c2 h₂ => ?_
  -- The first layer does not halve: `c2` has the size of the pooled stem.
  rw [strided_one (hpos _ _), strided_one (hpos _ _)] at h₂
  refine (makeLayer_returns E backbone.block _ _ 128 _ 2 h₂ (hpos _ _) (hpos _ _)).bind
    fun c3 h₃ => ?_
  refine (makeLayer_returns E backbone.block _ _ 256 _ 2 h₃ (hpos _ _) (hpos _ _)).bind
    fun c4 h₄ => ?_
  refine (makeLayer_returns E backbone.block _ _ 512 _ 2 h₄ (hpos _ _) (hpos _ _)).bind
    fun c5 h₅ => ?_
  exact Returns.ok ⟨h₃, h₄, h₅⟩

end

/-! ### The pyramid -/

section
open W2Net.Fpan

/-- SPPF keeps the size: its pools have stride 1. -/
theorem sppf_returns (name : String) (cIn cOut : ℕ) (hx : HasShape [n, cIn, h, w] x) (hh : 0 < h)
    (hw : 0 < w) : Returns (sppf E name cIn cOut 5 x) (HasShape [n, cOut, h, w]) := by
  have hpool : ∀ {y : Tensor α}, HasShape [n, cOut, h, w] y →
      Returns (maxPool2d E (name ++ ".m") 5 1 2 y) (HasShape [n, cOut, h, w]) := by
    intro y hy
    have h := maxPool2d_returns E (name ++ ".m") (k := 5) (s := 1) (p := 2) rfl hy hh hw
    rwa [strided_one hh, strided_one hw] at h
  refine (Conv2d.returns_same E _ ⟨cIn, cOut, 1, 1, 0⟩ rfl rfl hx hh hw).bind fun y₀ h₀ => ?_
  refine (hpool h₀).bind fun y₁ h₁ => (hpool h₁).bind fun y₂ h₂ => (hpool h₂).bind fun y₃ h₃ => ?_
  -- All four have one shape, so they can be put together along the channels.
  have hshapes : ∀ t ∈ [y₀, y₁, y₂, y₃], t.shape = [n, cOut, h, w] := by
    simp only [List.mem_cons, List.not_mem_nil, or_false]
    rintro t (rfl | rfl | rfl | rfl)
    · exact h₀
    · exact h₁
    · exact h₂
    · exact h₃
  have hcat := Tensor.cat_channels [y₀, y₁, y₂, y₃] (List.cons_ne_nil _ _) hshapes
  exact hcat.bind fun cat hcat =>
    Conv2d.returns_same E _ ⟨cOut * 4, cOut, 1, 1, 0⟩ rfl rfl hcat hh hw

/-- `view(b, -1, c)` of a feature with `c` channels. -/
theorem view_returns {c : ℕ} (hx : HasShape [n, c, h, w] x) (hn : 0 < n) (hc : 0 < c) :
    Returns (x.reshape [some n, none, some c]) (HasShape [n, h * w, c]) := by
  have hprod : x.shape.prod = n * (h * w) * c := by
    rw [show x.shape = _ from hx]
    simp only [List.prod_cons, List.prod_nil]
    ring
  exact ⟨_, Tensor.reshape_rows hn hc hprod, rfl⟩

/-- The attended pixels are those of the first feature again. -/
theorem attention_returns (name : String) {c divchannel k : ℕ} {featLow featHigh : Tensor α}
    (hfl : HasShape [n, h * w, c] featLow) (hfh : HasShape [n, k, c] featHigh) :
    Returns (attention E name c divchannel n h w featLow featHigh) (HasShape [n, c, h, w]) := by
  refine (linear_returns E _ hfl).bind fun midLow hml => ?_
  refine (linear_returns E _ hfh).bind fun midHigh hmh => ?_
  refine (Tensor.permute_swap_last hmh).bind fun midHighT ⟨hmht, _⟩ => ?_
  refine (bmm_returns E _ hml hmht).bind fun energy he => ?_
  refine (Tensor.permute_swap_last hfh).bind fun featHighT ⟨hfht, _⟩ => ?_
  refine (Tensor.permute_swap_last (he.pointwise E _)).bind fun attentionT ⟨hat, _⟩ => ?_
  refine (bmm_returns E _ hfht hat).bind fun mid hm => ?_
  have hprod : mid.shape.prod = [n, c, h, w].prod := by
    rw [show mid.shape = _ from hm]
    simp only [List.prod_cons, List.prod_nil]
    ring
  exact ⟨_, Tensor.reshape_eq _ hprod, rfl⟩

/-- The attention has the size of its first feature. -/
theorem msam_returns (name : String) {channelsHigh c divchannel h' w' : ℕ} {low high : Tensor α}
    (hlow : HasShape [n, c, h, w] low) (hhigh : HasShape [n, channelsHigh, h', w'] high)
    (hn : 0 < n) (hc : 0 < c) (hh' : 0 < h') (hw' : 0 < w') :
    Returns (msam E name channelsHigh c divchannel low high) (HasShape [n, c, h, w]) := by
  unfold msam msamMid
  rw [show low.shape = _ from hlow]
  simp only [ne_eq, not_true_eq_false, if_false]
  refine Returns.bind (P := HasShape [n, c, h, w]) ?_ fun mid hm => Returns.ok (hm.pointwise E _)
  refine (view_returns hlow hn hc).bind fun featLow hfl => ?_
  have hconv : Returns (convHigh E name channelsHigh c high) (HasShape [n, c, h', w']) :=
    (Conv2d.returns_same E _ ⟨channelsHigh, c, 1, 1, 0⟩ rfl rfl hhigh hh' hw').bind
      fun y hy => Returns.ok ((hy.pointwise E _).pointwise E _)
  refine hconv.bind fun y hy => ?_
  exact (view_returns hy hn hc).bind fun featHigh hfh => attention_returns E name hfl hfh

theorem lastLevelP6P7_returns (name : String) {cIn cOut : ℕ} (hx : HasShape [n, cIn, h, w] x)
    (hh : 0 < h) (hw : 0 < w) :
    Returns (lastLevelP6P7 E name cIn cOut x) fun p =>
      HasShape [n, cOut, strided 2 h, strided 2 w] p.1 ∧
      HasShape [n, cOut, strided 2 (strided 2 h), strided 2 (strided 2 w)] p.2 := by
  refine (Conv2d.returns E _ ⟨cIn, cOut, 3, 2, 1⟩ rfl hx hh hw).bind fun p6 h6 => ?_
  refine (Conv2d.returns E _ ⟨cOut, cOut, 3, 2, 1⟩ rfl (h6.pointwise E _) (strided_pos _ _)
    (strided_pos _ _)).bind fun p7 h7 => ?_
  exact Returns.ok ⟨h6, h7⟩

/-- The coarser feature is resized, so the sizes agree also when they are odd. -/
theorem topDown_returns (name : String) {cIn cOut h' w' : ℕ} {feature lastInner : Tensor α}
    (hf : HasShape [n, cIn, h, w] feature) (hl : HasShape [n, cOut, h', w'] lastInner)
    (hh : 0 < h) (hw : 0 < w) :
    Returns (topDown E name cIn cOut feature lastInner) fun p =>
      HasShape [n, cOut, h, w] p.1 ∧ HasShape [n, cOut, h, w] p.2 := by
  refine (Conv2d.returns_same E _ ⟨cIn, cOut, 1, 1, 0⟩ rfl rfl hf hh hw).bind
    fun lateral hlat => ?_
  have hsize : lateral.shape.getD 2 0 = h ∧ lateral.shape.getD 3 0 = w := by
    rw [show lateral.shape = _ from hlat]
    exact ⟨rfl, rfl⟩
  rw [hsize.1, hsize.2]
  refine (interpolate_returns E _ hl h w).bind fun down hdown => ?_
  exact (addTo_returns E _ hlat hdown).bind fun sum hsum => Returns.ok ⟨hlat, hsum⟩

/-- The sizes `(hs i, ws i)` of a list of features, from finest to coarsest. -/
def HasShapes (n c : ℕ) (sizes : List (ℕ × ℕ)) (xs : List (Tensor α)) : Prop :=
  List.Forall₂ (fun s x => HasShape [n, c, s.1, s.2] x) sizes xs

/-- The pyramid on features with sizes that are halved from one to the next. -/
theorem fpan_returns (name : String) {chs : ℕ × ℕ × ℕ} {c : ℕ} {c3 c4 c5 : Tensor α}
    (h₃ : HasShape [n, chs.1, (strided 2)^[3] h, (strided 2)^[3] w] c3)
    (h₄ : HasShape [n, chs.2.1, (strided 2)^[4] h, (strided 2)^[4] w] c4)
    (h₅ : HasShape [n, chs.2.2, (strided 2)^[5] h, (strided 2)^[5] w] c5)
    (hn : 0 < n) (hc : 0 < c) :
    Returns (fpan E name chs c c3 c4 c5)
      (HasShapes n c ([3, 4, 5, 6, 7].map fun k => ((strided 2)^[k] h, (strided 2)^[k] w))) := by
  have hpos : ∀ k m, 0 < (strided 2)^[k + 1] m := fun k m => by
    rw [Function.iterate_succ_apply']
    exact strided_pos 2 _
  refine (Conv2d.returns_same E _ ⟨chs.2.2, c, 1, 1, 0⟩ rfl rfl h₅ (hpos 4 h) (hpos 4 w)).bind
    fun inner5 i₅ => ?_
  refine (topDown_returns E _ h₄ i₅ (hpos 3 h) (hpos 3 w)).bind fun p₄ ⟨l₄, i₄⟩ => ?_
  refine (topDown_returns E _ h₃ i₄ (hpos 2 h) (hpos 2 w)).bind fun p₃ ⟨l₃, i₃⟩ => ?_
  refine (lastLevelP6P7_returns E _ h₅ (hpos 4 h) (hpos 4 w)).bind fun p ⟨h₆, h₇⟩ => ?_
  simp only [← Function.iterate_succ_apply' (strided 2)] at h₆ h₇
  -- The attention of a level has the size of the level, whatever the next one has.
  refine (msam_returns E _ i₅ h₆ hn hc (hpos 5 h) (hpos 5 w)).bind fun att5 a₅ => ?_
  refine (msam_returns E _ l₄ h₅ hn hc (hpos 4 h) (hpos 4 w)).bind fun att4 a₄ => ?_
  refine (msam_returns E _ l₃ h₄ hn hc (hpos 3 h) (hpos 3 w)).bind fun att3 a₃ => ?_
  refine (addTo_returns E _ i₅ a₅).bind fun middle5 m₅ => ?_
  refine (addTo_returns E _ i₄ a₄).bind fun middle4 m₄ => ?_
  refine (addTo_returns E _ i₃ a₃).bind fun middle3 m₃ => ?_
  refine (Conv2d.returns_same E _ ⟨c, c, 3, 1, 1⟩ rfl rfl m₃ (hpos 2 h) (hpos 2 w)).bind
    fun q₃ r₃ => ?_
  refine (Conv2d.returns_same E _ ⟨c, c, 3, 1, 1⟩ rfl rfl m₄ (hpos 3 h) (hpos 3 w)).bind
    fun q₄ r₄ => ?_
  refine (Conv2d.returns_same E _ ⟨c, c, 3, 1, 1⟩ rfl rfl m₅ (hpos 4 h) (hpos 4 w)).bind
    fun q₅ r₅ => ?_
  exact Returns.ok (.cons r₃ (.cons r₄ (.cons r₅ (.cons h₆ (.cons h₇ .nil)))))

end

end W2Net.Proofs.FeatureSizes
