import W2Net.Models.SegBranch
import W2Net.Proofs.Models.RetinaNet

/-!
# `W2Net.Proofs.Models.SegBranch`: the segmentation fits the detector

The segmentation of `RetinaNet.forward` on any image, in evaluation mode. The lemmas follow the modules of the
decoder, as those of `W2Net.Proofs.Models.FeatureSizes` follow the pyramid: a layer, `CBAM`, the
stripes, a block, the head. Each says that the module returns, and with which shape.

* `segLogits_returns`: the logits have one channel and the size of the image.
* `segGate_returns`: a gated feature has the shape of the feature.
* `segForward_refines`: the forward pass is the one that has the segmentation as its gate. With
  the basic blocks of `fca34` it raises: `p2_reduce` wants 256 channels of `c2`, which has 64.
-/

set_option autoImplicit false

namespace W2Net.Proofs.SegBranch

open W2Net.Layers W2Net.FcaNet W2Net.Fpan W2Net.Heads W2Net.Unetdecoder
open W2Net.Proofs.FeatureSizes W2Net.Proofs.HeadRows W2Net.Proofs.RetinaNet

variable {α : Type} (E : Entries α) (name : String) {x y : Tensor α} {n c h w : ℕ}

/-! ### Layers -/

/-- A factor of broadcast dimensions keeps the shape. -/
theorem mulTo_returns {dx dy : List ℕ} (hx : HasShape dx x) (hy : HasShape dy y)
    (hfit : List.Forall₂ (fun a b => a = b ∨ a = 1) dy dx) :
    Returns (mulTo E name x y) (HasShape dx) := by
  have hall : x.shape.length = y.shape.length ∧
      (y.shape.zip x.shape).all fun p => p.1 = p.2 ∨ p.1 = 1 := by
    rw [show x.shape = _ from hx, show y.shape = _ from hy]
    refine ⟨hfit.length_eq.symm, List.all_eq_true.mpr fun p hp => ?_⟩
    exact decide_eq_true (List.forall₂_zip hfit hp)
  exact ⟨_, if_pos hall, hx⟩

theorem convBnRelu_returns (i : ℕ) (conv : Conv2d) (hk : conv.kernelSize = 2 * conv.padding + 1)
    (hs : conv.stride = 1) (hx : HasShape [n, conv.inChannels, h, w] x) (hh : 0 < h) (hw : 0 < w) :
    Returns (convBnRelu E name i conv x) (HasShape [n, conv.outChannels, h, w]) :=
  (conv.returns_same E _ hk hs hx hh hw).bind fun _ hy =>
    Returns.ok ((hy.pointwise E _).pointwise E _)

/-- A stripe with odd sides, padded by half of them. -/
theorem stripeBnRelu_returns (conv : StripeConv2d)
    (hk₁ : conv.kernelSize.1 = 2 * conv.padding.1 + 1)
    (hk₂ : conv.kernelSize.2 = 2 * conv.padding.2 + 1)
    (hx : HasShape [n, conv.inChannels, h, w] x) (hh : 0 < h) (hw : 0 < w) :
    Returns (stripeBnRelu E name conv x) (HasShape [n, conv.outChannels, h, w]) := by
  have hfit : conv.inChannels = conv.inChannels ∧ conv.kernelSize.1 ≤ h + 2 * conv.padding.1 ∧
      conv.kernelSize.2 ≤ w + 2 * conv.padding.2 := by omega
  have hconv : Returns (conv.forward E (name ++ ".0") x) (HasShape [n, conv.outChannels, h, w]) := by
    unfold StripeConv2d.forward
    rw [show x.shape = _ from hx]
    refine ⟨_, if_pos hfit, ?_⟩
    rw [hk₁, hk₂, convOut_odd, convOut_odd, strided_one hh, strided_one hw]
    rfl
  exact hconv.bind fun _ hy => Returns.ok ((hy.pointwise E _).pointwise E _)

/-- A comprehension all of whose entries have one shape. -/
theorem mapM_hasShape {β : Type} {f : β → PyM (Tensor α)} {shape : List ℕ} {l : List β}
    (hf : ∀ b ∈ l, Returns (f b) (HasShape shape)) :
    Returns (l.mapM f) fun ys => ys.length = l.length ∧ ∀ y ∈ ys, y.shape = shape := by
  induction l with
  | nil => exact Returns.ok ⟨rfl, nofun⟩
  | cons b l ih =>
      rw [List.mapM_cons]
      refine (hf b List.mem_cons_self).bind fun y hy => ?_
      refine (ih fun b' hb' => hf b' (List.mem_cons_of_mem b hb')).bind fun ys hys => ?_
      refine Returns.ok ⟨congrArg (· + 1) hys.1, fun y' hy' => ?_⟩
      cases List.mem_cons.mp hy' with
      | inl heq => exact heq ▸ hy
      | inr hmem => exact hys.2 y' hmem

/-! ### `CBAM` -/

theorem sharedMlp_returns (channels reduction : ℕ) (hx : HasShape [n, channels, 1, 1] x) :
    Returns (sharedMlp E name channels reduction x) (HasShape [n, channels, 1, 1]) :=
  (Conv2d.returns_same E _ ⟨channels, channels / reduction, 1, 1, 0⟩ rfl rfl hx one_pos
    one_pos).bind fun _ hy =>
      Conv2d.returns_same E _ ⟨channels / reduction, channels, 1, 1, 0⟩ rfl rfl
        (hy.pointwise E _) one_pos one_pos

theorem channelAttention_returns (channels reduction : ℕ) (hc : 0 < channels)
    (hx : HasShape [n, channels, h, w] x) (hh : 0 < h) (hw : 0 < w) :
    Returns (channelAttention E name channels reduction x) (HasShape [n, channels, h, w]) := by
  have havg : Returns (Layers.adaptiveAvgPool2d E (name ++ ".avg_pool") 1 x)
      (HasShape [n, channels, 1, 1]) := by
    unfold Layers.adaptiveAvgPool2d
    rw [show x.shape = _ from hx]
    exact Returns.ok rfl
  have hmax : Returns (adaptiveMaxPool2d E (name ++ ".max_pool") 1 x)
      (HasShape [n, channels, 1, 1]) := by
    unfold adaptiveMaxPool2d
    rw [show x.shape = _ from hx]
    exact ⟨_, if_pos ⟨hc, hh, hw⟩, rfl⟩
  refine havg.bind fun avg ha => ?_
  refine (sharedMlp_returns E _ channels reduction ha).bind fun avgOut hao => ?_
  refine hmax.bind fun mx hm => ?_
  refine (sharedMlp_returns E _ channels reduction hm).bind fun maxOut hmo => ?_
  refine (addTo_returns E _ hao hmo).bind fun ca hca => ?_
  -- One factor for each channel.
  exact mulTo_returns E _ hx (hca.pointwise E _)
    (.cons (.inl rfl) (.cons (.inl rfl) (.cons (.inr rfl) (.cons (.inr rfl) .nil))))

theorem spatialAttention_returns (hc : 0 < c) (hx : HasShape [n, c, h, w] x) (hh : 0 < h)
    (hw : 0 < w) : Returns (spatialAttention E name x) (HasShape [n, c, h, w]) := by
  have hmean : Returns (meanChannels E (name ++ ".mean") x) (HasShape [n, 1, h, w]) := by
    unfold meanChannels
    rw [show x.shape = _ from hx]
    exact Returns.ok rfl
  have hmax : Returns (maxChannels E (name ++ ".max") x) (HasShape [n, 1, h, w]) := by
    unfold maxChannels
    rw [show x.shape = _ from hx]
    exact ⟨_, if_pos hc, rfl⟩
  refine hmean.bind fun avgOut ha => hmax.bind fun maxOut hm => ?_
  have hshapes : [avgOut, maxOut].map Tensor.shape = [1, 1].map fun c => [n, c, h, w] := by
    rw [List.map_cons, List.map_cons, show avgOut.shape = _ from ha, show maxOut.shape = _ from hm]
    rfl
  refine (Tensor.cat_features (List.cons_ne_nil _ _) hshapes).bind fun saInput hsa => ?_
  refine (Conv2d.returns_same E _ ⟨2, 1, 7, 1, 3⟩ rfl rfl hsa hh hw).bind fun sa hs => ?_
  -- One factor for each pixel.
  exact mulTo_returns E _ hx (hs.pointwise E _)
    (.cons (.inl rfl) (.cons (.inr rfl) (.cons (.inl rfl) (.cons (.inl rfl) .nil))))

theorem cbam_returns (channels : ℕ) (hc : 0 < channels) (hx : HasShape [n, channels, h, w] x)
    (hh : 0 < h) (hw : 0 < w) : Returns (cbam E name channels x) (HasShape [n, channels, h, w]) :=
  (channelAttention_returns E name channels 16 hc hx hh hw).bind fun _ hy =>
    spatialAttention_returns E name hc hy hh hw

/-! ### Stripes -/

/-- Half of an odd size on both sides. -/
theorem half_padding {k : ℕ} (hk : k % 2 = 1) : k = 2 * (k / 2) + 1 := by
  omega

section
variable (inCh cEach : ℕ) {ks : List ℕ} (hks : ∀ k ∈ ks, k % 2 = 1)
include hks

/-- A branch for each kernel size, which all keep the size of the feature. -/
theorem stripes_returns (names : ℕ × ℕ → String) (conv : ℕ → StripeConv2d)
    (hconv : ∀ k, k % 2 = 1 → ∀ name, Returns (stripeBnRelu E name (conv k) x)
      (HasShape [n, cEach, h, w])) :
    Returns (ks.zipIdx.mapM fun k => stripeBnRelu E (names k) (conv k.1) x) fun ys =>
      ys.length = ks.length ∧ ∀ y ∈ ys, y.shape = [n, cEach, h, w] := by
  have hmap : Returns (ks.zipIdx.mapM fun k => stripeBnRelu E (names k) (conv k.1) x) fun ys =>
      ys.length = ks.zipIdx.length ∧ ∀ y ∈ ys, y.shape = [n, cEach, h, w] :=
    mapM_hasShape fun k hk => hconv k.1 (hks k.1 (List.fst_mem_of_mem_zipIdx hk)) (names k)
  rwa [List.length_zipIdx] at hmap

theorem hConvs_returns (hx : HasShape [n, inCh, h, w] x) (hh : 0 < h) (hw : 0 < w) :
    Returns (hConvs E name inCh cEach ks x) fun ys =>
      ys.length = ks.length ∧ ∀ y ∈ ys, y.shape = [n, cEach, h, w] :=
  stripes_returns E cEach hks _ (fun k => ⟨inCh, cEach, (1, k), (0, k / 2)⟩) fun _ hodd name =>
    stripeBnRelu_returns E name _ rfl (half_padding hodd) hx hh hw

theorem vConvs_returns (hx : HasShape [n, inCh, h, w] x) (hh : 0 < h) (hw : 0 < w) :
    Returns (vConvs E name inCh cEach ks x) fun ys =>
      ys.length = ks.length ∧ ∀ y ∈ ys, y.shape = [n, cEach, h, w] :=
  stripes_returns E cEach hks _ (fun k => ⟨inCh, cEach, (k, 1), (k / 2, 0)⟩) fun _ hodd name =>
    stripeBnRelu_returns E name _ (half_padding hodd) rfl hx hh hw

end

theorem stripeLargeHybrid_returns (inCh outCh : ℕ) {ksStripe : List ℕ} {kLarge : ℕ}
    (hks : ∀ k ∈ ksStripe, k % 2 = 1) (hlarge : kLarge % 2 = 1) (hout : 0 < outCh)
    (hx : HasShape [n, inCh, h, w] x) (hh : 0 < h) (hw : 0 < w) :
    Returns (stripeLargeHybrid E name inCh outCh ksStripe kLarge x)
      (HasShape [n, outCh, h, w]) := by
  refine (hConvs_returns E name inCh _ hks hx hh hw).bind fun hs ⟨hlen, hshape⟩ => ?_
  refine (vConvs_returns E name inCh _ hks hx hh hw).bind fun vs ⟨vlen, vshape⟩ => ?_
  refine (convBnRelu_returns E _ 0 ⟨inCh, inCh, kLarge, 1, kLarge / 2⟩ (half_padding hlarge) rfl hx
    hh hw).bind fun dw hdw => ?_
  refine (convBnRelu_returns E _ 3 ⟨inCh, _, 1, 1, 0⟩ rfl rfl hdw hh hw).bind fun large hl => ?_
  -- All branches have the same number of channels.
  have hcat : ∀ t ∈ hs ++ vs ++ [large],
      t.shape = [n, outCh / (ksStripe.length * 2 + 1), h, w] := by
    intro t ht
    rw [List.mem_append, List.mem_append, List.mem_singleton] at ht
    obtain (hmem | hmem) | rfl := ht
    · exact hshape t hmem
    · exact vshape t hmem
    · exact hl
  have hcount : (hs ++ vs ++ [large]).length = ksStripe.length * 2 + 1 := by
    rw [List.length_append, List.length_append, hlen, vlen, List.length_singleton]
    omega
  refine (Tensor.cat_channels _ (by simp) hcat).bind fun y hy => ?_
  rw [hcount] at hy
  refine (convBnRelu_returns E _ 0 ⟨_, outCh, 1, 1, 0⟩ rfl rfl
    ((HasShape.pointwise E _ hy).pointwise E _) hh hw).bind fun z hz => ?_
  exact cbam_returns E _ outCh hout hz hh hw

theorem multiScaleStripeConv_returns (inCh outCh : ℕ) {ksList : List ℕ}
    (hks : ∀ k ∈ ksList, k % 2 = 1) (hne : ksList ≠ []) (hout : 0 < outCh)
    (hx : HasShape [n, inCh, h, w] x) (hh : 0 < h) (hw : 0 < w) :
    Returns (multiScaleStripeConv E name inCh outCh ksList x) (HasShape [n, outCh, h, w]) := by
  refine (hConvs_returns E name inCh _ hks hx hh hw).bind fun hs ⟨hlen, hshape⟩ => ?_
  refine (vConvs_returns E name inCh _ hks hx hh hw).bind fun vs ⟨vlen, vshape⟩ => ?_
  have hcat : ∀ t ∈ hs ++ vs, t.shape = [n, outCh / (ksList.length * 2), h, w] := by
    intro t ht
    cases List.mem_append.mp ht with
    | inl hmem => exact hshape t hmem
    | inr hmem => exact vshape t hmem
  have hcount : (hs ++ vs).length = ksList.length + ksList.length := by
    rw [List.length_append, hlen, vlen]
  have hsome : hs ++ vs ≠ [] := by
    intro hnil
    have hpos := List.length_pos_iff.mpr hne
    rw [hnil, List.length_nil] at hcount
    omega
  refine (Tensor.cat_channels _ hsome hcat).bind fun y hy => ?_
  rw [hcount] at hy
  refine (convBnRelu_returns E _ 0 ⟨_, outCh, 1, 1, 0⟩ rfl rfl hy hh hw).bind fun z hz => ?_
  exact cbam_returns E _ outCh hout hz hh hw

/-! ### Double convolutions -/

/-- Two features side by side. -/
theorem cat_two_returns {c₁ c₂ : ℕ} (hx : HasShape [n, c₁, h, w] x)
    (hy : HasShape [n, c₂, h, w] y) :
    Returns (Tensor.cat 1 [x, y]) (HasShape [n, c₁ + c₂, h, w]) := by
  have hshapes : [x, y].map Tensor.shape = [c₁, c₂].map fun c => [n, c, h, w] := by
    rw [List.map_cons, List.map_cons, show x.shape = _ from hx, show y.shape = _ from hy]
    rfl
  refine (Tensor.cat_features (List.cons_ne_nil _ _) hshapes).imp fun out hout => ?_
  rwa [List.sum_cons, List.sum_singleton] at hout

/-- Both halves together have the channels of the block when their number is even. -/
theorem stripeEnhancedDoubleConv_returns (inChannels : ℕ) {half : ℕ} (midChannels : Option ℕ)
    (useLarge : Bool) (hhalf : 0 < half) (hx : HasShape [n, inChannels, h, w] x) (hh : 0 < h)
    (hw : 0 < w) :
    Returns (stripeEnhancedDoubleConv E name inChannels (2 * half) midChannels useLarge x)
      (HasShape [n, 2 * half, h, w]) := by
  unfold stripeEnhancedDoubleConv
  rw [Nat.mul_div_cancel_left half two_pos]
  refine (convBnRelu_returns E _ 0 ⟨inChannels, _, 3, 1, 1⟩ rfl rfl hx hh hw).bind fun y hy => ?_
  refine (convBnRelu_returns E _ 3 ⟨_, half, 3, 1, 1⟩ rfl rfl hy hh hw).bind
    fun standardOut hs => ?_
  have hstripe : Returns (stripeConv E (name ++ ".stripe_conv") inChannels half useLarge x)
      (HasShape [n, half, h, w]) := by
    cases useLarge with
    | true => exact stripeLargeHybrid_returns E _ inChannels half (by decide) rfl hhalf hx hh hw
    | false =>
        exact multiScaleStripeConv_returns E _ inChannels half (by decide) (by decide) hhalf hx hh
          hw
  refine hstripe.bind fun stripeOut ht => ?_
  refine (cat_two_returns hs ht).bind fun fused hf => ?_
  rw [← two_mul] at hf
  refine (convBnRelu_returns E _ 0 ⟨2 * half, 2 * half, 1, 1, 0⟩ rfl rfl hf hh hw).bind
    fun out ho => ?_
  exact cbam_returns E _ (2 * half) (Nat.mul_pos two_pos hhalf) ho hh hw

theorem secondStage_returns (midCh outCh : ℕ) (useStripe : Bool) (hout : 0 < outCh)
    (hy : HasShape [n, midCh, h, w] y) (hh : 0 < h) (hw : 0 < w) :
    Returns (secondStage E name midCh outCh useStripe y) (HasShape [n, outCh, h, w]) := by
  cases useStripe with
  | true =>
      have hodd : 0 < outCh - outCh / 2 := by omega
      refine (convBnRelu_returns E _ 0 ⟨midCh, outCh / 2, 3, 1, 1⟩ rfl rfl hy hh hw).bind
        fun std hstd => ?_
      refine (multiScaleStripeConv_returns E _ midCh (outCh - outCh / 2) (by decide) (by decide)
        hodd hy hh hw).bind fun stripe hstripe => ?_
      refine (cat_two_returns hstd hstripe).bind fun z hz => ?_
      -- The two parts have all the channels, also when their number is odd.
      rw [Nat.add_sub_cancel' (Nat.div_le_self outCh 2)] at hz
      exact convBnRelu_returns E _ 0 ⟨outCh, outCh, 1, 1, 0⟩ rfl rfl hz hh hw
  | false => exact convBnRelu_returns E _ 0 ⟨midCh, outCh, 3, 1, 1⟩ rfl rfl hy hh hw

theorem enhancedDoubleConv_returns (inCh outCh : ℕ) (midCh : Option ℕ) (useStripe residual : Bool)
    (hout : 0 < outCh) (hx : HasShape [n, inCh, h, w] x) (hh : 0 < h) (hw : 0 < w) :
    Returns (enhancedDoubleConv E name inCh outCh midCh useStripe residual x)
      (HasShape [n, outCh, h, w]) := by
  refine (convBnRelu_returns E _ 0 ⟨inCh, _, 3, 1, 1⟩ rfl rfl hx hh hw).bind fun y hy => ?_
  refine (secondStage_returns E name _ outCh useStripe hout hy hh hw).bind fun z hz => ?_
  by_cases hres : (residual && decide (inCh = outCh)) = true
  · rw [if_pos hres]
    rw [Bool.and_eq_true, decide_eq_true_eq] at hres
    exact addTo_returns E _ hz (hres.2 ▸ hx)
  · rw [if_neg hres]
    exact Returns.ok hz

/-! ### The decoder -/

theorem upsample_returns (bilinear : Bool) (inChannels : ℕ) (hx : HasShape [n, inChannels, h, w] x) :
    Returns (upsample E name bilinear inChannels x) (HasShape [n, inChannels, 2 * h, 2 * w]) := by
  unfold upsample
  rw [show x.shape = _ from hx]
  exact ⟨_, if_pos (.inr rfl), rfl⟩

theorem interpolateLike_returns {d h' w' : ℕ} (hy : HasShape [n, d, h, w] y)
    (hx : HasShape [n, c, h', w'] x) :
    Returns (interpolateLike E name y x) (HasShape [n, c, h, w]) := by
  unfold interpolateLike
  rw [show y.shape = _ from hy]
  exact interpolate_returns E name hx h w

/-- Resized or not, the feature has the size of `skip` in the end. -/
theorem fitTo_returns {d h' w' : ℕ} (hy : HasShape [n, d, h, w] y)
    (hx : HasShape [n, c, h', w'] x) : Returns (fitTo E name y x) (HasShape [n, c, h, w]) := by
  unfold fitTo
  by_cases hsize : x.shape.drop (x.shape.length - 2) ≠ y.shape.drop (y.shape.length - 2)
  · rw [if_pos hsize]
    exact interpolateLike_returns E name hy hx
  · rw [if_neg hsize]
    rw [show x.shape = _ from hx, show y.shape = _ from hy] at hsize
    have heq : [h', w'] = [h, w] := not_not.mp hsize
    refine Returns.ok ?_
    show x.shape = [n, c] ++ [h, w]
    rw [← heq]
    exact hx

theorem upBlock_returns (block : UpBlock) {half h' w' : ℕ} (hhalf : 0 < half)
    (hout : block.outCh = 2 * half) (hx : HasShape [n, block.inCh, h', w'] x)
    (hy : HasShape [n, block.skipCh, h, w] y) (hh : 0 < h) (hw : 0 < w) :
    Returns (block.forward E name x y) (HasShape [n, block.outCh, h, w]) := by
  unfold UpBlock.forward
  rw [hout]
  refine (upsample_returns E _ block.bilinear block.inCh hx).bind fun up hu => ?_
  refine (fitTo_returns E _ hy hu).bind fun fit hf => ?_
  refine (cat_two_returns hy hf).bind fun joined hj => ?_
  rw [Nat.add_comm] at hj
  exact stripeEnhancedDoubleConv_returns E _ _ _ block.useLarge hhalf hj hh hw

/-- The head on features of any sizes: each block takes the size of its `skip`, and the logits
that of the image. -/
theorem segHead_returns (head : FPNUNet5SegHead) (half : ℕ) (hhalf : 0 < half)
    (hC : head.fpnChannels = 2 * half) {p1 p2 p3 p4 p5 : Tensor α}
    {h₁ w₁ h₂ w₂ h₃ w₃ h₄ w₄ h₅ w₅ : ℕ}
    (hp1 : HasShape [n, head.fpnChannels, h₁, w₁] p1) (hs₁ : 0 < h₁ ∧ 0 < w₁)
    (hp2 : HasShape [n, head.fpnChannels, h₂, w₂] p2) (hs₂ : 0 < h₂ ∧ 0 < w₂)
    (hp3 : HasShape [n, head.fpnChannels, h₃, w₃] p3) (hs₃ : 0 < h₃ ∧ 0 < w₃)
    (hp4 : HasShape [n, head.fpnChannels, h₄, w₄] p4) (hs₄ : 0 < h₄ ∧ 0 < w₄)
    (hp5 : HasShape [n, head.fpnChannels, h₅, w₅] p5) (outH outW : ℕ) :
    Returns (head.forward E name p1 p2 p3 p4 p5 outH outW)
      (HasShape [n, head.outChannels, outH, outW]) := by
  have hpos : 0 < head.fpnChannels := hC ▸ Nat.mul_pos two_pos hhalf
  refine (upBlock_returns E _ (head.upBlock false) hhalf hC hp5 hp4 hs₄.1 hs₄.2).bind fun x₄ hx₄ => ?_
  refine (upBlock_returns E _ (head.upBlock true) hhalf hC hx₄ hp3 hs₃.1 hs₃.2).bind fun x₃ hx₃ => ?_
  refine (upBlock_returns E _ (head.upBlock true) hhalf hC hx₃ hp2 hs₂.1 hs₂.2).bind fun x₂ hx₂ => ?_
  refine (upBlock_returns E _ (head.upBlock true) hhalf hC hx₂ hp1 hs₁.1 hs₁.2).bind fun x₁ hx₁ => ?_
  refine (enhancedDoubleConv_returns E _ head.fpnChannels head.fpnChannels none false false hpos
    hx₁ hs₁.1 hs₁.2).bind fun y hy => ?_
  refine (Conv2d.returns_same E _ ⟨head.fpnChannels, head.outChannels, 1, 1, 0⟩ rfl rfl hy hs₁.1
    hs₁.2).bind fun z hz => ?_
  exact interpolate_returns E _ hz outH outW

/-! ### The finer features -/

/-- What a computation returns meets its postcondition. -/
theorem holds_of_returns {β : Type} {z : PyM β} {P : β → Prop} {b : β} (h : Returns z P)
    (hb : z = .ok b) : P b := by
  obtain ⟨b', hb', hP⟩ := h
  rw [hb'] at hb
  exact Except.ok.inj hb ▸ hP

/-- `c1` is halved once and `c2` twice. -/
theorem finer_features {backbone : Backbone} {f : Tensor α × Tensor α × Tensor α × Tensor α × Tensor α}
    (hf : features E backbone x = .ok f) (hx : HasShape [n, 3, h, w] x) (hh : 0 < h) (hw : 0 < w) :
    HasShape [n, 64, strided 2 h, strided 2 w] f.1 ∧
      HasShape [n, 64 * backbone.block.expansion, strided 2 (strided 2 h),
        strided 2 (strided 2 w)] f.2.1 := by
  have hpos : ∀ m, 0 < strided 2 m := strided_pos 2
  obtain ⟨c1, hc1, hf⟩ := bind_eq_ok hf
  obtain ⟨p, hp, hf⟩ := bind_eq_ok hf
  obtain ⟨c2, hc2, hf⟩ := bind_eq_ok hf
  obtain ⟨c3, -, hf⟩ := bind_eq_ok hf
  obtain ⟨c4, -, hf⟩ := bind_eq_ok hf
  obtain ⟨c5, -, hf⟩ := bind_eq_ok hf
  have hstem : Returns (stem E x) (HasShape [n, 64, strided 2 h, strided 2 w]) :=
    (Conv2d.returns E _ ⟨3, 64, 7, 2, 3⟩ rfl hx hh hw).bind fun y hy =>
      Returns.ok ((hy.pointwise E _).pointwise E _)
  have h₁ := holds_of_returns hstem hc1
  have hpool := holds_of_returns (maxPool2d_returns E _ (k := 3) (p := 1) rfl h₁ (hpos h) (hpos w))
    hp
  have h₂ := holds_of_returns (makeLayer_returns E backbone.block _ 64 64 _ 1 hpool (hpos _)
    (hpos _)) hc2
  -- The first layer has stride 1.
  rw [strided_one (hpos _), strided_one (hpos _)] at h₂
  rw [← Except.ok.inj hf]
  exact ⟨h₁, h₂⟩

/-! ### The logits -/

/-- `P2` and `P1` have the size of the finer feature. -/
theorem segFuse_returns (p : String) {inChannels h' w' : ℕ} (hx : HasShape [n, inChannels, h, w] x)
    (hy : HasShape [n, 256, h', w'] y) (hh : 0 < h) (hw : 0 < w) :
    Returns (segFuse E p inChannels x y) (HasShape [n, 256, h, w]) := by
  refine (Conv2d.returns_same E _ ⟨inChannels, 256, 1, 1, 0⟩ rfl rfl hx hh hw).bind fun reduced hr => ?_
  refine (interpolateLike_returns E _ hx hy).bind fun up hu => ?_
  refine (addTo_returns E _ (hr.pointwise E _) (hu.pointwise E _)).bind fun sum hs => ?_
  exact convBnRelu_returns E _ 0 ⟨256, 256, 3, 1, 1⟩ rfl rfl hs hh hw

/-- `reduce` wants the channels that its convolution was built for. -/
theorem segFuse_error (p : String) {inChannels d : ℕ} (hx : HasShape [n, inChannels, h, w] x)
    (hd : d ≠ inChannels) : segFuse E p d x y = .error .runtimeError := by
  have hconv : (⟨d, 256, 1, 1, 0⟩ : Conv2d).forward E (p ++ "_reduce") x = .error .runtimeError := by
    unfold Conv2d.forward
    rw [show x.shape = _ from hx]
    exact if_neg fun hfit => hd hfit.1.symm
  unfold segFuse
  rw [hconv]
  rfl

/-- The logits have the size of the image, whatever the sizes of the features. -/
theorem segLogits_returns (cpam : Cpam α) {c1 c2 p3 p4 p5 p6 p7 : Tensor α}
    {h₁ w₁ h₂ w₂ h₃ w₃ h₄ w₄ h₅ w₅ : ℕ}
    (hc1 : HasShape [n, 64, h₁, w₁] c1) (hs₁ : 0 < h₁ ∧ 0 < w₁)
    (hc2 : HasShape [n, 256, h₂, w₂] c2) (hs₂ : 0 < h₂ ∧ 0 < w₂)
    (hp3 : HasShape [n, 256, h₃, w₃] p3) (hs₃ : 0 < h₃ ∧ 0 < w₃)
    (hp4 : HasShape [n, 256, h₄, w₄] p4) (hs₄ : 0 < h₄ ∧ 0 < w₄)
    (hp5 : HasShape [n, 256, h₅, w₅] p5) (hs₅ : 0 < h₅ ∧ 0 < w₅) :
    Returns (segLogits E cpam c1 c2 [p3, p4, p5, p6, p7] h w) (HasShape [n, 1, h, w]) := by
  refine (segFuse_returns E "p2" hc2 hp3 hs₂.1 hs₂.2).bind fun p2 hp2 => ?_
  refine (segFuse_returns E "p1" hc1 hp2 hs₁.1 hs₁.2).bind fun p1 hp1 => ?_
  refine (cpam.adapter_returns 0 p1 hp1 hs₁.1 hs₁.2).bind fun a1 ha1 => ?_
  refine (cpam.adapter_returns 1 p2 hp2 hs₂.1 hs₂.2).bind fun a2 ha2 => ?_
  refine (cpam.adapter_returns 2 p3 hp3 hs₃.1 hs₃.2).bind fun a3 ha3 => ?_
  refine (cpam.adapter_returns 3 p4 hp4 hs₄.1 hs₄.2).bind fun a4 ha4 => ?_
  refine (cpam.adapter_returns 4 p5 hp5 hs₅.1 hs₅.2).bind fun a5 ha5 => ?_
  exact segHead_returns E "seg_head" ⟨256, 1, true⟩ 128 (by decide) rfl ha1 hs₁ ha2 hs₂
    ha3 hs₃ ha4 hs₄ ha5 h w

/-! ### The gate -/

/-- A feature that the segmentation gates keeps its shape. -/
theorem segGate_returns (cpam : Cpam α) (i : ℕ) {aFull p : Tensor α} {h' w' : ℕ}
    (ha : HasShape [n, 1, h', w'] aFull) (hp : HasShape [n, 256, h, w] p) (hh : 0 < h)
    (hw : 0 < w) : Returns (segGate E cpam aFull i p) (HasShape [n, 256, h, w]) := by
  refine (interpolateLike_returns E _ hp ha).bind fun ai hai => ?_
  refine (mulTo_returns E _ hp (hai.pointwise E _)
    (.cons (.inl rfl) (.cons (.inr rfl) (.cons (.inl rfl) (.cons (.inl rfl) .nil))))).bind
      fun pg hpg => ?_
  have hatt : Returns (segAttConv E cpam i pg) (HasShape [n, 256, h, w]) := by
    unfold segAttConv
    by_cases hi : i < 2
    · rw [if_pos hi]
      exact cpam.convLocal_returns i pg hpg hh hw
    · rw [if_neg hi]
      exact convBnRelu_returns E _ 0 ⟨256, 256, 3, 1, 1⟩ rfl rfl hpg hh hw
  exact hatt.bind fun att hatt => addTo_returns E _ hp (hatt.pointwise E _)

/-- So the gate is the loop body. -/
theorem segGate_eq_gate (cpam : Cpam α) (i : ℕ) {logits p : Tensor α} {h' w' : ℕ}
    (hl : HasShape [n, 1, h', w'] logits) (hp : HasShape [n, 256, h, w] p) (hh : 0 < h)
    (hw : 0 < w) :
    segGate E cpam (pointwise E "A_full.sigmoid" logits) i p
      = .ok ((cpam.gate E logits).apply i p) := by
  obtain ⟨p', hp', hshape⟩ := segGate_returns E cpam i (hl.pointwise E "A_full.sigmoid") hp hh hw
  have hsame : p'.shape = p.shape := hshape.trans hp.symm
  have happly : (cpam.gate E logits).apply i p = ⟨p.shape, p'.data⟩ := by
    simp only [Cpam.gate, hp']
  rw [hp', happly, ← hsame]

/-- The whole loop over `p_feats`. -/
theorem gateLoop_eq (cpam : Cpam α) {logits : Tensor α} {h' w' : ℕ} {sizes : List (ℕ × ℕ)}
    {pFeats : List (Tensor α)} (hl : HasShape [n, 1, h', w'] logits)
    (hp : HasShapes n 256 sizes pFeats) (hsizes : ∀ s ∈ sizes, 0 < s.1 ∧ 0 < s.2) :
    (pFeats.zipIdx.mapM fun p => segGate E cpam (pointwise E "A_full.sigmoid" logits) p.2 p.1)
      = .ok (pFeats.mapIdx (cpam.gate E logits).apply) := by
  rw [List.mapIdx_eq_zipIdx_map]
  refine mapM_eq_ok fun p hmem => ?_
  have hmem := List.fst_mem_of_mem_zipIdx hmem
  obtain ⟨i, hi⟩ := List.mem_iff_getElem?.mp hmem
  obtain ⟨s, hs, hshape⟩ := forall₂_getElem? hp.flip hi
  have hpos := hsizes s (List.mem_of_getElem? hs)
  exact segGate_eq_gate E cpam p.2 hl hshape hpos.1 hpos.2

/-! ### The whole forward pass -/

section
variable {K : Type} [Field K]

omit [Field K] in
/-- The features of the backbone and of the pyramid, for every backbone. -/
theorem backbone_returns (net : RetinaNet α K) {ims : Tensor α} (hims : HasShape [n, 3, h, w] ims)
    (hn : 0 < n) (hh : 0 < h) (hw : 0 < w) :
    ∃ f c5 p3 p4 p5 p6 p7, features net.entries net.backbone ims = .ok f ∧
      sppf net.entries "sppf" net.backbone.fpnInChannels.2.2 net.backbone.fpnInChannels.2.2 5
        f.2.2.2.2 = .ok c5 ∧
      fpan net.entries "fpan" net.backbone.fpnInChannels 256 f.2.2.1 f.2.2.2.1 c5
        = .ok [p3, p4, p5, p6, p7] ∧
      HasShapes n 256 (pyramidSizes h w) [p3, p4, p5, p6, p7] := by
  obtain ⟨f, hf, h₃, h₄, h₅⟩ := features_returns net.entries net.backbone hims hh hw
  have hpos : ∀ m, 0 < (strided 2)^[5] m := fun m => by
    rw [Function.iterate_succ_apply']
    exact strided_pos 2 _
  obtain ⟨c5, hc5, h₅'⟩ := sppf_returns net.entries "sppf" _ net.backbone.fpnInChannels.2.2 h₅
    (hpos h) (hpos w)
  obtain ⟨p, hp, hshapes⟩ := fpan_returns net.entries "fpan" (c := 256) h₃ h₄ h₅' hn (by decide)
  change HasShapes n 256 (levels.map _) p at hshapes
  rw [iterate_sizes hh hw] at hshapes
  have hlen : p.length = 5 := hshapes.length_eq.symm
  match p, hlen with
  | [p3, p4, p5, p6, p7], _ => exact ⟨f, c5, p3, p4, p5, p6, p7, hf, hc5, hp, hshapes⟩

omit [Field K] in
/-- The heads on features of 256 channels. -/
theorem heads_return (net : RetinaNet α K) {sizes : List (ℕ × ℕ)} {feats : List (Tensor α)}
    (hfeats : HasShapes n 256 sizes feats) (hne : sizes ≠ [])
    (hsizes : ∀ s ∈ sizes, 0 < s.1 ∧ 0 < s.2) (hn : 0 < n) :
    ∃ cls reg,
      feats.mapM (net.clsHead.forward net.entries "cls_head") >>= Tensor.cat 1 = .ok cls ∧
      feats.mapM (net.regHead.forward net.entries "reg_head") >>= Tensor.cat 1 = .ok reg := by
  obtain ⟨cls, hcls, -⟩ := concat_returns hne hsizes hfeats fun s x hs hx =>
    clsHead_returns net.entries "cls_head" hn hs.1 hs.2 net.clsHead (Nat.succ_pos _) hx
  obtain ⟨reg, hreg, -⟩ := concat_returns hne hsizes hfeats fun s x hs hx =>
    regHead_returns net.entries "reg_head" hn hs.1 hs.2 net.regHead (Nat.succ_pos _) hx
  exact ⟨cls, reg, hcls, hreg⟩

omit [Field K] in
/-- The layers of a bottleneck give `c2` the channels that `p2_reduce` wants. -/
theorem bottleneck_channels {backbone : Backbone} (hblock : backbone ≠ .fca34) :
    64 * backbone.block.expansion = 256 := by
  cases backbone with
  | fca34 => exact absurd rfl hblock
  | fca50 => rfl
  | fca101 => rfl
  | fca152 => rfl

/-- The segmentation on the features of an image. -/
theorem logits_returns (cpam : Cpam α) {backbone : Backbone} (hblock : backbone ≠ .fca34)
    {c1 c2 p3 p4 p5 p6 p7 : Tensor α} (hc1 : HasShape [n, 64, strided 2 h, strided 2 w] c1)
    (hc2 : HasShape [n, 64 * backbone.block.expansion, strided 2 (strided 2 h),
      strided 2 (strided 2 w)] c2)
    (hshapes : HasShapes n 256 (pyramidSizes h w) [p3, p4, p5, p6, p7]) (hh : 0 < h) (hw : 0 < w) :
    Returns (segLogits E cpam c1 c2 [p3, p4, p5, p6, p7] h w) (HasShape [n, 1, h, w]) := by
  rw [bottleneck_channels hblock] at hc2
  obtain ⟨h₃, hrest⟩ := List.forall₂_cons.mp hshapes
  obtain ⟨h₄, hrest⟩ := List.forall₂_cons.mp hrest
  obtain ⟨h₅, -⟩ := List.forall₂_cons.mp hrest
  have hlevel : ∀ k ∈ levels, 0 < (imageShape h w k).1 ∧ 0 < (imageShape h w k).2 :=
    fun k hk => pyramidSizes_pos hh hw _ (List.mem_map_of_mem hk)
  exact segLogits_returns E cpam hc1 ⟨strided_pos 2 _, strided_pos 2 _⟩ hc2
    ⟨strided_pos 2 _, strided_pos 2 _⟩ h₃ (hlevel 3 (by decide)) h₄ (hlevel 4 (by decide)) h₅
    (hlevel 5 (by decide))

/-- With the basic blocks `c2` has 64 channels. -/
theorem segLogits_error (cpam : Cpam α) {c1 c2 p3 p4 p5 p6 p7 : Tensor α} {h' w' : ℕ}
    (hc2 : HasShape [n, 64 * Backbone.fca34.block.expansion, h', w'] c2) :
    segLogits E cpam c1 c2 [p3, p4, p5, p6, p7] h w = .error .runtimeError := by
  have hd : 256 ≠ 64 * Backbone.fca34.block.expansion := by decide
  have hfuse : segFuse E "p2" 256 c2 p3 = .error .runtimeError := segFuse_error E "p2" hc2 hd
  show (segFuse E "p2" 256 c2 p3 >>= fun _ => _) = _
  rw [hfuse]
  rfl

/-- For every image, in evaluation mode and up to the outputs of the heads. With a backbone of
bottleneck blocks the forward pass gets there, its logits have one channel and the size of the
image, and its other outputs are those of the detector whose gate is the segmentation. With
`fca34` the forward pass raises, in the segmentation. -/
theorem segForward_refines (net : RetinaNet α K) (cpam : Cpam α) (m : PyMath K)
    {ratios scales rotations : Option (List K)}
    (hg : net.anchorGenerator = .init none none none ratios scales rotations) {ims : Tensor α}
    (hims : HasShape [n, 3, h, w] ims) (hn : 0 < n) (hh : 0 < h) (hw : 0 < w) :
    (net.backbone ≠ .fca34 → ∃ out logits, net.segForward cpam m ims = .ok (out, logits) ∧
      HasShape [n, 1, h, w] logits ∧ (net.gatedBy cpam logits).forward m ims = .ok out) ∧
    (net.backbone = .fca34 → net.segForward cpam m ims = .error .runtimeError) := by
  obtain ⟨f, c5, p3, p4, p5, p6, p7, hf, hc5, hp, hshapes⟩ := backbone_returns net hims hn hh hw
  have hanchors := anchors_forward m ratios scales rotations (show ims.shape = _ from hims)
  rw [← hg] at hanchors
  obtain ⟨h₁, h₂⟩ := finer_features net.entries hf hims hh hw
  have hsize : ims.shape.getD 2 0 = h ∧ ims.shape.getD 3 0 = w := by
    rw [show ims.shape = _ from hims]
    exact ⟨rfl, rfl⟩
  unfold RetinaNet.segForward
  simp only [hanchors, hf, hc5, hp, hsize, ok_bind]
  constructor
  · intro hblock
    obtain ⟨logits, hlogits, hl⟩ := logits_returns net.entries cpam hblock h₁ h₂ hshapes hh hw
    have hpos := pyramidSizes_pos hh hw
    have hloop := gateLoop_eq net.entries cpam hl hshapes hpos
    have hgated := hasShapes_mapIdx (cpam.gate net.entries logits).shape_apply hshapes
    obtain ⟨cls, reg, hcls, hreg⟩ := heads_return net hgated nofun hpos hn
    -- The pyramid of the gated detector is what the loop leaves.
    have hpyramid : (net.gatedBy cpam logits).pyramid ims
        = .ok ([p3, p4, p5, p6, p7].mapIdx (cpam.gate net.entries logits).apply) := by
      unfold RetinaNet.pyramid
      simp only [RetinaNet.gatedBy, hf, hc5, hp, ok_bind]
    have hforward := forward_eq_ok (net.gatedBy cpam logits) m hanchors hpyramid hcls hreg
    refine ⟨_, logits, ?_, hl, hforward⟩
    obtain ⟨clsRows, hclsRows, hclsCat⟩ := bind_eq_ok hcls
    obtain ⟨regRows, hregRows, hregCat⟩ := bind_eq_ok hreg
    rw [hlogits, ok_bind, hloop, ok_bind, hclsRows, ok_bind, hclsCat, ok_bind, hregRows, ok_bind,
      hregCat]
    rfl
  · intro hblock
    rw [hblock] at h₂
    rw [segLogits_error net.entries cpam h₂]
    rfl

end

/-- Modules that return the feature that they get. -/
def idCpam : Cpam ℚ where
  adapter _ x _ := .ok x
  convLocal _ x := .ok x
  adapter_returns _ _ _ _ _ hx _ _ := Returns.ok hx
  convLocal_returns _ _ _ _ _ hx _ _ := Returns.ok hx

/-- An image of 33 rows and 65 columns, where no feature has twice the size of the next one: the
logits have its size with `fca101`, and `fca34` has none. -/
theorem segForward_refines_oddImage :
    (∃ out logits, zeroNet.segForward idCpam PyMath.rat ⟨[1, 3, 33, 65], fun _ => 0⟩
        = .ok (out, logits) ∧ logits.shape = [1, 1, 33, 65]) ∧
      { zeroNet with backbone := .fca34 }.segForward idCpam PyMath.rat
        ⟨[1, 3, 33, 65], fun _ => 0⟩ = .error .runtimeError := by
  have hims : HasShape [1, 3, 33, 65] (⟨[1, 3, 33, 65], fun _ => 0⟩ : Tensor ℚ) := rfl
  constructor
  · obtain ⟨out, logits, hok, hshape, -⟩ := (segForward_refines zeroNet idCpam PyMath.rat rfl hims
      (by decide) (by decide) (by decide)).1 (by decide)
    exact ⟨out, logits, hok, hshape⟩
  · exact (segForward_refines { zeroNet with backbone := .fca34 } idCpam PyMath.rat rfl hims
      (by decide) (by decide) (by decide)).2 rfl

end W2Net.Proofs.SegBranch
