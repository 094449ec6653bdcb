import W2Net.Lib.Attention
import W2Net.Modules.Smsa
import W2Net.Proofs.Models.FeatureSizes

/-!
# `W2Net.Proofs.Models.PixelAttention`: what a row of the feature matrix is

`MSAM` compares rows of two feature matrices. With real weights, its result at a position is
`attend` from the row at that position (`attention_returns`). If the rows are the pixels, the
result at a pixel depends on that pixel only, and the two `MSAM` of the repository agree
(`PixelRows`).

`modules/SMSA.py` permutes the feature first, and its rows are the pixels. `models/
MultiScaleAttMod.py` does not. `perPixel_iff` says for which sizes its rows are the pixels
nevertheless.
-/

set_option autoImplicit false

namespace W2Net.Proofs.PixelAttention

open W2Net.Attention
open W2Net.Fpan
open W2Net.Layers

/-! ### The layers over the real numbers -/

/-- What the layers of the attention compute, with `fc1` and `fc2` from `C` to `D` columns. -/
structure Computes (E : Entries ℝ) (name : String) (f g : Affine) (scale : ℝ) (C D : ℕ) : Prop where
  fc1 : ∀ (x : Tensor ℝ) {b r n p k : ℕ}, x.shape = [b, r, C] → n < b → p < r → k < D →
    (⟨[b, r, D], E (name ++ ".fc1") [x]⟩ : Tensor ℝ).get [n, p, k]
      = f.apply C (fun j => x.get [n, p, j]) k
  fc2 : ∀ (x : Tensor ℝ) {b r n p k : ℕ}, x.shape = [b, r, C] → n < b → p < r → k < D →
    (⟨[b, r, D], E (name ++ ".fc2") [x]⟩ : Tensor ℝ).get [n, p, k]
      = g.apply C (fun j => x.get [n, p, j]) k
  energy : ∀ (x y : Tensor ℝ) {b m l q n p k : ℕ}, x.shape = [b, m, l] → y.shape = [b, l, q] →
    n < b → p < m → k < q →
    (⟨[b, m, q], E (name ++ ".energy") [x, y]⟩ : Tensor ℝ).get [n, p, k]
      = ∑ j ∈ Finset.range l, x.get [n, p, j] * y.get [n, j, k]
  softmax : ∀ (x : Tensor ℝ) {b m l n p k : ℕ}, x.shape = [b, m, l] → n < b → p < m → k < l →
    (⟨[b, m, l], E (name ++ ".softmax") [x]⟩ : Tensor ℝ).get [n, p, k]
      = Attention.softmax l (fun j => x.get [n, p, j]) k
  mid : ∀ (x y : Tensor ℝ) {b m l q n p k : ℕ}, x.shape = [b, m, l] → y.shape = [b, l, q] →
    n < b → p < m → k < q →
    (⟨[b, m, q], E (name ++ ".mid") [x, y]⟩ : Tensor ℝ).get [n, p, k]
      = ∑ j ∈ Finset.range l, x.get [n, p, j] * y.get [n, j, k]
  scale : ∀ (x : Tensor ℝ) (p : ℕ), E (name ++ ".scale") [x] p = scale * x.data p

section
variable {E : Entries ℝ} {name : String} {f g : Affine} {scale : ℝ} {C div b h1 w1 R : ℕ}

/-- The result of the attention at a position is `attend` from the row at that position. -/
theorem attention_returns (hE : Computes E name f g scale C (C / div)) {featLow featHigh : Tensor ℝ}
    (hlow : featLow.shape = [b, h1 * w1, C]) (hhigh : featHigh.shape = [b, R, C]) :
    Returns (attention E name C div b h1 w1 featLow featHigh) fun mid =>
      mid.shape = [b, C, h1, w1] ∧
        ∀ n k y x, n < b → k < C → y < h1 → x < w1 → mid.get [n, k, y, x]
          = attend f g C (C / div) R (fun j => featLow.get [n, y * w1 + x, j])
              (fun r j => featHigh.get [n, r, j]) k := by
  let midLow : Tensor ℝ := ⟨[b, h1 * w1, C / div], E (name ++ ".fc1") [featLow]⟩
  let midHigh : Tensor ℝ := ⟨[b, R, C / div], E (name ++ ".fc2") [featHigh]⟩
  obtain ⟨midHighT, hmht, hmhtShape, hmhtGet⟩ := Tensor.permute_swap_last (t := midHigh) rfl
  obtain ⟨featHighT, hfht, hfhtShape, hfhtGet⟩ := Tensor.permute_swap_last hhigh
  let energy : Tensor ℝ := ⟨[b, h1 * w1, R], E (name ++ ".energy") [midLow, midHighT]⟩
  let weights : Tensor ℝ := pointwise E (name ++ ".softmax") energy
  obtain ⟨weightsT, hwt, hwtShape, hwtGet⟩ := Tensor.permute_swap_last (t := weights) rfl
  let mid : Tensor ℝ := ⟨[b, C, h1 * w1], E (name ++ ".mid") [featHighT, weightsT]⟩
  have hprod : mid.shape.prod = [b, C, h1, w1].prod := by
    show b * (C * (h1 * w1 * 1)) = b * (C * (h1 * (w1 * 1)))
    ring
  have heq : attention E name C div b h1 w1 featLow featHigh = .ok ⟨[b, C, h1, w1], mid.data⟩ := by
    unfold attention
    rw [linear_eq E _ hlow, ok_bind, linear_eq E _ hhigh, ok_bind, hmht, ok_bind,
      bmm_eq E _ rfl hmhtShape, ok_bind, hfht, ok_bind]
    show weights.permute [0, 2, 1] >>= _ = _
    rw [hwt, ok_bind, bmm_eq E _ hfhtShape hwtShape, ok_bind]
    exact Tensor.reshape_eq [b, C, h1, w1] hprod
  refine ⟨_, heq, rfl, fun n k y x hn hk hy hx => ?_⟩
  -- The position of the pixel in the rows.
  have hp : y * w1 + x < h1 * w1 := mul_add_lt_mul hy hx
  have hravel : ravel [b, C, h1, w1] [n, k, y, x] = ravel mid.shape [n, k, y * w1 + x] := by
    show n * (C * (h1 * (w1 * 1))) + (k * (h1 * (w1 * 1)) + (y * (w1 * 1) + (x * 1 + 0)))
      = n * (C * (h1 * w1 * 1)) + (k * (h1 * w1 * 1) + ((y * w1 + x) * 1 + 0))
    ring
  have henergy : ∀ r, r < R → energy.get [n, y * w1 + x, r]
      = score f g C (C / div) (fun j => featLow.get [n, y * w1 + x, j])
          (fun j => featHigh.get [n, r, j]) := by
    intro r hr
    rw [hE.energy midLow midHighT rfl hmhtShape hn hp hr, score]
    refine Finset.sum_congr rfl fun j hj => ?_
    have hj' := Finset.mem_range.mp hj
    rw [hmhtGet n j r hn hj' hr, hE.fc1 featLow hlow hn hp hj', hE.fc2 featHigh hhigh hn hr hj']
  rw [Tensor.reshape_get hravel, hE.mid featHighT weightsT hfhtShape hwtShape hn hk hp, attend]
  refine Finset.sum_congr rfl fun r hr => ?_
  have hr' := Finset.mem_range.mp hr
  have hweights := (hE.softmax energy rfl hn hp hr').trans (softmax_congr henergy hr')
  rw [hfhtGet n k r hn hk hr', hwtGet n r _ hn hr' hp, ← hweights]
  rfl

/-! ### Rows that are pixels -/

/-- Row `r` of a feature matrix consists of the channel values of a feature at pixel `r`. -/
def PixelRows (b C h w : ℕ) (rows feature : Tensor ℝ) : Prop :=
  ∀ n r k, n < b → r < h * w → k < C → rows.get [n, r, k] = feature.get [n, k, r / w, r % w]

/-- The rows of the permuted feature are its pixels. -/
theorem permuteRows_returns {h w : ℕ} (hb : 0 < b) (hC : 0 < C) {t : Tensor ℝ}
    (ht : t.shape = [b, C, h, w]) :
    Returns (Smsa.permuteRows b C t) fun rows =>
      rows.shape = [b, h * w, C] ∧ PixelRows b C h w rows t := by
  obtain ⟨t', ht', hshape, hget⟩ := Tensor.permute_channels_last ht
  have hprod : t'.shape.prod = b * (h * w) * C := by
    rw [hshape]
    show b * (h * (w * (C * 1))) = b * (h * w) * C
    ring
  have heq : Smsa.permuteRows b C t = .ok ⟨[b, h * w, C], t'.data⟩ := by
    unfold Smsa.permuteRows
    rw [ht', ok_bind, Tensor.reshape_rows hb hC hprod]
  refine ⟨_, heq, rfl, fun n r k hn hr hk => ?_⟩
  have hw : 0 < w := Nat.pos_of_mul_pos_left (Nat.zero_lt_of_lt hr)
  have hravel : ravel [b, h * w, C] [n, r, k] = ravel t'.shape [n, r / w, r % w, k] := by
    have hr' := Nat.div_add_mod r w
    rw [hshape]
    show n * (h * w * (C * 1)) + (r * (C * 1) + (k * 1 + 0))
      = n * (h * (w * (C * 1))) + (r / w * (w * (C * 1)) + (r % w * (C * 1) + (k * 1 + 0)))
    -- A row number is a pixel row and a pixel column, and both sides are the same polynomial in
    -- them.
    nth_rewrite 1 [← hr']
    ring
  rw [Tensor.reshape_get hravel, hget n _ _ k hn (Nat.div_lt_of_lt_mul (by rwa [Nat.mul_comm] at hr))
    (Nat.mod_lt r hw) hk]

theorem viewRows_eq {h w : ℕ} (hb : 0 < b) (hC : 0 < C) {t : Tensor ℝ}
    (ht : t.shape = [b, C, h, w]) : viewRows b C t = .ok ⟨[b, h * w, C], t.data⟩ := by
  have hprod : t.shape.prod = b * (h * w) * C := by
    rw [ht]
    show b * (C * (h * (w * 1))) = b * (h * w) * C
    ring
  exact Tensor.reshape_rows hb hC hprod

/-- The rows of a feature that is only viewed are its pixels if it has one channel or one
pixel. -/
theorem pixelRows_view {h w : ℕ} {t : Tensor ℝ} (ht : t.shape = [b, C, h, w])
    (hone : C = 1 ∨ h * w = 1) : PixelRows b C h w ⟨[b, h * w, C], t.data⟩ t := by
  intro n r k hn hr hk
  have hravel : ravel [b, h * w, C] [n, r, k] = ravel t.shape [n, k, r / w, r % w] := by
    rw [ht]
    show n * (h * w * (C * 1)) + (r * (C * 1) + (k * 1 + 0))
      = n * (C * (h * (w * 1))) + (k * (h * (w * 1)) + (r / w * (w * 1) + (r % w * 1 + 0)))
    -- With one channel or one pixel, one of the two orders has nothing to exchange.
    have hr' := Nat.div_add_mod r w
    rcases hone with hC | hhw
    · have hk0 : k = 0 := by omega
      subst hC hk0
      nth_rewrite 1 [← hr']
      ring
    · obtain rfl := Nat.eq_one_of_mul_eq_one_right hhw
      obtain rfl := Nat.eq_one_of_mul_eq_one_left hhw
      have hr0 : r = 0 := by omega
      subst hr0
      simp
  exact Tensor.reshape_get hravel

/-- With more channels and pixels, the first row begins with two pixels of one channel. -/
theorem PixelRows.mixed {h w : ℕ} {t : Tensor ℝ} (ht : t.shape = [b, C, h, w]) (hb : 0 < b)
    (hC : 1 < C) (hhw : 0 < h * w) (hrows : PixelRows b C h w ⟨[b, h * w, C], t.data⟩ t) :
    t.data 1 = t.data (h * w) := by
  have h01 := hrows 0 0 1 hb hhw hC
  have hleft : ravel [b, h * w, C] [0, 0, 1] = 1 := by
    show 0 * (h * w * (C * 1)) + (0 * (C * 1) + (1 * 1 + 0)) = 1
    ring
  have hright : ravel [b, C, h, w] [0, 1, 0, 0] = h * w := by
    show 0 * (C * (h * (w * 1))) + (1 * (h * (w * 1)) + (0 * (w * 1) + (0 * 1 + 0))) = h * w
    ring
  rw [Nat.zero_div, Nat.zero_mod, Tensor.get, Tensor.get, ht, hleft, hright] at h01
  exact h01

/-- If the rows are pixels, the result at a pixel is attended from that pixel. -/
theorem pixelAttention_returns {h2 w2 : ℕ} (hE : Computes E name f g scale C (C / div))
    {low high rowsLow rowsHigh : Tensor ℝ} (hlow : rowsLow.shape = [b, h1 * w1, C])
    (hhigh : rowsHigh.shape = [b, h2 * w2, C]) (hrowsLow : PixelRows b C h1 w1 rowsLow low)
    (hrowsHigh : PixelRows b C h2 w2 rowsHigh high) :
    Returns (attention E name C div b h1 w1 rowsLow rowsHigh) fun mid =>
      ∀ n k y x, n < b → k < C → y < h1 → x < w1 → mid.get [n, k, y, x]
        = attend f g C (C / div) (h2 * w2) (fun j => low.get [n, j, y, x])
            (fun r j => high.get [n, j, r / w2, r % w2]) k := by
  obtain ⟨mid, hmid, -, hget⟩ := attention_returns hE hlow hhigh
  refine ⟨mid, hmid, fun n k y x hn hk hy hx => ?_⟩
  have hp : y * w1 + x < h1 * w1 := mul_add_lt_mul hy hx
  rw [hget n k y x hn hk hy hx]
  refine attend_congr f g (fun j hj => ?_) (fun r hr j hj => hrowsHigh n r j hn hr hj) hk
  rw [hrowsLow n _ j hn hp hj, mul_add_div_of_lt y hx, mul_add_mod_of_lt y hx]

/-! ### The attention attends per pixel -/

theorem convHigh_returns (E : Entries ℝ) (name : String) (C : ℕ) {cHigh h2 w2 : ℕ} (h2pos : 0 < h2)
    (w2pos : 0 < w2) {fms : Tensor ℝ} (hfms : fms.shape = [b, cHigh, h2, w2]) :
    Returns (convHigh E name cHigh C fms) (HasShape [b, C, h2, w2]) := by
  have hconv := (⟨cHigh, C, 1, 1, 0⟩ : Conv2d).returns_same E (name ++ ".conv_high.0") rfl rfl hfms
    h2pos w2pos
  exact hconv.bind fun high hhigh => Returns.ok ((hhigh.pointwise E _).pointwise E _)

end

/-- `MSAM` of `models/MultiScaleAttMod.py` attends per pixel for features of the given sizes: the
rows of both feature matrices are pixels, the output at a pixel depends on `fms_low` only
through that pixel, and `mid` is the one of the permuted formulation. -/
structure PerPixel (E : Entries ℝ) (name : String) (b cHigh C div h1 w1 h2 w2 : ℕ) : Prop where
  lowRows : ∀ low : Tensor ℝ, low.shape = [b, C, h1, w1] →
    Returns (viewRows b C low) fun rows => PixelRows b C h1 w1 rows low
  highRows : ∀ fmsHigh : Tensor ℝ, fmsHigh.shape = [b, cHigh, h2, w2] →
    Returns (convHigh E name cHigh C fmsHigh) fun high =>
      Returns (viewRows b C high) fun rows => PixelRows b C h2 w2 rows high
  output : ∀ low low' fmsHigh : Tensor ℝ, low.shape = [b, C, h1, w1] →
    low'.shape = [b, C, h1, w1] → fmsHigh.shape = [b, cHigh, h2, w2] →
    Returns (msam E name cHigh C div low fmsHigh) fun out =>
      Returns (msam E name cHigh C div low' fmsHigh) fun out' =>
        ∀ n y x, n < b → y < h1 → x < w1 →
          (∀ k < C, low.get [n, k, y, x] = low'.get [n, k, y, x]) →
            ∀ k < C, out.get [n, k, y, x] = out'.get [n, k, y, x]
  preScale : ∀ low fmsHigh : Tensor ℝ, low.shape = [b, C, h1, w1] →
    fmsHigh.shape = [b, cHigh, h2, w2] →
    Returns (msamMid E name cHigh C div low fmsHigh) fun mid =>
      Returns (Smsa.msamMid E name cHigh C div low fmsHigh) fun mid' =>
        ∀ n k y x, n < b → k < C → y < h1 → x < w1 → mid.get [n, k, y, x] = mid'.get [n, k, y, x]

section
variable {E : Entries ℝ} {name : String} {f g : Affine} {scale : ℝ} {b cHigh C div h1 w1 h2 w2 : ℕ}

theorem msamMid_eq (hb : 0 < b) (hC : 0 < C) {low fmsHigh high : Tensor ℝ}
    (hlow : low.shape = [b, C, h1, w1]) (hhigh : convHigh E name cHigh C fmsHigh = .ok high)
    (hshape : high.shape = [b, C, h2, w2]) :
    msamMid E name cHigh C div low fmsHigh
      = attention E name C div b h1 w1 ⟨[b, h1 * w1, C], low.data⟩ ⟨[b, h2 * w2, C], high.data⟩ := by
  unfold msamMid
  rw [hlow]
  simp only [ne_eq, not_true_eq_false, if_false]
  rw [viewRows_eq hb hC hlow, ok_bind, hhigh, ok_bind, viewRows_eq hb hC hshape, ok_bind]

/-- The permuted formulation attends per pixel. -/
theorem smsa_msamMid_returns (hE : Computes E name f g scale C (C / div)) (hb : 0 < b) (hC : 0 < C)
    {low fmsHigh high : Tensor ℝ} (hlow : low.shape = [b, C, h1, w1])
    (hhigh : convHigh E name cHigh C fmsHigh = .ok high) (hshape : high.shape = [b, C, h2, w2]) :
    Returns (Smsa.msamMid E name cHigh C div low fmsHigh) fun mid =>
      ∀ n k y x, n < b → k < C → y < h1 → x < w1 → mid.get [n, k, y, x]
        = attend f g C (C / div) (h2 * w2) (fun j => low.get [n, j, y, x])
            (fun r j => high.get [n, j, r / w2, r % w2]) k := by
  obtain ⟨rowsLow, hrowsLow, hshapeLow, hpixelsLow⟩ := permuteRows_returns hb hC hlow
  obtain ⟨rowsHigh, hrowsHigh, hshapeHigh, hpixelsHigh⟩ := permuteRows_returns hb hC hshape
  have heq : Smsa.msamMid E name cHigh C div low fmsHigh
      = attention E name C div b h1 w1 rowsLow rowsHigh := by
    unfold Smsa.msamMid
    rw [hlow]
    simp only [ne_eq, not_true_eq_false, if_false]
    rw [hrowsLow, ok_bind, hhigh, ok_bind, hrowsHigh, ok_bind]
  rw [heq]
  exact pixelAttention_returns hE hshapeLow hshapeHigh hpixelsLow hpixelsHigh

/-- If the rows of both feature matrices are pixels, so is the result. -/
theorem msamMid_returns (hE : Computes E name f g scale C (C / div)) (hb : 0 < b) (hC : 0 < C)
    {low fmsHigh high : Tensor ℝ} (hlow : low.shape = [b, C, h1, w1])
    (hhigh : convHigh E name cHigh C fmsHigh = .ok high) (hshape : high.shape = [b, C, h2, w2])
    (hlowRows : PixelRows b C h1 w1 ⟨[b, h1 * w1, C], low.data⟩ low)
    (hhighRows : PixelRows b C h2 w2 ⟨[b, h2 * w2, C], high.data⟩ high) :
    Returns (msamMid E name cHigh C div low fmsHigh) fun mid =>
      ∀ n k y x, n < b → k < C → y < h1 → x < w1 → mid.get [n, k, y, x]
        = attend f g C (C / div) (h2 * w2) (fun j => low.get [n, j, y, x])
            (fun r j => high.get [n, j, r / w2, r % w2]) k := by
  rw [msamMid_eq hb hC hlow hhigh hshape]
  exact pixelAttention_returns hE rfl rfl hlowRows hhighRows

/-- If the rows of both feature matrices are pixels, the attention is per pixel. -/
theorem perPixel_of_rows (hE : Computes E name f g scale C (C / div)) (hb : 0 < b) (hC : 0 < C)
    (hh2 : 0 < h2) (hw2 : 0 < w2)
    (hlowRows : ∀ low : Tensor ℝ, low.shape = [b, C, h1, w1] →
      PixelRows b C h1 w1 ⟨[b, h1 * w1, C], low.data⟩ low)
    (hhighRows : ∀ high : Tensor ℝ, high.shape = [b, C, h2, w2] →
      PixelRows b C h2 w2 ⟨[b, h2 * w2, C], high.data⟩ high) :
    PerPixel E name b cHigh C div h1 w1 h2 w2 where
  lowRows low hlow := ⟨_, viewRows_eq hb hC hlow, hlowRows low hlow⟩
  highRows fmsHigh hfms := by
    obtain ⟨high, hhigh, hshape⟩ := convHigh_returns E name C hh2 hw2 hfms
    exact ⟨high, hhigh, _, viewRows_eq hb hC hshape, hhighRows high hshape⟩
  output low low' fmsHigh hlow hlow' hfms := by
    obtain ⟨high, hhigh, hshape⟩ := convHigh_returns E name C hh2 hw2 hfms
    -- Every output pixel is the attention of its own input pixel, whatever the others hold.
    have hout : ∀ {low : Tensor ℝ}, low.shape = [b, C, h1, w1] →
        Returns (msam E name cHigh C div low fmsHigh) fun out =>
          ∀ n k y x, n < b → k < C → y < h1 → x < w1 → out.get [n, k, y, x]
            = scale * attend f g C (C / div) (h2 * w2) (fun j => low.get [n, j, y, x])
                (fun r j => high.get [n, j, r / w2, r % w2]) k := by
      intro low hlow
      refine (msamMid_returns hE hb hC hlow hhigh hshape (hlowRows low hlow)
        (hhighRows high hshape)).bind fun mid hget => Returns.ok fun n k y x hn hk hy hx => ?_
      rw [← hget n k y x hn hk hy hx]
      exact hE.scale mid _
    obtain ⟨out, hok, hget⟩ := hout hlow
    obtain ⟨out', hok', hget'⟩ := hout hlow'
    refine ⟨out, hok, out', hok', fun n y x hn hy hx hpixel k hk => ?_⟩
    rw [hget n k y x hn hk hy hx, hget' n k y x hn hk hy hx,
      attend_congr f g hpixel (fun r _ j _ => rfl) hk]
  preScale low fmsHigh hlow hfms := by
    obtain ⟨high, hhigh, hshape⟩ := convHigh_returns E name C hh2 hw2 hfms
    obtain ⟨mid, hmid, hget⟩ := msamMid_returns hE hb hC hlow hhigh hshape
      (hlowRows low hlow) (hhighRows high hshape)
    obtain ⟨mid', hmid', hget'⟩ := smsa_msamMid_returns hE hb hC hlow hhigh hshape
    refine ⟨mid, hmid, mid', hmid', fun n k y x hn hk hy hx => ?_⟩
    rw [hget n k y x hn hk hy hx, hget' n k y x hn hk hy hx]

end

/-! ### A network -/

/-- An entry of a batched matrix product. -/
noncomputable def productAt (x y : Tensor ℝ) (p : ℕ) : ℝ :=
  let idx := unravel [x.shape.getD 0 0, x.shape.getD 1 0, y.shape.getD 2 0] p
  ∑ j ∈ Finset.range (x.shape.getD 2 0),
    x.get [idx.getD 0 0, idx.getD 1 0, j] * y.get [idx.getD 0 0, j, idx.getD 2 0]

theorem productAt_ravel {x y : Tensor ℝ} {b m l q n p k : ℕ} (hx : x.shape = [b, m, l])
    (hy : y.shape = [b, l, q]) (hn : n < b) (hp : p < m) (hk : k < q) :
    productAt x y (ravel [b, m, q] [n, p, k])
      = ∑ j ∈ Finset.range l, x.get [n, p, j] * y.get [n, j, k] := by
  have hin : InBounds [n, p, k] [b, m, q] := .cons hn (.cons hp (.cons hk .nil))
  rw [productAt, hx, hy]
  simp only [List.getD_cons_zero, List.getD_cons_succ, unravel_ravel hin]

/-- An entry of a softmax along the last dimension. -/
noncomputable def softmaxAt (x : Tensor ℝ) (p : ℕ) : ℝ :=
  let idx := unravel x.shape p
  Attention.softmax (x.shape.getD 2 0) (fun j => x.get [idx.getD 0 0, idx.getD 1 0, j]) (idx.getD 2 0)

theorem softmaxAt_ravel {x : Tensor ℝ} {b m l n p k : ℕ} (hx : x.shape = [b, m, l]) (hn : n < b)
    (hp : p < m) (hk : k < l) :
    softmaxAt x (ravel [b, m, l] [n, p, k]) = Attention.softmax l (fun j => x.get [n, p, j]) k := by
  have hin : InBounds [n, p, k] [b, m, l] := .cons hn (.cons hp (.cons hk .nil))
  rw [softmaxAt, hx]
  simp only [List.getD_cons_zero, List.getD_cons_succ, unravel_ravel hin]

/-- The layers of an `MSAM` whose convolution and linear layers have the weights 0, and whose
normalisation shifts the first channel by 1. Its scale is 1. -/
noncomputable def flatNet (name : String) : Entries ℝ
  | _, [x, y], p => productAt x y p
  | layer, [x], p =>
      if layer = name ++ ".conv_high.1" then if (unravel x.shape p).getD 1 0 = 0 then 1 else 0
      else if layer = name ++ ".conv_high.2" then max 0 (x.data p)
      else if layer = name ++ ".softmax" then softmaxAt x p
      else if layer = name ++ ".scale" then x.data p
      else 0
  | _, _, _ => 0

/-- The weights 0. -/
def zeroAffine : Affine := ⟨fun _ _ => 0, fun _ => 0⟩

theorem zeroAffine_apply (n : ℕ) (x : ℕ → ℝ) (o : ℕ) : zeroAffine.apply n x o = 0 := by
  simp [Affine.apply, zeroAffine]

theorem flatNet_computes (name : String) (C D : ℕ) :
    Computes (flatNet name) name zeroAffine zeroAffine 1 C D where
  fc1 x b r n p k _ _ _ _ := by simp [Tensor.get, flatNet, zeroAffine_apply]
  fc2 x b r n p k _ _ _ _ := by simp [Tensor.get, flatNet, zeroAffine_apply]
  energy x y b m l q n p k hx hy hn hp hk := productAt_ravel hx hy hn hp hk
  softmax x b m l n p k hx hn hp hk := by
    rw [← softmaxAt_ravel hx hn hp hk]
    simp [Tensor.get, flatNet]
  mid x y b m l q n p k hx hy hn hp hk := productAt_ravel hx hy hn hp hk
  scale x p := by simp [flatNet]

/-- Its aligned feature is 1 on the first channel and 0 on the others. -/
theorem flatNet_convHigh (name : String) {b cHigh C h w : ℕ} (hh : 0 < h) (hw : 0 < w)
    {fms : Tensor ℝ} (hfms : fms.shape = [b, cHigh, h, w]) :
    convHigh (flatNet name) name cHigh C fms
      = .ok ⟨[b, C, h, w], fun p => if (unravel [b, C, h, w] p).getD 1 0 = 0 then 1 else 0⟩ := by
  obtain ⟨conv, hconv, hshape⟩ := (⟨cHigh, C, 1, 1, 0⟩ : Conv2d).returns_same (flatNet name)
    (name ++ ".conv_high.0") rfl rfl hfms hh hw
  have hshape : conv.shape = [b, C, h, w] := hshape
  unfold convHigh
  rw [hconv, ok_bind]
  simp only [pointwise, hshape, Except.ok.injEq, Tensor.mk.injEq, true_and]
  funext p
  simp only [flatNet, String.append_right_inj]
  simp only [hshape, if_true]
  rw [if_neg (by simp)]
  refine max_eq_right ?_
  split <;> norm_num

/-- A feature that is 1 at the second position and 0 elsewhere. -/
def impulse (shape : List ℕ) : Tensor ℝ := ⟨shape, fun p => if p = 1 then 1 else 0⟩

/-! ### The sizes -/

/-- For all sizes of the features: the attention is per pixel for all weights exactly when there is
one channel, or one pixel in both features. -/
theorem perPixel_iff (name : String) (cHigh div : ℕ) {b C h1 w1 h2 w2 : ℕ} (hb : 0 < b) (hC : 0 < C)
    (hh1 : 0 < h1) (hw1 : 0 < w1) (hh2 : 0 < h2) (hw2 : 0 < w2) :
    (∀ (E : Entries ℝ) (f g : Affine) (scale : ℝ), Computes E name f g scale C (C / div) →
        PerPixel E name b cHigh C div h1 w1 h2 w2) ↔ C = 1 ∨ (h1 * w1 = 1 ∧ h2 * w2 = 1) := by
  constructor
  · intro hall
    -- A network whose attention weighs all rows alike shows which entries a row holds.
    have hper := hall (flatNet name) zeroAffine zeroAffine 1 (flatNet_computes name C (C / div))
    by_contra hsizes
    have hC1 : 1 < C := by omega
    have hpixels1 : 0 < h1 * w1 := Nat.mul_pos hh1 hw1
    have hpixels2 : 0 < h2 * w2 := Nat.mul_pos hh2 hw2
    rcases Nat.lt_or_ge 1 (h1 * w1) with hlarge | hsmall
    · -- The second entry of the first row of `fms_low` belongs to the second pixel.
      let low := impulse [b, C, h1, w1]
      obtain ⟨rows, hrows, hpixels⟩ := hper.lowRows low rfl
      rw [viewRows_eq (t := low) hb hC rfl] at hrows
      cases hrows
      have hmixed := hpixels.mixed (t := low) rfl hb hC1 hpixels1
      simp [low, impulse, hlarge.ne'] at hmixed
    · have hlarge : 1 < h2 * w2 := by omega
      obtain ⟨high, hhigh, rows, hrows, hpixels⟩ := hper.highRows (impulse [b, cHigh, h2, w2]) rfl
      rw [flatNet_convHigh name hh2 hw2 rfl] at hhigh
      cases hhigh
      rw [viewRows_eq hb hC rfl] at hrows
      cases hrows
      have hmixed := hpixels.mixed rfl hb hC1 hpixels2
      -- The second entry of the first row belongs to the first channel.
      have hfirst : (unravel [b, C, h2, w2] 1).getD 1 0 = 0 := by
        show 1 % (C * (h2 * (w2 * 1))) / (h2 * (w2 * 1)) = 0
        rw [Nat.mul_one]
        exact Nat.div_eq_of_lt ((Nat.mod_le _ _).trans_lt hlarge)
      have hsecond : (unravel [b, C, h2, w2] (h2 * w2)).getD 1 0 = 1 := by
        show h2 * w2 % (C * (h2 * (w2 * 1))) / (h2 * (w2 * 1)) = 1
        have hlt : h2 * w2 < C * (h2 * w2) := lt_mul_of_one_lt_left hpixels2 hC1
        rw [Nat.mul_one, Nat.mod_eq_of_lt hlt, Nat.div_self hpixels2]
      simp only [hfirst, hsecond, if_true, one_ne_zero, if_false] at hmixed
  · intro hsizes E f g scale hE
    refine perPixel_of_rows hE hb hC hh2 hw2 (fun low hlow => ?_) fun high hhigh => ?_
    · exact pixelRows_view hlow (hsizes.imp_right And.left)
    · exact pixelRows_view hhigh (hsizes.imp_right And.right)

/-- One channel and two pixels. -/
theorem perPixel_iff_oneChannel :
    PerPixel (flatNet "MSAM3") "MSAM3" 1 2 1 1 1 2 1 2 :=
  (perPixel_iff "MSAM3" 2 1 (by decide) (by decide) (by decide) (by decide) (by decide)
    (by decide)).mpr (Or.inl rfl) (flatNet "MSAM3") zeroAffine zeroAffine 1
      (flatNet_computes "MSAM3" 1 (1 / 1))

/-- The attended value of equal scores is the mean of the rows. -/
theorem attend_zeroAffine (C D : ℕ) (query : ℕ → ℝ) (rows : ℕ → ℕ → ℝ) (k : ℕ) :
    attend zeroAffine zeroAffine C D 2 query rows k = rows 0 k * (1 / 2) + rows 1 k * (1 / 2) := by
  have hscore : ∀ key : ℕ → ℝ, score zeroAffine zeroAffine C D query key = 0 := by
    intro key
    simp [score, zeroAffine_apply]
  have hweight : ∀ i : ℕ, Attention.softmax 2 (fun _ => 0) i = 1 / 2 := by
    intro i
    simp only [Attention.softmax, Real.exp_zero, Finset.sum_const, Finset.card_range]
    norm_num
  simp only [attend, hscore, hweight, Finset.sum_range_succ, Finset.sum_range_zero, zero_add]

/-- Two channels and two pixels: the first row of the feature matrix has both pixels of the first
channel, and `mid` is not the one of the permuted formulation. -/
theorem mixedPixels :
    Returns (viewRows 1 2 (impulse [1, 2, 1, 2])) (fun rows =>
        rows.get [0, 0, 1] = 1 ∧ (impulse [1, 2, 1, 2]).get [0, 1, 0, 0] = 0) ∧
      Returns (msamMid (flatNet "MSAM3") "MSAM3" 2 2 1 (impulse [1, 2, 1, 2])
          (impulse [1, 2, 1, 2])) (fun mid => mid.get [0, 0, 0, 0] = 1 / 2) ∧
      Returns (Smsa.msamMid (flatNet "MSAM3") "MSAM3" 2 2 1 (impulse [1, 2, 1, 2])
          (impulse [1, 2, 1, 2])) fun mid => mid.get [0, 0, 0, 0] = 1 := by
  have hE := flatNet_computes "MSAM3" 2 (2 / 1)
  have hlow : (impulse [1, 2, 1, 2]).shape = [1, 2, 1, 2] := rfl
  have hhigh := flatNet_convHigh "MSAM3" (b := 1) (C := 2) (h := 1) (w := 2) (by decide) (by decide)
    hlow
  refine ⟨?_, ?_, ?_⟩
  · rw [viewRows_eq (C := 2) (h := 1) (w := 2) (by decide) (by decide) rfl]
    refine Returns.ok ⟨?_, ?_⟩
    · simp [Tensor.get, impulse, ravel]
    · simp [Tensor.get, impulse, ravel]
  · -- With equal weights the result at a position is the mean of what it attends to.
    rw [msamMid_eq (by decide) (by decide) hlow hhigh rfl]
    refine (attention_returns hE rfl rfl).imp fun mid hmid => ?_
    rw [hmid.2 0 0 0 0 (by decide) (by decide) (by decide) (by decide), attend_zeroAffine]
    simp [Tensor.get, ravel, unravel]
  · refine (smsa_msamMid_returns hE (by decide) (by decide) hlow hhigh rfl).imp fun mid hmid => ?_
    rw [hmid 0 0 0 0 (by decide) (by decide) (by decide) (by decide), attend_zeroAffine]
    norm_num [Tensor.get, ravel, unravel]

end W2Net.Proofs.PixelAttention
