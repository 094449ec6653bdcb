import W2Net.Lib.FilterBank
import W2Net.Proofs.Utils.ScaledLabels
import W2Net.Utils.WtVis

/-!
# `W2Net.Proofs.Utils.WtVis`: the wavelet decomposition loses nothing

For a wavelet with filters of two samples (`haar` and `db1`) the convolutions of one level multiply
every block of 2 x 2 pixels with the matrix of the filters (`conv2d_outer`). The padding moves the
blocks by one pixel, so that they hold every pixel once for even and odd sizes.

The subbands of all levels are a `pyramid` over the image. `waveletDecompose_energy` says that they
share the energy of the image, and `reconstruct_waveletDecompose` reads the image back.
-/

set_option autoImplicit false

namespace W2Net.Proofs.WtVis

open W2Net.FcaNet (FeatureMap)
open W2Net.WtVis

variable {K : Type} [Field K]

/-! ### The filters as a matrix -/

/-- A filter of the wavelet in the order of the buffers: the low one, or the high one. -/
def side (wavelet : Wavelet K) (r : Fin 2) : List K :=
  if r = 0 then wavelet.decLo.reverse else wavelet.decHi.reverse

/-- The two filters as the rows of a matrix. -/
def taps (wavelet : Wavelet K) : Matrix (Fin 2) (Fin 2) K :=
  Matrix.of fun r u => (side wavelet r).getD u.val 0

open Matrix in
/-- An orthogonal wavelet with filters of two samples. -/
structure TwoTaps (wavelet : Wavelet K) : Prop where
  length : wavelet.decLo.length = 2
  orthonormal : taps wavelet * (taps wavelet)ᵀ = 1

theorem TwoTaps.length_side {wavelet : Wavelet K} (hwav : TwoTaps wavelet) (r : Fin 2) :
    (side wavelet r).length = 2 := by
  unfold side
  split
  · rw [List.length_reverse, hwav.length]
  · rw [List.length_reverse, wavelet.length_eq, hwav.length]

/-- `haar`, which is `db1`. -/
noncomputable def haar : Wavelet ℝ where
  decLo := [1 / √2, 1 / √2]
  decHi := [-(1 / √2), 1 / √2]
  length_eq := rfl

theorem twoTaps_haar : TwoTaps haar where
  length := rfl
  orthonormal := by
    have hroot : (1 / √2 : ℝ) * (1 / √2) = 1 / 2 := by
      rw [div_mul_div_comm, Real.mul_self_sqrt (by norm_num), one_mul]
    refine Matrix.ext fun r s => ?_
    simp only [Matrix.mul_apply, Matrix.transpose_apply, Fin.sum_univ_two]
    match r, s with
    | 0, 0 =>
        show 1 / √2 * (1 / √2) + 1 / √2 * (1 / √2) = (1 : ℝ)
        linarith
    | 0, 1 =>
        show 1 / √2 * (1 / √2) + 1 / √2 * (-(1 / √2)) = (0 : ℝ)
        ring
    | 1, 0 =>
        show 1 / √2 * (1 / √2) + -(1 / √2) * (1 / √2) = (0 : ℝ)
        ring
    | 1, 1 =>
        show 1 / √2 * (1 / √2) + -(1 / √2) * -(1 / √2) = (1 : ℝ)
        linarith

variable {c : ℕ}

/-- The pixels under the filters at a position. -/
def block (x : FeatureMap c K) (ch : Fin c) (i j : ℕ) : Matrix (Fin 2) (Fin 2) K :=
  Matrix.of fun u v => padded x 1 ch (i * 2 + u.val) (j * 2 + v.val)

open Matrix in
/-- The subband of a filter on the rows and a filter on the columns. -/
def band (Q : Matrix (Fin 2) (Fin 2) K) (x : FeatureMap c K) (r s : Fin 2) : FeatureMap c K :=
  { h := x.h / 2 + 1
    w := x.w / 2 + 1
    px := fun ch i j => (Q * block x ch i j * Qᵀ) r s }

theorem conv2d_outer {wavelet : Wavelet K} (hwav : TwoTaps wavelet) (hc : 0 < c)
    {x : FeatureMap c K} (hh : 0 < x.h) (hw : 0 < x.w) (r s : Fin 2) :
    conv2d x (outer (side wavelet s) (side wavelet r)) 2 1 = .ok (band (taps wavelet) x r s) := by
  have hfits : ¬ (c = 0 ∨ x.h = 0 ∨ x.w = 0 ∨
      x.h + 2 * 1 < (outer (side wavelet s) (side wavelet r)).h ∨
      x.w + 2 * 1 < (outer (side wavelet s) (side wavelet r)).w) := by
    show ¬ (c = 0 ∨ x.h = 0 ∨ x.w = 0 ∨ x.h + 2 * 1 < (side wavelet r).length ∨
      x.w + 2 * 1 < (side wavelet s).length)
    rw [hwav.length_side, hwav.length_side]
    omega
  unfold conv2d
  rw [if_neg hfits]
  show Except.ok (⟨(x.h + 2 * 1 - (side wavelet r).length) / 2 + 1,
    (x.w + 2 * 1 - (side wavelet s).length) / 2 + 1, fun ch i j =>
      ∑ u ∈ Finset.range (side wavelet r).length, ∑ v ∈ Finset.range (side wavelet s).length,
        padded x 1 ch (i * 2 + u) (j * 2 + v)
          * ((side wavelet s).getD v 0 * (side wavelet r).getD u 0)⟩ : FeatureMap c K) = _
  rw [hwav.length_side, hwav.length_side]
  refine congrArg Except.ok (congrArg (FeatureMap.mk (x.h / 2 + 1) (x.w / 2 + 1)) ?_)
  funext ch i j
  rw [Matrix.mul_apply, Finset.sum_range]
  simp only [Finset.sum_range, Fin.sum_univ_two, Matrix.mul_apply, Matrix.transpose_apply]
  show _ = ((side wavelet r).getD 0 0 * padded x 1 ch (i * 2 + 0) (j * 2 + 0)
      + (side wavelet r).getD 1 0 * padded x 1 ch (i * 2 + 1) (j * 2 + 0)) * (side wavelet s).getD 0 0
    + ((side wavelet r).getD 0 0 * padded x 1 ch (i * 2 + 0) (j * 2 + 1)
      + (side wavelet r).getD 1 0 * padded x 1 ch (i * 2 + 1) (j * 2 + 1)) * (side wavelet s).getD 1 0
  show padded x 1 ch (i * 2 + 0) (j * 2 + 0) * ((side wavelet s).getD 0 0 * (side wavelet r).getD 0 0)
      + padded x 1 ch (i * 2 + 0) (j * 2 + 1)
        * ((side wavelet s).getD 1 0 * (side wavelet r).getD 0 0)
      + (padded x 1 ch (i * 2 + 1) (j * 2 + 0)
        * ((side wavelet s).getD 0 0 * (side wavelet r).getD 1 0)
      + padded x 1 ch (i * 2 + 1) (j * 2 + 1)
        * ((side wavelet s).getD 1 0 * (side wavelet r).getD 1 0)) = _
  ring

/-! ### One level -/

/-- The sum of the squares of a channel. -/
def energy (x : FeatureMap c K) (ch : Fin c) : K :=
  ∑ i ∈ Finset.range x.h, ∑ j ∈ Finset.range x.w, x.px ch i j ^ 2

theorem padded_one (x : FeatureMap c K) (ch : Fin c) {t u : ℕ} (ht : t < x.h) (hu : u < x.w) :
    padded x 1 ch (t + 1) (u + 1) = x.px ch t u := by
  have hin : (1 ≤ t + 1 ∧ t + 1 - 1 < x.h) ∧ 1 ≤ u + 1 ∧ u + 1 - 1 < x.w := by omega
  rw [padded, if_pos hin]
  rfl

theorem padded_eq_zero (x : FeatureMap c K) (ch : Fin c) {p q : ℕ}
    (hout : p = 0 ∨ x.h < p ∨ q = 0 ∨ x.w < q) : padded x 1 ch p q = 0 := by
  have hnot : ¬ ((1 ≤ p ∧ p - 1 < x.h) ∧ 1 ≤ q ∧ q - 1 < x.w) := by omega
  rw [padded, if_neg hnot]

/-- The blocks hold every pixel once. -/
theorem sum_block (x : FeatureMap c K) (ch : Fin c) :
    ∑ i ∈ Finset.range (x.h / 2 + 1), ∑ j ∈ Finset.range (x.w / 2 + 1),
      ∑ u, ∑ v, block x ch i j u v ^ 2 = energy x ch := by
  have hzero : ∀ {p q : ℕ}, p = 0 ∨ x.h < p ∨ q = 0 ∨ x.w < q → padded x 1 ch p q ^ 2 = 0 := by
    intro p q hout
    rw [padded_eq_zero x ch hout, sq, mul_zero]
  have hgrid := sum_grid_blocks (g := fun p q => padded x 1 ch p q ^ 2) (h := x.h) (w := x.w)
    (fun q => hzero (by omega)) (fun p q hp => hzero (by omega)) (fun p => hzero (by omega))
    fun p q hq => hzero (by omega)
  simp only [Finset.sum_range _ (n := 2)] at hgrid
  refine hgrid.trans ?_
  refine Finset.sum_congr rfl fun t ht => Finset.sum_congr rfl fun u hu => ?_
  rw [padded_one x ch (Finset.mem_range.mp ht) (Finset.mem_range.mp hu)]

open Matrix in
/-- The four subbands of a level share the energy. -/
theorem energy_band {Q : Matrix (Fin 2) (Fin 2) K} (hQ : Q * Qᵀ = 1) (x : FeatureMap c K)
    (ch : Fin c) :
    energy (band Q x 1 0) ch + (energy (band Q x 0 1) ch
      + (energy (band Q x 1 1) ch + energy (band Q x 0 0) ch)) = energy x ch := by
  have hband : ∀ r s, energy (band Q x r s) ch
      = ∑ i ∈ Finset.range (x.h / 2 + 1), ∑ j ∈ Finset.range (x.w / 2 + 1),
        (Q * block x ch i j * Qᵀ) r s ^ 2 :=
    fun _ _ => rfl
  rw [← sum_block x ch, hband, hband, hband, hband]
  simp only [← Finset.sum_add_distrib]
  refine Finset.sum_congr rfl fun i _ => Finset.sum_congr rfl fun j _ => ?_
  rw [← sum_sq_conj hQ (block x ch i j)]
  simp only [Fin.sum_univ_two]
  ring

open Matrix in
/-- The pixels of an image from the subbands of one level. -/
theorem synthesis {Q : Matrix (Fin 2) (Fin 2) K} (hQ : Q * Qᵀ = 1) (x : FeatureMap c K) (ch : Fin c)
    {t u : ℕ} (ht : t < x.h) (hu : u < x.w) {B : Matrix (Fin 2) (Fin 2) K}
    (hB : ∀ r s, B r s = (band Q x r s).px ch ((t + 1) / 2) ((u + 1) / 2)) :
    (Qᵀ * B * Q) (Fin.ofNat 2 (t + 1)) (Fin.ofNat 2 (u + 1)) = x.px ch t u := by
  have hB' : B = Q * block x ch ((t + 1) / 2) ((u + 1) / 2) * Qᵀ := Matrix.ext hB
  rw [hB', conj_cancel hQ]
  show padded x 1 ch ((t + 1) / 2 * 2 + (t + 1) % 2) ((u + 1) / 2 * 2 + (u + 1) % 2) = _
  rw [Nat.div_add_mod', Nat.div_add_mod', padded_one x ch ht hu]

/-! ### All levels -/

/-- The subbands of an image, level by level. -/
def pyramid (Q : Matrix (Fin 2) (Fin 2) K) : ℕ → FeatureMap c K → List (FeatureMap c K)
  | 0, x => [x]
  | n + 1, x => band Q x 1 0 :: band Q x 0 1 :: band Q x 1 1 :: pyramid Q n (band Q x 0 0)

/-- The loop of `wavelet_decompose` returns the pyramid after what it has collected. -/
theorem decomposeLevels_eq {wavelet : Wavelet K} (hwav : TwoTaps wavelet) {channel reduction : ℕ}
    (level : ℕ) (fc1 : Fin (max (channel / reduction) 8) → ℕ → K)
    (fc2 : Fin channel → Fin (max (channel / reduction) 8) → K) (hc : 0 < c) (n : ℕ)
    (subbands : List (FeatureMap c K)) {x : FeatureMap c K} (hh : 0 < x.h) (hw : 0 < x.w) :
    decomposeLevels (WaveletFrequencyAttention.init wavelet level fc1 fc2) 1 n subbands x
      = .ok (subbands ++ pyramid (taps wavelet) n x) := by
  induction n generalizing subbands x with
  | zero => rfl
  | succ n ih =>
      have hconv := conv2d_outer hwav hc hh hw
      show (conv2d x (outer (side wavelet 0) (side wavelet 0)) 2 1 >>= fun ll =>
        conv2d x (outer (side wavelet 0) (side wavelet 1)) 2 1 >>= fun lh =>
        conv2d x (outer (side wavelet 1) (side wavelet 0)) 2 1 >>= fun hl =>
        conv2d x (outer (side wavelet 1) (side wavelet 1)) 2 1 >>= fun hh =>
        decomposeLevels _ 1 n (subbands ++ [lh, hl, hh]) ll) = _
      rw [hconv, hconv, hconv, hconv]
      refine (ih (subbands ++ _) (Nat.succ_pos _) (Nat.succ_pos _)).trans ?_
      rw [List.append_assoc]
      rfl

theorem waveletDecompose_eq {wavelet : Wavelet K} (hwav : TwoTaps wavelet) {channel reduction : ℕ}
    (level : ℕ) (fc1 : Fin (max (channel / reduction) 8) → ℕ → K)
    (fc2 : Fin channel → Fin (max (channel / reduction) 8) → K) (hc : 0 < c)
    {x : FeatureMap c K} (hh : 0 < x.h) (hw : 0 < x.w) :
    waveletDecompose (WaveletFrequencyAttention.init wavelet level fc1 fc2) x
      = .ok (pyramid (taps wavelet) level x) := by
  have hpad : (WaveletFrequencyAttention.init wavelet level fc1 fc2).llFilter.w / 2 = 1 := by
    show (side wavelet 0).length / 2 = 1
    rw [hwav.length_side]
  rw [waveletDecompose, hpad]
  exact decomposeLevels_eq hwav level fc1 fc2 hc level [] hh hw

theorem length_pyramid (Q : Matrix (Fin 2) (Fin 2) K) (n : ℕ) (x : FeatureMap c K) :
    (pyramid Q n x).length = 3 * n + 1 := by
  induction n generalizing x with
  | zero => rfl
  | succ n ih =>
      show (pyramid Q n (band Q x 0 0)).length + 1 + 1 + 1 = 3 * (n + 1) + 1
      rw [ih]
      omega

/-- A side of the image after some levels. -/
def sizeAfter (levels size : ℕ) : ℕ := (fun n => n / 2 + 1)^[levels] size

/-- The three subbands of a level have its size, and the last subband has the size of the last
level. -/
theorem size_pyramid (Q : Matrix (Fin 2) (Fin 2) K) {n k : ℕ} {x sb : FeatureMap c K}
    (hsb : (pyramid Q n x)[k]? = some sb) :
    sb.h = sizeAfter (min (k / 3 + 1) n) x.h ∧ sb.w = sizeAfter (min (k / 3 + 1) n) x.w := by
  induction n generalizing x k with
  | zero =>
      match k with
      | 0 =>
          cases hsb
          exact ⟨rfl, rfl⟩
  | succ n ih =>
      match k with
      | 0 =>
          cases hsb
          exact ⟨rfl, rfl⟩
      | 1 =>
          cases hsb
          exact ⟨rfl, rfl⟩
      | 2 =>
          cases hsb
          exact ⟨rfl, rfl⟩
      | k + 3 =>
          have hmin : min ((k + 3) / 3 + 1) (n + 1) = min (k / 3 + 1) n + 1 := by omega
          rw [hmin]
          exact ih hsb

open Matrix in
/-- The subbands of all levels share the energy of the image. -/
theorem energy_pyramid {Q : Matrix (Fin 2) (Fin 2) K} (hQ : Q * Qᵀ = 1) (n : ℕ)
    (x : FeatureMap c K) (ch : Fin c) :
    ((pyramid Q n x).map fun sb => energy sb ch).sum = energy x ch := by
  induction n generalizing x with
  | zero => exact List.sum_singleton
  | succ n ih =>
      show (energy (band Q x 1 0) ch :: energy (band Q x 0 1) ch :: energy (band Q x 1 1) ch ::
        (pyramid Q n (band Q x 0 0)).map fun sb => energy sb ch).sum = _
      rw [List.sum_cons, List.sum_cons, List.sum_cons, ih, energy_band hQ]

open Matrix in
/-- The transform back: a pixel from the four responses of its block, level by level from the
last one on. -/
def reconstruct (Q : Matrix (Fin 2) (Fin 2) K) : List (FeatureMap c K) → Fin c → ℕ → ℕ → K
  | lh :: hl :: hh :: rest => fun ch t u =>
      let i := (t + 1) / 2
      let j := (u + 1) / 2
      (Qᵀ * !![reconstruct Q rest ch i j, hl.px ch i j; lh.px ch i j, hh.px ch i j] * Q)
        (Fin.ofNat 2 (t + 1)) (Fin.ofNat 2 (u + 1))
  | last :: _ => last.px
  | [] => 0

open Matrix in
theorem reconstruct_pyramid {Q : Matrix (Fin 2) (Fin 2) K} (hQ : Q * Qᵀ = 1) (n : ℕ)
    (x : FeatureMap c K) (ch : Fin c) {t u : ℕ} (ht : t < x.h) (hu : u < x.w) :
    reconstruct Q (pyramid Q n x) ch t u = x.px ch t u := by
  induction n generalizing x t u with
  | zero => rfl
  | succ n ih =>
      have hlow : reconstruct Q (pyramid Q n (band Q x 0 0)) ch ((t + 1) / 2) ((u + 1) / 2)
          = (band Q x 0 0).px ch ((t + 1) / 2) ((u + 1) / 2) := by
        refine ih (band Q x 0 0) ?_ ?_
        · show (t + 1) / 2 < x.h / 2 + 1
          omega
        · show (u + 1) / 2 < x.w / 2 + 1
          omega
      refine synthesis hQ x ch ht hu fun r s => ?_
      match r, s with
      | 0, 0 => exact hlow
      | 0, 1 => rfl
      | 1, 0 => rfl
      | 1, 1 => rfl

/-! ### The decomposition -/

/-- For images of every size, the subbands have the sizes of their levels and share the energy of
each channel. -/
theorem waveletDecompose_energy {wavelet : Wavelet K} (hwav : TwoTaps wavelet)
    {channel reduction : ℕ} (level : ℕ) (fc1 : Fin (max (channel / reduction) 8) → ℕ → K)
    (fc2 : Fin channel → Fin (max (channel / reduction) 8) → K) (hc : 0 < c)
    {x : FeatureMap c K} (hh : 0 < x.h) (hw : 0 < x.w) :
    Returns (waveletDecompose (WaveletFrequencyAttention.init wavelet level fc1 fc2) x)
      fun subbands => subbands.length = 3 * level + 1 ∧
        (∀ k sb, subbands[k]? = some sb → sb.h = sizeAfter (min (k / 3 + 1) level) x.h ∧
          sb.w = sizeAfter (min (k / 3 + 1) level) x.w) ∧
        ∀ ch, (subbands.map fun sb => energy sb ch).sum = energy x ch :=
  ⟨_, waveletDecompose_eq hwav level fc1 fc2 hc hh hw, length_pyramid _ level x,
    fun _ _ hsb => size_pyramid _ hsb, energy_pyramid hwav.orthonormal level x⟩

/-- Three rows of two pixels. -/
def stairs : FeatureMap 1 ℝ := ⟨3, 2, fun _ i j => i + 2 * j⟩

/-- Two levels for images of one channel. -/
noncomputable def haarLayer : WaveletFrequencyAttention 1 8 ℝ :=
  @WaveletFrequencyAttention.init ℝ _ 1 16 haar 2 (fun _ _ => 1) fun _ _ => 1

theorem waveletDecompose_energy_stairs :
    Returns (waveletDecompose haarLayer stairs) fun subbands => subbands.length = 7 ∧
      ∀ ch, (subbands.map fun sb => energy sb ch).sum = energy stairs ch :=
  (waveletDecompose_energy twoTaps_haar 2 _ _ Nat.one_pos (Nat.succ_pos 2) (Nat.succ_pos 1)).imp
    fun _ ⟨hlen, _, henergy⟩ => ⟨hlen, henergy⟩

/-- The image can be read back from its subbands. -/
theorem reconstruct_waveletDecompose {wavelet : Wavelet K} (hwav : TwoTaps wavelet)
    {channel reduction : ℕ} (level : ℕ) (fc1 : Fin (max (channel / reduction) 8) → ℕ → K)
    (fc2 : Fin channel → Fin (max (channel / reduction) 8) → K) (hc : 0 < c)
    {x : FeatureMap c K} (hh : 0 < x.h) (hw : 0 < x.w) :
    Returns (waveletDecompose (WaveletFrequencyAttention.init wavelet level fc1 fc2) x)
      fun subbands => ∀ ch t u, t < x.h → u < x.w →
        reconstruct (taps wavelet) subbands ch t u = x.px ch t u :=
  ⟨_, waveletDecompose_eq hwav level fc1 fc2 hc hh hw, fun ch _ _ ht hu =>
    reconstruct_pyramid hwav.orthonormal level x ch ht hu⟩

theorem reconstruct_waveletDecompose_stairs :
    Returns (waveletDecompose haarLayer stairs) fun subbands =>
      reconstruct (taps haar) subbands 0 2 1 = 4 := by
  refine (reconstruct_waveletDecompose twoTaps_haar 2 _ _ Nat.one_pos (Nat.succ_pos 2)
    (Nat.succ_pos 1)).imp fun subbands hback => ?_
  rw [hback 0 2 1 (Nat.lt_succ_self 2) (Nat.lt_succ_self 1)]
  show ((2 : ℕ) : ℝ) + 2 * ((1 : ℕ) : ℝ) = 4
  norm_num

end W2Net.Proofs.WtVis
