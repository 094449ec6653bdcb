import W2Net.Lib.Dct
import W2Net.Models.FreqAttention
import W2Net.Proofs.Utils.ScaledLabels

/-!
# `W2Net.Proofs.Models.FreqAttention`: what the attention of the backbone sees

`get_dct_filter` writes the filters block by block; a channel keeps the filter of its block
(`getDctFilter_apply`). Over the real numbers a filter is a product of two basis vectors of the
cosine transform. The frequencies of a method are different pairs, and scaled by a seventh of the
size they stay below it. So the filters of different blocks are orthonormal
(`dctLayer_orthonormal`).

A filter has a sum only when both its frequencies are 0, which is the first block of `top` and
`low`. `pooled_brighter` takes this through the pooling: only this block sees the brightness of a
feature map of any size.
-/

set_option autoImplicit false

namespace W2Net.Proofs.FreqAttention

open W2Net.FcaNet
open W2Net.Proofs.ScaledLabels (realMath)

/-! ### The frequencies of a method -/

/-- The pairs of frequencies of a method, before they are scaled. -/
def freqPairs (sel : FreqSel) : List (ℕ × ℕ) :=
  (sel.order.indicesX.zip sel.order.indicesY).take sel.numFreq

theorem numFreq_pos (sel : FreqSel) : 0 < sel.numFreq := by
  have h := sel.valid
  simp at h
  omega

theorem numFreq_le (sel : FreqSel) : sel.numFreq ≤ 32 := by
  have h := sel.valid
  simp at h
  omega

theorem length_indices (order : FreqOrder) :
    order.indicesX.length = 32 ∧ order.indicesY.length = 32 := by
  cases order <;> exact ⟨rfl, rfl⟩

theorem length_freqPairs (sel : FreqSel) : (freqPairs sel).length = sel.numFreq := by
  have hlen := length_indices sel.order
  rw [freqPairs, List.length_take, List.length_zip, hlen.1, hlen.2, min_self,
    min_eq_left (numFreq_le sel)]

/-- No pair is taken twice. -/
theorem nodup_freqPairs (sel : FreqSel) : (freqPairs sel).Nodup := by
  have hall : (sel.order.indicesX.zip sel.order.indicesY).Nodup := by
    cases sel.order <;> decide +kernel
  exact hall.sublist (List.take_sublist _ _)

theorem freqPairs_le (sel : FreqSel) {p : ℕ × ℕ} (hp : p ∈ freqPairs sel) : p.1 ≤ 6 ∧ p.2 ≤ 6 := by
  have hall : ∀ q ∈ sel.order.indicesX.zip sel.order.indicesY, q.1 ≤ 6 ∧ q.2 ≤ 6 := by
    cases sel.order <;> decide +kernel
  exact hall p (List.mem_of_mem_take hp)

/-- The pair of zeros is the first one of `top` and `low`, and none of `bot`. -/
theorem freqPairs_eq_zero_iff (sel : FreqSel) {i : ℕ} (hi : i < (freqPairs sel).length) :
    (freqPairs sel)[i] = (0, 0) ↔ sel.order ≠ .bot ∧ i = 0 := by
  have hlen := length_indices sel.order
  have hzero : ∀ j : Fin 32, (sel.order.indicesX.zip sel.order.indicesY)[j.val]? = some (0, 0) ↔
      sel.order ≠ .bot ∧ j = 0 := by
    cases sel.order <;> decide +kernel
  have hi32 : i < 32 := by
    rw [length_freqPairs] at hi
    exact hi.trans_le (numFreq_le sel)
  have hget : (sel.order.indicesX.zip sel.order.indicesY)[i]? = some (freqPairs sel)[i] := by
    rw [List.getElem?_eq_getElem (by rw [List.length_zip, hlen.1, hlen.2]; exact hi32)]
    simp only [freqPairs, List.getElem_take]
  have h := hzero ⟨i, hi32⟩
  rw [hget, Option.some_inj, Fin.ext_iff] at h
  exact h

/-! ### The blocks of channels -/

section
variable {channel : ℕ} (value : ℕ × ℕ → ℕ → ℕ → ℝ) (cPart : ℕ)

/-- The assignments of `get_dct_filter` to the blocks from `start` on. -/
def fillBlocks (start : ℕ) (freqs : List (ℕ × ℕ)) (dctFilter : Fin channel → ℕ → ℕ → ℝ) :
    Fin channel → ℕ → ℕ → ℝ :=
  (freqs.zipIdx start).foldl
    (fun dctFilter freq =>
      fillChannels (freq.2 * cPart) ((freq.2 + 1) * cPart) (value freq.1) dctFilter) dctFilter

theorem fillBlocks_cons (start : ℕ) (freq : ℕ × ℕ) (freqs : List (ℕ × ℕ))
    (dctFilter : Fin channel → ℕ → ℕ → ℝ) :
    fillBlocks value cPart start (freq :: freqs) dctFilter
      = fillBlocks value cPart (start + 1) freqs
          (fillChannels (start * cPart) ((start + 1) * cPart) (value freq) dctFilter) := rfl

/-- The channels in front of the blocks are left alone. -/
theorem fillBlocks_of_lt (start : ℕ) (freqs : List (ℕ × ℕ)) (dctFilter : Fin channel → ℕ → ℕ → ℝ)
    {c : Fin channel} (hc : c.val < start * cPart) :
    fillBlocks value cPart start freqs dctFilter c = dctFilter c := by
  induction freqs generalizing start dctFilter with
  | nil => rfl
  | cons freq freqs ih =>
      have hnext : c.val < (start + 1) * cPart :=
        hc.trans_le (Nat.mul_le_mul_right cPart (Nat.le_succ start))
      rw [fillBlocks_cons, ih _ _ hnext, fillChannels]
      exact if_neg fun h => absurd h.1 (Nat.not_le.mpr hc)

/-- A channel keeps what is written to its block. -/
theorem fillBlocks_apply (start : ℕ) (freqs : List (ℕ × ℕ)) (dctFilter : Fin channel → ℕ → ℕ → ℝ)
    {c : Fin channel} {i : ℕ} (hi : i < freqs.length) (hlow : (start + i) * cPart ≤ c.val)
    (hhigh : c.val < (start + i + 1) * cPart) :
    fillBlocks value cPart start freqs dctFilter c = value freqs[i] := by
  induction freqs generalizing start dctFilter i with
  | nil => exact absurd hi (Nat.not_lt_zero i)
  | cons freq freqs ih =>
      rw [fillBlocks_cons]
      cases i with
      | zero =>
          -- The later blocks are behind this one.
          rw [fillBlocks_of_lt value cPart _ _ _ hhigh, fillChannels]
          exact if_pos ⟨hlow, hhigh⟩
      | succ i =>
          have hshift : start + 1 + i = start + (i + 1) := by omega
          exact ih (start + 1) _ (Nat.lt_of_succ_lt_succ hi) (by rw [hshift]; exact hlow)
            (by rw [hshift]; exact hhigh)

end

/-! ### The filters of a layer -/

section
variable {channel : ℕ} (sel : FreqSel)

/-- The block of a channel. -/
def block (c : Fin channel) : ℕ := c.val / (channel / sel.numFreq)

variable {sel}

/-- A layer with a channel has channels in every block. -/
theorem part_pos (hdvd : sel.numFreq ∣ channel) (c : Fin channel) : 0 < channel / sel.numFreq :=
  Nat.div_pos (Nat.le_of_dvd (Fin.pos c) hdvd) (numFreq_pos sel)

theorem block_lt (hdvd : sel.numFreq ∣ channel) (c : Fin channel) :
    block sel c < (freqPairs sel).length := by
  rw [length_freqPairs, block]
  refine Nat.div_lt_of_lt_mul ?_
  rw [Nat.div_mul_cancel hdvd]
  exact c.isLt

/-- The pair of frequencies of a channel. -/
def pairOf (hdvd : sel.numFreq ∣ channel) (c : Fin channel) : ℕ × ℕ :=
  (freqPairs sel).get ⟨block sel c, block_lt hdvd c⟩

theorem pairOf_inj (hdvd : sel.numFreq ∣ channel) (c c' : Fin channel) :
    pairOf hdvd c = pairOf hdvd c' ↔ block sel c = block sel c' := by
  rw [pairOf, pairOf, (List.nodup_iff_injective_get.mp (nodup_freqPairs sel)).eq_iff, Fin.mk.injEq]

theorem pairOf_le (hdvd : sel.numFreq ∣ channel) (c : Fin channel) :
    (pairOf hdvd c).1 ≤ 6 ∧ (pairOf hdvd c).2 ≤ 6 := freqPairs_le sel (List.get_mem _ _)

/-- The channels whose pair is (0, 0) are the first block of `top` and `low`. -/
theorem pairOf_eq_zero_iff (hdvd : sel.numFreq ∣ channel) (c : Fin channel) :
    pairOf hdvd c = (0, 0) ↔ sel.order ≠ .bot ∧ c.val < channel / sel.numFreq := by
  rw [pairOf, List.get_eq_getElem, freqPairs_eq_zero_iff]
  show _ ∧ c.val / (channel / sel.numFreq) = 0 ↔ _
  rw [Nat.div_eq_zero_iff, or_iff_right (part_pos hdvd c).ne']

/-- `mapper_x` and `mapper_y` behind the scaling. -/
def mapperX (sel : FreqSel) (dctH : ℕ) : List ℕ :=
  (getFreqIndices sel).1.map fun tempX => tempX * (dctH / 7)

def mapperY (sel : FreqSel) (dctW : ℕ) : List ℕ :=
  (getFreqIndices sel).2.map fun tempY => tempY * (dctW / 7)

theorem length_mappers (sel : FreqSel) (dctH dctW : ℕ) :
    (mapperX sel dctH).length = sel.numFreq ∧ (mapperY sel dctW).length = sel.numFreq := by
  have hlen := length_indices sel.order
  have hle := min_eq_left (numFreq_le sel)
  rw [mapperX, mapperY, List.length_map, List.length_map, getFreqIndices, List.length_take,
    List.length_take, hlen.1, hlen.2, hle]
  exact ⟨rfl, rfl⟩

theorem zip_mappers (dctH dctW : ℕ) :
    (mapperX sel dctH).zip (mapperY sel dctW)
      = (freqPairs sel).map fun p => (p.1 * (dctH / 7), p.2 * (dctW / 7)) := by
  rw [mapperX, mapperY, List.zip_map, getFreqIndices, freqPairs, List.zip, List.take_zipWith]
  rfl

/-- A channel has the filter of its block. -/
theorem getDctFilter_apply (hdvd : sel.numFreq ∣ channel) (dctH dctW : ℕ) (c : Fin channel) :
    getDctFilter realMath dctH dctW (mapperX sel dctH) (mapperY sel dctW) channel c
      = dct2 dctH dctW ((pairOf hdvd c).1 * (dctH / 7)) ((pairOf hdvd c).2 * (dctW / 7)) := by
  have hi : block sel c < ((freqPairs sel).map fun p =>
      (p.1 * (dctH / 7), p.2 * (dctW / 7))).length := by
    rw [List.length_map]
    exact block_lt hdvd c
  have hhigh : c.val < (block sel c + 1) * (channel / sel.numFreq) := by
    rw [mul_comm]
    exact Nat.lt_mul_div_succ c.val (part_pos hdvd c)
  have hfill := fillBlocks_apply
    (fun freq tX tY => buildFilter realMath tX freq.1 dctH * buildFilter realMath tY freq.2 dctW)
    (channel / sel.numFreq) 0 _ (fun _ _ _ => 0) hi
    (by rw [Nat.zero_add]; exact Nat.div_mul_le_self _ _) (by rw [Nat.zero_add]; exact hhigh)
  rw [getDctFilter, (length_mappers sel dctH dctW).1, zip_mappers]
  refine hfill.trans ?_
  rw [List.getElem_map]
  rfl

/-- The layer with the filters over the real numbers. -/
noncomputable def built {hidden : ℕ} (hdvd : sel.numFreq ∣ channel) (dctH dctW : ℕ)
    (fc1 : Fin hidden → Fin channel → ℝ) (fc2 : Fin channel → Fin hidden → ℝ) :
    AttentionLayer channel hidden ℝ where
  dctLayer := ⟨dctH, dctW, fun c =>
    dct2 dctH dctW ((pairOf hdvd c).1 * (dctH / 7)) ((pairOf hdvd c).2 * (dctW / 7))⟩
  fc1 := fc1
  fc2 := fc2

/-- The layer is built when the channels can be shared out evenly. -/
theorem init_eq (sel : FreqSel) {reduction : ℕ} (dctH dctW : ℕ)
    (fc1 : Fin (channel / reduction) → Fin channel → ℝ)
    (fc2 : Fin channel → Fin (channel / reduction) → ℝ) :
    (¬sel.numFreq ∣ channel →
      AttentionLayer.init realMath dctH dctW sel fc1 fc2 = .error .assertionError) ∧
    ∀ hdvd : sel.numFreq ∣ channel,
      AttentionLayer.init realMath dctH dctW sel fc1 fc2
        = .ok (built hdvd dctH dctW fc1 fc2) := by
  have hbind : AttentionLayer.init realMath dctH dctW sel fc1 fc2
      = DctLayer.init realMath dctH dctW (mapperX sel dctH) (mapperY sel dctW) channel
          >>= fun dctLayer => .ok ⟨dctLayer, fc1, fc2⟩ := rfl
  obtain ⟨hx, hy⟩ := length_mappers sel dctH dctW
  have hinit : DctLayer.init realMath dctH dctW (mapperX sel dctH) (mapperY sel dctW) channel
      = if channel % sel.numFreq ≠ 0 then .error .assertionError
        else .ok ⟨dctH, dctW,
          getDctFilter realMath dctH dctW (mapperX sel dctH) (mapperY sel dctW) channel⟩ := by
    rw [DctLayer.init, if_neg (not_not.mpr (hx.trans hy.symm)),
      if_neg (by rw [hx]; exact (numFreq_pos sel).ne'), hx]
  rw [hbind, hinit]
  constructor
  · intro hdvd
    rw [if_pos fun h => hdvd (Nat.dvd_of_mod_eq_zero h)]
    rfl
  · intro hdvd
    rw [if_neg (not_not.mpr (Nat.mod_eq_zero_of_dvd hdvd)),
      funext (getDctFilter_apply hdvd dctH dctW)]
    rfl

/-! ### Orthonormal filters -/

/-- A frequency, scaled to the size, stays below it. -/
theorem scaled_lt {u size : ℕ} (hu : u ≤ 6) (hsize : 7 ≤ size) : u * (size / 7) < size := by
  have hle : u * (size / 7) ≤ 6 * (size / 7) := Nat.mul_le_mul_right _ hu
  omega

/-- The scaled pairs are different when the pairs are. -/
theorem scaled_eq_iff {dctH dctW : ℕ} (hH : 7 ≤ dctH) (hW : 7 ≤ dctW) (p q : ℕ × ℕ) :
    (p.1 * (dctH / 7), p.2 * (dctW / 7)) = (q.1 * (dctH / 7), q.2 * (dctW / 7)) ↔ p = q := by
  have hposH : 0 < dctH / 7 := by omega
  have hposW : 0 < dctW / 7 := by omega
  rw [Prod.mk.injEq, Nat.mul_left_inj hposH.ne', Nat.mul_left_inj hposW.ne', Prod.ext_iff]

/-- The filters of two channels, over all their entries. -/
theorem sum_filters_mul (hdvd : sel.numFreq ∣ channel) {dctH dctW : ℕ} (hH : 7 ≤ dctH)
    (hW : 7 ≤ dctW) (c c' : Fin channel) :
    ∑ tX ∈ Finset.range dctH, ∑ tY ∈ Finset.range dctW,
        dct2 dctH dctW ((pairOf hdvd c).1 * (dctH / 7)) ((pairOf hdvd c).2 * (dctW / 7)) tX tY
          * dct2 dctH dctW ((pairOf hdvd c').1 * (dctH / 7)) ((pairOf hdvd c').2 * (dctW / 7)) tX tY
      = if block sel c = block sel c' then 1 else 0 := by
  have hc := pairOf_le hdvd c
  have hc' := pairOf_le hdvd c'
  rw [sum_dct2_mul (scaled_lt hc.1 hH) (scaled_lt hc.2 hW) (scaled_lt hc'.1 hH)
    (scaled_lt hc'.2 hW)]
  exact if_congr ((scaled_eq_iff hH hW _ _).trans (pairOf_inj hdvd c c')) rfl rfl

/-- The attention of a block is built exactly when its channels can be shared out evenly. Then the
filters of different blocks of channels are orthonormal: on channels of different blocks, the layer
reads the coefficients of a combination of the filters back, and from any map it takes no more
energy than the map has. -/
theorem dctLayer_orthonormal {reduction : ℕ} (sel : FreqSel) {dctH dctW : ℕ} (hH : 7 ≤ dctH)
    (hW : 7 ≤ dctW) (fc1 : Fin (channel / reduction) → Fin channel → ℝ)
    (fc2 : Fin channel → Fin (channel / reduction) → ℝ) :
    (¬sel.numFreq ∣ channel →
      AttentionLayer.init realMath dctH dctW sel fc1 fc2 = .error .assertionError) ∧
    (sel.numFreq ∣ channel → ∃ layer,
      AttentionLayer.init realMath dctH dctW sel fc1 fc2 = .ok layer ∧
      (∀ c c', ∑ tX ∈ Finset.range dctH, ∑ tY ∈ Finset.range dctW,
          layer.dctLayer.weight c tX tY * layer.dctLayer.weight c' tX tY
        = if block sel c = block sel c' then 1 else 0) ∧
      ∀ (n : ℕ) (ch : Fin n → Fin channel), (Function.Injective fun i => block sel (ch i)) →
        (∀ (a : Fin n → ℝ) (i : Fin n), layer.dctLayer.forward
          (fun _ tX tY => ∑ j, a j * layer.dctLayer.weight (ch j) tX tY) (ch i) = a i) ∧
        ∀ x : ℕ → ℕ → ℝ, ∑ i, layer.dctLayer.forward (fun _ => x) (ch i) ^ 2
          ≤ ∑ tX ∈ Finset.range dctH, ∑ tY ∈ Finset.range dctW, x tX tY ^ 2) := by
  obtain ⟨herror, hok⟩ := init_eq sel dctH dctW fc1 fc2
  refine ⟨herror, fun hdvd => ⟨_, hok hdvd, sum_filters_mul hdvd hH hW, fun n ch hch => ?_⟩⟩
  -- The entries of the filters are samples on the grid.
  let e : Fin n → ℕ × ℕ → ℝ := fun i k =>
    dct2 dctH dctW ((pairOf hdvd (ch i)).1 * (dctH / 7)) ((pairOf hdvd (ch i)).2 * (dctW / 7)) k.1 k.2
  have he : OrthonormalOn (Finset.range dctH ×ˢ Finset.range dctW) e := by
    intro i j
    rw [Finset.sum_product]
    exact (sum_filters_mul hdvd hH hW (ch i) (ch j)).trans (if_congr hch.eq_iff rfl rfl)
  constructor
  · intro a i
    have hcoeff := sum_coeff he a i
    rw [Finset.sum_product] at hcoeff
    exact hcoeff
  · intro x
    have henergy := sum_sq_coeff_le he fun k => x k.1 k.2
    simp only [Finset.sum_product] at henergy
    exact henergy

end

/-- `freq_sel_method='top16'`. -/
def top16 : FreqSel := ⟨.top, 16, by decide⟩

/-- The attention of the first layer of `fcanet34`: four channels have the same filter. -/
theorem dctLayer_orthonormal_layer1 :
    ∃ layer, AttentionLayer.init realMath 56 56 top16
        (fun _ _ => 1 : Fin (64 / 16) → Fin 64 → ℝ) (fun _ _ => 1) = .ok layer ∧
      ∑ tX ∈ Finset.range 56, ∑ tY ∈ Finset.range 56,
        layer.dctLayer.weight 3 tX tY * layer.dctLayer.weight 4 tX tY = 0 := by
  obtain ⟨layer, hinit, hfilters, -⟩ :=
    (dctLayer_orthonormal top16 (show 7 ≤ 56 by norm_num) (show 7 ≤ 56 by norm_num)
      (fun _ _ => 1 : Fin (64 / 16) → Fin 64 → ℝ) (fun _ _ => 1)).2 (by decide)
  exact ⟨layer, hinit, (hfilters 3 4).trans (if_neg (by decide))⟩

/-! ### Brightness -/

section
variable {channel : ℕ} {sel : FreqSel}

/-- The rows of a window are not none of them. -/
theorem poolWindow_card_pos {size outSize i : ℕ} (hsize : 0 < size) (hi : i < outSize) :
    0 < (poolWindow size outSize i).card := by
  rw [poolWindow, Nat.card_Ico, Nat.sub_pos_iff_lt, Nat.div_lt_iff_lt_mul (by omega)]
  have hceil : (i + 1) * size ≤ ((i + 1) * size + outSize - 1) / outSize * outSize := by
    have hmod := Nat.div_add_mod ((i + 1) * size + outSize - 1) outSize
    have hlt := Nat.mod_lt ((i + 1) * size + outSize - 1) (show outSize > 0 by omega)
    rw [mul_comm outSize] at hmod
    omega
  have hstep : (i + 1) * size = i * size + size := Nat.succ_mul i size
  omega

/-- A map with a constant added to each channel. -/
noncomputable def brighter (x : FeatureMap channel ℝ) (b : Fin channel → ℝ) :
    FeatureMap channel ℝ :=
  { x with px := fun c i j => x.px c i j + b c }

/-- The pooling adds the constants to its averages. -/
theorem adaptiveAvgPool2d_brighter {x : FeatureMap channel ℝ} (hh : 0 < x.h) (hw : 0 < x.w)
    (b : Fin channel → ℝ) {outH outW i j : ℕ} (hi : i < outH) (hj : j < outW) (c : Fin channel) :
    adaptiveAvgPool2d (brighter x b) outH outW c i j = adaptiveAvgPool2d x outH outW c i j + b c := by
  have hrows : (0 : ℝ) < (poolWindow x.h outH i).card := Nat.cast_pos.mpr (poolWindow_card_pos hh hi)
  have hcols : (0 : ℝ) < (poolWindow x.w outW j).card := Nat.cast_pos.mpr (poolWindow_card_pos hw hj)
  show (∑ r ∈ poolWindow x.h outH i, ∑ k ∈ poolWindow x.w outW j, (x.px c r k + b c))
      / ((poolWindow x.h outH i).card * (poolWindow x.w outW j).card)
    = (∑ r ∈ poolWindow x.h outH i, ∑ k ∈ poolWindow x.w outW j, x.px c r k)
      / ((poolWindow x.h outH i).card * (poolWindow x.w outW j).card) + b c
  simp only [Finset.sum_add_distrib, Finset.sum_const, nsmul_eq_mul]
  field_simp

/-- The sum of a filter: only a filter of the pair (0, 0) has one. -/
theorem sum_filter (hdvd : sel.numFreq ∣ channel) {dctH dctW : ℕ} (hH : 7 ≤ dctH) (hW : 7 ≤ dctW)
    (c : Fin channel) :
    ∑ tX ∈ Finset.range dctH, ∑ tY ∈ Finset.range dctW,
        dct2 dctH dctW ((pairOf hdvd c).1 * (dctH / 7)) ((pairOf hdvd c).2 * (dctW / 7)) tX tY
      = if sel.order ≠ .bot ∧ c.val < channel / sel.numFreq then Real.sqrt dctH * Real.sqrt dctW
        else 0 := by
  have hc := pairOf_le hdvd c
  have hzero := scaled_eq_iff hH hW (pairOf hdvd c) (0, 0)
  rw [Nat.zero_mul, Nat.zero_mul, Prod.mk.injEq, pairOf_eq_zero_iff] at hzero
  rw [sum_dct2 (scaled_lt hc.1 hH) (scaled_lt hc.2 hW)]
  exact if_congr hzero rfl rfl

/-- What the filters make of a map with a constant added to each channel. -/
theorem forward_brighter {layer : DctLayer channel ℝ} {x y : Fin channel → ℕ → ℕ → ℝ}
    {b : Fin channel → ℝ}
    (h : ∀ c, ∀ i < layer.height, ∀ j < layer.width, y c i j = x c i j + b c) (c : Fin channel) :
    layer.forward y c = layer.forward x c
      + b c * ∑ tX ∈ Finset.range layer.height, ∑ tY ∈ Finset.range layer.width,
          layer.weight c tX tY := by
  rw [DctLayer.forward, DctLayer.forward, Finset.mul_sum, ← Finset.sum_add_distrib]
  refine Finset.sum_congr rfl fun i hi => ?_
  rw [Finset.mul_sum, ← Finset.sum_add_distrib]
  refine Finset.sum_congr rfl fun j hj => ?_
  rw [h c i (Finset.mem_range.mp hi) j (Finset.mem_range.mp hj), add_mul]

/-- Take a feature map of any size, and add a constant to each of its channels. In the attention of
`top` and `low`, only the channels of the first block see it, each by its constant times the square
root of the number of entries of a filter; in the one of `bot` no channel does. So constants on the
other channels change no weight of the attention. -/
theorem pooled_brighter {reduction : ℕ} (sel : FreqSel) (hdvd : sel.numFreq ∣ channel)
    {dctH dctW : ℕ} (hH : 7 ≤ dctH) (hW : 7 ≤ dctW)
    (fc1 : Fin (channel / reduction) → Fin channel → ℝ)
    (fc2 : Fin channel → Fin (channel / reduction) → ℝ) :
    ∃ layer, AttentionLayer.init realMath dctH dctW sel fc1 fc2 = .ok layer ∧
      ∀ (x : FeatureMap channel ℝ) (b : Fin channel → ℝ), 0 < x.h → 0 < x.w →
        (∀ c, layer.pooled (brighter x b) c = layer.pooled x c
          + b c * if sel.order ≠ .bot ∧ c.val < channel / sel.numFreq then
              Real.sqrt dctH * Real.sqrt dctW else 0) ∧
        ((∀ c, sel.order ≠ .bot → c.val < channel / sel.numFreq → b c = 0) →
          ∀ sigmoid c, layer.scale sigmoid (brighter x b) c = layer.scale sigmoid x c) := by
  refine ⟨built hdvd dctH dctW fc1 fc2, (init_eq sel dctH dctW fc1 fc2).2 hdvd, fun x b hh hw => ?_⟩
  have hpooled : ∀ c, (built hdvd dctH dctW fc1 fc2).pooled (brighter x b) c
      = (built hdvd dctH dctW fc1 fc2).pooled x c
          + b c * if sel.order ≠ .bot ∧ c.val < channel / sel.numFreq then
              Real.sqrt dctH * Real.sqrt dctW else 0 := by
    intro c
    rw [← sum_filter hdvd hH hW c]
    refine forward_brighter (fun c i hi j hj => ?_) c
    show (if x.h ≠ dctH ∨ x.w ≠ dctW then adaptiveAvgPool2d (brighter x b) dctH dctW
        else (brighter x b).px) c i j
      = (if x.h ≠ dctH ∨ x.w ≠ dctW then adaptiveAvgPool2d x dctH dctW else x.px) c i j + b c
    split
    · exact adaptiveAvgPool2d_brighter hh hw b hi hj c
    · rfl
  refine ⟨hpooled, fun hb sigmoid c => ?_⟩
  have hsame : (built hdvd dctH dctW fc1 fc2).pooled (brighter x b)
      = (built hdvd dctH dctW fc1 fc2).pooled x := by
    funext k
    rw [hpooled k]
    split
    · rename_i hfirst
      rw [hb k hfirst.1 hfirst.2, zero_mul, add_zero]
    · rw [mul_zero, add_zero]
  rw [AttentionLayer.scale, AttentionLayer.scale, hsame]

end

/-- A map of one pixel: the first block has four channels of the 64. -/
theorem pooled_brighter_layer1 :
    ∃ layer, AttentionLayer.init realMath 56 56 top16
        (fun _ _ => 1 : Fin (64 / 16) → Fin 64 → ℝ) (fun _ _ => 1) = .ok layer ∧
      layer.pooled (brighter ⟨1, 1, fun _ _ _ => 0⟩ fun _ => 1) 4
        = layer.pooled ⟨1, 1, fun _ _ _ => 0⟩ 4 := by
  obtain ⟨layer, hinit, hpooled⟩ :=
    pooled_brighter top16 (by decide) (show 7 ≤ 56 by norm_num) (show 7 ≤ 56 by norm_num)
      (fun _ _ => 1 : Fin (64 / 16) → Fin 64 → ℝ) (fun _ _ => 1)
  refine ⟨layer, hinit, ((hpooled ⟨1, 1, fun _ _ _ => 0⟩ (fun _ => 1) one_pos one_pos).1 4).trans ?_⟩
  rw [if_neg (by decide), mul_zero, add_zero]

end W2Net.Proofs.FreqAttention
