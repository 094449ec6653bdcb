import W2Net.Models.Heads

/-!
# `W2Net.Proofs.Models.HeadRows`: the rows of the heads

A head turns the channels of a feature into rows: the row of the cell `(y, x)`
and the anchor `a` is `(y * w + x) * A + a`, and its entry `c` is the channel
`a * C + c` at this cell (`RowsOf`). The two heads take different steps to get
there, a second `reshape` in one of them, with the same result.
-/

set_option autoImplicit false

namespace W2Net.Proofs.HeadRows

open W2Net.Layers W2Net.Heads

variable {α : Type} (E : Entries α) (name : String) {x : Tensor α} {n h w A C : ℕ}

/-- `rows` lists the channels of `maps`, cell after cell and in a cell anchor
after anchor. -/
structure RowsOf (n A C h w : ℕ) (maps rows : Tensor α) : Prop where
  shape : rows.shape = [n, h * w * A, C]
  get : ∀ b y x a c, b < n → y < h → x < w → a < A → c < C →
    rows.get [b, (y * w + x) * A + a, c] = maps.get [b, a * C + c, y, x]

/-- The channel of an anchor and an entry. -/
theorem channel_lt {a c : ℕ} (ha : a < A) (hc : c < C) : a * C + c < A * C :=
  calc a * C + c < a * C + C := Nat.add_lt_add_left hc _
    _ = (a + 1) * C := (Nat.succ_mul a C).symm
    _ ≤ A * C := Nat.mul_le_mul_right C ha

/-- The channels in the last dimension, read as rows of `C` entries. -/
theorem rowsOf_of_channels_last {maps last : Tensor α} (hshape : last.shape = [n, h, w, A * C])
    (hget : ∀ b y x k, b < n → y < h → x < w → k < A * C →
      last.get [b, y, x, k] = maps.get [b, k, y, x]) :
    RowsOf n A C h w maps ⟨[n, h * w * A, C], last.data⟩ where
  shape := rfl
  get b y x a c hb hy hx ha hc := by
    rw [← hget b y x (a * C + c) hb hy hx (channel_lt ha hc)]
    refine Tensor.reshape_get ?_
    rw [hshape]
    simp only [ravel, List.prod_cons, List.prod_nil]
    ring

/-- The number of entries does not change. -/
theorem prod_channels_last (n A C h w : ℕ) : [n, h, w, A * C].prod = n * (h * w * A) * C := by
  simp only [List.prod_cons, List.prod_nil]
  ring

section
variable (hn : 0 < n) (hh : 0 < h) (hw : 0 < w)
include hh hw

/-- The convolutions keep the size. Induction on their number. -/
theorem convs_returns (inChannels featChannels i k : ℕ)
    (hx : HasShape [n, if i = 0 then inChannels else featChannels, h, w] x) :
    Returns (convs E name inChannels featChannels i k x)
      (HasShape [n, if i + k = 0 then inChannels else featChannels, h, w]) := by
  induction k generalizing i x with
  | zero => exact Returns.ok hx
  | succ k ih =>
      refine (Conv2d.returns_same E _ ⟨if i = 0 then inChannels else featChannels, featChannels,
        3, 1, 1⟩ rfl rfl hx hh hw).bind fun y hy => ?_
      have h := ih (i + 1) (x := pointwise E (name ++ ".convs." ++ toString (2 * i + 1)) y) (by
        rw [if_neg (Nat.succ_ne_zero i)]
        exact hy.pointwise E _)
      rwa [Nat.add_right_comm] at h

/-- A stack of at least one convolution. -/
theorem stack_returns (inChannels featChannels k : ℕ) (hk : 1 ≤ k)
    (hx : HasShape [n, inChannels, h, w] x) :
    Returns (convs E name inChannels featChannels 0 k x) (HasShape [n, featChannels, h, w]) := by
  have h := convs_returns E name hh hw inChannels featChannels 0 k hx
  rwa [if_neg (by omega)] at h

include hn

/-- `CLSHead.forward` returns the rows of its maps. -/
theorem clsHead_returns (head : CLSHead) (hC : 0 < head.numClasses)
    (hx : HasShape [n, head.inChannels, h, w] x) :
    Returns (head.forward E name x) fun rows => ∃ maps, head.maps E name x = .ok maps ∧
      HasShape [n, head.numAnchors * head.numClasses, h, w] maps ∧
      RowsOf n head.numAnchors head.numClasses h w maps rows := by
  have hmaps : Returns (head.maps E name x)
      (HasShape [n, head.numAnchors * head.numClasses, h, w]) := by
    refine (stack_returns E name hh hw _ head.featChannels _ head.stacked hx).bind
      fun y hy => ?_
    exact (Conv2d.returns_same E _ ⟨head.featChannels, head.numAnchors * head.numClasses, 3, 1, 1⟩
      rfl rfl hy hh hw).bind fun z hz => Returns.ok (hz.pointwise E _)
  obtain ⟨maps, hok, hshape⟩ := hmaps
  obtain ⟨last, hlast, hls, hlg⟩ := Tensor.permute_channels_last hshape
  -- The first `reshape` only splits the last dimension.
  have hsplit : last.reshape [some n, some h, some w, some head.numAnchors, some head.numClasses] =
      .ok ⟨[n, h, w, head.numAnchors, head.numClasses], last.data⟩ := by
    refine Tensor.reshape_eq [n, h, w, head.numAnchors, head.numClasses] ?_
    rw [hls, prod_channels_last]
    simp only [List.prod_cons, List.prod_nil]
    ring
  have hrows : head.rows maps = .ok ⟨[n, h * w * head.numAnchors, head.numClasses], last.data⟩ := by
    unfold CLSHead.rows
    rw [hlast, ok_bind]
    simp only [hls]
    rw [hsplit, ok_bind]
    refine Tensor.reshape_rows hn hC ?_
    simp only [List.prod_cons, List.prod_nil]
    ring
  refine ⟨_, ?_, maps, hok, hshape, rowsOf_of_channels_last hls hlg⟩
  unfold CLSHead.forward
  rw [hok]
  exact hrows

/-- `REGHead.forward` returns the rows of its maps. -/
theorem regHead_returns (head : REGHead) (hC : 0 < head.numRegress)
    (hx : HasShape [n, head.inChannels, h, w] x) :
    Returns (head.forward E name x) fun rows => ∃ maps, head.maps E name x = .ok maps ∧
      HasShape [n, head.numAnchors * head.numRegress, h, w] maps ∧
      RowsOf n head.numAnchors head.numRegress h w maps rows := by
  have hmaps : Returns (head.maps E name x)
      (HasShape [n, head.numAnchors * head.numRegress, h, w]) := by
    refine (stack_returns E name hh hw _ head.featChannels _ head.stacked hx).bind
      fun y hy => ?_
    exact Conv2d.returns_same E _ ⟨head.featChannels, head.numAnchors * head.numRegress, 3, 1, 1⟩
      rfl rfl hy hh hw
  obtain ⟨maps, hok, hshape⟩ := hmaps
  -- Channels last, and then one row for each anchor of each cell.
  obtain ⟨last, hlast, hls, hlg⟩ := Tensor.permute_channels_last hshape
  have hrows : head.rows maps = .ok ⟨[n, h * w * head.numAnchors, head.numRegress], last.data⟩ := by
    unfold REGHead.rows
    rw [hlast]
    show last.reshape [some (last.shape.getD 0 0), none, some head.numRegress] = _
    rw [hls]
    show last.reshape [some n, none, some head.numRegress] = _
    exact Tensor.reshape_rows hn hC (by rw [hls, prod_channels_last])
  refine ⟨_, ?_, maps, hok, hshape, rowsOf_of_channels_last hls hlg⟩
  unfold REGHead.forward
  rw [hok]
  exact hrows

end

end W2Net.Proofs.HeadRows
