import Mathlib.Tactic.Ring
import W2Net.Lib.Python
import W2Net.Lib.RowMajor

/-!
# `W2Net.Lib.Tensor`: tensors and the operations that move their entries

A `Tensor` is a shape with its entries in row-major order. `reshape` (also
`view` on a contiguous tensor) keeps the entries and changes the shape; `permute`
and `cat` move entries. `get` reads an entry by its index.

* `reshape_eq`, `reshape_rows`, `reshape_get`: `reshape` returns when the number
  of entries fits, and an entry is the one at the same position.
* `permute_swap_last`, `permute_channels_last`: the entries after `permute(0, 2, 1)` and after
  `permute(0, 2, 3, 1)`.
* `cat_rows`: the entries of a concatenation along dimension 1 of tensors with
  three dimensions. `cat_channels`, `cat_features`: the shape with four dimensions.

A dimension `none` of `reshape` is the `-1` of the source. An operation that
does not fit the shapes raises `RuntimeError`.
-/

set_option autoImplicit false

namespace W2Net

/-- A shape, and the entries in row-major order. The entries from the product of
the shape on are not part of the tensor. -/
structure Tensor (α : Type) where
  shape : List ℕ
  data : ℕ → α

namespace Tensor

variable {α : Type}

/-- The entry at an index. -/
def get (t : Tensor α) (idx : List ℕ) : α := t.data (ravel t.shape idx)

/-- The dimensions of `reshape`, with at most one `-1`, for a number of entries.
The unknown dimension needs a nonzero product of the others that divides the
number of entries. -/
def inferDims (total : ℕ) (dims : List (Option ℕ)) : PyM (List ℕ) :=
  let known := (dims.filterMap id).prod
  match dims.count none with
  | 0 => if known = total then .ok (dims.filterMap id) else .error .runtimeError
  | 1 =>
      if known = 0 then .error .runtimeError
      else if total % known = 0 then .ok (dims.map fun d => d.getD (total / known))
      else .error .runtimeError
  | _ => .error .runtimeError

/-- `t.reshape(dims)`. -/
def reshape (t : Tensor α) (dims : List (Option ℕ)) : PyM (Tensor α) := do
  let shape ← inferDims t.shape.prod dims
  .ok ⟨shape, t.data⟩

/-- `t.permute(dims)`: dimension `j` of the result is dimension `dims[j]` of `t`. -/
def permute (t : Tensor α) (dims : List ℕ) : PyM (Tensor α) :=
  if dims.Perm (List.range t.shape.length) then
    let shape := dims.map fun d => t.shape.getD d 0
    .ok
      { shape := shape
        data := fun k =>
          let idx := unravel shape k
          t.get ((List.range t.shape.length).map fun d => idx.getD (dims.idxOf d) 0) }
  else .error .runtimeError

/-- `torch.cat(ts, dim)`: the shapes agree outside of `dim`. -/
def cat (dim : ℕ) : List (Tensor α) → PyM (Tensor α)
  | [] => .error .runtimeError
  | t :: ts =>
      if dim < t.shape.length ∧ ∀ t' ∈ ts, t'.shape.set dim 0 = t.shape.set dim 0 then
        let sizes := (t :: ts).map fun t' => t'.shape.getD dim 0
        let shape := t.shape.set dim sizes.sum
        .ok
          { shape := shape
            data := fun k =>
              let idx := unravel shape k
              let p := locate sizes (idx.getD dim 0)
              ((t :: ts).getD p.1 t).get (idx.set dim p.2) }
      else .error .runtimeError

/-! ### Entries -/

/-- `reshape` with all dimensions given. -/
theorem reshape_eq {t : Tensor α} (shape : List ℕ) (h : t.shape.prod = shape.prod) :
    t.reshape (shape.map some) = .ok ⟨shape, t.data⟩ := by
  have hcount : (shape.map some).count none = 0 := by
    refine List.count_eq_zero.mpr fun hmem => ?_
    obtain ⟨d, -, hd⟩ := List.mem_map.mp hmem
    cases hd
  have hknown : (shape.map some).filterMap id = shape := by
    rw [List.filterMap_map]
    exact List.filterMap_some
  unfold reshape inferDims
  rw [hcount, hknown]
  show (if shape.prod = t.shape.prod then _ else _) >>= _ = _
  rw [if_pos h.symm]
  rfl

/-- `reshape(n, -1, c)`. -/
theorem reshape_rows {t : Tensor α} {n r c : ℕ} (hn : 0 < n) (hc : 0 < c)
    (h : t.shape.prod = n * r * c) : t.reshape [some n, none, some c] = .ok ⟨[n, r, c], t.data⟩ := by
  have hknown : ([some n, none, some c].filterMap id).prod = n * c := by
    show n * (c * 1) = n * c
    rw [Nat.mul_one]
  have hpos : n * c ≠ 0 := (Nat.mul_pos hn hc).ne'
  have htotal : t.shape.prod = n * c * r := by
    rw [h]
    ring
  unfold reshape inferDims
  rw [hknown, htotal]
  show (if n * c = 0 then _ else if n * c * r % (n * c) = 0 then _ else _) >>= _ = _
  rw [if_neg hpos, if_pos (Nat.mul_mod_right (n * c) r)]
  show Except.ok (⟨[n, n * c * r / (n * c), c], t.data⟩ : Tensor α) = _
  rw [Nat.mul_div_cancel_left r (Nat.pos_of_ne_zero hpos)]

/-- A tensor with the same entries under another shape. -/
theorem reshape_get {t : Tensor α} {shape idx idx' : List ℕ}
    (h : ravel shape idx = ravel t.shape idx') :
    (⟨shape, t.data⟩ : Tensor α).get idx = t.get idx' :=
  congrArg t.data h

/-- An entry of a permuted tensor is the entry at the index put back in order. -/
theorem permute_returns {t : Tensor α} {dims : List ℕ}
    (hperm : dims.Perm (List.range t.shape.length)) :
    Returns (t.permute dims) fun t' => t'.shape = dims.map (fun d => t.shape.getD d 0) ∧
      ∀ idx, InBounds idx t'.shape → t'.get idx =
        t.get ((List.range t.shape.length).map fun d => idx.getD (dims.idxOf d) 0) := by
  unfold permute
  rw [if_pos hperm]
  refine ⟨_, rfl, rfl, fun idx hin => ?_⟩
  show t.get ((List.range t.shape.length).map fun d =>
    (unravel _ (ravel (dims.map fun d => t.shape.getD d 0) idx)).getD (dims.idxOf d) 0) = _
  rw [unravel_ravel hin]

/-- `permute(0, 2, 1)` swaps the last two dimensions. -/
theorem permute_swap_last {t : Tensor α} {n r c : ℕ} (hshape : t.shape = [n, r, c]) :
    Returns (t.permute [0, 2, 1]) fun t' => t'.shape = [n, c, r] ∧
      ∀ b y k, b < n → y < c → k < r → t'.get [b, y, k] = t.get [b, k, y] := by
  have hperm : [0, 2, 1].Perm (List.range t.shape.length) := by
    rw [hshape]
    show [0, 2, 1].Perm (List.range 3)
    decide
  refine (permute_returns hperm).imp fun t' ⟨hout, hget⟩ => ?_
  rw [hshape] at hout hget
  refine ⟨hout, fun b y k hb hy hk => ?_⟩
  have hin : InBounds [b, y, k] [n, c, r] := .cons hb (.cons hy (.cons hk .nil))
  exact hget [b, y, k] (hout ▸ hin)

/-- `permute(0, 2, 3, 1)` moves the channels to the end. -/
theorem permute_channels_last {t : Tensor α} {n c h w : ℕ} (hshape : t.shape = [n, c, h, w]) :
    Returns (t.permute [0, 2, 3, 1]) fun t' => t'.shape = [n, h, w, c] ∧
      ∀ b y x k, b < n → y < h → x < w → k < c → t'.get [b, y, x, k] = t.get [b, k, y, x] := by
  have hperm : [0, 2, 3, 1].Perm (List.range t.shape.length) := by
    rw [hshape]
    show [0, 2, 3, 1].Perm (List.range 4)
    decide
  refine (permute_returns hperm).imp fun t' ⟨hout, hget⟩ => ?_
  rw [hshape] at hout hget
  refine ⟨hout, fun b y x k hb hy hx hk => ?_⟩
  have hin : InBounds [b, y, x, k] [n, h, w, c] :=
    .cons hb (.cons hy (.cons hx (.cons hk .nil)))
  exact hget [b, y, x, k] (hout ▸ hin)

/-- A concatenation along dimension 1 of tensors with three dimensions: the
length is the sum of the lengths, and the rows of a piece start at its offset. -/
theorem cat_rows {n c : ℕ} {ts : List (Tensor α)} {sizes : List ℕ} (hne : ts ≠ [])
    (hshapes : ts.map Tensor.shape = sizes.map fun s => [n, s, c]) :
    Returns (cat 1 ts) fun out => out.shape = [n, sizes.sum, c] ∧
      ∀ i j b k t s, ts[i]? = some t → sizes[i]? = some s → b < n → j < s → k < c →
        out.get [b, offset sizes i + j, k] = t.get [b, j, k] := by
  cases ts with
  | nil => exact absurd rfl hne
  | cons t₀ ts =>
      cases sizes with
      | nil => cases hshapes
      | cons s₀ ss =>
          -- The sizes that `cat` reads.
          have hsizes : ((t₀ :: ts).map fun t => t.shape.getD 1 0) = s₀ :: ss := by
            have h := congrArg (List.map fun shape : List ℕ => shape.getD 1 0) hshapes
            rw [List.map_map, List.map_map] at h
            refine h.trans ?_
            show List.map (fun s : ℕ => s) (s₀ :: ss) = s₀ :: ss
            exact List.map_id _
          have hmem : ∀ t ∈ t₀ :: ts, ∃ s, t.shape = [n, s, c] := by
            intro t ht
            have hshape : t.shape ∈ (s₀ :: ss).map fun s => [n, s, c] := by
              rw [← hshapes]
              exact List.mem_map_of_mem ht
            obtain ⟨s, -, hs⟩ := List.mem_map.mp hshape
            exact ⟨s, hs.symm⟩
          have hfirst : t₀.shape = [n, s₀, c] := (List.cons.inj hshapes).1
          have hagree : 1 < t₀.shape.length ∧
              ∀ t ∈ ts, t.shape.set 1 0 = t₀.shape.set 1 0 := by
            rw [hfirst]
            refine ⟨Nat.lt_add_left 1 (Nat.lt_succ_self 1), fun t ht => ?_⟩
            obtain ⟨s, hs⟩ := hmem t (List.mem_cons_of_mem _ ht)
            rw [hs]
            rfl
          have hout : t₀.shape.set 1 (s₀ :: ss).sum = [n, (s₀ :: ss).sum, c] := by
            rw [hfirst]
            rfl
          simp only [cat]
          rw [if_pos hagree, hsizes]
          refine ⟨_, rfl, hout, fun i j b k t s hi hs hb hj hk => ?_⟩
          have hin : InBounds [b, offset (s₀ :: ss) i + j, k] [n, (s₀ :: ss).sum, c] :=
            .cons hb (.cons (offset_add_lt hs hj) (.cons hk .nil))
          unfold get
          simp only [hout]
          rw [unravel_ravel hin]
          show (((t₀ :: ts).getD (locate (s₀ :: ss) (offset (s₀ :: ss) i + j)).1 t₀).get
            [b, (locate (s₀ :: ss) (offset (s₀ :: ss) i + j)).2, k]) = _
          rw [locate_offset_add hs hj, List.getD_eq_getElem?_getD, hi]
          rfl

/-- A concatenation along dimension 1 of tensors of one shape. -/
theorem cat_channels {n c h w : ℕ} (ts : List (Tensor α)) (hne : ts ≠ [])
    (hshapes : ∀ t ∈ ts, t.shape = [n, c, h, w]) :
    Returns (cat 1 ts) fun out => out.shape = [n, c * ts.length, h, w] := by
  cases ts with
  | nil => exact absurd rfl hne
  | cons t ts =>
      have ht : t.shape = [n, c, h, w] := hshapes t List.mem_cons_self
      have hagree : 1 < t.shape.length ∧ ∀ t' ∈ ts, t'.shape.set 1 0 = t.shape.set 1 0 := by
        refine ⟨by rw [ht]; exact Nat.lt_add_left 2 (Nat.lt_succ_self 1), fun t' ht' => ?_⟩
        rw [hshapes t' (List.mem_cons_of_mem t ht'), ht]
      -- Every tensor adds the same number of channels.
      have hsizes : ((t :: ts).map fun t' => t'.shape.getD 1 0) =
          List.replicate (t :: ts).length c := by
        refine List.eq_replicate_iff.mpr ⟨List.length_map _, fun s hs => ?_⟩
        obtain ⟨t', ht', rfl⟩ := List.mem_map.mp hs
        rw [hshapes t' ht']
        rfl
      simp only [cat]
      rw [if_pos hagree, hsizes]
      refine ⟨_, rfl, ?_⟩
      rw [ht, List.sum_replicate_nat, Nat.mul_comm]
      rfl

/-- A concatenation along dimension 1 of tensors whose channels are `sizes`. -/
theorem cat_features {n h w : ℕ} {ts : List (Tensor α)} {sizes : List ℕ} (hne : ts ≠ [])
    (hshapes : ts.map Tensor.shape = sizes.map fun c => [n, c, h, w]) :
    Returns (cat 1 ts) fun out => out.shape = [n, sizes.sum, h, w] := by
  cases ts with
  | nil => exact absurd rfl hne
  | cons t ts =>
      -- The sizes that `cat` reads.
      have hsizes : ((t :: ts).map fun t' => t'.shape.getD 1 0) = sizes := by
        have h := congrArg (List.map fun shape : List ℕ => shape.getD 1 0) hshapes
        rw [List.map_map, List.map_map] at h
        exact h.trans (List.map_id sizes)
      have hmem : ∀ t' ∈ t :: ts, ∃ c, t'.shape = [n, c, h, w] := by
        intro t' ht'
        have hshape : t'.shape ∈ sizes.map fun c => [n, c, h, w] := by
          rw [← hshapes]
          exact List.mem_map_of_mem ht'
        obtain ⟨c, -, hc⟩ := List.mem_map.mp hshape
        exact ⟨c, hc.symm⟩
      obtain ⟨c, ht⟩ := hmem t List.mem_cons_self
      have hagree : 1 < t.shape.length ∧ ∀ t' ∈ ts, t'.shape.set 1 0 = t.shape.set 1 0 := by
        refine ⟨by rw [ht]; exact Nat.lt_add_left 2 (Nat.lt_succ_self 1), fun t' ht' => ?_⟩
        obtain ⟨c', hc'⟩ := hmem t' (List.mem_cons_of_mem t ht')
        rw [hc', ht]
        rfl
      simp only [cat]
      rw [if_pos hagree, hsizes]
      refine ⟨_, rfl, ?_⟩
      rw [ht]
      rfl

end Tensor

end W2Net
