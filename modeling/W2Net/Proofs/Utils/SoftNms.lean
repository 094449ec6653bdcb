import Mathlib.Data.Finset.Image
import Mathlib.Data.List.Range
import Mathlib.Order.Interval.Finset.Nat
import W2Net.Lib.DecayFilter
import W2Net.Proofs.Utils.Nms
import W2Net.Proofs.Utils.OverlapRatio
import W2Net.Utils.SoftNms

/-!
# `W2Net.Proofs.Utils.SoftNms`: `cpu_soft_nms` is a selection with decaying scores

`cpu_soft_nms` exchanges rows in place and overwrites a dropped row with the last one, so its
arrays do not keep the order of the rows. `entries s i` is the list of the indices and scores
from the row `i` on. The `for` loop is a `DecayRun` on these lists (`softArrays_decayRun`):
the exchange permutes them, the inner loop applies `softDecay` to each of them in some order,
and no division raises when the boxes have positive sides.

* `cpuSoftNms_rows`: the returned rows are different rows of the input with their boxes, and
  their scores are the products of the weights, in descending order.
* `cpuSoftNms_dropped`: which rows are not returned.
* `cpuSoftNms_eq_cpuNms`: with the original suppression, the same indices as `cpu_nms`.
-/

set_option autoImplicit false

namespace W2Net.Proofs.SoftNms

open W2Net.Nms
open W2Net.Proofs.Nms
open W2Net.Proofs.OverlapRatio (TrueIntersection commonArea_lt)

/-! ### The highest score -/

section
variable {K : Type} [LinearOrder K] (boxes : ℕ → Det K)

/-- The scan keeps the position of the highest score so far. -/
theorem foldl_maxPos (l : List ℕ) (p : ℕ) :
    let best := l.foldl (fun (best : K × ℕ) pos =>
      if best.1 < (boxes pos).score then ((boxes pos).score, pos) else best) ((boxes p).score, p)
    best.1 = (boxes best.2).score ∧ best.2 ∈ p :: l ∧
      ∀ k ∈ p :: l, (boxes k).score ≤ (boxes best.2).score := by
  induction l generalizing p with
  | nil => simp
  | cons q l ih =>
      rw [List.foldl_cons]
      dsimp only
      split
      · rename_i hlt
        obtain ⟨hscore, hmem, hmax⟩ := ih q
        refine ⟨hscore, List.mem_cons_of_mem p hmem, ?_⟩
        rw [List.forall_mem_cons]
        exact ⟨hlt.le.trans (hmax q List.mem_cons_self), hmax⟩
      · rename_i hle
        obtain ⟨hscore, hmem, hmax⟩ := ih p
        refine ⟨hscore, ?_, ?_⟩
        · rcases List.mem_cons.mp hmem with heq | hl
          · rw [heq]
            exact List.mem_cons_self
          · exact List.mem_cons_of_mem p (List.mem_cons_of_mem q hl)
        · rw [List.forall_mem_cons, List.forall_mem_cons]
          rw [List.forall_mem_cons] at hmax
          exact ⟨hmax.1, (not_lt.mp hle).trans hmax.1, hmax.2⟩

/-- `maxpos` is a row from `i` on with the highest score of these rows. -/
theorem maxPos_spec {n i : ℕ} (hi : i < n) :
    i ≤ maxPos boxes n i ∧ maxPos boxes n i < n ∧
      ∀ k, i ≤ k → k < n → (boxes k).score ≤ (boxes (maxPos boxes n i)).score := by
  have hscan := foldl_maxPos boxes (List.range' (i + 1) (n - (i + 1))) i
  have hmem : maxPos boxes n i ∈ i :: List.range' (i + 1) (n - (i + 1)) := hscan.2.1
  rw [List.mem_cons, List.mem_range'_1] at hmem
  refine ⟨by omega, by omega, ?_⟩
  intro k hik hkn
  have hk : k ∈ i :: List.range' (i + 1) (n - (i + 1)) := by
    rw [List.mem_cons, List.mem_range'_1]
    omega
  exact hscan.2.2 k hk

theorem maxPos_of_le {n i : ℕ} (hi : n ≤ i) : maxPos boxes n i = i := by
  rw [maxPos, Nat.sub_eq_zero_of_le (by omega)]
  rfl

end

/-! ### The rows that are left -/

section
variable {K : Type}

/-- The index and the score of a row. -/
def entry (s : SoftArrays K) (k : ℕ) : ℕ × K := (s.inds k, (s.boxes k).score)

/-- The indices and scores of the rows from `i` on. -/
def entries (s : SoftArrays K) (i : ℕ) : List (ℕ × K) :=
  (List.range' i (s.n - i)).map (entry s)

theorem entries_cons {s : SoftArrays K} {i : ℕ} (hi : i < s.n) :
    entries s i = entry s i :: entries s (i + 1) := by
  have hlength : s.n - i = s.n - (i + 1) + 1 := by omega
  rw [entries, hlength, List.range'_succ, List.map_cons]
  rfl

theorem entries_of_le {s : SoftArrays K} {i : ℕ} (hi : s.n ≤ i) : entries s i = [] := by
  rw [entries, Nat.sub_eq_zero_of_le hi]
  rfl

/-- The rows are those of the input, up to their order and their scores. -/
structure Paired [Field K] (dets : List (Det K)) (s : SoftArrays K) : Prop where
  columns : ∀ k < s.n, ∀ c : Fin 6, c ≠ 5 → s.boxes k c = row dets (s.inds k) c
  inds_lt : ∀ k < s.n, s.inds k < dets.length

/-! ### The exchange -/

section
variable [LinearOrder K]

/-- The exchange is a permutation of the rows. -/
theorem swapMax_eq (s : SoftArrays K) (i : ℕ) :
    s.swapMax i =
      { s with
        boxes := s.boxes ∘ Equiv.swap i (maxPos s.boxes s.n i)
        inds := s.inds ∘ Equiv.swap i (maxPos s.boxes s.n i) } := by
  have hswap : ∀ {β : Type} (f : ℕ → β) (m : ℕ),
      Function.update (Function.update f i (f m)) m (f i) = f ∘ Equiv.swap i m := by
    intro β f m
    funext k
    rw [Function.comp_apply, Equiv.swap_apply_def]
    by_cases hkm : k = m
    · subst hkm
      rw [Function.update_self, if_pos rfl]
      split_ifs with hki
      · rw [hki]
      · rfl
    · rw [Function.update_of_ne hkm, if_neg hkm]
      by_cases hki : k = i
      · rw [hki, Function.update_self, if_pos rfl]
      · rw [Function.update_of_ne hki, if_neg hki]
  simp only [SoftArrays.swapMax, hswap]

/-- Two rows from `i` on change their places. -/
theorem map_swap_range' {β : Type} (f : ℕ → β) {i m n : ℕ} (him : i ≤ m) (hmn : m < n) :
    (((List.range' i (n - i)).map (f ∘ Equiv.swap i m) : List β) : Multiset β)
      = ((List.range' i (n - i)).map f : List β) := by
  have hval : ((List.range' i (n - i) : List ℕ) : Multiset ℕ) = (Finset.Ico i n).val := rfl
  have hperm : (Finset.Ico i n).map (Equiv.swap i m : ℕ ↪ ℕ) = Finset.Ico i n := by
    refine Finset.map_perm ?_
    intro k hk
    rw [Finset.coe_Ico, Set.mem_Ico]
    by_contra hout
    refine hk (Equiv.swap_apply_of_ne_of_ne ?_ ?_)
    · rintro rfl
      omega
    · rintro rfl
      omega
  rw [← Multiset.map_coe, ← Multiset.map_coe, ← Multiset.map_map, hval]
  exact congrArg (Multiset.map f) (congrArg Finset.val hperm)

theorem swapMax_of_le {s : SoftArrays K} {i : ℕ} (hi : s.n ≤ i) : s.swapMax i = s := by
  rw [swapMax_eq, maxPos_of_le s.boxes hi, Equiv.swap_self]
  rfl

theorem entries_swapMax {s : SoftArrays K} {i : ℕ} (hi : i < s.n) :
    (entries (s.swapMax i) i : Multiset (ℕ × K)) = entries s i := by
  obtain ⟨him, hmn, -⟩ := maxPos_spec s.boxes hi
  rw [swapMax_eq]
  exact map_swap_range' (entry s) him hmn

/-- The row `i` has the highest score after the exchange. -/
theorem score_le_swapMax {s : SoftArrays K} {i : ℕ} (hi : i < s.n) :
    ∀ e ∈ entries (s.swapMax i) (i + 1), e.2 ≤ ((s.swapMax i).boxes i).score := by
  obtain ⟨him, hmn, hmax⟩ := maxPos_spec s.boxes hi
  have hsame : ∀ e ∈ entries (s.swapMax i) i, e.2 ≤ (s.boxes (maxPos s.boxes s.n i)).score := by
    intro e he
    rw [← Multiset.mem_coe, entries_swapMax hi, Multiset.mem_coe, entries, List.mem_map] at he
    obtain ⟨k, hk, rfl⟩ := he
    rw [List.mem_range'_1] at hk
    exact hmax k hk.1 (by omega)
  have hrow : (s.swapMax i).boxes i = s.boxes (maxPos s.boxes s.n i) := by
    rw [swapMax_eq]
    exact congrArg s.boxes (Equiv.swap_apply_left i _)
  have hn : (s.swapMax i).n = s.n := rfl
  intro e he
  rw [hrow]
  refine hsame e ?_
  rw [entries_cons (hn ▸ hi)]
  exact List.mem_cons_of_mem _ he

theorem paired_swapMax [Field K] {dets : List (Det K)} {s : SoftArrays K} {i : ℕ}
    (h : Paired dets s) : Paired dets (s.swapMax i) := by
  rcases Nat.lt_or_ge i s.n with hi | hi
  · obtain ⟨him, hmn, -⟩ := maxPos_spec s.boxes hi
    rw [swapMax_eq]
    have hlt : ∀ k < s.n, Equiv.swap i (maxPos s.boxes s.n i) k < s.n := by
      intro k hk
      rw [Equiv.swap_apply_def]
      split_ifs <;> omega
    exact ⟨fun k hk => h.columns _ (hlt k hk), fun k hk => h.inds_lt _ (hlt k hk)⟩
  · rw [swapMax_of_le hi]
    exact h

theorem swapMax_of_lt {s : SoftArrays K} {i k : ℕ} (hi : i < s.n) (hk : k < i) :
    (s.swapMax i).boxes k = s.boxes k ∧ (s.swapMax i).inds k = s.inds k := by
  obtain ⟨him, -, -⟩ := maxPos_spec s.boxes hi
  have hsame : Equiv.swap i (maxPos s.boxes s.n i) k = k :=
    Equiv.swap_apply_of_ne_of_ne (by omega) (by omega)
  rw [swapMax_eq]
  exact ⟨congrArg s.boxes hsame, congrArg s.inds hsame⟩

end

end

/-! ### One iteration of the inner loop -/

section
variable {K : Type} [Field K] [LinearOrder K] [FloorRing K] (cv : Cv2 K) (exp : K → K)
  (p : SoftParams K) (dets : List (Det K))

/-- The weight for an overlap. -/
def weight (ov : K) : K :=
  if p.method = 1 then (if p.thresh < ov then 1 - ov else 1)
  else if p.method = 2 then exp (-(ov * ov) / p.sigma)
  else if p.thresh < ov then 0 else 1

/-- The rows `a` and `b` have a common area. -/
def Meets (a b : ℕ) : Prop := 0 < inter cv (row dets a) (row dets b)

/-- `ov` of the rows `a` and `b`. -/
def softOv (a b : ℕ) : K :=
  inter cv (row dets a) (row dets b) /
    ((row dets a).area + (row dets b).area - inter cv (row dets a) (row dets b))

instance (a b : ℕ) : Decidable (Meets cv dets a b) := inferInstanceAs (Decidable (0 < _))

/-- The factor for the score of `b` when `a` is returned before it. -/
def factor (a b : ℕ) : K := if Meets cv dets a b then weight exp p (softOv cv dets a b) else 1

/-- The score of `b` after `a`, or `none` when `b` is dropped. -/
def softDecay (a b : ℕ) (t : K) : Option K :=
  if Meets cv dets a b ∧ factor cv exp p dets a b * t < p.minScore then none
  else some (factor cv exp p dets a b * t)

/-- What the divisions of the function rely on. -/
structure Divides : Prop where
  boxes : ∀ a < dets.length, ∀ b < dets.length,
    TrueIntersection cv (row dets a).rect (row dets b).rect
  sigma : p.method = 2 → p.sigma ≠ 0

omit [FloorRing K] in
theorem softWeight_eq (hsigma : p.method = 2 → p.sigma ≠ 0) (ov : K) :
    softWeight exp p ov = .ok (weight exp p ov) := by
  unfold softWeight weight
  split_ifs with hlinear _ hgauss
  · rfl
  · rfl
  · rw [pyDiv_eq_ok_iff.mpr ⟨hsigma hgauss, rfl⟩]
    rfl
  · rfl
  · rfl

omit [LinearOrder K] [FloorRing K] in
/-- The rectangle of a row does not depend on its score. -/
theorem rect_congr {d e : Det K} (h : ∀ c : Fin 6, c ≠ 5 → d c = e c) : d.rect = e.rect := by
  unfold Det.rect
  rw [h 0 (by decide), h 1 (by decide), h 2 (by decide), h 3 (by decide), h 4 (by decide)]

theorem inter_congr {d e d' e' : Det K} (hd : d.rect = d'.rect) (he : e.rect = e'.rect) :
    inter cv d e = inter cv d' e' := by
  unfold inter Det.area
  rw [hd, he]

/-- The arrays with a new score in one row. -/
def withScore (s : SoftArrays K) (pos : ℕ) (t : K) : SoftArrays K :=
  { s with boxes := Function.update s.boxes pos (Function.update (s.boxes pos) 5 t) }

/-- The arrays with the last row in the place of another one. -/
def withoutRow (s : SoftArrays K) (pos : ℕ) : SoftArrays K where
  boxes := Function.update s.boxes pos (s.boxes (s.n - 1))
  inds := Function.update s.inds pos (s.inds (s.n - 1))
  n := s.n - 1

variable {cv exp p dets} {s : SoftArrays K} {a pos : ℕ} {top : Det K}

/-- The iteration for the row `pos`, with its new score `t`. -/
theorem softStep_eq [IsStrictOrderedRing K] (hdiv : Divides cv p dets) (hs : Paired dets s)
    (ha : a < dets.length) (htop : top.rect = (row dets a).rect) (hpos : pos < s.n) :
    let t := factor cv exp p dets a (s.inds pos) * (s.boxes pos).score
    softStep cv exp p top s pos = .ok
      (if Meets cv dets a (s.inds pos) ∧ t < p.minScore then
        (withoutRow (withScore s pos t) pos, pos)
      else (withScore s pos t, pos + 1)) := by
  have hrow : (s.boxes pos).rect = (row dets (s.inds pos)).rect :=
    rect_congr (hs.columns pos hpos)
  have hinter : inter cv top (s.boxes pos) = inter cv (row dets a) (row dets (s.inds pos)) :=
    inter_congr cv htop hrow
  have hareas : top.area + (s.boxes pos).area
      = (row dets a).area + (row dets (s.inds pos)).area := by
    unfold Det.area
    rw [htop, hrow]
  unfold softStep
  dsimp only
  rw [hinter, hareas]
  by_cases hmeets : 0 < inter cv (row dets a) (row dets (s.inds pos))
  · have hne : (row dets a).area + (row dets (s.inds pos)).area
        - inter cv (row dets a) (row dets (s.inds pos)) ≠ 0 :=
      (sub_pos.mpr (commonArea_lt cv (hdiv.boxes a ha _ (hs.inds_lt pos hpos)))).ne'
    have hfactor : factor cv exp p dets a (s.inds pos)
        = weight exp p (softOv cv dets a (s.inds pos)) := if_pos hmeets
    rw [if_pos hmeets, pyDiv_eq_ok_iff.mpr ⟨hne, rfl⟩, ok_bind, softWeight_eq exp p hdiv.sigma,
      ok_bind, hfactor]
    simp only [Meets, hmeets, true_and]
    split
    · rename_i hlow
      exact congrArg Except.ok (if_pos hlow).symm
    · rename_i hhigh
      exact congrArg Except.ok (if_neg hhigh).symm
  · -- Without a common area nothing is written.
    have hfactor : factor cv exp p dets a (s.inds pos) = 1 := if_neg hmeets
    have hsame : withScore s pos (s.boxes pos).score = s := by
      simp only [withScore, Det.score, Function.update_eq_self]
    rw [if_neg hmeets, hfactor, one_mul, hsame, if_neg fun h => hmeets h.1]

/-- An iteration drops the row and stays, or gives it its new score and goes on. -/
theorem softStep_cases [IsStrictOrderedRing K] (hdiv : Divides cv p dets) (hs : Paired dets s)
    (ha : a < dets.length) (htop : top.rect = (row dets a).rect) (hpos : pos < s.n) :
    (∃ t, softDecay cv exp p dets a (s.inds pos) (s.boxes pos).score = none ∧
      softStep cv exp p top s pos = .ok (withoutRow (withScore s pos t) pos, pos)) ∨
    ∃ t, softDecay cv exp p dets a (s.inds pos) (s.boxes pos).score = some t ∧
      softStep cv exp p top s pos = .ok (withScore s pos t, pos + 1) := by
  rw [softStep_eq hdiv hs ha htop hpos]
  unfold softDecay
  split
  · exact .inl ⟨_, rfl, rfl⟩
  · exact .inr ⟨_, rfl, rfl⟩

/-! ### The inner loop -/

omit [LinearOrder K] [FloorRing K] in
theorem paired_withScore (hs : Paired dets s) (pos : ℕ) (t : K) :
    Paired dets (withScore s pos t) where
  columns k hk c hc := by
    show Function.update s.boxes pos (Function.update (s.boxes pos) 5 t) k c = _
    by_cases hkp : k = pos
    · subst hkp
      rw [Function.update_self, Function.update_of_ne hc]
      exact hs.columns k hk c hc
    · rw [Function.update_of_ne hkp]
      exact hs.columns k hk c hc
  inds_lt k hk := hs.inds_lt k hk

omit [LinearOrder K] [FloorRing K] in
theorem paired_withoutRow (hs : Paired dets s) (hpos : pos < s.n) :
    Paired dets (withoutRow s pos) where
  columns k hk c hc := by
    have hkn : k < s.n := Nat.lt_of_lt_of_le hk (Nat.sub_le _ _)
    show Function.update s.boxes pos (s.boxes (s.n - 1)) k c
      = row dets (Function.update s.inds pos (s.inds (s.n - 1)) k) c
    by_cases hkp : k = pos
    · rw [hkp, Function.update_self, Function.update_self]
      exact hs.columns _ (by omega) c hc
    · rw [Function.update_of_ne hkp, Function.update_of_ne hkp]
      exact hs.columns k hkn c hc
  inds_lt k hk := by
    have hkn : k < s.n := Nat.lt_of_lt_of_le hk (Nat.sub_le _ _)
    show Function.update s.inds pos (s.inds (s.n - 1)) k < _
    by_cases hkp : k = pos
    · rw [hkp, Function.update_self]
      exact hs.inds_lt _ (by omega)
    · rw [Function.update_of_ne hkp]
      exact hs.inds_lt k hkn

omit [Field K] [LinearOrder K] [FloorRing K] in
theorem entry_withScore_of_ne {k : ℕ} (hk : k ≠ pos) (t : K) :
    entry (withScore s pos t) k = entry s k := by
  simp only [entry, withScore, Function.update_of_ne hk]

omit [Field K] [LinearOrder K] [FloorRing K] in
theorem entry_withScore_self (t : K) : entry (withScore s pos t) pos = (s.inds pos, t) := by
  simp [entry, withScore, Det.score]

omit [Field K] [LinearOrder K] [FloorRing K] in
/-- A new score in the row `pos` does not change the rows behind it. -/
theorem entries_withScore (t : K) :
    entries (withScore s pos t) (pos + 1) = entries s (pos + 1) := by
  refine List.map_congr_left ?_
  intro k hk
  rw [List.mem_range'_1] at hk
  exact entry_withScore_of_ne (by omega) t

omit [Field K] [LinearOrder K] [FloorRing K] in
/-- The last row in the place of `pos`: the rows behind `pos` are left, in another order. -/
theorem entries_withoutRow (hpos : pos < s.n) :
    (entries (withoutRow s pos) pos).Perm (entries s (pos + 1)) := by
  have hn : (withoutRow s pos).n = s.n - 1 := rfl
  rcases Nat.lt_or_ge (pos + 1) s.n with hlt | hge
  · have hself : entry (withoutRow s pos) pos = entry s (s.n - 1) := by
      simp [entry, withoutRow]
    have hrest : entries (withoutRow s pos) (pos + 1)
        = (List.range' (pos + 1) (s.n - 1 - (pos + 1))).map (entry s) := by
      refine List.map_congr_left ?_
      intro k hk
      rw [List.mem_range'_1] at hk
      have hk' : k ≠ pos := by omega
      simp only [entry, withoutRow, Function.update_of_ne hk']
    have hlast : entries s (pos + 1)
        = (List.range' (pos + 1) (s.n - 1 - (pos + 1))).map (entry s) ++ [entry s (s.n - 1)] := by
      have hlength : s.n - (pos + 1) = s.n - 1 - (pos + 1) + 1 := by omega
      have hindex : pos + 1 + (s.n - 1 - (pos + 1)) = s.n - 1 := by omega
      rw [entries, hlength, List.range'_1_concat, List.map_append, List.map_singleton, hindex]
    rw [entries_cons (by omega), hself, hrest, hlast]
    exact (List.perm_append_singleton _ _).symm
  · rw [entries_of_le (by omega), entries_of_le hge]

/-- The rows in front of `pos` are as they were. -/
def SameBefore (pos : ℕ) (s s' : SoftArrays K) : Prop :=
  ∀ k < pos, s'.boxes k = s.boxes k ∧ s'.inds k = s.inds k

omit [Field K] [LinearOrder K] [FloorRing K] in
theorem SameBefore.entry_eq {s' : SoftArrays K} (h : SameBefore pos s s') {k : ℕ} (hk : k < pos) :
    entry s' k = entry s k := by
  simp only [entry, (h k hk).1, (h k hk).2]

omit [Field K] [LinearOrder K] [FloorRing K] in
theorem sameBefore_withScore (t : K) : SameBefore pos s (withScore s pos t) := by
  intro k hk
  exact ⟨Function.update_of_ne hk.ne _ _, rfl⟩

omit [Field K] [LinearOrder K] [FloorRing K] in
theorem sameBefore_withoutRow : SameBefore pos s (withoutRow s pos) := by
  intro k hk
  exact ⟨Function.update_of_ne hk.ne _ _, Function.update_of_ne hk.ne _ _⟩

omit [Field K] [LinearOrder K] [FloorRing K] in
theorem SameBefore.trans {s' s'' : SoftArrays K} {pos' : ℕ} (h : SameBefore pos s s')
    (h' : SameBefore pos' s' s'') (hle : pos ≤ pos') : SameBefore pos s s'' := by
  intro k hk
  obtain ⟨hb, hi⟩ := h k hk
  obtain ⟨hb', hi'⟩ := h' k (hk.trans_le hle)
  exact ⟨hb'.trans hb, hi'.trans hi⟩

/-- What the inner loop from `pos` on has done when it ends. -/
structure LoopDone (decay : ℕ → ℕ → K → Option K) (dets : List (Det K)) (a pos : ℕ)
    (s s' : SoftArrays K) : Prop where
  paired : Paired dets s'
  before : SameBefore pos s s'
  pos_le : pos ≤ s'.n
  n_le : s'.n ≤ s.n
  decayed : (entries s' pos : Multiset (ℕ × K))
    = (entries s pos : Multiset (ℕ × K)).filterMap (decayed decay a)

/-- The inner loop applies the decay to each row behind the top row. -/
theorem softLoop_spec [IsStrictOrderedRing K] (hdiv : Divides cv p dets) (ha : a < dets.length)
    (htop : top.rect = (row dets a).rect) (fuel : ℕ) (hs : Paired dets s) (hpos : pos ≤ s.n)
    (hfuel : s.n ≤ pos + fuel) :
    Returns (softLoop cv exp p top fuel s pos)
      (LoopDone (softDecay cv exp p dets) dets a pos s) := by
  induction fuel generalizing s pos with
  | zero =>
      refine Returns.ok ⟨hs, fun _ _ => ⟨rfl, rfl⟩, hpos, le_rfl, ?_⟩
      rw [entries_of_le (by omega), Multiset.coe_nil, Multiset.filterMap_zero]
  | succ fuel ih =>
      rw [softLoop]
      rcases hpos.lt_or_eq with hlt | heq
      · rw [if_pos hlt]
        rcases softStep_cases hdiv hs ha htop hlt with ⟨t, hdecay, hstep⟩ | ⟨t, hdecay, hstep⟩
        · -- The row is dropped.
          rw [hstep, ok_bind]
          have hs' : Paired dets (withoutRow (withScore s pos t) pos) :=
            paired_withoutRow (paired_withScore hs pos t) hlt
          have hn : (withoutRow (withScore s pos t) pos).n = s.n - 1 := rfl
          refine (ih hs' (by omega) (by omega)).imp ?_
          intro s' hdone
          refine ⟨hdone.paired, ?_, hdone.pos_le, hdone.n_le.trans (Nat.sub_le _ _), ?_⟩
          · exact ((sameBefore_withScore t).trans sameBefore_withoutRow le_rfl).trans
              hdone.before le_rfl
          · have hleft : (entries (withoutRow (withScore s pos t) pos) pos).Perm
                (entries (withScore s pos t) (pos + 1)) := entries_withoutRow hlt
            rw [entries_withScore] at hleft
            rw [hdone.decayed, Multiset.coe_eq_coe.mpr hleft, entries_cons hlt, ← Multiset.cons_coe,
              Multiset.filterMap_cons_none]
            rw [decayed, entry, hdecay]
            rfl
        · -- The row stays with its new score, and the loop leaves it in its place.
          rw [hstep, ok_bind]
          have hn : (withScore s pos t).n = s.n := rfl
          refine (ih (paired_withScore hs pos t) (by omega) (by omega)).imp ?_
          intro s' hdone
          have hpos' : pos < s'.n := hdone.pos_le
          refine ⟨hdone.paired, ?_, hpos'.le, hdone.n_le, ?_⟩
          · exact (sameBefore_withScore t).trans hdone.before (Nat.le_succ pos)
          · rw [entries_cons hpos', hdone.before.entry_eq (Nat.lt_succ_self pos),
              entry_withScore_self, entries_cons hlt, ← Multiset.cons_coe, ← Multiset.cons_coe,
              hdone.decayed, entries_withScore, Multiset.filterMap_cons_some (b := (s.inds pos, t))]
            rw [decayed, entry, hdecay]
            rfl
      · rw [if_neg (by omega)]
        refine Returns.ok ⟨hs, fun _ _ => ⟨rfl, rfl⟩, hpos, le_rfl, ?_⟩
        rw [entries_of_le (by omega), Multiset.coe_nil, Multiset.filterMap_zero]

theorem softLoop_of_le (fuel : ℕ) (hpos : s.n ≤ pos) :
    softLoop cv exp p top fuel s pos = .ok s := by
  cases fuel with
  | zero => rfl
  | succ fuel => exact if_neg (by omega)

/-! ### The outer loop -/

/-- What the `for` loop from `i` on has done when it ends. -/
structure RunDone (decay : ℕ → ℕ → K → Option K) (dets : List (Det K)) (i : ℕ)
    (s s' : SoftArrays K) : Prop where
  paired : Paired dets s'
  before : SameBefore i s s'
  le_n : min i s.n ≤ s'.n
  n_le : s'.n ≤ s.n
  run : DecayRun decay (entries s i) (entries s' i)

omit [FloorRing K] in
/-- One iteration in front of the others is one pick in front of the others. -/
theorem RunDone.pick {decay : ℕ → ℕ → K → Option K} {i : ℕ} {s₂ s' : SoftArrays K}
    (hi : i < s.n)
    (hloop : LoopDone decay dets ((s.swapMax i).inds i) (i + 1) (s.swapMax i) s₂)
    (hrest : RunDone decay dets (i + 1) s₂ s') : RunDone decay dets i s s' := by
  have hbefore : SameBefore (i + 1) (s.swapMax i) s' := hloop.before.trans hrest.before le_rfl
  have hi' : i + 1 ≤ s'.n := (le_min le_rfl hloop.pos_le).trans hrest.le_n
  refine ⟨hrest.paired, ?_, by omega, hrest.n_le.trans hloop.n_le, ?_⟩
  · intro k hk
    obtain ⟨hb, hk'⟩ := hbefore k (by omega)
    obtain ⟨hb', hk''⟩ := swapMax_of_lt hi hk
    exact ⟨hb.trans hb', hk'.trans hk''⟩
  · rw [← entries_swapMax hi, entries_cons (s := s.swapMax i) hi, entries_cons hi',
      hbefore.entry_eq (Nat.lt_succ_self i), ← Multiset.cons_coe]
    refine DecayRun.pick (score_le_swapMax hi) ?_
    show DecayRun decay (Multiset.filterMap (decayed decay ((s.swapMax i).inds i)) _) _
    rw [← hloop.decayed]
    exact hrest.run

/-- The `for` loop picks among the rows from `i` on until none is left. -/
theorem foldlM_softBody [IsStrictOrderedRing K] (hdiv : Divides cv p dets) (m i : ℕ)
    (hs : Paired dets s) (hm : s.n ≤ i + m) :
    Returns ((List.range' i m).foldlM (softBody cv exp p) s)
      (RunDone (softDecay cv exp p dets) dets i s) := by
  induction m generalizing s i with
  | zero =>
      refine Returns.ok ⟨hs, fun _ _ => ⟨rfl, rfl⟩, min_le_right _ _, le_rfl, ?_⟩
      rw [Nat.add_zero] at hm
      rw [entries_of_le hm]
      exact DecayRun.done
  | succ m ih =>
      rw [List.range'_succ, List.foldlM_cons]
      rcases Nat.lt_or_ge i s.n with hi | hi
      · have hs₁ := paired_swapMax hs (i := i)
        have htop : ((s.swapMax i).boxes i).rect = (row dets ((s.swapMax i).inds i)).rect :=
          rect_congr (hs₁.columns i hi)
        have hn : (s.swapMax i).n = s.n := rfl
        have hloop : Returns (softLoop cv exp p _ (s.swapMax i).n (s.swapMax i) (i + 1)) _ :=
          softLoop_spec hdiv (hs₁.inds_lt i hi) htop (s.swapMax i).n hs₁ (by omega) (by omega)
        refine hloop.bind ?_
        intro s₂ hdone
        have hn₂ := hdone.n_le
        refine (ih (i + 1) hdone.paired (by omega)).imp ?_
        intro s' hrest
        exact hrest.pick hi hdone
      · -- No row is left, and the iteration writes nothing.
        have hbody : softBody cv exp p s i = .ok s := by
          show softLoop cv exp p ((s.swapMax i).boxes i) (s.swapMax i).n (s.swapMax i) (i + 1) = _
          rw [swapMax_of_le hi, softLoop_of_le s.n (by omega)]
        rw [hbody, ok_bind]
        refine (ih (i + 1) hs (by omega)).imp ?_
        intro s' hrest
        have hn' := hrest.n_le
        have hle := hrest.le_n
        refine ⟨hrest.paired, ?_, by omega, hn', ?_⟩
        · intro k hk
          exact hrest.before k (by omega)
        · rw [entries_of_le hi, entries_of_le (by omega)]
          exact DecayRun.done

omit [LinearOrder K] [FloorRing K] in
/-- The arrays before the loop. -/
theorem paired_start : Paired dets ⟨row dets, id, dets.length⟩ :=
  ⟨fun _ _ _ _ => rfl, fun _ hk => hk⟩

variable (cv exp p dets)

/-- The candidates of the selection: the rows with their scores. -/
def candidates : List (ℕ × K) := (List.range dets.length).map fun b => (b, (row dets b).score)

/-- The indices in front of the row `k`. -/
def indsBefore (s : SoftArrays K) (k : ℕ) : List ℕ := (List.range k).map s.inds

/-- The arrays at the end are a selection with decaying scores. -/
theorem softArrays_decayRun [IsStrictOrderedRing K] (hdiv : Divides cv p dets) :
    Returns (softArrays cv exp p dets) fun s => Paired dets s ∧
      DecayRun (softDecay cv exp p dets) (candidates dets) (entries s 0) := by
  have hloop : Returns ((List.range' 0 dets.length).foldlM (softBody cv exp p) _) _ :=
    foldlM_softBody hdiv dets.length 0 (paired_start : Paired dets _) (Nat.zero_add _).ge
  rw [← List.range_eq_range'] at hloop
  refine hloop.imp ?_
  intro s hdone
  have hstart : entries ⟨row dets, id, dets.length⟩ 0 = candidates dets := by
    rw [entries, ← List.range_eq_range']
    rfl
  rw [← hstart]
  exact ⟨hdone.paired, hdone.run⟩

/-! ### The returned rows -/

/-- The score of the row `b` after these rows were returned in front of it. -/
def faded (before : List ℕ) (b : ℕ) : K :=
  (before.map fun a => factor cv exp p dets a b).prod * (row dets b).score

/-- What `cpu_soft_nms` leaves in the rows that it returns. -/
structure SoftRows (s : SoftArrays K) : Prop where
  nodup : (indsBefore s s.n).Nodup
  inRange : ∀ k < s.n, s.inds k < dets.length
  columns : ∀ k < s.n, ∀ c : Fin 6, c ≠ 5 → s.boxes k c = row dets (s.inds k) c
  scores : ∀ k < s.n, (s.boxes k).score = faded cv exp p dets (indsBefore s k) (s.inds k)

/-- The parameters do not make a score grow or fall below 0. -/
structure Fades : Prop where
  minScore : 0 ≤ p.minScore
  sigma : p.method = 2 → 0 < p.sigma
  exp_le : p.method = 2 → ∀ x ≤ 0, exp x ≤ 1

variable {cv exp p dets}

/-- The score after some picks is the product with their factors. -/
theorem through_softDecay {picks : List (ℕ × K)} {b : ℕ} {t u : K}
    (h : through (softDecay cv exp p dets) picks b t = some u) :
    u = ((picks.map Prod.fst).map fun a => factor cv exp p dets a b).prod * t := by
  induction picks generalizing t with
  | nil =>
      cases h
      simp
  | cons q picks ih =>
      rw [through_cons, Option.bind_eq_some_iff] at h
      obtain ⟨t', hdecay, hthrough⟩ := h
      rw [softDecay] at hdecay
      split at hdecay
      · cases hdecay
      · cases hdecay
        rw [ih hthrough]
        simp only [List.map_cons, List.prod_cons]
        ring

/-- Some picks drop a row exactly when its product falls below the minimum at a row that meets
it. -/
theorem through_eq_none_iff {picks : List (ℕ × K)} {b : ℕ} {t : K} :
    through (softDecay cv exp p dets) picks b t = none ↔
      ∃ pre a post, picks.map Prod.fst = pre ++ a :: post ∧ Meets cv dets a b ∧
        ((pre ++ [a]).map fun a => factor cv exp p dets a b).prod * t < p.minScore := by
  induction picks generalizing t with
  | nil =>
      refine iff_of_false (fun h => by cases h) ?_
      rintro ⟨pre, a, post, hnil, -⟩
      simp at hnil
  | cons q picks ih =>
      have hreorder : ∀ l : List ℕ, (l.map fun a => factor cv exp p dets a b).prod *
          (factor cv exp p dets q.1 b * t)
            = ((q.1 :: l).map fun a => factor cv exp p dets a b).prod * t := by
        intro l
        rw [List.map_cons, List.prod_cons]
        ring
      rw [through_cons, List.map_cons]
      by_cases hdrop : Meets cv dets q.1 b ∧ factor cv exp p dets q.1 b * t < p.minScore
      · refine iff_of_true (by rw [softDecay, if_pos hdrop]; rfl) ?_
        exact ⟨[], q.1, picks.map Prod.fst, rfl, hdrop.1, by simpa using hdrop.2⟩
      · rw [softDecay, if_neg hdrop, Option.bind_some, ih]
        constructor
        · rintro ⟨pre, a, post, hsplit, hmeets, hlow⟩
          rw [hreorder] at hlow
          exact ⟨q.1 :: pre, a, post, congrArg _ hsplit, hmeets, hlow⟩
        · rintro ⟨pre, a, post, hsplit, hmeets, hlow⟩
          cases pre with
          | nil =>
              rw [List.nil_append, List.cons.injEq] at hsplit
              obtain ⟨rfl, -⟩ := hsplit
              exact absurd ⟨hmeets, by simpa using hlow⟩ hdrop
          | cons c pre =>
              rw [List.cons_append, List.cons.injEq] at hsplit
              obtain ⟨rfl, hsplit⟩ := hsplit
              refine ⟨pre, a, post, hsplit, hmeets, ?_⟩
              rw [hreorder]
              exact hlow

omit [Field K] [LinearOrder K] [FloorRing K] in
/-- The rows up to the row `k`, the row `k` and the rows behind it. -/
theorem entries_split {k : ℕ} (hk : k < s.n) :
    entries s 0 = (List.range k).map (entry s) ++ entry s k :: entries s (k + 1) := by
  rw [← entries_cons hk, entries, entries, ← List.map_append, ← List.range_eq_range',
    Nat.sub_zero, List.range_eq_range', List.range_eq_range']
  refine congrArg _ ?_
  have hn : s.n = k + (s.n - k) := by omega
  conv_lhs => rw [hn, ← List.range'_append_1, Nat.zero_add]

omit [Field K] [LinearOrder K] [FloorRing K] in
theorem map_fst_entry (l : List ℕ) : (l.map (entry s)).map Prod.fst = l.map s.inds := by
  rw [List.map_map]
  rfl

omit [Field K] [LinearOrder K] [FloorRing K] in
theorem map_fst_entries : (entries s 0).map Prod.fst = indsBefore s s.n := by
  rw [entries, map_fst_entry, Nat.sub_zero, ← List.range_eq_range']
  rfl

omit [Field K] [LinearOrder K] [FloorRing K] in
theorem indsBefore_succ (k : ℕ) : indsBefore s (k + 1) = indsBefore s k ++ [s.inds k] := by
  rw [indsBefore, List.range_succ, List.map_append]
  rfl

omit [Field K] [LinearOrder K] [FloorRing K] in
theorem mem_indsBefore {b k : ℕ} : b ∈ indsBefore s k ↔ ∃ j < k, s.inds j = b := by
  rw [indsBefore, List.mem_map]
  simp only [List.mem_range]

omit [Field K] [LinearOrder K] [FloorRing K] in
/-- The rows in front of a row, cut at an earlier one. -/
theorem indsBefore_split {k m : ℕ} (hkm : k < m) :
    indsBefore s m
      = indsBefore s k ++ s.inds k :: (List.range' (k + 1) (m - (k + 1))).map s.inds := by
  have hrange : List.range m = List.range k ++ k :: List.range' (k + 1) (m - (k + 1)) := by
    have hlength : m = k + (m - (k + 1) + 1) := by omega
    conv_lhs => rw [hlength, List.range_eq_range', ← List.range'_append_1, Nat.zero_add,
      List.range'_succ, ← List.range_eq_range']
  rw [indsBefore, hrange, List.map_append]
  rfl

omit [Field K] [LinearOrder K] [FloorRing K] in
/-- A cut of the returned rows is at one of them. -/
theorem exists_of_indsBefore_eq {pre post : List ℕ} {a n : ℕ}
    (hsplit : indsBefore s n = pre ++ a :: post) :
    ∃ k < n, indsBefore s k = pre ∧ s.inds k = a := by
  have hk : pre.length < n := by
    have hlength := congrArg List.length hsplit
    rw [indsBefore, List.length_map, List.length_range, List.length_append,
      List.length_cons] at hlength
    omega
  refine ⟨pre.length, hk, ?_, ?_⟩
  · have htake := congrArg (List.take pre.length) hsplit
    rwa [List.take_left, indsBefore, ← List.map_take, List.take_range, min_eq_left hk.le] at htake
  · have hget := congrArg (fun l => l[pre.length]?) hsplit
    simpa [indsBefore, hk] using hget

omit [LinearOrder K] [FloorRing K] in
theorem mem_candidates {b : ℕ} {t : K} :
    (b, t) ∈ candidates dets ↔ b < dets.length ∧ (row dets b).score = t := by
  simp [candidates]

omit [LinearOrder K] [FloorRing K] in
theorem map_fst_candidates : (candidates dets).map Prod.fst = List.range dets.length := by
  rw [candidates, List.map_map]
  exact List.map_id _

/-- A factor is at most 1 for boxes with positive sides. -/
theorem factor_le_one [IsStrictOrderedRing K] (hdiv : Divides cv p dets) (hfades : Fades exp p)
    {b : ℕ} (ha : a < dets.length) (hb : b < dets.length) :
    factor cv exp p dets a b ≤ 1 := by
  unfold factor
  split
  · rename_i hmeets
    have hov : 0 ≤ softOv cv dets a b :=
      div_nonneg hmeets.le (sub_pos.mpr (commonArea_lt cv (hdiv.boxes a ha b hb))).le
    unfold weight
    split_ifs with _ _ hgauss
    · linarith
    · exact le_rfl
    · refine hfades.exp_le hgauss _ ?_
      exact div_nonpos_of_nonpos_of_nonneg (neg_nonpos.mpr (mul_self_nonneg _))
        (hfades.sigma hgauss).le
    · exact zero_le_one
    · exact le_rfl
  · exact le_rfl

/-- A decay of a score from 0 on stays from 0 on and does not increase it. -/
theorem softDecay_le [IsStrictOrderedRing K] (hdiv : Divides cv p dets) (hfades : Fades exp p)
    {b : ℕ} {t t' : K} (ha : a < dets.length) (hb : b < dets.length) (ht : 0 ≤ t)
    (h : softDecay cv exp p dets a b t = some t') : 0 ≤ t' ∧ t' ≤ t := by
  rw [softDecay] at h
  split at h
  · cases h
  · rename_i hstay
    cases h
    refine ⟨?_, mul_le_of_le_one_left ht (factor_le_one hdiv hfades ha hb)⟩
    by_cases hmeets : Meets cv dets a b
    · exact hfades.minScore.trans (not_lt.mp fun hlow => hstay ⟨hmeets, hlow⟩)
    · rw [factor, if_neg hmeets, one_mul]
      exact ht

/-- `cpu_soft_nms` returns different rows with their boxes. The score of a row is the product of
its score with the factors for the rows in front of it. The scores do not increase along the
returned rows. -/
theorem cpuSoftNms_rows [IsStrictOrderedRing K] (hdiv : Divides cv p dets) :
    Returns (softArrays cv exp p dets) fun s =>
      cpuSoftNms cv exp p dets = .ok (indsBefore s s.n) ∧
      SoftRows cv exp p dets s ∧
      (Fades exp p → (∀ b < dets.length, 0 ≤ (row dets b).score) →
        ∀ j k, j < k → k < s.n → (s.boxes k).score ≤ (s.boxes j).score) := by
  obtain ⟨s, hs, hpaired, hrun⟩ := softArrays_decayRun cv exp p dets hdiv
  refine ⟨s, hs, ?_, ?_, ?_⟩
  · rw [cpuSoftNms, hs, ok_bind]
    rfl
  · have hnodup := hrun.nodup (by
      rw [Multiset.map_coe, map_fst_candidates, Multiset.coe_nodup]
      exact List.nodup_range)
    rw [map_fst_entries] at hnodup
    refine ⟨hnodup, hpaired.inds_lt, hpaired.columns, ?_⟩
    intro k hk
    obtain ⟨t, hmem, hthrough⟩ := hrun.origin (entries_split hk)
    rw [Multiset.mem_coe, mem_candidates] at hmem
    rw [through_softDecay hthrough, map_fst_entry, ← hmem.2]
    rfl
  · intro hfades hscores j k hjk hk
    have hstart : ∀ b ∈ (candidates dets : Multiset (ℕ × K)), b.1 < dets.length ∧ 0 ≤ b.2 := by
      intro b hb
      rw [Multiset.mem_coe, mem_candidates] at hb
      exact ⟨hb.1, hb.2 ▸ hscores b.1 hb.1⟩
    have hpair := hrun.pairwise (P := fun b => b.1 < dets.length ∧ 0 ≤ b.2) hstart
      fun a s b t t' ha hb hd =>
        have hle := softDecay_le hdiv hfades ha.1 hb.1 hb.2 hd
        ⟨⟨hb.1, hle.1⟩, hle.2⟩
    rw [entries_split hk, List.pairwise_append] at hpair
    have hj : entry s j ∈ (List.range k).map (entry s) :=
      List.mem_map_of_mem (List.mem_range.mpr hjk)
    exact hpair.2.2 _ hj _ List.mem_cons_self

/-- A row is not returned exactly when a returned row meets it, in front of it, and takes its
score below the minimum. -/
theorem cpuSoftNms_dropped [IsStrictOrderedRing K] (hdiv : Divides cv p dets) :
    Returns (softArrays cv exp p dets) fun s => ∀ b < dets.length,
      b ∉ indsBefore s s.n ↔ ∃ k < s.n, b ∉ indsBefore s (k + 1) ∧ Meets cv dets (s.inds k) b ∧
        faded cv exp p dets (indsBefore s (k + 1)) b < p.minScore := by
  refine (softArrays_decayRun cv exp p dets hdiv).imp ?_
  rintro s ⟨hpaired, hrun⟩ b hb
  have hcand : (b, (row dets b).score) ∈ (candidates dets : Multiset (ℕ × K)) :=
    mem_candidates.mpr ⟨hb, rfl⟩
  constructor
  · intro hmissing
    rcases hrun.fate hcand with ⟨pre, u, post, hsplit, -⟩ | hnone
    · -- A pick of `b` would be a returned row.
      refine absurd ?_ hmissing
      rw [← map_fst_entries, hsplit, List.map_append]
      exact List.mem_append_right _ List.mem_cons_self
    · obtain ⟨pre, a, post, hsplit, hmeets, hlow⟩ := through_eq_none_iff.mp hnone
      rw [map_fst_entries] at hsplit
      obtain ⟨k, hk, rfl, rfl⟩ := exists_of_indsBefore_eq hsplit
      refine ⟨k, hk, ?_, hmeets, ?_⟩
      · intro hin
        obtain ⟨j, hj, heq⟩ := mem_indsBefore.mp hin
        exact hmissing (mem_indsBefore.mpr ⟨j, by omega, heq⟩)
      · rw [indsBefore_succ]
        exact hlow
  · rintro ⟨k, hk, hfront, hmeets, hlow⟩ hin
    obtain ⟨m, hm, rfl⟩ := mem_indsBefore.mp hin
    have hkm : k < m := by
      by_contra hle
      exact hfront (mem_indsBefore.mpr ⟨m, by omega, rfl⟩)
    -- The picks in front of the row `m` leave its score, and the row `k` is among them.
    obtain ⟨t, hmem, hthrough⟩ := hrun.origin (entries_split hm)
    rw [Multiset.mem_coe, mem_candidates] at hmem
    obtain ⟨-, rfl⟩ := hmem
    have hnone : through (softDecay cv exp p dets) ((List.range m).map (entry s)) (s.inds m)
        (row dets (s.inds m)).score = none := by
      refine through_eq_none_iff.mpr ⟨indsBefore s k, s.inds k, _,
        (map_fst_entry _).trans (indsBefore_split hkm), hmeets, ?_⟩
      rw [← indsBefore_succ]
      exact hlow
    exact Option.some_ne_none _ (hthrough.symm.trans hnone)

/-! ### The original suppression -/

/-- With the original suppression a pick drops the rows that it overlaps and leaves the scores
of the others. -/
theorem softDecay_original (hone : p.method ≠ 1) (htwo : p.method ≠ 2) (hmin : 0 < p.minScore)
    {b : ℕ} {t : K} (ht : p.minScore ≤ t) :
    softDecay cv exp p dets a b t =
      if decide (Meets cv dets a b ∧ p.thresh < softOv cv dets a b) then none else some t := by
  unfold softDecay factor weight
  rw [if_neg hone, if_neg htwo]
  by_cases hmeets : Meets cv dets a b
  · by_cases hov : p.thresh < softOv cv dets a b
    · simp [hmeets, hov, hmin]
    · simp [hmeets, hov, not_lt.mpr ht]
  · simp [hmeets]

/-- The divisor of `cpu_nms` is the larger one, so a row that overlaps by the threshold there
overlaps by more here. -/
theorem lt_softOv_of_le_ovr [IsStrictOrderedRing K] {b : ℕ}
    (hbox : TrueIntersection cv (row dets a).rect (row dets b).rect) (hthresh : 0 < p.thresh)
    (hle : p.thresh ≤ ovr cv (row dets a) (row dets b)) :
    Meets cv dets a b ∧ p.thresh < softOv cv dets a b := by
  have hpos : 0 < (row dets a).area + (row dets b).area
      - inter cv (row dets a) (row dets b) := sub_pos.mpr (commonArea_lt cv hbox)
  have hwide : 0 < (row dets a).area + (row dets b).area
      - inter cv (row dets a) (row dets b) + 1 / 10 ^ 6 := by positivity
  have hmeets : 0 < inter cv (row dets a) (row dets b) := by
    have hovr := hthresh.trans_le hle
    rwa [ovr, div_pos_iff_of_pos_right hwide] at hovr
  refine ⟨hmeets, hle.trans_lt (div_lt_div_of_pos_left hmeets hpos ?_)⟩
  exact lt_add_of_pos_right _ (by positivity)

omit [FloorRing K] in
/-- The score order is strict when no two rows have the same score. -/
theorem scoreOrder_pairwise_lt (argsort : Argsort K)
    (hdistinct : ∀ a < dets.length, ∀ b < dets.length,
      (row dets a).score = (row dets b).score → a = b) :
    (scoreOrder argsort dets).Pairwise fun a b => (row dets b).score < (row dets a).score := by
  refine ((scoreOrder_pairwise argsort dets).and (nodup_scoreOrder argsort dets)).imp_of_mem ?_
  intro a b ha hb hab
  rw [mem_scoreOrder] at ha hb
  exact hab.1.lt_of_ne fun heq => hab.2 (hdistinct a ha b hb heq.symm)

end

/-! ### A run -/

/-- Every pair of the three boxes may be divided. -/
theorem threeBoxes_divides (p : SoftParams ℚ) (hsigma : p.method = 2 → p.sigma ≠ 0) :
    Divides Cv2.aligned p threeBoxes where
  boxes a ha b hb := by
    have hsides : ∀ k < threeBoxes.length,
        0 < (row threeBoxes k).rect.w ∧ 0 < (row threeBoxes k).rect.h := by decide +kernel
    exact ⟨hsides a ha, hsides b hb,
      Cv2.aligned_areaBounded _ _ (hsides a ha).1 (hsides a ha).2 (hsides b hb).1 (hsides b hb).2⟩
  sigma := hsigma

example : cpuSoftNms Cv2.aligned id ⟨3 / 10, 1, 1 / 2, 1 / 2⟩ threeBoxes = .ok [0, 2] := by
  decide +kernel

/-- With the default parameters the second box stays, behind the third one. -/
theorem cpuSoftNms_rows_threeBoxes :
    Returns (softArrays Cv2.aligned id .default threeBoxes) fun s =>
      cpuSoftNms Cv2.aligned id .default threeBoxes = .ok (indsBefore s s.n) ∧
      SoftRows Cv2.aligned id .default threeBoxes s ∧
      (Fades id (.default : SoftParams ℚ) →
        (∀ b < threeBoxes.length, 0 ≤ (row threeBoxes b).score) →
        ∀ j k, j < k → k < s.n → (s.boxes k).score ≤ (s.boxes j).score) :=
  cpuSoftNms_rows (threeBoxes_divides _ (by decide +kernel))

/-- With the minimum one half the second box is dropped. -/
theorem cpuSoftNms_dropped_threeBoxes :
    Returns (softArrays Cv2.aligned id ⟨3 / 10, 1, 1 / 2, 1 / 2⟩ threeBoxes) fun s =>
      ∀ b < threeBoxes.length,
        b ∉ indsBefore s s.n ↔ ∃ k < s.n, b ∉ indsBefore s (k + 1) ∧
          Meets Cv2.aligned threeBoxes (s.inds k) b ∧
          faded Cv2.aligned id ⟨3 / 10, 1, 1 / 2, 1 / 2⟩ threeBoxes (indsBefore s (k + 1)) b
            < 1 / 2 :=
  cpuSoftNms_dropped (p := ⟨3 / 10, 1, 1 / 2, 1 / 2⟩) (threeBoxes_divides _ (by decide +kernel))

end W2Net.Proofs.SoftNms
