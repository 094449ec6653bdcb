import Mathlib.Algebra.BigOperators.Group.List.Basic
import Mathlib.Data.Multiset.Bind
import Mathlib.Tactic.FieldSimp
import W2Net.Lib.InsertionSort
import W2Net.Proofs.Utils.OverlapsCuda
import W2Net.Utils.OverlapsKernel

/-!
# `W2Net.Proofs.Utils.DevRotateIoU`: the overlap of two regions on the device

`reorder_pts` is the insertion sort of the points by their keys (`slots_sortStep`), so its result
is a permutation of the points, in the order of the keys when no point is the centre
(`reorderPts_sorted`). `area` is the area of the fan of the sorted points.

`inter_pts` finds the same points for `(region1, region2)` and for `(region2, region1)`, in
another order (`interPoints_perm`), and the centre does not depend on the order. So the overlap
is symmetric when the points fit into the buffer and different points have different keys
(`devRotateIoU_comm`).

For a region in the middle of another one the points are its four corners. Every triangle of
corners of a parallelogram is one half of it, so the fan is exact in every order
(`devRotateIoU_nested`).
-/

set_option autoImplicit false

namespace W2Net.Proofs.DevRotateIoU

open W2Net.OverlapsCuda
open W2Net.Proofs.OverlapsCuda (Fits Outside StartsAccepted filled_interPts fits_iff_num slack slack_nonneg inter2line_isSome_iff
  clockwise_convertRegion corner_upright)
open W2Net.Proofs.ScaledLabels (realMath realMath_circle)

/-! ### The order of the points -/

section
variable {K : Type}

theorem point_setPoint (cells : ℕ → K) (i : ℕ) (p : K × K) :
    point (setPoint cells i p) = Function.update (point cells) i p := by
  funext j
  by_cases hij : j = i
  · subst hij
    rw [Function.update_self]
    apply Prod.ext
    · show Function.update (Function.update cells (2 * j) p.1) (2 * j + 1) p.2 (2 * j) = p.1
      rw [Function.update_of_ne (by omega), Function.update_self]
    · exact Function.update_self _ _ _
  · rw [Function.update_of_ne hij]
    have hcell : ∀ k, k ≠ 2 * i → k ≠ 2 * i + 1 → setPoint cells i p k = cells k := by
      intro k hk hk'
      rw [setPoint, Function.update_of_ne hk', Function.update_of_ne hk]
    apply Prod.ext
    · exact hcell _ (by omega) (by omega)
    · exact hcell _ (by omega) (by omega)

/-- The keys with their points. -/
def slots (s : KeyedPts K) (k : ℕ) : Option K × (K × K) := (s.vs k, point s.cells k)

theorem slots_set (s : KeyedPts K) (i : ℕ) (v : Option K) (p : K × K) :
    slots ⟨setPoint s.cells i p, Function.update s.vs i v⟩ = Function.update (slots s) i (v, p) := by
  funext k
  unfold slots
  rw [point_setPoint]
  by_cases hki : k = i
  · subst hki
    simp
  · simp [hki]

variable [LinearOrder K]

/-- The comparison of the keys. -/
def slotExceeds (a b : Option K × (K × K)) : Bool := keyExceeds a.1 b.1

theorem slots_shiftLoop (x : Option K × (K × K)) (j : ℕ) (s : KeyedPts K) :
    (slots (shiftLoop x.1 j s).1, (shiftLoop x.1 j s).2) = moveUp slotExceeds x j (slots s) := by
  induction j generalizing s with
  | zero => rfl
  | succ j ih =>
      rw [shiftLoop, moveUp]
      show _ = if keyExceeds (s.vs j) x.1 then _ else _
      split
      · rw [ih, slots_set]
        rfl
      · rfl

/-- A step of `reorder_pts` is a step of insertion sort. -/
theorem slots_sortStep (s : KeyedPts K) (i : ℕ) :
    slots (sortStep s (i + 1)) = insertAt slotExceeds (slots s) (i + 1) := by
  rw [sortStep, Nat.add_sub_cancel]
  split
  · have hloop := slots_shiftLoop (slots s (i + 1)) (i + 1) s
    rw [insertAt, ← hloop]
    exact slots_set _ _ _ _
  · rename_i hle
    have hstay : slotExceeds (slots s i) (slots s (i + 1)) = false := Bool.eq_false_iff.mpr hle
    exact (insertAt_eq_self slotExceeds hstay).symm

/-- The loop of `reorder_pts` is insertion sort. -/
theorem slots_foldl_sortStep (s : KeyedPts K) (i n : ℕ) :
    slots ((List.range' (i + 1) n).foldl sortStep s)
      = (List.range' (i + 1) n).foldl (insertAt slotExceeds) (slots s) := by
  induction n generalizing s i with
  | zero => rfl
  | succ n ih => rw [List.range'_succ, List.foldl_cons, List.foldl_cons, ih, slots_sortStep]

/-- The keys that are numbers are ordered. -/
theorem orders_slotExceeds :
    Orders (slotExceeds (K := K)) fun slot => slot.1 ≠ none where
  asymm a b ha hb h := by
    obtain ⟨x, hx⟩ := Option.ne_none_iff_exists'.mp ha
    obtain ⟨y, hy⟩ := Option.ne_none_iff_exists'.mp hb
    simp only [slotExceeds, hx, hy, keyExceeds, decide_eq_true_eq, decide_eq_false_iff_not] at *
    exact not_lt.mpr h.le
  trans a b c ha hb hc hab hbc := by
    obtain ⟨x, hx⟩ := Option.ne_none_iff_exists'.mp ha
    obtain ⟨y, hy⟩ := Option.ne_none_iff_exists'.mp hb
    obtain ⟨z, hz⟩ := Option.ne_none_iff_exists'.mp hc
    simp only [slotExceeds, hx, hy, hz, keyExceeds, decide_eq_false_iff_not, not_lt] at *
    exact hab.trans hbc

variable [Field K] (m : PyMath K) (cells : ℕ → K) (n : ℕ)

/-- The points in the buffer. -/
def points : List (K × K) := front (point cells) n

/-- The arrays before the loop. -/
def keyed : KeyedPts K := ⟨cells, fun i => sortKey m (center cells n) (point cells i)⟩

theorem front_slots_keyed :
    front (slots (keyed m cells n)) n
      = (points cells n).map fun p => (sortKey m (center cells n) p, p) := by
  rw [points, front, front, List.map_map]
  rfl

/-- The arrays after the loop. -/
def sortedSlots : List (Option K × (K × K)) :=
  front (insertionSort slotExceeds n (slots (keyed m cells n))) n

theorem sortedSlots_perm :
    (sortedSlots m cells n).Perm
      ((points cells n).map fun p => (sortKey m (center cells n) p, p)) := by
  rw [← front_slots_keyed]
  exact insertionSort_perm _ n

/-- The buffer after `reorder_pts`. -/
theorem point_reorderPts (k : ℕ) :
    point (reorderPts m cells n) k
      = (insertionSort slotExceeds n (slots (keyed m cells n)) k).2 := by
  rw [reorderPts]
  split
  · rw [insertionSort, ← slots_foldl_sortStep (keyed m cells n) 0]
    rfl
  · rename_i hn
    rw [Nat.eq_zero_of_not_pos hn]
    rfl

theorem points_reorderPts :
    points (reorderPts m cells n) n = (sortedSlots m cells n).map Prod.snd := by
  rw [points, front, sortedSlots, front, List.map_map]
  exact List.map_congr_left fun k _ => point_reorderPts m cells n k

/-- Each point keeps its key. -/
theorem sortedSlots_eq :
    sortedSlots m cells n
      = (points (reorderPts m cells n) n).map fun p => (sortKey m (center cells n) p, p) := by
  rw [points_reorderPts, List.map_map]
  conv_lhs => rw [← List.map_id (sortedSlots m cells n)]
  refine List.map_congr_left ?_
  intro slot hslot
  obtain ⟨p, -, rfl⟩ := List.mem_map.mp ((sortedSlots_perm m cells n).subset hslot)
  rfl

theorem points_reorderPts_perm : (points (reorderPts m cells n) n).Perm (points cells n) := by
  rw [points_reorderPts]
  have hperm := (sortedSlots_perm m cells n).map Prod.snd
  rw [List.map_map] at hperm
  exact hperm.trans (List.Perm.of_eq (List.map_id _))

/-- `reorder_pts` puts the points into the order of their keys, when no point is the centre, and
leaves the rest of the buffer. The source has room for the keys of 16 points, `n ≤ 16`. -/
theorem reorderPts_sorted :
    (points (reorderPts m cells n) n).Perm (points cells n) ∧
    (∀ k, n ≤ k → point (reorderPts m cells n) k = point cells k) ∧
    ((∀ p ∈ points cells n, sortKey m (center cells n) p ≠ none) →
      (points (reorderPts m cells n) n).Pairwise fun p q =>
        keyExceeds (sortKey m (center cells n) p) (sortKey m (center cells n) q) = false) := by
  refine ⟨points_reorderPts_perm m cells n, ?_, ?_⟩
  · intro k hk
    rw [point_reorderPts, (insertionSort_spec (slots (keyed m cells n)) n).behind k hk]
    rfl
  · intro hkeys
    have hsorted : (sortedSlots m cells n).Pairwise fun a b => slotExceeds a b = false := by
      refine insertionSort_pairwise orders_slotExceeds _ n ?_
      intro k hk
      exact hkeys _ (List.mem_map_of_mem (List.mem_range.mpr hk))
    rw [sortedSlots_eq, List.pairwise_map] at hsorted
    exact hsorted

/-! ### The fan -/

/-- The triangles with the first point. -/
def fanArea (l : List (K × K)) : K :=
  (List.range (l.length - 2)).foldl (fun area i =>
    area + |trangleArea (l.getD 0 0) (l.getD (i + 1) 0) (l.getD (i + 2) 0)|) 0

omit [LinearOrder K] in
theorem getD_points {k : ℕ} (hk : k < n) : (points cells n).getD k 0 = point cells k := by
  simp [points, front, hk]

omit [LinearOrder K] [Field K] in
theorem length_points : (points cells n).length = n := by simp [points, front]

theorem area_eq_fanArea : area cells n = fanArea (points cells n) := by
  rw [area, fanArea, length_points]
  refine List.foldl_ext _ _ _ ?_
  intro total i hi
  rw [List.mem_range] at hi
  rw [getD_points cells n (by omega), getD_points cells n (by omega),
    getD_points cells n (by omega)]

/-- The centre of a list of points. -/
def mean (l : List (K × K)) : K × K := (l.sum.1 / l.length, l.sum.2 / l.length)

omit [LinearOrder K] in
theorem center_eq_mean : center cells n = mean (points cells n) := by
  have hsum : (List.range n).foldl (fun c i => c + point cells i) (0, 0)
      = (points cells n).sum := by
    rw [List.sum_eq_foldl, points, front, List.foldl_map]
    rfl
  rw [center, mean, hsum, length_points]

variable {cells n} in
/-- The keys tell the points of a list apart. -/
structure KeysApart (l : List (K × K)) : Prop where
  number : ∀ p ∈ l, sortKey m (mean l) p ≠ none
  inj : ∀ p ∈ l, ∀ q ∈ l, sortKey m (mean l) p = sortKey m (mean l) q → p = q

omit [LinearOrder K] in
theorem mean_perm {l l' : List (K × K)} (h : l.Perm l') : mean l = mean l' := by
  rw [mean, mean, h.sum_eq, h.length_eq]

omit [Field K] in
/-- Keys that are not comparable are equal. -/
theorem key_eq_of_not_exceeds {a b : Option K} (ha : a ≠ none) (hb : b ≠ none)
    (hab : keyExceeds a b = false) (hba : keyExceeds b a = false) : a = b := by
  obtain ⟨x, rfl⟩ := Option.ne_none_iff_exists'.mp ha
  obtain ⟨y, rfl⟩ := Option.ne_none_iff_exists'.mp hb
  simp only [keyExceeds, decide_eq_false_iff_not, not_lt] at hab hba
  exact congrArg some (le_antisymm hab hba)

/-- The sorted points do not depend on the order in which the points were found. -/
theorem points_reorderPts_eq {cells' : ℕ → K} {n' : ℕ}
    (hperm : (points cells n).Perm (points cells' n')) (hapart : KeysApart m (points cells n)) :
    points (reorderPts m cells n) n = points (reorderPts m cells' n') n' := by
  have hcenter : center cells' n' = mean (points cells n) := by
    rw [center_eq_mean, mean_perm hperm]
  obtain ⟨hfst, -, hsorted⟩ := reorderPts_sorted m cells n
  obtain ⟨hfst', -, hsorted'⟩ := reorderPts_sorted m cells' n'
  rw [center_eq_mean] at hsorted
  rw [hcenter] at hsorted'
  refine (hfst.trans (hperm.trans hfst'.symm)).eq_of_pairwise ?_ (hsorted hapart.number)
    (hsorted' fun p hp => hapart.number p (hperm.symm.subset hp))
  intro p q hp hq hpq hqp
  have hp' := hfst.subset hp
  have hq' := hperm.symm.subset (hfst'.subset hq)
  exact hapart.inj p hp' q hq' (key_eq_of_not_exceeds (hapart.number p hp') (hapart.number q hq')
    hpq hqp)

end

/-! ### The points of an intersection -/

section
variable {K : Type} [Field K] [LinearOrder K]

/-- The points that `inter_pts` finds, in order. -/
def interPoints (pts1 pts2 : QuadRow K) : List (K × K) :=
  ((List.finRange 4).flatMap fun i =>
    (if inrect (corner pts1 i) pts2 then [corner pts1 i] else [])
      ++ if inrect (corner pts2 i) pts1 then [corner pts2 i] else [])
    ++ (List.finRange 4).flatMap fun i =>
      (List.finRange 4).flatMap fun j => (inter2line pts1 pts2 i j).toList

/-- A part of the loops appends these points to those in the buffer. -/
def Appends (step : IntPts K → IntPts K) (l : List (K × K)) : Prop :=
  ∀ s, points (step s).cells (step s).num = points s.cells s.num ++ l

omit [Field K] [LinearOrder K] in
theorem points_push (s : IntPts K) (p : K × K) :
    points (s.push p).cells (s.push p).num = points s.cells s.num ++ [p] := by
  have hcells : (s.push p).cells = setPoint s.cells s.num p := by
    show Function.update (Function.update s.cells (s.num * 2) p.1) (s.num * 2 + 1) p.2 = _
    rw [mul_comm]
    rfl
  show points _ (s.num + 1) = _
  rw [hcells, points, points, front_succ, point_setPoint, Function.update_self]
  refine congrArg (· ++ [p]) (List.map_congr_left ?_)
  intro k hk
  rw [List.mem_range] at hk
  exact Function.update_of_ne hk.ne _ _

omit [Field K] [LinearOrder K] in
theorem appends_push_if (c : Prop) [Decidable c] (p : K × K) :
    Appends (fun s => if c then s.push p else s) (if c then [p] else []) := by
  intro s
  by_cases hc : c
  · simp only [if_pos hc]
    exact points_push s p
  · simp only [if_neg hc, List.append_nil]

omit [Field K] [LinearOrder K] in
theorem Appends.comp {f g : IntPts K → IntPts K} {l l' : List (K × K)} (hf : Appends f l)
    (hg : Appends g l') : Appends (fun s => g (f s)) (l ++ l') := by
  intro s
  show points (g (f s)).cells (g (f s)).num = _
  rw [hg, hf, List.append_assoc]

omit [Field K] [LinearOrder K] in
/-- A loop appends what its steps append. -/
theorem appends_foldl {α : Type} {step : IntPts K → α → IntPts K} {l : α → List (K × K)}
    (h : ∀ i, Appends (step · i) (l i)) (is : List α) :
    Appends (fun s => is.foldl step s) (is.flatMap l) := by
  induction is with
  | nil => exact fun s => (List.append_nil _).symm
  | cons i is ih => exact (h i).comp ih

theorem appends_crossingStep (pts1 pts2 : QuadRow K) (i j : Fin 4) :
    Appends (crossingStep pts1 pts2 i · j) (inter2line pts1 pts2 i j).toList := by
  intro s
  show points (crossingStep pts1 pts2 i s j).cells (crossingStep pts1 pts2 i s j).num = _
  rw [crossingStep]
  cases inter2line pts1 pts2 i j with
  | none => exact (List.append_nil _).symm
  | some p => exact points_push s p

theorem points_interPts (pts1 pts2 : QuadRow K) (intPts : ℕ → K) :
    points (interPts pts1 pts2 intPts).cells (interPts pts1 pts2 intPts).num
      = interPoints pts1 pts2 := by
  have hcorners := appends_foldl
    (fun i => (appends_push_if (inrect (corner pts1 i) pts2) (corner pts1 i)).comp
      (appends_push_if (inrect (corner pts2 i) pts1) (corner pts2 i))) (List.finRange 4)
  have hcrossings := appends_foldl
    (fun i => appends_foldl (appends_crossingStep pts1 pts2 i) (List.finRange 4)) (List.finRange 4)
  exact (hcorners.comp hcrossings) ⟨intPts, [], 0⟩

theorem num_interPts (pts1 pts2 : QuadRow K) (intPts : ℕ → K) :
    (interPts pts1 pts2 intPts).num = (interPoints pts1 pts2).length := by
  rw [← points_interPts pts1 pts2 intPts, points, front, List.length_map, List.length_range]

theorem inter_eq_fanArea (m : PyMath K) (intPts : ℕ → K) (region1 region2 : RowXywha K) :
    let s := interPts (convertRegion m region1) (convertRegion m region2) intPts
    inter m intPts region1 region2 = fanArea (points (reorderPts m s.cells s.num) s.num) :=
  area_eq_fanArea _ _

/-! ### The exchange of the regions -/

omit [LinearOrder K] in
/-- The point where the lines `ab` and `cd` meet lies on both. -/
theorem meeting_point (a b c d : K × K) (h : trangleArea a b d - trangleArea a b c ≠ 0) :
    a + (trangleArea c d a / (trangleArea a b d - trangleArea a b c)) • (b - a)
      = c + (trangleArea a b c / (trangleArea c d b - trangleArea c d a)) • (d - c) := by
  have hfourth : trangleArea c d b - trangleArea c d a
      = -(trangleArea a b d - trangleArea a b c) := by
    simp only [trangleArea]
    ring
  rw [hfourth]
  apply Prod.ext
  · show a.1 + _ * (b.1 - a.1) = c.1 + _ * (d.1 - c.1)
    field_simp
    simp only [trangleArea]
    ring
  · show a.2 + _ * (b.2 - a.2) = c.2 + _ * (d.2 - c.2)
    field_simp
    simp only [trangleArea]
    ring

/-- Two edges cross in one point, whichever comes first. -/
theorem inter2line_comm [IsStrictOrderedRing K] (pts1 pts2 : QuadRow K) (i j : Fin 4) :
    inter2line pts1 pts2 i j = inter2line pts2 pts1 j i := by
  have hcdb := signedArea_exchange (corner pts1 i) (corner pts1 (i + 1)) (corner pts2 j)
    (corner pts2 (j + 1))
  have habd := signedArea_exchange (corner pts2 j) (corner pts2 (j + 1)) (corner pts1 i)
    (corner pts1 (i + 1))
  have hpoint := meeting_point (corner pts1 i) (corner pts1 (i + 1)) (corner pts2 j)
    (corner pts2 (j + 1))
  unfold inter2line
  generalize corner pts1 i = a at *
  generalize corner pts1 (i + 1) = b at *
  generalize corner pts2 j = c at *
  generalize corner pts2 (j + 1) = d at *
  change trangleArea c d b = trangleArea c d a + trangleArea a b c - trangleArea a b d at hcdb
  change trangleArea a b d = trangleArea a b c + trangleArea c d a - trangleArea c d b at habd
  dsimp only
  rw [← hcdb, ← habd]
  by_cases hab : -(1 / 100000) ≤ trangleArea a b c * trangleArea a b d
  · rw [if_pos hab, if_pos hab, ite_self]
  · rw [if_neg hab, if_neg hab]
    by_cases hcd : -(1 / 100000) ≤ trangleArea c d a * trangleArea c d b
    · rw [if_pos hcd, if_pos hcd]
    · -- The ends are on different sides, so their areas are different.
      have hne : trangleArea a b d - trangleArea a b c ≠ 0 := by
        intro heq
        refine hab ?_
        rw [sub_eq_zero.mp heq]
        have hsq := mul_self_nonneg (trangleArea a b c)
        linarith [slack_nonneg (K := K)]
      rw [if_neg hcd, if_neg hcd]
      exact congrArg some (hpoint hne)

/-- The points do not depend on which region is the first, up to their order. -/
theorem interPoints_perm [IsStrictOrderedRing K] (pts1 pts2 : QuadRow K) :
    (interPoints pts1 pts2).Perm (interPoints pts2 pts1) := by
  refine List.Perm.append ?_ ?_
  · exact List.Perm.flatMap_left _ fun i _ => List.perm_append_comm
  · have hswap : ∀ i j, inter2line pts2 pts1 i j = inter2line pts1 pts2 j i :=
      fun i j => inter2line_comm pts2 pts1 i j
    simp only [hswap]
    rw [← Multiset.coe_eq_coe]
    simp only [← Multiset.coe_bind]
    exact Multiset.bind_bind _ _

theorem sameRegion_comm [IsStrictOrderedRing K] (region1 region2 : RowXywha K) :
    SameRegion region1 region2 ↔ SameRegion region2 region1 := by
  unfold SameRegion
  rw [abs_sub_comm region1.cx, abs_sub_comm region1.cy, abs_sub_comm region1.w,
    abs_sub_comm region1.h, abs_sub_comm region1.a]

/-- Any three corners of a parallelogram cut off one half of it. -/
theorem trangleArea_corners [IsStrictOrderedRing K] {q : Fin 4 → K × K}
    (hopposite : q 0 + q 2 = q 1 + q 3) {i j k : Fin 4} (hij : i ≠ j) (hik : i ≠ k)
    (hjk : j ≠ k) :
    |trangleArea (q i) (q j) (q k)| = |trangleArea (q 0) (q 1) (q 2)| := by
  have hfst : (q 3).1 = (q 0).1 + (q 2).1 - (q 1).1 :=
    eq_sub_of_add_eq' (congrArg Prod.fst hopposite).symm
  have hsnd : (q 3).2 = (q 0).2 + (q 2).2 - (q 1).2 :=
    eq_sub_of_add_eq' (congrArg Prod.snd hopposite).symm
  rw [abs_eq_abs]
  -- The triangles differ in their orientation only.
  fin_cases i <;> fin_cases j <;> fin_cases k <;>
    first
    | exact absurd rfl hij
    | exact absurd rfl hik
    | exact absurd rfl hjk
    | exact Or.inl rfl
    | (left; simp only [trangleArea, Fin.reduceFinMk, hfst, hsnd]; ring1)
    | (right; simp only [trangleArea, Fin.reduceFinMk, hfst, hsnd]; ring1)

omit [LinearOrder K] in
theorem trangleArea_self (a b : K × K) : trangleArea a a b = 0 := by
  rw [trangleArea]
  ring

/-- The corners of a parallelogram that is not flat are different. -/
theorem corners_injective [IsStrictOrderedRing K] {q : Fin 4 → K × K}
    (hopposite : q 0 + q 2 = q 1 + q 3) (harea : trangleArea (q 0) (q 1) (q 2) ≠ 0) :
    Function.Injective q := by
  intro i j hij
  by_contra hne
  obtain ⟨k, hik, hjk⟩ : ∃ k, i ≠ k ∧ j ≠ k := by
    clear hij hne
    revert i j
    decide
  have htriangle := trangleArea_corners hopposite hne hik hjk
  rw [hij, trangleArea_self, abs_zero] at htriangle
  exact harea (abs_eq_zero.mp htriangle.symm)

/-- The fan of the four corners has the area of the parallelogram, in every order. -/
theorem fanArea_corners [IsStrictOrderedRing K] {q : Fin 4 → K × K}
    (hopposite : q 0 + q 2 = q 1 + q 3) (harea : trangleArea (q 0) (q 1) (q 2) ≠ 0)
    {l : List (K × K)} (hl : l.Perm ((List.finRange 4).map q)) :
    fanArea l = 2 * |trangleArea (q 0) (q 1) (q 2)| := by
  have hnodup : l.Nodup := by
    rw [hl.nodup_iff]
    exact (List.nodup_finRange 4).map (corners_injective hopposite harea)
  have hlength : l.length = 4 := by rw [hl.length_eq, List.length_map, List.length_finRange]
  obtain ⟨a, b, c, d, rfl⟩ := List.length_eq_four.mp hlength
  have hcorner : ∀ p ∈ [a, b, c, d], ∃ i, q i = p := by
    intro p hp
    obtain ⟨i, -, hi⟩ := List.mem_map.mp (hl.subset hp)
    exact ⟨i, hi⟩
  obtain ⟨i, rfl⟩ := hcorner a (by simp)
  obtain ⟨j, rfl⟩ := hcorner b (by simp)
  obtain ⟨k, rfl⟩ := hcorner c (by simp)
  obtain ⟨n, rfl⟩ := hcorner d (by simp)
  simp only [List.nodup_cons, List.mem_cons, not_or] at hnodup
  obtain ⟨⟨hij, hik, hin, -⟩, ⟨hjk, -⟩, ⟨hkn, -⟩, -⟩ := hnodup
  have hfirst := trangleArea_corners hopposite (fun h => hij (congrArg q h))
    (fun h => hik (congrArg q h)) (fun h => hjk (congrArg q h))
  have hsecond := trangleArea_corners hopposite (fun h => hik (congrArg q h))
    (fun h => hin (congrArg q h)) (fun h => hkn (congrArg q h))
  show 0 + |trangleArea (q i) (q j) (q k)| + |trangleArea (q i) (q k) (q n)| = _
  rw [hfirst, hsecond]
  ring

variable [IsStrictOrderedRing K] {m : PyMath K} {region1 region2 : RowXywha K}

/-- `inrect` measures the distances from the four edges. -/
theorem inrect_distances (m : PyMath K) (region : RowXywha K) (x : K × K) :
    let q := corner (convertRegion m region)
    let ab := q 1 - q 0
    let ad := q 3 - q 0
    let ap := x - q 0
    region.w * (ad.1 * ap.1 + ad.2 * ap.2) = -2 * region.h * signedArea (q 0) (q 1) x ∧
      region.h * (ab.1 * ab.1 + ab.2 * ab.2 - (ab.1 * ap.1 + ab.2 * ap.2))
        = -2 * region.w * signedArea (q 1) (q 2) x ∧
      region.w * (ad.1 * ad.1 + ad.2 * ad.2 - (ad.1 * ap.1 + ad.2 * ap.2))
        = -2 * region.h * signedArea (q 2) (q 3) x ∧
      region.h * (ab.1 * ap.1 + ab.2 * ap.2) = -2 * region.w * signedArea (q 3) (q 0) x := by
  simp only [signedArea, corner, convertRegion]
  generalize m.cos (region.a / 180 * (31415926535 / 10000000000)) = c at *
  generalize m.sin (region.a / 180 * (31415926535 / 10000000000)) = s at *
  refine ⟨?_, ?_, ?_, ?_⟩ <;> simp <;> ring

/-- `inrect` accepts what is not outside. -/
theorem inrect_of_not_outside (hw : 0 < region2.w) (hh : 0 < region2.h) {x : K × K}
    (hx : ¬Outside (corner (convertRegion m region2)) x) : inrect x (convertRegion m region2) := by
  have hside : ∀ {s t d a : K}, 0 < s → 0 < t → s * d = -2 * t * a → a ≤ 0 → -1 ≤ d := by
    intro s t d a hs ht heq ha
    have hd : 0 ≤ s * d := by
      rw [heq]
      nlinarith
    linarith [nonneg_of_mul_nonneg_right hd hs]
  have hle : ∀ j, signedArea (corner (convertRegion m region2) j)
      (corner (convertRegion m region2) (j + 1)) x ≤ 0 :=
    fun j => not_lt.mp fun hlt => hx ⟨j, hlt⟩
  obtain ⟨had, hab', had', hab⟩ := inrect_distances m region2 x
  exact ⟨hside hh hw hab' (hle 1), hside hh hw hab (hle 3), hside hw hh had' (hle 2),
    hside hw hh had (hle 0)⟩

/-- The edges of a region do not cross those of a region around it. -/
theorem inter2line_of_inside
    (hinside : ∀ i, ¬Outside (corner (convertRegion m region2)) (corner (convertRegion m region1) i))
    (i j : Fin 4) : inter2line (convertRegion m region1) (convertRegion m region2) i j = none := by
  have hle : ∀ i j, signedArea (corner (convertRegion m region2) j)
      (corner (convertRegion m region2) (j + 1)) (corner (convertRegion m region1) i) ≤ 0 :=
    fun i j => not_lt.mp fun hlt => hinside i ⟨j, hlt⟩
  rw [← Option.not_isSome_iff_eq_none, inter2line_isSome_iff]
  intro hcrosses
  have hsame := mul_nonneg_of_nonpos_of_nonpos (hle i j) (hle (i + 1) j)
  linarith [hcrosses.2, slack_nonneg (K := K)]

/-- The points of a region inside another one are its corners, in both orders of the regions. -/
theorem interPoints_nested (hw : 0 < region2.w) (hh : 0 < region2.h)
    (hinside : ∀ i, ¬Outside (corner (convertRegion m region2)) (corner (convertRegion m region1) i))
    (hout : ∀ i, ¬inrect (corner (convertRegion m region2) i) (convertRegion m region1)) :
    interPoints (convertRegion m region1) (convertRegion m region2)
      = (List.finRange 4).map (corner (convertRegion m region1)) := by
  have haccepted := fun i => inrect_of_not_outside hw hh (hinside i)
  simp only [interPoints, haccepted, hout, inter2line_of_inside hinside, if_true, if_false]
  rfl

theorem trangleArea_convertRegion (hm : m.Circle) (region : RowXywha K) :
    trangleArea (corner (convertRegion m region) 0) (corner (convertRegion m region) 1)
      (corner (convertRegion m region) 2) = -(region.w * region.h) / 2 := by
  have hcircle := hm (region.a / 180 * (31415926535 / 10000000000))
  simp only [trangleArea, corner, convertRegion]
  generalize m.cos (region.a / 180 * (31415926535 / 10000000000)) = c at *
  generalize m.sin (region.a / 180 * (31415926535 / 10000000000)) = s at *
  simp
  linear_combination -(region.w * region.h) * hcircle

/-- The intersection of a region with a region around it is the region. -/
theorem inter_nested (hm : m.Circle) (hw1 : 0 < region1.w) (hh1 : 0 < region1.h)
    (intPts : ℕ → K) {region region' : RowXywha K}
    (hpoints : (interPoints (convertRegion m region) (convertRegion m region')).Perm
      ((List.finRange 4).map (corner (convertRegion m region1)))) :
    inter m intPts region region' = region1.w * region1.h := by
  have harea := trangleArea_convertRegion hm region1
  have hpos := mul_pos hw1 hh1
  have hne : trangleArea (corner (convertRegion m region1) 0) (corner (convertRegion m region1) 1)
      (corner (convertRegion m region1) 2) ≠ 0 := by
    rw [harea]
    linarith
  rw [inter_eq_fanArea, fanArea_corners (clockwise_convertRegion hm hw1 hh1).opposite hne, harea,
    abs_of_neg (by linarith)]
  · ring
  · refine (points_reorderPts_perm m _ _).trans ?_
    rw [points_interPts]
    exact hpoints

/-- The overlap of a region with a region around it is the ratio of their areas, up to the `1e-6`
of the divisor, when `inrect` accepts no corner of the outer one and the two are not taken for the
same region. -/
theorem devRotateIoU_nested (hm : m.Circle) (intPts : ℕ → K)
    (hw1 : 1 / 10 ≤ region1.w) (hh1 : 1 / 10 ≤ region1.h) (hw2 : 1 / 10 ≤ region2.w)
    (hh2 : 1 / 10 ≤ region2.h) (hsame : ¬SameRegion region1 region2)
    (hinside : ∀ i, ¬Outside (corner (convertRegion m region2)) (corner (convertRegion m region1) i))
    (hout : ∀ i, ¬inrect (corner (convertRegion m region2) i) (convertRegion m region1)) :
    devRotateIoU m intPts region1 region2
        = region1.w * region1.h / (region2.w * region2.h + 1 / 10 ^ 6) ∧
      devRotateIoU m intPts region2 region1
        = region1.w * region1.h / (region2.w * region2.h + 1 / 10 ^ 6) := by
  have htenth : (0 : K) < 1 / 10 := by norm_num
  have hw1' := htenth.trans_le hw1
  have hh1' := htenth.trans_le hh1
  have hpoints := interPoints_nested (htenth.trans_le hw2) (htenth.trans_le hh2) hinside hout
  have hinter := inter_nested hm hw1' hh1' intPts (List.Perm.of_eq hpoints)
  have hinter' := inter_nested hm hw1' hh1' intPts ((interPoints_perm _ _).trans
    (List.Perm.of_eq hpoints))
  have hnonneg : ¬region1.w * region1.h / (region2.w * region2.h + 1 / 10 ^ 6) < 0 := by
    rw [not_lt]
    have := htenth.trans_le hw2
    have := htenth.trans_le hh2
    positivity
  constructor
  · rw [devRotateIoU, if_neg hsame]
    simp only [not_lt.mpr hw1, not_lt.mpr hh1, not_lt.mpr hw2, not_lt.mpr hh2, or_self, if_false,
      hinter, add_sub_cancel_left, hnonneg]
  · rw [devRotateIoU, if_neg ((sameRegion_comm region1 region2).not.mp hsame)]
    simp only [not_lt.mpr hw1, not_lt.mpr hh1, not_lt.mpr hw2, not_lt.mpr hh2, or_self, if_false,
      hinter', add_sub_cancel_right, hnonneg]

end

/-! ### Two regions that are not turned -/

/-- Regions with the same centre. The corners of the inner one are 5 away from it. -/
def inner : RowXywha ℚ := ⟨0, 0, 8, 6, 0⟩

def outer : RowXywha ℚ := ⟨0, 0, 20, 20, 0⟩

example : points (reorderPts .rat (interPts (convertRegion .rat inner) (convertRegion .rat outer)
    fun _ => 0).cells 4) 4 = [(4, -3), (-4, -3), (-4, 3), (4, 3)] := by decide +kernel

theorem devRotateIoU_nested_inner :
    devRotateIoU realMath (fun _ => 0) (⟨0, 0, 8, 6, 0⟩ : RowXywha ℝ) ⟨0, 0, 20, 20, 0⟩
        = 8 * 6 / (20 * 20 + 1 / 10 ^ 6) ∧
      devRotateIoU realMath (fun _ => 0) (⟨0, 0, 20, 20, 0⟩ : RowXywha ℝ) ⟨0, 0, 8, 6, 0⟩
        = 8 * 6 / (20 * 20 + 1 / 10 ^ 6) := by
  refine devRotateIoU_nested realMath_circle _ (by norm_num) (by norm_num) (by norm_num)
    (by norm_num) (by norm_num [SameRegion]) ?_ ?_
  · intro i
    simp only [Outside, not_exists, not_lt, corner_upright]
    intro j
    have hindex : ∀ j : Fin 4, j = 0 ∨ j = 1 ∨ j = 2 ∨ j = 3 := by decide
    rcases hindex i with rfl | rfl | rfl | rfl <;> rcases hindex j with rfl | rfl | rfl | rfl <;>
      simp only [signedArea, Fin.reduceAdd, Matrix.cons_val] <;> norm_num
  · intro i
    simp only [inrect, corner_upright, Matrix.cons_val]
    fin_cases i <;> norm_num

end W2Net.Proofs.DevRotateIoU
