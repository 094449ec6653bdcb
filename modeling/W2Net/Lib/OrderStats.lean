import Mathlib.Algebra.Order.Field.Basic
import Mathlib.Algebra.Order.Floor.Ring
import Mathlib.Data.List.GetD
import Mathlib.Data.List.Sort
import Mathlib.Tactic.Linarith
import Mathlib.Tactic.Ring
import W2Net.Lib.Numerals

/-!
# `W2Net.Lib.OrderStats`: sorted values, medians and percentiles

`npSort` is `numpy.sort`, and `orderStat xs k` its entry `k`. What callers use of
the sort is one fact (`orderStat_iff`): a property that passes to smaller values
holds of the entry `k` exactly when more than `k` values have it. The bounds of a
median, the half of the values below it and the value that a majority forces on it
are read off from there.
-/

set_option autoImplicit false

namespace W2Net

section
variable {K : Type} [LinearOrder K]

/-- `numpy.sort`. -/
def npSort (xs : List K) : List K := xs.insertionSort (· ≤ ·)

theorem npSort_perm (xs : List K) : (npSort xs).Perm xs := List.perm_insertionSort _ xs

theorem pairwise_npSort (xs : List K) : (npSort xs).Pairwise (· ≤ ·) :=
  List.pairwise_insertionSort _ xs

@[simp] theorem length_npSort (xs : List K) : (npSort xs).length = xs.length :=
  (npSort_perm xs).length_eq

theorem mem_npSort {xs : List K} {x : K} : x ∈ npSort xs ↔ x ∈ xs := (npSort_perm xs).mem_iff

/-- The sorted values do not depend on the order of the list. -/
theorem npSort_eq_of_perm {xs ys : List K} (h : xs.Perm ys) : npSort xs = npSort ys :=
  List.Perm.eq_of_pairwise' (r := (· ≤ ·)) (pairwise_npSort xs) (pairwise_npSort ys)
    (((npSort_perm xs).trans h).trans (npSort_perm ys).symm)

/-- A list in order is its own sort. -/
theorem npSort_eq_of_pairwise {xs ys : List K} (h : xs.Perm ys) (hys : ys.Pairwise (· ≤ ·)) :
    npSort xs = ys :=
  List.Perm.eq_of_pairwise' (r := (· ≤ ·)) (pairwise_npSort xs) hys ((npSort_perm xs).trans h)

/-- An increasing map keeps the order of the sort. -/
theorem npSort_map_monotone {f : K → K} (hf : Monotone f) (xs : List K) :
    npSort (xs.map f) = (npSort xs).map f :=
  npSort_eq_of_pairwise ((npSort_perm xs).symm.map f)
    (List.pairwise_map.mpr ((pairwise_npSort xs).imp fun h => hf h))

/-- A decreasing map reverses it. -/
theorem npSort_map_antitone {f : K → K} (hf : Antitone f) (xs : List K) :
    npSort (xs.map f) = ((npSort xs).map f).reverse := by
  apply npSort_eq_of_pairwise
  · exact ((npSort_perm xs).symm.map f).trans (List.reverse_perm _).symm
  · rw [List.pairwise_reverse, List.pairwise_map]
    exact (pairwise_npSort xs).imp fun h => hf h

/-- In a sorted list, the values with a property that passes to smaller ones come
first. Induction on the list: the first value has the property, or none has it. -/
theorem getElem_iff_lt_countP {s : List K} (hs : s.Pairwise (· ≤ ·)) {p : K → Bool}
    (hp : ∀ a b, a ≤ b → p b = true → p a = true) :
    ∀ {k : ℕ} (hk : k < s.length), p s[k] = true ↔ k < s.countP p := by
  induction s with
  | nil => intro k hk; cases hk
  | cons a s ih =>
      intro k hk
      have hrest := List.pairwise_cons.mp hs
      cases ha : p a with
      | true =>
          rw [List.countP_cons_of_pos ha]
          cases k with
          | zero => simp [ha]
          | succ k =>
              rw [List.getElem_cons_succ, ih hrest.2]
              omega
      | false =>
          -- No later value is smaller than the first one.
          have hnone : ∀ b ∈ a :: s, ¬ p b = true := by
            intro b hb hpb
            rcases List.mem_cons.mp hb with rfl | hb
            · simp [ha] at hpb
            · have hpa := hp a b (hrest.1 b hb) hpb
              simp [ha] at hpa
          rw [List.countP_eq_zero.mpr hnone]
          exact iff_of_false (hnone _ (List.getElem_mem hk)) (Nat.not_lt_zero k)

/-- The list with one entry replaced, the new entry first. -/
theorem set_perm_cons_eraseIdx {α : Type} (xs : List α) {i : ℕ} (hi : i < xs.length) (x : α) :
    (xs.set i x).Perm (x :: xs.eraseIdx i) := by
  rw [List.set_eq_take_append_cons_drop, if_pos hi, List.eraseIdx_eq_take_drop_succ]
  exact List.perm_middle

/-- The smallest and the largest value of a list that has one. -/
theorem exists_range {xs : List K} (hne : xs ≠ []) :
    ∃ lo ∈ xs, ∃ hi ∈ xs, ∀ y ∈ xs, lo ≤ y ∧ y ≤ hi :=
  ⟨xs.min hne, List.min_mem hne, xs.max hne, List.max_mem hne,
    fun _ hy => ⟨List.min_le_of_mem hy, List.le_max_of_mem hy⟩⟩

end

section
variable {K : Type} [Zero K] [LinearOrder K]

/-- The value at position `k` of the sorted list. -/
def orderStat (xs : List K) (k : ℕ) : K := (npSort xs).getD k 0

theorem orderStat_eq_getElem {xs : List K} {k : ℕ} (hk : k < (npSort xs).length) :
    orderStat xs k = (npSort xs)[k] := List.getD_eq_getElem _ _ hk

theorem orderStat_eq_of_perm {xs ys : List K} (h : xs.Perm ys) (k : ℕ) :
    orderStat xs k = orderStat ys k := by
  rw [orderStat, orderStat, npSort_eq_of_perm h]

theorem orderStat_mem {xs : List K} {k : ℕ} (hk : k < xs.length) : orderStat xs k ∈ xs := by
  rw [← length_npSort xs] at hk
  rw [orderStat_eq_getElem hk, ← mem_npSort]
  exact List.getElem_mem hk

/-- The entry `k` has a property that passes to smaller values when more than `k`
values have it. -/
theorem orderStat_iff {xs : List K} {p : K → Bool} (hp : ∀ a b, a ≤ b → p b = true → p a = true)
    {k : ℕ} (hk : k < xs.length) : p (orderStat xs k) = true ↔ k < xs.countP p := by
  rw [← length_npSort xs] at hk
  rw [orderStat_eq_getElem hk, getElem_iff_lt_countP (pairwise_npSort xs) hp,
    (npSort_perm xs).countP_eq]

theorem orderStat_le_iff {xs : List K} {k : ℕ} (hk : k < xs.length) (x : K) :
    orderStat xs k ≤ x ↔ k < xs.countP fun y => decide (y ≤ x) := by
  rw [← orderStat_iff (fun a b hab hb => by simp at hb ⊢; exact hab.trans hb) hk,
    decide_eq_true_iff]

theorem orderStat_lt_iff {xs : List K} {k : ℕ} (hk : k < xs.length) (x : K) :
    orderStat xs k < x ↔ k < xs.countP fun y => decide (y < x) := by
  rw [← orderStat_iff (fun a b hab hb => by simp at hb ⊢; exact hab.trans_lt hb) hk,
    decide_eq_true_iff]

theorem orderStat_mono {xs : List K} {j k : ℕ} (hjk : j ≤ k) (hk : k < xs.length) :
    orderStat xs j ≤ orderStat xs k := by
  rw [orderStat_le_iff (hjk.trans_lt hk)]
  exact hjk.trans_lt ((orderStat_le_iff hk _).mp le_rfl)

/-- A value with a smaller and a larger place beside it is in the range of the
other values. -/
theorem orderStat_cons_mem_range {x : K} {rest : List K} {lo hi : K}
    (h : ∀ y ∈ rest, lo ≤ y ∧ y ≤ hi) {k : ℕ} (hk : 1 ≤ k) (hk' : k < rest.length) :
    lo ≤ orderStat (x :: rest) k ∧ orderStat (x :: rest) k ≤ hi := by
  have hlen : k < (x :: rest).length := by
    rw [List.length_cons]
    omega
  constructor
  · -- At most `x` is below `lo`, and the place is not the first one.
    rw [← not_lt, orderStat_lt_iff hlen]
    have hnone : rest.countP (fun y => decide (y < lo)) = 0 :=
      List.countP_eq_zero.mpr fun y hy => by simpa using (h y hy).1
    rw [List.countP_cons, hnone]
    split <;> omega
  · -- All of the others are at most `hi`, and the place is not the last one.
    rw [orderStat_le_iff hlen]
    have hall : rest.countP (fun y => decide (y ≤ hi)) = rest.length :=
      List.countP_eq_length.mpr fun y hy => by simpa using (h y hy).2
    rw [List.countP_cons, hall]
    omega

end

/-! ### Differences -/

section
variable {K : Type} [AddCommGroup K]

/-- `numpy.diff`. -/
def npDiff (xs : List K) : List K := List.zipWith (· - ·) xs.tail xs.dropLast

@[simp] theorem length_npDiff (xs : List K) : (npDiff xs).length = xs.length - 1 := by
  simp [npDiff]

/-- A shift of all values cancels. -/
theorem npDiff_map_add (c : K) (xs : List K) : npDiff (xs.map (· + c)) = npDiff xs := by
  simp only [npDiff, ← List.map_tail, ← List.map_dropLast, List.zipWith_map, add_sub_add_right_eq_sub]

/-- The differences of the opposite values, from the other end. -/
theorem npDiff_reverse_neg (xs : List K) :
    npDiff (xs.map (- ·)).reverse = (npDiff xs).reverse := by
  have hlen : xs.tail.length = xs.dropLast.length := by simp
  have hflip : ∀ a b : K, -a - -b = b - a := by
    intro a b
    rw [neg_sub_neg]
  rw [npDiff, npDiff, List.reverse_zipWith hlen, ← List.map_reverse, ← List.map_tail,
    ← List.map_dropLast, List.zipWith_map, List.tail_reverse, List.dropLast_reverse,
    List.zipWith_comm]
  simp only [hflip]

end

/-- The differences of values in order are not negative. -/
theorem npDiff_nonneg {K : Type} [AddCommGroup K] [LinearOrder K] [IsOrderedAddMonoid K]
    {xs : List K} (h : xs.Pairwise (· ≤ ·)) {d : K} (hd : d ∈ npDiff xs) : 0 ≤ d := by
  obtain ⟨k, hk, rfl⟩ := List.getElem_of_mem hd
  rw [length_npDiff] at hk
  simp only [npDiff, List.getElem_zipWith, List.getElem_tail, List.getElem_dropLast, sub_nonneg]
  exact List.pairwise_iff_getElem.mp h k (k + 1) (by omega) (by omega) (by omega)

/-! ### The median -/

section
variable {K : Type} [Field K] [LinearOrder K]

/-- `numpy.median` of a list with an entry: the middle one of an odd number of
values, the mean of the two middle ones of an even number. -/
def npMedian (xs : List K) : K :=
  if xs.length % 2 = 1 then orderStat xs (xs.length / 2)
  else (orderStat xs (xs.length / 2 - 1) + orderStat xs (xs.length / 2)) / 2

theorem npMedian_eq_of_perm {xs ys : List K} (h : xs.Perm ys) : npMedian xs = npMedian ys := by
  simp only [npMedian, h.length_eq, orderStat_eq_of_perm h]

variable [IsStrictOrderedRing K]

/-- The median lies between the two middle values. -/
theorem npMedian_between {xs : List K} (hne : xs ≠ []) :
    orderStat xs ((xs.length - 1) / 2) ≤ npMedian xs ∧
      npMedian xs ≤ orderStat xs (xs.length / 2) := by
  have hpos : 0 < xs.length := List.length_pos_of_ne_nil hne
  unfold npMedian
  split
  · rename_i hodd
    have hmid : (xs.length - 1) / 2 = xs.length / 2 := by omega
    rw [hmid]
    exact ⟨le_rfl, le_rfl⟩
  · rename_i heven
    have hmid : (xs.length - 1) / 2 = xs.length / 2 - 1 := by omega
    have hle : orderStat xs (xs.length / 2 - 1) ≤ orderStat xs (xs.length / 2) :=
      orderStat_mono (Nat.sub_le _ _) (by omega)
    rw [hmid]
    constructor <;> linarith

theorem npMedian_mem_range {xs : List K} (hne : xs ≠ []) {lo hi : K}
    (h : ∀ x ∈ xs, lo ≤ x ∧ x ≤ hi) : lo ≤ npMedian xs ∧ npMedian xs ≤ hi := by
  have hpos : 0 < xs.length := List.length_pos_of_ne_nil hne
  obtain ⟨hlow, hhigh⟩ := npMedian_between hne
  have hlo := (h _ (orderStat_mem (show (xs.length - 1) / 2 < xs.length by omega))).1
  have hhi := (h _ (orderStat_mem (show xs.length / 2 < xs.length by omega))).2
  exact ⟨hlo.trans hlow, hhigh.trans hhi⟩

/-- At least half of the values are not above the median. -/
theorem length_le_two_mul_countP_le_npMedian {xs : List K} (hne : xs ≠ []) :
    xs.length ≤ 2 * xs.countP fun x => decide (x ≤ npMedian xs) := by
  have hpos : 0 < xs.length := List.length_pos_of_ne_nil hne
  have hcount := (orderStat_le_iff (by omega) _).mp (npMedian_between hne).1
  omega

/-- A value that more than half of the entries have is the median. -/
theorem npMedian_eq_of_majority {xs : List K} {c : K} (h : xs.length < 2 * xs.count c) :
    npMedian xs = c := by
  have hle : xs.count c ≤ xs.length := List.count_le_length
  have hne : xs ≠ [] := List.ne_nil_of_length_pos (by omega)
  obtain ⟨hlow, hhigh⟩ := npMedian_between hne
  have hbelow : xs.count c ≤ xs.countP fun y => decide (y ≤ c) :=
    List.countP_mono_left fun y _ hy => by simpa using (eq_of_beq hy).le
  have hup : orderStat xs (xs.length / 2) ≤ c := (orderStat_le_iff (by omega) c).mpr (by omega)
  have hdown : c ≤ orderStat xs ((xs.length - 1) / 2) := by
    -- The values below `c` are among the other entries.
    have hrest : xs.countP (fun y => decide (y < c)) ≤ xs.countP fun y => !(y == c) :=
      List.countP_mono_left fun y _ hy => by simpa using (of_decide_eq_true hy).ne
    have hsplit := List.length_eq_countP_add_countP (fun y => y == c) (l := xs)
    rw [← not_lt, orderStat_lt_iff (by omega)]
    simp only [List.count, Bool.not_eq_true, Bool.decide_eq_false] at h hsplit
    omega
  exact le_antisymm (hhigh.trans hup) (hdown.trans hlow)

/-- A median at the lower bound of the values means that most values are there. -/
theorem length_lt_two_mul_countP_of_npMedian_le {xs : List K} (hne : xs ≠ []) {lo : K}
    (hlo : ∀ x ∈ xs, lo ≤ x) (hmed : npMedian xs ≤ lo) :
    xs.length < 2 * xs.countP fun x => decide (x ≤ lo) := by
  have hpos : 0 < xs.length := List.length_pos_of_ne_nil hne
  have hmid : orderStat xs (xs.length / 2) ≤ lo := by
    unfold npMedian at hmed
    split at hmed
    · exact hmed
    · have hlow := hlo _ (orderStat_mem (show xs.length / 2 - 1 < xs.length by omega))
      linarith
  have hcount := (orderStat_le_iff (by omega) lo).mp hmid
  omega

end

/-! ### Percentiles -/

section
variable {K : Type} [Field K] [LinearOrder K] [FloorRing K]

/-- `numpy.percentile` with linear interpolation between neighbouring entries of
the sorted list. -/
def npPercentile (xs : List K) (q : K) : K :=
  let v := ((xs.length - 1 : ℕ) : K) * (q / 100)
  let lo := orderStat xs ⌊v⌋.toNat
  let hi := orderStat xs (min (⌊v⌋.toNat + 1) (xs.length - 1))
  lo + (hi - lo) * (v - ⌊v⌋)

theorem npPercentile_eq_of_perm {xs ys : List K} (h : xs.Perm ys) (q : K) :
    npPercentile xs q = npPercentile ys q := by
  simp only [npPercentile, h.length_eq, orderStat_eq_of_perm h]

variable [IsStrictOrderedRing K]

/-- An entry in front of the percentile's place is not above it. -/
theorem orderStat_le_npPercentile {xs : List K} {q : K} (hq : q ≤ 100) {k : ℕ}
    (hk : k < xs.length) (hv : (k : K) ≤ ((xs.length - 1 : ℕ) : K) * (q / 100)) :
    orderStat xs k ≤ npPercentile xs q := by
  have hlast : ((xs.length - 1 : ℕ) : K) * (q / 100) ≤ ((xs.length - 1 : ℕ) : K) := by
    have hone : q / 100 ≤ 1 := by linarith
    exact mul_le_of_le_one_right (Nat.cast_nonneg _) hone
  unfold npPercentile
  generalize ((xs.length - 1 : ℕ) : K) * (q / 100) = v at hv hlast ⊢
  have hfloor : (k : ℤ) ≤ ⌊v⌋ := Int.le_floor.mpr (by exact_mod_cast hv)
  have hfloor' : ⌊v⌋ ≤ ((xs.length - 1 : ℕ) : ℤ) :=
    Int.cast_le.mp ((Int.floor_le v).trans (by exact_mod_cast hlast))
  have hlow : orderStat xs k ≤ orderStat xs ⌊v⌋.toNat := orderStat_mono (by omega) (by omega)
  have hstep : orderStat xs ⌊v⌋.toNat
      ≤ orderStat xs (min (⌊v⌋.toNat + 1) (xs.length - 1)) :=
    orderStat_mono (by omega) (by omega)
  have hfract : 0 ≤ v - ⌊v⌋ := sub_nonneg.mpr (Int.floor_le v)
  -- The interpolation adds a part of the step to the next entry.
  have hpart := mul_nonneg (sub_nonneg.mpr hstep) hfract
  linarith

/-- An entry behind the percentile's place is not below it. -/
theorem npPercentile_le_orderStat {xs : List K} {q : K} (hq : 0 ≤ q) {k : ℕ}
    (hk : k < xs.length) (hv : ((xs.length - 1 : ℕ) : K) * (q / 100) ≤ k) :
    npPercentile xs q ≤ orderStat xs k := by
  have hpos : 0 ≤ ((xs.length - 1 : ℕ) : K) * (q / 100) :=
    mul_nonneg (Nat.cast_nonneg _) (by linarith)
  unfold npPercentile
  generalize ((xs.length - 1 : ℕ) : K) * (q / 100) = v at hv hpos ⊢
  have hfloor0 : 0 ≤ ⌊v⌋ := Int.floor_nonneg.mpr hpos
  have hfloor : ⌊v⌋ ≤ (k : ℤ) := Int.cast_le.mp ((Int.floor_le v).trans (by exact_mod_cast hv))
  have hfract : 0 ≤ v - ⌊v⌋ := sub_nonneg.mpr (Int.floor_le v)
  rcases hfloor.lt_or_eq with hlt | heq
  · -- Both neighbours are entries up to `k`, and the percentile lies between them.
    have hlow : orderStat xs ⌊v⌋.toNat ≤ orderStat xs k := orderStat_mono (by omega) hk
    have hhigh : orderStat xs (min (⌊v⌋.toNat + 1) (xs.length - 1)) ≤ orderStat xs k :=
      orderStat_mono (by omega) hk
    have hone : v - ⌊v⌋ ≤ 1 := by linarith [Int.lt_floor_add_one v]
    calc orderStat xs ⌊v⌋.toNat + (orderStat xs (min (⌊v⌋.toNat + 1) (xs.length - 1))
            - orderStat xs ⌊v⌋.toNat) * (v - ⌊v⌋)
        ≤ orderStat xs ⌊v⌋.toNat + (orderStat xs k - orderStat xs ⌊v⌋.toNat) * (v - ⌊v⌋) := by
          gcongr
      _ ≤ orderStat xs ⌊v⌋.toNat + (orderStat xs k - orderStat xs ⌊v⌋.toNat) * 1 := by
          gcongr
      _ = orderStat xs k := by ring
  · -- The place is the entry `k` itself.
    have hzero : v - ⌊v⌋ = 0 := by
      have hcast : ((⌊v⌋ : ℤ) : K) = k := by exact_mod_cast congrArg (Int.cast (R := K)) heq
      linarith
    have hk' : ⌊v⌋.toNat = k := by omega
    simp only [hzero, mul_zero, add_zero, hk', le_refl]

end

end W2Net
