import Mathlib.Data.List.Range
import Mathlib.Logic.Function.Basic

/-!
# `W2Net.Lib.InsertionSort`: insertion sort of the front of an array

An array is a function on indices. `insertAt` puts the element `i` into its place among the
elements in front of it: the elements that exceed it move up by one (`moveUp`). The comparison
`gt` is any test, so the result is a permutation whatever it says (`insertionSort_perm`). The
result is in order when the test is a strict weak order on the elements
(`insertionSort_pairwise`).
-/

set_option autoImplicit false

namespace W2Net

variable {α : Type} (gt : α → α → Bool)

/-- The elements in front of `j` that exceed `x` move up by one, from the last one to the first
one that does not. The result has the free place. -/
def moveUp (x : α) : ℕ → (ℕ → α) → (ℕ → α) × ℕ
  | 0, f => (f, 0)
  | j + 1, f => if gt (f j) x then moveUp x j (Function.update f (j + 1) (f j)) else (f, j + 1)

/-- The element `i` goes to its place. -/
def insertAt (f : ℕ → α) (i : ℕ) : ℕ → α :=
  let moved := moveUp gt (f i) i f
  Function.update moved.1 moved.2 (f i)

/-- Insertion sort of the first `n` elements. -/
def insertionSort (n : ℕ) (f : ℕ → α) : ℕ → α := (List.range' 1 (n - 1)).foldl (insertAt gt) f

/-- The first `n` elements. -/
def front (f : ℕ → α) (n : ℕ) : List α := (List.range n).map f

theorem front_succ (f : ℕ → α) (n : ℕ) : front f (n + 1) = front f n ++ [f n] := by
  rw [front, List.range_succ, List.map_append]
  rfl

/-- What `moveUp` has done from the place `j` on. -/
structure MovedUp (x : α) (j : ℕ) (f : ℕ → α) (moved : (ℕ → α) × ℕ) : Prop where
  place_le : moved.2 ≤ j
  before : ∀ k < moved.2, moved.1 k = f k
  behind : ∀ k, j < k → moved.1 k = f k
  shifted : ∀ k, moved.2 ≤ k → k < j → moved.1 (k + 1) = f k
  exceeds : ∀ k, moved.2 ≤ k → k < j → gt (f k) x = true
  stop : ∀ k, k + 1 = moved.2 → gt (f k) x = false

theorem moveUp_spec (x : α) (j : ℕ) (f : ℕ → α) : MovedUp gt x j f (moveUp gt x j f) := by
  induction j generalizing f with
  | zero =>
      refine ⟨le_rfl, fun _ _ => rfl, fun _ _ => rfl, ?_, ?_, ?_⟩
      · intro k _ hk
        exact absurd hk (Nat.not_lt_zero k)
      · intro k _ hk
        exact absurd hk (Nat.not_lt_zero k)
      · intro k hk
        exact absurd hk (Nat.succ_ne_zero k)
  | succ j ih =>
      rw [moveUp]
      split
      · rename_i hgt
        have h := ih (Function.update f (j + 1) (f j))
        have hf : ∀ k ≤ j, Function.update f (j + 1) (f j) k = f k := by
          intro k hk
          exact Function.update_of_ne (by omega) _ _
        have hplace := h.place_le
        refine ⟨by omega, ?_, ?_, ?_, ?_, ?_⟩
        · intro k hk
          rw [h.before k hk, hf k (by omega)]
        · intro k hk
          rw [h.behind k (by omega), Function.update_of_ne (by omega)]
        · intro k hle hk
          rcases Nat.lt_succ_iff_lt_or_eq.mp hk with hlt | rfl
          · rw [h.shifted k hle hlt, hf k hlt.le]
          · rw [h.behind (k + 1) (Nat.lt_succ_self k), Function.update_self]
        · intro k hle hk
          rcases Nat.lt_succ_iff_lt_or_eq.mp hk with hlt | rfl
          · rw [← hf k hlt.le]
            exact h.exceeds k hle hlt
          · exact hgt
        · intro k hk
          rw [← hf k (by omega)]
          exact h.stop k hk
      · rename_i hgt
        refine ⟨le_rfl, fun _ _ => rfl, fun _ _ => rfl, ?_, ?_, ?_⟩
        · intro k hle hk
          exact absurd hk (not_lt.mpr hle)
        · intro k hle hk
          exact absurd hk (not_lt.mpr hle)
        · intro k hk
          rw [Nat.succ.inj hk]
          exact Bool.eq_false_iff.mpr hgt

/-- The places behind `i` stay as they are. -/
theorem insertAt_of_lt (f : ℕ → α) {i k : ℕ} (hk : i < k) : insertAt gt f i k = f k := by
  have h := moveUp_spec gt (f i) i f
  have hplace := h.place_le
  rw [insertAt, Function.update_of_ne (by omega), h.behind k hk]

/-- An element that the one in front of it does not exceed stays. -/
theorem insertAt_eq_self {f : ℕ → α} {i : ℕ} (h : gt (f i) (f (i + 1)) = false) :
    insertAt gt f (i + 1) = f := by
  have hmoved : moveUp gt (f (i + 1)) (i + 1) f = (f, i + 1) := by
    rw [moveUp, h]
    rfl
  rw [insertAt, hmoved]
  exact Function.update_eq_self _ _

/-- The place of the element `i`. -/
def place (f : ℕ → α) (i : ℕ) : ℕ := (moveUp gt (f i) i f).2

/-- The elements in front of the place, and those from the place on. -/
theorem front_split (f : ℕ → α) {j i : ℕ} (hj : j ≤ i) :
    front f i = front f j ++ (List.range' j (i - j)).map f := by
  have hi : i = j + (i - j) := by omega
  rw [front, front, ← List.map_append]
  conv_lhs => rw [hi, List.range_eq_range', ← List.range'_append_1, Nat.zero_add,
    ← List.range_eq_range']

/-- The element `i` goes between those in front of its place and those from its place on. -/
theorem front_insertAt (f : ℕ → α) (i : ℕ) :
    front (insertAt gt f i) (i + 1)
      = front f (place gt f i) ++ f i :: (List.range' (place gt f i) (i - place gt f i)).map f := by
  have h := moveUp_spec gt (f i) i f
  have hplace : place gt f i ≤ i := h.place_le
  have hself : insertAt gt f i (place gt f i) = f i := Function.update_self _ _ _
  have hbefore : front (insertAt gt f i) (place gt f i) = front f (place gt f i) := by
    refine List.map_congr_left ?_
    intro k hk
    rw [List.mem_range] at hk
    show Function.update (moveUp gt (f i) i f).1 (place gt f i) (f i) k = f k
    rw [Function.update_of_ne hk.ne]
    exact h.before k hk
  have hbehind : (List.range' (place gt f i + 1) (i - place gt f i)).map (insertAt gt f i)
      = (List.range' (place gt f i) (i - place gt f i)).map f := by
    rw [List.range'_eq_map_range, List.range'_eq_map_range, List.map_map, List.map_map]
    refine List.map_congr_left ?_
    intro k hk
    rw [List.mem_range] at hk
    show Function.update (moveUp gt (f i) i f).1 (place gt f i) (f i) (place gt f i + 1 + k)
      = f (place gt f i + k)
    rw [Function.update_of_ne (by omega), Nat.add_right_comm]
    exact h.shifted _ (Nat.le_add_right _ _) (by omega)
  have hlength : i + 1 - place gt f i = i - place gt f i + 1 := by omega
  rw [front_split (insertAt gt f i) (hplace.trans (Nat.le_succ i)), hbefore, hlength,
    List.range'_succ, List.map_cons, hself, hbehind]

theorem insertAt_perm (f : ℕ → α) (i : ℕ) :
    (front (insertAt gt f i) (i + 1)).Perm (front f (i + 1)) := by
  have hplace : place gt f i ≤ i := (moveUp_spec gt (f i) i f).place_le
  rw [front_insertAt, front_succ, front_split f hplace, List.append_assoc]
  exact List.Perm.append_left _ (List.perm_append_singleton _ _).symm

/-- The test is a strict weak order on the elements with `P`. -/
structure Orders (P : α → Prop) : Prop where
  asymm : ∀ a b, P a → P b → gt a b = true → gt b a = false
  trans : ∀ a b c, P a → P b → P c → gt a b = false → gt b c = false → gt a c = false

variable {gt} {P : α → Prop}

/-- An element goes to its place among elements that are in order. -/
theorem insertAt_pairwise (h : Orders gt P) {f : ℕ → α} {i : ℕ} (hP : ∀ k ≤ i, P (f k))
    (hsort : (front f i).Pairwise fun a b => gt a b = false) :
    (front (insertAt gt f i) (i + 1)).Pairwise fun a b => gt a b = false := by
  have hmoved := moveUp_spec gt (f i) i f
  have hplace : place gt f i ≤ i := hmoved.place_le
  rw [front_split f hplace, List.pairwise_append] at hsort
  obtain ⟨hfront, hback, hacross⟩ := hsort
  -- What stands in front of the place does not exceed the element there.
  have hless : ∀ a ∈ front f (place gt f i), gt a (f i) = false := by
    intro a ha
    obtain ⟨k, hk, rfl⟩ := List.mem_map.mp ha
    rw [List.mem_range] at hk
    obtain ⟨m, hm⟩ : ∃ m, place gt f i = m + 1 := ⟨place gt f i - 1, by omega⟩
    have hlast : gt (f m) (f i) = false := hmoved.stop m hm.symm
    rcases Nat.lt_or_ge k m with hkm | hmk
    · rw [hm, front_succ, List.pairwise_append] at hfront
      have hkm' := hfront.2.2 (f k) (List.mem_map_of_mem (List.mem_range.mpr hkm)) (f m)
        (List.mem_singleton_self _)
      exact h.trans _ _ _ (hP k (by omega)) (hP m (by omega)) (hP i le_rfl) hkm' hlast
    · have hkm : k = m := by omega
      rw [hkm]
      exact hlast
  have hmore : ∀ b ∈ (List.range' (place gt f i) (i - place gt f i)).map f,
      gt (f i) b = false := by
    intro b hb
    obtain ⟨k, hk, rfl⟩ := List.mem_map.mp hb
    rw [List.mem_range'_1] at hk
    exact h.asymm _ _ (hP k (by omega)) (hP i le_rfl) (hmoved.exceeds k hk.1 (by omega))
  rw [front_insertAt, List.pairwise_append, List.pairwise_cons]
  refine ⟨hfront, ⟨hmore, hback⟩, ?_⟩
  intro a ha b hb
  rcases List.mem_cons.mp hb with rfl | hb
  · exact hless a ha
  · exact hacross a ha b hb

/-- What the sort has done in front of `i`. -/
structure SortedFront (gt : α → α → Bool) (f : ℕ → α) (i : ℕ) (g : ℕ → α) : Prop where
  perm : (front g i).Perm (front f i)
  behind : ∀ k, i ≤ k → g k = f k

theorem SortedFront.step {f g : ℕ → α} {i : ℕ} (h : SortedFront gt f i g) :
    SortedFront gt f (i + 1) (insertAt gt g i) := by
  refine ⟨?_, ?_⟩
  · refine (insertAt_perm gt g i).trans ?_
    rw [front_succ, front_succ, h.behind i le_rfl]
    exact h.perm.append_right _
  · intro k hk
    rw [insertAt_of_lt gt g hk, h.behind k (by omega)]

/-- The sort with one more element. -/
theorem insertionSort_succ (f : ℕ → α) (i : ℕ) :
    insertionSort gt (i + 2) f = insertAt gt (insertionSort gt (i + 1) f) (i + 1) := by
  have hlength : i + 2 - 1 = i + 1 := rfl
  rw [insertionSort, hlength, List.range'_1_concat, List.foldl_append, Nat.add_comm 1 i]
  rfl

theorem insertionSort_spec (f : ℕ → α) (n : ℕ) : SortedFront gt f n (insertionSort gt n f) := by
  cases n with
  | zero => exact ⟨List.Perm.refl _, fun _ _ => rfl⟩
  | succ n =>
      induction n with
      | zero => exact ⟨List.Perm.refl _, fun _ _ => rfl⟩
      | succ n ih =>
          rw [insertionSort_succ]
          exact ih.step

/-- The sort is a permutation of the first elements. -/
theorem insertionSort_perm (f : ℕ → α) (n : ℕ) :
    (front (insertionSort gt n f) n).Perm (front f n) :=
  (insertionSort_spec f n).perm

/-- The first elements are in order. -/
theorem insertionSort_pairwise (h : Orders gt P) (f : ℕ → α) (n : ℕ) (hP : ∀ k < n, P (f k)) :
    (front (insertionSort gt n f) n).Pairwise fun a b => gt a b = false := by
  cases n with
  | zero => exact List.Pairwise.nil
  | succ n =>
      induction n with
      | zero => exact List.pairwise_singleton _ _
      | succ n ih =>
          have hspec : SortedFront gt f (n + 1) (insertionSort gt (n + 1) f) :=
            insertionSort_spec f (n + 1)
          rw [insertionSort_succ]
          refine insertAt_pairwise h ?_ (ih fun k hk => hP k (by omega))
          intro k hk
          rcases Nat.lt_succ_iff_lt_or_eq.mp (Nat.lt_succ_of_le hk) with hlt | rfl
          · -- An element in front is one of the first elements.
            have hmem : insertionSort gt (n + 1) f k ∈ front f (n + 1) :=
              hspec.perm.subset (List.mem_map_of_mem (List.mem_range.mpr hlt))
            obtain ⟨m, hm, heq⟩ := List.mem_map.mp hmem
            rw [← heq]
            exact hP m (by rw [List.mem_range] at hm; omega)
          · rw [hspec.behind _ le_rfl]
            exact hP _ (by omega)

end W2Net
