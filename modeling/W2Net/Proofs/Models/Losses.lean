import Mathlib.Data.Fin.VecNotation
import Mathlib.GroupTheory.OrderOfElement
import W2Net.Models.Losses

/-!
# `W2Net.Proofs.Models.Losses`: which annotations are trained on

`positiveIndices_iff` is the description of `positive_indices` that every later
proof uses: an anchor is positive when its row reaches the threshold, or when it
is the best anchor of an annotation that reaches the threshold nowhere.

A positive anchor is trained on the annotation that is the first maximum of its
row. So the rule that forces the best anchor of an annotation `k` helps another
annotation when that one has a greater overlap with the anchor.
Where all annotations are trained on, those below the threshold win the anchors that they
force from each other, and from nobody else. Along such a chain the overlaps do not decrease,
and it ends where it started, so every one of them wins the anchor that it forces itself
(`wins_forced`). `all_supervised_iff` is the exact condition on the matrix, and
`supervised_competing` is a pair of annotations in which one is lost.
-/

set_option autoImplicit false

namespace W2Net.Proofs.Losses

open W2Net.Losses

section
variable {R : Type} [LinearOrder R] {N M : ℕ}

/-! ### The positive anchors -/

/-- `argmax_gt` is the first best anchor of an annotation. -/
theorem argmaxGt_eq_iff [NeZero N] (ious : Fin N → Fin M → R) (k : Fin M) (n : Fin N) :
    argmaxGt ious k = n ↔ IsFirstMax (fun m => ious m k) n := by
  constructor
  · intro h
    rw [← h]
    exact isFirstMax_argmax _
  · exact IsFirstMax.eq_argmax

/-- `iou_argmax` is the first best annotation of an anchor. -/
theorem iouArgmax_eq_iff [NeZero M] (ious : Fin N → Fin M → R) (n : Fin N) (k : Fin M) :
    iouArgmax ious n = k ↔ IsFirstMax (ious n) k := by
  constructor
  · intro h
    rw [← h]
    exact isFirstMax_argmax _
  · exact IsFirstMax.eq_argmax

theorem maxGt_lt_iff [NeZero N] (ious : Fin N → Fin M → R) (t : R) (k : Fin M) :
    maxGt ious k < t ↔ ∀ m, ious m k < t :=
  (isFirstMax_argmax fun m => ious m k).lt_iff t

theorem le_iouMax_iff [NeZero M] (ious : Fin N → Fin M → R) (t : R) (n : Fin N) :
    t ≤ iouMax ious n ↔ ∃ k, t ≤ ious n k :=
  (isFirstMax_argmax (ious n)).le_iff t

theorem iouMax_lt_iff [NeZero M] (ious : Fin N → Fin M → R) (t : R) (n : Fin N) :
    iouMax ious n < t ↔ ∀ k, ious n k < t :=
  (isFirstMax_argmax (ious n)).lt_iff t

/-- Writing `1` at each index of a list. -/
theorem foldl_update_true (l : List (Fin N)) (p : Fin N → Bool) (n : Fin N) :
    l.foldl (fun p n => Function.update p n true) p n = (p n || l.contains n) := by
  induction l generalizing p with
  | nil => simp
  | cons a l ih =>
      rw [List.foldl_cons, ih]
      by_cases hna : n = a
      · subst hna
        simp
      · rw [Function.update_of_ne hna]
        simp [hna]

theorem mem_forcedAnchors [NeZero N] (ious : Fin N → Fin M → R) (t : R) (n : Fin N) :
    n ∈ forcedAnchors ious t ↔
      ∃ k, (∀ m, ious m k < t) ∧ IsFirstMax (fun m => ious m k) n := by
  simp [forcedAnchors, maxGt_lt_iff, argmaxGt_eq_iff]

/-- An anchor can be trained on: its row reaches the threshold, or it is the
first best anchor of an annotation that reaches the threshold nowhere. -/
def Eligible (ious : Fin N → Fin M → R) (t : R) (n : Fin N) : Prop :=
  (∃ k, t ≤ ious n k) ∨ ∃ k, (∀ m, ious m k < t) ∧ IsFirstMax (fun m => ious m k) n

variable [NeZero N] [NeZero M]

/-- The positive anchors are the eligible ones. -/
theorem positiveIndices_iff (ious : Fin N → Fin M → R) (t : R) (n : Fin N) :
    positiveIndices ious t n = true ↔ Eligible ious t n := by
  unfold positiveIndices Eligible
  rw [← le_iouMax_iff, ← mem_forcedAnchors]
  split
  · rw [foldl_update_true, Bool.or_eq_true, decide_eq_true_eq, List.contains_iff_mem]
  · -- No annotation is below the threshold everywhere, so nothing is forced.
    rename_i hno
    have hnone : n ∉ forcedAnchors ious t := by
      rw [mem_forcedAnchors]
      intro ⟨k, hk, _⟩
      exact hno ⟨k, (maxGt_lt_iff ious t k).mpr hk⟩
    simp [hnone]

/-! ### Supervision -/

/-- The annotation is the assigned one of a positive anchor. -/
def Supervised (ious : Fin N → Fin M → R) (t : R) (k : Fin M) : Prop :=
  ∃ n, positiveIndices ious t n = true ∧ iouArgmax ious n = k

instance (ious : Fin N → Fin M → R) (t : R) (k : Fin M) : Decidable (Supervised ious t k) :=
  inferInstanceAs (Decidable (∃ n, positiveIndices ious t n = true ∧ iouArgmax ious n = k))

theorem supervised_iff (ious : Fin N → Fin M → R) (t : R) (k : Fin M) :
    Supervised ious t k ↔ ∃ n, Eligible ious t n ∧ IsFirstMax (ious n) k := by
  simp only [Supervised, positiveIndices_iff, iouArgmax_eq_iff]

omit [NeZero N] [NeZero M] in
/-- A rearrangement of finitely many values that lowers none of them keeps them all. -/
theorem apply_eq_of_le {ι S : Type} [Finite ι] [PartialOrder S] (σ : Equiv.Perm ι) {f : ι → S}
    (h : ∀ i, f i ≤ f (σ i)) (i : ι) : f (σ i) = f i := by
  have hiter : ∀ (n : ℕ) (j : ι), f j ≤ f ((σ ^ n) j) := by
    intro n
    induction n with
    | zero => exact fun j => le_rfl
    | succ n ih => exact fun j => (h j).trans (ih (σ j))
  -- From `σ i` on, the rearrangement comes back to `i`.
  obtain ⟨n, hn, hpow⟩ := (isOfFinOrder_of_finite σ).exists_pow_eq_one
  obtain ⟨m, rfl⟩ : ∃ m, n = m + 1 := ⟨n - 1, by omega⟩
  have hback : (σ ^ m) (σ i) = i := by
    rw [pow_succ] at hpow
    exact Equiv.Perm.congr_fun hpow i
  have hle := hiter m (σ i)
  rw [hback] at hle
  exact le_antisymm hle (h i)

/-- When all annotations are supervised, one that is below the threshold everywhere wins the
anchor that it forces. -/
theorem wins_forced {ious : Fin N → Fin M → R} {t : R} (hall : ∀ k, Supervised ious t k)
    {k : Fin M} (hk : ∀ m, ious m k < t) {n : Fin N} (hn : IsFirstMax (fun m => ious m k) n) :
    IsFirstMax (ious n) k := by
  let Low := {k : Fin M // ∀ m, ious m k < t}
  -- An anchor that such an annotation wins is forced by another one.
  have hforced : ∀ k : Low, ∃ k' : Low, IsFirstMax (ious (argmaxGt ious k')) k := by
    rintro ⟨k, hk⟩
    obtain ⟨n, heligible, hwins⟩ := (supervised_iff ious t k).mp (hall k)
    cases heligible with
    | inl hreach =>
        obtain ⟨k', hk'⟩ := hreach
        exact absurd (hk'.trans (hwins.le k')) (not_le.mpr (hk n))
    | inr hforced =>
        obtain ⟨k', hk', hbest⟩ := hforced
        rw [← argmaxGt_eq_iff] at hbest
        exact ⟨⟨k', hk'⟩, hbest ▸ hwins⟩
  choose s hs using hforced
  have hinj : Function.Injective s := by
    intro k₁ k₂ heq
    have h₁ := hs k₁
    rw [heq] at h₁
    exact Subtype.ext (h₁.unique (hs k₂))
  let σ : Equiv.Perm Low := Equiv.ofBijective s (Finite.injective_iff_bijective.mp hinj)
  have hwon : ∀ k : Low, maxGt ious (s k) ≤ ious (argmaxGt ious (s k)) k :=
    fun k => (hs k).le (s k)
  have hbest : ∀ k : Low, ious (argmaxGt ious (s k)) k ≤ maxGt ious k :=
    fun k => (isFirstMax_argmax fun m => ious m k).le _
  -- No best overlap is lowered, so the two annotations overlap the anchor equally.
  have hsame : ∀ k : Low, maxGt ious (s k) = maxGt ious k :=
    apply_eq_of_le σ (f := fun k : Low => OrderDual.toDual (maxGt ious k))
      fun k => (hwon k).trans (hbest k)
  have hindex : ∀ k : Low, (k : Fin M) ≤ s k := by
    intro k
    by_contra hlt
    have hless := (hs k).lt (s k) (not_le.mp hlt)
    exact absurd ((hbest k).trans (hsame k).ge) (not_le.mpr hless)
  have hself : (s ⟨k, hk⟩ : Fin M) = k := apply_eq_of_le σ (f := Subtype.val) hindex ⟨k, hk⟩
  have hwins := hs ⟨k, hk⟩
  rw [hself, (argmaxGt_eq_iff ious k n).mpr hn] at hwins
  exact hwins

/-- Every annotation is supervised exactly when

* an annotation that is below the threshold everywhere is the first best annotation of its
  first best anchor, and
* any other annotation is the first best annotation of an anchor at which it reaches the
  threshold.

A forced anchor is no use to any other annotation than the one that forces it. -/
theorem all_supervised_iff (ious : Fin N → Fin M → R) (t : R) :
    (∀ k, Supervised ious t k) ↔
      (∀ k, (∀ m, ious m k < t) →
        ∀ n, IsFirstMax (fun m => ious m k) n → IsFirstMax (ious n) k) ∧
      ∀ k, (∃ m, t ≤ ious m k) → ∃ n, t ≤ ious n k ∧ IsFirstMax (ious n) k := by
  constructor
  · intro hall
    refine ⟨fun k hk n hn => wins_forced hall hk hn, ?_⟩
    rintro k ⟨m, hm⟩
    obtain ⟨n, heligible, hwins⟩ := (supervised_iff ious t k).mp (hall k)
    refine ⟨n, ?_, hwins⟩
    cases heligible with
    | inl hreach =>
        obtain ⟨k', hk'⟩ := hreach
        exact hk'.trans (hwins.le k')
    | inr hforced =>
        -- The annotation that forces the anchor wins it.
        obtain ⟨k', hk', hbest⟩ := hforced
        rw [(wins_forced hall hk' hbest).unique hwins] at hk'
        exact absurd hm (not_le.mpr (hk' m))
  · rintro ⟨hlow, hhigh⟩ k
    rw [supervised_iff]
    by_cases hk : ∀ m, ious m k < t
    · have hbest := isFirstMax_argmax fun m => ious m k
      exact ⟨_, Or.inr ⟨k, hk, hbest⟩, hlow k hk _ hbest⟩
    · push Not at hk
      obtain ⟨n, hn, hwins⟩ := hhigh k hk
      exact ⟨n, Or.inl ⟨k, hn⟩, hwins⟩

/-- Two anchors that meet one annotation each. -/
def diagonalIous (n k : Fin 2) : ℚ := if n = k then 1 else 0

theorem all_supervised_diagonal :
    Supervised diagonalIous (1 / 2) 0 ∧ Supervised diagonalIous (1 / 2) 1 := by
  have hreach : ∀ k, (1 / 2 : ℚ) ≤ diagonalIous k k := by decide +kernel
  have hall : ∀ k, Supervised diagonalIous (1 / 2) k := by
    refine (all_supervised_iff _ _).mpr ⟨fun k hk => ?_, fun k _ => ⟨k, hreach k, ?_⟩⟩
    · exact absurd (hreach k) (not_le.mpr (hk k))
    · exact
        { le := by
            revert k
            decide +kernel
          lt := by
            revert k
            decide +kernel }
  exact ⟨hall 0, hall 1⟩

end

/-! ### Two annotations on one anchor -/

/-- Two anchors, the second far away. -/
def twoAnchors : Fin 2 → RBox ℚ := ![⟨0, 0, 10, 10, 0⟩, ⟨100, 100, 110, 110, 0⟩]

/-- Two annotations inside the first anchor, with overlaps 0.9 and 0.4. -/
def twoBoxes : Fin 2 → RBox ℚ := ![⟨0, 0, 10, 9, 0⟩, ⟨0, 0, 10, 4, 0⟩]

example : (ious Cv2.aligned twoAnchors twoBoxes 0 0, ious Cv2.aligned twoAnchors twoBoxes 0 1)
    = (9 / 10, 4 / 10) := by decide +kernel

/-- Each annotation overlaps an anchor, but the second one is lost: its best
anchor is forced positive and trained on the first annotation. -/
theorem supervised_competing :
    (∀ k, ∃ n, 0 < ious Cv2.aligned twoAnchors twoBoxes n k) ∧
      ¬ ∀ k, Supervised (ious Cv2.aligned twoAnchors twoBoxes) (1 / 2) k := by
  decide +kernel

end W2Net.Proofs.Losses
