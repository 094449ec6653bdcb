import Mathlib.Data.List.Sort
import Mathlib.Order.Basic
import Mathlib.Tactic.Common

/-!
# `W2Net.Lib.Argsort`: the order that `numpy.argsort` returns

`numpy.argsort` returns a permutation of the indices along which the values do
not decrease. The order of equal values is not specified for the default
algorithm, so `Argsort` is the set of all functions with this property, and
results about code that sorts hold for each of them. `Argsort.stable` is one. A
list that is read at these indices is a permutation of itself (`map_getD_perm`), with
values that do not decrease (`map_getD_pairwise`).
-/

set_option autoImplicit false

namespace W2Net

variable {K : Type} [LinearOrder K]

/-- A sorting function on indices: a permutation of the indices along which the
values do not decrease. -/
structure Argsort (K : Type) [LinearOrder K] where
  order : List K → List ℕ
  perm : ∀ xs, (order xs).Perm (List.range xs.length)
  sorted : ∀ xs, (order xs).Pairwise fun i j =>
    ∀ a b, xs[i]? = some a → xs[j]? = some b → a ≤ b

/-- The order of two entries `(value, index)` by their values. -/
private def byValue (a b : K × ℕ) : Prop := a.1 ≤ b.1

private instance decidableByValue : DecidableRel (byValue (K := K)) :=
  fun a b => inferInstanceAs (Decidable (a.1 ≤ b.1))

private instance byValue_total : Std.Total (byValue (K := K)) := ⟨fun a b => le_total a.1 b.1⟩

private instance byValue_trans : IsTrans (K × ℕ) byValue := ⟨fun _ _ _ hab hbc => le_trans hab hbc⟩

/-- The stable order: equal values keep the order of their indices. -/
def Argsort.stable : Argsort K where
  order xs := (xs.zipIdx.insertionSort byValue).map Prod.snd
  perm xs := by
    have h := (List.perm_insertionSort byValue xs.zipIdx).map Prod.snd
    rwa [List.zipIdx_map_snd, ← List.range_eq_range'] at h
  sorted xs := by
    rw [List.pairwise_map]
    refine (List.pairwise_insertionSort byValue xs.zipIdx).imp_of_mem ?_
    intro p q hp hq hle a b ha hb
    -- Each pair of the sorted list is a value with its own index.
    have hp' := List.mem_zipIdx_iff_getElem?.mp ((List.mem_insertionSort byValue).mp hp)
    have hq' := List.mem_zipIdx_iff_getElem?.mp ((List.mem_insertionSort byValue).mp hq)
    rw [hp', Option.some.injEq] at ha
    rw [hq', Option.some.injEq] at hb
    rw [← ha, ← hb]
    exact hle

namespace Argsort

variable (s : Argsort K) (xs : List K)

theorem mem_order {i : ℕ} : i ∈ s.order xs ↔ i < xs.length := by
  rw [(s.perm xs).mem_iff, List.mem_range]

/-! ### A list in the order of its values -/

section
variable {α : Type} (l : List α) (f : α → K) (d : α)

/-- The entries at the indices of the order are the entries of the list. -/
theorem map_getD_perm : ((s.order (l.map f)).map fun i => l.getD i d).Perm l := by
  have hrange : (List.range l.length).map (fun i => l.getD i d) = l := by
    apply List.ext_getElem
    · rw [List.length_map, List.length_range]
    · intro i h₁ h₂
      rw [List.getElem_map, List.getElem_range, List.getD_eq_getElem?_getD,
        List.getElem?_eq_getElem h₂, Option.getD_some]
  have h := (s.perm (l.map f)).map fun i => l.getD i d
  rwa [List.length_map, hrange] at h

/-- Along them the values do not decrease. -/
theorem map_getD_pairwise :
    ((s.order (l.map f)).map fun i => l.getD i d).Pairwise fun a b => f a ≤ f b := by
  rw [List.pairwise_map]
  refine (s.sorted (l.map f)).imp_of_mem fun {i j} hi hj hle => ?_
  rw [s.mem_order, List.length_map] at hi hj
  have hget : ∀ k, k < l.length → (l.map f)[k]? = some (f (l.getD k d)) := by
    intro k hk
    rw [List.getElem?_map, List.getElem?_eq_getElem hk, List.getD_eq_getElem?_getD,
      List.getElem?_eq_getElem hk, Option.getD_some, Option.map_some]
  exact hle _ _ (hget i hi) (hget j hj)

end

end Argsort

end W2Net
