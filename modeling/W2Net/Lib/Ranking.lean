import Mathlib.Data.List.Sort
import Mathlib.Order.Basic
import Mathlib.Tactic.Common

/-!
# `W2Net.Lib.Ranking`: a stable ranking by a coarser key

`rankBy f` sorts a list by decreasing `f` and keeps the order of equal entries. A
ranking by a key `f` that is a monotone function of another key `g` may merge entries that `g`
tells apart. `rankBy_ranks_iff` says when it still ranks by `g`: among the entries as
they stand in the list, a lower one in front of a higher one must stay lower under `f`.
-/

set_option autoImplicit false

namespace W2Net

section
variable {α : Type} {r s : α → α → Prop} [DecidableRel r] [DecidableRel s]

theorem orderedInsert_congr {a : α} {l : List α} (h : ∀ b ∈ l, r a b ↔ s a b) :
    l.orderedInsert r a = l.orderedInsert s a := by
  induction l with
  | nil => rfl
  | cons b l ih =>
      rw [List.forall_mem_cons] at h
      rw [List.orderedInsert_cons, List.orderedInsert_cons, ih h.2]
      simp only [h.1]

/-- A stable sort compares an entry only with those behind it. -/
theorem insertionSort_congr {l : List α} (h : l.Pairwise fun a b => r a b ↔ s a b) :
    l.insertionSort r = l.insertionSort s := by
  induction l with
  | nil => rfl
  | cons a l ih =>
      rw [List.pairwise_cons] at h
      rw [List.insertionSort_cons, List.insertionSort_cons, ih h.2]
      exact orderedInsert_congr fun b hb => h.1 b ((List.mem_insertionSort s).mp hb)

end

variable {α K L : Type} [LinearOrder K] [LinearOrder L]

/-- The list by decreasing `f`, equal entries in their order. -/
def rankBy (f : α → K) (l : List α) : List α := l.insertionSort fun a b => f b ≤ f a

private instance rankBy_total (f : α → K) : Std.Total fun a b => f b ≤ f a := ⟨fun a b => le_total (f b) (f a)⟩

private instance rankBy_trans (f : α → K) : IsTrans α fun a b => f b ≤ f a :=
  ⟨fun _ _ _ hab hbc => hbc.trans hab⟩

theorem rankBy_perm (f : α → K) (l : List α) : (rankBy f l).Perm l := List.perm_insertionSort _ l

theorem rankBy_pairwise (f : α → K) (l : List α) : (rankBy f l).Pairwise fun a b => f b ≤ f a :=
  List.pairwise_insertionSort _ l

/-- An entry below all others passes them. -/
theorem orderedInsert_lowest {f : α → K} {a : α} {l : List α} (h : ∀ b ∈ l, f a < f b) :
    l.orderedInsert (fun a b => f b ≤ f a) a = l ++ [a] := by
  induction l with
  | nil => rfl
  | cons b l ih =>
      obtain ⟨hb, hl⟩ := List.forall_mem_cons.mp h
      rw [List.orderedInsert_cons, if_neg hb.not_ge, ih hl, List.cons_append]

/-- An entry does not pass a last one that is not above it. -/
theorem orderedInsert_concat {f : α → K} {a b : α} (h : f a ≤ f b) (l : List α) :
    (l ++ [a]).orderedInsert (fun a b => f b ≤ f a) b
      = l.orderedInsert (fun a b => f b ≤ f a) b ++ [a] := by
  induction l with
  | nil =>
      rw [List.nil_append, List.orderedInsert_cons, if_pos h]
      rfl
  | cons c l ih =>
      rw [List.cons_append, List.orderedInsert_cons, List.orderedInsert_cons, ih]
      split_ifs
      · rfl
      · rfl

/-- An entry with nothing below it, and nothing equal behind it, is ranked last. -/
theorem rankBy_lowest {f : α → K} {a : α} {pre post : List α} (hpre : ∀ b ∈ pre, f a ≤ f b)
    (hpost : ∀ b ∈ post, f a < f b) : rankBy f (pre ++ a :: post) = rankBy f (pre ++ post) ++ [a] := by
  induction pre with
  | nil => exact orderedInsert_lowest fun b hb => hpost b ((rankBy_perm f post).mem_iff.mp hb)
  | cons b pre ih =>
      obtain ⟨hb, hpre⟩ := List.forall_mem_cons.mp hpre
      show List.orderedInsert _ b (rankBy f (pre ++ a :: post)) = _
      rw [ih hpre]
      exact orderedInsert_concat hb _

/-- Entries that do not have to be exchanged keep their order. -/
theorem rankBy_stable {f : α → K} {l : List α} {a b : α} (h : [a, b].Sublist l) (hab : f b ≤ f a) :
    [a, b].Sublist (rankBy f l) := List.pair_sublist_insertionSort hab h

theorem map_rankBy {β : Type} (f : β → K) (g : α → β) (l : List α) :
    (rankBy (fun a => f (g a)) l).map g = rankBy f (l.map g) :=
  List.map_insertionSort _ _ g l fun _ _ _ _ => Iff.rfl

section
variable {f : α → K} {g : α → L} {l : List α}

/-- A lower entry in front of a higher one stays lower. -/
def Separates (f : α → K) (g : α → L) (l : List α) : Prop :=
  l.Pairwise fun a b => g a < g b → f a < f b

theorem rankBy_eq_of_separates (hmono : ∀ a b, g a ≤ g b → f a ≤ f b) (h : Separates f g l) :
    rankBy f l = rankBy g l := by
  refine insertionSort_congr (h.imp fun {a b} hab => ?_)
  constructor
  · intro hle
    by_contra hlt
    exact absurd hle (not_le.mpr (hab (not_le.mp hlt)))
  · exact hmono b a

/-- The ranking by the coarser key is one by the finer key exactly when it separates. -/
theorem rankBy_ranks_iff (hmono : ∀ a b, g a ≤ g b → f a ≤ f b) :
    (rankBy f l).Pairwise (fun a b => g b ≤ g a) ↔ Separates f g l := by
  constructor
  · intro hsorted
    refine List.pairwise_iff_forall_sublist.mpr fun {a b} hsub hlt => ?_
    by_contra hnot
    have hkept := rankBy_stable hsub (not_lt.mp hnot)
    exact absurd (List.pairwise_iff_forall_sublist.mp hsorted hkept) (not_le.mpr hlt)
  · intro h
    rw [rankBy_eq_of_separates hmono h]
    exact rankBy_pairwise g l

end

end W2Net
