import Mathlib.Algebra.GroupWithZero.Nat
import Mathlib.Data.List.FinRange
import Mathlib.Data.List.MinMax
import Mathlib.Order.Basic
import Mathlib.Tactic.Common

/-!
# `W2Net.Lib.FirstMax`: the position of the first maximum

`numpy.argmax` and `torch.max(dim)` return the first position that attains the
maximum. `argmax` is the scan that computes it, and `IsFirstMax` is what the
scan returns (`isFirstMax_argmax`). The position is unique
(`IsFirstMax.eq_argmax`), so a property of the scan is a property of
`IsFirstMax`.

`IsFirstMax.of_le` is the monotone form: when the entries decrease but the
entry at the first maximum stays, the first maximum stays.

`npArgmax` is the same position in a list. `FirstMaxAt` cuts the list there.
-/

set_option autoImplicit false

namespace W2Net

variable {α : Type} [LinearOrder α] {n : ℕ}

/-- `i` attains the maximum of `f`, and no earlier position does. -/
structure IsFirstMax (f : Fin n → α) (i : Fin n) : Prop where
  le : ∀ j, f j ≤ f i
  lt : ∀ j, j < i → f j < f i

/-- The left-to-right scan for the maximum: the candidate moves on a strictly
greater entry only. -/
def argmax [NeZero n] (f : Fin n → α) : Fin n :=
  (List.finRange n).foldl (fun best i => if f best < f i then i else best) 0

/-- The scan over an increasing list of positions, started at a position `b`
before all of them, ends at the first maximum among `b` and the list. -/
private theorem foldl_firstMax (f : Fin n → α) :
    ∀ (l : List (Fin n)) (b : Fin n), l.Pairwise (· < ·) → (∀ i ∈ l, b ≤ i) →
      let r := l.foldl (fun best i => if f best < f i then i else best) b
      (r = b ∨ r ∈ l) ∧ f b ≤ f r ∧ (b < r → f b < f r) ∧
        ∀ i ∈ l, f i ≤ f r ∧ (i < r → f i < f r) := by
  intro l
  induction l with
  | nil => intro b _ _; simp
  | cons a l ih =>
      intro b hl hb
      obtain ⟨ha, hl⟩ := List.pairwise_cons.mp hl
      have hba : b ≤ a := hb a List.mem_cons_self
      simp only [List.foldl_cons]
      by_cases hlt : f b < f a
      · -- The candidate moves to `a`.
        rw [if_pos hlt]
        obtain ⟨hmem, hle, hfirst, hall⟩ := ih a hl fun i hi => (ha i hi).le
        refine ⟨Or.inr ?_, hlt.le.trans hle, fun _ => hlt.trans_le hle, ?_⟩
        · rcases hmem with heq | hmem
          · rw [heq]; exact List.mem_cons_self
          · exact List.mem_cons_of_mem a hmem
        · intro i hi
          rcases List.mem_cons.mp hi with rfl | hi
          · exact ⟨hle, hfirst⟩
          · exact hall i hi
      · -- The candidate stays at `b`, which is before `a`.
        rw [if_neg hlt]
        have hab : f a ≤ f b := not_lt.mp hlt
        obtain ⟨hmem, hle, hfirst, hall⟩ := ih b hl fun i hi => hba.trans (ha i hi).le
        refine ⟨hmem.imp_right (List.mem_cons_of_mem a), hle, hfirst, ?_⟩
        intro i hi
        rcases List.mem_cons.mp hi with rfl | hi
        · exact ⟨hab.trans hle, fun hir => hab.trans_lt (hfirst (hba.trans_lt hir))⟩
        · exact hall i hi

/-- The scan returns the first maximum. -/
theorem isFirstMax_argmax [NeZero n] (f : Fin n → α) : IsFirstMax f (argmax f) := by
  obtain ⟨-, -, -, hall⟩ := foldl_firstMax f (List.finRange n) 0 (List.pairwise_lt_finRange n)
    fun i _ => Fin.zero_le i
  exact ⟨fun j => (hall j (List.mem_finRange j)).1, fun j => (hall j (List.mem_finRange j)).2⟩

/-- The first maximum is unique. -/
theorem IsFirstMax.unique {f : Fin n → α} {i j : Fin n} (hi : IsFirstMax f i)
    (hj : IsFirstMax f j) : i = j := by
  rcases lt_trichotomy i j with h | h | h
  · exact absurd (hj.lt i h) (not_lt.mpr (hi.le j))
  · exact h
  · exact absurd (hi.lt j h) (not_lt.mpr (hj.le i))

/-- The scan finds the first maximum, whichever way it was described. -/
theorem IsFirstMax.eq_argmax [NeZero n] {f : Fin n → α} {i : Fin n} (h : IsFirstMax f i) :
    argmax f = i :=
  (isFirstMax_argmax f).unique h

/-- Lowering the other entries keeps the first maximum. -/
theorem IsFirstMax.of_le {f g : Fin n → α} {i : Fin n} (h : IsFirstMax f i)
    (hle : ∀ j, g j ≤ f j) (hi : g i = f i) : IsFirstMax g i where
  le j := by rw [hi]; exact (hle j).trans (h.le j)
  lt j hj := by rw [hi]; exact (hle j).trans_lt (h.lt j hj)

/-- Entries that are not negative and have the maximum 0 are all 0, and the position is the first
one. -/
theorem IsFirstMax.eq_zero [Zero α] [NeZero n] {f : Fin n → α} {i : Fin n} (h : IsFirstMax f i)
    (hf : ∀ j, 0 ≤ f j) (hi : f i = 0) : i = 0 ∧ ∀ j, f j = 0 := by
  have hall : ∀ j, f j = 0 := fun j => le_antisymm ((h.le j).trans hi.le) (hf j)
  refine ⟨?_, hall⟩
  by_contra hne
  have hlt := h.lt 0 (Fin.pos_iff_ne_zero.mpr hne)
  rw [hall 0, hi] at hlt
  exact absurd hlt (lt_irrefl 0)

theorem isFirstMax_zero [NeZero n] {f : Fin n → α} (h : ∀ j, f j = f 0) : IsFirstMax f 0 where
  le j := (h j).le
  lt j hj := absurd hj (Fin.not_lt_zero j)

/-- A value is at least `t` somewhere exactly when it is at the maximum. -/
theorem IsFirstMax.le_iff {f : Fin n → α} {i : Fin n} (h : IsFirstMax f i) (t : α) :
    t ≤ f i ↔ ∃ j, t ≤ f j :=
  ⟨fun ht => ⟨i, ht⟩, fun ⟨j, hj⟩ => hj.trans (h.le j)⟩

/-- The maximum is below `t` exactly when every value is. -/
theorem IsFirstMax.lt_iff {f : Fin n → α} {i : Fin n} (h : IsFirstMax f i) (t : α) :
    f i < t ↔ ∀ j, f j < t :=
  ⟨fun ht j => (h.le j).trans_lt ht, fun hall => hall i⟩

/-! ### Lists -/

section
variable {β : Type}

/-- `np.argmax` of an array. -/
def npArgmax (xs : List α) : ℕ :=
  match xs.argmax id with
  | none => 0
  | some x => xs.idxOf x

/-- `xs` is cut at its first entry with the greatest value of `f`. -/
structure FirstMaxAt (f : β → α) (xs pre : List β) (x : β) (post : List β) : Prop where
  eq : xs = pre ++ x :: post
  lt : ∀ y ∈ pre, f y < f x
  le : ∀ y ∈ post, f y ≤ f x

variable {f : β → α} {xs pre post : List β} {x : β}

theorem FirstMaxAt.mem (h : FirstMaxAt f xs pre x post) : x ∈ xs := by
  rw [h.eq]
  simp

theorem FirstMaxAt.max (h : FirstMaxAt f xs pre x post) {y : β} (hy : y ∈ xs) : f y ≤ f x := by
  rw [h.eq, List.mem_append, List.mem_cons] at hy
  rcases hy with hy | rfl | hy
  · exact (h.lt y hy).le
  · exact le_refl _
  · exact h.le y hy

/-- Every nonempty list has such a cut. -/
theorem exists_firstMaxAt (f : β → α) (hxs : xs ≠ []) : ∃ pre x post, FirstMaxAt f xs pre x post := by
  induction xs with
  | nil => exact absurd rfl hxs
  | cons y ys ih =>
      by_cases hys : ys = []
      · subst hys
        exact ⟨[], y, [], ⟨rfl, by simp, by simp⟩⟩
      · obtain ⟨pre, x, post, h⟩ := ih hys
        by_cases hyx : f y < f x
        · -- The maximum lies in the rest of the list.
          refine ⟨y :: pre, x, post, ⟨by rw [h.eq]; rfl, ?_, h.le⟩⟩
          intro z hz
          rcases List.mem_cons.mp hz with rfl | hz
          · exact hyx
          · exact h.lt z hz
        · exact ⟨[], y, ys, ⟨rfl, by simp, fun z hz => (h.max hz).trans (not_lt.mp hyx)⟩⟩

/-- `np.argmax` returns the length of the part in front of the cut. -/
theorem FirstMaxAt.npArgmax_eq (h : FirstMaxAt f xs pre x post) :
    npArgmax (xs.map f) = pre.length := by
  have hmem : f x ∈ xs.map f := List.mem_map_of_mem h.mem
  obtain ⟨m, hm⟩ : ∃ m, (xs.map f).argmax id = some m := by
    cases harg : (xs.map f).argmax id with
    | none =>
        rw [List.argmax_eq_none.mp harg] at hmem
        cases hmem
    | some m => exact ⟨m, rfl⟩
  have hmx : m = f x := by
    obtain ⟨y, hy, hym⟩ := List.mem_map.mp (List.argmax_mem hm)
    refine le_antisymm ?_ (List.le_of_mem_argmax hmem hm)
    rw [← hym]
    exact h.max hy
  -- The maximum is not reached earlier, and its first index is asked for.
  have hpre : f x ∉ pre.map f := by
    intro hin
    obtain ⟨y, hy, heq⟩ := List.mem_map.mp hin
    exact absurd heq (h.lt y hy).ne
  simp only [npArgmax, hm]
  rw [hmx, h.eq, List.map_append, List.map_cons, List.idxOf_append_of_notMem hpre,
    List.idxOf_cons_self, List.length_map, Nat.add_zero]

/-- The part in front of the cut is determined by the list. -/
theorem FirstMaxAt.cut_unique {pre' post' : List β} {x' : β} (h : FirstMaxAt f xs pre x post)
    (h' : FirstMaxAt f xs pre' x' post') : pre = pre' ∧ x = x' := by
  have hlen : pre.length = pre'.length := by rw [← h.npArgmax_eq, ← h'.npArgmax_eq]
  obtain ⟨hpre, hrest⟩ := List.append_inj (h.eq.symm.trans h'.eq) hlen
  exact ⟨hpre, (List.cons.inj hrest).1⟩

/-- A filter that keeps the greatest entry keeps the cut. -/
theorem FirstMaxAt.filter (h : FirstMaxAt f xs pre x post) {p : β → Bool} (hx : p x = true) :
    FirstMaxAt f (xs.filter p) (pre.filter p) x (post.filter p) where
  eq := by rw [h.eq, List.filter_append, List.filter_cons_of_pos hx]
  lt y hy := h.lt y (List.mem_of_mem_filter hy)
  le y hy := h.le y (List.mem_of_mem_filter hy)

end

end W2Net
