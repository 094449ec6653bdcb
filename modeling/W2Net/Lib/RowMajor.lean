import Mathlib.Algebra.BigOperators.Group.List.Basic
import Mathlib.Algebra.GroupWithZero.Nat
import Mathlib.Data.List.Forall2
import Mathlib.Tactic.Common

/-!
# `W2Net.Lib.RowMajor`: positions in arrays and in concatenations

An array of shape `[n₀, …, n_d]` is stored in row-major order: the last index
moves fastest. `ravel` is the position of an index and `unravel` the index at a
position. They are inverse to each other between the indices in bounds and the
positions below the product of the shape (`unravel_ravel`, `ravel_unravel`).

A concatenation of pieces of given sizes is addressed by `locate`: the piece
that holds a position, and the position in the piece. `offset` is the start of a
piece. `locate_spec` and `locate_offset_add` say that they are inverse, and
`flatten_getElem?` reads an entry of a concatenated list, `flatten_uniform` one
of lists of the same length.
-/

set_option autoImplicit false

namespace W2Net

/-! ### Row-major order -/

/-- The position of an index. -/
def ravel : List ℕ → List ℕ → ℕ
  | _ :: ns, i :: is => i * ns.prod + ravel ns is
  | _, _ => 0

/-- The index at a position. -/
def unravel : List ℕ → ℕ → List ℕ
  | [], _ => []
  | _ :: ns, k => k / ns.prod :: unravel ns (k % ns.prod)

/-- An index with one entry below each size. -/
def InBounds (idx shape : List ℕ) : Prop := List.Forall₂ (· < ·) idx shape

/-- The position of column `x` in row `y`, in `h` rows of `w` columns. -/
theorem mul_add_lt_mul {h w y x : ℕ} (hy : y < h) (hx : x < w) : y * w + x < h * w :=
  calc y * w + x < y * w + w := Nat.add_lt_add_left hx _
    _ = (y + 1) * w := (Nat.succ_mul y w).symm
    _ ≤ h * w := Nat.mul_le_mul_right _ hy

/-- The row of a position. -/
theorem mul_add_div_of_lt {w x : ℕ} (y : ℕ) (hx : x < w) : (y * w + x) / w = y := by
  rw [Nat.mul_comm, Nat.mul_add_div (Nat.zero_lt_of_lt hx), Nat.div_eq_of_lt hx, Nat.add_zero]

/-- The column of a position. -/
theorem mul_add_mod_of_lt {w x : ℕ} (y : ℕ) (hx : x < w) : (y * w + x) % w = x := by
  rw [Nat.mul_comm, Nat.mul_add_mod, Nat.mod_eq_of_lt hx]

/-- A position has one row and one column. -/
theorem mul_add_inj {w y x y' x' : ℕ} (hx : x < w) (hx' : x' < w)
    (h : y * w + x = y' * w + x') : y = y' ∧ x = x' := by
  have hrow : y = y' := by
    rw [← mul_add_div_of_lt y hx, h, mul_add_div_of_lt y' hx']
  have hcol : x = x' := by
    rw [← mul_add_mod_of_lt y hx, h, mul_add_mod_of_lt y' hx']
  exact ⟨hrow, hcol⟩

/-- Every position below the product of three sizes is that of one triple. -/
theorem existsUnique_triple {l m n p : ℕ} (hp : p < l * m * n) :
    ∃! t : ℕ × ℕ × ℕ, (t.1 < l ∧ t.2.1 < m ∧ t.2.2 < n) ∧ (t.1 * m + t.2.1) * n + t.2.2 = p := by
  have hn : 0 < n := Nat.pos_of_mul_pos_left (Nat.zero_lt_of_lt hp)
  have hrow : p / n < l * m := (Nat.div_lt_iff_lt_mul hn).mpr hp
  have hm : 0 < m := Nat.pos_of_mul_pos_left (Nat.zero_lt_of_lt hrow)
  refine ⟨(p / n / m, p / n % m, p % n), ⟨⟨?_, Nat.mod_lt _ hm, Nat.mod_lt _ hn⟩, ?_⟩, ?_⟩
  · exact (Nat.div_lt_iff_lt_mul hm).mpr hrow
  · show (p / n / m * m + p / n % m) * n + p % n = p
    rw [Nat.div_add_mod', Nat.div_add_mod']
  · rintro ⟨i, j, k⟩ ⟨⟨-, hj, hk⟩, heq⟩
    have hsplit : (i * m + j) * n + k = p / n * n + p % n := by rw [heq, Nat.div_add_mod']
    obtain ⟨hij, hk'⟩ := mul_add_inj hk (Nat.mod_lt p hn) hsplit
    have hsplit' : i * m + j = p / n / m * m + p / n % m := by rw [hij, Nat.div_add_mod']
    obtain ⟨hi', hj'⟩ := mul_add_inj hj (Nat.mod_lt (p / n) hm) hsplit'
    exact Prod.ext hi' (Prod.ext hj' hk')

theorem ravel_lt {idx shape : List ℕ} (h : InBounds idx shape) : ravel shape idx < shape.prod := by
  induction h with
  | nil => exact Nat.one_pos
  | @cons i n is ns hi _ ih =>
      rw [List.prod_cons]
      exact mul_add_lt_mul hi ih

/-- The index at the position of an index is the index. -/
theorem unravel_ravel {idx shape : List ℕ} (h : InBounds idx shape) :
    unravel shape (ravel shape idx) = idx := by
  induction h with
  | nil => rfl
  | @cons i n is ns hi htail ih =>
      have hlt : ravel ns is < ns.prod := ravel_lt htail
      show (i * ns.prod + ravel ns is) / ns.prod ::
        unravel ns ((i * ns.prod + ravel ns is) % ns.prod) = i :: is
      rw [mul_add_div_of_lt i hlt, mul_add_mod_of_lt i hlt, ih]

theorem inBounds_unravel {shape : List ℕ} {k : ℕ} (h : k < shape.prod) :
    InBounds (unravel shape k) shape := by
  induction shape generalizing k with
  | nil => exact List.Forall₂.nil
  | cons n ns ih =>
      rw [List.prod_cons] at h
      have hpos : 0 < ns.prod := Nat.pos_of_mul_pos_left (Nat.zero_lt_of_lt h)
      exact List.Forall₂.cons ((Nat.div_lt_iff_lt_mul hpos).mpr h) (ih (Nat.mod_lt k hpos))

/-- The position of the index at a position is the position. -/
theorem ravel_unravel {shape : List ℕ} {k : ℕ} (h : k < shape.prod) :
    ravel shape (unravel shape k) = k := by
  induction shape generalizing k with
  | nil =>
      have : k = 0 := Nat.lt_one_iff.mp h
      exact this.symm
  | cons n ns ih =>
      rw [List.prod_cons] at h
      have hpos : 0 < ns.prod := Nat.pos_of_mul_pos_left (Nat.zero_lt_of_lt h)
      show k / ns.prod * ns.prod + ravel ns (unravel ns (k % ns.prod)) = k
      rw [ih (Nat.mod_lt k hpos), Nat.mul_comm]
      exact Nat.div_add_mod k ns.prod

/-! ### Concatenation -/

/-- The piece that holds the position `r`, and the position in it. -/
def locate : List ℕ → ℕ → ℕ × ℕ
  | [], r => (0, r)
  | s :: ss, r => if r < s then (0, r) else ((locate ss (r - s)).1 + 1, (locate ss (r - s)).2)

/-- The start of a piece. -/
def offset (sizes : List ℕ) (i : ℕ) : ℕ := (sizes.take i).sum

/-- Every position of the concatenation lies in a piece. -/
theorem locate_spec {sizes : List ℕ} {r : ℕ} (h : r < sizes.sum) :
    ∃ s, sizes[(locate sizes r).1]? = some s ∧ (locate sizes r).2 < s ∧
      offset sizes (locate sizes r).1 + (locate sizes r).2 = r := by
  induction sizes generalizing r with
  | nil => exact absurd h (Nat.not_lt_zero r)
  | cons s ss ih =>
      rw [List.sum_cons] at h
      simp only [locate]
      by_cases hr : r < s
      · rw [if_pos hr]
        exact ⟨s, rfl, hr, Nat.zero_add r⟩
      · rw [if_neg hr]
        obtain ⟨s', hs', hlt, hoff⟩ := ih (r := r - s) (by omega)
        refine ⟨s', hs', hlt, ?_⟩
        unfold offset at hoff ⊢
        rw [List.take_succ_cons, List.sum_cons]
        omega

/-- A position of a piece is located there. -/
theorem locate_offset_add {sizes : List ℕ} {i j s : ℕ} (hi : sizes[i]? = some s) (hj : j < s) :
    locate sizes (offset sizes i + j) = (i, j) := by
  induction sizes generalizing i with
  | nil => cases hi
  | cons s' ss ih =>
      cases i with
      | zero =>
          cases hi
          show locate (s :: ss) (0 + j) = (0, j)
          rw [Nat.zero_add, locate, if_pos hj]
      | succ i =>
          have hoff : offset (s' :: ss) (i + 1) = s' + offset ss i := by
            rw [offset, List.take_succ_cons, List.sum_cons]
            rfl
          have hle : ¬ s' + offset ss i + j < s' := by omega
          rw [hoff, locate, if_neg hle, Nat.add_assoc, Nat.add_sub_cancel_left, ih hi]

theorem offset_add_lt {sizes : List ℕ} {i j s : ℕ} (hi : sizes[i]? = some s) (hj : j < s) :
    offset sizes i + j < sizes.sum := by
  induction sizes generalizing i with
  | nil => cases hi
  | cons s' ss ih =>
      rw [List.sum_cons]
      cases i with
      | zero =>
          cases hi
          show 0 + j < s + ss.sum
          omega
      | succ i =>
          have := ih hi
          unfold offset at this ⊢
          rw [List.take_succ_cons, List.sum_cons]
          omega

/-- An entry of a concatenation of lists. -/
theorem flatten_getElem? {α : Type} {ls : List (List α)} {i j : ℕ} {l : List α}
    (hi : ls[i]? = some l) (hj : j < l.length) :
    ls.flatten[offset (ls.map List.length) i + j]? = l[j]? := by
  induction ls generalizing i with
  | nil => cases hi
  | cons l' ls ih =>
      rw [List.flatten_cons]
      cases i with
      | zero =>
          cases hi
          show (l ++ ls.flatten)[0 + j]? = l[j]?
          rw [Nat.zero_add, List.getElem?_append_left hj]
      | succ i =>
          have hoff : offset ((l' :: ls).map List.length) (i + 1) + j =
              l'.length + (offset (ls.map List.length) i + j) := by
            rw [offset, List.map_cons, List.take_succ_cons, List.sum_cons, Nat.add_assoc]
            rfl
          rw [hoff, List.getElem?_append_right (Nat.le_add_right _ _), Nat.add_sub_cancel_left,
            ih hi]

/-- The start of a piece when all pieces have the same size. -/
theorem offset_replicate {n s i : ℕ} (h : i ≤ n) : offset (List.replicate n s) i = i * s := by
  rw [offset, List.take_replicate, Nat.min_eq_left h, List.sum_replicate_nat]

/-- A position in a concatenation of lists of the same length. -/
theorem flatten_uniform {α : Type} {ls : List (List α)} {n i j : ℕ} {l : List α}
    (hn : ∀ l ∈ ls, l.length = n) (hi : ls[i]? = some l) (hj : j < n) :
    ls.flatten[i * n + j]? = l[j]? := by
  have hlengths : ls.map List.length = List.replicate ls.length n := by
    refine List.eq_replicate_iff.mpr ⟨List.length_map _, fun m hm => ?_⟩
    obtain ⟨l', hl', rfl⟩ := List.mem_map.mp hm
    exact hn l' hl'
  have hl : l.length = n := hn l (List.mem_of_getElem? hi)
  have h := flatten_getElem? hi (hl.symm ▸ hj)
  rwa [hlengths, offset_replicate (Nat.le_of_lt (List.getElem?_eq_some_iff.mp hi).1)] at h

theorem length_flatten_uniform {α : Type} {ls : List (List α)} {n : ℕ} (hn : ∀ l ∈ ls, l.length = n) :
    ls.flatten.length = ls.length * n := by
  induction ls with
  | nil => simp
  | cons l ls ih =>
      rw [List.flatten_cons, List.length_append, hn l List.mem_cons_self,
        ih fun l' hl' => hn l' (List.mem_cons_of_mem l hl'), List.length_cons, Nat.succ_mul,
        Nat.add_comm]

end W2Net
