import Mathlib.Algebra.BigOperators.Fin
import Mathlib.Algebra.Order.Field.Basic
import Mathlib.Data.Finset.BooleanAlgebra
import Mathlib.Data.Fintype.Prod
import Mathlib.Tactic.FinCases
import Mathlib.Tactic.Linarith
import Mathlib.Tactic.Ring
import W2Net.Lib.Numerals

/-!
# `W2Net.Lib.Crossing`: the crossings of two quadrilaterals

Edge `i` of `p` leads from `p i` to `p (i + 1)`. It crosses edge `j` of `q` where the
ends of each are on different sides of the other (`Crosses`, with a slack). At a
crossing one of the two edges comes in and the other goes out (`crosses_iff`), and an
edge comes in at one crossing at most (`Enters.unique`). So the crossings are as many
as the edges that come in (`card_crosses`).
-/

set_option autoImplicit false

namespace W2Net

open Finset

/-! ### Signed areas -/

section
variable {K : Type} [Field K]

/-- The area of a triangle, negative for corners in clockwise order. -/
def signedArea (a b c : K × K) : K :=
  ((a.1 - c.1) * (b.2 - c.2) - (a.2 - c.2) * (b.1 - c.1)) / 2

/-- The two ends of an edge differ in their areas as the ends of the other edge do. -/
theorem signedArea_exchange (a b c d : K × K) :
    signedArea c d b = signedArea c d a + signedArea a b c - signedArea a b d := by
  simp only [signedArea]
  ring

end

/-! ### Crossings -/

section
variable {K : Type} [Field K] [LinearOrder K]

/-- The ends of edge `i` of `p` are on different sides of edge `j` of `q`, and the other
way round. -/
def Crosses (eps : K) (p q : Fin 4 → K × K) (i j : Fin 4) : Prop :=
  signedArea (p i) (p (i + 1)) (q j) * signedArea (p i) (p (i + 1)) (q (j + 1)) < -eps ∧
    signedArea (q j) (q (j + 1)) (p i) * signedArea (q j) (q (j + 1)) (p (i + 1)) < -eps

/-- Edge `i` of `p` crosses edge `j` of `q` and starts on its outer side. -/
def Enters (eps : K) (p q : Fin 4 → K × K) (i j : Fin 4) : Prop :=
  Crosses eps p q i j ∧ 0 < signedArea (q j) (q (j + 1)) (p i)

instance (eps : K) (p q : Fin 4 → K × K) (i j : Fin 4) : Decidable (Crosses eps p q i j) :=
  inferInstanceAs (Decidable (_ ∧ _))

instance (eps : K) (p q : Fin 4 → K × K) (i j : Fin 4) : Decidable (Enters eps p q i j) :=
  inferInstanceAs (Decidable (_ ∧ _))

/-- A parallelogram with its corners in clockwise order. -/
structure Clockwise (q : Fin 4 → K × K) : Prop where
  opposite : q 0 + q 2 = q 1 + q 3
  area : signedArea (q 0) (q 1) (q 2) < 0

variable {eps : K} {p q : Fin 4 → K × K} {i j k : Fin 4}

theorem crosses_comm : Crosses eps p q i j ↔ Crosses eps q p j i := and_comm

variable [IsStrictOrderedRing K]

/-- No point is on the outer side of two opposite edges. -/
theorem Clockwise.outer_opposite (hq : Clockwise q) (j : Fin 4) (x : K × K) :
    signedArea (q j) (q (j + 1)) x + signedArea (q (j + 2)) (q (j + 2 + 1)) x < 0 := by
  have hfst : (q 0).1 + (q 2).1 = (q 1).1 + (q 3).1 := congrArg Prod.fst hq.opposite
  have hsnd : (q 0).2 + (q 2).2 = (q 1).2 + (q 3).2 := congrArg Prod.snd hq.opposite
  have h3 : q 3 = ((q 0).1 + (q 2).1 - (q 1).1, (q 0).2 + (q 2).2 - (q 1).2) := by
    apply Prod.ext
    · show (q 3).1 = (q 0).1 + (q 2).1 - (q 1).1
      linarith
    · show (q 3).2 = (q 0).2 + (q 2).2 - (q 1).2
      linarith
  have hsum : signedArea (q j) (q (j + 1)) x + signedArea (q (j + 2)) (q (j + 2 + 1)) x
      = signedArea (q 0) (q 1) (q 2) := by
    fin_cases j <;> simp [signedArea, h3] <;> ring
  rw [hsum]
  exact hq.area

theorem Crosses.mul_neg (heps : 0 ≤ eps) (h : Crosses eps p q i j) :
    signedArea (p i) (p (i + 1)) (q j) * signedArea (p i) (p (i + 1)) (q (j + 1)) < 0 ∧
      signedArea (q j) (q (j + 1)) (p i) * signedArea (q j) (q (j + 1)) (p (i + 1)) < 0 :=
  ⟨h.1.trans_le (neg_nonpos.mpr heps), h.2.trans_le (neg_nonpos.mpr heps)⟩

/-- The ends of an edge through which another one comes in. -/
theorem Enters.ends (heps : 0 ≤ eps) (h : Enters eps p q i j) :
    signedArea (p i) (p (i + 1)) (q j) < 0 ∧ 0 < signedArea (p i) (p (i + 1)) (q (j + 1)) := by
  obtain ⟨hpq, hqp⟩ := h.1.mul_neg heps
  -- The edge starts outside, so it ends inside.
  have hin := neg_of_mul_neg_right hqp h.2.le
  have hdiff := signedArea_exchange (p i) (p (i + 1)) (q j) (q (j + 1))
  have hout := h.2
  rcases mul_neg_iff.mp hpq with ⟨hj, hj1⟩ | hends
  · linarith
  · exact hends

/-- At a crossing one of the edges comes in. -/
theorem crosses_iff (heps : 0 ≤ eps) :
    Crosses eps p q i j ↔ Enters eps p q i j ∨ Enters eps q p j i := by
  constructor
  · intro h
    obtain ⟨hpq, hqp⟩ := h.mul_neg heps
    have hdiff := signedArea_exchange (p i) (p (i + 1)) (q j) (q (j + 1))
    rcases mul_neg_iff.mp hqp with ⟨hout, -⟩ | ⟨hin, hout⟩
    · exact Or.inl ⟨h, hout⟩
    · rcases mul_neg_iff.mp hpq with ⟨hj, -⟩ | ⟨hj, hj1⟩
      · exact Or.inr ⟨crosses_comm.mp h, hj⟩
      · linarith
  · rintro (h | h)
    · exact h.1
    · exact crosses_comm.mp h.1

/-- The other edge goes out. -/
theorem Enters.not_enters (heps : 0 ≤ eps) (h : Enters eps p q i j) : ¬Enters eps q p j i :=
  fun h' => lt_asymm (h.ends heps).1 h'.2

/-- An edge comes in through one edge at most. It goes through two neighbours in
opposite directions, and starts on the outer side of one of two opposite edges. -/
theorem Enters.unique (heps : 0 ≤ eps) (hq : Clockwise q) (h : Enters eps p q i j)
    (h' : Enters eps p q i k) : j = k := by
  have hnext : ∀ {j : Fin 4}, Enters eps p q i j → ¬Enters eps p q i (j + 1) :=
    fun h h' => lt_asymm (h.ends heps).2 (h'.ends heps).1
  have hopposite : ∀ {j : Fin 4}, Enters eps p q i j → ¬Enters eps p q i (j + 2) := by
    intro j h h'
    have hsum := hq.outer_opposite j (p i)
    have hj := h.2
    have hj2 := h'.2
    linarith
  -- The same edge, the next one, the opposite one, or the one before.
  have hcases : k = j ∨ k = j + 1 ∨ k = j + 2 ∨ j = k + 1 := by omega
  rcases hcases with rfl | rfl | rfl | rfl
  · rfl
  · exact absurd h' (hnext h)
  · exact absurd h' (hopposite h)
  · exact absurd h (hnext h')

/-! ### Counting -/

/-- A relation that takes each element to one other at most has as many pairs as there
are elements that it takes to another. -/
theorem card_pairs {α β : Type} [Fintype α] [Fintype β] {r : α → β → Prop}
    [∀ a b, Decidable (r a b)] [DecidablePred fun a => ∃ b, r a b]
    (hr : ∀ {a b b'}, r a b → r a b' → b = b') :
    #{x : α × β | r x.1 x.2} = #{a : α | ∃ b, r a b} := by
  refine card_bij (fun x _ => x.1) ?_ ?_ ?_
  · intro x hx
    exact mem_filter.mpr ⟨mem_univ _, x.2, (mem_filter.mp hx).2⟩
  · intro x hx y hy hxy
    have hx' := (mem_filter.mp hx).2
    rw [hxy] at hx'
    exact Prod.ext hxy (hr hx' (mem_filter.mp hy).2)
  · intro a ha
    obtain ⟨b, hb⟩ := (mem_filter.mp ha).2
    exact ⟨(a, b), mem_filter.mpr ⟨mem_univ _, hb⟩, rfl⟩

/-- Two properties hold no more often than there are elements when both hold no more often
than neither. -/
theorem card_add_card_le_iff {α : Type} [Fintype α] [DecidableEq α] {r t : α → Prop}
    [DecidablePred r] [DecidablePred t] :
    #{a | r a} + #{a | t a} ≤ Fintype.card α ↔ #{a | r a ∧ t a} ≤ #{a | ¬r a ∧ ¬t a} := by
  have hunion := card_union_add_card_inter {a | r a} ({a | t a} : Finset α)
  rw [← filter_or, ← filter_and] at hunion
  have hcompl := card_filter_add_card_filter_not (s := (univ : Finset α)) fun a => r a ∨ t a
  simp only [not_or, card_univ] at hcompl
  omega

/-- There are as many crossings as edges that come in, of both. -/
theorem card_crosses (heps : 0 ≤ eps) (hp : Clockwise p) (hq : Clockwise q) :
    #{x : Fin 4 × Fin 4 | Crosses eps p q x.1 x.2}
      = #{i | ∃ j, Enters eps p q i j} + #{j | ∃ i, Enters eps q p j i} := by
  rw [← card_pairs (r := Enters eps p q) fun h h' => h.unique heps hq h',
    ← card_pairs (r := Enters eps q p) fun h h' => h.unique heps hp h']
  -- As pairs of edges, the two kinds of crossings are disjoint.
  have hswap : #{x : Fin 4 × Fin 4 | Enters eps q p x.1 x.2}
      = #{x : Fin 4 × Fin 4 | Enters eps q p x.2 x.1} :=
    card_equiv (Equiv.prodComm _ _) fun x => by simp
  rw [hswap, ← card_union_of_disjoint, ← filter_or]
  · simp only [crosses_iff heps]
  · refine disjoint_filter.mpr ?_
    intro x _ h
    exact h.not_enters heps

end

end W2Net
