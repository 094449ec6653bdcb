import Mathlib.Data.Nat.Basic
import Mathlib.Logic.Function.Basic
import Mathlib.Tactic.Common

/-!
# `W2Net.Lib.BitWords`: sets of indices in machine words

A set of indices is kept in words of `w` bits: the index `i` is the bit `i % w`
of the word `i / w` (`wordBit`). The facts are about the three things that
programs do with such words:

* `and_bit_eq_zero_iff`: a test of one bit with a mask.
* `getLsbD_foldl_setBit`: a loop that sets a bit for each index of a list with
  a property.
* `wordBit_foldl_or`: a loop that joins other words to a range of the words.

`storeAll` writes words to a memory one after the other. What a cell holds does
not depend on the order when all writes to it agree (`storeAll_of_agree`).
-/

set_option autoImplicit false

namespace W2Net

variable {w : ℕ}

/-! ### The bits of a word -/

/-- The index is in the set. -/
def wordBit (words : ℕ → BitVec w) (i : ℕ) : Bool := (words (i / w)).getLsbD (i % w)

/-- A word with one bit. -/
theorem getLsbD_one_shiftLeft {i k : ℕ} (hk : k < w) :
    (1#w <<< i).getLsbD k = decide (k = i) := by
  show (BitVec.twoPow w i).getLsbD k = decide (k = i)
  rw [BitVec.getLsbD_twoPow]
  by_cases hki : k = i
  · simp [← hki, hk]
  · simp [hki, Ne.symm hki]

/-- A word and a mask with one bit have a bit in common when the word has it. -/
theorem and_bit_eq_zero_iff (x : BitVec w) {i : ℕ} (hi : i < w) :
    x &&& (1#w <<< i) = 0#w ↔ x.getLsbD i = false := by
  show x &&& BitVec.twoPow w i = 0#w ↔ x.getLsbD i = false
  rw [BitVec.and_twoPow]
  cases hx : x.getLsbD i with
  | false => simp
  | true =>
      have hone : (BitVec.twoPow w i).getLsbD i = true := by simp [hi]
      have hne : BitVec.twoPow w i ≠ 0#w := by
        intro hzero
        rw [hzero, BitVec.getLsbD_zero] at hone
        exact Bool.false_ne_true hone
      simp [hne]

/-- The loop sets the bits of the listed indices with `p`. -/
theorem getLsbD_foldl_setBit (p : ℕ → Prop) [DecidablePred p] (l : List ℕ) (t : BitVec w) {k : ℕ}
    (hk : k < w) :
    (l.foldl (fun t i => if p i then t ||| (1#w <<< i) else t) t).getLsbD k =
      (t.getLsbD k || decide (k ∈ l ∧ p k)) := by
  induction l generalizing t with
  | nil => simp
  | cons i l ih =>
      rw [List.foldl_cons, ih]
      -- Only an index with `p` touches the word, and it touches its own bit.
      by_cases hp : p i
      · rw [if_pos hp, BitVec.getLsbD_or, getLsbD_one_shiftLeft hk]
        by_cases hki : k = i
        · subst hki
          simp [hp]
        · simp [hki]
      · rw [if_neg hp]
        by_cases hki : k = i
        · subst hki
          simp [hp]
        · simp [hki]

/-! ### Loops over cells -/

section
variable {α : Type}

/-- A loop that changes each cell of a list once. -/
theorem foldl_update_apply (f : ℕ → α → α) {l : List ℕ} (hl : l.Nodup) (mem : ℕ → α) (a : ℕ) :
    l.foldl (fun mem j => Function.update mem j (f j (mem j))) mem a =
      if a ∈ l then f a (mem a) else mem a := by
  induction l generalizing mem with
  | nil => simp
  | cons j l ih =>
      rw [List.nodup_cons] at hl
      rw [List.foldl_cons, ih hl.2]
      by_cases haj : a = j
      · -- The rest of the loop does not come back to the cell.
        subst haj
        simp [hl.1]
      · simp [haj]

/-- The writes of a list, first to last. -/
def storeAll (writes : List (ℕ × α)) (mem : ℕ → α) : ℕ → α :=
  writes.foldl (fun mem p => Function.update mem p.1 p.2) mem

theorem storeAll_of_not_mem {writes : List (ℕ × α)} {a : ℕ} (h : ∀ v, (a, v) ∉ writes)
    (mem : ℕ → α) : storeAll writes mem a = mem a := by
  unfold storeAll
  induction writes generalizing mem with
  | nil => rfl
  | cons p writes ih =>
      have hne : a ≠ p.1 := by
        intro heq
        exact h p.2 (heq ▸ List.mem_cons_self)
      rw [List.foldl_cons, ih fun v hv => h v (List.mem_cons_of_mem p hv),
        Function.update_of_ne hne]

/-- A cell to which all writes agree holds what they write. -/
theorem storeAll_of_agree {writes : List (ℕ × α)} {a : ℕ} {v : α} (hmem : (a, v) ∈ writes)
    (hagree : ∀ v', (a, v') ∈ writes → v' = v) (mem : ℕ → α) : storeAll writes mem a = v := by
  induction writes generalizing mem with
  | nil => exact absurd hmem List.not_mem_nil
  | cons p writes ih =>
      show storeAll writes (Function.update mem p.1 p.2) a = v
      by_cases hlater : ∃ v', (a, v') ∈ writes
      · obtain ⟨v', hv'⟩ := hlater
        have hv : v' = v := hagree v' (List.mem_cons_of_mem p hv')
        exact ih (hv ▸ hv') (fun u hu => hagree u (List.mem_cons_of_mem p hu)) _
      · -- The first write is the last one to the cell.
        rw [storeAll_of_not_mem (fun v' hv' => hlater ⟨v', hv'⟩)]
        cases List.mem_cons.mp hmem with
        | inl heq => rw [← heq, Function.update_self]
        | inr hrest => exact absurd ⟨v, hrest⟩ hlater

end

/-- A loop that joins the words of `p` to the words from `a` up to `b`. -/
theorem wordBit_foldl_or (p words : ℕ → BitVec w) {a b i : ℕ} (ha : a ≤ i / w) (hb : i / w < b) :
    wordBit ((List.range' a (b - a)).foldl
      (fun words j => Function.update words j (words j ||| p j)) words) i =
      (wordBit words i || wordBit p i) := by
  have hmem : i / w ∈ List.range' a (b - a) := by
    rw [List.mem_range'_1]
    omega
  rw [wordBit, foldl_update_apply (fun j x => x ||| p j) List.nodup_range', if_pos hmem,
    BitVec.getLsbD_or]
  rfl

end W2Net
