import Mathlib.Data.List.Nodup
import Mathlib.Data.List.Perm.Subperm
import Mathlib.Tactic.Common

/-!
# `W2Net.Lib.Counter`: a Python dictionary used as a counter

`Counter α` is a dictionary from keys to counts in insertion order. `incr` is
the idiom `if k in d: d[k] += 1 else: d[k] = 1`, and `tally` counts the keys of a
list with it.

`length_le_countP` bounds a duplicate-free list of positions of a list by the
number of entries with a property that all of them have.
-/

set_option autoImplicit false

namespace W2Net

variable {α : Type} [DecidableEq α]

/-- A dictionary from keys to counts, in the order of the first insertion. -/
abbrev Counter (α : Type) : Type := List (α × ℕ)

namespace Counter

/-- `if k in d: d[k] += 1 else: d[k] = 1`. -/
def incr (k : α) : Counter α → Counter α
  | [] => [(k, 1)]
  | (k', n) :: d => if k' = k then (k', n + 1) :: d else (k', n) :: incr k d

/-- `d[k] = n`. -/
def assign (k : α) (n : ℕ) : Counter α → Counter α
  | [] => [(k, n)]
  | (k', m) :: d => if k' = k then (k', n) :: d else (k', m) :: assign k n d

/-- `d[k]`, or `none` for a missing key. -/
def get? (k : α) : Counter α → Option ℕ
  | [] => none
  | (k', n) :: d => if k' = k then some n else get? k d

/-- `list(d.keys())`. -/
def keys (d : Counter α) : List α := d.map Prod.fst

/-- The count of a key, 0 for a missing one. -/
def count (k : α) (d : Counter α) : ℕ := (get? k d).getD 0

/-- Every count that is stored is positive. -/
def Positive (d : Counter α) : Prop := ∀ e ∈ d, 0 < e.2

theorem count_incr (k j : α) (d : Counter α) :
    count j (incr k d) = count j d + if k = j then 1 else 0 := by
  induction d with
  | nil =>
      by_cases h : k = j
      · simp [incr, count, get?, h]
      · simp [incr, count, get?, h]
  | cons e d ih =>
      obtain ⟨k', n⟩ := e
      simp only [incr]
      by_cases hk : k' = k
      · subst hk
        rw [if_pos rfl]
        by_cases hj : k' = j
        · simp [count, get?, hj]
        · simp [count, get?, hj]
      · rw [if_neg hk]
        by_cases hj : k' = j
        · -- The entry of `j` is in front of the one of `k`.
          have hkj : k ≠ j := fun h => hk (hj.trans h.symm)
          simp [count, get?, hj, hkj]
        · simpa [count, get?, hj] using ih

theorem Positive.incr {d : Counter α} (h : d.Positive) (k : α) : (incr k d).Positive := by
  induction d with
  | nil =>
      intro e he
      rw [List.mem_singleton.mp he]
      exact Nat.one_pos
  | cons e d ih =>
      obtain ⟨k', n⟩ := e
      have hd : Positive d := fun e he => h e (List.mem_cons_of_mem _ he)
      simp only [Counter.incr]
      split
      · intro e he
        rcases List.mem_cons.mp he with rfl | he
        · exact Nat.succ_pos n
        · exact hd e he
      · intro e he
        rcases List.mem_cons.mp he with rfl | he
        · exact h _ List.mem_cons_self
        · exact ih hd e he

theorem mem_keys_incr {k j : α} {d : Counter α} : j ∈ (incr k d).keys ↔ j = k ∨ j ∈ d.keys := by
  induction d with
  | nil => exact List.mem_cons
  | cons e d ih =>
      obtain ⟨k', n⟩ := e
      simp only [incr]
      split
      · rename_i hk
        -- The key is there already.
        subst hk
        show j ∈ k' :: keys d ↔ j = k' ∨ j ∈ k' :: keys d
        rw [List.mem_cons]
        tauto
      · show j ∈ k' :: keys (incr k d) ↔ j = k ∨ j ∈ k' :: keys d
        rw [List.mem_cons, ih, List.mem_cons]
        tauto

/-- A key has a positive count. -/
theorem Positive.get?_of_mem_keys {d : Counter α} (h : d.Positive) {k : α} (hk : k ∈ d.keys) :
    ∃ n, get? k d = some n ∧ 0 < n := by
  induction d with
  | nil => cases hk
  | cons e d ih =>
      obtain ⟨k', n⟩ := e
      by_cases hkk : k' = k
      · exact ⟨n, if_pos hkk, h (k', n) List.mem_cons_self⟩
      · have hd : Positive d := fun e he => h e (List.mem_cons_of_mem _ he)
        obtain ⟨m, hm, hpos⟩ := ih hd ((List.mem_cons.mp hk).resolve_left (Ne.symm hkk))
        exact ⟨m, (if_neg hkk).trans hm, hpos⟩

theorem get?_assign (k j : α) (n : ℕ) (d : Counter α) :
    get? j (assign k n d) = if k = j then some n else get? j d := by
  induction d with
  | nil => rfl
  | cons e d ih =>
      obtain ⟨k', m⟩ := e
      by_cases hk : k' = k
      · subst hk
        simp only [assign, if_pos, get?]
        split
        · rfl
        · rfl
      · simp only [assign, if_neg hk, get?, ih]
        by_cases hj : k' = j
        · have hkj : k ≠ j := fun h => hk (hj.trans h.symm)
          rw [if_pos hj, if_neg hkj, if_pos hj]
        · simp only [if_neg hj]

theorem get?_incr (k j : α) (d : Counter α) :
    get? j (incr k d) = if k = j then some (count k d + 1) else get? j d := by
  induction d with
  | nil => rfl
  | cons e d ih =>
      obtain ⟨k', m⟩ := e
      by_cases hk : k' = k
      · subst hk
        simp only [incr, if_pos, get?, count]
        split
        · rfl
        · rfl
      · simp only [incr, if_neg hk, get?, count, ih]
        by_cases hj : k' = j
        · have hkj : k ≠ j := fun h => hk (hj.trans h.symm)
          rw [if_pos hj, if_neg hkj, if_pos hj]
        · simp only [if_neg hj]

theorem get?_eq_some_count {k : α} {d : Counter α} (h : k ∈ d.keys) :
    get? k d = some (count k d) := by
  induction d with
  | nil => cases h
  | cons e d ih =>
      obtain ⟨k', m⟩ := e
      by_cases hk : k' = k
      · simp [get?, count, hk]
      · have hmem : k ∈ keys d := (List.mem_cons.mp h).resolve_left (Ne.symm hk)
        simpa [get?, count, hk] using ih hmem

theorem nodup_keys_incr {k : α} {d : Counter α} (h : d.keys.Nodup) : (incr k d).keys.Nodup := by
  induction d with
  | nil => exact List.nodup_singleton k
  | cons e d ih =>
      obtain ⟨k', m⟩ := e
      obtain ⟨hnot, hd⟩ := List.nodup_cons.mp h
      by_cases hk : k' = k
      · rw [incr, if_pos hk]
        exact h
      · rw [incr, if_neg hk]
        refine List.nodup_cons.mpr ⟨?_, ih hd⟩
        intro hmem
        rcases mem_keys_incr.mp hmem with heq | hmem
        · exact hk heq
        · exact hnot hmem

section
variable {β : Type} (key : β → α)

/-- Counting the keys of a list. -/
def tally (l : List β) (d : Counter α) : Counter α := l.foldl (fun d b => d.incr (key b)) d

theorem count_tally (l : List β) (d : Counter α) (j : α) :
    count j (tally key l d) = count j d + l.countP fun b => key b = j := by
  induction l generalizing d with
  | nil => rfl
  | cons b l ih =>
      show count j (tally key l (incr (key b) d)) = _
      rw [ih, count_incr, List.countP_cons]
      simp only [decide_eq_true_iff]
      omega

theorem mem_keys_tally (l : List β) (d : Counter α) (j : α) :
    j ∈ (tally key l d).keys ↔ j ∈ d.keys ∨ ∃ b ∈ l, key b = j := by
  induction l generalizing d with
  | nil => simp [tally]
  | cons b l ih =>
      show j ∈ (tally key l (incr (key b) d)).keys ↔ _
      rw [ih, mem_keys_incr, or_assoc, or_left_comm]
      simp only [List.mem_cons, exists_eq_or_imp, eq_comm (a := j)]

theorem nodup_keys_tally (l : List β) {d : Counter α} (h : d.keys.Nodup) :
    (tally key l d).keys.Nodup := by
  induction l generalizing d with
  | nil => exact h
  | cons b l ih => exact ih (nodup_keys_incr h)

end

end Counter

/-- Distinct positions whose entries have the property `p` are no more than the
entries with this property. -/
theorem length_le_countP {β : Type} {p : β → Bool} {l : List β} {is : List ℕ} (hnodup : is.Nodup)
    (h : ∀ i ∈ is, ∃ b, l[i]? = some b ∧ p b = true) : is.length ≤ l.countP p := by
  -- The positions with the property, in order.
  have hcount : ((l.zipIdx.filter fun e => p e.1).map Prod.snd).length = l.countP p := by
    rw [List.length_map, ← List.countP_eq_length_filter]
    conv_rhs => rw [← List.zipIdx_map_fst 0 l, List.countP_map]
    rfl
  rw [← hcount]
  refine (List.subperm_of_subset hnodup fun i hi => ?_).length_le
  obtain ⟨b, hb, hp⟩ := h i hi
  exact List.mem_map.mpr ⟨(b, i), List.mem_filter.mpr ⟨List.mem_zipIdx_iff_getElem?.mpr hb, hp⟩, rfl⟩

end W2Net
