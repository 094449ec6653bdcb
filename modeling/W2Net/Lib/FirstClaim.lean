import Mathlib.Algebra.BigOperators.Group.List.Basic
import Mathlib.Algebra.GroupWithZero.Nat
import Mathlib.Data.List.Nodup
import Mathlib.Tactic.Common

/-!
# `W2Net.Lib.FirstClaim`: one-to-one assignment by first claim

A list of requests is processed in order. A request claims an object, misses,
or is skipped. The first claim of an object is a hit, and every later claim of
the same object is a repeat. `Marks` counts a hit as a true positive, and a
miss or a repeat as a false positive.

`settle` processes one request against the objects taken so far, `settleAll` a
whole list. `hits` is the list of the objects that `settleAll` hands out:

* `nodup_hits`, `not_mem_of_mem_hits`: no object is handed out twice, and none
  that was taken before.
* `claim_mem_of_mem_hits`: an object that is handed out was claimed.
* `settleAll_taken`: the taken objects are the old ones and the hits.
* `sum_tp_settleAll`: there are as many true positives as hits.
* `sum_settleAll`: what does not count either way was skipped.
-/

set_option autoImplicit false

namespace W2Net

variable {α : Type}

/-- A request: for an object, for nothing that exists, or out of account. -/
inductive Request (α : Type) where
  | claim (a : α)
  | miss
  | skip
  deriving Repr, DecidableEq

/-- What one request counts as. -/
structure Marks where
  tp : ℕ
  fp : ℕ
  deriving Repr, DecidableEq

section
variable [DecidableEq α]

/-- One request, against the objects taken so far. -/
def settle (taken : List α) : Request α → Marks × List α
  | .claim a => if a ∈ taken then (⟨0, 1⟩, taken) else (⟨1, 0⟩, a :: taken)
  | .miss => (⟨0, 1⟩, taken)
  | .skip => (⟨0, 0⟩, taken)

/-- The requests in order: the marks of each, and the objects taken at the end. -/
def settleAll (taken : List α) : List (Request α) → List Marks × List α
  | [] => ([], taken)
  | r :: rs =>
      let step := settle taken r
      let rest := settleAll step.2 rs
      (step.1 :: rest.1, rest.2)

/-- The objects handed out, in order. -/
def hits (taken : List α) : List (Request α) → List α
  | [] => []
  | .claim a :: rs => if a ∈ taken then hits taken rs else a :: hits (a :: taken) rs
  | .miss :: rs => hits taken rs
  | .skip :: rs => hits taken rs

/-! ### One request -/

/-- What a step can do: hand out a free object, count a false positive, or skip. -/
theorem settle_cases (taken : List α) (r : Request α) :
    (∃ a, r = .claim a ∧ a ∉ taken ∧ settle taken r = (⟨1, 0⟩, a :: taken)) ∨
      (r ≠ .skip ∧ settle taken r = (⟨0, 1⟩, taken)) ∨
      (r = .skip ∧ settle taken r = (⟨0, 0⟩, taken)) := by
  cases r with
  | claim a =>
      by_cases hmem : a ∈ taken
      · exact Or.inr (Or.inl ⟨nofun, if_pos hmem⟩)
      · exact Or.inl ⟨a, rfl, hmem, if_neg hmem⟩
  | miss => exact Or.inr (Or.inl ⟨nofun, rfl⟩)
  | skip => exact Or.inr (Or.inr ⟨rfl, rfl⟩)

theorem settle_sum_le_one (taken : List α) (r : Request α) :
    (settle taken r).1.tp + (settle taken r).1.fp ≤ 1 := by
  obtain ⟨a, -, -, h⟩ | ⟨-, h⟩ | ⟨-, h⟩ := settle_cases taken r <;> simp [h]

/-- Only a skipped request counts as nothing. -/
theorem settle_eq_zero {taken : List α} {r : Request α} (htp : (settle taken r).1.tp = 0)
    (hfp : (settle taken r).1.fp = 0) : r = .skip := by
  obtain ⟨a, -, -, h⟩ | ⟨-, h⟩ | ⟨hr, -⟩ := settle_cases taken r
  · simp [h] at htp
  · simp [h] at hfp
  · exact hr

/-- A true positive is the claim of an object that was free. -/
theorem settle_tp_eq_one {taken : List α} {r : Request α} (htp : (settle taken r).1.tp = 1) :
    ∃ a, r = .claim a ∧ a ∉ taken := by
  obtain ⟨a, hr, hfree, -⟩ | ⟨-, h⟩ | ⟨-, h⟩ := settle_cases taken r
  · exact ⟨a, hr, hfree⟩
  · simp [h] at htp
  · simp [h] at htp

/-! ### A list of requests -/

theorem settleAll_length (taken : List α) (rs : List (Request α)) :
    (settleAll taken rs).1.length = rs.length := by
  induction rs generalizing taken with
  | nil => rfl
  | cons r rs ih =>
      show (settleAll (settle taken r).2 rs).1.length + 1 = rs.length + 1
      rw [ih]

/-- An object that is handed out was claimed. -/
theorem claim_mem_of_mem_hits {taken : List α} {rs : List (Request α)} {a : α}
    (h : a ∈ hits taken rs) : .claim a ∈ rs := by
  induction rs generalizing taken with
  | nil => cases h
  | cons r rs ih =>
      cases r with
      | claim b =>
          simp only [hits] at h
          split at h
          · exact List.mem_cons_of_mem _ (ih h)
          · rcases List.mem_cons.mp h with rfl | h
            · exact List.mem_cons_self
            · exact List.mem_cons_of_mem _ (ih h)
      | miss => exact List.mem_cons_of_mem _ (ih h)
      | skip => exact List.mem_cons_of_mem _ (ih h)

/-- A taken object is not handed out. -/
theorem not_mem_of_mem_hits {taken : List α} {rs : List (Request α)} {a : α}
    (h : a ∈ hits taken rs) : a ∉ taken := by
  induction rs generalizing taken with
  | nil => cases h
  | cons r rs ih =>
      cases r with
      | claim b =>
          simp only [hits] at h
          split at h
          · exact ih h
          · rename_i hfree
            rcases List.mem_cons.mp h with rfl | h
            · exact hfree
            · exact fun hmem => ih h (List.mem_cons_of_mem b hmem)
      | miss => exact ih h
      | skip => exact ih h

/-- No object is handed out twice. -/
theorem nodup_hits (taken : List α) (rs : List (Request α)) : (hits taken rs).Nodup := by
  induction rs generalizing taken with
  | nil => exact List.nodup_nil
  | cons r rs ih =>
      cases r with
      | claim a =>
          simp only [hits]
          split
          · exact ih taken
          · -- `a` is taken for the rest of the list.
            exact List.nodup_cons.mpr
              ⟨fun hmem => not_mem_of_mem_hits hmem List.mem_cons_self, ih (a :: taken)⟩
      | miss => exact ih taken
      | skip => exact ih taken

/-- At the end the hits are taken as well. -/
theorem settleAll_taken (taken : List α) (rs : List (Request α)) :
    (settleAll taken rs).2 = (hits taken rs).reverse ++ taken := by
  induction rs generalizing taken with
  | nil => rfl
  | cons r rs ih =>
      show (settleAll (settle taken r).2 rs).2 = _
      rw [ih]
      cases r with
      | claim a =>
          simp only [settle, hits]
          split
          · rfl
          · simp
      | miss => rfl
      | skip => rfl

/-- There are as many true positives as hits. -/
theorem sum_tp_settleAll (taken : List α) (rs : List (Request α)) :
    ((settleAll taken rs).1.map Marks.tp).sum = (hits taken rs).length := by
  induction rs generalizing taken with
  | nil => rfl
  | cons r rs ih =>
      show (settle taken r).1.tp + ((settleAll (settle taken r).2 rs).1.map Marks.tp).sum = _
      rw [ih]
      cases r with
      | claim a =>
          simp only [settle, hits]
          split
          · exact Nat.zero_add _
          · exact Nat.add_comm 1 _
      | miss => exact Nat.zero_add _
      | skip => exact Nat.zero_add _

/-- Every request counts as a true positive, as a false positive, or is skipped. -/
theorem sum_settleAll (taken : List α) (rs : List (Request α)) :
    ((settleAll taken rs).1.map Marks.tp).sum + ((settleAll taken rs).1.map Marks.fp).sum
      + rs.countP (fun r => r = .skip) = rs.length := by
  induction rs generalizing taken with
  | nil => rfl
  | cons r rs ih =>
      have hrest := ih (settle taken r).2
      show (settle taken r).1.tp + ((settleAll (settle taken r).2 rs).1.map Marks.tp).sum
        + ((settle taken r).1.fp + ((settleAll (settle taken r).2 rs).1.map Marks.fp).sum)
        + (r :: rs).countP (fun r => r = .skip) = rs.length + 1
      rw [List.countP_cons]
      obtain ⟨a, rfl, -, hstep⟩ | ⟨hne, hstep⟩ | ⟨rfl, hstep⟩ := settle_cases taken r
      · simp [hstep] at hrest ⊢
        omega
      · simp [hstep, hne] at hrest ⊢
        omega
      · simp [hstep] at hrest ⊢
        omega

theorem settleAll_tp_le_one {taken : List α} {rs : List (Request α)} {m : Marks}
    (h : m ∈ (settleAll taken rs).1) : m.tp ≤ 1 := by
  induction rs generalizing taken with
  | nil => cases h
  | cons r rs ih =>
      rcases List.mem_cons.mp h with rfl | h
      · have hsum := settle_sum_le_one taken r
        omega
      · exact ih h

end

end W2Net
