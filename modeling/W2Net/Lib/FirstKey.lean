import Mathlib.Logic.Basic
import Mathlib.Tactic.Common

/-!
# `W2Net.Lib.FirstKey`: the first entry with a key

A list whose entries have keys, where only the first entry with a key counts.
`updateFirst` changes this entry, and appends one when there is none.

* `find?_updateFirst`, `find?_updateFirst_of_ne`: what a lookup finds after an update.
* `Settled`: the first entry with the key is there, and the update leaves it as it is. An update
  settles its key (`settled_updateFirst`), and changes nothing when its key is settled
  (`Settled.updateFirst_eq`).
* `updateEach`: updates of distinct keys one after the other. A second round of them changes
  nothing (`updateEach_updateEach`).
-/

set_option autoImplicit false

namespace W2Net

section
variable {α κ : Type} [DecidableEq κ] (key : α → κ) (k : κ) (f : α → α) (fresh : α)

/-- Apply `f` to the first entry with the key `k`, or append `f fresh`. -/
def updateFirst : List α → List α
  | [] => [f fresh]
  | x :: xs => if key x = k then f x :: xs else x :: updateFirst xs

/-- The first entry with the key `k` is there, and `f` has nothing to change. -/
def Settled (xs : List α) : Prop := ∃ x, xs.find? (fun y => key y = k) = some x ∧ f x = x

variable {key k f fresh}

/-- A lookup of the key finds the changed entry. -/
theorem find?_updateFirst (hf : ∀ x, key (f x) = key x) (hfresh : key fresh = k) (xs : List α) :
    (updateFirst key k f fresh xs).find? (fun y => key y = k)
      = some (f ((xs.find? fun y => key y = k).getD fresh)) := by
  induction xs with
  | nil => simp [updateFirst, hf, hfresh]
  | cons x xs ih =>
      by_cases hx : key x = k
      · simp [updateFirst, hx, hf]
      · rw [updateFirst, if_neg hx]
        simp only [List.find?_cons, hx, decide_false]
        exact ih

/-- A lookup of another key finds what it found before. -/
theorem find?_updateFirst_of_ne (hf : ∀ x, key (f x) = key x) (hfresh : key fresh = k) {k' : κ}
    (hk : k' ≠ k) (xs : List α) :
    (updateFirst key k f fresh xs).find? (fun y => key y = k')
      = xs.find? fun y => key y = k' := by
  induction xs with
  | nil => simp [updateFirst, hf, hfresh, hk.symm]
  | cons x xs ih =>
      by_cases hx : key x = k
      · simp [updateFirst, hx, hf, hk.symm]
      · rw [updateFirst, if_neg hx, List.find?_cons, List.find?_cons, ih]

/-- After the update the key is settled, when a second application changes nothing. -/
theorem settled_updateFirst (hf : ∀ x, key (f x) = key x) (hfresh : key fresh = k)
    (hidem : ∀ x, f (f x) = f x) (xs : List α) :
    Settled key k f (updateFirst key k f fresh xs) :=
  ⟨_, find?_updateFirst hf hfresh xs, hidem _⟩

/-- The update of a settled key changes nothing. -/
theorem Settled.updateFirst_eq {xs : List α} (h : Settled key k f xs) :
    updateFirst key k f fresh xs = xs := by
  obtain ⟨x, hx, hfx⟩ := h
  induction xs with
  | nil => cases hx
  | cons y ys ih =>
      by_cases hy : key y = k
      · simp only [List.find?_cons, hy, decide_true, Option.some.injEq] at hx
        rw [updateFirst, if_pos hy, hx, hfx]
      · simp only [List.find?_cons, hy, decide_false] at hx
        rw [updateFirst, if_neg hy, ih hx]

end

/-! ### Several updates -/

section
variable {α κ : Type} [DecidableEq κ] {key : α → κ}

/-- An update for a key: what it does to the entry, and the entry when there is none. -/
structure KeyEdit (key : α → κ) where
  k : κ
  f : α → α
  fresh : α
  key_f : ∀ x, key (f x) = key x
  key_fresh : key fresh = k
  idem : ∀ x, f (f x) = f x

/-- The updates one after the other. -/
def updateEach (edits : List (KeyEdit key)) (xs : List α) : List α :=
  edits.foldl (fun xs e => updateFirst key e.k e.f e.fresh xs) xs

/-- A lookup of a key that no update is for. -/
theorem find?_updateEach_of_notMem {edits : List (KeyEdit key)} {k' : κ}
    (hk : ∀ e ∈ edits, k' ≠ e.k) (xs : List α) :
    (updateEach edits xs).find? (fun y => key y = k') = xs.find? fun y => key y = k' := by
  induction edits generalizing xs with
  | nil => rfl
  | cons e edits ih =>
      rw [List.forall_mem_cons] at hk
      exact (ih hk.2 _).trans (find?_updateFirst_of_ne e.key_f e.key_fresh hk.1 xs)

/-- Updates of other keys leave a key settled. -/
theorem Settled.updateEach_of_notMem {edits : List (KeyEdit key)} {k : κ} {f : α → α} {xs : List α}
    (h : Settled key k f xs) (hk : ∀ e ∈ edits, k ≠ e.k) : Settled key k f (updateEach edits xs) := by
  obtain ⟨x, hx, hfx⟩ := h
  exact ⟨x, (find?_updateEach_of_notMem hk xs).trans hx, hfx⟩

/-- After the updates all their keys are settled. Induction on the updates: the keys are distinct,
so a later update does not undo an earlier one. -/
theorem settled_updateEach {edits : List (KeyEdit key)} (hnodup : (edits.map KeyEdit.k).Nodup)
    (xs : List α) : ∀ e ∈ edits, Settled key e.k e.f (updateEach edits xs) := by
  induction edits generalizing xs with
  | nil => nofun
  | cons e edits ih =>
      rw [List.map_cons, List.nodup_cons] at hnodup
      intro e' he'
      cases List.mem_cons.mp he' with
      | inl heq =>
          subst heq
          refine (settled_updateFirst e'.key_f e'.key_fresh e'.idem xs).updateEach_of_notMem ?_
          intro e'' he'' hk
          exact hnodup.1 (hk ▸ List.mem_map_of_mem he'')
      | inr hmem => exact ih hnodup.2 _ e' hmem

/-- Updates of settled keys change nothing. -/
theorem updateEach_eq_self {edits : List (KeyEdit key)} {xs : List α}
    (h : ∀ e ∈ edits, Settled key e.k e.f xs) : updateEach edits xs = xs := by
  induction edits with
  | nil => rfl
  | cons e edits ih =>
      rw [List.forall_mem_cons] at h
      show updateEach edits (updateFirst key e.k e.f e.fresh xs) = xs
      rw [h.1.updateFirst_eq]
      exact ih h.2

/-- A second round of the updates changes nothing. -/
theorem updateEach_updateEach {edits : List (KeyEdit key)} (hnodup : (edits.map KeyEdit.k).Nodup)
    (xs : List α) : updateEach edits (updateEach edits xs) = updateEach edits xs :=
  updateEach_eq_self (settled_updateEach hnodup xs)

end

end W2Net
