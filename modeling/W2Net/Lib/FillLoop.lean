import Mathlib.Data.List.FinRange
import Mathlib.Data.List.Nodup
import Mathlib.Logic.Function.Basic
import W2Net.Lib.Python

/-!
# `W2Net.Lib.FillLoop`: a loop that writes an array entry by entry

`fillLoop` runs over a list of indices. At each index the body raises, writes the entry of
that index, or leaves it as it is (a `continue`). The body reads no entry of the array, so
over a list without duplicates the array at the end is known entry by entry
(`fillLoop_eq_ok_iff`).

`cells` lists the indices of a matrix with the columns in the outer loop.
-/

set_option autoImplicit false

namespace W2Net

section
variable {ι α : Type} [DecidableEq ι]

/-- The array after the body has written `written` at `i`. -/
def writeEntry (out : ι → α) (i : ι) : Option α → ι → α
  | some x => Function.update out i x
  | none => out

theorem writeEntry_eq_update (out : ι → α) (i : ι) (written : Option α) :
    writeEntry out i written = Function.update out i (written.getD (out i)) := by
  cases written with
  | none => exact (Function.update_eq_self i out).symm
  | some x => rfl

variable (body : ι → PyM (Option α))

/-- `for i in idxs: out[i] = body(i)`, where `none` stands for a body that writes nothing. -/
def fillLoop (idxs : List ι) (out : ι → α) : PyM (ι → α) :=
  idxs.foldlM (fun out i => (body i).map (writeEntry out i)) out

/-- What the entry is after the body has run, if it returns. -/
def Writes (out out' : ι → α) (i : ι) : Prop :=
  ∃ written, body i = .ok written ∧ out' i = written.getD (out i)

/-- The first step of the loop, and the loop over the other indices. -/
theorem fillLoop_cons_eq_ok_iff (i : ι) (idxs : List ι) (out out' : ι → α) :
    fillLoop body (i :: idxs) out = .ok out' ↔
      ∃ written, body i = .ok written ∧
        fillLoop body idxs (Function.update out i (written.getD (out i))) = .ok out' := by
  rw [fillLoop, List.foldlM_cons]
  cases body i with
  | error e =>
      refine iff_of_false (fun h => nomatch h) ?_
      rintro ⟨written, h, -⟩
      cases h
  | ok written =>
      show fillLoop body idxs (writeEntry out i written) = .ok out' ↔ _
      rw [writeEntry_eq_update]
      constructor
      · exact fun h => ⟨written, rfl, h⟩
      · rintro ⟨written', hw, h⟩
        cases hw
        exact h

/-- The loop returns exactly when every body does, and each entry is then what its own body
wrote. -/
theorem fillLoop_eq_ok_iff {idxs : List ι} (hnodup : idxs.Nodup) (out out' : ι → α) :
    fillLoop body idxs out = .ok out' ↔
      (∀ i ∈ idxs, Writes body out out' i) ∧ ∀ i, i ∉ idxs → out' i = out i := by
  induction idxs generalizing out with
  | nil =>
      show (.ok out : PyM (ι → α)) = .ok out' ↔ _
      rw [Except.ok.injEq]
      constructor
      · rintro rfl
        exact ⟨fun i hi => absurd hi List.not_mem_nil, fun _ _ => rfl⟩
      · exact fun h => (funext fun i => h.2 i List.not_mem_nil).symm
  | cons i idxs ih =>
      obtain ⟨hi, hnodup⟩ := List.nodup_cons.mp hnodup
      rw [fillLoop_cons_eq_ok_iff]
      constructor
      · rintro ⟨written, hbody, hrest⟩
        obtain ⟨hin, hout⟩ := (ih hnodup _).mp hrest
        constructor
        · rw [List.forall_mem_cons]
          refine ⟨⟨written, hbody, ?_⟩, fun j hj => ?_⟩
          · rw [hout i hi, Function.update_self]
          · -- The first step does not touch the entry of a later index.
            have hne : j ≠ i := fun h => hi (h ▸ hj)
            obtain ⟨written', hbody', hj'⟩ := hin j hj
            rw [Function.update_of_ne hne] at hj'
            exact ⟨written', hbody', hj'⟩
        · intro j hj
          rw [List.mem_cons, not_or] at hj
          rw [hout j hj.2, Function.update_of_ne hj.1]
      · rintro ⟨hin, hout⟩
        obtain ⟨⟨written, hbody, hwritten⟩, hin⟩ := List.forall_mem_cons.mp hin
        refine ⟨written, hbody, (ih hnodup _).mpr ⟨fun j hj => ?_, fun j hj => ?_⟩⟩
        · have hne : j ≠ i := fun h => hi (h ▸ hj)
          obtain ⟨written', hbody', hj'⟩ := hin j hj
          refine ⟨written', hbody', ?_⟩
          rw [hj', Function.update_of_ne hne]
        · rcases eq_or_ne j i with rfl | hne
          · rw [Function.update_self, hwritten]
          · rw [Function.update_of_ne hne]
            exact hout j fun h => (List.mem_cons.mp h).elim hne hj

end

/-! ### The indices of a matrix -/

/-- `for k in range(M): for n in range(N)`. -/
def cells (N M : ℕ) : List (Fin N × Fin M) :=
  (List.finRange M).flatMap fun k => (List.finRange N).map fun n => (n, k)

theorem mem_cells {N M : ℕ} (i : Fin N × Fin M) : i ∈ cells N M := by
  refine List.mem_flatMap.mpr ⟨i.2, List.mem_finRange i.2, ?_⟩
  exact List.mem_map.mpr ⟨i.1, List.mem_finRange i.1, rfl⟩

theorem nodup_cells (N M : ℕ) : (cells N M).Nodup := by
  refine List.nodup_flatMap.mpr ⟨fun k _ => ?_, ?_⟩
  · refine (List.nodup_finRange N).map fun n n' h => ?_
    exact congrArg Prod.fst h
  · refine (List.nodup_finRange M).imp fun {k k'} hne => ?_
    intro i hk hk'
    obtain ⟨n, -, rfl⟩ := List.mem_map.mp hk
    obtain ⟨n', -, h⟩ := List.mem_map.mp hk'
    exact hne (congrArg Prod.snd h).symm

/-- A loop over a whole matrix. -/
theorem fillLoop_cells_eq_ok_iff {α : Type} {N M : ℕ} (body : Fin N × Fin M → PyM (Option α))
    (out out' : Fin N × Fin M → α) :
    fillLoop body (cells N M) out = .ok out' ↔ ∀ i, Writes body out out' i := by
  rw [fillLoop_eq_ok_iff body (nodup_cells N M)]
  constructor
  · exact fun h i => h.1 i (mem_cells i)
  · exact fun h => ⟨fun i _ => h i, fun i hi => absurd (mem_cells i) hi⟩

end W2Net
