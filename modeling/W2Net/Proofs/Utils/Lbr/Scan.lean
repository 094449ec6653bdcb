import W2Net.Lib.Runs
import W2Net.Utils.Lbr.Crests

/-!
# `W2Net.Proofs.Utils.Lbr.Scan`: the run scan finds the maximal runs

The nested loops of the wave-gap scanners (`runEnd`, `scanFrom`) return exactly
the maximal runs of the set samples that the length filter keeps:

* `runEnd_spec`: the inner loop stops at the end of the run it starts in.
* `mem_scanFrom`: the outer loop, from an unsplit cursor with enough fuel,
  returns the kept maximal runs that start at the cursor or after it.
* `mem_crestSegments`: the same for the whole sequence.
* `crestSegments_pairwise`: the segments come first to last, and neighbours
  are separated by at least one unset sample.
-/

set_option autoImplicit false

namespace W2Net.Proofs.Lbr

open W2Net.Lbr

/-- The sample at index `i` is set. Past the end it is not. -/
def IsSet (vals : List Bool) (i : ℕ) : Prop := vals.getD i false = true

instance (vals : List Bool) (i : ℕ) : Decidable (IsSet vals i) :=
  inferInstanceAs (Decidable (_ = _))

/-- The inner loop, started at a set sample with fuel for the rest of the
sequence, stops at the last sample of a window that cannot be extended. -/
theorem runEnd_spec (vals : List Bool) :
    ∀ (fuel i : ℕ), i < vals.length → IsSet vals i → vals.length ≤ i + 1 + fuel →
      Window (IsSet vals) vals.length i (runEnd vals fuel i) ∧
        (runEnd vals fuel i + 1 < vals.length → ¬ IsSet vals (runEnd vals fuel i + 1)) := by
  intro fuel
  induction fuel with
  | zero =>
      intro i hi hset hfuel
      exact ⟨Window.single hi hset, fun h => absurd h (by simp only [runEnd]; omega)⟩
  | succ fuel ih =>
      intro i hi hset hfuel
      simp only [runEnd]
      split
      · -- The next sample is set: the window from `i + 1` grows by one on the left.
        rename_i hnext
        obtain ⟨hw, hr⟩ := ih (i + 1) hnext.1 hnext.2 (by omega)
        refine ⟨{ le := by have := hw.le; omega, lt := hw.lt, all := fun j hj hj' => ?_ }, hr⟩
        rcases Nat.lt_or_ge i j with hlt | hge
        · exact hw.all j hlt hj'
        · have : j = i := by omega
          exact this ▸ hset
      · rename_i hnext
        exact ⟨Window.single hi hset, fun hlt hset' => hnext ⟨hlt, hset'⟩⟩

/-- The run the inner loop delimits is maximal when no run crosses its start. -/
theorem runEnd_maximalRun {vals : List Bool} {i : ℕ} (hi : i < vals.length)
    (hset : IsSet vals i) (hu : Unsplit (IsSet vals) vals.length i) :
    MaximalRun (IsSet vals) vals.length i (runEnd vals vals.length i) := by
  obtain ⟨hw, hr⟩ := runEnd_spec vals vals.length i hi hset (by omega)
  exact hu.maximalRun hw hr

/-- Past the last sample there is no run. -/
theorem not_maximalRun_of_le {vals : List Bool} {i s e : ℕ} (hi : vals.length ≤ i) (hs : i ≤ s) :
    ¬MaximalRun (IsSet vals) vals.length s e := by
  intro hr
  have hle := hr.le
  have hlt := hr.lt
  omega

/-- A list to which a run is added if the filter keeps it. -/
theorem mem_addRun_iff {keep : ℕ → ℕ → Bool} {l l' : List (ℕ × ℕ)} {s e s' e' : ℕ}
    (hadd : (s', e') ∈ l' ↔ s' = s ∧ e' = e ∨ (s', e') ∈ l) :
    (s', e') ∈ (if keep s e = true then l' else l) ↔
      (s' = s ∧ e' = e) ∧ keep s' e' = true ∨ (s', e') ∈ l := by
  split
  · rename_i hkeep
    rw [hadd]
    exact or_congr_left ⟨fun heq => ⟨heq, heq.1 ▸ heq.2 ▸ hkeep⟩, fun heq => heq.1⟩
  · rename_i hdrop
    refine ⟨Or.inr, fun h => h.resolve_left fun heq => ?_⟩
    exact hdrop (heq.1.1 ▸ heq.1.2 ▸ heq.2)

/-- The outer loop from an unsplit cursor: the kept maximal runs from the
cursor on. Induction on the fuel; the cursor moves past one unset sample or past
one whole run, and stays unsplit both ways. -/
theorem mem_scanFrom (vals : List Bool) (keep : ℕ → ℕ → Bool) :
    ∀ (fuel i : ℕ), Unsplit (IsSet vals) vals.length i → vals.length ≤ i + fuel →
      ∀ s e, (s, e) ∈ scanFrom vals keep fuel i ↔
        MaximalRun (IsSet vals) vals.length s e ∧ i ≤ s ∧ keep s e = true := by
  intro fuel
  induction fuel with
  | zero =>
      intro i _ hfuel s e
      simp only [scanFrom, List.not_mem_nil, false_iff]
      exact fun h => not_maximalRun_of_le hfuel h.2.1 h.1
  | succ fuel ih =>
      intro i hu hfuel s e
      simp only [scanFrom]
      split
      · rename_i hi
        split
        · -- A run starts at the cursor and ends at `runEnd`.
          rename_i hset
          have hrun := runEnd_maximalRun hi hset hu
          have hle := hrun.le
          have hrest := ih (runEnd vals vals.length i + 1) (hrun.unsplit_succ hu) (by omega) s e
          rw [mem_addRun_iff (by rw [List.mem_cons, Prod.mk.injEq]), hrest, ← and_assoc,
            ← and_assoc, hrun.from_start_iff, or_and_right]
        · -- The sample at the cursor is unset.
          rename_i hset
          rw [ih (i + 1) (hu.succ hset) (by omega) s e]
          exact and_congr_right fun hr => and_congr_left fun _ => (hr.start_le_iff hset).symm
      · -- The cursor is at the end.
        rename_i hi
        simp only [List.not_mem_nil, false_iff]
        exact fun h => not_maximalRun_of_le (Nat.le_of_not_lt hi) h.2.1 h.1

/-- The crest segments are exactly the maximal runs of set samples that the
filter keeps. -/
theorem mem_crestSegments (vals : List Bool) (keep : ℕ → ℕ → Bool) (s e : ℕ) :
    (s, e) ∈ crestSegments vals keep ↔
      MaximalRun (IsSet vals) vals.length s e ∧ keep s e = true := by
  rw [crestSegments, mem_scanFrom vals keep vals.length 0 unsplit_zero (by omega)]
  simp

/-- From an unsplit cursor, the segments come first to last. -/
theorem scanFrom_pairwise (vals : List Bool) (keep : ℕ → ℕ → Bool) :
    ∀ (fuel i : ℕ), Unsplit (IsSet vals) vals.length i → vals.length ≤ i + fuel →
      (scanFrom vals keep fuel i).Pairwise fun a b => a.2 + 1 < b.1 := by
  intro fuel
  induction fuel with
  | zero => intro i _ _; exact List.Pairwise.nil
  | succ fuel ih =>
      intro i hu hfuel
      simp only [scanFrom]
      split
      · rename_i hi
        split
        · rename_i hset
          have hrun := runEnd_maximalRun hi hset hu
          have hle := hrun.le
          have hrec := ih (runEnd vals vals.length i + 1) (hrun.unsplit_succ hu) (by omega)
          split
          · refine List.pairwise_cons.mpr ⟨fun b hb => ?_, hrec⟩
            obtain ⟨hr, hs, -⟩ := (mem_scanFrom vals keep fuel _ (hrun.unsplit_succ hu)
              (by omega) b.1 b.2).mp hb
            exact hrun.gap hr hs
          · exact hrec
        · rename_i hset
          exact ih (i + 1) (hu.succ hset) (by omega)
      · exact List.Pairwise.nil

/-- The segments come first to last, with at least one sample between
neighbours. -/
theorem crestSegments_pairwise (vals : List Bool) (keep : ℕ → ℕ → Bool) :
    (crestSegments vals keep).Pairwise fun a b => a.2 + 1 < b.1 :=
  scanFrom_pairwise vals keep vals.length 0 unsplit_zero (by omega)

theorem separated_crestSegments (vals : List Bool) (keep : ℕ → ℕ → Bool) :
    Separated (crestSegments vals keep) where
  le a ha := ((mem_crestSegments vals keep a.1 a.2).mp ha).1.le
  apart := crestSegments_pairwise vals keep

end W2Net.Proofs.Lbr
