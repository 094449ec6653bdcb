import Mathlib.Tactic.Common

/-!
# `W2Net.Lib.Runs`: maximal runs of a predicate on an initial segment

A scanner that collects the runs of a 0/1 sequence is characterized by the
maximal runs of the predicate "the sample is 1". The facts here say nothing
about how the runs are found:

* `Window p L s e`: `p` holds on `[s, e]`, and `[s, e]` is inside `[0, L)`.
* `MaximalRun p L s e`: a window that extends to neither side.
* `Window.exists_maximalRun`: every window lies in a maximal run.
* `MaximalRun.eq_of_mem`: two maximal runs that share an index are equal.
* `MaximalRun.trichotomy`: two maximal runs are apart or the same, so the runs from
  the start of one on, or up to its end, are this one and others
  (`MaximalRun.from_start_iff`, `MaximalRun.to_end_iff`).
* `MaximalRun.mirror`: a maximal run of the sequence read from its other end.
* `Separated l`: a list of intervals with gaps; it is determined by its members
  (`Separated.eq_of_mem_iff`).
* `Unsplit p L i`: no maximal run crosses the position `i`. A left-to-right
  scan keeps this fact at its cursor, by `unsplit_zero`, `Unsplit.succ` and
  `MaximalRun.unsplit_succ`.
-/

set_option autoImplicit false

namespace W2Net

/-- `p` holds at every index of `[s, e]`, a nonempty interval below `L`. -/
structure Window (p : ℕ → Prop) (L s e : ℕ) : Prop where
  le : s ≤ e
  lt : e < L
  all : ∀ i, s ≤ i → i ≤ e → p i

/-- A window that can be extended to neither side. -/
structure MaximalRun (p : ℕ → Prop) (L s e : ℕ) : Prop extends Window p L s e where
  left : ∀ j, j + 1 = s → ¬ p j
  right : e + 1 < L → ¬ p (e + 1)

variable {p : ℕ → Prop} {L s e s' e' i : ℕ}

/-- A single index where `p` holds is a window. -/
theorem Window.single (hi : i < L) (h : p i) : Window p L i i where
  le := Nat.le_refl i
  lt := hi
  all j hj hj' := by
    have : j = i := by omega
    exact this ▸ h

/-- The right end of a window moves right until it meets an index without `p`
or the end of the sequence. Induction on the distance to `L`. -/
theorem Window.extend_right (h : Window p L s e) :
    ∃ e', e ≤ e' ∧ Window p L s e' ∧ (e' + 1 < L → ¬ p (e' + 1)) := by
  have hlt := h.lt
  obtain ⟨k, hk⟩ : ∃ k, L = e + 1 + k := ⟨L - (e + 1), by omega⟩
  induction k generalizing e with
  | zero => exact ⟨e, Nat.le_refl e, h, fun hlt' => absurd hlt' (by omega)⟩
  | succ k ih =>
      by_cases hp : p (e + 1)
      · have hw : Window p L s (e + 1) :=
          { le := Nat.le_succ_of_le h.le
            lt := by omega
            all := fun j hj hj' => by
              rcases Nat.lt_or_ge e j with hlt' | hle
              · have : j = e + 1 := by omega
                exact this ▸ hp
              · exact h.all j hj hle }
        obtain ⟨e', he, hw', hr⟩ := ih hw hw.lt (by omega)
        exact ⟨e', by omega, hw', hr⟩
      · exact ⟨e, Nat.le_refl e, h, fun _ => hp⟩

/-- The left end of a window moves left until it meets an index without `p`
or the start of the sequence. -/
theorem Window.extend_left (h : Window p L s e) :
    ∃ s', s' ≤ s ∧ Window p L s' e ∧ ∀ j, j + 1 = s' → ¬ p j := by
  induction s with
  | zero => exact ⟨0, Nat.le_refl 0, h, fun j hj => absurd hj (by omega)⟩
  | succ s ih =>
      by_cases hp : p s
      · have hle := h.le
        have hw : Window p L s e :=
          { le := by omega
            lt := h.lt
            all := fun j hj hj' => by
              rcases Nat.lt_or_ge s j with hlt | hge
              · exact h.all j hlt hj'
              · have : j = s := by omega
                exact this ▸ hp }
        obtain ⟨s', hs, hw', hl⟩ := ih hw
        exact ⟨s', by omega, hw', hl⟩
      · refine ⟨s + 1, Nat.le_refl _, h, fun j hj => ?_⟩
        have : j = s := by omega
        exact this ▸ hp

/-- Every window lies in a maximal run. -/
theorem Window.exists_maximalRun (h : Window p L s e) :
    ∃ s' e', s' ≤ s ∧ e ≤ e' ∧ MaximalRun p L s' e' := by
  obtain ⟨e', he, hw, hr⟩ := h.extend_right
  obtain ⟨s', hs, hw', hl⟩ := hw.extend_left
  exact ⟨s', e', hs, he, { hw' with left := hl, right := hr }⟩

/-- A maximal run that meets a window covers its left end. -/
theorem MaximalRun.start_le (h : MaximalRun p L s e) (h' : Window p L s' e')
    (he : s ≤ e') : s ≤ s' := by
  by_contra hlt
  exact h.left (s - 1) (by omega) (h'.all (s - 1) (by omega) (by omega))

/-- A maximal run that meets a window covers its right end. -/
theorem MaximalRun.le_end (h : MaximalRun p L s e) (h' : Window p L s' e')
    (hs : s' ≤ e) : e' ≤ e := by
  by_contra hlt
  have hL := h'.lt
  exact h.right (by omega) (h'.all (e + 1) (by omega) (by omega))

/-- Two maximal runs that share an index are equal. -/
theorem MaximalRun.eq_of_mem (h : MaximalRun p L s e) (h' : MaximalRun p L s' e')
    (hs : s ≤ i) (he : i ≤ e) (hs' : s' ≤ i) (he' : i ≤ e') : s = s' ∧ e = e' := by
  have h1 := h.start_le h'.toWindow (by omega)
  have h2 := h'.start_le h.toWindow (by omega)
  have h3 := h.le_end h'.toWindow (by omega)
  have h4 := h'.le_end h.toWindow (by omega)
  omega

/-- Between two maximal runs there is an index without `p`. -/
theorem MaximalRun.gap (h : MaximalRun p L s e) (h' : MaximalRun p L s' e') (hlt : e < s') :
    e + 1 < s' := by
  by_contra hge
  have hs' : s' = e + 1 := by omega
  have hp : p (e + 1) := hs' ▸ h'.all s' (Nat.le_refl s') h'.le
  exact h.right (Nat.lt_of_le_of_lt (hs' ▸ h'.le) h'.lt) hp

/-- Two maximal runs: one is in front of the other, or they are the same. -/
theorem MaximalRun.trichotomy (h : MaximalRun p L s e) (h' : MaximalRun p L s' e') :
    e + 1 < s' ∨ (s' = s ∧ e' = e) ∨ e' + 1 < s := by
  rcases Nat.lt_or_ge e s' with hfront | hle
  · exact Or.inl (h.gap h' hfront)
  · rcases Nat.lt_or_ge e' s with hbehind | hle'
    · exact Or.inr (Or.inr (h'.gap h hbehind))
    · -- They share the later of the two starts.
      have hmem := h'.eq_of_mem h (Nat.le_max_right s s') (Nat.max_le.mpr ⟨hle', h'.le⟩)
        (Nat.le_max_left s s') (Nat.max_le.mpr ⟨h.le, hle⟩)
      exact Or.inr (Or.inl hmem)

/-- The maximal runs from the start of one on are this one and those behind its end. -/
theorem MaximalRun.from_start_iff (h : MaximalRun p L s e) :
    MaximalRun p L s' e' ∧ s ≤ s' ↔
      s' = s ∧ e' = e ∨ MaximalRun p L s' e' ∧ e + 1 ≤ s' := by
  have hle := h.le
  constructor
  · rintro ⟨h', hs⟩
    have hle' := h'.le
    rcases h.trichotomy h' with hlt | heq | hlt
    · exact Or.inr ⟨h', by omega⟩
    · exact Or.inl heq
    · omega
  · rintro (⟨rfl, rfl⟩ | ⟨h', hs⟩)
    · exact ⟨h, Nat.le_refl _⟩
    · exact ⟨h', by omega⟩

/-- The maximal runs up to the end of one are those in front of its end and this one. -/
theorem MaximalRun.to_end_iff (h : MaximalRun p L s e) :
    MaximalRun p L s' e' ∧ e' ≤ e ↔
      MaximalRun p L s' e' ∧ e' < e ∨ s' = s ∧ e' = e := by
  have hle := h.le
  constructor
  · rintro ⟨h', he⟩
    have hle' := h'.le
    rcases h.trichotomy h' with hlt | heq | hlt
    · omega
    · exact Or.inr heq
    · exact Or.inl ⟨h', by omega⟩
  · rintro (⟨h', he⟩ | ⟨rfl, rfl⟩)
    · exact ⟨h', by omega⟩
    · exact ⟨h, Nat.le_refl _⟩

/-- No maximal run starts at an index without `p`. -/
theorem MaximalRun.start_le_iff (h : MaximalRun p L s e) (hi : ¬ p i) : i ≤ s ↔ i + 1 ≤ s := by
  refine ⟨fun hs => ?_, fun hs => by omega⟩
  rcases Nat.lt_or_ge i s with hlt | hge
  · exact hlt
  · have hsi : s = i := by omega
    exact absurd (hsi ▸ h.all s (Nat.le_refl s) h.le) hi

/-- A maximal run read from the other end of the sequence. -/
theorem MaximalRun.mirror {q : ℕ → Prop} (h : MaximalRun p L s e)
    (hp : ∀ i, i < L → (q i ↔ p (L - 1 - i))) : MaximalRun q L (L - 1 - e) (L - 1 - s) := by
  have hle := h.le
  have hlt := h.lt
  exact
    { le := by omega
      lt := by omega
      all := fun i hi hi' => (hp i (by omega)).mpr (h.all (L - 1 - i) (by omega) (by omega))
      left := fun j hj hset =>
        h.right (by omega) (by
          have hpos : L - 1 - j = e + 1 := by omega
          exact hpos ▸ (hp j (by omega)).mp hset)
      right := fun hend hset =>
        h.left (L - 1 - (L - 1 - s + 1)) (by omega) ((hp _ (by omega)).mp hset) }

/-- A list of intervals, first to last, with a gap of at least one index between neighbours. -/
structure Separated (l : List (ℕ × ℕ)) : Prop where
  le : ∀ a ∈ l, a.1 ≤ a.2
  apart : l.Pairwise fun a b => a.2 + 1 < b.1

/-- Separated lists with the same intervals are equal. -/
theorem Separated.eq_of_mem_iff {l l' : List (ℕ × ℕ)} (h : Separated l) (h' : Separated l')
    (hmem : ∀ a, a ∈ l ↔ a ∈ l') : l = l' := by
  have hnodup : ∀ {l : List (ℕ × ℕ)}, Separated l → l.Nodup := by
    intro l h
    refine h.apart.imp_of_mem fun {a b} ha _ hlt heq => ?_
    have := h.le a ha
    rw [heq] at hlt this
    omega
  have hperm : l.Perm l' := (List.perm_ext_iff_of_nodup (hnodup h) (hnodup h')).mpr hmem
  refine hperm.eq_of_pairwise (fun a b ha hb hab hba => ?_) h.apart h'.apart
  -- Two different intervals cannot each be in front of the other.
  have := h.le a ha
  have := h'.le b hb
  omega

/-- No maximal run crosses the position `i`: one that starts before `i` ends
before `i`. -/
def Unsplit (p : ℕ → Prop) (L i : ℕ) : Prop :=
  ∀ s e, MaximalRun p L s e → s < i → e < i

theorem unsplit_zero : Unsplit p L 0 := fun _ _ _ h => absurd h (by omega)

/-- The cursor moves over an index without `p`. -/
theorem Unsplit.succ (h : Unsplit p L i) (hp : ¬ p i) : Unsplit p L (i + 1) := by
  intro s e hr hs
  rcases Nat.lt_or_ge s i with hlt | hge
  · have := h s e hr hlt
    omega
  · have hsi : s = i := by omega
    exact absurd (hr.all i (by omega) (hsi ▸ hr.le)) hp

/-- The cursor moves over a whole maximal run. -/
theorem MaximalRun.unsplit_succ (h : Unsplit p L s) (hr : MaximalRun p L s e) :
    Unsplit p L (e + 1) := by
  intro s' e' hr' hs'
  rcases Nat.lt_or_ge s' s with hlt | hge
  · have := h s' e' hr' hlt
    have := hr.le
    omega
  · have := (hr.eq_of_mem hr' hge (by omega) (Nat.le_refl s') hr'.le).2
    omega

/-- At an unsplit cursor, a window that starts there and cannot be extended to
the right is a maximal run. -/
theorem Unsplit.maximalRun (h : Unsplit p L s) (hw : Window p L s e)
    (hr : e + 1 < L → ¬ p (e + 1)) : MaximalRun p L s e where
  toWindow := hw
  right := hr
  left j hj hp := by
    have hwj : Window p L j j := Window.single (by have := hw.lt; have := hw.le; omega) hp
    obtain ⟨s', e', hs', he', hmax⟩ := hwj.exists_maximalRun
    have hlt := h s' e' hmax (by omega)
    have hcover := hmax.le_end (Window.single (i := s) (by have := hw.lt; have := hw.le; omega)
      (hw.all s (Nat.le_refl s) hw.le))
    by_cases hjs : e' + 1 = s
    · exact hmax.right (by have := hw.lt; have := hw.le; omega) (hjs ▸ hw.all s (Nat.le_refl s) hw.le)
    · omega

end W2Net
