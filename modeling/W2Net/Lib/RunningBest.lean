import Mathlib.Data.Finset.Basic
import Mathlib.Data.Nat.Find
import Mathlib.Order.WithBot
import Mathlib.Tactic.Common

/-!
# `W2Net.Lib.RunningBest`: the best of a stream that is read in sessions

A reader goes through the positions `0, 1, 2, …`. Each position offers a value
of a linear order, or nothing (`⊥`). The reader keeps the first position with
the greatest offer: `consider` is one step, and `FirstBest offer s n e` says
that `e` is what the reader holds after the positions `[s, n)`. `none` stands
for a reader that has seen no offer.

A session that starts at `s` does not know the offers before `s`:

* `FirstBest.eq_iff`: it ends with the same position as a reader from `0`
  exactly when every earlier offer is exceeded in the session.
* `recordsDominate_iff`: no position that a session accepts is below an offer
  before the session exactly when this holds of the first offer of each
  session. `sessionStart` gives the session of a position.
-/

set_option autoImplicit false

namespace W2Net

variable {κ : Type} [LinearOrder κ]

/-- The offer at the position that the reader holds. -/
def held (offer : ℕ → WithBot κ) : Option ℕ → WithBot κ
  | none => ⊥
  | some i => offer i

/-- A position that offers its key under a condition offers something exactly then. -/
theorem bot_lt_ite_iff {p : Prop} [Decidable p] {k : κ} :
    ⊥ < (if p then (k : WithBot κ) else ⊥) ↔ p := by
  by_cases h : p
  · simp [h]
  · simp [h]

/-- The reader moves to `n` when the offer there is strictly greater. -/
def consider (offer : ℕ → WithBot κ) (e : Option ℕ) (n : ℕ) : Option ℕ :=
  if held offer e < offer n then some n else e

/-- `e` is the first position of `[s, n)` with the greatest offer. -/
structure FirstBest (offer : ℕ → WithBot κ) (s n : ℕ) (e : Option ℕ) : Prop where
  le : ∀ x, s ≤ x → x < n → offer x ≤ held offer e
  mem : ∀ i, e = some i → s ≤ i ∧ i < n ∧ ⊥ < offer i
  first : ∀ i, e = some i → ∀ x, s ≤ x → x < i → offer x < offer i

variable {offer : ℕ → WithBot κ} {s n : ℕ} {e e' : Option ℕ}

namespace FirstBest

theorem empty (offer : ℕ → WithBot κ) (s : ℕ) : FirstBest offer s s none where
  le x hs hx := absurd hs (by omega)
  mem i hi := by cases hi
  first i hi := by cases hi

/-- A strictly greater offer is taken. -/
theorem accept (h : FirstBest offer s n e) (hs : s ≤ n) (hlt : held offer e < offer n) :
    FirstBest offer s (n + 1) (some n) where
  le x hsx hx := by
    by_cases hxn : x = n
    · rw [hxn]
      exact le_refl (offer n)
    · exact (h.le x hsx (by omega)).trans hlt.le
  mem i hi := by
    cases hi
    exact ⟨hs, Nat.lt_succ_self n, lt_of_le_of_lt bot_le hlt⟩
  first i hi x hsx hx := by
    cases hi
    exact (h.le x hsx hx).trans_lt hlt

/-- Any other offer is passed over. -/
theorem pass (h : FirstBest offer s n e) (hle : ¬ held offer e < offer n) :
    FirstBest offer s (n + 1) e where
  le x hsx hx := by
    by_cases hxn : x = n
    · rw [hxn]
      exact not_lt.mp hle
    · exact h.le x hsx (by omega)
  mem i hi := by
    obtain ⟨hsi, hin, hpos⟩ := h.mem i hi
    exact ⟨hsi, Nat.lt_succ_of_lt hin, hpos⟩
  first := h.first

theorem consider (h : FirstBest offer s n e) (hs : s ≤ n) :
    FirstBest offer s (n + 1) (consider offer e n) := by
  by_cases hlt : held offer e < offer n
  · rw [W2Net.consider, if_pos hlt]
    exact h.accept hs hlt
  · rw [W2Net.consider, if_neg hlt]
    exact h.pass hlt

/-- A reader that holds nothing has seen no offer. -/
theorem eq_bot (h : FirstBest offer s n none) {x : ℕ} (hs : s ≤ x) (hx : x < n) :
    offer x = ⊥ :=
  le_bot_iff.mp (h.le x hs hx)

/-- Two readers of the same positions hold the same. -/
theorem unique (h : FirstBest offer s n e) (h' : FirstBest offer s n e') : e = e' := by
  cases e with
  | none =>
      cases e' with
      | none => rfl
      | some j =>
          obtain ⟨hsj, hjn, hpos⟩ := h'.mem j rfl
          exact absurd (h.eq_bot hsj hjn) hpos.ne'
  | some i =>
      obtain ⟨hsi, hin, hpos⟩ := h.mem i rfl
      cases e' with
      | none => exact absurd (h'.eq_bot hsi hin) hpos.ne'
      | some j =>
          obtain ⟨hsj, hjn, -⟩ := h'.mem j rfl
          -- The earlier of two positions would be strictly below the later one.
          rcases Nat.lt_trichotomy i j with hlt | heq | hgt
          · exact absurd (h'.first j rfl i hsi hlt) (not_lt.mpr (h.le j hsj hjn))
          · rw [heq]
          · exact absurd (h.first i rfl j hsj hgt) (not_lt.mpr (h'.le i hsi hin))

/-- A reader that starts later, but not after the position it holds. -/
theorem suffix {i s' : ℕ} (h : FirstBest offer s n (some i)) (hs : s ≤ s') (hi : s' ≤ i) :
    FirstBest offer s' n (some i) where
  le x hsx hx := h.le x (hs.trans hsx) hx
  mem j hj := by
    cases hj
    exact ⟨hi, (h.mem i rfl).2⟩
  first j hj x hsx hx := h.first j hj x (hs.trans hsx) hx

/-- The session from `s` ends with the position that a reader from `0` holds
exactly when it exceeds every offer before `s`. -/
theorem eq_iff (h : FirstBest offer 0 n e) (h' : FirstBest offer s n e') (hs : s ≤ n) :
    e' = e ↔ ∀ a < s, ⊥ < offer a → ∃ b, s ≤ b ∧ b < n ∧ offer a < offer b := by
  constructor
  · intro heq a ha hpos
    have hle := h.le a (Nat.zero_le a) (by omega)
    cases e with
    | none => exact absurd (hpos.trans_le hle) (lt_irrefl ⊥)
    | some i =>
        obtain ⟨hsi, hin, -⟩ := h'.mem i heq
        exact ⟨i, hsi, hin, h.first i rfl a (Nat.zero_le a) (by omega)⟩
  · intro hover
    cases e with
    | none =>
        cases e' with
        | none => rfl
        | some j =>
            obtain ⟨-, hjn, hpos⟩ := h'.mem j rfl
            exact absurd (h.eq_bot (Nat.zero_le j) hjn) hpos.ne'
    | some i =>
        obtain ⟨-, hin, hpos⟩ := h.mem i rfl
        have hsi : s ≤ i := by
          -- A held position before `s` would be exceeded in the session.
          by_contra hlt
          obtain ⟨b, -, hbn, hab⟩ := hover i (not_le.mp hlt) hpos
          exact absurd hab (not_lt.mpr (h.le b (Nat.zero_le b) hbn))
        exact h'.unique (h.suffix (Nat.zero_le s) hsi)

end FirstBest

/-! ### The accepted positions -/

/-- The offer at `x` is greater than every offer of the session before it. -/
def IsRecord (offer : ℕ → WithBot κ) (s x : ℕ) : Prop :=
  ⊥ < offer x ∧ ∀ y, s ≤ y → y < x → offer y < offer x

/-- The reader moves exactly at the records of its session. -/
theorem FirstBest.lt_iff (h : FirstBest offer s n e) :
    held offer e < offer n ↔ IsRecord offer s n := by
  constructor
  · intro hlt
    exact ⟨lt_of_le_of_lt bot_le hlt, fun y hsy hy => (h.le y hsy hy).trans_lt hlt⟩
  · intro hrec
    cases e with
    | none => exact hrec.1
    | some i =>
        obtain ⟨hsi, hin, -⟩ := h.mem i rfl
        exact hrec.2 i hsi hin

/-- A position with an offer has a first one at or before it. -/
theorem exists_first_offer {x : ℕ} (hs : s ≤ x) (hx : ⊥ < offer x) :
    ∃ b, s ≤ b ∧ b ≤ x ∧ ⊥ < offer b ∧ ∀ y, s ≤ y → y < b → offer y = ⊥ := by
  classical
  have hex : ∃ b, s ≤ b ∧ ⊥ < offer b := ⟨x, hs, hx⟩
  refine ⟨Nat.find hex, (Nat.find_spec hex).1, Nat.find_min' hex ⟨hs, hx⟩,
    (Nat.find_spec hex).2, ?_⟩
  intro y hsy hy
  by_contra hne
  exact Nat.find_min hex hy ⟨hsy, bot_lt_iff_ne_bot.mpr hne⟩

/-! ### Sessions -/

/-- The start of the session of position `x`, when a session starts at `0` and
at every member of `stops`. -/
def sessionStart (stops : Finset ℕ) : ℕ → ℕ
  | 0 => 0
  | x + 1 => if x + 1 ∈ stops then x + 1 else sessionStart stops x

theorem sessionStart_le (stops : Finset ℕ) (x : ℕ) : sessionStart stops x ≤ x := by
  induction x with
  | zero => exact Nat.le_refl 0
  | succ x ih =>
      simp only [sessionStart]
      split
      · exact Nat.le_refl (x + 1)
      · exact Nat.le_succ_of_le ih

/-- A session starts at a stop, the first one excepted. -/
theorem sessionStart_mem {stops : Finset ℕ} {x : ℕ} (h : 0 < sessionStart stops x) :
    sessionStart stops x ∈ stops := by
  induction x with
  | zero => cases h
  | succ x ih =>
      simp only [sessionStart] at h ⊢
      split
      · assumption
      · rename_i hmem
        rw [if_neg hmem] at h
        exact ih h

/-- No stop lies between the start of a session and its positions. -/
theorem le_sessionStart {stops : Finset ℕ} {s x : ℕ} (hmem : s ∈ stops) (hs : s ≤ x) :
    s ≤ sessionStart stops x := by
  induction x with
  | zero => exact hs
  | succ x ih =>
      simp only [sessionStart]
      split
      · exact hs
      · rename_i hx
        have hne : s ≠ x + 1 := fun heq => hx (heq ▸ hmem)
        exact ih (by omega)

theorem sessionStart_of_mem {stops : Finset ℕ} {s : ℕ} (hmem : s ∈ stops) :
    sessionStart stops s = s :=
  Nat.le_antisymm (sessionStart_le stops s) (le_sessionStart hmem (Nat.le_refl s))

theorem sessionStart_empty (x : ℕ) : sessionStart ∅ x = 0 := by
  by_contra h
  have hmem := sessionStart_mem (Nat.pos_of_ne_zero h)
  simp at hmem

section
variable {L : Type} [Preorder L]

/-- The sessions accept no position whose grade is below the grade of an offer
before the session, exactly when the first offer of each session is not below
them. The grade is any monotone reading of the offers. -/
theorem recordsDominate_iff (stops : Finset ℕ) (N : ℕ) {grade : ℕ → L}
    (hgrade : ∀ a b, ⊥ < offer a → offer a ≤ offer b → grade a ≤ grade b) :
    (∀ x < N, IsRecord offer (sessionStart stops x) x →
        ∀ s ∈ stops, 0 < s → s ≤ x → ∀ a < s, ⊥ < offer a → grade a ≤ grade x) ↔
      ∀ s ∈ stops, 0 < s → ∀ b, s ≤ b → b < N → ⊥ < offer b →
        (∀ y, s ≤ y → y < b → offer y = ⊥) → ∀ a < s, ⊥ < offer a → grade a ≤ grade b := by
  constructor
  · intro h s hmem hs b hsb hb hpos hfirst
    refine h b hb ⟨hpos, ?_⟩ s hmem hs hsb
    intro y hy hyb
    rw [hfirst y ((le_sessionStart hmem hsb).trans hy) hyb]
    exact hpos
  · intro h x hx hrec s hmem hs hsx a ha hpos
    have hsσ := le_sessionStart hmem hsx
    have hσ : 0 < sessionStart stops x := by omega
    obtain ⟨b, hσb, hbx, hbpos, hfirst⟩ :=
      exists_first_offer (sessionStart_le stops x) hrec.1
    -- `a` is below the first offer of the session, which is below the record.
    have hab : grade a ≤ grade b :=
      h _ (sessionStart_mem hσ) hσ b hσb (by omega) hbpos hfirst a (by omega) hpos
    have hle : offer b ≤ offer x := by
      rcases Nat.lt_or_eq_of_le hbx with hlt | heq
      · exact (hrec.2 b hσb hlt).le
      · rw [heq]
    exact hab.trans (hgrade b x hbpos hle)

end

end W2Net
