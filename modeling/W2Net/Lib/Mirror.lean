import W2Net.Lib.RotatedRect

/-!
# `W2Net.Lib.Mirror`: mirror images of rotated rectangles

`cornersAt ctr u ext` are the corners of the rectangle around `ctr` with the half
extents `ext`, turned to the direction `u`. In a mirror the rectangle is again a
rotated rectangle, with the mirrored centre and the mirrored direction
(`mirrorX_cornersAt`, `mirrorY_cornersAt`). The opposite direction gives the same
corners (`cornersAt_neg`), and exchanged extents give them only for a square
(`cornersAt_exchange_iff`).
-/

set_option autoImplicit false

namespace W2Net

variable {K : Type} [Field K]

/-- The mirror at a vertical line, which exchanges the columns `0` and `t`. -/
def mirrorX (t : K) (p : K × K) : K × K := (t - p.1, p.2)

/-- The mirror at a horizontal line, which exchanges the rows `0` and `t`. -/
def mirrorY (t : K) (p : K × K) : K × K := (p.1, t - p.2)

/-- The corners around `ctr` in the direction `u`, for the half extents `ext`. -/
def cornersAt (ctr u ext : K × K) : Set (K × K) :=
  (fun p => ctr + p) '' cornerOffsets u.1 u.2 ext.1 ext.2

/-- A map of the plane that takes the centre and the offsets to those of another
rectangle. -/
theorem image_cornersAt {f g : K × K → K × K} {ctr ctr' u u' ext : K × K}
    (hf : ∀ p, f (ctr + p) = ctr' + g p)
    (hg : ∀ b, g (cornerOffset u.1 u.2 ext.1 b) = cornerOffset u'.1 u'.2 ext.1 (-b))
    (hneg : ∀ p, g (-p) = -g p) : f '' cornersAt ctr u ext = cornersAt ctr' u' ext := by
  have hoffsets : g '' cornerOffsets u.1 u.2 ext.1 ext.2 = cornerOffsets u'.1 u'.2 ext.1 ext.2 := by
    rw [cornerOffsets, cornerOffsets, Set.image_insert_eq, Set.image_insert_eq,
      Set.image_insert_eq, Set.image_singleton, hneg, hneg, hg, hg, neg_neg]
    ext p
    simp only [Set.mem_insert_iff, Set.mem_singleton_iff]
    tauto
  rw [cornersAt, cornersAt, ← hoffsets, Set.image_image, Set.image_image]
  exact Set.image_congr fun p _ => hf p

theorem mirrorX_cornersAt (t : K) (ctr u ext : K × K) :
    mirrorX t '' cornersAt ctr u ext = cornersAt (mirrorX t ctr) (-u.1, u.2) ext := by
  apply image_cornersAt (g := fun p => (-p.1, p.2))
  · intro p
    simp only [mirrorX, Prod.fst_add, Prod.snd_add, Prod.mk_add_mk, Prod.mk.injEq, and_true]
    ring
  · intro b
    simp only [cornerOffset, Prod.mk.injEq]
    constructor <;> ring
  · intro p
    rfl

theorem mirrorY_cornersAt (t : K) (ctr u ext : K × K) :
    mirrorY t '' cornersAt ctr u ext = cornersAt (mirrorY t ctr) (u.1, -u.2) ext := by
  apply image_cornersAt (g := fun p => (p.1, -p.2))
  · intro p
    simp only [mirrorY, Prod.fst_add, Prod.snd_add, Prod.mk_add_mk, Prod.mk.injEq, true_and]
    ring
  · intro b
    simp only [cornerOffset, Prod.mk.injEq]
    constructor <;> ring
  · intro p
    rfl

/-- The rectangle in the opposite direction. -/
theorem cornersAt_neg (ctr u ext : K × K) : cornersAt ctr (-u) ext = cornersAt ctr u ext := by
  rw [cornersAt, Prod.fst_neg, Prod.snd_neg, cornerOffsets_neg]
  rfl

variable [LinearOrder K] [IsStrictOrderedRing K]

/-- The corners with the extents exchanged are the same only for a square. -/
theorem cornersAt_exchange_iff {ctr u : K × K} (hu : u.1 ^ 2 + u.2 ^ 2 = 1) {a b : K} (ha : 0 < a)
    (hb : 0 < b) : cornersAt ctr u (b, a) = cornersAt ctr u (a, b) ↔ a = b := by
  constructor
  · intro h
    have hinj : Function.Injective fun p : K × K => ctr + p := fun p q hpq => add_left_cancel hpq
    have hoffsets := Set.image_injective.mpr hinj h
    -- Where the first corner of one rectangle is in the other.
    have hmem : cornerOffset u.1 u.2 b a ∈ cornerOffsets u.1 u.2 a b := by
      rw [← hoffsets]
      exact Or.inl rfl
    have hoff : ∀ x y : K, -cornerOffset u.1 u.2 x y = cornerOffset u.1 u.2 (-x) (-y) := by
      intro x y
      simp only [cornerOffset, Prod.neg_mk, Prod.mk.injEq]
      constructor <;> ring
    rcases hmem with h | h | h | h
    · exact (cornerOffset_inj hu h).1.symm
    · exact (cornerOffset_inj hu h).1.symm
    · rw [hoff] at h
      have hx := (cornerOffset_inj hu h).1
      linarith
    · rw [Set.mem_singleton_iff, hoff] at h
      have hx := (cornerOffset_inj hu h).1
      linarith
  · rintro rfl
    rfl

end W2Net
