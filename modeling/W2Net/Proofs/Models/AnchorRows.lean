import W2Net.Models.Anchors

/-!
# `W2Net.Proofs.Models.AnchorRows`: the rows of the anchor generator

`shift` puts the anchor `a` at the cell `(y, x)` into the row
`(y * w + x) * A + a`: the grids of `meshgrid` have a row for each `y`, and the
anchors of a cell stay together. `generateAnchors_length` counts the anchors of a
cell.
-/

set_option autoImplicit false

namespace W2Net.Proofs.AnchorRows

/-! ### The anchors of a cell -/

theorem length_npTile {α : Type} (xs : List α) (n : ℕ) : (npTile xs n).length = n * xs.length := by
  rw [npTile, length_flatten_uniform fun l hl => by rw [List.eq_of_mem_replicate hl],
    List.length_replicate]

theorem length_npRepeat {α : Type} (xs : List α) (n : ℕ) : (npRepeat xs n).length = xs.length * n := by
  simp [npRepeat, List.length_flatMap]

section
variable {K : Type} [Field K]

/-- One anchor for each ratio, rotation and scale. -/
theorem generateAnchors_length (m : PyMath K) (baseSize : K) (ratios scales rotations : List K) :
    (generateAnchors m baseSize ratios scales rotations).length =
      scales.length * ratios.length * rotations.length := by
  simp only [generateAnchors, List.length_zipWith, List.length_zip, List.length_map,
    length_npTile, length_npRepeat]
  have h₁ : ratios.length * (scales.length * rotations.length) =
      scales.length * ratios.length * rotations.length := by ring
  have h₂ : ratios.length * rotations.length * scales.length =
      scales.length * ratios.length * rotations.length := by ring
  have h₃ : ratios.length * (rotations.length * scales.length) =
      scales.length * ratios.length * rotations.length := by ring
  rw [h₁, h₂, h₃]
  simp

/-! ### The rows of a level -/

/-- What `shift` adds to the anchors of the cell `(y, x)`: its centre, twice, and
no rotation. -/
def cellShift (stride y x : ℕ) : AnchorBox K :=
  ![((x : K) + 1 / 2) * stride, ((y : K) + 1 / 2) * stride, ((x : K) + 1 / 2) * stride,
    ((y : K) + 1 / 2) * stride, 0]

/-- The centres along an axis with `n` cells. -/
def centres (stride n : ℕ) : List K := (List.range n).map fun (i : ℕ) => ((i : K) + 1 / 2) * stride

theorem length_centres (stride n : ℕ) : (centres stride n : List K).length = n := by
  simp [centres]

theorem centres_getElem? {stride n i : ℕ} (h : i < n) :
    (centres stride n : List K)[i]? = some (((i : K) + 1 / 2) * stride) := by
  simp [centres, h]

/-- The list `shifts`. -/
def shifts (shape : ℕ × ℕ) (stride : ℕ) : List (AnchorBox K) :=
  List.zipWith (fun x y => ![x, y, x, y, 0])
    (meshgrid (centres stride shape.2) (centres stride shape.1)).1.flatten
    (meshgrid (centres stride shape.2) (centres stride shape.1)).2.flatten

theorem shift_eq (shape : ℕ × ℕ) (stride : ℕ) (anchors : List (AnchorBox K)) :
    shift shape stride anchors =
      ((shifts shape stride).map fun s => anchors.map fun a => a + s).flatten := rfl

omit [Field K] in
/-- Both grids have `h` rows of length `w`. -/
theorem meshgrid_uniform (xs ys : List K) :
    (∀ l ∈ (meshgrid xs ys).1, l.length = xs.length) ∧
      ∀ l ∈ (meshgrid xs ys).2, l.length = xs.length := by
  refine ⟨fun l hl => ?_, fun l hl => ?_⟩
  · obtain ⟨y, -, rfl⟩ := List.mem_map.mp hl
    rfl
  · obtain ⟨y, -, rfl⟩ := List.mem_map.mp hl
    exact List.length_map _

theorem length_shifts (shape : ℕ × ℕ) (stride : ℕ) :
    (shifts shape stride : List (AnchorBox K)).length = shape.1 * shape.2 := by
  obtain ⟨h₁, h₂⟩ := meshgrid_uniform (centres stride shape.2 : List K) (centres stride shape.1)
  rw [shifts, List.length_zipWith, length_flatten_uniform h₁, length_flatten_uniform h₂]
  simp [meshgrid, length_centres]

/-- The cell `(y, x)` is at the position `y * w + x`. -/
theorem shifts_getElem? {shape : ℕ × ℕ} {stride y x : ℕ} (hy : y < shape.1) (hx : x < shape.2) :
    (shifts shape stride : List (AnchorBox K))[y * shape.2 + x]? = some (cellShift stride y x) := by
  obtain ⟨h₁, h₂⟩ := meshgrid_uniform (centres stride shape.2 : List K) (centres stride shape.1)
  rw [length_centres] at h₁ h₂
  have hrow₁ : (meshgrid (centres stride shape.2 : List K) (centres stride shape.1)).1[y]? =
      some (centres stride shape.2) := by
    show (List.map _ (centres stride shape.1 : List K))[y]? = _
    rw [List.getElem?_map, centres_getElem? (K := K) hy]
    rfl
  have hrow₂ : (meshgrid (centres stride shape.2 : List K) (centres stride shape.1)).2[y]? =
      some ((centres stride shape.2).map fun _ : K => ((y : K) + 1 / 2) * stride) := by
    show (List.map _ (centres stride shape.1 : List K))[y]? = _
    rw [List.getElem?_map, centres_getElem? (K := K) hy]
    rfl
  rw [shifts, List.getElem?_zipWith, flatten_uniform h₁ hrow₁ hx, flatten_uniform h₂ hrow₂ hx,
    List.getElem?_map, centres_getElem? (K := K) hx]
  rfl

/-- The number of rows. -/
theorem length_shift (shape : ℕ × ℕ) (stride : ℕ) (anchors : List (AnchorBox K)) :
    (shift shape stride anchors).length = shape.1 * shape.2 * anchors.length := by
  rw [shift_eq, length_flatten_uniform, List.length_map, length_shifts]
  intro l hl
  obtain ⟨s, -, rfl⟩ := List.mem_map.mp hl
  exact List.length_map _

/-- The row of the cell `(y, x)` and the anchor `a`. -/
theorem shift_getElem? {shape : ℕ × ℕ} (stride : ℕ) {y x a : ℕ} {anchors : List (AnchorBox K)}
    (hy : y < shape.1) (hx : x < shape.2) (ha : a < anchors.length) :
    (shift shape stride anchors)[(y * shape.2 + x) * anchors.length + a]? =
      anchors[a]?.map fun box => box + cellShift stride y x := by
  have huniform : ∀ l ∈ (shifts shape stride).map fun s => anchors.map fun a => a + s,
      l.length = anchors.length := by
    intro l hl
    obtain ⟨s, -, rfl⟩ := List.mem_map.mp hl
    exact List.length_map _
  have hcell : ((shifts shape stride).map fun s => anchors.map fun a => a + s)[
      y * shape.2 + x]? = some (anchors.map fun a => a + cellShift stride y x) := by
    rw [List.getElem?_map, shifts_getElem? hy hx]
    rfl
  rw [shift_eq, flatten_uniform huniform hcell ha, List.getElem?_map]

end

end W2Net.Proofs.AnchorRows
