import W2Net.Utils.EdgeWavelength

/-!
# `W2Net.Proofs.Utils.EdgeWavelength`: the wavelength and the opposite direction

The direction of a box is known up to its sign. With the opposite direction the projections change
their sign, so the leading edge of a crest becomes its trailing edge (`findWaveEdgePoint_neg`), and
the crests come in the opposite order (`extractWaveCrests_neg`). `calculateWavelength_neg` says
what is left of this in the result: with the edge mode turned around, the same distances are
measured, from the other end.
-/

set_option autoImplicit false

namespace W2Net.Proofs.EdgeWavelength

open W2Net.Lbr (regionPoints waveProj npMean npStd calculateGeoDistance)
open W2Net.Wavelength

section
variable {K : Type} [Field K] [LinearOrder K] [IsStrictOrderedRing K]

/-! ### The edge points -/

/-- The first greatest entry of the opposite values is the first least entry. -/
theorem npArgmax_map_neg (xs : List K) : npArgmax (xs.map fun x => -x) = npArgmin xs := by
  cases hmin : xs.argmin id with
  | none =>
      rw [List.argmin_eq_none.mp hmin]
      rfl
  | some x =>
      have hmem : x ∈ xs := List.argmin_mem hmin
      obtain ⟨pre, post, hcut, hpre⟩ := List.eq_append_cons_of_mem hmem
      have hle : ∀ y ∈ xs, x ≤ y := fun y hy => List.le_of_mem_argmin hy hmin
      have hcutAt : FirstMaxAt (fun y : K => -y) xs pre x post :=
        { eq := hcut
          lt := by
            intro y hy
            have hmem' : y ∈ xs := by
              rw [hcut]
              exact List.mem_append_left _ hy
            refine neg_lt_neg (lt_of_le_of_ne (hle y hmem') ?_)
            rintro rfl
            exact hpre hy
          le := by
            intro y hy
            refine neg_le_neg (hle y ?_)
            rw [hcut]
            exact List.mem_append_right _ (List.mem_cons_of_mem _ hy) }
      rw [hcutAt.npArgmax_eq]
      simp only [npArgmin, hmin]
      rw [hcut, List.idxOf_append_of_notMem hpre, List.idxOf_cons_self, Nat.add_zero]

theorem npArgmin_map_neg (xs : List K) : npArgmin (xs.map fun x => -x) = npArgmax xs := by
  have htwice : (xs.map fun x => -x).map (fun x => -x) = xs := by
    rw [List.map_map]
    exact (List.map_congr_left fun x _ => neg_neg x).trans (List.map_id xs)
  rw [← npArgmax_map_neg, htwice]

/-- The opposite edge. -/
def opposite : Edge → Edge
  | .leading => .trailing
  | .trailing => .leading

omit [LinearOrder K] [IsStrictOrderedRing K] in
theorem waveProj_neg (v c p : K × K) : waveProj (-v) c p = -waveProj v c p := by
  show (p.1 - c.1) * -v.1 + (p.2 - c.2) * -v.2 = -((p.1 - c.1) * v.1 + (p.2 - c.2) * v.2)
  ring

/-- The opposite direction exchanges the edges of a region. -/
theorem findWaveEdgePoint_neg (region : Img ℕ) (v c : K × K) (mode : Edge) :
    findWaveEdgePoint region (-v) c mode = findWaveEdgePoint region v c (opposite mode) := by
  have hproj : (regionPoints region).map (waveProj (-v) c)
      = ((regionPoints region).map (waveProj v c)).map fun x => -x := by
    rw [List.map_map]
    exact List.map_congr_left fun p _ => waveProj_neg v c p
  cases mode with
  | leading =>
      show (regionPoints region)[npArgmax ((regionPoints region).map (waveProj (-v) c))]? = _
      rw [hproj, npArgmax_map_neg]
      rfl
  | trailing =>
      show (regionPoints region)[npArgmin ((regionPoints region).map (waveProj (-v) c))]? = _
      rw [hproj, npArgmin_map_neg]
      rfl

/-! ### The crests -/

/-- A crest, seen from the opposite direction. -/
def turn (crest : EdgeCrest K) : EdgeCrest K :=
  { crest with
    leadingEdge := crest.trailingEdge
    trailingEdge := crest.leadingEdge
    projection := -crest.projection }

theorem edgeCrestOf_neg (cc : Components K) (v c : K × K) (minArea : ℤ) (i : ℕ) :
    edgeCrestOf cc (-v) c minArea i = (edgeCrestOf cc v c minArea i).map turn := by
  rw [edgeCrestOf, edgeCrestOf, findWaveEdgePoint_neg, findWaveEdgePoint_neg, waveProj_neg,
    show opposite .leading = .trailing from rfl, show opposite .trailing = .leading from rfl]
  split
  · rfl
  · cases findWaveEdgePoint (cc.region i) v c .trailing with
    | none =>
        cases findWaveEdgePoint (cc.region i) v c .leading with
        | none => rfl
        | some _ => rfl
    | some _ =>
        cases findWaveEdgePoint (cc.region i) v c .leading with
        | none => rfl
        | some _ => rfl

omit [IsStrictOrderedRing K] in
/-- The order of the crests. -/
theorem pairwise_crests (cv : Cv2Regions K) (binMask : Img ℕ) (v c : K × K) (minArea : ℤ) :
    (extractWaveCrestsWithEdges cv binMask v c minArea).Pairwise
      fun a b => a.projection ≤ b.projection := by
  refine (List.pairwise_mergeSort ?_ ?_ _).imp fun h => of_decide_eq_true h
  · intro a b c hab hbc
    rw [decide_eq_true_eq] at hab hbc ⊢
    exact hab.trans hbc
  · intro a b
    rw [Bool.or_eq_true, decide_eq_true_eq, decide_eq_true_eq]
    exact le_total _ _

/-- With different projections, the opposite direction lists the turned crests the other way
around. -/
theorem extractWaveCrests_neg (cv : Cv2Regions K) (binMask : Img ℕ) (v c : K × K) (minArea : ℤ)
    (hdistinct : ((extractWaveCrestsWithEdges cv binMask v c minArea).map
      EdgeCrest.projection).Nodup) :
    extractWaveCrestsWithEdges cv binMask (-v) c minArea
      = ((extractWaveCrestsWithEdges cv binMask v c minArea).map turn).reverse := by
  have hperm : (extractWaveCrestsWithEdges cv binMask (-v) c minArea).Perm
      ((extractWaveCrestsWithEdges cv binMask v c minArea).map turn).reverse := by
    refine (List.mergeSort_perm _ _).trans ?_
    have hneg : (cv.connectedComponentsWithStats binMask.astypeUint8).foreground.filterMap
          (edgeCrestOf (cv.connectedComponentsWithStats binMask.astypeUint8) (-v) c minArea)
        = ((cv.connectedComponentsWithStats binMask.astypeUint8).foreground.filterMap
          (edgeCrestOf (cv.connectedComponentsWithStats binMask.astypeUint8) v c minArea)).map
            turn := by
      rw [List.map_filterMap]
      exact List.filterMap_congr fun i _ => edgeCrestOf_neg _ v c minArea i
    rw [hneg]
    exact (((List.mergeSort_perm _ _).map turn).symm).trans (List.reverse_perm _).symm
  refine hperm.eq_of_pairwise ?_ (pairwise_crests cv binMask (-v) c minArea) ?_
  · -- Crests with the same projection are the same crest.
    intro a b ha hb hab hba
    have hnodup : (((extractWaveCrestsWithEdges cv binMask v c minArea).map turn).map
        EdgeCrest.projection).Nodup := by
      rw [List.map_map]
      have hneg := hdistinct.map (f := fun x : K => -x) neg_injective
      rw [List.map_map] at hneg
      exact hneg
    exact List.inj_on_of_nodup_map hnodup (List.mem_reverse.mp (hperm.mem_iff.mp ha))
      (List.mem_reverse.mp hb) (le_antisymm hab hba)
  · rw [List.pairwise_reverse, List.pairwise_map]
    exact (pairwise_crests cv binMask v c minArea).imp fun h => neg_le_neg h

/-! ### The wavelength -/

variable {C : Type}

/-- The edge mode for the opposite direction. -/
def turnMode : EdgeMode → EdgeMode
  | .leadingToLeading => .trailingToTrailing
  | .trailingToTrailing => .leadingToLeading
  | .trailingToLeading => .trailingToLeading

/-- The result, seen from the opposite direction. -/
def turnResult (r : EdgeWavelength K) : EdgeWavelength K :=
  { r with
    wavelengthsM := r.wavelengthsM.reverse
    waveCrests := (r.waveCrests.map turn).reverse }

omit [LinearOrder K] [IsStrictOrderedRing K] in
/-- The neighbours of the turned crests. -/
theorem neighbours_turn (crests : List (EdgeCrest K)) :
    ((crests.map turn).reverse.zip (crests.map turn).reverse.tail)
      = ((crests.zip crests.tail).map fun p => (turn p.2, turn p.1)).reverse := by
  have hlen : ((crests.zip crests.tail).map fun p => (turn p.2, turn p.1)).length
      = crests.length - 1 := by
    simp
  refine List.ext_getElem (by simp) fun i h1 h2 => ?_
  rw [List.length_reverse, hlen] at h2
  have hmin : min crests.length (crests.length - 1) = crests.length - 1 := by omega
  have hnext : crests.length - 1 - (i + 1) = crests.length - 1 - 1 - i := by omega
  have hcurr : crests.length - 1 - i = crests.length - 1 - 1 - i + 1 := by omega
  simp only [List.getElem_zip, List.getElem_tail, List.getElem_reverse, List.getElem_map,
    List.length_map, List.length_zip, List.length_tail, hmin, hnext, hcurr]

variable {pp : PyProj K C} (hsymm : ∀ a b, pp.geodInv a b = pp.geodInv b a)

omit [IsStrictOrderedRing K] in
include hsymm in
/-- The same two points are measured. -/
theorem crestDistance_turn (tif : PyM (Raster K C)) (mode : EdgeMode)
    (p : EdgeCrest K × EdgeCrest K) :
    crestDistance pp tif (turnMode mode) (turn p.2, turn p.1) = crestDistance pp tif mode p := by
  have hdist : ∀ a b, calculateGeoDistance pp a b = calculateGeoDistance pp b a := by
    intro a b
    rw [calculateGeoDistance, calculateGeoDistance, hsymm]
  cases tif with
  | error e => rfl
  | ok ds =>
      cases mode with
      | leadingToLeading => exact congrArg Except.ok (hdist _ _)
      | trailingToTrailing => exact congrArg Except.ok (hdist _ _)
      | trailingToLeading => exact congrArg Except.ok (hdist _ _)

omit [LinearOrder K] [IsStrictOrderedRing K] in
theorem npMean_reverse (xs : List K) : npMean xs.reverse = npMean xs := by
  rw [npMean, npMean, List.sum_reverse, List.length_reverse]

omit [LinearOrder K] [IsStrictOrderedRing K] in
theorem npStd_reverse (m : PyMath K) (xs : List K) : npStd m xs.reverse = npStd m xs := by
  rw [npStd, npStd, npMean_reverse, List.map_reverse, npMean_reverse]

/-- `[f(x) for x in reversed(l)]`, when the exceptions are all the same. -/
theorem mapM_reverse {α β : Type} {f : α → PyM β} {l : List α}
    (h : (∃ g : α → β, ∀ x, f x = .ok (g x)) ∨ ∃ e, ∀ x, f x = .error e) :
    l.reverse.mapM f = (l.mapM f).map List.reverse := by
  rcases h with ⟨g, hg⟩ | ⟨e, herror⟩
  · rw [mapM_eq_ok fun x _ => hg x, mapM_eq_ok fun x _ => hg x, List.map_reverse]
    rfl
  · cases l with
    | nil => rfl
    | cons x l =>
        have hany : ∀ y (ys : List α), (y :: ys).mapM f = .error e := by
          intro y ys
          rw [List.mapM_cons, herror]
          rfl
        obtain ⟨y, ys, hys⟩ := List.exists_cons_of_ne_nil
          (fun hnil => List.cons_ne_nil x l (List.reverse_eq_nil_iff.mp hnil))
        rw [hys, hany, hany]
        rfl

omit [IsStrictOrderedRing K] in
/-- The loop raises only when the file cannot be opened. -/
theorem crestDistance_cases (tif : PyM (Raster K C)) (mode : EdgeMode) :
    (∃ g : EdgeCrest K × EdgeCrest K → K, ∀ p, crestDistance pp tif mode p = .ok (g p)) ∨
      ∃ e, ∀ p, crestDistance pp tif mode p = .error e := by
  cases tif with
  | error e => exact Or.inr ⟨e, fun _ => rfl⟩
  | ok ds => exact Or.inl ⟨_, fun _ => rfl⟩

omit [IsStrictOrderedRing K] in
include hsymm in
theorem edgeWavelength_turn (m : PyMath K) (tif : PyM (Raster K C)) (mode : EdgeMode)
    (crests : List (EdgeCrest K)) :
    edgeWavelength m pp tif (turnMode mode) (crests.map turn).reverse
      = turnResult (edgeWavelength m pp tif mode crests) := by
  have hlen : (crests.map turn).reverse.length = crests.length := by
    rw [List.length_reverse, List.length_map]
  have hrun : ((crests.map turn).reverse.zip (crests.map turn).reverse.tail).mapM
        (crestDistance pp tif (turnMode mode))
      = ((crests.zip crests.tail).mapM (crestDistance pp tif mode)).map List.reverse := by
    have hsame : ((crests.zip crests.tail).map fun p => (turn p.2, turn p.1)).mapM
          (crestDistance pp tif (turnMode mode))
        = (crests.zip crests.tail).mapM (crestDistance pp tif mode) := by
      rw [List.mapM_map]
      exact congrArg (fun f => (crests.zip crests.tail).mapM f)
        (funext fun p => crestDistance_turn hsymm tif mode p)
    rw [neighbours_turn, mapM_reverse (crestDistance_cases tif (turnMode mode)), hsame]
  rw [edgeWavelength, edgeWavelength, hlen, hrun]
  split
  · rfl
  · cases (crests.zip crests.tail).mapM (crestDistance pp tif mode) with
    | error e => rfl
    | ok wavelengths =>
        show (if 0 < wavelengths.reverse.length then _ else _) = turnResult (if _ then _ else _)
        rw [List.length_reverse, npMean_reverse, npStd_reverse]
        split
        · rfl
        · rfl

/-- Let the geodesic not depend on the order of its ends, and let no two crests have the same
projection. Then the measurement along the opposite direction, with the edge mode turned around, is
the measurement along the direction: the same distances in the opposite order, the same mean, and
the same crests with their edges exchanged. -/
theorem calculateWavelength_neg (m : PyMath K) (cv : Cv2Regions K) (pp : PyProj K C)
    (hsymm : ∀ a b, pp.geodInv a b = pp.geodInv b a) (tif : PyM (Raster K C)) (binMask : Img ℕ)
    (v c : K × K) (minArea : ℤ) (mode : EdgeMode)
    (hdistinct : ((extractWaveCrestsWithEdges cv binMask v c minArea).map
      EdgeCrest.projection).Nodup) :
    calculateWavelengthFromEdges m cv pp tif binMask (-v) c minArea (turnMode mode)
      = turnResult (calculateWavelengthFromEdges m cv pp tif binMask v c minArea mode) := by
  rw [calculateWavelengthFromEdges, extractWaveCrests_neg cv binMask v c minArea hdistinct]
  exact edgeWavelength_turn hsymm m tif mode _

end

/-- Two crests of 12 rows and 5 columns, with a gap of 4 columns between them. -/
def gapMask : Img ℕ := ⟨12, 14, fun _ x => if x < 5 ∨ 9 ≤ x then 1 else 0⟩

/-- The components of `gapMask`: 60 pixels each, and a background of 48. -/
def gapRegions : Cv2Regions ℚ where
  connectedComponentsWithStats _ :=
    ⟨3, ⟨12, 14, fun _ x => if x < 5 then 1 else if x < 9 then 0 else 2⟩,
      fun lab => if lab = 0 then 48 else 60,
      fun lab => if lab = 1 then (2, 11 / 2) else if lab = 2 then (11, 11 / 2)
        else (13 / 2, 11 / 2)⟩
  fillPoly H W _ := ⟨H, W, fun _ _ => 1⟩

/-- Distances in the plane, in units of 10 metres. -/
def planeProj : PyProj ℚ Unit :=
  ⟨fun _ p => p, fun _ => true, fun a b => 10 * PyMath.rat.hypot (a.1 - b.1) (a.2 - b.2)⟩

/-- The raster whose pixels are the units. -/
def unitRaster : Raster ℚ Unit := ⟨⟨1, 0, 0, 0, 1, 0⟩, some ()⟩

/-- The two crests, measured from both ends. -/
theorem calculateWavelength_neg_gap :
    calculateWavelengthFromEdges .rat gapRegions planeProj (.ok unitRaster) gapMask (-(1, 0))
        (13 / 2, 11 / 2) 50 .leadingToLeading
      = turnResult (calculateWavelengthFromEdges .rat gapRegions planeProj (.ok unitRaster)
        gapMask (1, 0) (13 / 2, 11 / 2) 50 .trailingToTrailing) := by
  have hdistinct : ((extractWaveCrestsWithEdges gapRegions gapMask (1, 0) (13 / 2, 11 / 2) 50).map
      EdgeCrest.projection).Nodup :=
    ((List.mergeSort_perm _ _).map EdgeCrest.projection).nodup_iff.mpr (by decide +kernel)
  refine calculateWavelength_neg .rat gapRegions planeProj (fun a b => ?_) _ _ _ _ _
    .trailingToTrailing hdistinct
  show 10 * PyMath.rat.hypot (a.1 - b.1) (a.2 - b.2)
    = 10 * PyMath.rat.hypot (b.1 - a.1) (b.2 - a.2)
  rw [PyMath.hypot, PyMath.hypot, ← neg_sub a.1, ← neg_sub a.2, neg_mul_neg, neg_mul_neg]

end W2Net.Proofs.EdgeWavelength
