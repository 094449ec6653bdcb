import W2Net.Utils.Lbr.Centerline

/-!
# `W2Net.Proofs.Utils.Lbr.Centerline`: the edge point and its projection

`findCenterlineEdgePoint` returns the first point of the band with the greatest
projection. When that projection is positive, the index of the point is an index
into the points with a positive projection, and the projection is read at this
index from all points of the band. `find_edge` states what the function returns.
So the two parts of the result belong together exactly when no point with a
projection of at most zero is listed before the edge point (`FrontClear`).

`extractWaveCrestsAlongCenterline` decides and sorts by this projection.
`coherent_iff_frontClear` is the comparison for a region and for a whole mask.
-/

set_option autoImplicit false

namespace W2Net.Proofs.Lbr

open W2Net.Lbr

variable {K : Type} [Field K] [LinearOrder K]

section
variable (region : Img ℕ) (vWave centerPt : K × K) (bandPx : K)

/-- The points among which the edge point is searched. -/
def searchPoints : List (K × K) := bandPoints vWave centerPt bandPx (regionPoints region)

/-- `p` is one of the points of the search, and none has a greater projection. -/
structure Farthest (p : K × K) : Prop where
  mem : p ∈ searchPoints region vWave centerPt bandPx
  max : ∀ q ∈ searchPoints region vWave centerPt bandPx,
    waveProj vWave centerPt q ≤ waveProj vWave centerPt p

/-- The returned point is farthest, and the returned projection is its own. -/
def Coherent : Prop :=
  ∀ p s, findCenterlineEdgePoint region vWave centerPt bandPx = .ok (some (p, s)) →
    Farthest region vWave centerPt bandPx p ∧ s = waveProj vWave centerPt p

/-- If the first farthest point has a positive projection, then so has every
point that is listed before it. -/
def FrontClear : Prop :=
  ∀ pre p post,
    FirstMaxAt (waveProj vWave centerPt) (searchPoints region vWave centerPt bandPx) pre p post →
      0 < waveProj vWave centerPt p → ∀ q ∈ pre, 0 < waveProj vWave centerPt q

variable {region vWave centerPt bandPx}

variable (vWave centerPt bandPx) in
theorem searchPoints_ne_nil (h : regionPoints (K := K) region ≠ []) :
    searchPoints region vWave centerPt bandPx ≠ [] := by
  unfold searchPoints bandPoints
  by_cases hband : ((regionPoints region).filter fun p =>
      decide (waveDist vWave centerPt p ≤ bandPx)).isEmpty = true
  · simp only [hband, if_true]
    exact h
  · simp only [if_neg hband]
    exact fun hnil => hband (List.isEmpty_iff.mpr hnil)

variable (vWave centerPt bandPx) in
theorem find_empty (h : regionPoints (K := K) region = []) :
    findCenterlineEdgePoint region vWave centerPt bandPx = .ok none := by
  simp [findCenterlineEdgePoint, h]

/-- The projection read at an index of the shorter list is that of the edge point
exactly when the points before it were not left out. -/
theorem shifted_index {f : K × K → K} {xs pre post : List (K × K)} {p : K × K}
    (h : FirstMaxAt f xs pre p post) :
    ∃ s, getOrIndexError (xs.map f) (pre.filter fun q => decide (0 < f q)).length = .ok s ∧
      (s = f p ↔ ∀ q ∈ pre, 0 < f q) := by
  have hle := List.length_filter_le (fun q => decide (0 < f q)) pre
  by_cases hall : ∀ q ∈ pre, 0 < f q
  · -- Nothing is left out, and the index is that of `p`.
    have hfilter : pre.filter (fun q => decide (0 < f q)) = pre :=
      List.filter_eq_self.mpr fun q hq => decide_eq_true (hall q hq)
    refine ⟨f p, ?_, iff_of_true rfl hall⟩
    rw [hfilter, h.eq]
    exact getOrIndexError_map_append f pre post p
  · -- The index falls into the part before `p`, where the projections are smaller.
    have hlt : (pre.filter fun q => decide (0 < f q)).length < pre.length := by
      rcases Nat.lt_or_eq_of_le hle with hlt | heq
      · exact hlt
      · rw [List.length_filter_eq_length_iff] at heq
        exact absurd (fun q hq => of_decide_eq_true (heq q hq)) hall
    refine ⟨f pre[(pre.filter fun q => decide (0 < f q)).length], ?_, ?_⟩
    · rw [getOrIndexError_eq_ok, h.eq, List.map_append,
        List.getElem?_append_left (by rwa [List.length_map]), List.getElem?_map,
        List.getElem?_eq_getElem hlt]
      rfl
    · refine iff_of_false ?_ hall
      exact (h.lt _ (List.getElem_mem hlt)).ne

/-- A farthest point with a positive projection: the search runs in the points with a positive
projection. -/
theorem find_edge_of_pos {pre post : List (K × K)} {p : K × K}
    (hne : regionPoints (K := K) region ≠ [])
    (h : FirstMaxAt (waveProj vWave centerPt) (searchPoints region vWave centerPt bandPx)
      pre p post) (hpos : 0 < waveProj vWave centerPt p) :
    ∃ s, findCenterlineEdgePoint region vWave centerPt bandPx = .ok (some (p, s)) ∧
      (s = waveProj vWave centerPt p ↔ ∀ q ∈ pre, 0 < waveProj vWave centerPt q) := by
  have hempty : ¬ (regionPoints (K := K) region).isEmpty = true :=
    fun hnil => hne (List.isEmpty_iff.mp hnil)
  have hcut := h.filter (p := fun q => decide (0 < waveProj vWave centerPt q))
    (decide_eq_true hpos)
  have hvalid : ¬ ((searchPoints region vWave centerPt bandPx).filter fun q =>
      decide (0 < waveProj vWave centerPt q)).isEmpty = true := by
    rw [hcut.eq]
    simp
  -- The index of the cut list is read in the full list of projections.
  obtain ⟨s, hs, hiff⟩ := shifted_index h
  have hedge : getOrIndexError ((searchPoints region vWave centerPt bandPx).filter fun q =>
      decide (0 < waveProj vWave centerPt q))
      (pre.filter fun q => decide (0 < waveProj vWave centerPt q)).length = .ok p := by
    rw [hcut.eq]
    exact getOrIndexError_append _ _ p
  refine ⟨s, ?_, hiff⟩
  unfold searchPoints at hvalid hcut hs hedge
  simp only [findCenterlineEdgePoint, if_neg hempty, if_neg hvalid, hcut.npArgmax_eq, hs, hedge]
  rfl

/-- When no projection is positive, one index serves both lists. -/
theorem find_edge_of_not_pos {pre post : List (K × K)} {p : K × K}
    (hne : regionPoints (K := K) region ≠ [])
    (h : FirstMaxAt (waveProj vWave centerPt) (searchPoints region vWave centerPt bandPx)
      pre p post) (hpos : ¬0 < waveProj vWave centerPt p) :
    findCenterlineEdgePoint region vWave centerPt bandPx
      = .ok (some (p, waveProj vWave centerPt p)) := by
  have hempty : ¬ (regionPoints (K := K) region).isEmpty = true :=
    fun hnil => hne (List.isEmpty_iff.mp hnil)
  have hvalid : ((searchPoints region vWave centerPt bandPx).filter fun q =>
      decide (0 < waveProj vWave centerPt q)).isEmpty = true := by
    rw [List.isEmpty_iff, List.filter_eq_nil_iff]
    intro q hq
    rw [decide_eq_true_iff]
    exact fun hq0 => hpos (hq0.trans_le (h.max hq))
  have hedge : getOrIndexError (searchPoints region vWave centerPt bandPx) pre.length
      = .ok p := by
    rw [h.eq]
    exact getOrIndexError_append pre post p
  have hproj : getOrIndexError ((searchPoints region vWave centerPt bandPx).map
      (waveProj vWave centerPt)) pre.length = .ok (waveProj vWave centerPt p) := by
    rw [h.eq]
    exact getOrIndexError_map_append _ pre post p
  have harg := h.npArgmax_eq
  unfold searchPoints at hvalid harg hedge hproj
  simp only [findCenterlineEdgePoint, if_neg hempty, hvalid, if_true, harg, hedge, hproj]
  rfl

/-- What the search returns: the first farthest point, with its own projection
exactly when the points before it are clear. -/
theorem find_edge {pre post : List (K × K)} {p : K × K} (hne : regionPoints (K := K) region ≠ [])
    (h : FirstMaxAt (waveProj vWave centerPt) (searchPoints region vWave centerPt bandPx)
      pre p post) :
    ∃ s, findCenterlineEdgePoint region vWave centerPt bandPx = .ok (some (p, s)) ∧
      (s = waveProj vWave centerPt p ↔
        (0 < waveProj vWave centerPt p → ∀ q ∈ pre, 0 < waveProj vWave centerPt q)) := by
  by_cases hpos : 0 < waveProj vWave centerPt p
  · obtain ⟨s, hfind, hiff⟩ := find_edge_of_pos hne h hpos
    exact ⟨s, hfind, hiff.trans (imp_iff_right hpos).symm⟩
  · exact ⟨_, find_edge_of_not_pos hne h hpos, iff_of_true rfl fun hp => absurd hp hpos⟩

/-- The search point at the cut is farthest. -/
theorem farthest_of_cut {pre post : List (K × K)} {p : K × K}
    (h : FirstMaxAt (waveProj vWave centerPt) (searchPoints region vWave centerPt bandPx)
      pre p post) : Farthest region vWave centerPt bandPx p :=
  ⟨h.mem, fun _ hq => h.max hq⟩

/-- The triple of a region is coherent exactly when its front is clear. -/
theorem coherent_iff :
    Coherent region vWave centerPt bandPx ↔ FrontClear region vWave centerPt bandPx := by
  by_cases hne : regionPoints (K := K) region = []
  · -- An empty region has no triple and no cut.
    have hsearch : searchPoints region vWave centerPt bandPx = [] := by
      simp [searchPoints, bandPoints, hne]
    constructor
    · intro _ pre p post hcut
      have heq := hcut.eq
      rw [hsearch] at heq
      simp at heq
    · intro _ p s hfind
      rw [find_empty vWave centerPt bandPx hne] at hfind
      cases hfind
  · obtain ⟨pre, p, post, hcut⟩ :=
      exists_firstMaxAt (waveProj vWave centerPt) (searchPoints_ne_nil vWave centerPt bandPx hne)
    obtain ⟨s, hfind, hiff⟩ := find_edge hne hcut
    constructor
    · intro hcoh pre' p' post' hcut'
      -- There is one cut at the first farthest point.
      obtain ⟨hpre, hp⟩ := hcut'.cut_unique hcut
      rw [hpre, hp]
      exact hiff.mp (hcoh p s hfind).2
    · intro hclear p' s' hfind'
      cases hfind.symm.trans hfind'
      exact ⟨farthest_of_cut hcut, hiff.mpr (hclear pre p post hcut)⟩

/-- A coherent region that is not empty has a farthest point, and the search
returns it. -/
theorem Coherent.find_eq (h : Coherent region vWave centerPt bandPx)
    (hne : regionPoints (K := K) region ≠ []) :
    ∃ p, findCenterlineEdgePoint region vWave centerPt bandPx
        = .ok (some (p, waveProj vWave centerPt p)) ∧ Farthest region vWave centerPt bandPx p := by
  obtain ⟨pre, p, post, hcut⟩ :=
    exists_firstMaxAt (waveProj vWave centerPt) (searchPoints_ne_nil vWave centerPt bandPx hne)
  obtain ⟨s, hfind, -⟩ := find_edge hne hcut
  obtain ⟨hfar, hs⟩ := h p s hfind
  rw [hs] at hfind
  exact ⟨p, hfind, hfar⟩

/-- Two farthest points have the same projection. -/
theorem Farthest.proj_eq {p q : K × K} (hp : Farthest region vWave centerPt bandPx p)
    (hq : Farthest region vWave centerPt bandPx q) :
    waveProj vWave centerPt p = waveProj vWave centerPt q :=
  le_antisymm (hq.max p hp.mem) (hp.max q hq.mem)

end

/-! ### The crests of a mask -/

section
variable (cc : Components K) (vWave obbCenter : K × K) (minArea : ℤ) (bandPx : K)

/-- What `extractWaveCrestsAlongCenterline` should return: the components of
sufficient area with a farthest point of positive projection, in the order of
these projections. -/
structure Extracted (crests : List (WaveCrest K)) : Prop where
  kept : ∀ i, (∃ crest ∈ crests, crest.id = i) ↔
    i ∈ cc.foreground ∧ minArea ≤ cc.area i ∧
      ∃ p, Farthest (cc.region i) vWave obbCenter bandPx p ∧ 0 < waveProj vWave obbCenter p
  edge : ∀ crest ∈ crests, Farthest (cc.region crest.id) vWave obbCenter bandPx crest.edge
  sorted : crests.Pairwise fun a b =>
    waveProj vWave obbCenter a.edge ≤ waveProj vWave obbCenter b.edge

variable {cc vWave obbCenter minArea bandPx}

/-- A round of the loop over a coherent component. -/
theorem waveCrestOf_coherent {i : ℕ}
    (h : minArea ≤ cc.area i → Coherent (cc.region i) vWave obbCenter bandPx) (o) :
    waveCrestOf cc vWave obbCenter minArea bandPx i = .ok (some o) ↔
      minArea ≤ cc.area i ∧ ∃ p, findCenterlineEdgePoint (cc.region i) vWave obbCenter bandPx
          = .ok (some (p, waveProj vWave obbCenter p)) ∧
        Farthest (cc.region i) vWave obbCenter bandPx p ∧ 0 < waveProj vWave obbCenter p ∧
        o = ⟨i, cc.area i, cc.centroid i, p, waveProj vWave obbCenter p⟩ := by
  by_cases harea : cc.area i < minArea
  · simp [waveCrestOf, harea]
  · have hle : minArea ≤ cc.area i := not_lt.mp harea
    by_cases hne : regionPoints (K := K) (cc.region i) = []
    · have hfind := find_empty vWave obbCenter bandPx hne
      simp [waveCrestOf, harea, hfind, bind, Except.bind]
    · -- The search returns the farthest point with its own projection, so the sign test is about
      -- that point.
      obtain ⟨p, hfind, hfar⟩ := (h hle).find_eq hne
      by_cases hpos : waveProj vWave obbCenter p ≤ 0
      · simp only [waveCrestOf, if_neg harea, hfind, bind, Except.bind, if_pos hpos]
        constructor
        · intro ho
          cases ho
        · rintro ⟨-, q, hq, -, hq0, -⟩
          cases hq
          exact absurd hq0 (not_lt.mpr hpos)
      · simp only [waveCrestOf, if_neg harea, hfind, bind, Except.bind, if_neg hpos]
        constructor
        · intro ho
          cases ho
          exact ⟨hle, p, rfl, hfar, not_le.mp hpos, rfl⟩
        · rintro ⟨-, q, hq, -, -, rfl⟩
          cases hq
          rfl

variable (cc vWave obbCenter minArea bandPx) in
/-- The loop never raises. -/
theorem waveCrestOf_returns (i : ℕ) :
    ∃ o, waveCrestOf cc vWave obbCenter minArea bandPx i = .ok o := by
  by_cases harea : cc.area i < minArea
  · exact ⟨none, by simp [waveCrestOf, harea]⟩
  · by_cases hne : regionPoints (K := K) (cc.region i) = []
    · have hfind := find_empty vWave obbCenter bandPx hne
      exact ⟨none, by simp [waveCrestOf, harea, hfind, bind, Except.bind]⟩
    · obtain ⟨pre, p, post, hcut⟩ :=
        exists_firstMaxAt (waveProj vWave obbCenter)
          (searchPoints_ne_nil vWave obbCenter bandPx hne)
      obtain ⟨s, hfind, -⟩ := find_edge hne hcut
      simp only [waveCrestOf, if_neg harea, hfind, bind, Except.bind]
      split
      · exact ⟨none, rfl⟩
      · exact ⟨_, rfl⟩

/-- What is known of a crest that a round over a coherent component returns. -/
theorem waveCrestOf_spec {i : ℕ} {crest : WaveCrest K}
    (h : minArea ≤ cc.area i → Coherent (cc.region i) vWave obbCenter bandPx)
    (hcall : waveCrestOf cc vWave obbCenter minArea bandPx i = .ok (some crest)) :
    crest.id = i ∧ minArea ≤ cc.area i ∧
      Farthest (cc.region i) vWave obbCenter bandPx crest.edge ∧
      0 < waveProj vWave obbCenter crest.edge ∧
      crest.projection = waveProj vWave obbCenter crest.edge := by
  obtain ⟨hle, p, -, hfar, hpos, rfl⟩ := (waveCrestOf_coherent h crest).mp hcall
  exact ⟨rfl, hle, hfar, hpos, rfl⟩

/-- A coherent component with a farthest point of positive projection gives a crest. -/
theorem exists_waveCrestOf {i : ℕ} {p : K × K}
    (h : Coherent (cc.region i) vWave obbCenter bandPx) (hle : minArea ≤ cc.area i)
    (hfar : Farthest (cc.region i) vWave obbCenter bandPx p)
    (hpos : 0 < waveProj vWave obbCenter p) :
    ∃ crest, crest.id = i ∧
      waveCrestOf cc vWave obbCenter minArea bandPx i = .ok (some crest) := by
  have hne : regionPoints (K := K) (cc.region i) ≠ [] := by
    intro hnil
    have hin := hfar.mem
    simp [searchPoints, bandPoints, hnil] at hin
  obtain ⟨q, hfind, hfarq⟩ := h.find_eq hne
  have hposq : 0 < waveProj vWave obbCenter q := by
    rw [hfarq.proj_eq hfar]
    exact hpos
  exact ⟨_, rfl, (waveCrestOf_coherent (fun _ => h) _).mpr ⟨hle, q, hfind, hfarq, hposq, rfl⟩⟩

end

omit [Field K] in
/-- The comparison of the sort is a total order. -/
theorem pairwise_sortCrests (crests : List (WaveCrest K)) :
    (crests.mergeSort fun a b => decide (a.projection ≤ b.projection)).Pairwise
      fun a b => a.projection ≤ b.projection := by
  have hsort : (crests.mergeSort fun a b => decide (a.projection ≤ b.projection)).Pairwise
      fun a b => decide (a.projection ≤ b.projection) = true := by
    refine List.pairwise_mergeSort ?_ ?_ _
    · intro a b c hab hbc
      rw [decide_eq_true_iff] at hab hbc ⊢
      exact hab.trans hbc
    · intro a b
      rw [Bool.or_eq_true, decide_eq_true_iff, decide_eq_true_iff]
      exact le_total _ _
  exact hsort.imp of_decide_eq_true

/-- The crests of a mask, when each component of sufficient area is coherent. -/
theorem extracted_of_coherent {cv : Cv2Regions K} {binMask : Img ℕ} {vWave obbCenter : K × K}
    {minArea : ℤ} {bandPx : K} {crests : List (WaveCrest K)}
    (hrun : extractWaveCrestsAlongCenterline cv binMask vWave obbCenter minArea bandPx
      = .ok crests)
    (h : ∀ i ∈ (cv.connectedComponentsWithStats binMask.astypeUint8).foreground,
      minArea ≤ (cv.connectedComponentsWithStats binMask.astypeUint8).area i →
        Coherent ((cv.connectedComponentsWithStats binMask.astypeUint8).region i) vWave
          obbCenter bandPx) :
    Extracted (cv.connectedComponentsWithStats binMask.astypeUint8) vWave obbCenter minArea
      bandPx crests := by
  obtain ⟨os, hos, hret⟩ := bind_eq_ok hrun
  generalize cv.connectedComponentsWithStats binMask.astypeUint8 = cc at *
  have hcrests : crests
      = (os.filterMap id).mergeSort fun a b => decide (a.projection ≤ b.projection) :=
    (Except.ok.inj hret).symm
  -- The crests are what the loop returns for its components.
  have hmem : ∀ crest, crest ∈ crests ↔ ∃ i ∈ cc.foreground,
      waveCrestOf cc vWave obbCenter minArea bandPx i = .ok (some crest) := by
    intro crest
    rw [hcrests, List.mem_mergeSort, List.mem_filterMap]
    simp only [id_eq, exists_eq_right]
    exact mem_mapM_iff hos (some crest)
  have hspec : ∀ crest ∈ crests, crest.id ∈ cc.foreground ∧ minArea ≤ cc.area crest.id ∧
      Farthest (cc.region crest.id) vWave obbCenter bandPx crest.edge ∧
      0 < waveProj vWave obbCenter crest.edge ∧
      crest.projection = waveProj vWave obbCenter crest.edge := by
    intro crest hin
    obtain ⟨i, hi, hcall⟩ := (hmem crest).mp hin
    obtain ⟨rfl, hrest⟩ := waveCrestOf_spec (h i hi) hcall
    exact ⟨hi, hrest⟩
  refine { kept := fun i => ?_, edge := fun crest hin => (hspec crest hin).2.2.1, sorted := ?_ }
  · constructor
    · rintro ⟨crest, hin, rfl⟩
      obtain ⟨hi, hle, hfar, hpos, -⟩ := hspec crest hin
      exact ⟨hi, hle, crest.edge, hfar, hpos⟩
    · rintro ⟨hi, hle, p, hfar, hpos⟩
      obtain ⟨crest, hid, hcall⟩ := exists_waveCrestOf (h i hi hle) hle hfar hpos
      exact ⟨crest, (hmem crest).mpr ⟨i, hi, hcall⟩, hid⟩
  · have hsort : crests.Pairwise fun a b => a.projection ≤ b.projection := by
      rw [hcrests]
      exact pairwise_sortCrests _
    refine hsort.imp_of_mem fun {a b} ha hb hab => ?_
    rw [← (hspec a ha).2.2.2.2, ← (hspec b hb).2.2.2.2]
    exact hab

/-- One row of three pixels, all set. -/
def rowMask : Img ℕ := ⟨1, 3, fun _ _ => 1⟩

/-- The row is one component of area 3. -/
def rowRegions : Cv2Regions ℚ where
  connectedComponentsWithStats _ := ⟨2, rowMask, fun _ => 3, fun _ => (1, 0)⟩
  fillPoly _ _ _ := rowMask

end W2Net.Proofs.Lbr
