import Mathlib.Algebra.Order.Field.Rat
import Mathlib.Data.Rat.Floor
import Mathlib.Tactic.Linarith
import Mathlib.Tactic.Positivity
import W2Net.Proofs.Utils.Lbr.Listing
import W2Net.Utils.Heading

/-!
# `W2Net.Proofs.Utils.Heading`: headings and the listing of the corners

The listing of the corners of a rectangle decides the sign of the direction of
its long edge, and nothing else the resolvers read (`listingFree_iff`). So each
resolver is compared with itself on `u` and `-u`. The projections change their
sign, and with them the side of every pixel and component, except for those of
projection zero, which are on the positive side for both directions.

`resolveHeading_listingFree_iff` gives for each resolver the inputs on which it
returns one vector for all listings.
-/

set_option autoImplicit false

namespace W2Net.Proofs.Heading

open W2Net.Heading
open W2Net.Lbr (Quad quadEdge quadEdgeLength longIdx)
open W2Net.Proofs.Lbr

variable {K : Type} [Field K] [LinearOrder K]

/-! ### Two directions -/

section
variable {m : PyMath K} {q : Quad K}

/-- The sides of a rectangle are not both zero when they are different. -/
theorem longEdge_ne_zero (hm : m.SqrtLaws)
    (hne : quadEdgeLength m q 0 ≠ quadEdgeLength m q 1) : longEdge m q ≠ 0 := by
  intro hzero
  have hlen : quadEdgeLength m q (longIdx m q) = 0 := by
    have hedge : quadEdge q (longIdx m q) = 0 := hzero
    rw [quadEdgeLength, hedge]
    simp only [PyMath.hypot, Prod.fst_zero, Prod.snd_zero, mul_zero, add_zero]
    exact hm.zero
  -- No edge is longer than the longest one.
  have hall : ∀ i, quadEdgeLength m q i = 0 := by
    intro i
    have hle : quadEdgeLength m q i ≤ quadEdgeLength m q (longIdx m q) :=
      (isFirstMax_argmax (quadEdgeLength m q)).1 i
    exact le_antisymm (hle.trans hlen.le) (hm.nonneg _)
  exact hne ((hall 0).trans (hall 1).symm)

/-- The opposite of the direction of a proper edge is another vector. -/
theorem longEdgeUnit_ne_neg [IsStrictOrderedRing K] (hm : m.SqrtLaws)
    (hne : quadEdgeLength m q 0 ≠ quadEdgeLength m q 1) :
    longEdgeUnitFromQuad m q ≠ -longEdgeUnitFromQuad m q := by
  intro heq
  have hzero := longEdge_ne_zero hm hne
  have hnorm : 0 < m.hypot (longEdge m q).1 (longEdge m q).2 + 1 / 10 ^ 9 :=
    add_pos_of_nonneg_of_pos (hm.nonneg _) (by positivity)
  have hself : ∀ x : K, x = -x → x = 0 := fun x hx => by linarith
  have h1 := hself _ (congrArg Prod.fst heq)
  have h2 := hself _ (congrArg Prod.snd heq)
  have hfst : (longEdge m q).1 = 0 := (div_eq_zero_iff.mp h1).resolve_right hnorm.ne'
  have hsnd : (longEdge m q).2 = 0 := (div_eq_zero_iff.mp h2).resolve_right hnorm.ne'
  exact hzero (Prod.ext hfst hsnd)

end

/-- The function returns one result for all listings of the corners. -/
def ListingFree {R : Type} (f : Quad K → Option R) (q : Quad K) : Prop :=
  ∀ r, f q = some r → ∀ k, f (rotateQuad k q) = some r

/-- A function that reads the listing through the direction of the long edge. -/
theorem listingFree_iff {R : Type} {m : PyMath K} {q : Quad K} (hq : IsRectangle q)
    (hne : quadEdgeLength m q 0 ≠ quadEdgeLength m q 1) {f : Quad K → Option R}
    (along : K × K → Option R)
    (hf : ∀ k, f (rotateQuad k q) = along (longEdgeUnitFromQuad m (rotateQuad k q))) :
    ListingFree f q ↔ ∀ r, along (longEdgeUnitFromQuad m q) = some r →
      along (-longEdgeUnitFromQuad m q) = some r := by
  have hunit : ∀ q' : Quad K, longEdgeUnitFromQuad m q' = m.unit (longEdge m q') := fun _ => rfl
  have hself : f q = along (longEdgeUnitFromQuad m q) := by
    have h0 := hf 0
    rwa [rotateQuad_zero] at h0
  have hopp : f (rotateQuad 2 q) = along (-longEdgeUnitFromQuad m q) := by
    rw [hf, hunit, hq.longEdge_rotate_two m hne, PyMath.unit_neg, hunit]
  constructor
  · intro h r hr
    rw [← hopp]
    exact h r (hself.trans hr) 2
  · intro h r hr k
    have hr' := hself.symm.trans hr
    rw [hf, hunit]
    -- A listing turned by `k` corners has the same long edge or the opposite one.
    rcases hq.longEdge_rotate m hne k with hk | hk
    · rw [hk, ← hunit]
      exact hr'
    · rw [hk, PyMath.unit_neg, ← hunit]
      exact h r hr'

omit [Field K] [LinearOrder K] in
/-- The heading follows the vector. -/
theorem forall_heading_iff {deg : K × K → K} {a b : Option (K × K)} :
    (∀ r, (a.map fun v => (deg v, v)) = some r → (b.map fun v => (deg v, v)) = some r) ↔
      ∀ v, a = some v → b = some v := by
  cases a with
  | none => simp
  | some v =>
      cases b with
      | none => simp
      | some w =>
          simp only [Option.map_some, Option.some.injEq, forall_eq', Prod.mk.injEq]
          exact ⟨fun h => h.2, fun h => ⟨congrArg deg h, h⟩⟩

section
variable {u : K × K} (hu : u ≠ -u) {a b : Bool}

include hu

omit [LinearOrder K] in
/-- Two choices between a direction and the opposite one. -/
theorem chosen_eq_iff :
    (∀ v, some (if a then u else -u) = some v → some (if b then u else -u) = some v) ↔ a = b := by
  cases a <;> cases b <;> simp [hu, hu.symm]

omit [LinearOrder K] in
/-- Two choices, the second one from the opposite direction. -/
theorem chosen_ne_iff :
    (∀ v, some (if a then u else -u) = some v → some (if b then -u else u) = some v) ↔ a ≠ b := by
  cases a <;> cases b <;> simp [hu, hu.symm]

end

omit [LinearOrder K] in
@[simp] theorem axisProj_neg (center u p : K × K) :
    axisProj center (-u) p = -axisProj center u p := by
  simp only [axisProj, Prod.fst_neg, Prod.snd_neg]
  ring

/-! ### The largest component -/

section
variable [IsStrictOrderedRing K] [FloorRing K] (m : PyMath K) (center : K × K)

/-- The vector turns with the direction exactly when the centroid is on the line
of projection zero. -/
theorem largestCcAlong_neg_iff (centroid : K × K) (wakeIsBehind : Bool) {u : K × K}
    (hu : u ≠ -u) :
    largestCcAlong m center centroid wakeIsBehind (-u)
        = largestCcAlong m center centroid wakeIsBehind u ↔ axisProj center u centroid ≠ 0 := by
  have hvec : ∀ v w : K × K, (vecToCompassDeg m v, v) = (vecToCompassDeg m w, w) ↔ v = w := by
    intro v w
    rw [Prod.mk.injEq]
    exact ⟨fun h => h.2, fun h => ⟨congrArg _ h, h⟩⟩
  simp only [largestCcAlong, hvec, axisProj_neg, Left.neg_neg_iff, Left.nonneg_neg_iff, neg_neg]
  generalize axisProj center u centroid = s
  rcases lt_trichotomy s 0 with hs | hs | hs
  · cases wakeIsBehind <;> simp [hs, hs.le, hs.ne, not_lt.mpr hs.le, not_le.mpr hs]
  · subst hs
    cases wakeIsBehind <;> simp [hu, hu.symm]
  · cases wakeIsBehind <;> simp [hs, hs.le, hs.ne', not_lt.mpr hs.le, not_le.mpr hs]

end

/-! ### The first and the last component -/

/-- The component as seen in the opposite direction. -/
def opposite (x : SideItem K) : SideItem K := ⟨x.area, -x.s⟩

/-- The nearest component of the side is at least as large as the farthest one. -/
def nearHeavy (side : List (SideItem K)) : Bool :=
  match (sortByDistance side).head?, (sortByDistance side).getLast? with
  | some first, some last => decide (last.area ≤ first.area)
  | _, _ => false

/-- The components ahead, with and without those of projection zero. -/
def aheadOn (items : List (SideItem K)) : List (SideItem K) := items.filter fun x => decide (0 ≤ x.s)

def ahead (items : List (SideItem K)) : List (SideItem K) := items.filter fun x => decide (0 < x.s)

/-- The components behind, with and without those of projection zero. -/
def behindOn (items : List (SideItem K)) : List (SideItem K) := items.filter fun x => decide (x.s ≤ 0)

def behind (items : List (SideItem K)) : List (SideItem K) := items.filter fun x => decide (x.s < 0)

/-- The vector of `firstLastAlong`. -/
def sideVector (items : List (SideItem K)) (u : K × K) : Option (K × K) :=
  if sideArea (behind items) ≤ sideArea (aheadOn items) then nearToFar (aheadOn items) u
  else nearToFar (behind items) (-u)

/-- The components of projection zero decide neither the side nor the order on it,
and with equal areas on the two sides exactly one of them is to be followed. -/
structure SidesClear (items : List (SideItem K)) : Prop where
  equal : sideArea (behind items) ≤ sideArea (aheadOn items) →
    sideArea (ahead items) ≤ sideArea (behindOn items) →
    nearHeavy (aheadOn items) ≠ nearHeavy (behindOn items)
  moreAhead : sideArea (behindOn items) < sideArea (ahead items) →
    nearHeavy (aheadOn items) = nearHeavy (ahead items)
  moreBehind : sideArea (aheadOn items) < sideArea (behind items) →
    nearHeavy (behindOn items) = nearHeavy (behind items)

section
variable (items : List (SideItem K))

theorem nearToFar_eq {side : List (SideItem K)} (h : side ≠ []) (w : K × K) :
    nearToFar side w = some (if nearHeavy side then w else -w) := by
  have hsort : sortByDistance side ≠ [] := by
    intro hnil
    have hlen := congrArg List.length hnil
    rw [sortByDistance, List.length_insertionSort] at hlen
    exact h (List.length_eq_zero_iff.mp hlen)
  simp only [nearToFar, nearHeavy, List.head?_eq_some_head hsort, List.getLast?_eq_some_getLast hsort,
    decide_eq_true_eq]

theorem sortByDistance_opposite :
    sortByDistance (items.map opposite) = (sortByDistance items).map opposite := by
  symm
  apply List.map_insertionSort
  intro a _ b _
  simp only [opposite, abs_neg]

theorem nearHeavy_opposite : nearHeavy (items.map opposite) = nearHeavy items := by
  simp only [nearHeavy, sortByDistance_opposite, List.head?_map, List.getLast?_map]
  cases (sortByDistance items).head? with
  | none => rfl
  | some first =>
      cases (sortByDistance items).getLast? with
      | none => rfl
      | some last => rfl

theorem nearToFar_opposite {side : List (SideItem K)} (h : side ≠ []) (w : K × K) :
    nearToFar (side.map opposite) w = some (if nearHeavy side then w else -w) := by
  have hmap : side.map opposite ≠ [] := fun hnil => h (List.map_eq_nil_iff.mp hnil)
  rw [nearToFar_eq hmap, nearHeavy_opposite]

omit [LinearOrder K] in
theorem sideArea_opposite : sideArea (items.map opposite) = sideArea items := by
  rw [sideArea, sideArea, List.map_map]
  rfl

variable [IsStrictOrderedRing K]

theorem aheadOn_opposite : aheadOn (items.map opposite) = (behindOn items).map opposite := by
  rw [aheadOn, behindOn, List.filter_map]
  congr 2
  funext x
  simp only [Function.comp, opposite, Left.nonneg_neg_iff]

theorem behind_opposite : behind (items.map opposite) = (ahead items).map opposite := by
  rw [behind, ahead, List.filter_map]
  congr 2
  funext x
  simp only [Function.comp, opposite, Left.neg_neg_iff]

/-- The vector for the opposite direction: its two sides are the other way round. -/
theorem sideVector_opposite (u : K × K) :
    sideVector (items.map opposite) (-u)
      = if sideArea (ahead items) ≤ sideArea (behindOn items) then
          (nearToFar ((behindOn items).map opposite) (-u))
        else nearToFar ((ahead items).map opposite) u := by
  rw [sideVector, aheadOn_opposite, behind_opposite, sideArea_opposite, sideArea_opposite, neg_neg]

end

section
variable {items : List (SideItem K)} (hpos : ∀ x ∈ items, 0 < x.area)

include hpos

omit [Field K] [LinearOrder K] in
/-- The side with the larger area has a component. -/
theorem side_ne_nil (hne : items ≠ []) {p q : SideItem K → Bool} (hpq : ∀ x, p x = true ∨ q x = true)
    (hle : sideArea (items.filter q) ≤ sideArea (items.filter p)) : items.filter p ≠ [] := by
  intro hnil
  have hnone : ∀ x ∈ items, ¬p x = true := by
    intro x hx
    exact List.filter_eq_nil_iff.mp hnil x hx
  have hall : items.filter q = items := by
    rw [List.filter_eq_self]
    intro x hx
    exact (hpq x).resolve_left (hnone x hx)
  have hsum : 0 < sideArea items := by
    apply List.sum_pos
    · simpa using hpos
    · simpa using hne
  rw [hall, hnil] at hle
  exact absurd hle (not_le.mpr hsum)

omit [Field K] [LinearOrder K] in
theorem sideArea_filter_mono {p q : SideItem K → Bool} (hpq : ∀ x, p x = true → q x = true) :
    sideArea (items.filter p) ≤ sideArea (items.filter q) := by
  induction items with
  | nil => exact le_refl _
  | cons x xs ih =>
      have hx := hpos x List.mem_cons_self
      have ih' := ih fun y hy => hpos y (List.mem_cons_of_mem _ hy)
      simp only [sideArea] at ih'
      cases hp : p x with
      | true => simpa [sideArea, hp, hpq x hp] using ih'
      | false =>
          cases hq : q x with
          | true =>
              simp only [sideArea, List.filter_cons, hp, hq, Bool.false_eq_true, ↓reduceIte,
                List.map_cons, List.sum_cons]
              omega
          | false => simpa [sideArea, hp, hq] using ih'

/-- Each direction follows its own positive side. -/
theorem sideVector_opposite_equal [IsStrictOrderedRing K] (hne : items ≠ []) {u : K × K}
    (hu : u ≠ -u) (hpn : sideArea (behind items) ≤ sideArea (aheadOn items))
    (hnp : sideArea (ahead items) ≤ sideArea (behindOn items)) :
    (∀ v, sideVector items u = some v → sideVector (items.map opposite) (-u) = some v) ↔
      nearHeavy (aheadOn items) ≠ nearHeavy (behindOn items) := by
  have hA : aheadOn items ≠ [] :=
    side_ne_nil hpos hne (by simpa using fun x : SideItem K => le_or_gt 0 x.s) hpn
  have hB : behindOn items ≠ [] :=
    side_ne_nil hpos hne (by simpa using fun x : SideItem K => le_or_gt x.s 0) hnp
  rw [sideVector_opposite, sideVector, if_pos hpn, if_pos hnp, nearToFar_eq hA,
    nearToFar_opposite hB, neg_neg, chosen_ne_iff hu]

/-- Both directions take the side ahead, so they have to agree on what is near. -/
theorem sideVector_opposite_moreAhead [IsStrictOrderedRing K] (hne : items ≠ []) {u : K × K}
    (hu : u ≠ -u) (hpn : sideArea (behind items) ≤ sideArea (aheadOn items))
    (hlt : sideArea (behindOn items) < sideArea (ahead items)) :
    (∀ v, sideVector items u = some v → sideVector (items.map opposite) (-u) = some v) ↔
      nearHeavy (aheadOn items) = nearHeavy (ahead items) := by
  have hA : aheadOn items ≠ [] :=
    side_ne_nil hpos hne (by simpa using fun x : SideItem K => le_or_gt 0 x.s) hpn
  have hB : ahead items ≠ [] :=
    side_ne_nil hpos hne (by simpa using fun x : SideItem K => lt_or_ge 0 x.s) hlt.le
  rw [sideVector_opposite, sideVector, if_pos hpn, if_neg (not_le.mpr hlt), nearToFar_eq hA,
    nearToFar_opposite hB, chosen_eq_iff hu]

/-- The areas on the axis only help the other side, so a larger area behind is larger in both
directions. -/
theorem ahead_le_behindOn_of_lt [IsStrictOrderedRing K]
    (hlt : sideArea (aheadOn items) < sideArea (behind items)) :
    sideArea (ahead items) ≤ sideArea (behindOn items) :=
  calc sideArea (ahead items) ≤ sideArea (aheadOn items) :=
        sideArea_filter_mono hpos (by simpa using fun (x : SideItem K) (h : 0 < x.s) => h.le)
    _ ≤ sideArea (behind items) := hlt.le
    _ ≤ sideArea (behindOn items) :=
        sideArea_filter_mono hpos (by simpa using fun (x : SideItem K) (h : x.s < 0) => h.le)

/-- Both directions take the side behind. -/
theorem sideVector_opposite_moreBehind [IsStrictOrderedRing K] (hne : items ≠ []) {u : K × K}
    (hu : u ≠ -u) (hlt : sideArea (aheadOn items) < sideArea (behind items)) :
    (∀ v, sideVector items u = some v → sideVector (items.map opposite) (-u) = some v) ↔
      nearHeavy (behindOn items) = nearHeavy (behind items) := by
  have hnp := ahead_le_behindOn_of_lt hpos hlt
  have hA : behind items ≠ [] :=
    side_ne_nil hpos hne (by simpa using fun x : SideItem K => lt_or_ge x.s 0) hlt.le
  have hB : behindOn items ≠ [] :=
    side_ne_nil hpos hne (by simpa using fun x : SideItem K => le_or_gt x.s 0) hnp
  have hu' : -u ≠ - -u := fun h => hu (neg_injective h)
  rw [sideVector_opposite, sideVector, if_neg (not_le.mpr hlt), if_pos hnp, nearToFar_eq hA,
    nearToFar_opposite hB, chosen_eq_iff hu', eq_comm]

/-- The vector is the same for both directions exactly when the sides are clear. -/
theorem sideVector_opposite_iff [IsStrictOrderedRing K] (hne : items ≠ []) {u : K × K}
    (hu : u ≠ -u) :
    (∀ v, sideVector items u = some v → sideVector (items.map opposite) (-u) = some v) ↔
      SidesClear items := by
  rcases le_or_gt (sideArea (behind items)) (sideArea (aheadOn items)) with hpn | hlt
  · rcases le_or_gt (sideArea (ahead items)) (sideArea (behindOn items)) with hnp | hlt
    · rw [sideVector_opposite_equal hpos hne hu hpn hnp]
      exact ⟨fun h => ⟨fun _ _ => h, fun hlt => absurd hnp (not_le.mpr hlt),
        fun hlt => absurd hpn (not_le.mpr hlt)⟩, fun h => h.equal hpn hnp⟩
    · rw [sideVector_opposite_moreAhead hpos hne hu hpn hlt]
      exact ⟨fun h => ⟨fun _ hle => absurd hle (not_le.mpr hlt), fun _ => h,
        fun hlt' => absurd hpn (not_le.mpr hlt')⟩, fun h => h.moreAhead hlt⟩
  · have hnp := ahead_le_behindOn_of_lt hpos hlt
    rw [sideVector_opposite_moreBehind hpos hne hu hlt]
    exact ⟨fun h => ⟨fun hle => absurd hle (not_le.mpr hlt),
      fun hlt' => absurd hnp (not_le.mpr hlt'), fun _ => h⟩, fun h => h.moreBehind hlt⟩

end

/-! ### The majority of the pixels -/

/-- The numbers of pixels ahead of the line of projection zero, on it and behind it. -/
structure SideCounts where
  ahead : ℕ
  on : ℕ
  behind : ℕ

/-- The counts of the pixels for the direction `u`. -/
def sideCounts (center u : K × K) (sel : List (K × K)) : SideCounts where
  ahead := sel.countP fun p => decide (0 < axisProj center u p)
  on := sel.countP fun p => decide (axisProj center u p = 0)
  behind := sel.countP fun p => decide (axisProj center u p < 0)

def SideCounts.total (c : SideCounts) : ℕ := c.ahead + c.on + c.behind

/-- The pixels on the line do not change the majority, nor its significance. -/
def SideCounts.Clear (tau : K) (c : SideCounts) : Prop :=
  tau * c.total ≤ |(c.ahead + c.on : ℕ) - (c.behind : K)| →
    (c.behind < c.ahead + c.on →
      c.behind + c.on ≤ c.ahead ∧ tau * c.total ≤ (c.ahead : K) - (c.behind + c.on : ℕ)) ∧
    (c.ahead + c.on ≤ c.behind → c.ahead < c.behind + c.on)

/-- A significant majority ahead has to stay ahead without the pixels on the line. -/
theorem SideCounts.clear_iff_of_lt {tau : K} {c : SideCounts}
    (hsig : tau * c.total ≤ |(c.ahead + c.on : ℕ) - (c.behind : K)|)
    (hlt : c.behind < c.ahead + c.on) :
    c.Clear tau ↔ c.behind + c.on ≤ c.ahead ∧
      tau * c.total ≤ (c.ahead : K) - (c.behind + c.on : ℕ) := by
  constructor
  · intro h
    exact (h hsig).1 hlt
  · intro h _
    exact ⟨fun _ => h, fun hge => absurd hlt (not_lt.mpr hge)⟩

/-- A significant majority behind is clear when it grows with the pixels on the line. -/
theorem SideCounts.clear_iff_of_ge {tau : K} {c : SideCounts}
    (hsig : tau * c.total ≤ |(c.ahead + c.on : ℕ) - (c.behind : K)|)
    (hge : c.ahead + c.on ≤ c.behind) : c.Clear tau ↔ c.ahead < c.behind + c.on := by
  constructor
  · intro h
    exact (h hsig).2 hge
  · intro h _
    exact ⟨fun hlt => absurd hge (not_le.mpr hlt), fun _ => h⟩

/-- The vector of `midlineMajorityAlong` from the two counts. -/
def majorityVector (tau : K) (pos neg : ℕ) (u : K × K) : Option (K × K) :=
  if |(pos : K) - neg| / (max (pos + neg) 1 : ℕ) < tau then none
  else some (if neg < pos then -u else u)

section
variable [IsStrictOrderedRing K] (center u : K × K)

theorem majorityVector_eq {tau : K} {pos neg : ℕ} (htotal : 0 < pos + neg)
    (u : K × K) : majorityVector tau pos neg u
      = if tau * (pos + neg : ℕ) ≤ |(pos : K) - neg| then some (if neg < pos then -u else u)
        else none := by
  have hT : (0 : K) < (pos + neg : ℕ) := by exact_mod_cast htotal
  rw [majorityVector, max_eq_left (show 1 ≤ pos + neg from htotal)]
  by_cases hsig : tau * (pos + neg : ℕ) ≤ |(pos : K) - neg|
  · rw [if_pos hsig, if_neg (not_lt.mpr ((le_div_iff₀ hT).mpr hsig))]
  · rw [if_neg hsig, if_pos ((div_lt_iff₀ hT).mpr (not_le.mp hsig))]

/-- The pixels on the line only add to a majority behind. -/
theorem SideCounts.significant_of_ge {tau : K} {c : SideCounts}
    (hsig : tau * c.total ≤ |(c.ahead + c.on : ℕ) - (c.behind : K)|)
    (hge : c.ahead + c.on ≤ c.behind) :
    tau * c.total ≤ |((c.behind + c.on : ℕ) : K) - c.ahead| := by
  have hle1 : ((c.ahead + c.on : ℕ) : K) ≤ c.behind := by exact_mod_cast hge
  have hle2 : (c.ahead : K) ≤ (c.behind + c.on : ℕ) := by
    have : c.ahead ≤ c.behind + c.on := by omega
    exact_mod_cast this
  have hon : (0 : K) ≤ c.on := Nat.cast_nonneg _
  rw [abs_of_nonpos (sub_nonpos.mpr hle1)] at hsig
  rw [abs_of_nonneg (sub_nonneg.mpr hle2)]
  push_cast at hsig ⊢
  linarith

/-- The vector is the same for both directions exactly when the counts are clear. -/
theorem majorityVector_opposite_iff {tau : K} {c : SideCounts} (htotal : 0 < c.total) {u : K × K}
    (hu : u ≠ -u) :
    (∀ v, majorityVector tau (c.ahead + c.on) c.behind u = some v →
        majorityVector tau (c.behind + c.on) c.ahead (-u) = some v) ↔ c.Clear tau := by
  have hT : c.behind + c.on + c.ahead = c.total := by simp only [SideCounts.total]; omega
  rw [majorityVector_eq htotal, majorityVector_eq (hT.symm ▸ htotal), hT, neg_neg]
  by_cases hsig : tau * c.total ≤ |(c.ahead + c.on : ℕ) - (c.behind : K)|
  · have hsig' : tau * (c.ahead + c.on + c.behind : ℕ)
        ≤ |(c.ahead + c.on : ℕ) - (c.behind : K)| := hsig
    rw [if_pos hsig']
    rcases Nat.lt_or_ge c.behind (c.ahead + c.on) with hlt | hge
    · rw [if_pos hlt, SideCounts.clear_iff_of_lt hsig hlt]
      rcases Nat.lt_or_ge c.ahead (c.behind + c.on) with hlt' | hge'
      · -- The majority moves to the other side.
        rw [if_pos hlt']
        refine iff_of_false (fun h => ?_) (fun h => absurd h.1 (not_le.mpr hlt'))
        have hv := h (-u) rfl
        split at hv
        · exact hu (Option.some.inj hv)
        · cases hv
      · have hcast : ((c.behind + c.on : ℕ) : K) ≤ c.ahead := by exact_mod_cast hge'
        rw [if_neg (not_lt.mpr hge'), abs_of_nonpos (sub_nonpos.mpr hcast), neg_sub]
        by_cases hsig2 : tau * c.total ≤ (c.ahead : K) - (c.behind + c.on : ℕ)
        · rw [if_pos hsig2]
          exact iff_of_true (fun v hv => hv) ⟨hge', hsig2⟩
        · rw [if_neg hsig2]
          exact iff_of_false (fun h => nomatch h _ rfl) (fun h => hsig2 h.2)
    · rw [if_neg (not_lt.mpr hge), if_pos (SideCounts.significant_of_ge hsig hge),
        SideCounts.clear_iff_of_ge hsig hge]
      by_cases hlt : c.ahead < c.behind + c.on
      · simp [hlt]
      · simp [hlt, hu.symm]
  · have hsig' : ¬tau * (c.ahead + c.on + c.behind : ℕ)
        ≤ |(c.ahead + c.on : ℕ) - (c.behind : K)| := hsig
    rw [if_neg hsig']
    exact iff_of_true (fun v hv => nomatch hv) (fun h => absurd h hsig)

omit [IsStrictOrderedRing K] in
/-- The corridor is the same for both directions. -/
theorem corridorPixels_neg (corridorPx excludeRadiusPx : K)
    (pts : List (K × K)) :
    corridorPixels center (-u) corridorPx excludeRadiusPx pts
      = corridorPixels center u corridorPx excludeRadiusPx pts := by
  have hnormal : ((-u).2, -(-u).1) = -(u.2, -u.1) := rfl
  simp only [corridorPixels, hnormal, axisProj_neg, abs_neg]

omit [IsStrictOrderedRing K] in
theorem countP_nonneg (sel : List (K × K)) :
    (sel.countP fun p => decide (0 ≤ axisProj center u p))
      = (sideCounts center u sel).ahead + (sideCounts center u sel).on := by
  simp only [sideCounts]
  induction sel with
  | nil => rfl
  | cons p ps ih =>
      simp only [List.countP_cons, ih]
      rcases lt_trichotomy (axisProj center u p) 0 with h | h | h
      · simp [h.ne, not_le.mpr h, not_lt.mpr h.le]
      · simp [h]
        omega
      · simp [h, h.ne', h.le]
        omega

omit [IsStrictOrderedRing K] in
/-- The counts add up to the number of pixels. -/
theorem sideCounts_total (sel : List (K × K)) : (sideCounts center u sel).total = sel.length := by
  have hlen := List.length_eq_countP_add_countP (fun p => decide (0 ≤ axisProj center u p)) (l := sel)
  rw [hlen, countP_nonneg, SideCounts.total]
  congr 1
  simp only [sideCounts]
  congr 1
  funext p
  simp

/-- The counts for the opposite direction. -/
theorem sideCounts_neg (sel : List (K × K)) :
    sideCounts center (-u) sel
      = ⟨(sideCounts center u sel).behind, (sideCounts center u sel).on,
          (sideCounts center u sel).ahead⟩ := by
  simp only [sideCounts, axisProj_neg, Left.neg_pos_iff, neg_eq_zero, Left.neg_neg_iff]

omit [IsStrictOrderedRing K] in
/-- `midlineMajorityAlong` by the counts of the pixels. -/
theorem midlineMajorityAlong_eq (m : PyMath K) [FloorRing K] (args : MidlineArgs K) (corridorPx : K)
    (pts : List (K × K)) :
    midlineMajorityAlong m args corridorPx center pts u
      = if (pts.length : ℤ) < args.minFgPx ∨
            corridorPixels center u corridorPx (args.excludeRadius corridorPx) pts = [] then none
        else
          let c := sideCounts center u
            (corridorPixels center u corridorPx (args.excludeRadius corridorPx) pts)
          (majorityVector args.tau (c.ahead + c.on) c.behind u).map fun v =>
            (vecToCompassDeg' m v, v) := by
  rw [midlineMajorityAlong]
  by_cases hfew : (pts.length : ℤ) < args.minFgPx
  · rw [if_pos hfew, if_pos (Or.inl hfew)]
  · rw [if_neg hfew]
    generalize corridorPixels center u corridorPx (args.excludeRadius corridorPx) pts = sel
    cases sel with
    | nil => simp
    | cons p ps =>
        have hempty : ¬(p :: ps).isEmpty = true := by simp
        have hsel : ¬((pts.length : ℤ) < args.minFgPx ∨ p :: ps = []) := by simp [hfew]
        rw [if_neg hempty, if_neg hsel]
        -- `np.sum(s >= 0)` counts the pixels ahead and those on the axis.
        simp only [countP_nonneg, majorityVector]
        rw [apply_ite (Option.map _), Option.map_none, Option.map_some]
        rfl

end

/-! ### The listings -/

section
variable [FloorRing K] (m : PyMath K) (cv : Cv2Regions K) (binMask : Img ℕ) (center : K × K)
  (q : Quad K)

/-- The centroid of the largest component is not on the line through the centre
across the box. -/
def LargestCcClear (minArea : ℤ) : Prop :=
  ∀ i, largestComponent (cv.connectedComponentsWithStats binMask.astypeUint8) minArea = some i →
    axisProj center (longEdgeUnitFromQuad m q)
      ((cv.connectedComponentsWithStats binMask.astypeUint8).centroid i) ≠ 0

/-- The components with their projections on the long edge. -/
def projected (comps : List (ℤ × (K × K))) : List (SideItem K) :=
  comps.map fun c => ⟨c.1, axisProj center (longEdgeUnitFromQuad m q) c.2⟩

/-- The sides are clear for the large components. -/
def FirstLastClear (minArea : ℤ) : Prop :=
  largeComponents (cv.connectedComponentsWithStats binMask.astypeUint8) minArea ≠ [] →
    SidesClear (projected m center q
      (largeComponents (cv.connectedComponentsWithStats binMask.astypeUint8) minArea))

/-- The foreground of the mask, as points. -/
def foregroundPoints : List (K × K) :=
  binMask.astypeUint8.wherePos.map fun p => ((p.1 : K), (p.2 : K))

/-- The counts are clear for the pixels of the corridor, when there are enough of them. -/
def MidlineClear (args : MidlineArgs K) : Prop :=
  let corridorPx := args.corridor m q
  let u := longEdgeUnitFromQuad m q
  let sel := corridorPixels center u corridorPx (args.excludeRadius corridorPx)
    (foregroundPoints binMask)
  args.minFgPx ≤ (foregroundPoints (K := K) binMask).length → sel ≠ [] →
    (sideCounts center u sel).Clear args.tau

end

section
variable [IsStrictOrderedRing K] [FloorRing K] {m : PyMath K} {cv : Cv2Regions K}
  {binMask : Img ℕ} {center : K × K} {q : Quad K}

theorem largestCc_listingFree_iff (hm : m.SqrtLaws) (hq : IsRectangle q)
    (hne : quadEdgeLength m q 0 ≠ quadEdgeLength m q 1) (minArea : ℤ) (wakeIsBehind : Bool) :
    ListingFree (resolveHeadingByLargestCc m cv binMask center minArea wakeIsBehind) q ↔
      LargestCcClear m cv binMask center q minArea := by
  have hu := longEdgeUnit_ne_neg hm hne
  have hiff := listingFree_iff hq hne
    (f := resolveHeadingByLargestCc m cv binMask center minArea wakeIsBehind)
    (fun u => (largestComponent (cv.connectedComponentsWithStats binMask.astypeUint8)
      minArea).map fun i => largestCcAlong m center
        ((cv.connectedComponentsWithStats binMask.astypeUint8).centroid i) wakeIsBehind u)
    (fun _ => rfl)
  rw [hiff, LargestCcClear]
  cases largestComponent (cv.connectedComponentsWithStats binMask.astypeUint8) minArea with
  | none => simp
  | some i =>
      simp only [Option.map_some, Option.some.injEq, forall_eq']
      exact largestCcAlong_neg_iff m center _ wakeIsBehind hu

theorem firstLast_listingFree_iff (hm : m.SqrtLaws) (hq : IsRectangle q)
    (hne : quadEdgeLength m q 0 ≠ quadEdgeLength m q 1) (minArea : ℤ)
    (harea : ∀ i ∈ (cv.connectedComponentsWithStats binMask.astypeUint8).foreground,
      0 < (cv.connectedComponentsWithStats binMask.astypeUint8).area i) :
    ListingFree (resolveHeadingByFirstLast m cv binMask center minArea) q ↔
      FirstLastClear m cv binMask center q minArea := by
  have hu := longEdgeUnit_ne_neg hm hne
  have hpos : ∀ c ∈ largeComponents (cv.connectedComponentsWithStats binMask.astypeUint8) minArea,
      0 < c.1 := by
    intro c hc
    simp only [largeComponents, List.mem_map, List.mem_filter] at hc
    obtain ⟨i, hi, rfl⟩ := hc
    exact harea i hi.1
  have hiff := listingFree_iff hq hne
    (f := resolveHeadingByFirstLast m cv binMask center minArea)
    (fun u =>
      if (largeComponents (cv.connectedComponentsWithStats binMask.astypeUint8) minArea).isEmpty
      then none
      else firstLastAlong m center
        (largeComponents (cv.connectedComponentsWithStats binMask.astypeUint8) minArea) u)
    (fun _ => rfl)
  rw [hiff, FirstLastClear]
  -- Only the list of the components matters from here on.
  revert hpos
  generalize largeComponents (cv.connectedComponentsWithStats binMask.astypeUint8) minArea = comps
  intro hpos
  have halong : ∀ u, firstLastAlong m center comps u
      = (sideVector (comps.map fun c => ⟨c.1, axisProj center u c.2⟩) u).map
          fun v => (vecToCompassDeg m v, v) := fun u => rfl
  cases comps with
  | nil => simp
  | cons c cs =>
      -- The opposite axis negates every projection.
      have hopp : ((c :: cs).map fun c => (⟨c.1, axisProj center (-longEdgeUnitFromQuad m q) c.2⟩ :
          SideItem K)) = (projected m center q (c :: cs)).map opposite := by
        rw [projected, List.map_map]
        simp only [Function.comp_def, opposite, axisProj_neg]
      have hitems : ∀ x ∈ projected m center q (c :: cs), 0 < x.area := by
        intro x hx
        obtain ⟨c', hc', rfl⟩ := List.mem_map.mp hx
        exact hpos c' hc'
      have hnonempty : projected m center q (c :: cs) ≠ [] := by simp [projected]
      simp only [List.isEmpty_cons, Bool.false_eq_true, ↓reduceIte, halong, hopp, ne_eq,
        reduceCtorEq, not_false_eq_true, forall_const]
      rw [forall_heading_iff]
      exact sideVector_opposite_iff hitems hnonempty hu

omit [IsStrictOrderedRing K] in
/-- The corridor depends on the shortest edge only. -/
theorem corridor_rotate (args : MidlineArgs K) (k : Fin 4) :
    args.corridor m (rotateQuad k q) = args.corridor m q := by
  have hmin : min (min (quadEdgeLength m q (0 + k)) (quadEdgeLength m q (1 + k)))
        (min (quadEdgeLength m q (2 + k)) (quadEdgeLength m q (3 + k)))
      = min (min (quadEdgeLength m q 0) (quadEdgeLength m q 1))
          (min (quadEdgeLength m q 2) (quadEdgeLength m q 3)) := by
    fin_cases k
    · rfl
    all_goals
      simp only [Fin.isValue, Fin.mk_one, Fin.reduceFinMk, Fin.reduceAdd]
      ac_rfl
  simp only [MidlineArgs.corridor, quadEdgeLength_rotate, hmin]

theorem midline_listingFree_iff (hm : m.SqrtLaws) (hq : IsRectangle q)
    (hne : quadEdgeLength m q 0 ≠ quadEdgeLength m q 1) (args : MidlineArgs K) :
    ListingFree (resolveHeadingByMidlineMajority m binMask center args) q ↔
      MidlineClear m binMask center q args := by
  have hu := longEdgeUnit_ne_neg hm hne
  -- The corridor is the same for all listings, so only the axis depends on the listing.
  have hf : ∀ k, resolveHeadingByMidlineMajority m binMask center args (rotateQuad k q)
      = midlineMajorityAlong m args (args.corridor m q) center (foregroundPoints binMask)
          (longEdgeUnitFromQuad m (rotateQuad k q)) := by
    intro k
    rw [resolveHeadingByMidlineMajority, corridor_rotate]
    rfl
  rw [listingFree_iff hq hne _ hf]
  simp only [midlineMajorityAlong_eq, corridorPixels_neg, sideCounts_neg, MidlineClear]
  generalize hsel : corridorPixels center (longEdgeUnitFromQuad m q) (args.corridor m q)
    (args.excludeRadius (args.corridor m q)) (foregroundPoints binMask) = sel
  by_cases hnone : ((foregroundPoints (K := K) binMask).length : ℤ) < args.minFgPx ∨ sel = []
  · simp only [if_pos hnone]
    -- Too few pixels: no listing gives a heading.
    refine iff_of_true (fun r hr => nomatch hr) (fun hmin hne' => ?_)
    exact hnone.elim (fun h => absurd hmin (not_le.mpr h)) (fun h => absurd h hne')
  · simp only [if_neg hnone]
    rw [not_or, not_lt] at hnone
    have htotal : 0 < (sideCounts center (longEdgeUnitFromQuad m q) sel).total := by
      rw [sideCounts_total]
      exact List.length_pos_iff.mpr hnone.2
    rw [forall_heading_iff, majorityVector_opposite_iff htotal hu]
    exact ⟨fun h _ _ => h, fun h => h hnone.1 hnone.2⟩

/-- When the vector of each resolver is the same for all listings of the corners. -/
theorem resolveHeading_listingFree_iff (m : PyMath K) (hm : m.SqrtLaws) (cv : Cv2Regions K)
    (binMask : Img ℕ) (center : K × K)
    (harea : ∀ i ∈ (cv.connectedComponentsWithStats binMask.astypeUint8).foreground,
      0 < (cv.connectedComponentsWithStats binMask.astypeUint8).area i)
    (q : Quad K) (hq : IsRectangle q) (hne : quadEdgeLength m q 0 ≠ quadEdgeLength m q 1)
    (minArea minArea' : ℤ) (args : MidlineArgs K) (wakeIsBehind : Bool) :
    (ListingFree (resolveHeadingByFirstLast m cv binMask center minArea) q ↔
        FirstLastClear m cv binMask center q minArea) ∧
      (ListingFree (resolveHeadingByMidlineMajority m binMask center args) q ↔
        MidlineClear m binMask center q args) ∧
      (ListingFree (resolveHeadingByLargestCc m cv binMask center minArea' wakeIsBehind) q ↔
        LargestCcClear m cv binMask center q minArea') :=
  ⟨firstLast_listingFree_iff hm hq hne minArea harea, midline_listingFree_iff hm hq hne args,
    largestCc_listingFree_iff hm hq hne minArea' wakeIsBehind⟩

end

/-! ### A wake around the centre -/

/-- A mask with one component, the whole array of 11 rows and columns. -/
def blockMask : Img ℕ := ⟨11, 11, fun _ _ => 1⟩

def blockRegions : Cv2Regions ℚ where
  connectedComponentsWithStats mask := ⟨2, mask, fun _ => 121, fun _ => (5, 5)⟩
  fillPoly H W _ := ⟨H, W, fun _ _ => 1⟩

/-- A box along the rows around the centre of the mask. -/
def blockQuad : Quad ℚ := ![(0, 3), (10, 3), (10, 7), (0, 7)]

omit [Field K] [LinearOrder K] in
theorem not_listingFree {R : Type} {f : Quad K → Option R} {q : Quad K} (hsome : (f q).isSome)
    (k : Fin 4) (hne : f (rotateQuad k q) ≠ f q) : ¬ListingFree f q := by
  intro h
  obtain ⟨r, hr⟩ := Option.isSome_iff_exists.mp hsome
  exact hne ((h r hr k).trans hr.symm)

theorem isRectangle_blockQuad : IsRectangle blockQuad :=
  ⟨by decide +kernel, by decide +kernel⟩

/-- With the default thresholds, each resolver turns the vector around when the
listing starts at the opposite corner. -/
theorem listings_differ :
    IsRectangle blockQuad ∧
      quadEdgeLength PyMath.rat blockQuad 0 ≠ quadEdgeLength PyMath.rat blockQuad 1 ∧
      ¬ListingFree (resolveHeadingByFirstLast PyMath.rat blockRegions blockMask (5, 5) 20)
        blockQuad ∧
      ¬ListingFree (resolveHeadingByMidlineMajority PyMath.rat blockMask (5, 5)
        ⟨none, none, 30, 1 / 20⟩) blockQuad ∧
      ¬ListingFree (resolveHeadingByLargestCc PyMath.rat blockRegions blockMask (5, 5) 30 true)
        blockQuad :=
  ⟨isRectangle_blockQuad, by decide +kernel,
    not_listingFree (by decide +kernel) 2 (by decide +kernel),
    not_listingFree (by decide +kernel) 2 (by decide +kernel),
    not_listingFree (by decide +kernel) 2 (by decide +kernel)⟩

/-- The comparison on the same mask, with the centre of the ship two pixels aside. -/
theorem resolveHeading_listingFree_iff_block :
    (ListingFree (resolveHeadingByFirstLast PyMath.rat blockRegions blockMask (3, 5) 20) blockQuad ↔
        FirstLastClear PyMath.rat blockRegions blockMask (3, 5) blockQuad 20) ∧
      (ListingFree (resolveHeadingByMidlineMajority PyMath.rat blockMask (3, 5)
          ⟨none, none, 30, 1 / 20⟩) blockQuad ↔
        MidlineClear PyMath.rat blockMask (3, 5) blockQuad ⟨none, none, 30, 1 / 20⟩) ∧
      (ListingFree (resolveHeadingByLargestCc PyMath.rat blockRegions blockMask (3, 5) 30 true)
          blockQuad ↔
        LargestCcClear PyMath.rat blockRegions blockMask (3, 5) blockQuad 30) :=
  resolveHeading_listingFree_iff PyMath.rat PyMath.sqrtLaws_rat blockRegions blockMask (3, 5)
    (fun _ _ => by simp [blockRegions]) blockQuad isRectangle_blockQuad (by decide +kernel) 20 30
    ⟨none, none, 30, 1 / 20⟩ true

end W2Net.Proofs.Heading
