import Mathlib.Data.List.Sort
import W2Net.Lib.Image
import W2Net.Lib.Python
import W2Net.Utils.Lbr.Obb

/-!
# `W2Net.Utils.Wavelength`: the two corrections of the 180 degree ambiguity

The model of `correct_heading_by_cc_extreme` and of
`correct_heading_by_cc_topk_vote` of `utils/wavelength.py`. Both collect the
connected components of the mask inside the box (`validComponents`) and sort
them by their area. The first compares the box direction with the direction from
a small component to the largest one, the second lets the components vote with
the directions from the largest one to each of them.
-/

set_option autoImplicit false

namespace W2Net.Wavelength

open W2Net.Lbr (Quad)

variable {K : Type} [Field K] [LinearOrder K] [FloorRing K]

/-- An entry `(lab, area, cx, cy)` of the list of components. -/
structure Comp (K : Type) where
  lab : ℕ
  area : ℤ
  cx : K
  cy : K

/-- `inner`: the mask inside the polygon of the box. -/
def innerMask (cv : Cv2Regions K) (binMask : Img ℕ) (quad : Quad K) : Img ℕ :=
  let poly := List.ofFn fun i => (pyTrunc (quad i).1, pyTrunc (quad i).2)
  let polyMask := cv.fillPoly binMask.H binMask.W poly
  { H := binMask.H
    W := binMask.W
    px := fun y x => (if 0 < binMask.astypeUint8.px y x then 1 else 0) &&& polyMask.px y x }

/-- The components of `inner` without the background and the small ones. -/
def validComponents (cv : Cv2Regions K) (binMask : Img ℕ) (quad : Quad K) (minCcArea : ℤ) :
    List (Comp K) :=
  let cc := cv.connectedComponentsWithStats (innerMask cv binMask quad)
  (cc.foreground.filter fun lab => decide (minCcArea ≤ cc.area lab)).map fun lab =>
    ⟨lab, cc.area lab, (cc.centroid lab).1, (cc.centroid lab).2⟩

/-- `comps.sort(key=lambda x: x[1], reverse=True)`. -/
def sortByArea (comps : List (Comp K)) : List (Comp K) :=
  comps.insertionSort fun a b => b.area ≤ a.area

/-- `(heading_deg + 180.0) % 360.0 if flipped else heading_deg`. -/
def flipHeading (flipped : Bool) (headingDeg : K) : K :=
  if flipped then pyMod (headingDeg + 180) 360 else headingDeg

/-! ### The direction to the largest component -/

/-- The dictionary of `correct_heading_by_cc_extreme`. -/
inductive ExtremeInfo (K : Type) where
  | notEnoughComponents (valid : ℕ)
  | decided (amax amin : ℤ) (cmax cmin : K × K) (dot : K) (flipped : Bool) (chooseSmall : String)

/-- What a correction returns. -/
structure Correction (K I : Type) where
  headingCorrDeg : K
  flipped : Bool
  info : I

/-- The component that is compared with the largest one. -/
def smallComponent (chooseSmall : String) (cMax c1 : Comp K) (rest : List (Comp K)) : Comp K :=
  if chooseSmall = "smallest" then (c1 :: rest).minOn Comp.area (List.cons_ne_nil _ _)
  else
    (c1 :: rest).maxOn (fun c => (c.cx - cMax.cx) ^ 2 + (c.cy - cMax.cy) ^ 2)
      (List.cons_ne_nil _ _)

/-- `correct_heading_by_cc_extreme`. -/
def correctHeadingByCcExtreme (m : PyMath K) (cv : Cv2Regions K) (binMask : Img ℕ)
    (quad : Quad K) (vObb : K × K) (headingDeg : K) (minCcArea : ℤ) (chooseSmall : String) :
    Correction K (ExtremeInfo K) :=
  let valid := validComponents cv binMask quad minCcArea
  match sortByArea valid with
  | cMax :: c1 :: rest =>
      let cMin := smallComponent chooseSmall cMax c1 rest
      let vCc := m.unit (cMax.cx - cMin.cx, cMax.cy - cMin.cy)
      let vObbN := m.unit vObb
      let dot := vObbN.1 * vCc.1 + vObbN.2 * vCc.2
      let flipped := decide (dot < 0)
      ⟨flipHeading flipped headingDeg, flipped,
        .decided cMax.area cMin.area (cMax.cx, cMax.cy) (cMin.cx, cMin.cy) dot flipped
          chooseSmall⟩
  | _ => ⟨headingDeg, false, .notEnoughComponents valid.length⟩

/-! ### The vote -/

/-- The tag of a component in `details`. -/
inductive VoteTag where
  | skipZero
  | pos
  | neg
  | skipSmall
  deriving DecidableEq

/-- An entry `(lab, area, dot, tag)` of `details`. -/
structure VoteDetail (K : Type) where
  lab : ℕ
  area : ℤ
  dot : K
  tag : VoteTag

/-- The dictionary of `correct_heading_by_cc_topk_vote`. -/
inductive VoteInfo (K : Type) where
  | validCc (valid : ℕ)
  | noValidVotes (votesPos votesNeg skipped topK : ℕ)
  | decided (topK : ℕ) (base : Comp K) (votesPos votesNeg skipped : ℕ) (dotEps : K)
      (details : List (VoteDetail K)) (flipped : Bool)

/-- The vote of one component against the largest one. -/
def voteOf (m : PyMath K) (vObbN : K × K) (dotEps : K) (c0 c : Comp K) : VoteDetail K :=
  let v := (c.cx - c0.cx, c.cy - c0.cy)
  let nrm := m.hypot v.1 v.2
  if nrm < 1 / 10 ^ 6 then ⟨c.lab, c.area, 0, .skipZero⟩
  else
    let vi := m.unit v
    let dot := vi.1 * vObbN.1 + vi.2 * vObbN.2
    if dotEps ≤ dot then ⟨c.lab, c.area, dot, .pos⟩
    else if dot ≤ -dotEps then ⟨c.lab, c.area, dot, .neg⟩
    else ⟨c.lab, c.area, dot, .skipSmall⟩

/-- `correct_heading_by_cc_topk_vote`. -/
def correctHeadingByCcTopkVote (m : PyMath K) (cv : Cv2Regions K) (binMask : Img ℕ)
    (quad : Quad K) (vObb : K × K) (headingDeg : K) (topK : ℤ) (minCcArea : ℤ) (dotEps : K) :
    PyM (Correction K (VoteInfo K)) :=
  let comps := validComponents cv binMask quad minCcArea
  if comps.length < 2 then .ok ⟨headingDeg, false, .validCc comps.length⟩
  else
    match pySliceTo (sortByArea comps) (min topK comps.length) with
    | [] => .error .indexError
    | c0 :: rest =>
        let vObbN := m.unit vObb
        let details := rest.map (voteOf m vObbN dotEps c0)
        let votesPos := details.countP fun d => d.tag = .pos
        let votesNeg := details.countP fun d => d.tag = .neg
        let skipped := details.countP fun d => d.tag = .skipZero ∨ d.tag = .skipSmall
        if votesPos + votesNeg = 0 then
          .ok ⟨headingDeg, false, .noValidVotes votesPos votesNeg skipped (rest.length + 1)⟩
        else
          let flipped := decide (votesPos < votesNeg)
          .ok ⟨flipHeading flipped headingDeg, flipped,
            .decided (rest.length + 1) c0 votesPos votesNeg skipped dotEps details flipped⟩

end W2Net.Wavelength
