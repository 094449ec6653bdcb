import W2Net.Models.RetinaNet
import W2Net.Proofs.Models.AnchorRows
import W2Net.Proofs.Models.FeatureSizes
import W2Net.Proofs.Models.HeadRows

/-!
# `W2Net.Proofs.Models.RetinaNet`: the rows of the detector are aligned

A row of the detector stands for a `Place`: a pyramid level, a cell of its
feature, and an anchor. `rowOf` is the row of a place, and every row is the row
of one place (`existsUnique_place`).

`forward_aligned` says that row `rowOf p` of the anchors, of the classification
and of the regression all belong to the place `p`. The sizes of the features come
from the strides of the network, and those of the anchors from one division;
`iterate_strided_two` says that they agree.
-/

set_option autoImplicit false

namespace W2Net.Proofs.RetinaNet

open W2Net.Layers W2Net.FcaNet W2Net.Fpan W2Net.Heads
open W2Net.Proofs.FeatureSizes W2Net.Proofs.HeadRows W2Net.Proofs.AnchorRows

/-! ### Places and rows -/

/-- A level (from the finest one on), a cell and an anchor. -/
@[ext]
structure Place where
  level : ℕ
  y : ℕ
  x : ℕ
  a : ℕ

/-- The numbers of rows of features with the given sizes, for `A` anchors. -/
def rowCounts (A : ℕ) (sizes : List (ℕ × ℕ)) : List ℕ := sizes.map fun s => s.1 * s.2 * A

/-- The place lies in the pyramid, at a level of size `s`. -/
structure InPyramid (A : ℕ) (sizes : List (ℕ × ℕ)) (p : Place) (s : ℕ × ℕ) : Prop where
  size : sizes[p.level]? = some s
  y_lt : p.y < s.1
  x_lt : p.x < s.2
  a_lt : p.a < A

/-- The row of a place: level after level, then cell after cell, then anchor
after anchor. -/
def rowOf (A : ℕ) (sizes : List (ℕ × ℕ)) (p : Place) (s : ℕ × ℕ) : ℕ :=
  offset (rowCounts A sizes) p.level + ((p.y * s.2 + p.x) * A + p.a)

section
variable {A : ℕ} {sizes : List (ℕ × ℕ)} {p : Place} {s : ℕ × ℕ}

theorem rowCounts_getElem? (h : sizes[p.level]? = some s) :
    (rowCounts A sizes)[p.level]? = some (s.1 * s.2 * A) := by
  rw [rowCounts, List.getElem?_map, h]
  rfl

/-- The row inside of the level is the row-major position of `(y, x, a)`. -/
theorem local_eq_ravel (A y x a h w : ℕ) : (y * w + x) * A + a = ravel [h, w, A] [y, x, a] := by
  simp only [ravel, List.prod_cons, List.prod_nil]
  ring

theorem InPyramid.inBounds (h : InPyramid A sizes p s) :
    InBounds [p.y, p.x, p.a] [s.1, s.2, A] :=
  .cons h.y_lt (.cons h.x_lt (.cons h.a_lt .nil))

theorem InPyramid.local_lt (h : InPyramid A sizes p s) :
    (p.y * s.2 + p.x) * A + p.a < s.1 * s.2 * A := by
  rw [local_eq_ravel A p.y p.x p.a s.1 s.2]
  have hlt := ravel_lt h.inBounds
  simpa only [List.prod_cons, List.prod_nil, Nat.mul_one, Nat.mul_assoc] using hlt

theorem InPyramid.locate_rowOf (h : InPyramid A sizes p s) :
    locate (rowCounts A sizes) (rowOf A sizes p s) =
      (p.level, ravel [s.1, s.2, A] [p.y, p.x, p.a]) := by
  rw [← local_eq_ravel A p.y p.x p.a s.1 s.2]
  exact locate_offset_add (rowCounts_getElem? h.size) h.local_lt

/-- Every row is the row of exactly one place. -/
theorem existsUnique_place {r : ℕ} (hr : r < (rowCounts A sizes).sum) :
    ∃! p : Place, ∃ s, InPyramid A sizes p s ∧ rowOf A sizes p s = r := by
  obtain ⟨count, hcount, hlt, hoff⟩ := locate_spec hr
  obtain ⟨s, hs, rfl⟩ := Option.map_eq_some_iff.mp ((List.getElem?_map).symm.trans hcount)
  have hlt' : (locate (rowCounts A sizes) r).2 < [s.1, s.2, A].prod := by
    simpa only [List.prod_cons, List.prod_nil, Nat.mul_one, Nat.mul_assoc] using hlt
  -- The cell and the anchor of the row inside of its level.
  obtain ⟨y, x, a, hyxa⟩ : ∃ y x a, unravel [s.1, s.2, A] (locate (rowCounts A sizes) r).2 =
      [y, x, a] := ⟨_, _, _, rfl⟩
  have hin := inBounds_unravel hlt'
  have hpos := ravel_unravel hlt'
  rw [hyxa] at hin hpos
  obtain ⟨hy, hin⟩ := List.forall₂_cons.mp hin
  obtain ⟨hx, hin⟩ := List.forall₂_cons.mp hin
  obtain ⟨ha, -⟩ := List.forall₂_cons.mp hin
  refine ⟨⟨(locate (rowCounts A sizes) r).1, y, x, a⟩, ⟨s, ⟨hs, hy, hx, ha⟩, ?_⟩, ?_⟩
  · rw [rowOf, local_eq_ravel A y x a s.1 s.2, hpos]
    exact hoff
  · rintro q ⟨s', hq, rfl⟩
    have hloc := hq.locate_rowOf
    have hlevel : (locate (rowCounts A sizes) (rowOf A sizes q s')).1 = q.level := by rw [hloc]
    have hss : s' = s := by
      rw [hlevel, hq.size] at hs
      exact Option.some.inj hs
    subst hss
    rw [hloc, unravel_ravel hq.inBounds] at hyxa
    obtain ⟨rfl, rfl, rfl⟩ : q.y = y ∧ q.x = x ∧ q.a = a := by simpa using hyxa
    exact Place.ext hlevel.symm rfl rfl rfl

end

/-! ### The heads on all levels -/

section
variable {α : Type} {n A C : ℕ} {sizes : List (ℕ × ℕ)} {feats : List (Tensor α)}

/-- What a head returns for a feature with a size, from its `maps`. -/
def HeadResult (n A C : ℕ) (maps : Tensor α → PyM (Tensor α)) (p : (ℕ × ℕ) × Tensor α)
    (rows : Tensor α) : Prop :=
  ∃ t, maps p.2 = .ok t ∧ HasShape [n, A * C, p.1.1, p.1.2] t ∧ RowsOf n A C p.1.1 p.1.2 t rows

/-- The concatenated rows of a head: the row of a place reads the map of its
level, at its cell and in the channels of its anchor. -/
theorem concat_returns {forward maps : Tensor α → PyM (Tensor α)} (hne : sizes ≠ [])
    (hsizes : ∀ s ∈ sizes, 0 < s.1 ∧ 0 < s.2) (hfeats : HasShapes n 256 sizes feats)
    (hhead : ∀ s x, 0 < s.1 ∧ 0 < s.2 → HasShape [n, 256, s.1, s.2] x →
      Returns (forward x) (HeadResult n A C maps (s, x))) :
    Returns (feats.mapM forward >>= Tensor.cat 1) fun out =>
      HasShape [n, (rowCounts A sizes).sum, C] out ∧
      ∀ p s, InPyramid A sizes p s → ∃ feat t, feats[p.level]? = some feat ∧ maps feat = .ok t ∧
        HasShape [n, A * C, s.1, s.2] t ∧
        ∀ b c, b < n → c < C →
          out.get [b, rowOf A sizes p s, c] = t.get [b, p.a * C + c, p.y, p.x] := by
  have hfeats' := (List.forall₂_and_left _ _).mpr ⟨hsizes, hfeats⟩
  refine (mapM_returns hfeats' fun s x h => hhead s x h.1 h.2).bind fun rows hrows => ?_
  have hlen : sizes.length = feats.length := hfeats.length_eq
  -- The pieces of `torch.cat`, with the sizes that `rowOf` counts.
  have hshapes : rows.map Tensor.shape = (rowCounts A sizes).map fun s => [n, s, C] := by
    have hzip : (sizes.zip feats).map Prod.fst = sizes := List.map_fst_zip hlen.le
    have hpieces : (sizes.zip feats).map (fun p => [n, p.1.1 * p.1.2 * A, C]) =
        rows.map Tensor.shape := by
      refine List.forall₂_eq_eq_eq ▸ ?_
      rw [List.forall₂_map_left_iff, List.forall₂_map_right_iff]
      exact hrows.imp fun p y ⟨t, _, _, hy⟩ => hy.shape.symm
    rw [← hpieces, rowCounts, List.map_map]
    conv_rhs => rw [← hzip, List.map_map]
    rfl
  have hrows_ne : rows ≠ [] := by
    intro h
    rw [h] at hshapes
    cases sizes with
    | nil => exact hne rfl
    | cons s ss => cases hshapes
  refine (Tensor.cat_rows hrows_ne hshapes).imp fun out ⟨hshape, hget⟩ => ⟨hshape, ?_⟩
  -- The place is found in its level first, then in the concatenation.
  intro p s hp
  obtain ⟨feat, hfeat, -⟩ := forall₂_getElem? hfeats hp.size
  have hzip : (sizes.zip feats)[p.level]? = some (s, feat) :=
    List.getElem?_zip_eq_some.mpr ⟨hp.size, hfeat⟩
  obtain ⟨y, hy, t, hmaps, ht, hrowsOf⟩ := forall₂_getElem? hrows hzip
  refine ⟨feat, t, hfeat, hmaps, ht, fun b c hb hc => ?_⟩
  rw [rowOf, hget p.level _ b c y _ hy (rowCounts_getElem? hp.size) hb hp.local_lt hc]
  exact hrowsOf.get b p.y p.x p.a c hb hp.y_lt hp.x_lt hp.a_lt hc

end

/-! ### The whole network -/

section
variable {α K : Type} [Field K]

/-- `pyramid_levels`, when none are given. -/
def levels : List ℕ := [3, 4, 5, 6, 7]

/-- The sizes of the five features. -/
def pyramidSizes (h w : ℕ) : List (ℕ × ℕ) := levels.map (imageShape h w)

/-- The anchors of a cell at the level `x`. -/
def cellAnchors (g : Anchors K) (m : PyMath K) (x : ℕ) : List (AnchorBox K) :=
  generateAnchors m ((2 ^ (x + 1) : ℕ) : K) g.ratios g.scales g.rotations

theorem length_cellAnchors (g : Anchors K) (m : PyMath K) (x : ℕ) :
    (cellAnchors g m x).length = g.numAnchors := generateAnchors_length m _ _ _ _

/-- The rows of all levels. -/
def anchorRows (g : Anchors K) (m : PyMath K) (h w : ℕ) : List (AnchorBox K) :=
  (levels.map fun x => shift (imageShape h w x) (2 ^ x) (cellAnchors g m x)).flatten

/-- `Anchors.forward` with the default levels. -/
theorem anchors_forward (m : PyMath K) (ratios scales rotations : Option (List K)) {ims : Tensor α}
    {n c h w : ℕ} (hims : ims.shape = [n, c, h, w]) :
    (Anchors.init none none none ratios scales rotations).forward m ims =
      .ok (List.replicate n
        (anchorRows (Anchors.init none none none ratios scales rotations) m h w)) := by
  unfold Anchors.forward
  rw [hims]
  show (List.mapM (Anchors.level _ m h w) [(3, 0), (4, 1), (5, 2), (6, 3), (7, 4)] >>= _) = _
  rw [mapM_eq_ok (g := fun p => shift (imageShape h w p.1) (2 ^ p.1)
    (cellAnchors (Anchors.init none none none ratios scales rotations) m p.1))]
  · rfl
  · intro p hp
    simp only [List.mem_cons, List.not_mem_nil, or_false] at hp
    obtain rfl | rfl | rfl | rfl | rfl := hp <;> rfl

/-- The sizes by repeated halving are the sizes by one division. -/
theorem iterate_sizes {h w : ℕ} (hh : 0 < h) (hw : 0 < w) :
    (levels.map fun k => ((strided 2)^[k] h, (strided 2)^[k] w)) = pyramidSizes h w := by
  refine List.map_congr_left fun k _ => ?_
  rw [iterate_strided_two hh, iterate_strided_two hw]
  rfl

theorem pyramidSizes_pos {h w : ℕ} (hh : 0 < h) (hw : 0 < w) :
    ∀ s ∈ pyramidSizes h w, 0 < s.1 ∧ 0 < s.2 := by
  have hpos : ∀ n x : ℕ, 0 < n → 0 < (n + 2 ^ x - 1) / 2 ^ x := fun n x hn => by
    have hx : 0 < 2 ^ x := Nat.two_pow_pos x
    exact Nat.div_pos (by omega) hx
  intro s hs
  obtain ⟨x, -, rfl⟩ := List.mem_map.mp hs
  exact ⟨hpos h x hh, hpos w x hw⟩

/-- A gate keeps the shapes. -/
theorem hasShapes_mapIdx {n c : ℕ} {sizes : List (ℕ × ℕ)} {xs : List (Tensor α)} {f : ℕ → Tensor α → Tensor α}
    (hf : ∀ i x, (f i x).shape = x.shape) (h : HasShapes n c sizes xs) :
    HasShapes n c sizes (xs.mapIdx f) := by
  induction h generalizing f with
  | nil => exact List.Forall₂.nil
  | @cons s x _ _ hx _ ih =>
      rw [List.mapIdx_cons]
      exact List.Forall₂.cons ((hf 0 x).trans hx) (ih fun i x => hf (i + 1) x)

omit [Field K] in
/-- The features that the heads get. -/
theorem pyramid_returns (net : RetinaNet α K) {ims : Tensor α} {n h w : ℕ}
    (hims : HasShape [n, 3, h, w] ims) (hn : 0 < n) (hh : 0 < h) (hw : 0 < w) :
    Returns (net.pyramid ims) (HasShapes n 256 (pyramidSizes h w)) := by
  refine (features_returns net.entries net.backbone hims hh hw).bind fun c ⟨h₃, h₄, h₅⟩ => ?_
  have hpos : ∀ m, 0 < (strided 2)^[5] m := fun m => by
    rw [Function.iterate_succ_apply']
    exact strided_pos 2 _
  refine (sppf_returns net.entries "sppf" _ net.backbone.fpnInChannels.2.2 h₅ (hpos h)
    (hpos w)).bind fun c5 h₅' => ?_
  refine (fpan_returns net.entries "fpan" h₃ h₄ h₅' hn (by decide)).bind fun p hp => ?_
  refine Returns.ok ?_
  rw [← iterate_sizes hh hw]
  exact hasShapes_mapIdx net.gate.shape_apply hp

/-- Row `r` of all three outputs belongs to the place `p` of a level of size `s`:
the channels of its anchor at its cell in the maps of the two heads, and its
anchor at the centre of its cell. -/
def RowAt (net : RetinaNet α K) (m : PyMath K) (feats : List (Tensor α))
    (out : RetinaNet.Outputs α K) (n : ℕ) (p : Place) (s : ℕ × ℕ) (r : ℕ) : Prop :=
  ∃ feat clsMap regMap box,
    feats[p.level]? = some feat ∧
    net.clsHead.maps net.entries "cls_head" feat = .ok clsMap ∧
    HasShape [n, net.anchorGenerator.numAnchors * net.numClasses, s.1, s.2] clsMap ∧
    net.regHead.maps net.entries "reg_head" feat = .ok regMap ∧
    HasShape [n, net.anchorGenerator.numAnchors * 5, s.1, s.2] regMap ∧
    (cellAnchors net.anchorGenerator m (p.level + 3))[p.a]? = some box ∧
    ∀ b < n,
      (∀ c < net.numClasses,
        out.clsScore.get [b, r, c] = clsMap.get [b, p.a * net.numClasses + c, p.y, p.x]) ∧
      (∀ k < 5, out.bboxPred.get [b, r, k] = regMap.get [b, p.a * 5 + k, p.y, p.x]) ∧
      ∃ rows, out.anchors[b]? = some rows ∧
        rows[r]? = some (box + cellShift (2 ^ (p.level + 3)) p.y p.x)

/-- The lengths of the lists that `forward` concatenates. -/
theorem lengths_anchorRows (g : Anchors K) (m : PyMath K) (h w : ℕ) :
    (levels.map fun x => shift (imageShape h w x) (2 ^ x) (cellAnchors g m x)).map List.length =
      rowCounts g.numAnchors (pyramidSizes h w) := by
  rw [rowCounts, pyramidSizes, List.map_map, List.map_map]
  refine List.map_congr_left fun x _ => ?_
  show (shift _ _ _).length = _
  rw [length_shift, length_cellAnchors]
  rfl

theorem length_anchorRows (g : Anchors K) (m : PyMath K) (h w : ℕ) :
    (anchorRows g m h w).length = (rowCounts g.numAnchors (pyramidSizes h w)).sum := by
  rw [anchorRows, List.length_flatten, lengths_anchorRows]

/-- The anchor rows of all levels: the row of a place is its anchor at its cell. -/
theorem anchorRows_getElem? (g : Anchors K) (m : PyMath K) {h w : ℕ} {p : Place} {s : ℕ × ℕ}
    (hp : InPyramid g.numAnchors (pyramidSizes h w) p s) :
    ∃ box, (cellAnchors g m (p.level + 3))[p.a]? = some box ∧
      (anchorRows g m h w)[rowOf g.numAnchors (pyramidSizes h w) p s]? =
        some (box + cellShift (2 ^ (p.level + 3)) p.y p.x) := by
  -- The level with index `i` is `i + 3`.
  obtain ⟨x, hx, hs⟩ := Option.map_eq_some_iff.mp ((List.getElem?_map).symm.trans hp.size)
  have hlevel : x = p.level + 3 := by
    obtain ⟨i, y, x', a⟩ := p
    match i, hx with
    | 0, hx => exact (Option.some.inj hx).symm
    | 1, hx => exact (Option.some.inj hx).symm
    | 2, hx => exact (Option.some.inj hx).symm
    | 3, hx => exact (Option.some.inj hx).symm
    | 4, hx => exact (Option.some.inj hx).symm
  subst hlevel
  subst hs
  have ha : p.a < (cellAnchors g m (p.level + 3)).length := by
    rw [length_cellAnchors]
    exact hp.a_lt
  refine ⟨(cellAnchors g m (p.level + 3))[p.a], List.getElem?_eq_getElem ha, ?_⟩
  have hpiece : (levels.map fun x => shift (imageShape h w x) (2 ^ x) (cellAnchors g m x))[
      p.level]? = some (shift (imageShape h w (p.level + 3)) (2 ^ (p.level + 3))
        (cellAnchors g m (p.level + 3))) := by
    rw [List.getElem?_map, hx]
    rfl
  have hlocal := hp.local_lt
  rw [anchorRows, rowOf, ← lengths_anchorRows g m h w, flatten_getElem? hpiece]
  · have hrow := shift_getElem? (2 ^ (p.level + 3)) hp.y_lt hp.x_lt ha
    rw [length_cellAnchors, List.getElem?_eq_getElem ha] at hrow
    exact hrow
  · rw [length_shift, length_cellAnchors]
    exact hlocal

/-- `forward` asks for the anchors first. When every step returns, so does it. -/
theorem forward_eq_ok (net : RetinaNet α K) (m : PyMath K) {ims : Tensor α}
    {anchors : List (List (AnchorBox K))} {feats : List (Tensor α)} {cls reg : Tensor α}
    (hanchors : net.anchorGenerator.forward m ims = .ok anchors)
    (hpyramid : net.pyramid ims = .ok feats)
    (hcls : feats.mapM (net.clsHead.forward net.entries "cls_head") >>= Tensor.cat 1 = .ok cls)
    (hreg : feats.mapM (net.regHead.forward net.entries "reg_head") >>= Tensor.cat 1 = .ok reg) :
    net.forward m ims = .ok ⟨anchors, cls, reg⟩ := by
  obtain ⟨clsRows, hclsRows, hclsCat⟩ := bind_eq_ok hcls
  obtain ⟨regRows, hregRows, hregCat⟩ := bind_eq_ok hreg
  unfold RetinaNet.forward
  rw [hanchors, hpyramid]
  show (feats.mapM (net.clsHead.forward net.entries "cls_head") >>= fun _ => _) = _
  rw [hclsRows]
  show (Tensor.cat 1 clsRows >>= fun _ => _) = _
  rw [hclsCat]
  show (feats.mapM (net.regHead.forward net.entries "reg_head") >>= fun _ => _) = _
  rw [hregRows]
  show (Tensor.cat 1 regRows >>= fun _ => _) = _
  rw [hregCat]
  rfl

/-- A chain of layers that halve, against one division. The kernels are odd, with half of them as
padding. -/
theorem foldl_halving {layers : List (ℕ × ℕ)} {k : ℕ}
    (hlayers : ∀ l ∈ layers, l ∈ [(7, 3), (3, 1), (1, 0)]) (hk : 0 < k) :
    layers.foldl (fun size l => convOut l.1 2 l.2 size) k =
      (k + 2 ^ layers.length - 1) / 2 ^ layers.length := by
  have hodd : layers.foldl (fun size l => convOut l.1 2 l.2 size) k =
      (layers.map Prod.snd).foldl (fun size p => convOut (2 * p + 1) 2 p size) k := by
    rw [List.foldl_map]
    refine List.foldl_ext _ _ k fun size l hl => ?_
    have hmem := hlayers l hl
    simp only [List.mem_cons, List.not_mem_nil, or_false] at hmem
    obtain rfl | rfl | rfl := hmem <;> rfl
  rw [hodd, foldl_convOut_two, iterate_strided_two hk, List.length_map]

/-- For every image, every backbone and every choice of ratios, scales and
rotations: the forward pass returns, the three outputs have the same number of
rows, every row stands for exactly one place, and row `rowOf p` of each output is
the row of the place `p`.

The last part is the size of a feature on its own: any chain of the layers that
halve, with kernels 7, 3 and 1, against one division. -/
theorem forward_aligned (net : RetinaNet α K) (m : PyMath K)
    {ratios scales rotations : Option (List K)}
    (hg : net.anchorGenerator = .init none none none ratios scales rotations) {ims : Tensor α}
    {n h w : ℕ} (hims : HasShape [n, 3, h, w] ims) (hn : 0 < n) (hh : 0 < h) (hw : 0 < w) :
    (∃ feats out, net.pyramid ims = .ok feats ∧ net.forward m ims = .ok out ∧
      HasShapes n 256 (pyramidSizes h w) feats ∧
      HasShape [n, (rowCounts net.anchorGenerator.numAnchors (pyramidSizes h w)).sum,
        net.numClasses] out.clsScore ∧
      HasShape [n, (rowCounts net.anchorGenerator.numAnchors (pyramidSizes h w)).sum, 5]
        out.bboxPred ∧
      out.anchors.length = n ∧
      (∀ rows ∈ out.anchors,
        rows.length = (rowCounts net.anchorGenerator.numAnchors (pyramidSizes h w)).sum) ∧
      (∀ r < (rowCounts net.anchorGenerator.numAnchors (pyramidSizes h w)).sum,
        ∃! p, ∃ s, InPyramid net.anchorGenerator.numAnchors (pyramidSizes h w) p s ∧
          rowOf net.anchorGenerator.numAnchors (pyramidSizes h w) p s = r) ∧
      ∀ p s, InPyramid net.anchorGenerator.numAnchors (pyramidSizes h w) p s →
        RowAt net m feats out n p s
          (rowOf net.anchorGenerator.numAnchors (pyramidSizes h w) p s)) ∧
    ∀ (layers : List (ℕ × ℕ)) (k : ℕ), (∀ l ∈ layers, l ∈ [(7, 3), (3, 1), (1, 0)]) → 0 < k →
      layers.foldl (fun size l => convOut l.1 2 l.2 size) k =
        (k + 2 ^ layers.length - 1) / 2 ^ layers.length := by
  refine ⟨?_, fun layers k hlayers hk => foldl_halving hlayers hk⟩
  obtain ⟨feats, hpyramid, hfeats⟩ := pyramid_returns net hims hn hh hw
  have hne : pyramidSizes h w ≠ [] := nofun
  -- Each head level by level: `concat_returns` carries the rows of a level into those of the
  -- output.
  obtain ⟨cls, hcls, hclsShape, hclsRows⟩ := concat_returns hne (pyramidSizes_pos hh hw) hfeats
    fun s x hs hx => clsHead_returns net.entries "cls_head" hn hs.1 hs.2 net.clsHead
      (Nat.succ_pos _) hx
  obtain ⟨reg, hreg, hregShape, hregRows⟩ := concat_returns hne (pyramidSizes_pos hh hw) hfeats
    fun s x hs hx => regHead_returns net.entries "reg_head" hn hs.1 hs.2 net.regHead
      (Nat.succ_pos _) hx
  have hanchors := anchors_forward m ratios scales rotations (show ims.shape = _ from hims)
  rw [← hg] at hanchors
  refine ⟨feats, _, hpyramid, forward_eq_ok net m hanchors hpyramid hcls hreg, hfeats, hclsShape,
    hregShape, List.length_replicate, ?_, fun r hr => existsUnique_place hr, fun p s hp => ?_⟩
  · intro rows hrows
    rw [List.eq_of_mem_replicate hrows]
    exact length_anchorRows net.anchorGenerator m h w
  · -- Both heads read the same level, so the two features are one.
    obtain ⟨feat, clsMap, hfeat, hclsMap, hclsMapShape, hclsGet⟩ := hclsRows p s hp
    obtain ⟨feat', regMap, hfeat', hregMap, hregMapShape, hregGet⟩ := hregRows p s hp
    obtain rfl : feat = feat' := Option.some.inj (hfeat.symm.trans hfeat')
    obtain ⟨box, hbox, hrow⟩ := anchorRows_getElem? net.anchorGenerator m hp
    refine ⟨feat, clsMap, regMap, box, hfeat, hclsMap, hclsMapShape, hregMap, hregMapShape, hbox,
      fun b hb => ⟨fun c hc => hclsGet b c hb hc, fun k hk => hregGet b k hb hk, _, ?_, hrow⟩⟩
    exact (List.getElem?_replicate_of_lt hb)

end

/-- A network with the anchors of the source, whose layers return zeros. -/
def zeroNet : RetinaNet ℚ ℚ where
  backbone := .fca101
  foregroundClasses := 1
  anchorGenerator := RetinaNet.defaultAnchors
  entries _ _ _ := 0
  gate := ⟨fun _ x => x, fun _ _ => rfl⟩

/-- An image of 33 rows and 65 columns has 345 rows: the features have 5 x 9,
3 x 5, 2 x 3, 1 x 2 and 1 x 1 cells, with 5 anchors each. -/
theorem forward_aligned_oddImage :
    ∃ out, zeroNet.forward PyMath.rat ⟨[1, 3, 33, 65], fun _ => 0⟩ = .ok out ∧
      out.clsScore.shape = [1, 345, 2] ∧ out.bboxPred.shape = [1, 345, 5] ∧
      ∀ rows ∈ out.anchors, rows.length = 345 := by
  have hrows : (rowCounts zeroNet.anchorGenerator.numAnchors (pyramidSizes 33 65)).sum = 345 := by
    decide +kernel
  obtain ⟨⟨feats, out, -, hout, -, hcls, hreg, -, hlen, -⟩, -⟩ :=
    forward_aligned zeroNet PyMath.rat rfl
      (rfl : HasShape [1, 3, 33, 65] (⟨[1, 3, 33, 65], fun _ => 0⟩ : Tensor ℚ))
      (Nat.succ_pos 0) (Nat.succ_pos 32) (Nat.succ_pos 64)
  rw [hrows] at hcls hreg hlen
  exact ⟨out, hout, hcls, hreg, hlen⟩

end W2Net.Proofs.RetinaNet
