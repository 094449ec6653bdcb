import W2Net.Datasets.Wake2voc

/-!
# `W2Net.Proofs.Datasets.VocBox`: the straight box of an object

What `write_voc_bndbox` does to an object: the elements that it makes or changes are updates by
their tags (`leafEdit`, `leavesEdit`), so everything else is found as before, and writing the same
box again changes nothing.

A box that was clipped lies inside of the image, also after rounding (`snapped_inImage`), and the
numbers that were written are read back (`readBnd_written`).
-/

set_option autoImplicit false

namespace W2Net.Proofs.Wake2voc

open W2Net.AnnotationXml W2Net.Wake2voc
open W2Net.WakeDataset (PyTexts ReadError floatOf readBnd)

/-! ### Elements -/

@[simp] theorem tag_setText (text : String) (c : Child) : (setText text c).tag = c.tag := by
  cases c <;> rfl

@[simp] theorem tag_onLeaves (f : List Leaf → List Leaf) (c : Child) : (onLeaves f c).tag = c.tag := by
  cases c <;> rfl

theorem setText_setText (text : String) (c : Child) :
    setText text (setText text c) = setText text c := by
  cases c <;> rfl

theorem onLeaves_onLeaves {f : List Leaf → List Leaf} (hf : ∀ leaves, f (f leaves) = f leaves)
    (c : Child) : onLeaves f (onLeaves f c) = onLeaves f c := by
  cases c with
  | leaf l => rw [onLeaves, onLeaves, hf]
  | group tag text leaves tail => rw [onLeaves, onLeaves, hf]

/-- `set_or_make` of a leaf. -/
def leafEdit (tag text : String) : KeyEdit Leaf.tag where
  k := tag
  f l := { l with text := text }
  fresh := ⟨tag, "", ""⟩
  key_f _ := rfl
  key_fresh := rfl
  idem _ := rfl

/-- `set_or_make` of an element in front of the objects. -/
def textEdit (tag text : String) : KeyEdit Child.tag where
  k := tag
  f := setText text
  fresh := .leaf ⟨tag, "", ""⟩
  key_f := tag_setText text
  key_fresh := rfl
  idem := setText_setText text

/-- The leaves of an element, with texts for distinct tags. -/
def leavesEdit (tag : String) (fields : List (String × String))
    (hnodup : (fields.map Prod.fst).Nodup) : KeyEdit Child.tag where
  k := tag
  f := onLeaves (updateEach (fields.map fun p => leafEdit p.1 p.2))
  fresh := .group tag "" [] ""
  key_f := tag_onLeaves _
  key_fresh := rfl
  idem := onLeaves_onLeaves (updateEach_updateEach (by rw [List.map_map]; exact hnodup))

/-- The text of a field after `set_or_make`. -/
theorem findtext_onLeaves {fields : List (String × String)} (hnodup : (fields.map Prod.fst).Nodup)
    {tag text : String} (hmem : (tag, text) ∈ fields) (c : Child) :
    (onLeaves (updateEach (fields.map fun p => leafEdit p.1 p.2)) c).findtext tag = some text := by
  have hsettled : ∀ leaves : List Leaf,
      ((updateEach (fields.map fun p => leafEdit p.1 p.2) leaves).find? fun l => l.tag = tag).map
        Leaf.text = some text := by
    intro leaves
    have hkeys : ((fields.map fun p => leafEdit p.1 p.2).map KeyEdit.k).Nodup := by
      rw [List.map_map]
      exact hnodup
    obtain ⟨l, hl, htext⟩ := settled_updateEach hkeys leaves _
      (List.mem_map_of_mem (f := fun p : String × String => leafEdit p.1 p.2) hmem)
    have hfind : (updateEach (fields.map fun p => leafEdit p.1 p.2) leaves).find?
        (fun l => l.tag = tag) = some l := hl
    rw [hfind, Option.map_some, ← htext]
    rfl
  cases c with
  | leaf l => exact hsettled []
  | group tag' text' leaves tail => exact hsettled leaves

/-! ### Boxes -/

section
variable {K : Type} [Field K] [LinearOrder K] [IsStrictOrderedRing K]

/-- A straight box inside of an image. -/
structure InImage (W H : ℕ) (b : Aabb K) : Prop where
  x1_nonneg : 0 ≤ b.x1
  x1_le_x2 : b.x1 ≤ b.x2
  x2_le : b.x2 ≤ W - 1
  y1_nonneg : 0 ≤ b.y1
  y1_le_y2 : b.y1 ≤ b.y2
  y2_le : b.y2 ≤ H - 1

theorem sub_one_nonneg {W : ℕ} (hW : 0 < W) : (0 : K) ≤ W - 1 := by
  have hcast : (1 : K) ≤ W := Nat.one_le_cast.mpr hW
  exact sub_nonneg.mpr hcast

omit [IsStrictOrderedRing K] in
/-- Both ends of an axis after the clipping. -/
theorem clip_axis {hi : K} (hhi : 0 ≤ hi) (x y : K) :
    0 ≤ max 0 (min x hi) ∧
      max 0 (min x hi) ≤ (if max 0 (min y hi) < max 0 (min x hi) then max 0 (min x hi)
        else max 0 (min y hi)) ∧
      (if max 0 (min y hi) < max 0 (min x hi) then max 0 (min x hi) else max 0 (min y hi)) ≤ hi := by
  have hle : ∀ z : K, max 0 (min z hi) ≤ hi := fun z => max_le hhi (min_le_right z hi)
  refine ⟨le_max_left _ _, ?_, ?_⟩
  · split
    · exact le_rfl
    · rename_i hlt
      exact not_lt.mp hlt
  · split
    · exact hle x
    · exact hle y

theorem clipBox_inImage {W H : ℕ} (hW : 0 < W) (hH : 0 < H) (b : Aabb K) :
    InImage W H (clipBox b W H) := by
  obtain ⟨hx₀, hx, hx₁⟩ := clip_axis (sub_one_nonneg (K := K) hW) b.x1 b.x2
  obtain ⟨hy₀, hy, hy₁⟩ := clip_axis (sub_one_nonneg (K := K) hH) b.y1 b.y2
  exact ⟨hx₀, hx, hx₁, hy₀, hy, hy₁⟩

omit [IsStrictOrderedRing K] in
/-- A box inside of the image is not clipped. -/
theorem InImage.clipBox_eq {W H : ℕ} {b : Aabb K} (hb : InImage W H b) : clipBox b W H = b := by
  have hclip : ∀ z hi : K, 0 ≤ z → z ≤ hi → max 0 (min z hi) = z := fun z hi h₀ h₁ => by
    rw [min_eq_left h₁, max_eq_right h₀]
  have hx₁ := hclip b.x1 _ hb.x1_nonneg (hb.x1_le_x2.trans hb.x2_le)
  have hx₂ := hclip b.x2 _ (hb.x1_nonneg.trans hb.x1_le_x2) hb.x2_le
  have hy₁ := hclip b.y1 _ hb.y1_nonneg (hb.y1_le_y2.trans hb.y2_le)
  have hy₂ := hclip b.y2 _ (hb.y1_nonneg.trans hb.y1_le_y2) hb.y2_le
  simp only [clipBox, hx₁, hx₂, hy₁, hy₂, if_neg (not_lt.mpr hb.x1_le_x2),
    if_neg (not_lt.mpr hb.y1_le_y2)]

variable [FloorRing K]

/-- The box with the written numbers. -/
def roundedBox (b : Aabb K) : Aabb K :=
  ⟨(pyRound b.x1 : K), (pyRound b.y1 : K), (pyRound b.x2 : K), (pyRound b.y2 : K)⟩

/-- The straight box that the conversion writes for a box. -/
def snapped (W H : ℕ) (b : Aabb K) : Aabb K := roundedBox (clipBox b W H)

/-- The image ends at an integer, so rounding does not leave it. -/
theorem pyRound_cast_le {W : ℕ} (hW : 0 < W) {x : K} (hx : x ≤ W - 1) :
    (pyRound x : K) ≤ W - 1 := by
  have hcast : ((W : K) - 1) = ((W - 1 : ℕ) : ℤ) := by
    rw [Int.cast_natCast, Nat.cast_pred hW]
  rw [hcast] at hx ⊢
  have hmono := pyRound_mono hx
  rw [pyRound_intCast] at hmono
  exact Int.cast_le.mpr hmono

theorem InImage.roundedBox {W H : ℕ} (hW : 0 < W) (hH : 0 < H) {b : Aabb K} (hb : InImage W H b) :
    InImage W H (roundedBox b) where
  x1_nonneg := Int.cast_nonneg (pyRound_nonneg hb.x1_nonneg)
  x1_le_x2 := Int.cast_le.mpr (pyRound_mono hb.x1_le_x2)
  x2_le := pyRound_cast_le hW hb.x2_le
  y1_nonneg := Int.cast_nonneg (pyRound_nonneg hb.y1_nonneg)
  y1_le_y2 := Int.cast_le.mpr (pyRound_mono hb.y1_le_y2)
  y2_le := pyRound_cast_le hH hb.y2_le

theorem snapped_inImage {W H : ℕ} (hW : 0 < W) (hH : 0 < H) (b : Aabb K) :
    InImage W H (snapped W H b) := (clipBox_inImage hW hH b).roundedBox hW hH

/-- The numbers that were written are written again. -/
theorem bndboxLeaves_roundedBox (b : Aabb K) (leaves : List Leaf) :
    bndboxLeaves (roundedBox b) leaves = bndboxLeaves b leaves := by
  have htext : ∀ x : K, intText ((pyRound x : ℤ) : K) = intText x := fun x => by
    rw [intText, pyRound_intCast, intText]
  show setLeaf "ymax" (intText (pyRound b.y2 : K)) (setLeaf "xmax" (intText (pyRound b.x2 : K))
    (setLeaf "ymin" (intText (pyRound b.y1 : K)) (setLeaf "xmin" (intText (pyRound b.x1 : K))
      leaves))) = _
  rw [htext, htext, htext, htext]
  rfl

end

/-! ### An object -/

section
variable {K : Type} [Field K] [LinearOrder K] [FloorRing K]

/-- The texts of `bndbox`. -/
def bndboxFields (b : Aabb K) : List (String × String) :=
  [("xmin", intText b.x1), ("ymin", intText b.y1), ("xmax", intText b.x2), ("ymax", intText b.y2)]

theorem nodup_bndboxFields (b : Aabb K) : ((bndboxFields b).map Prod.fst).Nodup := by
  show ["xmin", "ymin", "xmax", "ymax"].Nodup
  decide

/-- `write_voc_bndbox` as an update of the object. -/
def bndboxEdit (b : Aabb K) : KeyEdit Child.tag :=
  leavesEdit "bndbox" (bndboxFields b) (nodup_bndboxFields b)

/-- The other elements of the object stay. -/
theorem find_writeVocBndbox_of_ne (o : ObjectElement) (b : Aabb K) {tag : String}
    (htag : tag ≠ "bndbox") : (writeVocBndbox o b).find tag = o.find tag :=
  find?_updateFirst_of_ne (bndboxEdit b).key_f (bndboxEdit b).key_fresh htag o.children

theorem findtext_writeVocBndbox_of_ne (o : ObjectElement) (b : Aabb K) {tag : String}
    (htag : tag ≠ "bndbox") : (writeVocBndbox o b).findtext tag = o.findtext tag := by
  rw [ObjectElement.findtext, find_writeVocBndbox_of_ne o b htag, ObjectElement.findtext]

/-- Writing the same box again changes nothing. -/
theorem writeVocBndbox_writeVocBndbox (o : ObjectElement) (b : Aabb K) :
    writeVocBndbox (writeVocBndbox o b) b = writeVocBndbox o b := by
  have hsettled := settled_updateFirst (bndboxEdit b).key_f (bndboxEdit b).key_fresh
    (bndboxEdit b).idem o.children
  exact congrArg (fun children => { o with children := children }) hsettled.updateFirst_eq

end

section
variable {K : Type} (txt : PyTexts K)

/-- `float` reads the texts of the natural numbers. -/
def ReadsNat [Field K] : Prop := ∀ k : ℕ, txt.float (toString k) = some (k : K)

variable {txt}

theorem floatOf_eq {node : Child} {tag text : String} {x : K} (hfind : node.findtext tag = some text)
    (hne : text ≠ "") (hx : txt.float text = some x) : floatOf txt node tag = .ok x := by
  unfold floatOf
  simp only [hfind, if_neg hne, hx]

/-- A number has digits. -/
theorem toString_ne_empty (k : ℕ) : toString k ≠ "" := by
  intro h
  have hdigits : (toString k).toList = Nat.toDigits 10 k := String.toList_ofList
  rw [h] at hdigits
  exact Nat.toDigits_ne_nil hdigits.symm

variable [Field K] [LinearOrder K] [FloorRing K]

/-- The text of a written number that is not negative. -/
theorem floatOf_intText (hread : ReadsNat txt) {node : Child} {tag : String} {x : K}
    (hfind : node.findtext tag = some (intText x)) (hx : 0 ≤ pyRound x) :
    floatOf txt node tag = .ok (pyRound x : K) := by
  obtain ⟨k, hk⟩ := Int.eq_ofNat_of_zero_le hx
  have htext : intText x = toString k := by
    rw [intText, hk]
    rfl
  rw [htext] at hfind
  rw [floatOf_eq hfind (toString_ne_empty k) (hread k), hk, Int.cast_natCast]

/-- What is read from the box that was written. -/
theorem readBnd_written [IsStrictOrderedRing K] (hread : ReadsNat txt) {W H : ℕ} {b : Aabb K} (hb : InImage W H b)
    (o : ObjectElement) :
    ∃ bnd, (writeVocBndbox o b).find "bndbox" = some bnd ∧
      readBnd txt bnd = .ok (roundedBox b) := by
  have hfind : (writeVocBndbox o b).find "bndbox" = some (onLeaves (bndboxLeaves b)
      ((o.children.find? fun c => c.tag = "bndbox").getD (.group "bndbox" "" [] ""))) :=
    find?_updateFirst (bndboxEdit b).key_f (bndboxEdit b).key_fresh o.children
  refine ⟨_, hfind, ?_⟩
  have htext : ∀ {tag text}, (tag, text) ∈ bndboxFields b → ∀ c : Child,
      (onLeaves (bndboxLeaves b) c).findtext tag = some text := fun hmem c =>
    findtext_onLeaves (nodup_bndboxFields b) hmem c
  have hx₂ := pyRound_nonneg (hb.x1_nonneg.trans hb.x1_le_x2)
  have hy₂ := pyRound_nonneg (hb.y1_nonneg.trans hb.y1_le_y2)
  unfold readBnd
  rw [floatOf_intText hread (htext (by simp [bndboxFields]) _) (pyRound_nonneg hb.x1_nonneg),
    floatOf_intText hread (htext (by simp [bndboxFields]) _) (pyRound_nonneg hb.y1_nonneg),
    floatOf_intText hread (htext (by simp [bndboxFields]) _) hx₂,
    floatOf_intText hread (htext (by simp [bndboxFields]) _) hy₂]
  rfl

end

end W2Net.Proofs.Wake2voc
