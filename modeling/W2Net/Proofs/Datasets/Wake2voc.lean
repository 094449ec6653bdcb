import Mathlib.Data.List.Dedup
import W2Net.Lib.Decimal
import W2Net.Proofs.Datasets.VocBox

/-!
# `W2Net.Proofs.Datasets.Wake2voc`: the conversion keeps what is read

The conversion of an annotation file by `wake2voc.py`, for any objects and any size of the image.

* `convertXml_converted`: a second conversion changes nothing, and every object that counts has a
  straight box of integers inside of the image.
* `readObjects_converted`: the readers of the two datasets get the same rotated boxes and labels
  as before. A straight box is clipped and rounded.
* `imageSets_read`: the lists of images are a partition of the converted files, and are read back
  as they were written.
-/

set_option autoImplicit false

namespace W2Net.Proofs.Wake2voc

open W2Net.AnnotationXml W2Net.Wake2voc
open W2Net.WakeDataset (PyTexts ObjectBox readRobnd readBnd isDifficult objectName classToInd
  readBox parseObject readObjects parseObjects imageIds)

/-! ### The conversion of an object -/

section
variable {K : Type} [Field K] [LinearOrder K] [IsStrictOrderedRing K] [FloorRing K]
  {m : PyMath K} {txt : PyTexts K} {W H : ℕ} {o o' : ObjectElement}

/-- The box that an object is read from, as the conversion reads it. -/
inductive Source (m : PyMath K) (txt : PyTexts K) (o : ObjectElement) (b : Aabb K) : Prop where
  | robnd (robnd : Child) (r : RowXywha K) (hfind : o.find "robndbox" = some robnd)
      (hread : readRobnd txt robnd = .ok r) (hb : b = polyToAabb (rboxToPoly m r))
  | bnd (bnd : Child) (hrobnd : o.find "robndbox" = none) (hfind : o.find "bndbox" = some bnd)
      (hread : readBnd txt bnd = .ok b)

theorem toOption_eq_some {ε β : Type} {x : Except ε β} {b : β} (h : x.toOption = some b) :
    x = .ok b := by
  cases x with
  | error e => cases h
  | ok b' => exact congrArg Except.ok (Option.some.inj h)

omit [IsStrictOrderedRing K] in
/-- What the body of the loop does to an object that counts. -/
theorem convertObject_cases (h : convertObject m txt W H o = some o') :
    isDifficult txt o = false ∧
      ∃ b, Source m txt o b ∧ o' = writeVocBndbox o (clipBox b W H) := by
  unfold convertObject at h
  split at h
  · cases h
  · rename_i hdiff
    refine ⟨Bool.eq_false_iff.mpr hdiff, ?_⟩
    split at h
    · rename_i robnd hfind
      obtain ⟨r, hr, rfl⟩ := Option.map_eq_some_iff.mp h
      exact ⟨_, .robnd robnd r hfind (toOption_eq_some hr) rfl, rfl⟩
    · rename_i hnone
      split at h
      · rename_i bnd hfind
        obtain ⟨b, hb, rfl⟩ := Option.map_eq_some_iff.mp h
        exact ⟨b, .bnd bnd hnone hfind (toOption_eq_some hb), rfl⟩
      · cases h

omit [IsStrictOrderedRing K] in
theorem convertObject_eq {b : Aabb K} (hdiff : isDifficult txt o = false)
    (hsource : Source m txt o b) :
    convertObject m txt W H o = some (writeVocBndbox o (clipBox b W H)) := by
  unfold convertObject
  rw [if_neg (Bool.eq_false_iff.mp hdiff)]
  cases hsource with
  | robnd robnd r hfind hread hb =>
      simp only [hfind, hread, hb, Except.toOption, Option.map_some]
  | bnd bnd hrobnd hfind hread =>
      simp only [hrobnd, hfind, hread, Except.toOption, Option.map_some]

omit [IsStrictOrderedRing K] in
theorem isDifficult_writeVocBndbox (o : ObjectElement) (b : Aabb K) :
    isDifficult txt (writeVocBndbox o b) = isDifficult txt o := by
  rw [isDifficult, findtext_writeVocBndbox_of_ne o b (by decide), isDifficult]

omit [IsStrictOrderedRing K] in
theorem objectName_writeVocBndbox (o : ObjectElement) (b : Aabb K) :
    objectName txt (writeVocBndbox o b) = objectName txt o := by
  rw [objectName, findtext_writeVocBndbox_of_ne o b (by decide), objectName]

/-- A converted object counts again, and stays as it is. -/
theorem convertObject_converted (hread : ReadsNat txt) (hW : 0 < W) (hH : 0 < H)
    (h : convertObject m txt W H o = some o') : convertObject m txt W H o' = some o' := by
  obtain ⟨hdiff, b, hsource, rfl⟩ := convertObject_cases h
  have hdiff' : isDifficult txt (writeVocBndbox o (clipBox b W H)) = false := by
    rw [isDifficult_writeVocBndbox]
    exact hdiff
  have hclip := clipBox_inImage hW hH b
  cases hsource with
  | robnd robnd r hfind hr hb =>
      -- The rotated box is still there, and gives the same straight box.
      have hfind' : (writeVocBndbox o (clipBox b W H)).find "robndbox" = some robnd := by
        rw [find_writeVocBndbox_of_ne o _ (by decide)]
        exact hfind
      rw [convertObject_eq hdiff' (.robnd robnd r hfind' hr hb), writeVocBndbox_writeVocBndbox]
  | bnd bnd hrobnd hfind hb =>
      have hrobnd' : (writeVocBndbox o (clipBox b W H)).find "robndbox" = none := by
        rw [find_writeVocBndbox_of_ne o _ (by decide)]
        exact hrobnd
      obtain ⟨bnd', hfind', hread'⟩ := readBnd_written hread hclip o
      rw [convertObject_eq hdiff' (.bnd bnd' hrobnd' hfind' hread'),
        (hclip.roundedBox hW hH).clipBox_eq]
      -- The rounded numbers have the same texts.
      have hsame : writeVocBndbox (writeVocBndbox o (clipBox b W H)) (roundedBox (clipBox b W H))
          = writeVocBndbox (writeVocBndbox o (clipBox b W H)) (clipBox b W H) := by
        have hleaves : bndboxLeaves (roundedBox (clipBox b W H)) = bndboxLeaves (clipBox b W H) :=
          funext fun leaves => bndboxLeaves_roundedBox _ leaves
        unfold writeVocBndbox
        rw [hleaves]
      rw [hsame, writeVocBndbox_writeVocBndbox]

/-! ### The readers -/

theorem mapM_congr {ε α β : Type} {f g : α → Except ε β} {l : List α} (h : ∀ a ∈ l, f a = g a) :
    l.mapM f = l.mapM g := by
  induction l with
  | nil => rfl
  | cons a l ih =>
      rw [List.forall_mem_cons] at h
      rw [List.mapM_cons, List.mapM_cons, h.1, ih h.2]

/-- A straight box becomes the one that was written. -/
def snap (W H : ℕ) : ObjectBox K → ObjectBox K
  | .robnd r => .robnd r
  | .bnd b => .bnd (snapped W H b)

omit [IsStrictOrderedRing K] in
/-- An object that does not count has no box, or one that stops the reading. -/
theorem readBox_of_none (hdiff : isDifficult txt o = false) (h : convertObject m txt W H o = none)
    (f : ObjectBox K → ObjectBox K) : (readBox txt o).map (Option.map f) = readBox txt o := by
  have hnot : ∀ b, ¬Source m txt o b := fun b hb => by
    rw [convertObject_eq hdiff hb] at h
    cases h
  unfold readBox
  cases hrobnd : o.find "robndbox" with
  | some robnd =>
      cases hr : readRobnd txt robnd with
      | error e => simp only [hr]; rfl
      | ok r => exact absurd (Source.robnd robnd r hrobnd hr rfl) (hnot _)
  | none =>
      cases hbnd : o.find "bndbox" with
      | some bnd =>
          cases hb : readBnd txt bnd with
          | error e => simp only [hb]; rfl
          | ok b => exact absurd (Source.bnd bnd hrobnd hbnd hb) (hnot b)
      | none => rfl

/-- The box of an object after the conversion. -/
theorem readBox_converted (hread : ReadsNat txt) (hW : 0 < W) (hH : 0 < H)
    (hdiff : isDifficult txt o = false) :
    readBox txt ((convertObject m txt W H o).getD o)
      = (readBox txt o).map (Option.map (snap W H)) := by
  cases h : convertObject m txt W H o with
  | none => exact (readBox_of_none hdiff h _).symm
  | some o' =>
      obtain ⟨-, b, hsource, rfl⟩ := convertObject_cases h
      show readBox txt (writeVocBndbox o (clipBox b W H)) = _
      unfold readBox
      rw [find_writeVocBndbox_of_ne o _ (show "robndbox" ≠ "bndbox" by decide)]
      cases hsource with
      | robnd robnd r hfind hr hb =>
          simp only [hfind, hr]
          rfl
      | bnd bnd hrobnd hfind hb =>
          obtain ⟨bnd', hfind', hread'⟩ := readBnd_written hread (clipBox_inImage hW hH b) o
          simp only [hrobnd, hfind, hfind', hb, hread']
          rfl

omit [IsStrictOrderedRing K] in
/-- A rotated box stays as it is. -/
theorem readBox_of_robnd (h : (o.find "robndbox").isSome = true) :
    (readBox txt o).map (Option.map (snap W H)) = readBox txt o := by
  obtain ⟨robnd, hrobnd⟩ := Option.isSome_iff_exists.mp h
  unfold readBox
  simp only [hrobnd]
  cases readRobnd txt robnd with
  | error e => rfl
  | ok r => rfl

omit [IsStrictOrderedRing K] in
theorem isDifficult_converted (o : ObjectElement) :
    isDifficult txt ((convertObject m txt W H o).getD o) = isDifficult txt o := by
  cases h : convertObject m txt W H o with
  | none => rfl
  | some o' =>
      obtain ⟨-, b, -, rfl⟩ := convertObject_cases h
      exact isDifficult_writeVocBndbox o _

omit [IsStrictOrderedRing K] in
theorem objectName_converted (o : ObjectElement) :
    objectName txt ((convertObject m txt W H o).getD o) = objectName txt o := by
  cases h : convertObject m txt W H o with
  | none => rfl
  | some o' =>
      obtain ⟨-, b, -, rfl⟩ := convertObject_cases h
      exact objectName_writeVocBndbox o _

/-- What the wake dataset reads of an object after the conversion. -/
theorem parseObject_converted (hread : ReadsNat txt) (hW : 0 < W) (hH : 0 < H)
    (classes : List String) (o : ObjectElement) :
    parseObject txt classes ((convertObject m txt W H o).getD o)
      = (parseObject txt classes o).map (Option.map (Prod.map (snap W H) id)) := by
  unfold parseObject
  rw [isDifficult_converted, objectName_converted]
  cases hdiff : isDifficult txt o with
  | true => rfl
  | false =>
      rw [readBox_converted hread hW hH hdiff]
      cases objectName txt o with
      | error e => rfl
      | ok name =>
          dsimp only [bind, Except.bind]
          cases classToInd classes name with
          | none => rfl
          | some clsId =>
              cases readBox txt o with
              | error e => rfl
              | ok box =>
                  cases box with
                  | none => rfl
                  | some box => rfl

/-- The comprehension over the objects. Induction on the objects. -/
theorem readObjects_map_converted (hread : ReadsNat txt) (hW : 0 < W) (hH : 0 < H)
    (classes : List String) (objects : List ObjectElement) :
    readObjects txt classes (objects.map fun o => (convertObject m txt W H o).getD o)
      = (readObjects txt classes objects).map (List.map (Prod.map (snap W H) id)) := by
  have hmapM : (objects.map fun o => (convertObject m txt W H o).getD o).mapM
        (parseObject txt classes)
      = (objects.mapM (parseObject txt classes)).map
          (List.map (Option.map (Prod.map (snap W H) id))) := by
    induction objects with
    | nil => rfl
    | cons o objects ih =>
        rw [List.map_cons, List.mapM_cons, List.mapM_cons, ih,
          parseObject_converted hread hW hH classes o]
        cases parseObject txt classes o with
        | error e => rfl
        | ok parsed =>
            cases objects.mapM (parseObject txt classes) with
            | error e => rfl
            | ok rest => rfl
  unfold readObjects
  rw [hmapM]
  cases objects.mapM (parseObject txt classes) with
  | error e => rfl
  | ok parsed =>
      show Except.ok ((parsed.map _).filterMap id) = Except.ok ((parsed.filterMap id).map _)
      rw [List.filterMap_map, List.map_filterMap]
      rfl

omit [IsStrictOrderedRing K] in
/-- What the reader of `datasets/hrsc_dataset.py` gets of an object: it does not read `bndbox`. -/
theorem vocObject_converted (num : PyNumbers K) (o : ObjectElement) :
    vocObject num ((convertObject m txt W H o).getD o) = vocObject num o := by
  cases h : convertObject m txt W H o with
  | none => rfl
  | some o' =>
      obtain ⟨-, b, -, rfl⟩ := convertObject_cases h
      show vocObject num (writeVocBndbox o (clipBox b W H)) = _
      rw [vocObject, findtext_writeVocBndbox_of_ne o _ (by decide),
        findtext_writeVocBndbox_of_ne o _ (by decide), find_writeVocBndbox_of_ne o _ (by decide),
        vocObject]

/-! ### The file -/

/-- The texts of `size`. -/
def sizeFields (W H : ℕ) : List (String × String) :=
  [("width", toString W), ("height", toString H), ("depth", "3")]

theorem nodup_sizeFields (W H : ℕ) : ((sizeFields W H).map Prod.fst).Nodup := by
  show ["width", "height", "depth"].Nodup
  decide

/-- The updates of the elements in front of the objects. -/
def headerEdits (filename path : String) (W H : ℕ) : List (KeyEdit Child.tag) :=
  [textEdit "folder" "JPEGImages", textEdit "filename" filename, textEdit "path" path,
    leavesEdit "size" (sizeFields W H) (nodup_sizeFields W H)]

theorem convertHeader_convertHeader (filename path : String) (W H : ℕ) (header : List Child) :
    convertHeader filename path W H (convertHeader filename path W H header)
      = convertHeader filename path W H header := by
  have hnodup : ((headerEdits filename path W H).map KeyEdit.k).Nodup := by
    show ["folder", "filename", "path", "size"].Nodup
    decide
  exact updateEach_updateEach hnodup header

omit [IsStrictOrderedRing K] in
theorem convertXml_cases {filename path : String} {a a' : Annotation}
    (h : convertXml m txt filename path W H a = some a') :
    a' = ⟨convertHeader filename path W H a.header,
        a.objects.map fun o => (convertObject m txt W H o).getD o⟩ ∧
      ∃ o ∈ a.objects, (convertObject m txt W H o).isSome = true := by
  unfold convertXml at h
  split at h
  · cases h
  · dsimp only at h
    split at h
    · cases h
    · rename_i hvalid
      exact ⟨(Option.some.inj h).symm, List.countP_pos_iff.mp (Nat.pos_of_ne_zero hvalid)⟩

omit [IsStrictOrderedRing K] in
theorem convertXml_eq (filename path : String) {a : Annotation} {o : ObjectElement}
    (ho : o ∈ a.objects) (hcount : (convertObject m txt W H o).isSome = true) :
    convertXml m txt filename path W H a = some ⟨convertHeader filename path W H a.header,
      a.objects.map fun o => (convertObject m txt W H o).getD o⟩ := by
  have hlen : a.objects.length ≠ 0 := (List.length_pos_of_mem ho).ne'
  have hvalid : (a.objects.countP fun o => (convertObject m txt W H o).isSome) ≠ 0 :=
    (List.countP_pos_iff.mpr ⟨o, ho, hcount⟩).ne'
  unfold convertXml
  rw [if_neg hlen]
  exact if_neg hvalid

/-- The conversion of a converted file changes nothing, and each object that counts has a straight
box of integers inside of the image. -/
theorem convertXml_converted (hread : ReadsNat txt) (hW : 0 < W) (hH : 0 < H)
    {filename path : String} {a a' : Annotation}
    (h : convertXml m txt filename path W H a = some a') :
    convertXml m txt filename path W H a' = some a' ∧
      ∀ o ∈ a'.objects, (convertObject m txt W H o).isSome = true →
        ∃ bnd b, o.find "bndbox" = some bnd ∧ readBnd txt bnd = .ok b ∧ roundedBox b = b ∧
          InImage W H b := by
  obtain ⟨rfl, o, ho, hcount⟩ := convertXml_cases h
  -- A second round leaves every object.
  have hagain : ∀ o, convertObject m txt W H ((convertObject m txt W H o).getD o)
      = convertObject m txt W H o := by
    intro o
    cases ho : convertObject m txt W H o with
    | none => exact ho
    | some o' => exact convertObject_converted hread hW hH ho
  constructor
  · have ho' := List.mem_map_of_mem (f := fun o => (convertObject m txt W H o).getD o) ho
    have hcount' : (convertObject m txt W H ((convertObject m txt W H o).getD o)).isSome = true := by
      rw [hagain o]
      exact hcount
    refine (convertXml_eq filename path ho' hcount').trans ?_
    rw [convertHeader_convertHeader, List.map_map]
    congr 2
    refine List.map_congr_left fun o _ => ?_
    show (convertObject m txt W H ((convertObject m txt W H o).getD o)).getD
      ((convertObject m txt W H o).getD o) = _
    rw [hagain o]
    cases convertObject m txt W H o with
    | none => rfl
    | some o' => rfl
  · intro o₁ ho₁ hcount₁
    obtain ⟨o₀, -, rfl⟩ := List.mem_map.mp ho₁
    rw [hagain o₀] at hcount₁
    obtain ⟨o', ho'⟩ := Option.isSome_iff_exists.mp hcount₁
    obtain ⟨-, b, -, rfl⟩ := convertObject_cases ho'
    have hclip := clipBox_inImage hW hH b
    obtain ⟨bnd, hfind, hbnd⟩ := readBnd_written hread hclip o₀
    refine ⟨bnd, _, ?_, hbnd, ?_, hclip.roundedBox hW hH⟩
    · rw [ho']
      exact hfind
    · simp only [roundedBox, pyRound_intCast]

/-- What the two datasets read of a converted file. The wake dataset gets the same objects with
the same labels or the same error, where a straight box is the clipped and rounded one. The HRSC
dataset gets the same objects. -/
theorem readObjects_converted (hread : ReadsNat txt) (hW : 0 < W) (hH : 0 < H)
    {filename path : String} {a a' : Annotation}
    (h : convertXml m txt filename path W H a = some a') :
    (∀ classes, readObjects txt classes a'.objects
      = (readObjects txt classes a.objects).map (List.map (Prod.map (snap W H) id))) ∧
    ((∀ o ∈ a.objects, (o.find "robndbox").isSome = true) → ∀ classes format,
      parseObjects m txt classes format a'.objects
        = parseObjects m txt classes format a.objects) ∧
    ∀ num : PyNumbers K, a'.objects.map (vocObject num) = a.objects.map (vocObject num) := by
  obtain ⟨rfl, -⟩ := convertXml_cases h
  have hreads := fun classes => readObjects_map_converted (m := m) hread hW hH classes a.objects
  refine ⟨hreads, fun hrobnd classes format => ?_, fun num => ?_⟩
  · have hsame : (a.objects.map fun o => (convertObject m txt W H o).getD o).mapM
        (parseObject txt classes) = a.objects.mapM (parseObject txt classes) := by
      rw [List.mapM_map]
      refine mapM_congr fun o ho => ?_
      show parseObject txt classes ((convertObject m txt W H o).getD o) = _
      unfold parseObject
      rw [isDifficult_converted, objectName_converted]
      cases hdiff : isDifficult txt o with
      | true => rfl
      | false => rw [readBox_converted hread hW hH hdiff, readBox_of_robnd (hrobnd o ho)]
    unfold parseObjects readObjects
    rw [hsame]
  · rw [List.map_map]
    exact List.map_congr_left fun o _ => vocObject_converted num o

end

/-! ### A file -/

/-- Numbers as they are printed. -/
def ratTexts : PyTexts ℚ where
  float s := readDecimal s.toList
  eval _ := .error .valueError
  int s := s.toInt?
  lower s := s

theorem readsNat_ratTexts : ReadsNat ratTexts := by
  intro k
  have hdigits : (toString k).toList = Nat.toDigits 10 k := String.toList_ofList
  have hunsigned : unsigned 0 k = Nat.toDigits 10 k := by simp [unsigned]
  have hsign : ∀ c ∈ Nat.toDigits 10 k, c ≠ '-' := fun c hc heq => by
    have hdigit := isDigit_of_mem_toDigits hc
    rw [heq] at hdigit
    exact absurd hdigit (by decide)
  show readDecimal (toString k).toList = some (k : ℚ)
  rw [hdigits, readDecimal_of_unsigned hsign, ← hunsigned, readUnsigned_unsigned, pow_zero,
    div_one]

/-- The rotated box of `wideObject`. -/
def wideBox : Child :=
  .group "robndbox" ""
    [⟨"cx", "5", ""⟩, ⟨"cy", "4", ""⟩, ⟨"w", "30", ""⟩, ⟨"h", "2", ""⟩, ⟨"angle", "0", ""⟩] ""

/-- An object whose rotated box reaches over both sides of an image of 20 columns. -/
def wideObject : ObjectElement := ⟨"", [wideBox], []⟩

theorem readRobnd_wideBox : readRobnd ratTexts wideBox = .ok ⟨5, 4, 30, 2, 0⟩ := by
  have hcx : wideBox.findtext "cx" = some (toString 5) := rfl
  have hcy : wideBox.findtext "cy" = some (toString 4) := rfl
  have hw : wideBox.findtext "w" = some (toString 30) := rfl
  have hh : wideBox.findtext "h" = some (toString 2) := rfl
  have hangle : wideBox.findtext "angle" = some (toString 0) := rfl
  unfold readRobnd
  rw [floatOf_eq hcx (toString_ne_empty 5) (readsNat_ratTexts 5),
    floatOf_eq hcy (toString_ne_empty 4) (readsNat_ratTexts 4),
    floatOf_eq hw (toString_ne_empty 30) (readsNat_ratTexts 30),
    floatOf_eq hh (toString_ne_empty 2) (readsNat_ratTexts 2),
    floatOf_eq hangle (toString_ne_empty 0) (readsNat_ratTexts 0)]
  rfl

theorem wideObject_counts (W H : ℕ) :
    (convertObject PyMath.rat ratTexts W H wideObject).isSome = true := by
  rw [convertObject_eq rfl (.robnd wideBox ⟨5, 4, 30, 2, 0⟩ rfl readRobnd_wideBox rfl)]
  rfl

/-- A file with this object, in an image of 20 columns and 10 rows: the second conversion leaves
it. -/
theorem convertXml_converted_wideObject :
    ∃ a', convertXml PyMath.rat ratTexts "1.jpg" "JPEGImages/1.jpg" 20 10 ⟨[], [wideObject]⟩
        = some a' ∧
      convertXml PyMath.rat ratTexts "1.jpg" "JPEGImages/1.jpg" 20 10 a' = some a' := by
  have hok := convertXml_eq "1.jpg" "JPEGImages/1.jpg" (a := ⟨[], [wideObject]⟩)
    List.mem_cons_self (wideObject_counts 20 10)
  exact ⟨_, hok, (convertXml_converted readsNat_ratTexts (by decide) (by decide) hok).1⟩

/-- The wake dataset reads the same box in all formats. -/
theorem readObjects_converted_wideObject :
    ∃ a', convertXml PyMath.rat ratTexts "1.jpg" "JPEGImages/1.jpg" 20 10 ⟨[], [wideObject]⟩
        = some a' ∧
      ∀ format, parseObjects PyMath.rat ratTexts ["__background__", "wake"] format a'.objects
        = parseObjects PyMath.rat ratTexts ["__background__", "wake"] format [wideObject] := by
  have hok := convertXml_eq "1.jpg" "JPEGImages/1.jpg" (a := ⟨[], [wideObject]⟩)
    List.mem_cons_self (wideObject_counts 20 10)
  have hrobnd : ∀ o ∈ [wideObject], (o.find "robndbox").isSome = true := fun o ho => by
    rw [List.mem_singleton.mp ho]
    rfl
  exact ⟨_, hok, (readObjects_converted readsNat_ratTexts (by decide) (by decide) hok).2.1 hrobnd _⟩

/-! ### The lists of images -/

/-- A name that a line of a list can hold: one line, without white space at its ends. -/
structure LineName (id : Text) : Prop where
  ne_nil : id ≠ []
  noFeed : '\n' ∉ id
  noReturn : '\r' ∉ id
  head : ∀ c ∈ id.head?, Text.isSpace c = false
  last : ∀ c ∈ id.getLast?, Text.isSpace c = false

/-- A list is read as it was written. -/
theorem imageIds_unlines {ids : List Text} (hids : ∀ id ∈ ids, LineName id) :
    imageIds (Text.unlines ids) = ids := by
  have hlines : Text.readlines (Text.unlines ids) = ids :=
    Text.readlines_unlines (fun id h => (hids id h).noFeed) fun id h => (hids id h).noReturn
  have hstrip : ids.map Text.strip = ids :=
    (List.map_congr_left fun id h => Text.strip_eq_self (hids id h).head (hids id h).last).trans
      (List.map_id ids)
  rw [imageIds, hlines, hstrip]
  exact List.filter_eq_self.mpr fun id h => decide_eq_true (hids id h).ne_nil

/-- Four fifths, rounded down. -/
theorem trainCount_eq (n : ℕ) : trainCount n = 4 * n / 5 := by
  have hnonneg : (0 : ℚ) ≤ 4 / 5 * n := by positivity
  have hfloor : ⌊(4 / 5 * n : ℚ)⌋ = ((4 * n / 5 : ℕ) : ℤ) := by
    have hdiv : (5 : ℚ) * (4 * n / 5 : ℕ) + (4 * n % 5 : ℕ) = 4 * n := by
      exact_mod_cast Nat.div_add_mod (4 * n) 5
    have hmod : ((4 * n % 5 : ℕ) : ℚ) < 5 := by
      exact_mod_cast Nat.mod_lt (4 * n) (by decide)
    have hmod₀ : (0 : ℚ) ≤ (4 * n % 5 : ℕ) := Nat.cast_nonneg _
    rw [Int.floor_eq_iff, Int.cast_natCast]
    constructor
    · linarith
    · linarith
  rw [trainCount, pyTrunc, if_pos hnonneg, hfloor, Int.toNat_natCast]

/-- The lists of the images, as the dataset reads them: the two parts are the whole list, every
converted file is in exactly one of them, once, and the first part has four fifths of the files. -/
theorem imageSets_read {shuffle : List Text → List Text} (hshuffle : ∀ ids, (shuffle ids).Perm ids)
    {okIds : List Text} (hids : ∀ id ∈ okIds, LineName id) :
    imageIds (imageSets shuffle okIds).train ++ imageIds (imageSets shuffle okIds).val
        = imageIds (imageSets shuffle okIds).trainval ∧
      (∀ id, id ∈ okIds ↔ id ∈ imageIds (imageSets shuffle okIds).trainval) ∧
      (imageIds (imageSets shuffle okIds).trainval).Nodup ∧
      (imageIds (imageSets shuffle okIds).train).length = 4 * okIds.dedup.length / 5 := by
  have hperm : (shuffle (sortedIds okIds)).Perm okIds.dedup :=
    (hshuffle _).trans (List.mergeSort_perm _ _)
  have hmem : ∀ id, id ∈ okIds ↔ id ∈ shuffle (sortedIds okIds) := fun id => by
    rw [hperm.mem_iff, List.mem_dedup]
  have hall : ∀ id ∈ shuffle (sortedIds okIds), LineName id := fun id h => hids id ((hmem id).mpr h)
  have htrain : imageIds (imageSets shuffle okIds).train
      = (shuffle (sortedIds okIds)).take (trainCount (shuffle (sortedIds okIds)).length) :=
    imageIds_unlines fun id h => hall id (List.mem_of_mem_take h)
  have hval : imageIds (imageSets shuffle okIds).val
      = (shuffle (sortedIds okIds)).drop (trainCount (shuffle (sortedIds okIds)).length) :=
    imageIds_unlines fun id h => hall id (List.mem_of_mem_drop h)
  have htrainval : imageIds (imageSets shuffle okIds).trainval = shuffle (sortedIds okIds) :=
    imageIds_unlines hall
  rw [htrain, hval, htrainval]
  refine ⟨List.take_append_drop _ _, hmem, hperm.nodup_iff.mpr (List.nodup_dedup okIds), ?_⟩
  rw [List.length_take, hperm.length_eq, trainCount_eq]
  exact min_eq_left (by omega)

/-- Two files, and the name of one of them twice. -/
theorem imageSets_read_two :
    (imageIds (imageSets List.reverse ["b".toList, "a".toList, "b".toList]).trainval).Nodup ∧
      (imageIds (imageSets List.reverse ["b".toList, "a".toList, "b".toList]).train).length = 1 := by
  have hids : ∀ id ∈ ["b".toList, "a".toList, "b".toList], LineName id := by
    have hchar : ∀ c : Char, Text.isSpace c = false → LineName [c] := by
      intro c hc
      have hne : ∀ d, Text.isSpace d = true → d ∉ [c] := by
        intro d hd hmem
        rw [List.mem_singleton.mp hmem, hc] at hd
        cases hd
      refine ⟨List.cons_ne_nil c [], hne _ rfl, hne _ rfl, fun d hd => ?_, fun d hd => ?_⟩
      · cases hd
        exact hc
      · cases hd
        exact hc
    exact List.forall_mem_cons.mpr ⟨hchar 'b' rfl, List.forall_mem_cons.mpr ⟨hchar 'a' rfl,
      List.forall_mem_singleton.mpr (hchar 'b' rfl)⟩⟩
  obtain ⟨-, -, hnodup, hlen⟩ := imageSets_read List.reverse_perm hids
  exact ⟨hnodup, hlen⟩

end W2Net.Proofs.Wake2voc
