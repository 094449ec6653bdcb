import W2Net.Datasets.Wake2gt
import W2Net.Proofs.Datasets.AnnotationXml

/-!
# `W2Net.Proofs.Datasets.Wake2gt`: ground truth and training labels of one file

`convert_swim_gt` writes a line for every object, always with the name `wake`. The
dataset skips objects with an unknown class or without numbers.

`labels_agree_iff` compares the two. What the dataset returns is never marked
(`difficult_of_parse`), so the boxes are a part of the unmarked lines, and the two agree
when no unmarked object is skipped.
-/

set_option autoImplicit false

namespace W2Net.Proofs.Wake2gt

open W2Net.AnnotationXml
open W2Net.HrscDataset (Level Roidb VocObject classes classToInd parseVocObject)
open W2Net.Proofs.AnnotationXml
open W2Net.Wake2gt

/-! ### A filtered list next to another one -/

section
variable {α β γ : Type} {S : α → β → Prop} {g : α → Option γ} {p : β → Bool}

theorem length_filterMap_le {l : List α} {l' : List β} (h : List.Forall₂ S l l')
    (hg : ∀ a b, S a b → (g a).isSome → p b = true) :
    (l.filterMap g).length ≤ (l'.filter p).length := by
  induction h with
  | nil => exact Nat.le_refl 0
  | @cons a b l l' hab _ ih =>
      cases hga : g a with
      | none =>
          rw [List.filterMap_cons_none hga]
          exact ih.trans ((List.sublist_cons_self b l').filter p).length_le
      | some c =>
          rw [List.filterMap_cons_some hga, List.filter_cons_of_pos (hg a b hab (by rw [hga]; rfl))]
          exact Nat.succ_le_succ ih

/-- When what `g` keeps is kept by the filter, the kept entries correspond only if `g` keeps
all that the filter does. -/
theorem forall₂_filter_filterMap_iff {R : β → γ → Prop} {l : List α} {l' : List β}
    (h : List.Forall₂ S l l') (hg : ∀ a b, S a b → (g a).isSome → p b = true) :
    List.Forall₂ R (l'.filter p) (l.filterMap g) ↔
      List.Forall₂ (fun a b => p b = true → ∃ c, g a = some c ∧ R b c) l l' := by
  induction h with
  | nil => exact ⟨fun _ => List.Forall₂.nil, fun _ => List.Forall₂.nil⟩
  | @cons a b l l' hab hl ih =>
      rw [List.forall₂_cons, ← ih]
      cases hga : g a with
      | some c =>
          have hp := hg a b hab (by rw [hga]; rfl)
          rw [List.filterMap_cons_some hga, List.filter_cons_of_pos hp, List.forall₂_cons]
          simp [hp]
      | none =>
          rw [List.filterMap_cons_none hga]
          cases hp : p b with
          | false =>
              rw [List.filter_cons_of_neg (by simp [hp])]
              simp
          | true =>
              -- The filter keeps one more entry than `g`.
              have hle := length_filterMap_le hl hg
              rw [List.filter_cons_of_pos hp]
              constructor
              · intro hR
                have hlen := hR.length_eq
                rw [List.length_cons] at hlen
                omega
              · rintro ⟨hb, -⟩
                obtain ⟨c, hc, -⟩ := hb rfl
                cases hc

theorem forall₂_iff_forall {R : α → β → Prop} {P : α → Prop} {l : List α} {l' : List β}
    (h : List.Forall₂ S l l') (hR : ∀ a b, S a b → (R a b ↔ P a)) :
    List.Forall₂ R l l' ↔ ∀ a ∈ l, P a := by
  induction h with
  | nil => exact ⟨fun _ a ha => (nomatch ha), fun _ => List.Forall₂.nil⟩
  | @cons a b l l' hab _ ih => rw [List.forall₂_cons, hR a b hab, ih, List.forall_mem_cons]

end

/-! ### One object -/

variable {K : Type} [Field K] [LinearOrder K] [FloorRing K] {ops : CornerOps K} {num : PyNumbers K}
  {level : Level} {evalDifficult : Bool} {o : ObjectElement}

/-- The text in which the fields of an object are searched. -/
def piece (o : ObjectElement) : Text := Text.ofTokens o.tokens

/-- The five numbers of an object, as the converter reads them. -/
def readNumbers (num : PyNumbers K) (o : ObjectElement) : PyM (RowXywha K) := do
  let cx ← num.eval (field (piece o) "cx" 4)
  let cy ← num.eval (field (piece o) "cy" 4)
  let w ← num.eval (field (piece o) "w" 3)
  let h ← num.eval (field (piece o) "h" 3)
  let a ← num.eval (field (piece o) "angle" 7)
  .ok ⟨cx, cy, w, h, a⟩

/-- The box with rounded centre and sides. -/
def rounded (box : RowXywha K) : RowXywha K :=
  ⟨(pyRound box.cx : K), (pyRound box.cy : K), (pyRound box.w : K), (pyRound box.h : K), box.a⟩

/-- The dataset returns this object with the class `wake`. -/
structure Accepted (level : Level) (num : PyNumbers K) (o : ObjectElement) : Prop where
  unmarked : (o.findtext "difficult").map (fun diff => Text.strip diff.toList) ≠ some ['1']
  level : level = .one
  name : o.findtext "name" = some "wake"
  numbers : ∃ rbox, o.find "robndbox" = some rbox ∧
    ∀ tag ∈ numberTags, ∃ v x, rbox.findtext tag = some v ∧ num.float v = some x

/-- The converter reads the object, and writes it without a mark only when the dataset
returns it. -/
def Agrees (level : Level) (num : PyNumbers K) (evalDifficult : Bool) (o : ObjectElement) : Prop :=
  (∃ box, readNumbers num o = .ok box) ∧
    if evalDifficult then Accepted level num o
    else field (piece o) "difficult" 11 = "1" ∨
      (field (piece o) "difficult" 11 = "0" ∧ Accepted level num o)

/-- A line shows a box: the name of its class, and its corners up to the rounding of the
box and of the printed numbers. -/
def Shows (level : Level) (ops : CornerOps K) (line : GtLine) (obj : RowXywha K × ℕ) : Prop :=
  (classes level)[obj.2]? = some line.name ∧ line.corners = printedCorners ops (rounded obj.1)

/-- The unmarked lines and the boxes of the dataset correspond, in order. -/
def Describes (level : Level) (ops : CornerOps K) (lines : List GtLine) (roidb : Roidb K) : Prop :=
  List.Forall₂ (Shows level ops) (lines.filter fun line => !line.difficult)
    (roidb.boxes.zip roidb.gtClasses)

theorem piece_ne_nil (o : ObjectElement) : piece o ≠ [] := by
  simp [piece, ObjectElement.tokens, closeTag, Text.Token.text, Text.tagText]

/-- The angle of a box, from radians to degrees. -/
def inDegrees (m : PyMath K) (box : RowXywha K) : RowXywha K := { box with a := box.a * 180 / m.pi }

/-- The corners that are written for the numbers of an object. -/
def cornersOf (ops : CornerOps K) (box : RowXywha K) : Fin 8 → ℤ :=
  printedCorners ops (rounded (inDegrees ops.math box))

/-- The three ways to write a line. -/
def writeLine (evalDifficult : Bool) (difficulty : String) (corners : Fin 8 → ℤ) : PyM GtLine :=
  if evalDifficult then .ok ⟨"wake", corners, false⟩
  else if difficulty = "0" then .ok ⟨"wake", corners, false⟩
  else if difficulty = "1" then .ok ⟨"wake", corners, true⟩
  else .error .runtimeError

theorem objectLine_eq :
    objectLine ops num evalDifficult (piece o)
      = readNumbers num o >>= fun box =>
          writeLine evalDifficult (field (piece o) "difficult" 11) (cornersOf ops box) := by
  have hdegrees : ∀ a : K, a / ops.math.pi * 180 = a * 180 / ops.math.pi := fun a =>
    div_mul_eq_mul_div a _ _
  rw [objectLine, if_neg (piece_ne_nil o)]
  simp only [readNumbers, bind_assoc, ok_bind, hdegrees]
  rfl

/-- A line that is written has the name `wake` and the corners of the object. Without
`evalDifficult` its mark is the one of the object. -/
theorem objectLine_eq_ok {line : GtLine} (h : objectLine ops num evalDifficult (piece o) = .ok line) :
    ∃ box, readNumbers num o = .ok box ∧ line.name = "wake" ∧ line.corners = cornersOf ops box ∧
      (evalDifficult = true ∧ line.difficult = false ∨
        evalDifficult = false ∧
          (field (piece o) "difficult" 11 = "0" ∧ line.difficult = false ∨
            field (piece o) "difficult" 11 = "1" ∧ line.difficult = true)) := by
  rw [objectLine_eq] at h
  obtain ⟨box, hbox, hline⟩ := bind_eq_ok h
  refine ⟨box, hbox, ?_⟩
  unfold writeLine at hline
  cases evalDifficult with
  | true =>
      cases hline
      exact ⟨rfl, rfl, Or.inl ⟨rfl, rfl⟩⟩
  | false =>
      -- The mark is read from the text of the object, and only the digits 0 and 1 are written.
      rw [if_neg (by simp)] at hline
      split at hline
      · rename_i hmark
        cases hline
        exact ⟨rfl, rfl, Or.inr ⟨rfl, Or.inl ⟨hmark, rfl⟩⟩⟩
      · split at hline
        · rename_i hmark
          cases hline
          exact ⟨rfl, rfl, Or.inr ⟨rfl, Or.inr ⟨hmark, rfl⟩⟩⟩
        · cases hline

/-! ### The object in the dataset -/

omit [LinearOrder K] [FloorRing K] in
/-- What `_parse_voc_obb_xml` has found when it returns an object. -/
theorem parse_eq_some {m : PyMath K} {obj : RowXywha K × ℕ}
    (h : parseVocObject m level (vocObject num o) = some obj) :
    (o.findtext "difficult").map (fun diff => Text.strip diff.toList) ≠ some ['1'] ∧
      ∃ name rbox, o.findtext "name" = some name ∧ classToInd level name = some obj.2 ∧
        o.find "robndbox" = some rbox ∧
          ∀ tag ∈ numberTags, ∃ v x, rbox.findtext tag = some v ∧ num.float v = some x := by
  unfold parseVocObject at h
  split at h
  · cases h
  · rename_i hmark
    refine ⟨hmark, ?_⟩
    -- Each `return None` of the parser leaves one fact behind.
    obtain ⟨name, hname, h⟩ := Option.bind_eq_some_iff.mp h
    split at h
    · cases h
    · obtain ⟨_, hrbox, h⟩ := Option.bind_eq_some_iff.mp h
      obtain ⟨rbox, hfind, rfl⟩ := Option.map_eq_some_iff.mp hrbox
      obtain ⟨_, hcx, h⟩ := Option.bind_eq_some_iff.mp h
      obtain ⟨_, hcy, h⟩ := Option.bind_eq_some_iff.mp h
      obtain ⟨_, hw, h⟩ := Option.bind_eq_some_iff.mp h
      obtain ⟨_, hh, h⟩ := Option.bind_eq_some_iff.mp h
      obtain ⟨_, hang, h⟩ := Option.bind_eq_some_iff.mp h
      obtain ⟨cls, hcls, h⟩ := Option.bind_eq_some_iff.mp h
      cases h
      have hnum : ∀ {tag : String} {x : K}, rbox.findtext tag >>= num.float = some x →
          ∃ v x, rbox.findtext tag = some v ∧ num.float v = some x := by
        intro tag x hx
        obtain ⟨v, hv, hx⟩ := Option.bind_eq_some_iff.mp hx
        exact ⟨v, x, hv, hx⟩
      refine ⟨name, rbox, hname, hcls, hfind, ?_⟩
      simp only [numberTags, List.forall_mem_cons]
      exact ⟨hnum hcx, hnum hcy, hnum hw, hnum hh, hnum hang, List.forall_mem_nil _⟩

theorem classes_wake {level : Level} {cls : ℕ} {name : String}
    (hname : classToInd level name = some cls) (hcls : (classes level)[cls]? = some "wake") :
    level = .one ∧ name = "wake" := by
  have hget : (classes level)[cls]? = some name := by
    obtain ⟨hlt, heq, -⟩ := List.idxOf?_eq_some_iff.mp hname
    exact List.getElem?_eq_some_iff.mpr ⟨hlt, heq⟩
  have hwake : name = "wake" := Option.some.inj (hget.symm.trans hcls)
  have hmem : "wake" ∈ classes level := List.mem_of_getElem? hcls
  refine ⟨?_, hwake⟩
  cases level with
  | one => rfl
  | two => exact absurd hmem (by decide)
  | three => exact absurd hmem (by decide)

omit [LinearOrder K] [FloorRing K] in
/-- An object that the dataset returns with the class `wake`. -/
theorem accepted_of_parse {m : PyMath K} {obj : RowXywha K × ℕ}
    (h : parseVocObject m level (vocObject num o) = some obj)
    (hcls : (classes level)[obj.2]? = some "wake") : Accepted level num o := by
  obtain ⟨hmark, name, rbox, hname, hind, hfind, hnum⟩ := parse_eq_some h
  obtain ⟨hlevel, rfl⟩ := classes_wake hind hcls
  exact ⟨hmark, hlevel, hname, rbox, hfind, hnum⟩

omit [LinearOrder K] [FloorRing K] in
/-- The dataset returns an accepted object with the numbers that the converter reads. -/
theorem parse_of_accepted (hagree : num.Agree) (ho : o.VocObb) (hacc : Accepted level num o)
    {m : PyMath K} {box : RowXywha K} (hread : readNumbers num o = .ok box) :
    parseVocObject m level (vocObject num o) = some (inDegrees m box, 1) := by
  obtain ⟨hmark, rfl, hname, rbox, hfind, hnum⟩ := hacc
  -- Each number has one text, and both functions read it alike.
  have hfloat : ∀ tag ∈ numberTags, ∀ x,
      num.eval (field (piece o) tag (tag.toList.length + 2)) = .ok x →
        (rbox.findtext tag).bind num.float = some x := by
    intro tag htag x hx
    obtain ⟨v, y, hv, hy⟩ := hnum tag htag
    rw [field, piece, cut_number ho hfind hv, String.ofList_toList] at hx
    rw [hv, Option.bind_some, hy, hagree v y x hy hx]
  obtain ⟨cx, hcx, hread⟩ := bind_eq_ok hread
  obtain ⟨cy, hcy, hread⟩ := bind_eq_ok hread
  obtain ⟨w, hw, hread⟩ := bind_eq_ok hread
  obtain ⟨h, hh, hread⟩ := bind_eq_ok hread
  obtain ⟨a, ha, hread⟩ := bind_eq_ok hread
  cases hread
  have hind : classToInd .one "wake" = some 1 := by decide
  have h1 := hfloat "cx" (by decide) cx hcx
  have h2 := hfloat "cy" (by decide) cy hcy
  have h3 := hfloat "w" (by decide) w hw
  have h4 := hfloat "h" (by decide) h hh
  have h5 := hfloat "angle" (by decide) a ha
  simp only [parseVocObject, vocObject, if_neg hmark, hname, hfind, Option.map_some, h1, h2, h3, h4,
    h5, hind, Option.bind_eq_bind, Option.bind_some]
  rw [if_neg (by decide)]
  rfl

/-- The text of an object with a name is longer than its closing tag. -/
theorem piece_length {name : String} (hname : o.findtext "name" = some name) :
    12 < (piece o).length := by
  obtain ⟨c, hfind, -⟩ := Option.map_eq_some_iff.mp hname
  obtain ⟨hc, htag⟩ := find_spec hfind
  obtain ⟨xs, ys, hxs⟩ := List.append_of_mem hc
  have hopen : ∃ rest, c.tokens = openTag "name" :: rest := by
    rw [← htag]
    cases c with
    | leaf l => exact ⟨_, rfl⟩
    | group tag text leaves tail => exact ⟨_, rfl⟩
  obtain ⟨rest, hrest⟩ := hopen
  have hname : (openTag "name").text.length = 6 := by decide
  have hobject : (closeTag "object").text.length = 9 := by decide
  simp only [piece, ObjectElement.tokens, hxs, List.flatMap_append, List.flatMap_cons, hrest,
    Text.ofTokens_cons, Text.ofTokens_append, List.cons_append, List.length_append, hname, hobject]
  omega

/-- An object that the dataset returns is not marked. -/
theorem difficult_of_parse (ho : o.VocObb) {m : PyMath K}
    (hparse : (parseVocObject m level (vocObject num o)).isSome) {line : GtLine}
    (h : objectLine ops num evalDifficult (piece o) = .ok line) : line.difficult = false := by
  obtain ⟨obj, hobj⟩ := Option.isSome_iff_exists.mp hparse
  obtain ⟨hmark, name, rbox, hname, -⟩ := parse_eq_some hobj
  obtain ⟨box, -, -, -, ⟨-, hline⟩ | ⟨-, ⟨-, hline⟩ | ⟨hone, -⟩⟩⟩ := objectLine_eq_ok h
  · exact hline
  · exact hline
  · exfalso
    cases hdiff : o.findtext "difficult" with
    | some v =>
        have hv : v = "1" := by
          rw [field, piece, cut_difficult ho hdiff, String.ofList_toList] at hone
          exact hone
        rw [hdiff, hv] at hmark
        exact hmark (by decide)
    | none =>
        -- The text that is cut out of an object without the tag is too long.
        have hlen := congrArg List.length (congrArg String.toList hone)
        rw [field, String.toList_ofList, piece, length_cut_difficult ho hdiff] at hlen
        have hlong := piece_length hname
        rw [piece] at hlong
        have hlen' : (Text.ofTokens o.tokens).length - 11 = 1 := hlen
        omega

/-- What a written line says about its object. -/
theorem agrees_iff (hagree : num.Agree) (ho : o.VocObb) {line : GtLine}
    (h : objectLine ops num evalDifficult (piece o) = .ok line) :
    ((!line.difficult) = true → ∃ obj, parseVocObject ops.math level (vocObject num o) = some obj ∧
      Shows level ops line obj) ↔ Agrees level num evalDifficult o := by
  obtain ⟨box, hread, hname, hcorners, hmark⟩ := objectLine_eq_ok h
  have hshown : (∃ obj, parseVocObject ops.math level (vocObject num o) = some obj ∧
      Shows level ops line obj) ↔ Accepted level num o := by
    constructor
    · rintro ⟨obj, hobj, hcls, -⟩
      rw [hname] at hcls
      exact accepted_of_parse hobj hcls
    · intro hacc
      refine ⟨_, parse_of_accepted hagree ho hacc hread, ?_, hcorners⟩
      rw [hname, hacc.level]
      rfl
  rw [hshown, Agrees, and_iff_right ⟨box, hread⟩]
  -- The written mark decides whether the line has to be shown at all.
  rcases hmark with ⟨rfl, hline⟩ | ⟨rfl, ⟨hzero, hline⟩ | ⟨hone, hline⟩⟩
  · simp [hline]
  · simp [hline, hzero]
  · simp [hline, hone]

/-! ### One file -/

theorem convertFile_eq {file : File} (hfile : file.VocObb) :
    convertFile ops num evalDifficult file.content
      = file.objects.mapM fun o => objectLine ops num evalDifficult (piece o) := by
  rw [convertFile, split_content hfile, List.mapM_map]
  rfl

omit [Field K] [LinearOrder K] [FloorRing K] in
theorem zip_ofObjects (objs : List (RowXywha K × ℕ)) :
    (Roidb.ofObjects objs).boxes.zip (Roidb.ofObjects objs).gtClasses = objs :=
  (List.zip_of_prod rfl rfl).symm

theorem objectLine_of_agrees (h : Agrees level num evalDifficult o) :
    ∃ line, objectLine ops num evalDifficult (piece o) = .ok line := by
  obtain ⟨⟨box, hread⟩, hmark⟩ := h
  rw [objectLine_eq, hread, ok_bind, writeLine]
  cases evalDifficult with
  | true => exact ⟨_, rfl⟩
  | false =>
      rcases hmark with hone | ⟨hzero, -⟩
      · rw [hone]
        exact ⟨_, rfl⟩
      · rw [hzero]
        exact ⟨_, rfl⟩

/-- The ground truth of a file describes the boxes of the dataset when every object is read
by the converter, and returned by the dataset unless it is marked. -/
theorem labels_agree_iff (ops : CornerOps K) (num : PyNumbers K) (hagree : num.Agree)
    (level : Level) (evalDifficult : Bool) (file : File) (hfile : file.VocObb) :
    (∃ lines, convertFile ops num evalDifficult file.content = .ok lines ∧
      Describes level ops lines (parseVocObbXml ops.math level num file)) ↔
        ∀ o ∈ file.objects, Agrees level num evalDifficult o := by
  rw [convertFile_eq hfile]
  have hdescribes : ∀ lines,
      file.objects.mapM (fun o => objectLine ops num evalDifficult (piece o)) = .ok lines →
        (Describes level ops lines (parseVocObbXml ops.math level num file) ↔
          ∀ o ∈ file.objects, Agrees level num evalDifficult o) := by
    intro lines hlines
    have hwritten : List.Forall₂
        (fun o line => o.VocObb ∧ objectLine ops num evalDifficult (piece o) = .ok line)
        file.objects lines :=
      (List.forall₂_and_left _ _).mpr ⟨hfile.objects, forall₂_of_mapM_eq_ok hlines⟩
    -- The dataset drops marked objects, so the unmarked lines are compared with what is left.
    rw [Describes, parseVocObbXml, zip_ofObjects, forall₂_filter_filterMap_iff hwritten]
    · exact forall₂_iff_forall hwritten fun o line h => agrees_iff hagree h.1 h.2
    · intro o line h hparse
      rw [difficult_of_parse h.1 hparse h.2]
      rfl
  constructor
  · rintro ⟨lines, hlines, h⟩
    exact (hdescribes lines hlines).mp h
  · intro h
    have hwritten : ∀ o ∈ file.objects,
        ∃ line, objectLine ops num evalDifficult (piece o) = .ok line :=
      fun o ho => objectLine_of_agrees (h o ho)
    obtain ⟨lines, hlines⟩ := exists_mapM hwritten
    exact ⟨lines, hlines, (hdescribes lines hlines).mpr h⟩

/-! ### A file with one object -/

/-- A number without a sign and without a fraction. -/
def decimal (s : String) : Option ℚ :=
  if s.toList ≠ [] ∧ s.toList.all Char.isDigit then
    some (s.toList.foldl (fun (n : ℚ) c => 10 * n + ((c.toNat - 48 : ℕ) : ℚ)) 0)
  else none

/-- Both functions on such numbers. -/
def decimals : PyNumbers ℚ where
  float := decimal
  eval s :=
    match decimal s with
    | some x => .ok x
    | none => .error .valueError

theorem decimals_agree : decimals.Agree := by
  intro s x y hx hy
  have hx' : decimal s = some x := hx
  simp only [decimals, hx'] at hy
  exact Except.ok.inj hy

/-- The functions over the rationals. `arccos` is exact at -1, 0 and 1. -/
def ratCorners : CornerOps ℚ :=
  ⟨.rat, fun x => (1 - x) * (355 / 226), .stable, ⟨RotatedRect.points .rat, fun _ => ⟨0, 0, 0, 0, 0⟩⟩⟩

/-- An object as in the files of the dataset, with the class `name`. -/
def objectNamed (name : String) : ObjectElement where
  text := "\n    "
  children :=
    [.leaf ⟨"type", "robndbox", "\n    "⟩, .leaf ⟨"name", name, "\n    "⟩,
      .leaf ⟨"difficult", "0", "\n    "⟩,
      .group "robndbox" "\n      "
        [⟨"cx", "140", "\n      "⟩, ⟨"cy", "229", "\n      "⟩, ⟨"w", "80", "\n      "⟩,
          ⟨"h", "60", "\n      "⟩, ⟨"angle", "0", "\n    "⟩] "\n  "]
  after := [.data ['\n'], closeTag "annotation"]

/-- A file with this object. -/
def fileNamed (name : String) : File := ⟨[openTag "annotation", .data ['\n']], [objectNamed name]⟩

theorem vocObb_objectNamed {name : String} (hname : name = "ship" ∨ name = "wake") :
    (objectNamed name).VocObb where
  plain := by rcases hname with rfl | rfl <;> decide
  slashFree := by rcases hname with rfl | rfl <;> decide
  nodup := by rcases hname with rfl | rfl <;> decide
  noObject := by rcases hname with rfl | rfl <;> decide
  difficult := by
    simp only [objectNamed, List.forall_mem_cons]
    exact ⟨fun _ => ⟨_, rfl⟩, fun _ => ⟨_, rfl⟩, fun _ => ⟨_, rfl⟩, fun h => absurd h (by decide),
      List.forall_mem_nil _⟩
  numbers := by rcases hname with rfl | rfl <;> decide
  after := by
    intro tag htag
    simpa [objectNamed, closeTag] using htag

theorem vocObb_fileNamed {name : String} (hname : name = "ship" ∨ name = "wake") :
    (fileNamed name).VocObb where
  plain := by rcases hname with rfl | rfl <;> decide
  noObject := by rcases hname with rfl | rfl <;> decide
  objects := List.forall_mem_singleton.mpr (vocObb_objectNamed hname)

/-- For a ship the converter writes a line, and the dataset returns nothing. -/
theorem ship_not_described :
    (fileNamed "ship").VocObb ∧
      (∃ lines, convertFile ratCorners decimals false (fileNamed "ship").content = .ok lines) ∧
      ¬∃ lines, convertFile ratCorners decimals false (fileNamed "ship").content = .ok lines ∧
        Describes .one ratCorners lines (parseVocObbXml .rat .one decimals (fileNamed "ship")) := by
  have hcount : ((convertFile ratCorners decimals false (fileNamed "ship").content).map
      fun lines => (lines.filter fun line => !line.difficult).length) = .ok 1 := by
    decide +kernel
  have hboxes : (parseVocObbXml .rat .one decimals (fileNamed "ship")).gtClasses = [] := by
    decide +kernel
  cases hlines : convertFile ratCorners decimals false (fileNamed "ship").content with
  | error e =>
      rw [hlines] at hcount
      cases hcount
  | ok lines =>
      rw [hlines] at hcount
      refine ⟨vocObb_fileNamed (Or.inl rfl), ⟨lines, rfl⟩, ?_⟩
      rintro ⟨lines', heq, hdesc⟩
      cases heq
      have hone : (lines.filter fun line => !line.difficult).length = 1 := Except.ok.inj hcount
      have hlen := hdesc.length_eq
      rw [hboxes, List.zip_nil_right, hone] at hlen
      cases hlen

/-- The condition for a file with a wake. -/
theorem labels_agree_iff_wake :
    (∃ lines, convertFile ratCorners decimals false (fileNamed "wake").content = .ok lines ∧
      Describes .one ratCorners lines
        (parseVocObbXml ratCorners.math .one decimals (fileNamed "wake"))) ↔
      ∀ o ∈ (fileNamed "wake").objects, Agrees .one decimals false o :=
  labels_agree_iff ratCorners decimals decimals_agree .one false (fileNamed "wake")
    (vocObb_fileNamed (Or.inr rfl))

end W2Net.Proofs.Wake2gt
