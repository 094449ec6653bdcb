import Mathlib.Data.Fin.VecNotation
import W2Net.Proofs.Eval
import W2Net.Utils.MapText

/-!
# `W2Net.Proofs.Utils.MapText`: the text files lose nothing but decimals

A line that `data_evaluate` or `convert_swim_gt` writes is read by `eval_mAP` as its class, its
numbers, rounded to the decimals that were printed, and its mark `difficult`
(`readDrLine_formatLine`, `readGtLine_formatLine`). So the evaluation through the text files is
the evaluation of the rounded detections and objects (`dataEvaluateText_eq`).
-/

set_option autoImplicit false

namespace W2Net.Proofs.MapText

open W2Net.Map W2Net.Eval

variable {K : Type} [Field K] [LinearOrder K] [FloorRing K] [IsStrictOrderedRing K]

/-! ### Lines -/

/-- What the code relies on of `float`: a decimal is read as its value. -/
def ReadsDecimals (float : Text → PyM K) : Prop :=
  ∀ text x, readDecimal text = some x → float text = .ok x

/-- The numbers of a line as they are printed. -/
def printedRow (row : Fin 8 → K) : List K := (List.ofFn row).map (rounded 0)

section
variable {float : Text → PyM K} (hfloat : ReadsDecimals float)
include hfloat

theorem float_fixed (k : ℕ) (x : K) : float (fixed k x) = .ok (rounded k x) :=
  hfloat _ _ (readDecimal_fixed k x)

theorem mapM_float (row : Fin 8 → K) :
    ((List.ofFn row).map (fixed 0)).mapM float = .ok (printedRow row) := by
  rw [List.mapM_map]
  exact mapM_eq_ok fun x _ => float_fixed hfloat 0 x

end

omit [IsStrictOrderedRing K] in
theorem isSpace_of_isNumeral {c : Char} (hc : IsNumeral c) : Text.isSpace c = false := by
  rcases hc with rfl | rfl | hdigit
  · decide
  · decide
  · have hrange : 48 ≤ c.toNat ∧ c.toNat ≤ 57 := by
      simpa [Char.isDigit, UInt32.le_iff_toNat_le] using hdigit
    simp only [Text.isSpace, Bool.or_eq_false_iff, Bool.and_eq_false_iff, decide_eq_false_iff_not,
      beq_eq_false_iff_ne]
    omega

omit [IsStrictOrderedRing K] in
/-- A printed number is a word. -/
theorem word_fixed (k : ℕ) (x : K) : Text.Word (fixed k x) :=
  ⟨fixed_ne_nil k x, fun _ hc => isSpace_of_isNumeral (isNumeral_of_mem_fixed hc)⟩

omit [IsStrictOrderedRing K] in
theorem forall_word_fixed (row : Fin 8 → K) : ∀ w ∈ (List.ofFn row).map (fixed 0), Text.Word w := by
  intro w hw
  obtain ⟨x, -, rfl⟩ := List.mem_map.mp hw
  exact word_fixed 0 x

omit [IsStrictOrderedRing K] in
/-- The eight words of a row. -/
theorem eight_words (row : Fin 8 → K) :
    (List.ofFn row).map (fixed 0) = [fixed 0 (row 0), fixed 0 (row 1), fixed 0 (row 2),
      fixed 0 (row 3), fixed 0 (row 4), fixed 0 (row 5), fixed 0 (row 6), fixed 0 (row 7)] := rfl

/-- A detection line is read as the rounded detection. -/
theorem readDrLine_formatLine {float : Text → PyM K} (hfloat : ReadsDecimals float) {name : String}
    (hname : Text.Word name.toList) (score : K) (res : Fin 8 → K) :
    readDrLine float (Eval.formatLine name score res)
      = .ok ⟨name, rounded 2 score, printedRow res⟩ := by
  have hwords : ∀ w ∈ name.toList :: fixed 2 score :: (List.ofFn res).map (fixed 0),
      Text.Word w := by
    rw [List.forall_mem_cons, List.forall_mem_cons]
    exact ⟨hname, word_fixed 2 score, forall_word_fixed res⟩
  have hunpack : unpackDr (Eval.formatLine name score res)
      = .ok ⟨name, fixed 2 score, (List.ofFn res).map (fixed 0)⟩ := by
    rw [unpackDr, Eval.formatLine, Text.words_unwords hwords, eight_words]
    simp
  rw [readDrLine, hunpack, ok_bind]
  show (float (fixed 2 score) >>= _) = _
  rw [float_fixed hfloat, ok_bind, mapM_float hfloat, ok_bind]

/-- A class name that does not hide the mark `difficult`. -/
structure PlainName (name : String) : Prop where
  word : Text.Word name.toList
  plain : ¬"difficult".toList <:+: name.toList

omit [IsStrictOrderedRing K] in
theorem difficult_not_infix_fixed (k : ℕ) (x : K) : ¬"difficult".toList <:+: fixed k x := by
  intro hin
  have hd : IsNumeral 'd' := isNumeral_of_mem_fixed (hin.subset (by decide))
  revert hd
  unfold IsNumeral
  decide

omit [IsStrictOrderedRing K] in
/-- The mark is found in a line exactly when it was printed. -/
theorem indexOf_difficult {name : String} (hname : PlainName name) (pt : Fin 8 → K)
    (difficult : Bool) :
    (Text.indexOf "difficult".toList (Wake2gt.formatLine name pt difficult)).isSome = difficult := by
  have hnumbers : ∀ w ∈ (List.ofFn pt).map (fixed 0), ¬"difficult".toList <:+: w := by
    intro w hw
    obtain ⟨x, -, rfl⟩ := List.mem_map.mp hw
    exact difficult_not_infix_fixed 0 x
  cases difficult with
  | true =>
      rw [Option.isSome_iff_ne_none, Ne, Text.indexOf_eq_none_iff, not_not, Wake2gt.formatLine,
        Text.infix_unwords (by decide) (by decide)]
      exact ⟨"difficult".toList, by simp, List.infix_refl _⟩
  | false =>
      rw [Option.isSome_eq_false_iff, Option.isNone_iff_eq_none, Text.indexOf_eq_none_iff,
        Wake2gt.formatLine, Text.infix_unwords (by decide) (by decide)]
      rintro ⟨w, hw, hin⟩
      rw [if_neg Bool.false_ne_true, List.append_nil, List.mem_cons] at hw
      rcases hw with rfl | hw
      · exact hname.plain hin
      · exact hnumbers w hw hin

omit [IsStrictOrderedRing K] in
/-- The words of a ground-truth line. -/
theorem gtWords {name : String} (hname : Text.Word name.toList) (pt : Fin 8 → K)
    (difficult : Bool) :
    ∀ w ∈ name.toList :: (List.ofFn pt).map (fixed 0)
      ++ if difficult then ["difficult".toList] else [], Text.Word w := by
  intro w hw
  rcases List.mem_append.mp hw with hw | hw
  · rcases List.mem_cons.mp hw with rfl | hw
    · exact hname
    · exact forall_word_fixed pt w hw
  · split at hw
    · rw [List.mem_singleton.mp hw]
      exact Text.word_of_all (by decide) (by decide)
    · cases hw

/-- A ground-truth line is read as the rounded object. -/
theorem readGtLine_formatLine {float : Text → PyM K} (hfloat : ReadsDecimals float) {name : String}
    (hname : PlainName name) (pt : Fin 8 → K) (difficult : Bool) :
    readGtLine float (Wake2gt.formatLine name pt difficult)
      = .ok ⟨name, printedRow pt, difficult⟩ := by
  have hwords := gtWords hname.word pt difficult
  have hunpack : unpackGt (Wake2gt.formatLine name pt difficult)
      = .ok ⟨name, (List.ofFn pt).map (fixed 0), difficult⟩ := by
    rw [unpackGt, indexOf_difficult hname, Wake2gt.formatLine, Text.words_unwords hwords,
      eight_words]
    cases difficult with
    | true => simp
    | false => simp
  rw [readGtLine, hunpack, ok_bind]
  show (((List.ofFn pt).map (fixed 0)).mapM float >>= _) = _
  rw [mapM_float hfloat, ok_bind]

/-! ### Files -/

/-- A line that consists of words. -/
def IsLine (line : Text) : Prop := ∃ ws, (∀ w ∈ ws, Text.Word w) ∧ line = Text.unwords ws

/-- The lines of a written file are read. -/
theorem fileLinesToList_unlines {lines : List Text} (h : ∀ line ∈ lines, IsLine line) :
    fileLinesToList (Text.unlines lines) = lines := by
  have hspace : ∀ line ∈ lines, ∀ c ∈ line, c = ' ' ∨ Text.isSpace c = false := by
    intro line hline c hc
    obtain ⟨ws, hws, rfl⟩ := h line hline
    rcases Text.mem_unwords hc with rfl | ⟨w, hw, hcw⟩
    · exact .inl rfl
    · exact .inr ((hws w hw).2 c hcw)
  have hend : ∀ c, Text.isSpace c = true → c ≠ ' ' → ∀ line ∈ lines, c ∉ line := by
    intro c hc hne line hline hmem
    rcases hspace line hline c hmem with rfl | hno
    · exact hne rfl
    · rw [hc] at hno
      cases hno
  rw [fileLinesToList, Text.readlines_unlines (hend '\n' (by decide) (by decide))
    (hend '\r' (by decide) (by decide))]
  conv_rhs => rw [← List.map_id lines]
  refine List.map_congr_left ?_
  intro line hline
  obtain ⟨ws, hws, rfl⟩ := h line hline
  exact Text.strip_unwords hws

/-- A file is read line by line. -/
theorem readFile_unlines {L : Type} {readLine : Text → PyM L} {value : Text → L} {stem : String}
    {lines : List Text} (hlines : ∀ line ∈ lines, IsLine line)
    (hread : ∀ line ∈ lines, readLine line = .ok (value line)) :
    readFile readLine ⟨stem, Text.unlines lines⟩ = .ok ⟨stem, lines.map value⟩ := by
  rw [readFile, fileLinesToList_unlines hlines, mapM_eq_ok hread]
  rfl

/-- What is on the disk does not depend on the contents of the files. -/
theorem onDisk_map {L M : Type} (F : TxtFile L → TxtFile M) (hF : ∀ t, (F t).stem = t.stem)
    (files : List (TxtFile L)) : onDisk (files.map F) = (onDisk files).map F := by
  have hstep : ∀ (acc : List (TxtFile L)) (t : TxtFile L),
      overwrite (acc.map F) (F t) = (overwrite acc t).map F := by
    intro acc t
    rw [overwrite, overwrite, List.map_append, List.filter_map]
    simp only [Function.comp_def, hF]
    rfl
  have hfold : ∀ acc : List (TxtFile L),
      (files.map F).foldl overwrite (acc.map F) = (files.foldl overwrite acc).map F := by
    induction files with
    | nil => exact fun _ => rfl
    | cons t files ih =>
        intro acc
        rw [List.map_cons, List.foldl_cons, hstep, ih, List.foldl_cons]
  have hsort := List.map_insertionSort
    (fun f g : TxtFile L => f.stem ++ ".txt" ≤ g.stem ++ ".txt")
    (fun f g : TxtFile M => f.stem ++ ".txt" ≤ g.stem ++ ".txt") F (files.foldl overwrite [])
    fun f _ g _ => by rw [hF, hF]
  rw [onDisk, onDisk, hsort]
  exact congrArg _ (hfold [])

theorem mem_foldl_overwrite {L : Type} {files : List (TxtFile L)} {t : TxtFile L}
    (acc : List (TxtFile L)) (h : t ∈ files.foldl overwrite acc) : t ∈ acc ∨ t ∈ files := by
  induction files generalizing acc with
  | nil => exact .inl h
  | cons u files ih =>
      rcases ih (overwrite acc u) h with hacc | hfiles
      · rw [overwrite, List.mem_append] at hacc
        rcases hacc with hold | hnew
        · exact .inl (List.mem_filter.mp hold).1
        · exact .inr (List.mem_cons.mpr (.inl (List.mem_singleton.mp hnew)))
      · exact .inr (List.mem_cons_of_mem u hfiles)

theorem mem_of_mem_onDisk {L : Type} {files : List (TxtFile L)} {t : TxtFile L}
    (ht : t ∈ onDisk files) : t ∈ files :=
  (mem_foldl_overwrite [] ((List.mem_insertionSort _).mp ht)).resolve_left List.not_mem_nil

/-! ### The evaluation -/

section
variable (float : Text → PyM K)

/-- The detection of a line, for a line that can be read. -/
def drValue (line : Text) : DrLine (List K) K :=
  ((readDrLine float line).toOption).getD ⟨"", 0, []⟩

/-- The object of a line, for a line that can be read. -/
def gtValue (line : Text) : GtLine (List K) :=
  ((readGtLine float line).toOption).getD ⟨"", [], false⟩

/-- The detections of a file. -/
def drFile (file : TxtFile Char) : TxtFile (DrLine (List K) K) :=
  ⟨file.stem, (fileLinesToList file.lines).map (drValue float)⟩

/-- The detections of an image with their printed corners. -/
def printedImage (image : ImageDets (Fin 8 → K) K) : ImageDets (List K) K :=
  ⟨image.base, image.dets.map fun d => ⟨d.cls, d.score, printedRow d.corners⟩⟩

/-- A ground-truth file with the objects that `convert_swim_gt` prints. -/
def gtText (file : TxtFile (GtLine (Fin 8 → K))) : TxtFile Char :=
  ⟨file.stem, Text.unlines (file.lines.map fun line =>
    Wake2gt.formatLine line.className line.bbox line.difficult)⟩

/-- The objects of a ground-truth file with their printed corners. -/
def printedGt (file : TxtFile (GtLine (Fin 8 → K))) : TxtFile (GtLine (List K)) :=
  ⟨file.stem, file.lines.map fun line => ⟨line.className, printedRow line.bbox, line.difficult⟩⟩

end

variable {float : Text → PyM K} {returnClass : ℕ → PyM String}

/-- The lines that `data_evaluate` writes for an image. -/
def drLines (returnClass : ℕ → PyM String) (image : ImageDets (Fin 8 → K) K) : PyM (List Text) :=
  image.dets.mapM fun d => do
    let name ← returnClass d.cls
    .ok (Eval.formatLine name d.score d.corners)

omit [IsStrictOrderedRing K] in
/-- A line of an image is the line of a class and numbers. -/
theorem exists_of_mem_drLines {image : ImageDets (Fin 8 → K) K} {lines : List Text}
    (h : drLines returnClass image = .ok lines) {line : Text} (hline : line ∈ lines) :
    ∃ c name score res, returnClass c = .ok name ∧
      line = Eval.formatLine (K := K) name score res := by
  obtain ⟨d, -, hd⟩ := (mem_mapM_iff h line).mp hline
  obtain ⟨name, hname, hok⟩ := bind_eq_ok hd
  cases hok
  exact ⟨d.cls, name, d.score, d.corners, hname, rfl⟩

/-- The class names are words. -/
def WordNames (returnClass : ℕ → PyM String) : Prop :=
  ∀ c name, returnClass c = .ok name → Text.Word name.toList

omit [IsStrictOrderedRing K] in
theorem isLine_formatLine {name : String} (hname : Text.Word name.toList) (score : K)
    (res : Fin 8 → K) : IsLine (Eval.formatLine name score res) := by
  refine ⟨_, ?_, rfl⟩
  rw [List.forall_mem_cons, List.forall_mem_cons]
  exact ⟨hname, word_fixed 2 score, forall_word_fixed res⟩

omit [IsStrictOrderedRing K] in
theorem rounded_two (x : K) : rounded 2 x = round2 x := by
  rw [rounded, round2]
  norm_num

section
variable (hfloat : ReadsDecimals float) (hnames : WordNames returnClass)
include hfloat hnames

/-- The file of an image is read as the rounded detections. -/
theorem writeFile_eq (image : ImageDets (Fin 8 → K) K) :
    writeFile returnClass round2 (printedImage image)
      = (writeText returnClass image).map (drFile float) := by
  have hlines : (image.dets.map fun d => (⟨d.cls, d.score, printedRow d.corners⟩ :
      ModelDet (List K) K)).mapM (writeLine returnClass round2)
        = (drLines returnClass image).map (List.map (drValue float)) := by
    rw [List.mapM_map, drLines]
    refine mapM_map_result ?_
    intro d
    show writeLine returnClass round2 ⟨d.cls, d.score, printedRow d.corners⟩ = _
    rw [writeLine]
    cases hname : returnClass d.cls with
    | error e => rfl
    | ok name =>
        rw [ok_bind, ok_bind, ← rounded_two]
        show _ = Except.ok (drValue float (Eval.formatLine name d.score d.corners))
        rw [drValue, readDrLine_formatLine hfloat (hnames _ _ hname)]
        rfl
  rw [writeFile, printedImage, hlines, writeText]
  show _ = Except.map _ (drLines returnClass image >>= _)
  cases hdr : drLines returnClass image with
  | error e => rfl
  | ok lines =>
      have hread : fileLinesToList (Text.unlines lines) = lines := by
        refine fileLinesToList_unlines ?_
        intro line hline
        obtain ⟨c, name, score, res, hname, rfl⟩ := exists_of_mem_drLines hdr hline
        exact isLine_formatLine (hnames c name hname) score res
      show Except.ok _ = Except.ok (drFile float ⟨image.base, Text.unlines lines⟩)
      rw [drFile, hread]

/-- The file of an image can be read. -/
theorem readFile_writeText {image : ImageDets (Fin 8 → K) K} {t : TxtFile Char}
    (h : writeText returnClass image = .ok t) :
    readFile (readDrLine float) t = .ok (drFile float t) := by
  obtain ⟨lines, hdr, hok⟩ := bind_eq_ok h
  cases hok
  have hform : ∀ line ∈ lines, IsLine line ∧
      readDrLine float line = .ok (drValue float line) := by
    intro line hline
    obtain ⟨c, name, score, res, hname, rfl⟩ := exists_of_mem_drLines hdr hline
    refine ⟨isLine_formatLine (hnames c name hname) score res, ?_⟩
    rw [drValue, readDrLine_formatLine hfloat (hnames c name hname)]
    rfl
  rw [readFile_unlines (fun line hline => (hform line hline).1)
    fun line hline => (hform line hline).2, drFile,
    fileLinesToList_unlines fun line hline => (hform line hline).1]

end

omit [IsStrictOrderedRing K] in
theorem isLine_gtLine {line : GtLine (Fin 8 → K)} (hname : PlainName line.className) :
    IsLine (Wake2gt.formatLine line.className line.bbox line.difficult) :=
  ⟨_, gtWords hname.word line.bbox line.difficult, rfl⟩

/-- A ground-truth file is read as the rounded objects. -/
theorem readFile_gtText (hfloat : ReadsDecimals float) {file : TxtFile (GtLine (Fin 8 → K))}
    (hnames : ∀ line ∈ file.lines, PlainName line.className) :
    readFile (readGtLine float) (gtText file) = .ok (printedGt file) := by
  have hvalue : ∀ line ∈ file.lines,
      readGtLine float (Wake2gt.formatLine line.className line.bbox line.difficult)
        = .ok ⟨line.className, printedRow line.bbox, line.difficult⟩ :=
    fun line hline => readGtLine_formatLine hfloat (hnames line hline) _ _
  rw [gtText, @readFile_unlines _ _ (gtValue float), printedGt, List.map_map]
  · refine congrArg (fun lines => Except.ok (TxtFile.mk file.stem lines)) ?_
    refine List.map_congr_left ?_
    intro line hline
    show gtValue float _ = _
    rw [gtValue, hvalue line hline]
    rfl
  · intro text htext
    obtain ⟨line, hline, rfl⟩ := List.mem_map.mp htext
    exact isLine_gtLine (hnames line hline)
  · intro text htext
    obtain ⟨line, hline, rfl⟩ := List.mem_map.mp htext
    rw [gtValue, hvalue line hline]
    rfl

/-- The evaluation through the text files is the evaluation of the detections and objects, with
the scores rounded to two decimals and the corners to integers. -/
theorem dataEvaluateText_eq (hfloat : ReadsDecimals float) (hnames : WordNames returnClass)
    (overlap : List K → List K → PyM (K × K)) (thres : K)
    {gtFiles : List (TxtFile (GtLine (Fin 8 → K)))}
    (hgt : ∀ file ∈ gtFiles, ∀ line ∈ file.lines, PlainName line.className)
    (images : List (ImageDets (Fin 8 → K) K)) :
    dataEvaluateText returnClass float overlap thres (gtFiles.map gtText) images
      = dataEvaluate returnClass round2 overlap thres (gtFiles.map printedGt)
          (images.map printedImage) := by
  have hwrite : writeFiles returnClass round2 (images.map printedImage)
      = (images.mapM (writeText returnClass)).map (List.map (drFile float)) := by
    rw [writeFiles, List.mapM_map]
    exact mapM_map_result fun image => writeFile_eq hfloat hnames image
  have hgtFiles : (gtFiles.map gtText).mapM (readFile (readGtLine float))
      = .ok (gtFiles.map printedGt) := by
    rw [List.mapM_map]
    exact mapM_eq_ok fun file hfile => readFile_gtText hfloat (hgt file hfile)
  rw [dataEvaluateText, dataEvaluate, hwrite, hgtFiles]
  cases htexts : images.mapM (writeText returnClass) with
  | error e => rfl
  | ok texts =>
      -- What is on the disk was written, so it can be read.
      have hread : (onDisk texts).mapM (readFile (readDrLine float))
          = .ok ((onDisk texts).map (drFile float)) := by
        refine mapM_eq_ok ?_
        intro t ht
        obtain ⟨image, -, himage⟩ := (mem_mapM_iff htexts t).mp (mem_of_mem_onDisk ht)
        exact readFile_writeText hfloat hnames himage
      rw [ok_bind, ok_bind, hread, ok_bind, ← onDisk_map (drFile float) fun _ => rfl]
      rfl

/-! ### One image -/

example : Eval.formatLine "wake" (7 / 8 : ℚ) ![0, 1 / 2, 3 / 2, -7 / 5, 30, 40, 12, 9]
    = "wake 0.88 0 0 2 -1 30 40 12 9".toList := by decide +kernel

/-- `float` on decimals. -/
def decimalFloat (text : Text) : PyM ℚ :=
  match readDecimal text with
  | some x => .ok x
  | none => .error .valueError

/-- The classes background and wake. -/
def wakeClass (c : ℕ) : PyM String := if c = 1 then .ok "wake" else .error .indexError

theorem wakeClass_words : WordNames wakeClass := by
  intro c name hname
  rw [wakeClass] at hname
  split at hname
  · cases hname
    exact Text.word_of_all (by decide) (by decide)
  · cases hname

/-- A wake and a difficult one. -/
def wakeGt : TxtFile (GtLine (Fin 8 → ℚ)) :=
  ⟨"7", [⟨"wake", ![0, 0, 4, 0, 4, 4, 0, 4], false⟩,
    ⟨"wake", ![9, 9, 12, 9, 12, 12, 9, 12], true⟩]⟩

/-- A detection whose corners are printed as those of the wake. -/
def wakeImage : ImageDets (Fin 8 → ℚ) ℚ := ⟨"7", [⟨1, 7 / 8, ![0, 1 / 3, 4, 0, 4, 4, 0, 4]⟩]⟩

/-- An overlap of boxes with the same corners. -/
def sameCorners (b c : List ℚ) : PyM (ℚ × ℚ) := .ok (if b = c then (1, 16) else (0, 0))

/-- The evaluation of the image through its two text files. -/
theorem dataEvaluateText_eq_wake :
    dataEvaluateText wakeClass decimalFloat sameCorners (1 / 2) ([wakeGt].map gtText) [wakeImage]
      = dataEvaluate wakeClass round2 sameCorners (1 / 2) ([wakeGt].map printedGt)
          ([wakeImage].map printedImage) := by
  refine dataEvaluateText_eq ?_ wakeClass_words sameCorners (1 / 2) ?_ [wakeImage]
  · intro text x hread
    rw [decimalFloat, hread]
  · have hwake : PlainName "wake" := ⟨Text.word_of_all (by decide) (by decide), by decide⟩
    intro file hfile line hline
    rw [List.mem_singleton.mp hfile] at hline
    rcases List.mem_cons.mp hline with rfl | hline
    · exact hwake
    · rw [List.mem_singleton.mp hline]
      exact hwake

end W2Net.Proofs.MapText
