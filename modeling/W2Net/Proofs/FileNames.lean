import W2Net.Datasets.Wake2gt
import W2Net.Eval
import W2Net.Proofs.Utils.Map.FileIds

/-!
# `W2Net.Proofs.FileNames`: one name for the files of an image

`convert_swim_gt` makes the name of a ground-truth file with three replacements in the path of
the image, `data_evaluate` makes the name of the detection file with `splitext`, and `eval_mAP`
cuts the path of either file at its first `.txt`.

The replacements act on the base name alone (`gtName_eq`), and there on the stem and the
extension one after the other (`renamed_append`). Each of them adds letters `t`, `x` or more
characters where it finds something, so a stem that is not changed has none of the searched
texts (`renamed_eq_self_iff`). The extension becomes `.txt` only from `.jpg`
(`renamed_ext_iff`). `files_alike_iff` collects the conditions on the names of the images.

`pathId_eq_fileId` links the ids of the paths to those of the evaluation.
-/

set_option autoImplicit false

namespace W2Net.Proofs.FileNames

open W2Net.Eval (base drName imsList isImage imageExtensions)
open W2Net.Map (Visible counterpartsFound drPath fileId globFiles gtPath pathId)
open W2Net.Path
open W2Net.Proofs.Map (pathId_eq uptoTxt_eq)
open W2Net.Text
open W2Net.Wake2gt (annotationFile gtName)

/-- `root_dir` of `data_evaluate`. -/
def rootDir : Text := "datasets/evaluate".toList

/-- The files of an image have the name that belongs to its base, and `eval_mAP` finds both of
them and recovers the base. -/
structure Alike (line : Text) : Prop where
  same : gtName line = drName (strip line)
  visible : globTxt (gtName line) = true ∧ globTxt (drName (strip line)) = true
  gtId : pathId (gtPath rootDir ++ '/' :: gtName line) = base (strip line)
  drId : pathId (drPath rootDir ++ '/' :: drName (strip line)) = base (strip line)

/-- The extension of an image is `.jpg`, in small letters, and its base has no leading dot and
none of the texts that are searched. -/
structure PlainName (p : Text) : Prop where
  ext : (splitext p).2 = ".jpg".toList
  visible : ¬ ['.'] <+: base p
  jpg : ¬ ".jpg".toList <:+: base p
  xml : ¬ ".xml".toList <:+: base p
  dir : ¬ "JPEGImages".toList <:+: base p
  txt : ¬ ".txt".toList <:+: base p

/-! ### The ground-truth name -/

/-- The searched texts behind their first characters, and the replacements. -/
abbrev jpg : Text := ['j', 'p', 'g']

abbrev xml : Text := ['x', 'm', 'l']

abbrev txt : Text := ['t', 'x', 't']

abbrev pegImages : Text := ['P', 'E', 'G', 'I', 'm', 'a', 'g', 'e', 's']

abbrev annotations : Text := ['A', 'n', 'n', 'o', 't', 'a', 't', 'i', 'o', 'n', 's']

theorem drName_eq (p : Text) : drName p = base p ++ '.' :: txt := rfl

/-- The three replacements, in order. -/
def renamed (s : Text) : Text :=
  replace (replace (replace s ('.' :: jpg) ('.' :: xml)) ('J' :: pegImages) annotations)
    ('.' :: xml) ('.' :: txt)

/-- A replacement that has nothing to do with slashes acts on the base name. -/
theorem basename_replace {d : Char} {old' new : Text} (hd : '/' ≠ d) (hold : '/' ∉ old')
    (hnew : '/' ∉ new) (p : Text) :
    basename (replace p (d :: old') new) = replace (basename p) (d :: old') new := by
  obtain ⟨hslash, hp⟩ := basename_cases p
  have hname : '/' ∉ replace (basename p) (d :: old') new :=
    fun h => (mem_of_mem_replace (List.cons_ne_nil _ _) h).elim hslash hnew
  obtain hp | ⟨dir, hp⟩ := hp
  · conv_lhs => rw [hp]
    exact basename_of_not_mem hname
  · have hstart : ¬ d :: old' <+: '/' :: basename p := by
      rintro ⟨rest, hrest⟩
      exact hd (List.cons.inj hrest).1.symm
    conv_lhs => rw [hp]
    rw [replace_append hold, replace_cons hstart, basename_append hname]

theorem gtName_eq (line : Text) : gtName line = renamed (basename (strip line)) := by
  show replace (basename (replace (replace (strip line) ('.' :: jpg) ('.' :: xml)) ('J' :: pegImages)
    annotations)) ('.' :: xml) ('.' :: txt) = _
  rw [basename_replace (by decide) (by decide) (by decide),
    basename_replace (by decide) (by decide) (by decide), renamed]

/-- The replacement of one extension by another keeps a leading dot. -/
theorem exists_replace_dot (old' new' s : Text) :
    ∃ t, replace ('.' :: s) ('.' :: old') ('.' :: new') = '.' :: t := by
  by_cases hstart : '.' :: old' <+: '.' :: s
  · obtain ⟨rest, hrest⟩ := hstart
    rw [← hrest, replace_occurrence (List.cons_ne_nil _ _)]
    exact ⟨_, rfl⟩
  · rw [replace_cons hstart]
    exact ⟨_, rfl⟩

/-- The directory name does not start with a dot. -/
theorem replace_dir_dot (s : Text) :
    replace ('.' :: s) ('J' :: pegImages) annotations
      = '.' :: replace s ('J' :: pegImages) annotations := by
  refine replace_cons ?_
  rintro ⟨rest, hrest⟩
  exact absurd (List.cons.inj hrest).1 (by decide)

/-- The stem and the extension are renamed one after the other. -/
theorem renamed_append (stem ext : Text) :
    renamed (stem ++ '.' :: ext) = renamed stem ++ renamed ('.' :: ext) := by
  obtain ⟨t, ht⟩ := exists_replace_dot jpg xml ext
  unfold renamed
  rw [replace_append (by decide : '.' ∉ jpg), ht, replace_append (by decide : '.' ∉ pegImages),
    replace_dir_dot, replace_append (by decide : '.' ∉ xml)]

theorem length_le_renamed (s : Text) : s.length ≤ (renamed s).length := by
  have hjpg := length_le_replace (List.cons_ne_nil '.' jpg) (by decide : _ ≤ ('.' :: xml).length) s
  have hdir := length_le_replace (List.cons_ne_nil 'J' pegImages)
    (by decide : _ ≤ annotations.length) (replace s ('.' :: jpg) ('.' :: xml))
  have hxml := length_le_replace (List.cons_ne_nil '.' xml) (by decide : _ ≤ ('.' :: txt).length)
    (replace (replace s ('.' :: jpg) ('.' :: xml)) ('J' :: pegImages) annotations)
  exact hjpg.trans (hdir.trans hxml)

/-- A text that is not changed has none of the searched texts. The letters `t` count the
replacements of the directory and of `.xml`, and the letters `x` those of `.jpg`. -/
theorem renamed_eq_self_iff (s : Text) :
    renamed s = s ↔ ¬ '.' :: jpg <:+: s ∧ ¬ 'J' :: pegImages <:+: s ∧ ¬ '.' :: xml <:+: s := by
  constructor
  · intro h
    have hjpg := count_le_replace (List.cons_ne_nil '.' jpg)
      (by decide : List.count 't' _ ≤ List.count 't' ('.' :: xml)) s
    have hdir := count_le_replace (List.cons_ne_nil 'J' pegImages)
      (by decide : List.count 't' _ ≤ List.count 't' annotations)
      (replace s ('.' :: jpg) ('.' :: xml))
    have hxml := count_le_replace (List.cons_ne_nil '.' xml)
      (by decide : List.count 't' _ ≤ List.count 't' ('.' :: txt))
      (replace (replace s ('.' :: jpg) ('.' :: xml)) ('J' :: pegImages) annotations)
    have htotal := congrArg (List.count 't') h
    unfold renamed at h htotal
    -- The last two replacements find nothing.
    have hnoxml := not_infix_of_count_eq (List.cons_ne_nil '.' xml)
      (by decide : List.count 't' _ < List.count 't' ('.' :: txt)) (le_antisymm (by omega) hxml)
    rw [replace_eq_self hnoxml] at h
    have hnodir := not_infix_of_count_eq (List.cons_ne_nil 'J' pegImages)
      (by decide : List.count 't' _ < List.count 't' annotations) (le_antisymm (by omega) hdir)
    rw [replace_eq_self hnodir] at h hnoxml
    -- Then neither does the first one.
    have hnojpg := not_infix_of_count_eq (List.cons_ne_nil '.' jpg)
      (by decide : List.count 'x' _ < List.count 'x' ('.' :: xml)) (congrArg (List.count 'x') h)
    rw [h] at hnodir hnoxml
    exact ⟨hnojpg, hnodir, hnoxml⟩
  · rintro ⟨hjpg, hdir, hxml⟩
    rw [renamed, replace_eq_self hjpg, replace_eq_self hdir, replace_eq_self hxml]

/-- A short extension has no room for a searched text, unless it is one. -/
theorem not_infix_ext {old' ext : Text} (hdot : '.' ∉ ext) (hlen : ext.length = 3)
    (hlen' : old'.length = 3) (hne : ext ≠ old') : ¬ '.' :: old' <:+: '.' :: ext := by
  rw [List.infix_cons_iff, not_or]
  constructor
  · rintro ⟨rest, hrest⟩
    have hhead : old' <+: ext := ⟨rest, (List.cons.inj hrest).2⟩
    exact hne (hhead.eq_of_length (hlen'.trans hlen.symm)).symm
  · exact fun h => hdot (h.subset List.mem_cons_self)

/-- Only `.jpg` becomes `.txt`. -/
theorem renamed_ext_iff {ext : Text} (hdot : '.' ∉ ext)
    (himage : ('.' :: ext).map Char.toLower ∈ imageExtensions) :
    renamed ('.' :: ext) = '.' :: txt ↔ ext = jpg := by
  constructor
  · intro h
    by_contra hne
    have hle := length_le_renamed ('.' :: ext)
    rw [h] at hle
    have hlong : ∀ e ∈ imageExtensions, 4 ≤ e.length := by decide
    have hext := hlong _ himage
    rw [List.length_map] at hext
    have hlen : ext.length = 3 := by
      simp only [List.length_cons] at hle hext
      simp only [List.length_nil] at hle
      omega
    -- None of the searched texts is found.
    have hnojpg := not_infix_ext hdot hlen rfl hne
    have hnodir : ¬ 'J' :: pegImages <:+: '.' :: ext := by
      intro hmem
      have := hmem.length_le
      simp only [List.length_cons, List.length_nil] at this
      omega
    have hnexml : ext ≠ xml := by
      rintro rfl
      revert himage
      decide
    have hnoxml := not_infix_ext hdot hlen rfl hnexml
    rw [renamed, replace_eq_self hnojpg, replace_eq_self hnodir, replace_eq_self hnoxml] at h
    rw [h] at himage
    revert himage
    decide
  · rintro rfl
    decide

/-! ### The ids of `eval_mAP` -/

/-- For a visible file the path of `eval_mAP` has the id that the evaluation uses for its
stem. -/
theorem pathId_eq_fileId {stem : Text} (hslash : '/' ∉ stem) (hne : stem ≠ [])
    (hvisible : ¬ ['.'] <+: stem) :
    pathId (gtPath rootDir ++ '/' :: (stem ++ '.' :: txt)) = (fileId (String.ofList stem)).toList ∧
      pathId (drPath rootDir ++ '/' :: (stem ++ '.' :: txt))
        = (fileId (String.ofList stem)).toList := by
  have hstem : Visible (String.ofList stem) := by
    rw [Visible, String.toList_ofList]
    exact ⟨hne, hslash, hvisible⟩
  have hgt := pathId_eq (by decide +kernel : ¬ '.' :: txt <:+: gtPath rootDir) hstem
  have hdr := pathId_eq (by decide +kernel : ¬ '.' :: txt <:+: drPath rootDir) hstem
  rw [String.toList_ofList] at hgt hdr
  exact ⟨hgt, hdr⟩

/-- The base is recovered exactly when it has no `.txt`. -/
theorem fileId_ofList_iff (stem : Text) :
    (fileId (String.ofList stem)).toList = stem ↔ ¬ '.' :: txt <:+: stem := by
  rw [fileId, String.toList_ofList, String.toList_ofList, uptoTxt_eq,
    beforeFirst_eq_self_iff (List.cons_ne_nil _ _)]

/-- `glob` finds the text file of a stem without a leading dot. -/
theorem globTxt_iff {stem : Text} (hne : stem ≠ []) :
    globTxt (stem ++ '.' :: txt) = true ↔ ¬ ['.'] <+: stem := by
  obtain ⟨c, cs, rfl⟩ := List.exists_cons_of_ne_nil hne
  have hsuffix : ".txt".toList.isSuffixOf (c :: cs ++ '.' :: txt) = true :=
    List.isSuffixOf_iff_suffix.mpr (List.suffix_append (c :: cs) ".txt".toList)
  rw [globTxt, hsuffix, Bool.and_true, Bool.not_eq_true', ← Bool.not_eq_true,
    List.isPrefixOf_iff_prefix, List.cons_append, List.cons_prefix_cons, List.cons_prefix_cons]
  simp only [List.nil_prefix, and_true]

/-! ### One image -/

/-- The path of an image, taken apart. -/
theorem parts_of_isImage {p : Text} (h : isImage p = true) :
    ∃ ext, basename p = base p ++ '.' :: ext ∧ (splitext p).2 = '.' :: ext ∧ '.' ∉ ext ∧
      '/' ∉ base p ∧ base p ≠ [] ∧ ('.' :: ext).map Char.toLower ∈ imageExtensions := by
  have hmem : (splitext p).2.map Char.toLower ∈ imageExtensions := List.contains_iff_mem.mp h
  have hne : (splitext p).2 ≠ [] := by
    intro hnil
    rw [hnil] at hmem
    revert hmem
    decide
  obtain ⟨stem, ext, hname, hsplit, hstem, hext, hdot, hany⟩ := parts_of_splitext hne
  have hbase : base p = stem := by
    rw [base, hname, splitext_name hstem hext hdot hany]
  rw [hbase]
  rw [hsplit] at hmem
  refine ⟨ext, hname, hsplit, hdot, hstem, ?_, hmem⟩
  rintro rfl
  cases hany

/-- The two files have one name exactly when the renaming spares the base and makes `.txt` of
the extension. -/
theorem gtName_eq_drName_iff {line : Text} (h : isImage (strip line) = true) :
    gtName line = drName (strip line) ↔
      (splitext (strip line)).2 = '.' :: jpg ∧ ¬ '.' :: jpg <:+: base (strip line) ∧
        ¬ 'J' :: pegImages <:+: base (strip line) ∧ ¬ '.' :: xml <:+: base (strip line) := by
  obtain ⟨ext, hname, hsplit, hdot, -, -, hmem⟩ := parts_of_isImage h
  have hlong : ∀ e ∈ imageExtensions, 4 ≤ e.length := by decide
  have hext := hlong _ hmem
  rw [List.length_map] at hext
  rw [gtName_eq, hname, renamed_append, hsplit, List.cons.injEq, and_iff_right rfl,
    ← renamed_eq_self_iff, ← renamed_ext_iff hdot hmem]
  rw [drName_eq]
  constructor
  · intro heq
    -- Neither part gets shorter, so each of them keeps its length.
    have hlen := congrArg List.length heq
    have hstem := length_le_renamed (base (strip line))
    have htail := length_le_renamed ('.' :: ext)
    rw [List.length_append, List.length_append] at hlen
    have hfour : ('.' :: txt).length = 4 := rfl
    obtain ⟨hstem', htail'⟩ := List.append_inj heq (by omega)
    exact ⟨htail', hstem'⟩
  · rintro ⟨htail, hstem⟩
    rw [hstem, htail]

/-- The files of one image. -/
theorem alike_iff {line : Text} (h : isImage (strip line) = true) :
    Alike line ↔ PlainName (strip line) := by
  obtain ⟨ext, -, -, -, hslash, hne, -⟩ := parts_of_isImage h
  constructor
  · rintro ⟨hsame, ⟨-, hvisible⟩, -, hid⟩
    obtain ⟨hext, hjpg, hdir, hxml⟩ := (gtName_eq_drName_iff h).mp hsame
    rw [drName_eq] at hvisible hid
    have hvisible' := (globTxt_iff hne).mp hvisible
    rw [(pathId_eq_fileId hslash hne hvisible').2, fileId_ofList_iff] at hid
    exact ⟨hext, hvisible', hjpg, hxml, hdir, hid⟩
  · rintro ⟨hext, hvisible, hjpg, hxml, hdir, htxt⟩
    have hsame := (gtName_eq_drName_iff h).mpr ⟨hext, hjpg, hdir, hxml⟩
    obtain ⟨hgt, hdr⟩ := pathId_eq_fileId hslash hne hvisible
    rw [(fileId_ofList_iff _).mpr htxt] at hgt hdr
    have hglob := (globTxt_iff hne).mpr hvisible
    constructor
    · exact hsame
    · rw [hsame, drName_eq]
      exact ⟨hglob, hglob⟩
    · rw [hsame, drName_eq]
      exact hgt
    · rw [drName_eq]
      exact hdr

/-! ### All images -/

/-- A list of images only, as `data_evaluate` reads it. -/
theorem imsList_eq {lines : List Text} (h : ∀ line ∈ lines, isImage (strip line) = true) :
    imsList lines = lines.map strip := by
  have hfilter : (lines.map strip).filter (fun p => p ≠ []) = lines.map strip := by
    rw [List.filter_eq_self]
    intro p hp
    obtain ⟨line, hline, rfl⟩ := List.mem_map.mp hp
    refine decide_eq_true fun hnil => ?_
    have himage := h line hline
    rw [hnil] at himage
    revert himage
    decide
  rw [imsList, hfilter, List.filter_eq_self]
  intro p hp
  obtain ⟨line, hline, rfl⟩ := List.mem_map.mp hp
  exact h line hline

/-- When the files of each image are alike, every file has its counterpart. -/
theorem counterpartsFound_of_alike {lines : List Text} (h : ∀ line ∈ lines, Alike line) :
    counterpartsFound rootDir (lines.map gtName) ((lines.map strip).map drName) = true := by
  have hid : ∀ line ∈ lines, base (strip line) ++ ".txt".toList = drName (strip line) :=
    fun _ _ => rfl
  rw [counterpartsFound, Bool.and_eq_true, List.all_eq_true, List.all_eq_true]
  constructor
  · intro txtFile hfile
    obtain ⟨name, hname, rfl⟩ := List.mem_map.mp hfile
    obtain ⟨line, hline, rfl⟩ := List.mem_map.mp (List.mem_filter.mp hname).1
    rw [(h line hline).gtId, hid line hline, List.contains_iff_mem]
    exact List.mem_map_of_mem (List.mem_map_of_mem (List.mem_map_of_mem hline))
  · intro txtFile hfile
    obtain ⟨name, hname, rfl⟩ := List.mem_map.mp hfile
    obtain ⟨p, hp, rfl⟩ := List.mem_map.mp (List.mem_filter.mp hname).1
    obtain ⟨line, hline, rfl⟩ := List.mem_map.mp hp
    rw [(h line hline).drId, hid line hline, ← (h line hline).same, List.contains_iff_mem]
    exact List.mem_map_of_mem (List.mem_map_of_mem hline)

/-- The files of all images of a list are alike, and `eval_mAP` finds every counterpart, exactly
when every image has a plain name. -/
theorem files_alike_iff (lines : List Text) (h : ∀ line ∈ lines, isImage (strip line) = true) :
    ((∀ line ∈ lines, Alike line) ∧
      counterpartsFound rootDir (lines.map gtName) ((imsList lines).map drName) = true) ↔
      ∀ line ∈ lines, PlainName (strip line) := by
  rw [imsList_eq h]
  constructor
  · exact fun halike line hline => (alike_iff (h line hline)).mp (halike.1 line hline)
  · intro hplain
    have halike : ∀ line ∈ lines, Alike line :=
      fun line hline => (alike_iff (h line hline)).mpr (hplain line hline)
    exact ⟨halike, counterpartsFound_of_alike halike⟩

/-- An image with the extension `.jpeg`. -/
def jpegImage : Text := "wake/JPEGImages/20013.jpeg".toList

/-- Its ground truth is written to `20013.jpeg`, and the detection file has no counterpart. -/
theorem jpegImage_not_alike :
    isImage (strip jpegImage) = true ∧ gtName jpegImage = "20013.jpeg".toList ∧
      drName (strip jpegImage) = "20013.txt".toList ∧ ¬ Alike jpegImage ∧
      counterpartsFound rootDir [gtName jpegImage] [drName (strip jpegImage)] = false := by
  refine ⟨by decide +kernel, by decide +kernel, by decide +kernel, ?_, by decide +kernel⟩
  intro h
  have hsame := h.same
  revert hsame
  decide +kernel

/-- An image with the extension `.jpg`. -/
def jpgImage : Text := "wake/JPEGImages/20013.jpg".toList

theorem files_alike_iff_jpgImage :
    ((∀ line ∈ [jpgImage], Alike line) ∧
      counterpartsFound rootDir ([jpgImage].map gtName) ((imsList [jpgImage]).map drName) = true) ↔
      ∀ line ∈ [jpgImage], PlainName (strip line) :=
  files_alike_iff [jpgImage] (by decide +kernel)

end W2Net.Proofs.FileNames
