import W2Net.Proofs.Utils.Map.Loading

/-!
# `W2Net.Proofs.Utils.Map.FileIds`: the ids that `eval_mAP` cuts from paths

An id is the base name of what stands in front of the first `.txt` of a path. With a `.txt` in
`root_dir`, every file has one id, that of `root_dir` (`idIn_of_infix`). Otherwise a visible file
has the id of its stem (`idIn_eq_fileId`).

Either way a file whose counterpart exists has the id of some file there (`exists_idIn_eq`).
-/

set_option autoImplicit false

namespace W2Net.Proofs.Map

open W2Net.Map
open W2Net.Path (Component join)
open W2Net.Text (beforeFirst beforeFirst_append beforeFirst_append_left beforeFirst_eq_self_iff
  beforeFirst_prefix_self)

/-- The searched text behind its first character. -/
abbrev txt : Text := ['t', 'x', 't']

theorem uptoTxt_eq (s : Text) : uptoTxt s = beforeFirst ('.' :: txt) s := by
  fun_induction uptoTxt s with
  | case1 rest => rfl
  | case2 c cs hno ih =>
      have hstart : ¬ ('.' :: txt).isPrefixOf (c :: cs) = true := by
        rw [List.isPrefixOf_iff_prefix]
        rintro ⟨rest, hrest⟩
        obtain ⟨rfl, hcs⟩ := List.cons.inj hrest
        exact hno rest rfl hcs.symm
      rw [beforeFirst, if_neg hstart, ih]
  | case3 => rfl

/-- In front of the first `.txt` of a file name stands the id of its stem. -/
theorem beforeFirst_name (stem : Text) :
    beforeFirst ('.' :: txt) (stem ++ '.' :: txt) = uptoTxt stem := by
  rw [uptoTxt_eq]
  by_cases h : '.' :: txt <:+: stem
  · exact beforeFirst_append_left _ h
  · rw [beforeFirst_append (by decide : '.' ∉ txt) txt h,
      (beforeFirst_eq_self_iff (List.cons_ne_nil _ _) stem).mpr h]
    exact List.append_nil stem

/-- The id of a visible stem is visible. -/
theorem visible_fileId {stem : String} (h : Visible stem) : Visible (fileId stem) := by
  obtain ⟨hne, hslash, hdot⟩ := h
  have hstart := uptoTxt_prefix stem.toList
  rw [Visible, fileId, String.toList_ofList]
  obtain ⟨c, cs, hcs⟩ := List.exists_cons_of_ne_nil hne
  rw [hcs] at hdot hstart hslash ⊢
  have hc : c ≠ '.' := fun hc => hdot (hc ▸ List.cons_prefix_cons.mpr ⟨rfl, List.nil_prefix⟩)
  -- The first character is not the dot of a `.txt`.
  have hfirst : uptoTxt (c :: cs) = c :: uptoTxt cs := by
    rw [uptoTxt]
    intro rest hdot' _
    exact hc hdot'
  refine ⟨?_, fun hmem => hslash (hstart.subset hmem), ?_⟩
  · rw [hfirst]
    exact List.cons_ne_nil _ _
  · rw [hfirst, List.cons_prefix_cons]
    exact fun h => hc h.1.symm

theorem component_of_visible {stem : String} (h : Visible stem) : Component stem.toList := by
  obtain ⟨hne, hslash, hdot⟩ := h
  refine ⟨hne, ?_, ?_, hslash⟩
  · intro heq
    exact hdot (heq ▸ List.prefix_rfl)
  · intro heq
    exact hdot (heq ▸ List.prefix_append ['.'] ['.'])

/-- The id of a visible file below a directory without a `.txt`. -/
theorem pathId_eq {dir : Text} (hdir : ¬ '.' :: txt <:+: dir) {stem : String} (h : Visible stem) :
    pathId (dir ++ '/' :: (stem.toList ++ '.' :: txt)) = (fileId stem).toList := by
  have hpath : beforeFirst ('.' :: txt) (dir ++ '/' :: (stem.toList ++ '.' :: txt))
      = dir ++ '/' :: (fileId stem).toList := by
    rw [beforeFirst_append (by decide : '/' ∉ txt) _ hdir]
    have hslash : ¬ ('.' :: txt).isPrefixOf ('/' :: (stem.toList ++ '.' :: txt)) = true := nofun
    rw [beforeFirst, if_neg hslash, beforeFirst_name, fileId, String.toList_ofList]
  show Path.basename (Path.normpath (beforeFirst ('.' :: txt) _)) = _
  rw [hpath, Path.basename_normpath_concat (component_of_visible (visible_fileId h))]

theorem idIn_eq_fileId {dir : Text} (hdir : ¬ '.' :: txt <:+: dir) {stem : String}
    (h : Visible stem) : idIn dir stem = fileId stem := by
  have hid := pathId_eq hdir h
  show String.ofList (pathId (dir ++ '/' :: (stem.toList ++ '.' :: txt))) = _
  rw [hid, String.ofList_toList]

/-- With a `.txt` in the directory, the stem does not matter. -/
theorem idIn_of_infix {dir : Text} (hdir : '.' :: txt <:+: dir) (stem : String) :
    idIn dir stem
      = String.ofList (Path.basename (Path.normpath (beforeFirst ('.' :: txt) dir))) := by
  show String.ofList (Path.basename (Path.normpath (beforeFirst ('.' :: txt)
    (dir ++ '/' :: (stem.toList ++ '.' :: txt))))) = _
  rw [beforeFirst_append_left _ hdir]

/-! ### The two directories -/

theorem join_cases (rootDir : Text) {name : Text} (hname : name.head? ≠ some '/') :
    (rootDir = [] ∧ join rootDir name = name) ∨
      ∃ dir, (rootDir = dir ∨ rootDir = dir ++ ['/']) ∧ join rootDir name = dir ++ '/' :: name := by
  unfold join
  rw [if_neg hname]
  split
  · rename_i h
    rcases h with rfl | hlast
    · exact Or.inl ⟨rfl, rfl⟩
    · obtain ⟨dir, rfl⟩ := List.getLast?_eq_some_iff.mp hlast
      exact Or.inr ⟨dir, Or.inr rfl, by rw [List.append_assoc]; rfl⟩
  · exact Or.inr ⟨rootDir, Or.inl rfl, rfl⟩

/-- A directory below `root_dir` whose name has no dot has a `.txt` only where `root_dir` does. -/
theorem not_infix_join {rootDir name : Text} (hroot : ¬ '.' :: txt <:+: rootDir)
    (hname : name.head? ≠ some '/') (hdot : '.' ∉ name) : ¬ '.' :: txt <:+: join rootDir name := by
  have hne : ('.' :: txt) ≠ [] := List.cons_ne_nil _ _
  have hplain : ∀ s : Text, '.' ∉ s → ¬ '.' :: txt <:+: s :=
    fun s hs h => hs (h.subset List.mem_cons_self)
  rcases join_cases rootDir hname with ⟨-, heq⟩ | ⟨dir, hdir, heq⟩
  · rw [heq]
    exact hplain name hdot
  · have hdir' : ¬ '.' :: txt <:+: dir := by
      rcases hdir with rfl | rfl
      · exact hroot
      · exact fun h => hroot (h.trans (List.prefix_append dir ['/']).isInfix)
    have hslash : '.' ∉ '/' :: name := by
      rw [List.mem_cons, not_or]
      exact ⟨by decide, hdot⟩
    rw [heq, ← beforeFirst_eq_self_iff hne, beforeFirst_append (by decide : '/' ∉ txt) name hdir',
      (beforeFirst_eq_self_iff hne _).mpr (hplain _ hslash)]

theorem beforeFirst_join {rootDir name : Text} (hroot : '.' :: txt <:+: rootDir)
    (hname : name.head? ≠ some '/') :
    '.' :: txt <:+: join rootDir name ∧
      beforeFirst ('.' :: txt) (join rootDir name) = beforeFirst ('.' :: txt) rootDir := by
  have hjoin : ∃ rest, join rootDir name = rootDir ++ rest := by
    unfold join
    rw [if_neg hname]
    split
    · exact ⟨name, rfl⟩
    · exact ⟨'/' :: name, rfl⟩
  obtain ⟨rest, hrest⟩ := hjoin
  rw [hrest]
  exact ⟨hroot.trans (List.prefix_append rootDir rest).isInfix, beforeFirst_append_left rest hroot⟩

/-- A file of the other directory whose counterpart exists has the id of a ground-truth file. -/
theorem exists_idIn_eq {L : Type} {rootDir : Text} {gtDir : TxtDir L} (hfiles : gtDir.files ≠ [])
    {stem : String} (hstem : Visible stem) (hhas : gtDir.has (idIn (drPath rootDir) stem) = true) :
    ∃ g ∈ gtDir.files, idIn (gtPath rootDir) g.stem = idIn (drPath rootDir) stem := by
  have hgt : "ground-truth".toList.head? ≠ some '/' := by decide
  have hdr : "detection-results".toList.head? ≠ some '/' := by decide
  by_cases hroot : '.' :: txt <:+: rootDir
  · -- All files have the id of the root.
    obtain ⟨hgtTxt, hgtFirst⟩ := beforeFirst_join hroot hgt
    obtain ⟨hdrTxt, hdrFirst⟩ := beforeFirst_join hroot hdr
    obtain ⟨g, hg⟩ := List.exists_mem_of_ne_nil _ hfiles
    refine ⟨g, hg, ?_⟩
    rw [gtPath, drPath, idIn_of_infix hgtTxt, idIn_of_infix hdrTxt, hgtFirst, hdrFirst]
  · have hgtDir : ¬ '.' :: txt <:+: gtPath rootDir := not_infix_join hroot hgt (by decide)
    have hdrDir : ¬ '.' :: txt <:+: drPath rootDir := not_infix_join hroot hdr (by decide)
    rw [idIn_eq_fileId hdrDir hstem] at hhas ⊢
    -- The counterpart is visible, so `glob` lists it.
    have hvisible := visible_fileId hstem
    rw [TxtDir.has, Bool.or_eq_true, List.contains_iff_mem] at hhas
    rcases hhas with hlisted | hhidden
    · obtain ⟨g, hg, hname⟩ := List.any_eq_true.mp hlisted
      refine ⟨g, hg, ?_⟩
      rw [idIn_eq_fileId hgtDir (gtDir.visible_of_mem g hg), of_decide_eq_true hname, fileId_idem]
    · exact absurd hvisible (gtDir.not_visible _ hhidden)

end W2Net.Proofs.Map
