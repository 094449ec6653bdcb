import Mathlib.Data.List.TakeWhile
import W2Net.Lib.Text

/-!
# `W2Net.Lib.Path`: the functions of `os.path` on texts

`basename`, `splitext`, `normpath` and `join` of `posixpath`, and the pattern `*.txt` of
`glob`.

`parts_of_splitext` takes a path with an extension apart: the base name is `stem ++ ext`, and the
stem is not made of dots only. `basename_normpath_concat` says that `normpath` keeps a component
at the end of a path that is none of the empty one, `.` and `..`.
-/

set_option autoImplicit false

namespace W2Net

namespace Path

/-- `os.path.basename(p)`, also `os.path.split(p)[1]`. -/
def basename (p : Text) : Text := (p.reverse.takeWhile (· ≠ '/')).reverse

/-- `os.path.splitext(p)`: the extension starts at the last dot of the base name, unless only
dots stand in front of it. -/
def splitext (p : Text) : Text × Text :=
  let name := basename p
  let root := (name.reverse.dropWhile (· ≠ '.')).tail.reverse
  let ext := name.drop root.length
  if root.any (· ≠ '.') then (p.take (p.length - ext.length), ext) else (p, [])

/-- `os.path.join(dir, name)`. -/
def join (dir name : Text) : Text :=
  if name.head? = some '/' then name
  else if dir = [] ∨ dir.getLast? = some '/' then dir ++ name
  else dir ++ '/' :: name

/-- One component of a path: an empty one and `.` are dropped, and `..` drops the one
before it. -/
def normStep (rooted : Bool) (comps : List Text) (comp : Text) : List Text :=
  if comp = [] ∨ comp = ['.'] then comps
  else if comp ≠ ['.', '.'] ∨ (rooted = false ∧ comps = []) ∨ comps.getLast? = some ['.', '.'] then
    comps ++ [comp]
  else comps.dropLast

/-- The slashes that stay at the front: two of them stay, and three become one. -/
def initialSlashes : Text → Text
  | '/' :: '/' :: '/' :: _ => ['/']
  | '/' :: '/' :: _ => ['/', '/']
  | '/' :: _ => ['/']
  | _ => []

/-- `os.path.normpath(p)`. -/
def normpath (p : Text) : Text :=
  let slashes := initialSlashes p
  let comps := (p.splitOn '/').foldl (normStep !slashes.isEmpty) []
  let path := slashes ++ List.intercalate ['/'] comps
  if path = [] then ['.'] else path

/-- A name that `glob` finds with the pattern `*.txt`: hidden files are left out. -/
def globTxt (name : Text) : Bool := !(['.'].isPrefixOf name) && ".txt".toList.isSuffixOf name

/-! ### Base names -/

theorem basename_of_not_mem {name : Text} (h : '/' ∉ name) : basename name = name := by
  have hall : ∀ c ∈ name.reverse, decide (c ≠ '/') = true :=
    fun c hc => decide_eq_true (ne_of_mem_of_not_mem (List.mem_reverse.mp hc) h)
  rw [basename, List.takeWhile_eq_self_iff.mpr hall, List.reverse_reverse]

theorem basename_append {name : Text} (h : '/' ∉ name) (dir : Text) :
    basename (dir ++ '/' :: name) = name := by
  have hall : ∀ c ∈ name.reverse, decide (c ≠ '/') = true :=
    fun c hc => decide_eq_true (ne_of_mem_of_not_mem (List.mem_reverse.mp hc) h)
  rw [basename, List.reverse_append, List.reverse_cons, List.append_assoc,
    List.takeWhile_append_of_pos hall]
  show (name.reverse ++ List.takeWhile _ ('/' :: dir.reverse)).reverse = name
  rw [List.takeWhile_cons_of_neg (by decide), List.append_nil, List.reverse_reverse]

/-- The last place of a character. -/
theorem exists_last {c : Char} {s : Text} (h : c ∈ s) : ∃ pre post, s = pre ++ c :: post ∧ c ∉ post := by
  obtain ⟨post, pre, hs, hpost⟩ := List.eq_append_cons_of_mem (List.mem_reverse.mpr h)
  have hrev := congrArg List.reverse hs
  rw [List.reverse_reverse, List.reverse_append, List.reverse_cons, List.append_assoc] at hrev
  exact ⟨pre.reverse, post.reverse, hrev, fun hmem => hpost (List.mem_reverse.mp hmem)⟩

/-- A path is its base name, behind a directory if there is a slash. -/
theorem basename_cases (p : Text) :
    ('/' ∉ basename p) ∧ (p = basename p ∨ ∃ dir, p = dir ++ '/' :: basename p) := by
  by_cases h : '/' ∈ p
  · obtain ⟨dir, name, rfl, hname⟩ := exists_last h
    rw [basename_append hname]
    exact ⟨hname, Or.inr ⟨dir, rfl⟩⟩
  · rw [basename_of_not_mem h]
    exact ⟨h, Or.inl rfl⟩

/-! ### Extensions -/

/-- The root of a name with a last dot. -/
theorem root_eq {stem ext : Text} (h : '.' ∉ ext) :
    (((stem ++ '.' :: ext).reverse.dropWhile (· ≠ '.')).tail).reverse = stem := by
  have hall : ∀ c ∈ ext.reverse, decide (c ≠ '.') = true :=
    fun c hc => decide_eq_true (ne_of_mem_of_not_mem (List.mem_reverse.mp hc) h)
  rw [List.reverse_append, List.reverse_cons, List.append_assoc,
    List.dropWhile_append_of_pos hall]
  show (List.dropWhile _ ('.' :: stem.reverse)).tail.reverse = stem
  rw [List.dropWhile_cons_of_neg (by decide), List.tail_cons, List.reverse_reverse]

/-- A name with an extension. -/
theorem splitext_name {stem ext : Text} (hstem : '/' ∉ stem) (hext : '/' ∉ ext) (hdot : '.' ∉ ext)
    (hany : stem.any (· ≠ '.') = true) : splitext (stem ++ '.' :: ext) = (stem, '.' :: ext) := by
  have hname : '/' ∉ stem ++ '.' :: ext := by
    rw [List.mem_append, List.mem_cons, not_or, not_or]
    exact ⟨hstem, by decide, hext⟩
  unfold splitext
  simp only [basename_of_not_mem hname, root_eq hdot]
  rw [if_pos hany, List.drop_left, List.length_append, Nat.add_sub_cancel, List.take_left]

/-- A path with an extension, taken apart. -/
theorem parts_of_splitext {p : Text} (h : (splitext p).2 ≠ []) :
    ∃ stem ext, basename p = stem ++ '.' :: ext ∧ (splitext p).2 = '.' :: ext ∧
      '/' ∉ stem ∧ '/' ∉ ext ∧ '.' ∉ ext ∧ stem.any (· ≠ '.') = true := by
  have hslash := (basename_cases p).1
  unfold splitext at h ⊢
  simp only at h ⊢
  generalize basename p = name at h hslash ⊢
  by_cases hdot : '.' ∈ name
  · obtain ⟨stem, ext, rfl, hext⟩ := exists_last hdot
    rw [List.mem_append, List.mem_cons, not_or, not_or] at hslash
    simp only [root_eq hext, List.drop_left] at h ⊢
    split_ifs at h with hany
    · refine ⟨stem, ext, rfl, ?_, hslash.1, hslash.2.2, hext, hany⟩
      rw [if_pos hany]
    · exact absurd rfl h
  · -- Without a dot the root is empty, and there is no extension.
    have hall : ∀ c ∈ name.reverse, decide (c ≠ '.') = true :=
      fun c hc => decide_eq_true (ne_of_mem_of_not_mem (List.mem_reverse.mp hc) hdot)
    rw [List.dropWhile_eq_nil_iff.mpr hall] at h
    exact absurd rfl h

/-! ### Normal paths -/

/-- A component that `normpath` keeps. -/
def Component (comp : Text) : Prop := comp ≠ [] ∧ comp ≠ ['.'] ∧ comp ≠ ['.', '.'] ∧ '/' ∉ comp

instance : DecidablePred Component := fun comp =>
  inferInstanceAs (Decidable (comp ≠ [] ∧ comp ≠ ['.'] ∧ comp ≠ ['.', '.'] ∧ '/' ∉ comp))

/-- One more component. -/
theorem intercalate_concat {comps : List Text} (hne : comps ≠ []) (comp : Text) :
    List.intercalate ['/'] (comps ++ [comp]) = List.intercalate ['/'] comps ++ '/' :: comp := by
  induction comps with
  | nil => exact absurd rfl hne
  | cons first comps ih =>
      cases comps with
      | nil => simp [List.intercalate]
      | cons second comps =>
          rw [List.cons_append, List.cons_append, List.intercalate_cons_cons,
            List.intercalate_cons_cons, ← List.cons_append, ih (List.cons_ne_nil _ _)]
          simp only [List.append_assoc]

theorem initialSlashes_cases (p : Text) :
    initialSlashes p = [] ∨ ∃ pre, initialSlashes p = pre ++ ['/'] := by
  unfold initialSlashes
  split
  · exact Or.inr ⟨[], rfl⟩
  · exact Or.inr ⟨['/'], rfl⟩
  · exact Or.inr ⟨[], rfl⟩
  · exact Or.inl rfl

/-- A component at the end of a path stays its base name, whatever stands in front of it. -/
theorem basename_normpath_concat {comp : Text} (h : Component comp) (dir : Text) :
    basename (normpath (dir ++ '/' :: comp)) = comp := by
  obtain ⟨hne, hdot, hdots, hslash⟩ := h
  have hsplit : (dir ++ '/' :: comp).splitOn '/' = dir.splitOn '/' ++ [comp] := by
    rw [List.splitOn_append_cons_self, List.splitOn_eq_singleton hslash]
  have hstep : ∀ rooted acc, normStep rooted acc comp = acc ++ [comp] := by
    intro rooted acc
    rw [normStep, if_neg (by simp [hne, hdot]), if_pos (Or.inl hdots)]
  have hslashes := initialSlashes_cases (dir ++ '/' :: comp)
  unfold normpath
  simp only [hsplit, List.foldl_append, List.foldl_cons, List.foldl_nil, hstep]
  generalize (dir.splitOn '/').foldl _ _ = acc
  generalize initialSlashes (dir ++ '/' :: comp) = slashes at hslashes
  by_cases hacc : acc = []
  · have hlast : List.intercalate ['/'] ([] ++ [comp]) = comp := by simp [List.intercalate]
    rw [hacc, hlast, if_neg (by simp [hne])]
    rcases hslashes with rfl | ⟨pre, rfl⟩
    · exact basename_of_not_mem hslash
    · rw [List.append_assoc]
      exact basename_append hslash pre
  · rw [intercalate_concat hacc, ← List.append_assoc, if_neg (by simp)]
    exact basename_append hslash _

end Path

end W2Net
