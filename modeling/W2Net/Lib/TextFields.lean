import Mathlib.Data.List.TakeWhile
import W2Net.Lib.TextLines

/-!
# `W2Net.Lib.TextFields`: the fields of a line

`split` at one character cuts behind a piece without it (`split_char`), so the first field is the
text up to the character (`head_split_char`). `rstrip` is the second half of `strip`. It leaves
what ends with a word (`rstrip_word`), and `strip_padded` takes off the white space in front.
`head_split_strip` puts the two together.
-/

set_option autoImplicit false

namespace W2Net.Text

/-! ### Splitting at a character -/

theorem indexOf_char {c : Char} {u : Text} (hu : c ∉ u) (s : Text) :
    indexOf [c] (u ++ c :: s) = some u.length := by
  induction u with
  | nil => simp [indexOf]
  | cons d u ih =>
      rw [List.mem_cons, not_or] at hu
      have hne : ¬ [c].isPrefixOf (d :: (u ++ c :: s)) = true := by simp [hu.1]
      rw [List.cons_append, indexOf, if_neg hne, ih hu.2]
      rfl

/-- The first piece ends at the first separator. -/
theorem split_char {c : Char} {u : Text} (hu : c ∉ u) (s : Text) :
    split (u ++ c :: s) [c] = u :: split s [c] := by
  rw [split_of_indexOf (List.cons_ne_nil c []) (indexOf_char hu s), List.take_left]
  simp

theorem split_char_of_notMem {c : Char} {u : Text} (hu : c ∉ u) : split u [c] = [u] :=
  split_of_indexOf_none (indexOf_eq_none_iff.mpr (by rwa [List.singleton_infix_iff]))

/-- The first field. -/
theorem head_split_char (c : Char) (s : Text) :
    (split s [c]).headD [] = s.takeWhile fun d => d != c := by
  have htake : ∀ {u : Text}, c ∉ u → ∀ d ∈ u, (d != c) = true := by
    intro u hu d hd
    rw [bne_iff_ne]
    rintro rfl
    exact hu hd
  by_cases hc : c ∈ s
  · obtain ⟨u, t, rfl, hu⟩ := List.eq_append_cons_of_mem hc
    rw [split_char hu, List.takeWhile_append_of_pos (htake hu)]
    simp
  · rw [split_char_of_notMem hc]
    exact (List.takeWhile_eq_self_iff.mpr (htake hc)).symm

/-! ### White space at the ends -/

/-- `text.rstrip()`. -/
def rstrip (text : Text) : Text := (text.reverse.dropWhile isSpace).reverse

theorem rstrip_prefix (s : Text) : rstrip s <+: s := by
  have hsuffix := List.dropWhile_suffix isSpace (l := s.reverse)
  rwa [← List.reverse_prefix, List.reverse_reverse] at hsuffix

/-- A word in front keeps what stands before it. -/
theorem rstrip_word (a : Text) {w : Text} (hw : Word w) (tail : Text) :
    rstrip (a ++ (w ++ tail)) = a ++ (w ++ rstrip tail) := by
  have hstop : ∀ b : Text, (w.reverse ++ b).dropWhile isSpace = w.reverse ++ b := by
    intro b
    cases hrev : w.reverse with
    | nil => exact absurd (List.reverse_eq_nil_iff.mp hrev) hw.1
    | cons c cs =>
        have hc : isSpace c = false := hw.2 c (List.mem_reverse.mp (hrev ▸ List.mem_cons_self))
        rw [List.cons_append, List.dropWhile_cons_of_neg (by rw [hc]; decide)]
  rw [rstrip, rstrip, List.reverse_append, List.reverse_append, List.append_assoc,
    List.dropWhile_append]
  split
  · rename_i hnil
    rw [List.isEmpty_iff.mp hnil, hstop]
    simp
  · simp

theorem strip_padded {pad t : Text} (hpad : ∀ c ∈ pad, isSpace c = true)
    (ht : ∀ c ∈ t.head?, isSpace c = false) : strip (pad ++ t) = rstrip t := by
  have hdrop : t.dropWhile isSpace = t := by
    cases t with
    | nil => rfl
    | cons c cs => exact List.dropWhile_cons_of_neg (by rw [ht c rfl]; decide)
  rw [strip, List.dropWhile_append_of_pos hpad, hdrop, rstrip]

/-- The first word of a padded text, when a space follows it. -/
theorem head_split_strip {pad w rest : Text} (hpad : ∀ c ∈ pad, isSpace c = true) (hw : Word w)
    (hrest : ∀ c ∈ rest.head?, c = ' ') :
    (split (strip (pad ++ (w ++ rest))) [' ']).headD [] = w := by
  have hhead : ∀ d ∈ (w ++ rest).head?, isSpace d = false := by
    intro d hd
    obtain ⟨e, es, rfl⟩ := List.exists_cons_of_ne_nil hw.1
    cases hd
    exact hw.2 _ List.mem_cons_self
  have hnospace : ∀ d ∈ w, (d != ' ') = true := by
    intro d hd
    rw [bne_iff_ne]
    rintro rfl
    exact absurd (hw.2 ' ' hd) (by decide)
  have hend : (rstrip rest).takeWhile (fun d => d != ' ') = [] := by
    cases hstrip : rstrip rest with
    | nil => rfl
    | cons d ds =>
        obtain ⟨suffix, hsuffix⟩ := rstrip_prefix rest
        rw [hstrip] at hsuffix
        have hd : d = ' ' := hrest d (by rw [← hsuffix]; rfl)
        rw [hd]
        rfl
  have hrstrip := rstrip_word [] hw rest
  rw [List.nil_append, List.nil_append] at hrstrip
  rw [strip_padded hpad hhead, head_split_char, hrstrip, List.takeWhile_append_of_pos hnospace,
    hend, List.append_nil]

end W2Net.Text
