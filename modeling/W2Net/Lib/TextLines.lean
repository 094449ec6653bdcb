import Mathlib.Data.List.Infix
import W2Net.Lib.Text

/-!
# `W2Net.Lib.TextLines`: the lines of a text file and their words

`readlines` is `f.readlines()` of a file that was opened as text, without the line feeds, and
`words` is `line.split()`. `readlines_unlines` and `words_unwords` are the round trips for lines
and words that were joined. `infix_unwords` looks for a text without a space in them.
-/

set_option autoImplicit false

namespace W2Net.Text

/-- The ends of lines of a file that is opened as text. -/
def universalNewlines : Text → Text
  | '\r' :: '\n' :: cs => '\n' :: universalNewlines cs
  | '\r' :: cs => '\n' :: universalNewlines cs
  | c :: cs => c :: universalNewlines cs
  | [] => []

/-- The lines of a file. A text behind the last line feed is a line when it is not empty. -/
def readlines (content : Text) : List Text :=
  let pieces := (universalNewlines content).splitOn '\n'
  if pieces.getLast? = some [] then pieces.dropLast else pieces

/-- `line.split()`. -/
def words (line : Text) : List Text := (line.splitOnP isSpace).filter (· ≠ [])

/-! ### Lines -/

/-- A file with these lines. -/
def unlines (lines : List Text) : Text := lines.flatMap fun line => line ++ ['\n']

theorem universalNewlines_eq_self {text : Text} (h : '\r' ∉ text) :
    universalNewlines text = text := by
  induction text with
  | nil => rfl
  | cons c cs ih =>
      rw [List.mem_cons, not_or] at h
      unfold universalNewlines
      split
      · rename_i heq
        exact absurd (List.cons.inj heq).1.symm h.1
      · rename_i heq
        exact absurd (List.cons.inj heq).1.symm h.1
      · rename_i heq
        obtain ⟨rfl, rfl⟩ := List.cons.inj heq
        rw [ih h.2]
      · rename_i heq
        cases heq

theorem splitOn_unlines {lines : List Text} (h : ∀ line ∈ lines, '\n' ∉ line) :
    (unlines lines).splitOn '\n' = lines ++ [[]] := by
  have hjoin : unlines lines = List.intercalate ['\n'] (lines ++ [[]]) := by
    induction lines with
    | nil => rfl
    | cons line lines ih =>
        rw [List.forall_mem_cons] at h
        have hrest : lines ++ [([] : Text)] ≠ [] := by simp
        obtain ⟨first, rest, heq⟩ := List.exists_cons_of_ne_nil hrest
        show (line ++ ['\n']) ++ unlines lines = _
        rw [ih h.2, List.cons_append, heq, List.intercalate_cons_cons]
  rw [hjoin]
  refine List.splitOn_intercalate '\n' ?_ (by simp)
  intro line hline
  rcases List.mem_append.mp hline with hmem | hnil
  · exact h line hmem
  · rw [List.mem_singleton.mp hnil]
    exact List.not_mem_nil

/-- The lines that were written are read. -/
theorem readlines_unlines {lines : List Text} (hfeed : ∀ line ∈ lines, '\n' ∉ line)
    (hreturn : ∀ line ∈ lines, '\r' ∉ line) : readlines (unlines lines) = lines := by
  have hplain : '\r' ∉ unlines lines := by
    intro hmem
    obtain ⟨line, hline, hc⟩ := List.mem_flatMap.mp hmem
    rcases List.mem_append.mp hc with hin | hend
    · exact hreturn line hline hin
    · cases List.mem_singleton.mp hend
  rw [readlines, universalNewlines_eq_self hplain, splitOn_unlines hfeed]
  simp

/-! ### Words -/

/-- A word: it is not empty and has no white space. -/
def Word (word : Text) : Prop := word ≠ [] ∧ ∀ c ∈ word, isSpace c = false

theorem word_of_all {word : Text} (hne : word ≠ [])
    (h : (word.all fun c => isSpace c == false) = true) : Word word :=
  ⟨hne, fun c hc => eq_of_beq (List.all_eq_true.mp h c hc)⟩

/-- A line with these words. -/
def unwords (ws : List Text) : Text := List.intercalate [' '] ws

theorem unwords_singleton (w : Text) : unwords [w] = w := by simp [unwords, List.intercalate]

theorem unwords_cons_cons (w w' : Text) (ws : List Text) :
    unwords (w :: w' :: ws) = w ++ ' ' :: unwords (w' :: ws) := by
  rw [unwords, List.intercalate_cons_cons, List.append_assoc]
  rfl

/-- The words that were joined are read. -/
theorem words_unwords {ws : List Text} (h : ∀ w ∈ ws, Word w) : words (unwords ws) = ws := by
  induction ws with
  | nil => rfl
  | cons w ws ih =>
      rw [List.forall_mem_cons] at h
      obtain ⟨⟨hne, hspace⟩, hws⟩ := h
      cases ws with
      | nil =>
          rw [unwords_singleton, words, List.splitOnP_eq_singleton hspace]
          simp [hne]
      | cons w' ws =>
          have ih' := ih hws
          rw [words] at ih'
          rw [unwords_cons_cons, words, List.splitOnP_append_cons_of_forall_mem hspace ' ' (by decide),
            List.filter_cons,
            if_pos (decide_eq_true hne), ih']

/-- The characters of a line are those of its words and the spaces between them. -/
theorem mem_unwords {ws : List Text} {c : Char} (hc : c ∈ unwords ws) :
    c = ' ' ∨ ∃ w ∈ ws, c ∈ w := by
  induction ws with
  | nil => exact absurd hc List.not_mem_nil
  | cons w ws ih =>
      cases ws with
      | nil =>
          rw [unwords_singleton] at hc
          exact .inr ⟨w, List.mem_singleton_self w, hc⟩
      | cons w' ws =>
          rw [unwords_cons_cons, List.mem_append, List.mem_cons] at hc
          rcases hc with hw | hspace | hrest
          · exact .inr ⟨w, List.mem_cons_self, hw⟩
          · exact .inl hspace
          · rcases ih hrest with hspace | ⟨v, hv, hcv⟩
            · exact .inl hspace
            · exact .inr ⟨v, List.mem_cons_of_mem w hv, hcv⟩

/-- A text whose first and last characters are not white space. -/
theorem strip_eq_self {text : Text} (hhead : ∀ c ∈ text.head?, isSpace c = false)
    (hlast : ∀ c ∈ text.getLast?, isSpace c = false) : strip text = text := by
  have hdrop : ∀ {s : Text}, (∀ c ∈ s.head?, isSpace c = false) → s.dropWhile isSpace = s := by
    intro s hs
    cases s with
    | nil => rfl
    | cons c cs => exact List.dropWhile_cons_of_neg (by rw [hs c rfl]; decide)
  rw [strip, hdrop hhead, hdrop, List.reverse_reverse]
  intro c hc
  rw [List.head?_reverse] at hc
  exact hlast c hc

/-- The ends of a line are the first character of its first word and the last one of its last
word. -/
theorem ends_unwords {ws : List Text} (h : ∀ w ∈ ws, Word w) :
    (∀ c ∈ (unwords ws).head?, isSpace c = false) ∧
      ∀ c ∈ (unwords ws).getLast?, isSpace c = false := by
  induction ws with
  | nil =>
      constructor
      · intro c hc
        cases hc
      · intro c hc
        cases hc
  | cons w ws ih =>
      rw [List.forall_mem_cons] at h
      obtain ⟨⟨hne, hspace⟩, hws⟩ := h
      have hhead : ∀ rest : Text, ∀ c ∈ (w ++ rest).head?, isSpace c = false := by
        intro rest c hc
        rw [List.head?_append_of_ne_nil w hne] at hc
        exact hspace c (List.mem_of_mem_head? hc)
      cases ws with
      | nil =>
          rw [unwords_singleton]
          refine ⟨fun c hc => hspace c (List.mem_of_mem_head? hc), ?_⟩
          intro c hc
          exact hspace c (List.mem_of_getLast? hc)
      | cons w' ws =>
          rw [unwords_cons_cons]
          refine ⟨hhead _, ?_⟩
          intro c hc
          have hrest : unwords (w' :: ws) ≠ [] := by
            cases ws with
            | nil =>
                rw [unwords_singleton]
                exact (hws w' List.mem_cons_self).1
            | cons w'' ws =>
                rw [unwords_cons_cons]
                exact List.append_ne_nil_of_left_ne_nil (hws w' List.mem_cons_self).1 _
          rw [List.getLast?_append_of_ne_nil _ (List.cons_ne_nil _ _),
            List.getLast?_cons_of_ne_nil hrest] at hc
          exact (ih hws).2 c hc

/-- A line of words has no white space at its ends. -/
theorem strip_unwords {ws : List Text} (h : ∀ w ∈ ws, Word w) :
    strip (unwords ws) = unwords ws :=
  strip_eq_self (ends_unwords h).1 (ends_unwords h).2

/-! ### Finding a word -/

theorem indexOf_eq_none_iff {sub text : Text} : indexOf sub text = none ↔ ¬sub <:+: text := by
  induction text with
  | nil =>
      rw [indexOf, List.infix_nil]
      split
      · rename_i hnil
        simp [hnil]
      · rename_i hne
        simp [hne]
  | cons c cs ih =>
      rw [indexOf, List.infix_cons_iff, not_or, ← List.isPrefixOf_iff_prefix]
      split
      · rename_i hstart
        simp [hstart]
      · rename_i hstart
        rw [Option.map_eq_none_iff, ih]
        simp [hstart]

/-- A text without a space stands on one side of a space. -/
theorem infix_append_space {sub a b : Text} (hspace : ' ' ∉ sub) (hne : sub ≠ []) :
    sub <:+: a ++ ' ' :: b ↔ sub <:+: a ∨ sub <:+: b := by
  have hstart : ∀ u : Text, sub <+: u ++ ' ' :: b → sub <+: u := by
    intro u hsub
    have hu : u ++ [' '] <+: u ++ ' ' :: b := ⟨b, by simp⟩
    rcases List.prefix_or_prefix_of_prefix hsub hu with hle | hge
    · rcases List.prefix_concat_iff.mp hle with heq | hle
      · exact absurd (by rw [heq]; simp) hspace
      · exact hle
    · exact absurd (hge.subset (by simp)) hspace
  induction a with
  | nil =>
      rw [List.nil_append, List.infix_cons_iff, List.infix_nil]
      constructor
      · rintro (hpre | hin)
        · exact absurd (List.prefix_nil.mp (hstart [] hpre)) hne
        · exact .inr hin
      · rintro (hnil | hin)
        · exact absurd hnil hne
        · exact .inr hin
  | cons c a ih =>
      have hpre : sub <+: c :: (a ++ ' ' :: b) ↔ sub <+: c :: a :=
        ⟨hstart (c :: a), fun h => h.trans (List.prefix_append (c :: a) _)⟩
      rw [List.cons_append, List.infix_cons_iff, List.infix_cons_iff, hpre, or_assoc]
      exact or_congr_right ih

/-- A text without a space is found in a line exactly when it is found in a word. -/
theorem infix_unwords {sub : Text} (hspace : ' ' ∉ sub) (hne : sub ≠ []) (ws : List Text) :
    sub <:+: unwords ws ↔ ∃ w ∈ ws, sub <:+: w := by
  induction ws with
  | nil =>
      rw [unwords]
      simp [List.intercalate, hne]
  | cons w ws ih =>
      cases ws with
      | nil => simp [unwords_singleton]
      | cons w' ws =>
          rw [unwords_cons_cons, infix_append_space hspace hne, ih,
            List.exists_mem_cons_iff (a := w)]

end W2Net.Text
