import Mathlib.Data.Int.Notation
import Mathlib.Data.List.Basic
import Mathlib.Tactic.Common

/-!
# `W2Net.Lib.Text`: searching a text and cutting it

The operations of Python's `str` on a list of characters: `find`, slices,
`split` and `strip`. `split_of_indexOf` describes `split` by the first position of the
separator.

A text with markup is a list of tokens, tags and the data between them.
The name of a closing tag starts with a slash. `indexOf_tokens` finds a tag behind
tokens that do not have it, since a `<` stands only at the start of a tag. The rest
follows from it: `cut_element` is the data between two tags, `length_cut_missing` is about
tags that do not occur, and `split_tokens` splits at a tag.
-/

set_option autoImplicit false

namespace W2Net

abbrev Text : Type := List Char

namespace Text

/-! ### Python's operations -/

/-- The first position at which `sub` stands in the text. -/
def indexOf (sub : Text) : Text → Option ℕ
  | [] => if sub = [] then some 0 else none
  | c :: cs =>
      if sub.isPrefixOf (c :: cs) then some 0 else (indexOf sub cs).map fun i => i + 1

/-- `text.find(sub)`. -/
def find (text sub : Text) : ℤ :=
  match indexOf sub text with
  | some i => i
  | none => -1

/-- A bound of a slice: a negative one counts from the end. -/
def sliceBound (text : Text) (k : ℤ) : ℕ := (if k < 0 then text.length + k else k).toNat

/-- `text[i:j]`. -/
def slice (text : Text) (i j : ℤ) : Text := (text.take (sliceBound text j)).drop (sliceBound text i)

/-- The loop of `split`: the piece read so far is reversed, and `skip` counts the
characters of a separator that are left. -/
def splitLoop (sep : Text) : ℕ → Text → Text → List Text
  | _, piece, [] => [piece.reverse]
  | 0, piece, c :: cs =>
      if sep.isPrefixOf (c :: cs) then piece.reverse :: splitLoop sep (sep.length - 1) [] cs
      else splitLoop sep 0 (c :: piece) cs
  | skip + 1, piece, _ :: cs => splitLoop sep skip piece cs

/-- `text.split(sep)`. -/
def split (text sep : Text) : List Text := splitLoop sep 0 [] text

/-- `c.isspace()`. -/
def isSpace (c : Char) : Bool :=
  let n := c.toNat
  (9 ≤ n && n ≤ 13) || (28 ≤ n && n ≤ 32) || n == 0x85 || n == 0xA0 || n == 0x1680
    || (0x2000 ≤ n && n ≤ 0x200A) || n == 0x2028 || n == 0x2029 || n == 0x202F || n == 0x205F
    || n == 0x3000

/-- `text.strip()`. -/
def strip (text : Text) : Text := ((text.dropWhile isSpace).reverse.dropWhile isSpace).reverse

/-! ### Splitting -/

theorem splitLoop_skip (sep u piece s : Text) :
    splitLoop sep u.length piece (u ++ s) = splitLoop sep 0 piece s := by
  induction u with
  | nil => rfl
  | cons c u ih => exact ih

theorem splitLoop_of_indexOf_none {sep s : Text} (h : indexOf sep s = none) (piece : Text) :
    splitLoop sep 0 piece s = [piece.reverse ++ s] := by
  induction s generalizing piece with
  | nil => simp only [splitLoop, List.append_nil]
  | cons c cs ih =>
      unfold indexOf at h
      split at h
      · cases h
      · rename_i hstart
        rw [Option.map_eq_none_iff] at h
        simp only [splitLoop, hstart]
        rw [if_neg (by simp), ih h, List.reverse_cons, List.append_assoc]
        rfl

theorem splitLoop_of_indexOf {sep s : Text} {i : ℕ} (hsep : sep ≠ []) (h : indexOf sep s = some i)
    (piece : Text) :
    splitLoop sep 0 piece s
      = (piece.reverse ++ s.take i) :: split (s.drop (i + sep.length)) sep := by
  induction s generalizing piece i with
  | nil =>
      simp only [indexOf, if_neg hsep] at h
      cases h
  | cons c cs ih =>
      unfold indexOf at h
      split at h
      · rename_i hstart
        cases h
        obtain ⟨rest, hrest⟩ := List.isPrefixOf_iff_prefix.mp hstart
        obtain ⟨d, sep', rfl⟩ := List.exists_cons_of_ne_nil hsep
        rw [List.cons_append, List.cons.injEq] at hrest
        obtain ⟨rfl, rfl⟩ := hrest
        -- The separator starts here: the piece ends, and its letters are skipped.
        simp only [splitLoop, hstart, ↓reduceIte, List.length_cons, Nat.add_sub_cancel,
          List.take_zero, List.append_nil, Nat.zero_add, List.drop_succ_cons, List.drop_left]
        rw [splitLoop_skip, split]
      · rename_i hstart
        obtain ⟨j, hj, rfl⟩ := Option.map_eq_some_iff.mp h
        simp only [splitLoop, hstart]
        rw [if_neg (by simp), ih hj, List.reverse_cons, List.append_assoc, List.take_succ_cons,
          Nat.add_right_comm, List.drop_succ_cons]
        rfl

/-- `split` cuts at the first separator. -/
theorem split_of_indexOf {sep s : Text} {i : ℕ} (hsep : sep ≠ []) (h : indexOf sep s = some i) :
    split s sep = s.take i :: split (s.drop (i + sep.length)) sep := splitLoop_of_indexOf hsep h []

theorem split_of_indexOf_none {sep s : Text} (h : indexOf sep s = none) : split s sep = [s] :=
  splitLoop_of_indexOf_none h []

/-! ### Markup -/

/-- A tag, or the data between two tags. -/
inductive Token where
  | tag (name : Text)
  | data (s : Text)
  deriving DecidableEq

/-- `<name>`. -/
def tagText (name : Text) : Text := '<' :: (name ++ ['>'])

namespace Token

def text : Token → Text
  | tag name => tagText name
  | data s => s

/-- No `<` in the data, and no bracket in the name. -/
def Plain : Token → Prop
  | tag name => '<' ∉ name ∧ '>' ∉ name
  | data s => '<' ∉ s

instance : DecidablePred Plain
  | tag _ => inferInstanceAs (Decidable (_ ∧ _))
  | data _ => inferInstanceAs (Decidable (_ ∉ _))

end Token

/-- The text of a list of tokens. -/
def ofTokens (toks : List Token) : Text := toks.flatMap Token.text

@[simp] theorem ofTokens_nil : ofTokens [] = [] := rfl

@[simp] theorem ofTokens_cons (tok : Token) (toks : List Token) :
    ofTokens (tok :: toks) = tok.text ++ ofTokens toks := List.flatMap_cons

@[simp] theorem ofTokens_append (toks toks' : List Token) :
    ofTokens (toks ++ toks') = ofTokens toks ++ ofTokens toks' := List.flatMap_append

theorem indexOf_self {name : Text} (s : Text) : indexOf (tagText name) (tagText name ++ s) = some 0 := by
  have hstart : (tagText name).isPrefixOf (tagText name ++ s) = true :=
    List.isPrefixOf_iff_prefix.mpr (List.prefix_append _ _)
  simp only [tagText, List.cons_append] at hstart ⊢
  simp only [indexOf, hstart, ↓reduceIte]

/-- No tag starts inside a text without `<`. -/
theorem indexOf_skip {u : Text} (hu : '<' ∉ u) (name s : Text) :
    indexOf (tagText name) (u ++ s) = (indexOf (tagText name) s).map (· + u.length) := by
  induction u with
  | nil => simp
  | cons c u ih =>
      rw [List.mem_cons, not_or] at hu
      have hstart : (tagText name).isPrefixOf (c :: (u ++ s)) = false := by
        simp [tagText, List.isPrefixOf, hu.1]
      simp only [List.cons_append, indexOf, hstart]
      rw [if_neg (by simp), ih hu.2, Option.map_map]
      rfl

/-- The name of a tag ends at its bracket. -/
theorem tagText_name_unique {name name' s : Text} (h : '>' ∉ name) (h' : '>' ∉ name')
    (hstart : tagText name <+: tagText name' ++ s) : name = name' := by
  obtain ⟨r, hr⟩ := hstart
  simp only [tagText, List.cons_append, List.append_assoc, List.nil_append, List.cons.injEq,
    true_and] at hr
  have hname : ∀ {u t : Text}, '>' ∉ u → (u ++ '>' :: t).takeWhile (· ≠ '>') = u := by
    intro u t hu
    have hall : ∀ c ∈ u, decide (c ≠ '>') = true := fun c hc => by
      simpa using ne_of_mem_of_not_mem hc hu
    rw [List.takeWhile_append_of_pos hall]
    simp
  rw [← hname h, hr, hname h']

theorem indexOf_other {name name' : Text} (hname : '>' ∉ name) (hplain : (Token.tag name').Plain)
    (hne : name ≠ name') (s : Text) :
    indexOf (tagText name) (tagText name' ++ s)
      = (indexOf (tagText name) s).map (· + (tagText name').length) := by
  obtain ⟨hopen, hclose⟩ := hplain
  have hstart : ¬(tagText name).isPrefixOf (tagText name' ++ s) = true := by
    rw [List.isPrefixOf_iff_prefix]
    exact fun h => hne (tagText_name_unique hname hclose h)
  have hrest : '<' ∉ name' ++ ['>'] := by
    rw [List.mem_append, not_or]
    exact ⟨hopen, by decide⟩
  have hskip := indexOf_skip hrest name s
  simp only [tagText, List.cons_append] at hstart hskip ⊢
  simp only [indexOf, hstart]
  rw [if_neg (by simp), hskip, Option.map_map]
  rfl

/-- A tag is not found in tokens that do not have it. -/
theorem indexOf_tokens {toks : List Token} {name : Text} (hplain : ∀ tok ∈ toks, tok.Plain)
    (hname : '>' ∉ name) (hmem : Token.tag name ∉ toks) (s : Text) :
    indexOf (tagText name) (ofTokens toks ++ s)
      = (indexOf (tagText name) s).map (· + (ofTokens toks).length) := by
  induction toks with
  | nil => simp
  | cons tok toks ih =>
      rw [List.forall_mem_cons] at hplain
      rw [List.mem_cons, not_or] at hmem
      have hrest := ih hplain.2 hmem.2
      -- The search passes the first token: it is another tag, or data without an angle bracket.
      have htok : indexOf (tagText name) (tok.text ++ (ofTokens toks ++ s))
          = (indexOf (tagText name) (ofTokens toks ++ s)).map (· + tok.text.length) := by
        cases tok with
        | tag name' => exact indexOf_other hname hplain.1 (fun h => hmem.1 (h ▸ rfl)) _
        | data u => exact indexOf_skip hplain.1 name _
      rw [ofTokens_cons, List.append_assoc, htok, hrest, Option.map_map, List.length_append]
      congr 1
      funext k
      show k + (ofTokens toks).length + tok.text.length = k + (tok.text.length + (ofTokens toks).length)
      omega

theorem indexOf_tokens_tag {toks : List Token} {name : Text} (hplain : ∀ tok ∈ toks, tok.Plain)
    (hname : '>' ∉ name) (hmem : Token.tag name ∉ toks) (s : Text) :
    indexOf (tagText name) (ofTokens toks ++ (tagText name ++ s)) = some (ofTokens toks).length := by
  rw [indexOf_tokens hplain hname hmem, indexOf_self, Option.map_some, Nat.zero_add]

theorem indexOf_tokens_none {toks : List Token} {name : Text} (hplain : ∀ tok ∈ toks, tok.Plain)
    (hname : '>' ∉ name) (hmem : Token.tag name ∉ toks) :
    indexOf (tagText name) (ofTokens toks) = none := by
  have h := indexOf_tokens hplain hname hmem []
  rw [List.append_nil] at h
  rw [h]
  rfl

/-- The slice between two positions. -/
theorem slice_append (a b c : Text) :
    slice (a ++ (b ++ c)) a.length ((a.length + b.length : ℕ) : ℤ) = b := by
  have hbound : ∀ k : ℕ, sliceBound (a ++ (b ++ c)) k = k := by
    intro k
    rw [sliceBound, if_neg (by omega), Int.toNat_natCast]
  rw [slice, hbound, hbound, ← List.append_assoc, ← List.length_append, List.take_left,
    List.drop_left]

/-- The text between the first `<name>` and the first `</name>`, as
`text[text.find('<name>') + k : text.find('</name>')]` with the length `k` of the tag. -/
def cut (text name : Text) (k : ℕ) : Text :=
  slice text (find text (tagText name) + k) (find text (tagText ('/' :: name)))

/-- The data of an element that stands behind other elements. -/
theorem cut_element {pre post : List Token} {name v : Text} (hpre : ∀ tok ∈ pre, tok.Plain)
    (hname : '>' ∉ name) (hname' : '<' ∉ name) (hv : '<' ∉ v) (hopen : Token.tag name ∉ pre)
    (hclose : Token.tag ('/' :: name) ∉ pre) :
    cut (ofTokens (pre ++ .tag name :: .data v :: .tag ('/' :: name) :: post)) name
      (name.length + 2) = v := by
  -- The text is read twice: up to the opening tag, and up to the closing one.
  have hopenText : ofTokens (pre ++ .tag name :: .data v :: .tag ('/' :: name) :: post)
      = ofTokens pre ++ (tagText name ++ (v ++ (tagText ('/' :: name) ++ ofTokens post))) := by
    simp [Token.text]
  have hcloseText : ofTokens (pre ++ .tag name :: .data v :: .tag ('/' :: name) :: post)
      = ofTokens (pre ++ [.tag name, .data v]) ++ (tagText ('/' :: name) ++ ofTokens post) := by
    simp [Token.text]
  have hplain : ∀ tok ∈ pre ++ [.tag name, .data v], tok.Plain := by
    intro tok htok
    rcases List.mem_append.mp htok with htok | htok
    · exact hpre tok htok
    · rcases List.mem_pair.mp htok with rfl | rfl
      · exact ⟨hname', hname⟩
      · exact hv
  have hslash : '>' ∉ '/' :: name := by simpa using hname
  -- The closing tag is in neither part before it, so `find` stops at it.
  have hother : Token.tag ('/' :: name) ∉ pre ++ [.tag name, .data v] := by
    simpa using hclose
  have hfind : find (ofTokens (pre ++ .tag name :: .data v :: .tag ('/' :: name) :: post))
      (tagText name) = (ofTokens pre).length := by
    rw [find, hopenText, indexOf_tokens_tag hpre hname hopen]
  have hfind' : find (ofTokens (pre ++ .tag name :: .data v :: .tag ('/' :: name) :: post))
      (tagText ('/' :: name)) = (ofTokens (pre ++ [.tag name, .data v])).length := by
    rw [find, hcloseText, indexOf_tokens_tag hplain hslash hother]
  have hlen : (ofTokens (pre ++ [.tag name, .data v])).length
      = (ofTokens pre ++ tagText name).length + v.length := by
    simp [Token.text]
    omega
  have htag : (ofTokens pre).length + (name.length + 2) = (ofTokens pre ++ tagText name).length := by
    simp [tagText]
  have hcut := slice_append (ofTokens pre ++ tagText name) v (tagText ('/' :: name) ++ ofTokens post)
  rw [List.append_assoc] at hcut
  rw [cut, hfind, hfind', hlen, hopenText, ← Int.natCast_add, htag]
  exact hcut

/-- Without the tags both searches return -1, and the slice is what is left from there. -/
theorem length_cut_missing {toks : List Token} {name : Text} {k : ℕ}
    (hplain : ∀ tok ∈ toks, tok.Plain) (hname : '>' ∉ name) (hopen : Token.tag name ∉ toks)
    (hclose : Token.tag ('/' :: name) ∉ toks) (hk : 0 < k) :
    (cut (ofTokens toks) name k).length = (ofTokens toks).length - k := by
  have hslash : '>' ∉ '/' :: name := by simpa using hname
  have hfind : find (ofTokens toks) (tagText name) = -1 := by
    rw [find, indexOf_tokens_none hplain hname hopen]
  have hfind' : find (ofTokens toks) (tagText ('/' :: name)) = -1 := by
    rw [find, indexOf_tokens_none hplain hslash hclose]
  rw [cut, hfind, hfind', slice, List.length_drop, List.length_take, sliceBound, sliceBound,
    if_pos (by omega), if_neg (by omega)]
  omega

/-- Splitting tokens at a tag that none of the pieces has. -/
theorem split_tokens {name : Text} (hname : '>' ∉ name) {pieces : List (List Token)}
    (hplain : ∀ toks ∈ pieces, ∀ tok ∈ toks, tok.Plain)
    (hmem : ∀ toks ∈ pieces, Token.tag name ∉ toks) {info : List Token}
    (hinfo : ∀ tok ∈ info, tok.Plain) (hinfo' : Token.tag name ∉ info) :
    split (ofTokens (info ++ pieces.flatMap fun toks => .tag name :: toks)) (tagText name)
      = ofTokens info :: pieces.map ofTokens := by
  have hsep : tagText name ≠ [] := List.cons_ne_nil _ _
  induction pieces generalizing info with
  | nil =>
      rw [List.flatMap_nil, List.append_nil]
      exact split_of_indexOf_none (indexOf_tokens_none hinfo hname hinfo')
  | cons toks pieces ih =>
      rw [List.forall_mem_cons] at hplain hmem
      have htext : ofTokens (info ++ (toks :: pieces).flatMap fun toks => .tag name :: toks)
          = ofTokens info
            ++ (tagText name ++ ofTokens (toks ++ pieces.flatMap fun toks => .tag name :: toks)) := by
        simp [Token.text]
      -- The first piece ends at the first tag with the name.
      have hfirst := indexOf_tokens_tag hinfo hname hinfo'
        (ofTokens (toks ++ pieces.flatMap fun toks => .tag name :: toks))
      rw [htext, split_of_indexOf hsep hfirst, List.take_left, ← List.append_assoc,
        ← List.length_append, List.drop_left, ih hplain.2 hmem.2 hplain.1 hmem.1]
      rfl

end Text

end W2Net
