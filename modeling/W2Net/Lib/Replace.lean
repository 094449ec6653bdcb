import Mathlib.Data.List.Infix
import W2Net.Lib.Text

/-!
# `W2Net.Lib.Replace`: replacing in a text

`replace` is Python's `text.replace(old, new)`: the occurrences of `old` are replaced from the left,
and the text behind one of them is searched from its end on.

* `replace_eq_self`: without an occurrence nothing changes.
* `count_le_replace`, `count_lt_replace`: the number of times a character stands in the text
  grows with each occurrence when it stands more often in `new`. Together with
  `length_le_replace` it says when a replacement has changed the text.
* `replace_append`: a replacement goes piece by piece at a character that can only stand at the
  start of an occurrence.

`beforeFirst` is the text in front of the first occurrence.
-/

set_option autoImplicit false

namespace W2Net

namespace Text

/-- The loop of `replace`: `skip` counts the characters of an occurrence that are left. -/
def replaceLoop (old new : Text) : ℕ → Text → Text
  | _, [] => []
  | 0, c :: cs =>
      if old.isPrefixOf (c :: cs) then new ++ replaceLoop old new (old.length - 1) cs
      else c :: replaceLoop old new 0 cs
  | skip + 1, _ :: cs => replaceLoop old new skip cs

/-- `text.replace(old, new)` for an `old` that is not empty. -/
def replace (text old new : Text) : Text := replaceLoop old new 0 text

variable {old new : Text}

/-! ### The steps of the loop -/

theorem replaceLoop_skip (u s : Text) : replaceLoop old new u.length (u ++ s) = replace s old new := by
  induction u with
  | nil => rfl
  | cons c u ih => exact ih

/-- No occurrence starts at the first character. -/
theorem replace_cons {c : Char} {cs : Text} (h : ¬ old <+: c :: cs) :
    replace (c :: cs) old new = c :: replace cs old new := by
  rw [replace, replaceLoop, if_neg fun hstart => h (List.isPrefixOf_iff_prefix.mp hstart)]
  rfl

/-- An occurrence starts at the first character. -/
theorem replace_occurrence (hold : old ≠ []) (s : Text) :
    replace (old ++ s) old new = new ++ replace s old new := by
  obtain ⟨c, old', rfl⟩ := List.exists_cons_of_ne_nil hold
  have hstart : (c :: old').isPrefixOf (c :: (old' ++ s)) = true :=
    List.isPrefixOf_iff_prefix.mpr ⟨s, rfl⟩
  rw [List.cons_append, replace, replaceLoop, if_pos hstart]
  exact congrArg (new ++ ·) (replaceLoop_skip old' s)

/-- The induction along the loop: at each place the text is empty, an occurrence starts, or none
does. -/
theorem replace_induction (hold : old ≠ []) {P : Text → Prop} (nil : P [])
    (occurrence : ∀ s, P s → P (old ++ s))
    (other : ∀ c cs, ¬ old <+: c :: cs → P cs → P (c :: cs)) (s : Text) : P s := by
  induction hlength : s.length using Nat.strong_induction_on generalizing s with
  | _ n ih =>
      subst hlength
      cases s with
      | nil => exact nil
      | cons c cs =>
          by_cases hstart : old <+: c :: cs
          · obtain ⟨s, hs⟩ := hstart
            rw [← hs]
            refine occurrence s (ih s.length ?_ s rfl)
            have hpos := List.length_pos_iff.mpr hold
            rw [← hs, List.length_append]
            omega
          · exact other c cs hstart (ih cs.length (Nat.lt_succ_self _) cs rfl)

/-! ### What a replacement changes -/

theorem replace_eq_self {s : Text} (h : ¬ old <:+: s) : replace s old new = s := by
  induction s with
  | nil => rfl
  | cons c cs ih =>
      have hstart : ¬ old <+: c :: cs := fun hstart => h hstart.isInfix
      rw [replace_cons hstart, ih fun hrest => h (hrest.trans (List.suffix_cons c cs).isInfix)]

theorem length_le_replace (hold : old ≠ []) (hle : old.length ≤ new.length) (s : Text) :
    s.length ≤ (replace s old new).length := by
  induction s using replace_induction hold with
  | nil => exact Nat.le_refl _
  | occurrence s ih =>
      rw [replace_occurrence hold, List.length_append, List.length_append]
      exact Nat.add_le_add hle ih
  | other c cs h ih =>
      rw [replace_cons h]
      exact Nat.succ_le_succ ih

theorem count_le_replace (hold : old ≠ []) {c : Char} (hle : old.count c ≤ new.count c) (s : Text) :
    s.count c ≤ (replace s old new).count c := by
  induction s using replace_induction hold with
  | nil => exact Nat.le_refl _
  | occurrence s ih =>
      rw [replace_occurrence hold, List.count_append, List.count_append]
      exact Nat.add_le_add hle ih
  | other d cs h ih =>
      rw [replace_cons h, List.count_cons, List.count_cons]
      exact Nat.add_le_add_right ih _

/-- A text with an occurrence has more of the characters that `new` has more of. -/
theorem count_lt_replace (hold : old ≠ []) {c : Char} (hlt : old.count c < new.count c) {s : Text}
    (hmem : old <:+: s) : s.count c < (replace s old new).count c := by
  induction s using replace_induction hold with
  | nil => exact absurd (List.infix_nil.mp hmem) hold
  | occurrence s ih =>
      rw [replace_occurrence hold, List.count_append, List.count_append]
      exact Nat.add_lt_add_of_lt_of_le hlt (count_le_replace hold hlt.le s)
  | other d cs h ih =>
      have hrest : old <:+: cs := (List.infix_cons_iff.mp hmem).resolve_left h
      rw [replace_cons h, List.count_cons, List.count_cons]
      exact Nat.add_lt_add_right (ih hrest) _

/-- So a text without change had no occurrence. -/
theorem not_infix_of_count_eq (hold : old ≠ []) {c : Char} (hlt : old.count c < new.count c)
    {s : Text} (h : (replace s old new).count c = s.count c) : ¬ old <:+: s :=
  fun hmem => (count_lt_replace hold hlt hmem).ne' h

theorem mem_of_mem_replace (hold : old ≠ []) {c : Char} {s : Text} (h : c ∈ replace s old new) :
    c ∈ s ∨ c ∈ new := by
  induction s using replace_induction hold with
  | nil => cases h
  | occurrence s ih =>
      rw [replace_occurrence hold] at h
      rcases List.mem_append.mp h with h | h
      · exact Or.inr h
      · exact (ih h).imp_left (List.mem_append_right _)
  | other d cs hstart ih =>
      rw [replace_cons hstart] at h
      rcases List.mem_cons.mp h with rfl | h
      · exact Or.inl List.mem_cons_self
      · exact (ih h).imp_left (List.mem_cons_of_mem d)

/-! ### Piece by piece -/

/-- An occurrence from `u` on ends in front of a character that does not stand behind its first
one. -/
theorem prefix_append_iff {c d : Char} {old' u s : Text} (hc : c ∉ old') :
    d :: old' <+: d :: u ++ c :: s ↔ d :: old' <+: d :: u := by
  constructor
  · intro h
    refine List.prefix_of_prefix_length_le h (List.prefix_append _ _) ?_
    by_contra hlong
    rw [not_le] at hlong
    -- Otherwise the character behind `u` is one of `old'`.
    obtain ⟨rest, hrest⟩ := h
    rw [List.cons_append, List.cons_append, List.cons.injEq] at hrest
    rw [List.length_cons, List.length_cons, Nat.succ_lt_succ_iff] at hlong
    have hget : (old' ++ rest)[u.length]? = some c := by
      rw [hrest.2, List.getElem?_append_right (Nat.le_refl _), Nat.sub_self]
      rfl
    rw [List.getElem?_append_left hlong] at hget
    exact hc (List.mem_of_getElem? hget)
  · exact fun h => h.trans (List.prefix_append _ _)

/-- A replacement goes piece by piece at a character that does not stand behind the first one of
`old`. -/
theorem replace_append {c d : Char} {old' : Text} (hc : c ∉ old') (u s : Text) :
    replace (u ++ c :: s) (d :: old') new
      = replace u (d :: old') new ++ replace (c :: s) (d :: old') new := by
  have hold : d :: old' ≠ [] := List.cons_ne_nil _ _
  induction u using replace_induction hold with
  | nil => rfl
  | occurrence u ih =>
      rw [List.append_assoc, replace_occurrence hold, replace_occurrence hold, ih, List.append_assoc]
  | other e u h ih =>
      have hstart : ¬ d :: old' <+: e :: (u ++ c :: s) := by
        intro hstart
        obtain ⟨rest, hrest⟩ := id hstart
        obtain ⟨rfl, -⟩ := List.cons.inj hrest
        exact h ((prefix_append_iff hc).mp hstart)
      rw [List.cons_append, replace_cons hstart, replace_cons h, ih]
      rfl

/-! ### The text in front of an occurrence -/

/-- `text.split(sub, 1)[0]`: the text in front of the first occurrence of `sub`, or all of it. -/
def beforeFirst (sub : Text) : Text → Text
  | [] => []
  | c :: cs => if sub.isPrefixOf (c :: cs) then [] else c :: beforeFirst sub cs

theorem beforeFirst_prefix_self (sub s : Text) : beforeFirst sub s <+: s := by
  induction s with
  | nil => exact List.nil_prefix
  | cons c cs ih =>
      rw [beforeFirst]
      split
      · exact List.nil_prefix
      · exact List.cons_prefix_cons.mpr ⟨rfl, ih⟩

theorem beforeFirst_eq_self_iff {sub : Text} (hsub : sub ≠ []) (s : Text) :
    beforeFirst sub s = s ↔ ¬ sub <:+: s := by
  induction s with
  | nil =>
      rw [List.infix_nil]
      exact iff_of_true rfl hsub
  | cons c cs ih =>
      rw [beforeFirst, List.infix_cons_iff, ← List.isPrefixOf_iff_prefix]
      split
      · rename_i hstart
        exact iff_of_false (fun h => nomatch h) fun h => h (Or.inl hstart)
      · rename_i hstart
        rw [List.cons.injEq, and_iff_right rfl, ih, or_iff_right hstart]

/-- An occurrence in the first piece ends the search. -/
theorem beforeFirst_append_left {sub u : Text} (s : Text) (h : sub <:+: u) :
    beforeFirst sub (u ++ s) = beforeFirst sub u := by
  induction u with
  | nil =>
      rw [List.infix_nil] at h
      subst h
      cases s with
      | nil => rfl
      | cons c cs => rfl
  | cons c u ih =>
      rw [List.cons_append, beforeFirst, beforeFirst]
      by_cases hstart : sub <+: c :: u
      · have hlong : sub <+: c :: (u ++ s) := hstart.trans (List.prefix_append (c :: u) s)
        rw [if_pos (List.isPrefixOf_iff_prefix.mpr hlong),
          if_pos (List.isPrefixOf_iff_prefix.mpr hstart)]
      · have hrest := ih ((List.infix_cons_iff.mp h).resolve_left hstart)
        by_cases hlong : sub <+: c :: (u ++ s)
        · -- The occurrence would be longer than the piece that has one.
          have hlen := h.length_le
          exact absurd (List.prefix_of_prefix_length_le hlong (List.prefix_append (c :: u) s) hlen)
            hstart
        · rw [if_neg (mt List.isPrefixOf_iff_prefix.mp hlong),
            if_neg (mt List.isPrefixOf_iff_prefix.mp hstart), hrest]

/-- Behind a piece without an occurrence, the search goes on. -/
theorem beforeFirst_append {c d : Char} {sub' u : Text} (hc : c ∉ sub') (s : Text)
    (hu : ¬ d :: sub' <:+: u) :
    beforeFirst (d :: sub') (u ++ c :: s) = u ++ beforeFirst (d :: sub') (c :: s) := by
  induction u with
  | nil => rfl
  | cons e u ih =>
      rw [List.infix_cons_iff, not_or] at hu
      have hstart : ¬ (d :: sub').isPrefixOf (e :: (u ++ c :: s)) = true := by
        rw [List.isPrefixOf_iff_prefix]
        intro hstart
        obtain ⟨rest, hrest⟩ := id hstart
        obtain ⟨rfl, -⟩ := List.cons.inj hrest
        exact hu.1 ((prefix_append_iff hc).mp hstart)
      rw [List.cons_append, beforeFirst, if_neg hstart, ih hu.2]
      rfl

end Text

end W2Net
