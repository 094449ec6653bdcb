import Mathlib.Data.List.Induction
import Mathlib.Data.List.Nodup
import Mathlib.Tactic.Common

/-!
# `W2Net.Lib.GreedyFilter`: greedy selection along a list

`greedyFilter r l` walks `l` from the front and keeps an element when no
element kept so far conflicts with it, where `r y x` says that `y` excludes
`x`. No property of `r` is assumed: it need not be symmetric or transitive.

* `greedyFilter_append`: the selection of a prefix is a prefix of the
  selection.
* `mem_greedyFilter`: on a list without duplicates, an element is kept exactly
  when no kept element in front of it excludes it.
* `exists_excludes`: a dropped element is excluded by a kept one in front of
  it.
* `greedyFilter_pairwise`, `greedyFilter_eq_self`: no kept element excludes a
  later one, and a list with this property is kept as a whole.
* `greedyFilter_congr`, `map_greedyFilter`: the selection under other exclusions
  and under a map.
* `greedyFilter_filter_iff`: when a filter may be applied before the selection
  instead of after it.
-/

set_option autoImplicit false

namespace W2Net

variable {α : Type} (r : α → α → Bool)

/-- One step: `x` joins the selection unless a selected element excludes it. -/
def greedyStep (kept : List α) (x : α) : List α :=
  if kept.any (r · x) then kept else kept ++ [x]

/-- The greedy selection of a list. -/
def greedyFilter (l : List α) : List α := l.foldl (greedyStep r) []

/-- The steps over a list only append elements of it. -/
private theorem foldl_greedyStep (l : List α) :
    ∀ kept : List α, ∃ extra, l.foldl (greedyStep r) kept = kept ++ extra ∧ extra.Sublist l := by
  induction l with
  | nil => intro kept; exact ⟨[], by simp, List.Sublist.refl _⟩
  | cons a l ih =>
      intro kept
      rw [List.foldl_cons, greedyStep]
      split
      · obtain ⟨extra, heq, hsub⟩ := ih kept
        exact ⟨extra, heq, hsub.cons a⟩
      · obtain ⟨extra, heq, hsub⟩ := ih (kept ++ [a])
        refine ⟨a :: extra, ?_, hsub.cons_cons a⟩
        rw [heq, List.append_assoc, List.singleton_append]

/-- The selection of a prefix is a prefix of the selection, and the rest comes
from the rest of the list. -/
theorem greedyFilter_append (pre post : List α) :
    ∃ extra, greedyFilter r (pre ++ post) = greedyFilter r pre ++ extra ∧
      extra.Sublist post := by
  rw [greedyFilter, List.foldl_append]
  exact foldl_greedyStep r post _

theorem greedyFilter_sublist (l : List α) : (greedyFilter r l).Sublist l := by
  obtain ⟨extra, heq, hsub⟩ := foldl_greedyStep r l []
  rw [greedyFilter, heq, List.nil_append]
  exact hsub

theorem greedyFilter_concat (l : List α) (x : α) :
    greedyFilter r (l ++ [x]) = greedyStep r (greedyFilter r l) x := by
  rw [greedyFilter, List.foldl_append]
  rfl

/-- The first element is always kept. -/
theorem greedyFilter_head? (l : List α) : (greedyFilter r l).head? = l.head? := by
  cases l with
  | nil => rfl
  | cons a l =>
      obtain ⟨extra, heq, -⟩ := greedyFilter_append r [a] l
      rw [List.singleton_append] at heq
      rw [heq]
      rfl

/-- An element at a known place is kept exactly when no element selected
before it excludes it. -/
theorem mem_greedyFilter_split {pre post : List α} {x : α}
    (hnd : (pre ++ x :: post).Nodup) :
    x ∈ greedyFilter r (pre ++ x :: post) ↔ ∀ y ∈ greedyFilter r pre, r y x = false := by
  have hx : x ∉ pre ∧ x ∉ post := by
    rw [List.nodup_append, List.nodup_cons] at hnd
    exact ⟨fun h => hnd.2.2 x h x List.mem_cons_self rfl, hnd.2.1.1⟩
  obtain ⟨extra, heq, hsub⟩ := greedyFilter_append r (pre ++ [x]) post
  rw [List.append_assoc, List.singleton_append] at heq
  rw [heq, greedyFilter_concat, greedyStep, List.mem_append]
  -- The element stands at one place, so it can only be kept there.
  have hextra : x ∉ extra := fun h => hx.2 (hsub.subset h)
  have hkept : x ∉ greedyFilter r pre := fun h => hx.1 ((greedyFilter_sublist r pre).subset h)
  by_cases hany : (greedyFilter r pre).any (r · x) = true
  · rw [if_pos hany]
    obtain ⟨y, hy, hyx⟩ := List.any_eq_true.mp hany
    refine ⟨fun h => absurd h (by simp [hextra, hkept]), fun h => ?_⟩
    exact absurd (h y hy) (by simp [hyx])
  · rw [if_neg hany]
    refine ⟨fun _ y hy => ?_, fun _ => by simp⟩
    cases hyx : r y x with
    | false => rfl
    | true => exact absurd (List.any_eq_true.mpr ⟨y, hy, hyx⟩) hany

/-- An element of a prefix is selected in the list exactly when it is selected
in the prefix. -/
theorem mem_greedyFilter_append {pre post : List α} {y : α} (hnd : (pre ++ post).Nodup)
    (hy : y ∈ pre) : y ∈ greedyFilter r (pre ++ post) ↔ y ∈ greedyFilter r pre := by
  obtain ⟨extra, heq, hsub⟩ := greedyFilter_append r pre post
  rw [heq, List.mem_append]
  refine ⟨fun h => h.resolve_right fun hex => ?_, Or.inl⟩
  rw [List.nodup_append] at hnd
  exact hnd.2.2 y hy y (hsub.subset hex) rfl

/-- An element is kept, or an element in front of it is kept and excludes it. -/
theorem mem_or_excluded (pre post : List α) (x : α) :
    x ∈ greedyFilter r (pre ++ x :: post) ∨
      ∃ y ∈ greedyFilter r (pre ++ x :: post), y ∈ pre ∧ r y x = true := by
  obtain ⟨extra, heq, -⟩ := greedyFilter_append r (pre ++ [x]) post
  rw [List.append_assoc, List.singleton_append] at heq
  rw [heq, greedyFilter_concat, greedyStep]
  split
  · rename_i hany
    obtain ⟨y, hy, hyx⟩ := List.any_eq_true.mp hany
    exact .inr ⟨y, List.mem_append_left _ hy, (greedyFilter_sublist r pre).subset hy, hyx⟩
  · exact .inl (by simp)

/-- No kept element excludes a later kept element. -/
theorem greedyFilter_pairwise (l : List α) :
    (greedyFilter r l).Pairwise fun y x => r y x = false := by
  induction l using List.reverseRecOn with
  | nil => exact List.Pairwise.nil
  | append_singleton l x ih =>
      rw [greedyFilter_concat, greedyStep]
      split
      · exact ih
      · rename_i hany
        rw [List.pairwise_append]
        refine ⟨ih, List.pairwise_singleton _ _, fun y hy z hz => ?_⟩
        rw [List.mem_singleton.mp hz]
        cases hyx : r y x with
        | false => rfl
        | true => exact absurd (List.any_eq_true.mpr ⟨y, hy, hyx⟩) hany

/-- A list in which nothing excludes a later element is kept as a whole. -/
theorem greedyFilter_eq_self {l : List α} (h : l.Pairwise fun y x => r y x = false) :
    greedyFilter r l = l := by
  induction l using List.reverseRecOn with
  | nil => rfl
  | append_singleton l x ih =>
      rw [List.pairwise_append] at h
      rw [greedyFilter_concat, ih h.1, greedyStep, if_neg]
      intro hany
      obtain ⟨y, hy, hyx⟩ := List.any_eq_true.mp hany
      rw [h.2.2 y hy x (List.mem_singleton_self x)] at hyx
      exact Bool.false_ne_true hyx

/-- The selection of the images is the image of the selection. -/
theorem map_greedyFilter {β : Type} (f : β → α) (l : List β) :
    (greedyFilter (fun a b => r (f a) (f b)) l).map f = greedyFilter r (l.map f) := by
  induction l using List.reverseRecOn with
  | nil => rfl
  | append_singleton l x ih =>
      rw [greedyFilter_concat, List.map_append, List.map_singleton, greedyFilter_concat, ← ih,
        greedyStep, greedyStep, List.any_map]
      simp only [Function.comp_def]
      split
      · rfl
      · rw [List.map_append, List.map_singleton]

/-- The selection depends on the exclusions between elements of the list only. -/
theorem greedyFilter_congr {r r' : α → α → Bool} {l : List α}
    (h : ∀ y ∈ l, ∀ x ∈ l, r y x = r' y x) : greedyFilter r l = greedyFilter r' l := by
  induction l using List.reverseRecOn with
  | nil => rfl
  | append_singleton l x ih =>
      have hkept : greedyFilter r l = greedyFilter r' l :=
        ih fun y hy z hz => h y (List.mem_append_left _ hy) z (List.mem_append_left _ hz)
      have hany : (greedyFilter r' l).any (r · x) = (greedyFilter r' l).any (r' · x) := by
        rw [Bool.eq_iff_iff, List.any_eq_true, List.any_eq_true]
        refine exists_congr fun y => and_congr_right fun hy => ?_
        have hmem : y ∈ l ++ [x] := List.mem_append_left _ ((greedyFilter_sublist r' l).subset hy)
        rw [h y hmem x (by simp)]
      rw [greedyFilter_concat, greedyFilter_concat, greedyStep, greedyStep, hkept, hany]

/-- On the first numbers, the elements in front are the smaller ones. -/
theorem mem_greedyFilter_range {r : ℕ → ℕ → Bool} {n j : ℕ} (hj : j < n) :
    j ∈ greedyFilter r (List.range n) ↔
      ∀ i ∈ greedyFilter r (List.range n), i < j → r i j = false := by
  have hsplit : List.range n = List.range j ++ j :: List.range' (j + 1) (n - (j + 1)) := by
    have hn : n = j + (n - (j + 1) + 1) := by omega
    conv_lhs => rw [hn, List.range_eq_range', ← List.range'_append_1, Nat.zero_add,
      List.range'_succ, ← List.range_eq_range']
  have hnd : (List.range j ++ j :: List.range' (j + 1) (n - (j + 1))).Nodup :=
    hsplit ▸ List.nodup_range
  rw [hsplit, mem_greedyFilter_split r hnd]
  constructor
  · intro h i hi hij
    exact h i ((mem_greedyFilter_append r hnd (List.mem_range.mpr hij)).mp hi)
  · intro h i hi
    have hmem := (greedyFilter_sublist r (List.range j)).subset hi
    exact h i ((mem_greedyFilter_append r hnd hmem).mpr hi) (List.mem_range.mp hmem)

/-! ### Selecting before and after a filter -/

section
variable (p : α → Bool)

/-- An element with `p` that a kept element in front excludes is also excluded by
one with `p`. -/
def Covered (l : List α) : Prop :=
  ∀ pre x post, l = pre ++ x :: post → p x = true →
    (∃ y ∈ greedyFilter r pre, r y x = true) → ∃ y ∈ greedyFilter r pre, p y = true ∧ r y x = true

theorem Covered.prefix {l post : List α} (h : Covered r p (l ++ post)) : Covered r p l := by
  intro pre x rest heq
  exact h pre x (rest ++ post) (by rw [heq, List.append_assoc, List.cons_append])

theorem greedyFilter_filter_of_covered {l : List α} (h : Covered r p l) :
    (greedyFilter r l).filter p = greedyFilter r (l.filter p) := by
  induction l using List.reverseRecOn with
  | nil => rfl
  | append_singleton l x ih =>
      have ih' := ih h.prefix
      rw [greedyFilter_concat, List.filter_append, greedyStep]
      cases hp : p x with
      | false =>
          rw [List.filter_cons_of_neg (by simp [hp]), List.filter_nil, List.append_nil, ← ih']
          split
          · rfl
          · rw [List.filter_append, List.filter_cons_of_neg (by simp [hp]), List.filter_nil,
              List.append_nil]
      | true =>
          rw [List.filter_cons_of_pos hp, List.filter_nil, greedyFilter_concat, greedyStep, ← ih']
          -- An element kept before and excluding `x` can be taken from the kept ones with `p`.
          have hany : ((greedyFilter r l).filter p).any (r · x) = (greedyFilter r l).any (r · x) := by
            rw [Bool.eq_iff_iff, List.any_eq_true, List.any_eq_true]
            constructor
            · rintro ⟨y, hy, hyx⟩
              exact ⟨y, (List.mem_filter.mp hy).1, hyx⟩
            · intro hex
              obtain ⟨y, hy, hpy, hyx⟩ := h l x [] rfl hp hex
              exact ⟨y, List.mem_filter.mpr ⟨hy, hpy⟩, hyx⟩
          rw [hany]
          split
          · rfl
          · rw [List.filter_append, List.filter_cons_of_pos hp, List.filter_nil]

/-- The first element that is not covered is excluded by a kept one, but by none with `p`. -/
theorem excluded_of_not_covered {l : List α} {x : α} (hl : Covered r p l)
    (h : ¬Covered r p (l ++ [x])) :
    p x = true ∧ (∃ y ∈ greedyFilter r l, r y x = true) ∧
      ∀ y ∈ greedyFilter r l, p y = true → r y x = false := by
  by_contra hno
  refine h fun pre z rest heq hpz hex => ?_
  rcases List.eq_nil_or_concat rest with rfl | ⟨rest', w, rfl⟩
  · obtain ⟨rfl, hz⟩ := List.append_inj' heq rfl
    cases hz
    by_contra hcover
    refine hno ⟨hpz, hex, fun y hy hpy => ?_⟩
    cases hyx : r y x with
    | false => rfl
    | true => exact absurd ⟨y, hy, hpy, hyx⟩ hcover
  · rw [List.concat_eq_append, ← List.cons_append, ← List.append_assoc] at heq
    exact hl pre z rest' (List.append_inj' heq rfl).1 hpz hex

/-- Without the elements that are not in `p`, an element stays that only those exclude. -/
theorem greedyFilter_filter_concat_of_free {l : List α} {x : α} (hl : Covered r p l)
    (hpx : p x = true) (hfree : ∀ y ∈ greedyFilter r l, p y = true → r y x = false) :
    greedyFilter r ((l ++ [x]).filter p) = (greedyFilter r l).filter p ++ [x] := by
  rw [List.filter_append, List.filter_cons_of_pos hpx, List.filter_nil, greedyFilter_concat,
    ← greedyFilter_filter_of_covered r p hl, greedyStep, if_neg]
  rw [List.any_eq_true]
  rintro ⟨z, hz, hzx⟩
  rw [List.mem_filter] at hz
  exact Bool.false_ne_true ((hfree z hz.1 hz.2).symm.trans hzx)

/-- After an element that only elements without `p` exclude, the two selections
stay different. -/
theorem greedyFilter_filter_ne {l : List α} (h : ¬Covered r p l) (post : List α) :
    (greedyFilter r (l ++ post)).filter p ≠ greedyFilter r ((l ++ post).filter p) := by
  induction l using List.reverseRecOn generalizing post with
  | nil =>
      refine absurd (fun pre x rest heq => ?_) h
      simp at heq
  | append_singleton l x ih =>
      by_cases hl : Covered r p l
      · -- The first such element is `x`. The selection after the filter keeps it.
        obtain ⟨hpx, ⟨y, hy, hyx⟩, hfree⟩ := excluded_of_not_covered r p hl h
        have hkeep := greedyFilter_filter_concat_of_free r p hl hpx hfree
        have hdrop : greedyFilter r (l ++ [x]) = greedyFilter r l := by
          rw [greedyFilter_concat, greedyStep, if_pos (List.any_eq_true.mpr ⟨y, hy, hyx⟩)]
        obtain ⟨extra, hfull, -⟩ := greedyFilter_append r (l ++ [x]) post
        obtain ⟨extra', hcut, -⟩ := greedyFilter_append r ((l ++ [x]).filter p) (post.filter p)
        rw [hdrop] at hfull
        rw [List.filter_append, hcut, hkeep, hfull, List.filter_append]
        intro heq
        rw [List.append_assoc, List.append_cancel_left_eq, List.singleton_append] at heq
        -- So `x` would be kept later, although `y` excludes it.
        have hmem : x ∈ extra := (List.mem_filter.mp (heq ▸ List.mem_cons_self)).1
        have hpair := greedyFilter_pairwise r (l ++ [x] ++ post)
        rw [hfull, List.pairwise_append] at hpair
        exact Bool.false_ne_true ((hpair.2.2 y hy x hmem).symm.trans hyx)
      · have := ih hl (x :: post)
        rwa [List.append_assoc, List.singleton_append]

/-- Selecting first and filtering afterwards gives the same as filtering first,
exactly when the elements with `p` are covered. -/
theorem greedyFilter_filter_iff (l : List α) :
    (greedyFilter r l).filter p = greedyFilter r (l.filter p) ↔ Covered r p l := by
  constructor
  · intro heq
    by_contra h
    have hne := greedyFilter_filter_ne r p h []
    rw [List.append_nil] at hne
    exact hne heq
  · exact greedyFilter_filter_of_covered r p

end

section
variable [DecidableEq α]

/-- The elements in front of `x` are those with a smaller position. -/
theorem idxOf_lt_iff_mem {pre post : List α} {x y : α} (hnd : (pre ++ x :: post).Nodup) :
    (pre ++ x :: post).idxOf y < (pre ++ x :: post).idxOf x ↔ y ∈ pre := by
  have hx : x ∉ pre := by
    rw [List.nodup_append] at hnd
    exact fun h => hnd.2.2 x h x List.mem_cons_self rfl
  rw [List.idxOf_append_of_notMem hx, List.idxOf_cons_self, Nat.add_zero]
  by_cases hy : y ∈ pre
  · rw [List.idxOf_append_of_mem hy]
    exact ⟨fun _ => hy, fun _ => List.idxOf_lt_length_iff.mpr hy⟩
  · rw [List.idxOf_append_of_notMem hy]
    exact ⟨fun h => absurd h (by omega), fun h => absurd h hy⟩

/-- The greedy rule: an element is kept exactly when no kept element in front
of it excludes it. -/
theorem mem_greedyFilter {l : List α} (hnd : l.Nodup) {x : α} (hx : x ∈ l) :
    x ∈ greedyFilter r l ↔
      ∀ y ∈ greedyFilter r l, l.idxOf y < l.idxOf x → r y x = false := by
  obtain ⟨pre, post, rfl⟩ := List.append_of_mem hx
  rw [mem_greedyFilter_split r hnd]
  constructor
  · intro h y hy hlt
    have hmem := (idxOf_lt_iff_mem hnd).mp hlt
    exact h y ((mem_greedyFilter_append r hnd hmem).mp hy)
  · intro h y hy
    have hmem := (greedyFilter_sublist r pre).subset hy
    exact h y ((mem_greedyFilter_append r hnd hmem).mpr hy) ((idxOf_lt_iff_mem hnd).mpr hmem)

/-- A dropped element is excluded by a kept element in front of it. -/
theorem exists_excludes {l : List α} (hnd : l.Nodup) {x : α} (hx : x ∈ l)
    (hdrop : x ∉ greedyFilter r l) :
    ∃ y ∈ greedyFilter r l, l.idxOf y < l.idxOf x ∧ r y x = true := by
  by_contra hno
  refine hdrop ((mem_greedyFilter r hnd hx).mpr fun y hy hlt => ?_)
  cases hyx : r y x with
  | false => rfl
  | true => exact absurd ⟨y, hy, hlt, hyx⟩ hno

end

end W2Net
