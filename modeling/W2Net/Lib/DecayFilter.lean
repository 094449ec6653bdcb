import Mathlib.Data.List.Sort
import Mathlib.Data.Multiset.MapFold
import Mathlib.Data.Multiset.Filter
import W2Net.Lib.GreedyFilter

/-!
# `W2Net.Lib.DecayFilter`: selection with scores that decay

A selection picks a candidate with the highest score, again and again. Each pick changes the
scores of the candidates that are left, and drops some of them: `decay a b t` is the new score
of `b` after `a` was picked, or `none`. `DecayRun` is the relation between the candidates and
the picks, with their scores at the time. It leaves open which candidate is picked when
several have the highest score, and in which order they are kept, so a program may store them
as it likes.

* `DecayRun.ids_le`: every candidate is picked once at most.
* `DecayRun.pairwise`: the scores of the picks do not increase, when a decay does not increase
  a score.
* `DecayRun.fate`, `DecayRun.origin`: what happens to a candidate is what the picks in front of
  it do to its score (`through`).
* `DecayRun.eq_greedyFilter`: when a pick drops candidates and leaves the other scores as they
  are, the picks are the greedy selection along the descending scores.
-/

set_option autoImplicit false

namespace W2Net

section
variable {α K : Type} (decay : α → α → K → Option K)

/-- The candidate `b` with its score after `a` was picked. -/
def decayed (a : α) (b : α × K) : Option (α × K) := (decay a b.1 b.2).map (Prod.mk b.1)

/-- The score of `b` after these picks. -/
def through (picks : List (α × K)) (b : α) (t : K) : Option K :=
  picks.foldlM (fun t p => decay p.1 b t) t

/-- A selection from these candidates may make these picks. -/
inductive DecayRun [LE K] : Multiset (α × K) → List (α × K) → Prop
  | done : DecayRun 0 []
  | pick {a : α} {s : K} {rest : Multiset (α × K)} {picks : List (α × K)}
      (hmax : ∀ b ∈ rest, b.2 ≤ s) (hrest : DecayRun (rest.filterMap (decayed decay a)) picks) :
      DecayRun ((a, s) ::ₘ rest) ((a, s) :: picks)

theorem through_cons (p : α × K) (picks : List (α × K)) (b : α) (t : K) :
    through decay (p :: picks) b t = (decay p.1 b t).bind (through decay picks b) := by
  show (p :: picks).foldlM (fun t p => decay p.1 b t) t = _
  rw [List.foldlM_cons]
  rfl

theorem decayed_eq_some {a : α} {b c : α × K} (h : decayed decay a b = some c) :
    c.1 = b.1 ∧ decay a b.1 b.2 = some c.2 := by
  rw [decayed, Option.map_eq_some_iff] at h
  obtain ⟨t, ht, rfl⟩ := h
  exact ⟨rfl, ht⟩

/-- A decay does not make new candidates. -/
theorem map_fst_decayed_le (a : α) (cands : Multiset (α × K)) :
    (cands.filterMap (decayed decay a)).map Prod.fst ≤ cands.map Prod.fst := by
  induction cands using Multiset.induction with
  | empty => simp
  | cons b cands ih =>
      cases h : decayed decay a b with
      | none =>
          rw [Multiset.filterMap_cons_none _ _ h, Multiset.map_cons]
          exact ih.trans (Multiset.le_cons_self _ _)
      | some c =>
          rw [Multiset.filterMap_cons_some _ _ _ h, Multiset.map_cons, Multiset.map_cons,
            (decayed_eq_some decay h).1]
          exact Multiset.cons_le_cons _ ih

namespace DecayRun

variable {decay} [LE K] {cands : Multiset (α × K)} {picks : List (α × K)}

/-- Every candidate is picked once at most. -/
theorem ids_le (h : DecayRun decay cands picks) :
    ((picks.map Prod.fst : List α) : Multiset α) ≤ cands.map Prod.fst := by
  induction h with
  | done => exact le_rfl
  | @pick a s rest picks hmax hrest ih =>
      rw [List.map_cons, ← Multiset.cons_coe, Multiset.map_cons]
      exact Multiset.cons_le_cons _ (ih.trans (map_fst_decayed_le decay a rest))

theorem nodup (h : DecayRun decay cands picks) (hnd : (cands.map Prod.fst).Nodup) :
    (picks.map Prod.fst).Nodup :=
  Multiset.coe_nodup.mp (Multiset.nodup_of_le h.ids_le hnd)

/-- A candidate is picked with the score that the picks in front of it leave, or the picks
drop it. -/
theorem fate (h : DecayRun decay cands picks) {b : α} {t : K} (hb : (b, t) ∈ cands) :
    (∃ pre s post, picks = pre ++ (b, s) :: post ∧ through decay pre b t = some s) ∨
      through decay picks b t = none := by
  induction h generalizing t with
  | done => exact absurd hb (Multiset.notMem_zero _)
  | @pick a s rest picks hmax hrest ih =>
      rcases Multiset.mem_cons.mp hb with heq | hmem
      · cases heq
        exact .inl ⟨[], s, picks, rfl, rfl⟩
      · rw [through_cons]
        cases hd : decay a b t with
        | none => exact .inr rfl
        | some t' =>
            have hmem' : (b, t') ∈ rest.filterMap (decayed decay a) := by
              rw [Multiset.mem_filterMap]
              refine ⟨(b, t), hmem, ?_⟩
              simp [decayed, hd]
            rcases ih hmem' with ⟨pre, s', post, hpicks, hthrough⟩ | hnone
            · refine .inl ⟨(a, s) :: pre, s', post, ?_, ?_⟩
              · rw [hpicks, List.cons_append]
              · rw [through_cons, hd]
                exact hthrough
            · exact .inr hnone

/-- A pick is a candidate with the score that the picks in front of it leave. -/
theorem origin (h : DecayRun decay cands picks) {pre post : List (α × K)} {a : α} {s : K}
    (hpicks : picks = pre ++ (a, s) :: post) :
    ∃ t, (a, t) ∈ cands ∧ through decay pre a t = some s := by
  induction h generalizing pre with
  | done => simp at hpicks
  | @pick c u rest picks hmax hrest ih =>
      cases pre with
      | nil =>
          rw [List.nil_append, List.cons.injEq] at hpicks
          cases hpicks.1
          exact ⟨s, Multiset.mem_cons_self _ _, rfl⟩
      | cons p pre =>
          rw [List.cons_append, List.cons.injEq] at hpicks
          obtain ⟨rfl, hpicks⟩ := hpicks
          obtain ⟨t', hmem, hthrough⟩ := ih hpicks
          rw [Multiset.mem_filterMap] at hmem
          obtain ⟨⟨b, t⟩, hb, hdecayed⟩ := hmem
          obtain ⟨hab, hd⟩ := decayed_eq_some decay hdecayed
          cases hab
          refine ⟨t, Multiset.mem_cons_of_mem hb, ?_⟩
          rw [through_cons, hd]
          exact hthrough

end DecayRun

end

section
variable {α K : Type} {decay : α → α → K → Option K} {cands : Multiset (α × K)}
  {picks : List (α × K)}

/-- A property of candidates that the decay by `a` keeps. -/
theorem forall_decayed {P : α × K → Prop} {a : α} (hP : ∀ b ∈ cands, P b)
    (hdecay : ∀ b t t', P (b, t) → decay a b t = some t' → P (b, t')) :
    ∀ b ∈ cands.filterMap (decayed decay a), P b := by
  intro c hc
  rw [Multiset.mem_filterMap] at hc
  obtain ⟨b, hb, hbc⟩ := hc
  obtain ⟨hid, hd⟩ := decayed_eq_some decay hbc
  have hc' := hdecay b.1 b.2 c.2 (hP b hb) hd
  rwa [← hid] at hc'

variable [Preorder K]

namespace DecayRun

/-- Every pick has a property that the candidates have and a decay keeps. -/
theorem forall_picks {P : α × K → Prop} (h : DecayRun decay cands picks) (hP : ∀ b ∈ cands, P b)
    (hdecay : ∀ a s b t t', P (a, s) → P (b, t) → decay a b t = some t' → P (b, t')) :
    ∀ p ∈ picks, P p := by
  induction h with
  | done => exact fun p hp => absurd hp List.not_mem_nil
  | @pick a s rest picks hmax hrest ih =>
      rw [Multiset.forall_mem_cons] at hP
      rw [List.forall_mem_cons]
      exact ⟨hP.1, ih (forall_decayed hP.2 fun b t t' => hdecay a s b t t' hP.1)⟩

/-- The scores of the picks do not increase. The property `P` is what the decay relies on. -/
theorem pairwise {P : α × K → Prop} (h : DecayRun decay cands picks) (hP : ∀ b ∈ cands, P b)
    (hdecay : ∀ a s b t t', P (a, s) → P (b, t) → decay a b t = some t' → P (b, t') ∧ t' ≤ t) :
    picks.Pairwise fun p q => q.2 ≤ p.2 := by
  induction h with
  | done => exact List.Pairwise.nil
  | @pick a s rest picks hmax hrest ih =>
      rw [Multiset.forall_mem_cons] at hP
      have hP' := forall_decayed hP.2 fun b t t' ht hd => (hdecay a s b t t' hP.1 ht hd).1
      rw [List.pairwise_cons]
      refine ⟨?_, ih hP'⟩
      -- Every later score is at most `s`, since the scores that are left are.
      have hQ : ∀ b ∈ rest.filterMap (decayed decay a), P b ∧ b.2 ≤ s := by
        intro c hc
        refine ⟨hP' c hc, ?_⟩
        rw [Multiset.mem_filterMap] at hc
        obtain ⟨b, hb, hbc⟩ := hc
        have hle := (hdecay a s b.1 b.2 c.2 hP.1 (hP.2 b hb) (decayed_eq_some decay hbc).2).2
        exact hle.trans (hmax b hb)
      intro q hq
      refine (hrest.forall_picks (P := fun b => P b ∧ b.2 ≤ s) hQ ?_ q hq).2
      intro a' s' b t t' ha' ht hd
      obtain ⟨ht', hle⟩ := hdecay a' s' b t t' ha'.1 ht.1 hd
      exact ⟨ht', hle.trans ht.2⟩

end DecayRun

end

/-! ### Picks that only drop -/

section
variable {α K : Type} (r : α → α → Bool)

/-- The selection from a list with its first element in front. -/
theorem foldl_greedyStep_cons (x : α) (l kept : List α) :
    l.foldl (greedyStep r) (x :: kept) =
      x :: (l.filter fun y => !r x y).foldl (greedyStep r) kept := by
  induction l generalizing kept with
  | nil => rfl
  | cons y l ih =>
      rw [List.foldl_cons, greedyStep, List.any_cons]
      cases hxy : r x y with
      | true => simpa [hxy] using ih kept
      | false =>
          rw [Bool.false_or, List.filter_cons_of_pos (by simp [hxy]), List.foldl_cons, greedyStep]
          split
          · exact ih kept
          · exact ih (kept ++ [y])

theorem greedyFilter_cons (x : α) (l : List α) :
    greedyFilter r (x :: l) = x :: greedyFilter r (l.filter fun y => !r x y) :=
  foldl_greedyStep_cons r x l []

variable {decay : α → α → K → Option K}

/-- A pick that drops the candidates it excludes and leaves the scores of the others. -/
theorem filterMap_decayed_of_drop {P : K → Prop} {a : α} {l : List (α × K)} (hP : ∀ b ∈ l, P b.2)
    (hdrop : ∀ b t, P t → decay a b t = if r a b then none else some t) :
    l.filterMap (decayed decay a) = l.filter fun b => !r a b.1 := by
  induction l with
  | nil => rfl
  | cons b l ih =>
      rw [List.forall_mem_cons] at hP
      have hb := hdrop b.1 b.2 hP.1
      cases hr : r a b.1 with
      | true =>
          rw [hr] at hb
          rw [List.filterMap_cons_none (by rw [decayed, hb]; rfl),
            List.filter_cons_of_neg (by simp [hr]), ih hP.2]
      | false =>
          rw [hr] at hb
          rw [List.filterMap_cons_some (b := b) (by rw [decayed, hb]; rfl),
            List.filter_cons_of_pos (by simp [hr]), ih hP.2]

variable [LinearOrder K]

/-- When the picks only drop candidates, and no two candidates have the same score, the picks
are the greedy selection along the descending scores. -/
theorem DecayRun.eq_greedyFilter {P : K → Prop} {cands : Multiset (α × K)} {picks l : List (α × K)}
    (h : DecayRun decay cands picks) (hl : (l : Multiset (α × K)) = cands)
    (hsort : l.Pairwise fun p q => q.2 < p.2) (hP : ∀ b ∈ l, P b.2)
    (hdrop : ∀ a b t, P t → decay a b t = if r a b then none else some t) :
    picks = greedyFilter (fun p q => r p.1 q.1) l := by
  induction h generalizing l with
  | done =>
      rw [(Multiset.coe_eq_zero l).mp hl]
      rfl
  | @pick a s rest picks hmax hrest ih =>
      cases l with
      | nil =>
          rw [Multiset.coe_nil] at hl
          exact absurd hl (Multiset.zero_ne_cons)
      | cons b l =>
          rw [List.pairwise_cons] at hsort
          rw [List.forall_mem_cons] at hP
          -- The pick has the highest score, so it is the first of the list.
          have hfirst : b = (a, s) := by
            have hmem : (a, s) ∈ b :: l := by
              rw [← Multiset.mem_coe, hl]
              exact Multiset.mem_cons_self _ _
            rcases List.mem_cons.mp hmem with heq | hin
            · exact heq.symm
            · have hb : b ∈ (a, s) ::ₘ rest := by
                rw [← hl]
                exact Multiset.mem_coe.mpr List.mem_cons_self
              rcases Multiset.mem_cons.mp hb with heq | hbrest
              · exact heq
              · exact absurd (hmax b hbrest) (not_le.mpr (hsort.1 _ hin))
          subst hfirst
          rw [← Multiset.cons_coe, Multiset.cons_inj_right] at hl
          have hfilter := filterMap_decayed_of_drop r hP.2 (hdrop a)
          have hcoe : (((l.filter fun b => !r a b.1) : List (α × K)) : Multiset (α × K))
              = rest.filterMap (decayed decay a) := by
            rw [← hfilter, ← hl, Multiset.filterMap_coe]
          rw [greedyFilter_cons]
          exact congrArg _ (ih hcoe (hsort.2.filter _) fun b hb => hP.2 b (List.mem_of_mem_filter hb))

end

end W2Net
