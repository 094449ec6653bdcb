import Mathlib.Algebra.BigOperators.Group.List.Basic
import Mathlib.Algebra.Order.Floor.Ring
import Mathlib.Data.List.Forall2
import Mathlib.Data.Rat.Floor
import Mathlib.Tactic.Linarith
import W2Net.Lib.Numerals

/-!
# `W2Net.Lib.Python`: the Python and numpy primitives

The language facts that more than one modelled module leans on:

* `PyErr` and `PyM`: the exceptions the modelled code can raise. `Returns x P`
  says that the computation `x` returns, with a postcondition `P`; `Returns.bind`
  is its rule for one computation after another.
* `Signature.bind`: the check Python makes when it binds the arguments of a
  call to the parameters of the callee. A call with too many positional
  arguments, with an unknown keyword, or without a required parameter raises
  `TypeError` before the body runs.
* `unpackTwo`, `unpackThree`, `unpackPair`: tuple unpacking. The wrong number of values
  raises `ValueError`.
* `pyRound`, `pyDiv`, `npDiv`, `npClip`: `round` on floats (half to even), division, which
  raises `ZeroDivisionError` in Python and not in numpy, and `numpy.clip`.
* `npTile`, `npRepeat`, `meshgrid`: the functions of numpy on lists. A reshape of
  nested arrays in row-major order is `List.flatten`.
* `npAssignRows`: assignment of an `M`-row array to an `N`-row slice.
* `cumsum`: the loop that turns counts into running sums.
* `PyMath`: the functions of `math` that leave the rationals. The model takes
  them as a parameter, so it stays executable over `ℚ` and covers `ℝ`.
-/

set_option autoImplicit false

namespace W2Net

/-- The exceptions the modelled code can raise. -/
inductive PyErr where
  | typeError
  | valueError
  | indexError
  | keyError
  | unboundLocalError
  | fileNotFoundError
  | notImplementedError
  | zeroDivisionError
  | systemExit
  | runtimeError
  | assertionError
  | cv2Error
  deriving Repr, DecidableEq

/-- A Python computation: a value or an exception. -/
abbrev PyM (α : Type) : Type := Except PyErr α

theorem ok_bind {α β : Type} (a : α) (f : α → PyM β) : (Except.ok a : PyM α) >>= f = f a := rfl

/-- A computation that continues after another one returns only if the first
one does. -/
theorem bind_eq_ok {α β : Type} {x : PyM α} {f : α → PyM β} {b : β} (h : x >>= f = .ok b) :
    ∃ a, x = .ok a ∧ f a = .ok b := by
  cases x with
  | error e => cases h
  | ok a => exact ⟨a, rfl, h⟩

/-- The computation returns a value with the property `P`. -/
def Returns {α : Type} (x : PyM α) (P : α → Prop) : Prop := ∃ a, x = .ok a ∧ P a

theorem Returns.ok {α : Type} {P : α → Prop} {a : α} (h : P a) : Returns (.ok a) P := ⟨a, rfl, h⟩

/-- What the first computation guarantees is what the second one may assume. -/
theorem Returns.bind {α β : Type} {x : PyM α} {f : α → PyM β} {P : α → Prop} {Q : β → Prop}
    (hx : Returns x P) (hf : ∀ a, P a → Returns (f a) Q) : Returns (x >>= f) Q := by
  obtain ⟨a, rfl, ha⟩ := hx
  exact hf a ha

theorem Returns.imp {α : Type} {x : PyM α} {P Q : α → Prop} (hx : Returns x P)
    (h : ∀ a, P a → Q a) : Returns x Q := by
  obtain ⟨a, rfl, ha⟩ := hx
  exact ⟨a, rfl, h a ha⟩

/-- `[f(x) for x in l]` when no call raises. -/
theorem mapM_eq_ok {α β : Type} {f : α → PyM β} {g : α → β} {l : List α}
    (h : ∀ x ∈ l, f x = .ok (g x)) : l.mapM f = .ok (l.map g) := by
  induction l with
  | nil => rfl
  | cons x l ih =>
      rw [List.mapM_cons, h x List.mem_cons_self,
        ih fun y hy => h y (List.mem_cons_of_mem x hy)]
      rfl

theorem exists_mapM {α β : Type} {f : α → PyM β} {l : List α}
    (h : ∀ x ∈ l, ∃ y, f x = .ok y) : ∃ ys, l.mapM f = .ok ys := by
  induction l with
  | nil => exact ⟨[], rfl⟩
  | cons x l ih =>
      obtain ⟨y, hy⟩ := h x List.mem_cons_self
      obtain ⟨ys, hys⟩ := ih fun z hz => h z (List.mem_cons_of_mem x hz)
      refine ⟨y :: ys, ?_⟩
      rw [List.mapM_cons, hy, hys]
      rfl

/-- When every call of `g` returns what the call of `f` does, under `h`, the list does too. -/
theorem mapM_map_result {α β γ : Type} {f : α → PyM β} {g : α → PyM γ} {h : β → γ} {l : List α}
    (hfg : ∀ a, g a = (f a).map h) : l.mapM g = (l.mapM f).map (List.map h) := by
  induction l with
  | nil => rfl
  | cons a l ih =>
      rw [List.mapM_cons, List.mapM_cons, ih, hfg]
      cases f a with
      | error e => rfl
      | ok b =>
          cases l.mapM f with
          | error e => rfl
          | ok bs => rfl

/-- If `[f(x) for x in l]` returns, then every call returned its entry. -/
theorem forall₂_of_mapM_eq_ok {α β : Type} {f : α → PyM β} {l : List α} {ys : List β}
    (h : l.mapM f = .ok ys) : List.Forall₂ (fun x y => f x = .ok y) l ys := by
  induction l generalizing ys with
  | nil =>
      cases h
      exact List.Forall₂.nil
  | cons x l ih =>
      rw [List.mapM_cons] at h
      obtain ⟨y, hy, h⟩ := bind_eq_ok h
      obtain ⟨zs, hzs, h⟩ := bind_eq_ok h
      cases h
      exact List.Forall₂.cons hy (ih hzs)

/-- It returns exactly when every call does. -/
theorem exists_mapM_iff {α β : Type} {f : α → PyM β} {l : List α} :
    (∃ ys, l.mapM f = .ok ys) ↔ ∀ x ∈ l, ∃ y, f x = .ok y := by
  constructor
  · rintro ⟨ys, hys⟩
    have hall := forall₂_of_mapM_eq_ok hys
    clear hys
    induction hall with
    | nil => exact fun x hx => absurd hx List.not_mem_nil
    | cons hxy _ ih => exact List.forall_mem_cons.mpr ⟨⟨_, hxy⟩, ih⟩
  · exact exists_mapM

/-- The rule of `[f(x) for x in l]`, with a precondition `R` and a postcondition
`Q` that may speak of a label of each entry. -/
theorem mapM_returns {γ α β : Type} {f : α → PyM β} {R : γ → α → Prop} {Q : γ × α → β → Prop}
    {labels : List γ} {l : List α} (hl : List.Forall₂ R labels l)
    (h : ∀ s x, R s x → Returns (f x) (Q (s, x))) :
    Returns (l.mapM f) fun ys => List.Forall₂ Q (labels.zip l) ys := by
  induction hl with
  | nil => exact Returns.ok List.Forall₂.nil
  | cons hx _ ih =>
      rw [List.mapM_cons]
      refine (h _ _ hx).bind fun y hy => ih.bind fun ys hys => ?_
      exact Returns.ok (List.Forall₂.cons hy hys)

/-- Entries at the same position of two related lists. -/
theorem forall₂_getElem? {α β : Type} {R : α → β → Prop} {l : List α} {l' : List β} {i : ℕ} {a : α}
    (h : List.Forall₂ R l l') (hi : l[i]? = some a) : ∃ b, l'[i]? = some b ∧ R a b := by
  induction h generalizing i with
  | nil => cases hi
  | @cons x y _ _ hxy _ ih =>
      cases i with
      | zero =>
          cases hi
          exact ⟨y, rfl, hxy⟩
      | succ i => exact ih hi

/-- The entries of `[f(x) for x in l]` are what the calls return. -/
theorem mem_mapM_iff {α β : Type} {f : α → PyM β} {l : List α} {ys : List β}
    (h : l.mapM f = .ok ys) (y : β) : y ∈ ys ↔ ∃ x ∈ l, f x = .ok y := by
  have hall := forall₂_of_mapM_eq_ok h
  clear h
  induction hall with
  | nil => simp
  | @cons x z _ _ hx _ ih =>
      rw [List.mem_cons]
      constructor
      · rintro (rfl | hy)
        · exact ⟨x, List.mem_cons_self, hx⟩
        · obtain ⟨w, hw, hfw⟩ := ih.mp hy
          exact ⟨w, List.mem_cons_of_mem x hw, hfw⟩
      · rintro ⟨w, hw, hfw⟩
        rcases List.mem_cons.mp hw with rfl | hw
        · exact Or.inl (Except.ok.inj (hfw.symm.trans hx))
        · exact Or.inr (ih.mpr ⟨w, hw, hfw⟩)

/-! ### Calls and tuples -/

/-- The parameters of a Python callable, in order. The first `required` of
them have no default. -/
structure Signature where
  params : List String
  required : Nat
  deriving Repr, DecidableEq

/-- Argument binding: `pos` positional arguments fill the first parameters and
each keyword names one of the remaining ones. Every required parameter has to
be filled. -/
def Signature.bind (sig : Signature) (pos : Nat) (kwargs : List String) : PyM Unit :=
  if sig.params.length < pos then .error .typeError
  else if !(kwargs.all fun k => (sig.params.drop pos).contains k) then .error .typeError
  else if !(((sig.params.take sig.required).drop pos).all fun p => kwargs.contains p) then
    .error .typeError
  else .ok ()

/-- A tuple a modelled callable returns: `(img, labels)` or
`(img, labels, seg_mask)`. -/
inductive PyTuple (α β γ : Type) where
  | pair (a : α) (b : β)
  | triple (a : α) (b : β) (c : γ)

/-- `a, b = value`. -/
def unpackTwo {α β γ : Type} : PyTuple α β γ → PyM (α × β)
  | .pair a b => .ok (a, b)
  | .triple _ _ _ => .error .valueError

/-- `a, b, c = value`. -/
def unpackThree {α β γ : Type} : PyTuple α β γ → PyM (α × β × γ)
  | .pair _ _ => .error .valueError
  | .triple a b c => .ok (a, b, c)

/-- `a, b = values` for a sequence. -/
def unpackPair {α : Type} : List α → PyM (α × α)
  | [a, b] => .ok (a, b)
  | _ => .error .valueError

/-! ### Numbers -/

section Numbers
variable {K : Type} [Field K] [LinearOrder K] [FloorRing K]

/-- Python's `round(x)` and `numpy.round`: to the nearest integer, a half to
the even neighbour. -/
def pyRound (x : K) : ℤ :=
  if x - ⌊x⌋ < 1 / 2 then ⌊x⌋
  else if 1 / 2 < x - ⌊x⌋ then ⌊x⌋ + 1
  else if ⌊x⌋ % 2 = 0 then ⌊x⌋
  else ⌊x⌋ + 1

/-- `int(x)` and `astype(np.int32)`: the fraction is dropped. -/
def pyTrunc (x : K) : ℤ := if 0 ≤ x then ⌊x⌋ else ⌈x⌉

/-- Python's `a % b` on floats: the result has the sign of `b`. -/
def pyMod (a b : K) : K := a - b * ⌊a / b⌋

/-- Python's `a / b` on floats. -/
def pyDiv (a b : K) : PyM K := if b = 0 then .error .zeroDivisionError else .ok (a / b)

/-- A floating-point result in exact arithmetic: a number, an infinity or a NaN. -/
inductive NpFloat (K : Type) where
  | finite (x : K)
  | posInf
  | negInf
  | nan
  deriving Repr, DecidableEq

/-- numpy's `a / b`: a zero divisor gives an infinity or a NaN, with a warning only. -/
def npDiv (a b : K) : NpFloat K :=
  if b ≠ 0 then .finite (a / b)
  else if 0 < a then .posInf
  else if a < 0 then .negInf
  else .nan

omit [FloorRing K] in
theorem pyDiv_eq_ok_iff {a b c : K} : pyDiv a b = .ok c ↔ b ≠ 0 ∧ c = a / b := by
  unfold pyDiv
  split
  · rename_i hb
    exact iff_of_false (fun h => nomatch h) fun h => h.1 hb
  · rename_i hb
    rw [Except.ok.injEq, and_iff_right hb, eq_comm]

omit [FloorRing K] in
theorem pyDiv_eq_ok {a b c : K} (h : pyDiv a b = .ok c) : b ≠ 0 ∧ c = a / b := pyDiv_eq_ok_iff.mp h

omit [FloorRing K] in
theorem npDiv_eq_finite_iff {a b c : K} : npDiv a b = .finite c ↔ b ≠ 0 ∧ c = a / b := by
  unfold npDiv
  split_ifs with hb
  · rw [NpFloat.finite.injEq, and_iff_right hb, eq_comm]
  all_goals exact iff_of_false (fun h => nomatch h) fun h => hb h.1

theorem pyRound_intCast [IsStrictOrderedRing K] (n : ℤ) : pyRound (n : K) = n := by
  rw [pyRound, Int.floor_intCast, sub_self, if_pos one_half_pos]

theorem pyRound_nonneg {x : K} (h : 0 ≤ x) : 0 ≤ pyRound x := by
  have hfloor : 0 ≤ ⌊x⌋ := Int.floor_nonneg.mpr h
  unfold pyRound
  split_ifs <;> omega

/-- Rounding moves a number up by at most one half. -/
theorem pyRound_le [IsStrictOrderedRing K] (x : K) : (pyRound x : K) ≤ x + 1 / 2 := by
  have hfloor : (⌊x⌋ : K) ≤ x := Int.floor_le x
  unfold pyRound
  split_ifs with hlt
  · linarith
  all_goals
    -- The fractional part is at least one half.
    have hge : 1 / 2 ≤ x - ⌊x⌋ := not_lt.mp hlt
    push_cast
    linarith

theorem pyRound_bounds (x : K) : ⌊x⌋ ≤ pyRound x ∧ pyRound x ≤ ⌊x⌋ + 1 := by
  unfold pyRound
  split_ifs <;> omega

/-- Rounding stops at `n` up to the middle of the next step, and in the middle for an even `n`. -/
theorem pyRound_le_iff [IsStrictOrderedRing K] {x : K} {n : ℤ} :
    pyRound x ≤ n ↔ x < n + 1 / 2 ∨ (x = n + 1 / 2 ∧ n % 2 = 0) := by
  obtain ⟨hlow, hhigh⟩ := pyRound_bounds x
  have hfloor : (⌊x⌋ : K) ≤ x := Int.floor_le x
  have hfloor' : x < ⌊x⌋ + 1 := Int.lt_floor_add_one x
  rcases lt_trichotomy ⌊x⌋ n with hlt | rfl | hgt
  · have hcast : (⌊x⌋ : K) + 1 ≤ n := by exact_mod_cast hlt
    exact iff_of_true (by omega) (Or.inl (by linarith))
  · -- Between `n` and `n + 1` the fraction decides.
    rcases lt_trichotomy (x - ⌊x⌋) (1 / 2) with hdown | hhalf | hup
    · exact iff_of_true (if_pos hdown).le (Or.inl (by linarith))
    · have hround : pyRound x = if ⌊x⌋ % 2 = 0 then ⌊x⌋ else ⌊x⌋ + 1 := by
        rw [pyRound, if_neg hhalf.not_lt, if_neg hhalf.not_gt]
      have hx : x = ⌊x⌋ + 1 / 2 := by linarith
      rw [or_iff_right hx.not_lt, and_iff_right hx, hround]
      split <;> omega
    · have hround : pyRound x = ⌊x⌋ + 1 := by
        rw [pyRound, if_neg hup.not_gt, if_pos hup]
      refine iff_of_false (by omega) ?_
      rintro (hlt | ⟨heq, -⟩) <;> linarith
  · have hcast : (n : K) + 1 ≤ ⌊x⌋ := by exact_mod_cast hgt
    refine iff_of_false (by omega) ?_
    rintro (hlt | ⟨heq, -⟩) <;> linarith

/-- Rounding keeps the order. -/
theorem pyRound_mono [IsStrictOrderedRing K] {x y : K} (h : x ≤ y) : pyRound x ≤ pyRound y := by
  have hx := pyRound_bounds x
  have hy := pyRound_bounds y
  have hfloor : ⌊x⌋ ≤ ⌊y⌋ := Int.floor_mono h
  rcases hfloor.lt_or_eq with hlt | heq
  · omega
  · -- Only the fractional parts differ.
    have hfract : x - ⌊x⌋ ≤ y - ⌊y⌋ := by
      rw [heq]
      exact sub_le_sub_right h _
    rcases lt_trichotomy (y - ⌊y⌋) (1 / 2) with hlow | hhalf | hhigh
    · have hdown : pyRound x = ⌊x⌋ := if_pos (hfract.trans_lt hlow)
      omega
    · -- A half goes to the same even neighbour, and less than a half goes down.
      rcases hfract.lt_or_eq with hless | hsame
      · have hdown : pyRound x = ⌊x⌋ := if_pos (hless.trans_eq hhalf)
        omega
      · rw [pyRound, pyRound, hsame, heq]
    · have hup : pyRound y = ⌊y⌋ + 1 := by
        rw [pyRound, if_neg hhigh.not_gt, if_pos hhigh]
      omega

end Numbers

/-- `numpy.clip(x, lo, hi)`, the lower bound applied first. -/
def npClip (x lo hi : ℤ) : ℤ := min (max x lo) hi

theorem npClip_of_mem {x lo hi : ℤ} (hlo : lo ≤ x) (hhi : x ≤ hi) : npClip x lo hi = x := by
  unfold npClip
  omega

/-- The functions of Python's `math` (and of `numpy.linalg`) that do not stay
inside the rationals. -/
structure PyMath (K : Type) where
  sqrt : K → K
  sin : K → K
  cos : K → K
  atan2 : K → K → K
  pi : K

/-- What the code relies on of `math.sqrt`. -/
structure PyMath.SqrtLaws {K : Type} [Zero K] [LE K] (m : PyMath K) : Prop where
  nonneg : ∀ x, 0 ≤ m.sqrt x
  zero : m.sqrt 0 = 0

/-- `sin` and `cos` are the coordinates of a point on the unit circle. -/
def PyMath.Circle {K : Type} [Field K] (m : PyMath K) : Prop :=
  ∀ t, m.cos t ^ 2 + m.sin t ^ 2 = 1

/-- The functions over the rationals, for concrete runs: the root is exact on
squares of rationals, and the others are exact at zero. -/
def PyMath.rat : PyMath ℚ where
  sqrt q := (Nat.sqrt q.num.natAbs : ℚ) / (Nat.sqrt q.den : ℚ)
  sin x := x
  cos _ := 1
  atan2 y _ := y
  pi := 355 / 113

theorem PyMath.sqrtLaws_rat : PyMath.rat.SqrtLaws where
  nonneg x := div_nonneg (Nat.cast_nonneg _) (Nat.cast_nonneg _)
  zero := by decide +kernel

/-- `math.hypot(x, y)`, also the norm `numpy.linalg.norm` of a vector of two
entries. -/
def PyMath.hypot {K : Type} [Field K] (m : PyMath K) (x y : K) : K := m.sqrt (x * x + y * y)

/-- `v / (np.linalg.norm(v) + 1e-9)`. -/
def PyMath.unit {K : Type} [Field K] (m : PyMath K) (v : K × K) : K × K :=
  let norm := m.hypot v.1 v.2 + 1 / 10 ^ 9
  (v.1 / norm, v.2 / norm)

/-- The opposite vector has the opposite direction. -/
theorem PyMath.unit_neg {K : Type} [Field K] (m : PyMath K) (v : K × K) :
    m.unit (-v) = -m.unit v := by
  simp only [PyMath.unit, PyMath.hypot, Prod.fst_neg, Prod.snd_neg, neg_mul_neg, neg_div]
  rfl

/-! ### Arrays -/

/-- `xs[idx]`. -/
def getOrIndexError {α : Type} (xs : List α) (idx : ℕ) : PyM α :=
  match xs[idx]? with
  | some x => .ok x
  | none => .error .indexError

theorem getOrIndexError_eq_ok {α : Type} {xs : List α} {idx : ℕ} {x : α} :
    getOrIndexError xs idx = .ok x ↔ xs[idx]? = some x := by
  unfold getOrIndexError
  cases xs[idx]? with
  | none => exact iff_of_false (fun h => nomatch h) fun h => nomatch h
  | some y =>
      rw [Option.some.injEq]
      exact Except.ok.injEq y x ▸ Iff.rfl

/-- The entry behind `pre`, of the list itself and of a list computed from it. -/
theorem getOrIndexError_map_append {α β : Type} (f : α → β) (pre post : List α) (x : α) :
    getOrIndexError ((pre ++ x :: post).map f) pre.length = .ok (f x) := by
  rw [getOrIndexError_eq_ok, List.getElem?_map, List.getElem?_append_right (Nat.le_refl _),
    Nat.sub_self]
  rfl

theorem getOrIndexError_append {α : Type} (pre post : List α) (x : α) :
    getOrIndexError (pre ++ x :: post) pre.length = .ok x := by
  have h := getOrIndexError_map_append id pre post x
  rwa [List.map_id] at h

/-- `xs[:k]`: a negative `k` counts from the end. -/
def pySliceTo {α : Type} (xs : List α) (k : ℤ) : List α :=
  if 0 ≤ k then xs.take k.toNat else xs.take (xs.length + k).toNat

/-- `np.tile(xs, n)`. -/
def npTile {α : Type} (xs : List α) (n : ℕ) : List α := (List.replicate n xs).flatten

/-- `np.repeat(xs, n)`. -/
def npRepeat {α : Type} (xs : List α) (n : ℕ) : List α := xs.flatMap (List.replicate n)

/-- `np.meshgrid(xs, ys)`: two grids with a row for each `y` and a column for
each `x`. -/
def meshgrid {α : Type} (xs ys : List α) : List (List α) × List (List α) :=
  (ys.map fun _ => xs, ys.map fun y => xs.map fun _ => y)

/-- `dst[:] = src` for two arrays with the same row shape: equal row counts
copy, a single source row is broadcast, anything else raises `ValueError`. -/
def npAssignRows {α : Type} (dst src : List α) : PyM (List α) :=
  if src.length = dst.length then .ok src
  else match src with
    | [row] => .ok (dst.map fun _ => row)
    | _ => .error .valueError

/-- The destination keeps its number of rows. -/
theorem npAssignRows_length {α : Type} {dst src out : List α} (h : npAssignRows dst src = .ok out) :
    out.length = dst.length := by
  unfold npAssignRows at h
  split at h
  · rename_i hlen
    cases h
    exact hlen
  · split at h
    · cases h
      exact List.length_map _
    · cases h

theorem npAssignRows_of_length_eq {α : Type} {dst src : List α} (h : src.length = dst.length) :
    npAssignRows dst src = .ok src := by
  simp [npAssignRows, h]

/-- The running sums of a list, `acc` added to each: the loop
`xs[idx] += cumsum; cumsum += val`. -/
def cumsum (acc : ℕ) : List ℕ → List ℕ
  | [] => []
  | x :: xs => (acc + x) :: cumsum (acc + x) xs

theorem length_cumsum (acc : ℕ) (xs : List ℕ) : (cumsum acc xs).length = xs.length := by
  induction xs generalizing acc with
  | nil => rfl
  | cons x xs ih => exact congrArg Nat.succ (ih (acc + x))

theorem cumsum_concat (acc : ℕ) (xs : List ℕ) (x : ℕ) :
    cumsum acc (xs ++ [x]) = cumsum acc xs ++ [acc + xs.sum + x] := by
  induction xs generalizing acc with
  | nil => rfl
  | cons y xs ih =>
      rw [List.cons_append, cumsum, ih, cumsum, List.sum_cons, ← Nat.add_assoc]
      rfl

/-- The running sums lie between the start and the total. -/
theorem mem_cumsum {acc : ℕ} {xs : List ℕ} {s : ℕ} (h : s ∈ cumsum acc xs) :
    acc ≤ s ∧ s ≤ acc + xs.sum := by
  induction xs generalizing acc with
  | nil => cases h
  | cons x xs ih =>
      rw [List.sum_cons]
      rcases List.mem_cons.mp h with rfl | h
      · omega
      · have := ih h
        omega

/-- The running sums do not decrease. -/
theorem pairwise_cumsum (acc : ℕ) (xs : List ℕ) : (cumsum acc xs).Pairwise (· ≤ ·) := by
  induction xs generalizing acc with
  | nil => exact List.Pairwise.nil
  | cons x xs ih => exact List.pairwise_cons.mpr ⟨fun s hs => (mem_cumsum hs).1, ih (acc + x)⟩

end W2Net
