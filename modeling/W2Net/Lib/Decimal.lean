import W2Net.Lib.Python
import W2Net.Lib.Text

/-!
# `W2Net.Lib.Decimal`: numbers with a fixed number of decimals

`fixed k x` is the text of `x` with `k` decimals, as the format `{:.kf}` prints it: the sign, the
digits in front of the point and the `k` digits behind it. `readDecimal` reads such a text.
`readDecimal_fixed` is the round trip: what is read is `x`, rounded half to even at the last
decimal.
-/

set_option autoImplicit false

namespace W2Net

section
variable {K : Type} [Field K] [LinearOrder K] [FloorRing K]

/-- `x`, rounded to `k` decimals. -/
def rounded (k : ℕ) (x : K) : K := (pyRound (x * 10 ^ k) : K) / 10 ^ k

/-- The digits of `n`, with zeros in front up to the length `k`. -/
def paddedDigits (k n : ℕ) : Text := (Nat.toDigits 10 n).leftpad k '0'

/-- The text of the number `n` of units of the last decimal. -/
def unsigned (k n : ℕ) : Text :=
  Nat.toDigits 10 (n / 10 ^ k) ++ if k = 0 then [] else '.' :: paddedDigits k (n % 10 ^ k)

/-- `'{:.kf}'.format(x)`. -/
def fixed (k : ℕ) (x : K) : Text :=
  (if x < 0 then ['-'] else []) ++ unsigned k (pyRound (|x| * 10 ^ k)).toNat

end

section
variable {K : Type} [Field K]

/-- The value of a text of digits with at most one point. -/
def readUnsigned (text : Text) : Option K :=
  let whole := text.takeWhile (· ≠ '.')
  let decimals := (text.dropWhile (· ≠ '.')).tail
  if whole ≠ [] ∧ (whole ++ decimals).all Char.isDigit then
    some (Nat.ofDigitChars 10 (whole ++ decimals) 0 / 10 ^ decimals.length)
  else none

/-- The value of a text of digits with at most one point, and possibly a sign in front. -/
def readDecimal : Text → Option K
  | '-' :: text => (readUnsigned text).map fun x => -x
  | text => readUnsigned text

end

/-! ### Digits -/

theorem isDigit_of_mem_toDigits {n : ℕ} {c : Char} (hc : c ∈ Nat.toDigits 10 n) :
    c.isDigit = true :=
  Nat.isDigit_of_mem_toDigits (by decide) (by decide) hc

theorem isDigit_of_mem_paddedDigits {k n : ℕ} {c : Char} (hc : c ∈ paddedDigits k n) :
    c.isDigit = true := by
  rw [paddedDigits, List.leftpad, List.mem_append] at hc
  rcases hc with hzero | hdigit
  · rw [List.eq_of_mem_replicate hzero]
    rfl
  · exact isDigit_of_mem_toDigits hdigit

theorem length_paddedDigits {k n : ℕ} (hk : 0 < k) (hn : n < 10 ^ k) :
    (paddedDigits k n).length = k := by
  have hle := (Nat.length_toDigits_le_iff (b := 10) (by decide) hk).mpr hn
  rw [paddedDigits, List.length_leftpad]
  omega

theorem ofDigitChars_paddedDigits {k n : ℕ} (hk : 0 < k) (hn : n < 10 ^ k) (init : ℕ) :
    Nat.ofDigitChars 10 (paddedDigits k n) init = 10 ^ k * init + n := by
  rw [Nat.ofDigitChars_eq_ofDigitChars_zero, length_paddedDigits hk hn, paddedDigits, List.leftpad,
    Nat.ofDigitChars_append, Nat.ofDigitChars_replicate_zero, Nat.mul_zero,
    Nat.ofDigitChars_ten_toDigits]

/-! ### The characters -/

/-- The characters of a printed number. -/
def IsNumeral (c : Char) : Prop := c = '-' ∨ c = '.' ∨ c.isDigit = true

theorem isNumeral_of_mem_unsigned {k n : ℕ} {c : Char} (hc : c ∈ unsigned k n) :
    IsNumeral c ∧ c ≠ '-' := by
  have hdigit : ∀ {c : Char}, c.isDigit = true → IsNumeral c ∧ c ≠ '-' := by
    intro c hc
    refine ⟨.inr (.inr hc), ?_⟩
    rintro rfl
    cases hc
  rw [unsigned, List.mem_append] at hc
  rcases hc with hwhole | hrest
  · exact hdigit (isDigit_of_mem_toDigits hwhole)
  · split at hrest
    · cases hrest
    · rcases List.mem_cons.mp hrest with rfl | hpadded
      · exact ⟨.inr (.inl rfl), by decide⟩
      · exact hdigit (isDigit_of_mem_paddedDigits hpadded)

theorem unsigned_ne_nil (k n : ℕ) : unsigned k n ≠ [] := by
  rw [unsigned]
  exact List.append_ne_nil_of_left_ne_nil Nat.toDigits_ne_nil _

section
variable {K : Type} [Field K] [LinearOrder K] [FloorRing K]

theorem isNumeral_of_mem_fixed {k : ℕ} {x : K} {c : Char} (hc : c ∈ fixed k x) : IsNumeral c := by
  rw [fixed, List.mem_append] at hc
  rcases hc with hsign | hdigits
  · split at hsign
    · exact .inl (List.mem_singleton.mp hsign)
    · cases hsign
  · exact (isNumeral_of_mem_unsigned hdigits).1

theorem fixed_ne_nil (k : ℕ) (x : K) : fixed k x ≠ [] :=
  List.append_ne_nil_of_right_ne_nil _ (unsigned_ne_nil _ _)

end

/-! ### The round trip -/

section
variable {K : Type} [Field K]

/-- What is read from a text of digits, a point and more digits. -/
theorem readUnsigned_append {whole decimals : Text} (hwhole : ∀ c ∈ whole, c.isDigit = true)
    (hdecimals : ∀ c ∈ decimals, c.isDigit = true) (hne : whole ≠ []) (point : Bool)
    (hpoint : point = false → decimals = []) :
    readUnsigned (whole ++ if point then '.' :: decimals else []) =
      some (Nat.ofDigitChars 10 (whole ++ decimals) 0 / 10 ^ decimals.length : K) := by
  have hnopoint : ∀ c ∈ whole, decide (c ≠ '.') = true := by
    intro c hc
    refine decide_eq_true ?_
    rintro rfl
    cases hwhole _ hc
  have hdigits : (whole ++ decimals).all Char.isDigit = true := by
    rw [List.all_eq_true]
    intro c hc
    rcases List.mem_append.mp hc with h | h
    · exact hwhole c h
    · exact hdecimals c h
  have htake : (whole ++ if point then '.' :: decimals else []).takeWhile (· ≠ '.') = whole := by
    rw [List.takeWhile_append_of_pos hnopoint]
    cases point with
    | false => simp
    | true => simp
  have hdrop : ((whole ++ if point then '.' :: decimals else []).dropWhile (· ≠ '.')).tail
      = decimals := by
    rw [List.dropWhile_append_of_pos hnopoint]
    cases point with
    | false => simp [hpoint]
    | true => simp
  rw [readUnsigned, htake, hdrop]
  exact if_pos ⟨hne, hdigits⟩

theorem readUnsigned_unsigned [CharZero K] (k n : ℕ) :
    readUnsigned (unsigned k n) = some ((n : K) / 10 ^ k) := by
  rcases Nat.eq_zero_or_pos k with rfl | hk
  · have h : readUnsigned (Nat.toDigits 10 n ++ if false then '.' :: [] else []) = some (_ : K) :=
      readUnsigned_append (fun c hc => isDigit_of_mem_toDigits hc) (fun c hc => by cases hc)
        Nat.toDigits_ne_nil false fun _ => rfl
    rw [List.append_nil, Nat.ofDigitChars_ten_toDigits] at h
    simpa [unsigned] using h
  · have hlt : n % 10 ^ k < 10 ^ k := Nat.mod_lt _ (by positivity)
    have h : readUnsigned (Nat.toDigits 10 (n / 10 ^ k) ++
        if true then '.' :: paddedDigits k (n % 10 ^ k) else []) = some (_ : K) :=
      readUnsigned_append (fun c hc => isDigit_of_mem_toDigits hc)
        (fun c hc => isDigit_of_mem_paddedDigits hc) Nat.toDigits_ne_nil true (fun h => by cases h)
    rw [Nat.ofDigitChars_append, Nat.ofDigitChars_ten_toDigits,
      ofDigitChars_paddedDigits hk hlt, length_paddedDigits hk hlt, Nat.div_add_mod] at h
    rw [unsigned, if_neg hk.ne']
    exact h

theorem readDecimal_of_unsigned {text : Text} (h : ∀ c ∈ text, c ≠ '-') :
    readDecimal text = (readUnsigned text : Option K) := by
  cases text with
  | nil => rfl
  | cons c text =>
      have hc : c ≠ '-' := h c List.mem_cons_self
      unfold readDecimal
      split
      · rename_i heq
        exact absurd (List.cons.inj heq).1 hc
      · rfl

end

section
variable {K : Type} [Field K] [LinearOrder K] [FloorRing K] [IsStrictOrderedRing K]

theorem le_pyRound_iff {x : K} {n : ℤ} :
    n ≤ pyRound x ↔ n - 1 / 2 < x ∨ (x = n - 1 / 2 ∧ n % 2 = 0) := by
  have hnot : n ≤ pyRound x ↔ ¬pyRound x ≤ n - 1 := by omega
  have hmiddle : ((n - 1 : ℤ) : K) + 1 / 2 = n - 1 / 2 := by
    push_cast
    ring
  have hparity : (n - 1) % 2 = 0 ↔ ¬n % 2 = 0 := by omega
  rw [hnot, pyRound_le_iff, hmiddle, hparity]
  generalize (n : K) - 1 / 2 = y
  rcases lt_trichotomy x y with hlt | heq | hgt
  · simp [hlt, hlt.not_gt, hlt.ne]
  · simp [heq]
  · simp [hgt, hgt.not_gt, hgt.ne']

/-- Rounding half to even does not depend on the sign. -/
theorem pyRound_neg (x : K) : pyRound (-x) = -pyRound x := by
  refine eq_of_forall_ge_iff ?_
  intro n
  have hneg : -pyRound x ≤ n ↔ -n ≤ pyRound x := by omega
  have hlt : -x < n + 1 / 2 ↔ ((-n : ℤ) : K) - 1 / 2 < x := by
    push_cast
    constructor <;> intro h <;> linarith
  have heq : -x = n + 1 / 2 ↔ x = ((-n : ℤ) : K) - 1 / 2 := by
    push_cast
    constructor <;> intro h <;> linarith
  have hparity : n % 2 = 0 ↔ -n % 2 = 0 := by omega
  rw [hneg, pyRound_le_iff, le_pyRound_iff, hlt, heq, hparity]

/-- A printed number is read as the number, rounded to its decimals. -/
theorem readDecimal_fixed (k : ℕ) (x : K) : readDecimal (fixed k x) = some (rounded k x) := by
  have hunits : ∀ y : K, 0 ≤ y →
      (((pyRound (y * 10 ^ k)).toNat : ℕ) : K) = (pyRound (y * 10 ^ k) : K) := by
    intro y hy
    have hnonneg : 0 ≤ pyRound (y * 10 ^ k) := pyRound_nonneg (by positivity)
    have hcast : (((pyRound (y * 10 ^ k)).toNat : ℕ) : ℤ) = pyRound (y * 10 ^ k) :=
      Int.toNat_of_nonneg hnonneg
    exact_mod_cast congrArg (fun z : ℤ => (z : K)) hcast
  rw [fixed, rounded]
  split
  · rename_i hneg
    show (readUnsigned (unsigned k _)).map _ = _
    rw [readUnsigned_unsigned, Option.map_some, hunits _ (abs_nonneg x), abs_of_neg hneg, neg_mul,
      pyRound_neg, Int.cast_neg, neg_div, neg_neg]
  · rename_i hpos
    rw [List.nil_append, readDecimal_of_unsigned fun c hc => (isNumeral_of_mem_unsigned hc).2,
      readUnsigned_unsigned, hunits _ (abs_nonneg x), abs_of_nonneg (not_lt.mp hpos)]

end

end W2Net
