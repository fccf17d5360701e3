/-
# CryptoTrader.Decimal — formatted decimals, and reading them back.

`formatFixed places` is `format!("{:.N}")` of an `f64` with its exact value: the nearest multiple of
`10 ^ -places`, a tie going to the even digit, written with exactly `places` digits behind the
point.  What it writes is what `parseF64` reads (`parseF64_formatFixed`), so a formatted number
differs from the number by the rounding and by nothing else.
-/
import CryptoTrader.Types

namespace CryptoTrader

/-! ## §1 Rounding -/

/-- `f64::round`: to the nearest integer, half-way cases away from zero. -/
def roundF64 (x : ℚ) : ℤ := if 0 ≤ x then ⌊x + 1 / 2⌋ else -⌊-x + 1 / 2⌋

/-- To the nearest natural number, half-way cases to the even one. -/
def roundHalfEven (x : ℚ) : Nat :=
  let n := ⌊x⌋.toNat
  let r := x - n
  if r < 1 / 2 then n else if r > 1 / 2 then n + 1 else if n % 2 = 0 then n else n + 1

/-- Rounding stays within integer bounds. -/
theorem roundF64_mem {x : ℚ} {a : ℤ} (h : -a ≤ x) (h' : x ≤ a) :
    -a ≤ roundF64 x ∧ roundF64 x ≤ a := by
  have hfloor : ∀ y : ℚ, y ≤ a → ⌊y + 1 / 2⌋ ≤ a := by
    intro y hy
    rw [← Int.lt_add_one_iff, Int.floor_lt]
    push_cast
    linarith
  have hnonneg : ∀ y : ℚ, 0 ≤ y → 0 ≤ ⌊y + 1 / 2⌋ := fun y hy => Int.floor_nonneg.mpr (by linarith)
  unfold roundF64
  split
  · next hx =>
      have hup := hfloor x h'
      have hlow := hnonneg x hx
      omega
  · next hx =>
      have hup := hfloor (-x) (by linarith)
      have hlow := hnonneg (-x) (by linarith)
      omega

theorem roundHalfEven_natCast (n : Nat) : roundHalfEven n = n := by
  unfold roundHalfEven
  simp

/-- A number that reaches an integer is not rounded below it. -/
theorem le_roundHalfEven {n : Nat} {x : ℚ} (h : (n : ℚ) ≤ x) : n ≤ roundHalfEven x := by
  have hfloor : n ≤ ⌊x⌋.toNat := by
    have hcast : (n : ℤ) ≤ ⌊x⌋ := Int.le_floor.mpr (by exact_mod_cast h)
    omega
  unfold roundHalfEven
  dsimp only
  split
  · exact hfloor
  · split
    · omega
    · split <;> omega

/-! ## §2 Writing -/

/-- The last `places` digits of a number. -/
def fracDigits : Nat → Nat → List Char
  | 0, _ => []
  | places + 1, m => fracDigits places (m / 10) ++ [Nat.digitChar (m % 10)]

/-- A number of units of `10 ^ -places`, with its point. -/
def writeFixed (places m : Nat) : List Char :=
  Nat.toDigits 10 (m / 10 ^ places) ++ if places = 0 then [] else '.' :: fracDigits places m

/-- `format!("{:.places$}", x)` -/
def formatFixed (places : Nat) (x : ℚ) : String :=
  String.ofList
    ((if x < 0 then ['-'] else []) ++ writeFixed places (roundHalfEven (|x| * 10 ^ places)))

example : formatFixed 2 64990 = "64990.00" := by decide +kernel
example : formatFixed 4 (13 / 8) = "1.6250" := by decide +kernel
example : formatFixed 0 (5 / 2) = "2" := by decide +kernel

/-! ## §3 Reading back -/

theorem isDigit_fracDigits (places m : Nat) : ∀ c ∈ fracDigits places m, c.isDigit = true := by
  induction places generalizing m with
  | zero => simp [fracDigits]
  | succ places ih =>
      intro c hc
      rcases List.mem_append.mp hc with hc | hc
      · exact ih (m / 10) c hc
      · rw [List.mem_singleton.mp hc, Nat.isDigit_digitChar]
        exact decide_eq_true (Nat.mod_lt m (by decide))

theorem length_fracDigits (places m : Nat) : (fracDigits places m).length = places := by
  induction places generalizing m with
  | zero => rfl
  | succ places ih => rw [fracDigits, List.length_append, ih]; rfl

/-- The digits behind the point continue the value in front of it. -/
theorem ofDigitChars_fracDigits (places m acc : Nat) :
    Nat.ofDigitChars 10 (fracDigits places m) acc = acc * 10 ^ places + m % 10 ^ places := by
  induction places generalizing m with
  | zero => simp [fracDigits, Nat.mod_one]
  | succ places ih =>
      have hdigit : m % 10 < 10 := Nat.mod_lt m (by decide)
      rw [fracDigits, Nat.ofDigitChars_append, ih, Nat.ofDigitChars_cons_digitChar_of_lt_ten hdigit,
        Nat.ofDigitChars_nil, Nat.pow_succ', Nat.mod_mul]
      ring

/-- The scanner takes all the digits there are. -/
theorem scanDigits_append {ds rest : List Char} (hds : ∀ c ∈ ds, c.isDigit = true)
    (hrest : ∀ c ∈ rest.head?, c.isDigit = false) (acc n : Nat) :
    scanDigits acc n (ds ++ rest) = (Nat.ofDigitChars 10 ds acc, n + ds.length, rest) := by
  induction ds generalizing acc n with
  | nil =>
      cases rest with
      | nil => rfl
      | cons c rest =>
          have hc : c.isDigit = false := hrest c rfl
          simp [scanDigits, hc]
  | cons c ds ih =>
      have hc : c.isDigit = true := hds c List.mem_cons_self
      have hrec := ih (fun d hd => hds d (List.mem_cons_of_mem c hd))
        (acc * 10 + (c.toNat - '0'.toNat)) (n + 1)
      rw [List.cons_append, scanDigits, if_pos hc, hrec, Nat.ofDigitChars_cons, List.length_cons,
        mul_comm acc 10, Nat.add_assoc n 1, Nat.add_comm 1]

/-- A number that starts with a digit has no sign. -/
theorem scanSign_of_digit {cs : List Char} (h : ∀ c ∈ cs.head?, c.isDigit = true) :
    scanSign cs = (false, cs) := by
  unfold scanSign
  split
  · next cs' => exact absurd (h '-' rfl) (by decide)
  · next cs' => exact absurd (h '+' rfl) (by decide)
  · rfl

/-- The unsigned part, read back. -/
theorem parseUnsigned_writeFixed (places m : Nat) :
    parseUnsigned (writeFixed places m) = some ((m : ℚ) / 10 ^ places) := by
  have hwhole : ∀ c ∈ Nat.toDigits 10 (m / 10 ^ places), c.isDigit = true := fun c hc =>
    Nat.isDigit_of_mem_toDigits (by decide) (by decide) hc
  have hpoint : ∀ c ∈ ('.' :: fracDigits places m).head?, c.isDigit = false := by
    intro c hc
    obtain rfl := Option.some.inj hc
    rfl
  unfold writeFixed parseUnsigned scanNumber
  by_cases hplaces : places = 0
  · subst hplaces
    rw [if_pos rfl, scanDigits_append hwhole (by simp)]
    simp [parseExp]
  · rw [if_neg hplaces, scanDigits_append hwhole hpoint]
    have hfrac := @scanDigits_append (fracDigits places m) [] (isDigit_fracDigits places m)
      (by simp) (m / 10 ^ places) 0
    rw [List.append_nil, ofDigitChars_fracDigits, Nat.div_add_mod'] at hfrac
    simp only [Nat.ofDigitChars_ten_toDigits, hfrac]
    simp [parseExp, length_fracDigits]

/-- What is left of a number in the decimals of `format!`. -/
def roundPlaces (places : Nat) (x : ℚ) : ℚ :=
  let q := (roundHalfEven (|x| * 10 ^ places) : ℚ) / 10 ^ places
  if x < 0 then -q else q

/-- **What is written is what is read.** -/
theorem parseF64_formatFixed (places : Nat) (x : ℚ) :
    parseF64 (formatFixed places x) = some (roundPlaces places x) := by
  have hdigit : ∀ c ∈ (writeFixed places (roundHalfEven (|x| * 10 ^ places))).head?,
      c.isDigit = true := by
    intro c hc
    unfold writeFixed at hc
    rw [List.head?_append_of_ne_nil _ Nat.toDigits_ne_nil] at hc
    exact Nat.isDigit_of_mem_toDigits (by decide) (by decide) (List.mem_of_mem_head? hc)
  unfold parseF64 formatFixed roundPlaces
  rw [String.toList_ofList]
  by_cases hx : x < 0
  · simp only [hx, if_true]
    show (parseUnsigned (writeFixed _ _)).map _ = _
    rw [parseUnsigned_writeFixed]
    rfl
  · simp only [hx, if_false, List.nil_append, scanSign_of_digit hdigit, parseUnsigned_writeFixed]
    rfl

/-- A whole number is written exactly. -/
theorem roundPlaces_intCast (places : Nat) (n : ℤ) : roundPlaces places n = n := by
  have hnat : |(n : ℚ)| * 10 ^ places = ((n.natAbs * 10 ^ places : Nat) : ℚ) := by
    push_cast
    rw [Nat.cast_natAbs]
    push_cast
    rfl
  have hpow : (10 : ℚ) ^ places ≠ 0 := by positivity
  unfold roundPlaces
  rw [hnat, roundHalfEven_natCast, ← hnat, mul_div_cancel_right₀ _ hpow]
  split
  · next h => rw [abs_of_neg h, neg_neg]
  · next h => exact abs_of_nonneg (not_lt.mp h)

/-- A number that reaches a decimal is not written below it. -/
theorem le_roundPlaces {places m : Nat} {x : ℚ} (h : (m : ℚ) / 10 ^ places ≤ x) :
    (m : ℚ) / 10 ^ places ≤ roundPlaces places x := by
  have hpow : (0 : ℚ) < 10 ^ places := by positivity
  have hx : 0 ≤ x := le_trans (by positivity) h
  have hround : m ≤ roundHalfEven (|x| * 10 ^ places) := by
    apply le_roundHalfEven
    rw [abs_of_nonneg hx]
    exact (div_le_iff₀ hpow).mp h
  unfold roundPlaces
  rw [if_neg (not_lt.mpr hx)]
  gcongr

end CryptoTrader
