/-
# CryptoTrader.Types — the messages of the pipeline and the numbers in them.

The records of `types.rs`.  Update ids, event times and timestamps are `u64` and stay `UInt64`.
An `f64` of the program is an exact rational: the properties proved of it are about the arithmetic
the code spells out, not about rounding.  (The book also comes with binary64 numbers, for what it
makes of the strings of a level.)  A price level travels as the pair of decimal strings the exchange
sent, and `parseF64` reads such a string.
-/
import Mathlib

namespace CryptoTrader

/-! ## Decimal strings -/

/-- Value of the decimal digits at the front of the input, continuing from `acc`; the number of
digits read, counting from `n`; and what follows them. -/
def scanDigits (acc n : Nat) : List Char → Nat × Nat × List Char
  | [] => (acc, n, [])
  | c :: cs =>
      if c.isDigit then scanDigits (acc * 10 + (c.toNat - '0'.toNat)) (n + 1) cs
      else (acc, n, c :: cs)

/-- A sign is optional; the flag is `true` for a minus. -/
def scanSign : List Char → Bool × List Char
  | '-' :: cs => (true, cs)
  | '+' :: cs => (false, cs)
  | cs => (false, cs)

/-- The exponent part, which must end the input: nothing, or `e`, an optional sign and at least
one digit. -/
def parseExp : List Char → Option Int
  | [] => some 0
  | c :: cs =>
      if c = 'e' ∨ c = 'E' then
        let (neg, digits) := scanSign cs
        match scanDigits 0 0 digits with
        | (v, _ + 1, []) => some (if neg then -(v : Int) else v)
        | _ => none
      else none

/-- The unsigned part: digits with at most one point among or around them (at least one digit),
then the exponent.  It is read as the mantissa (all the digits), the number of them after the point
and the exponent. -/
def scanNumber (cs : List Char) : Option (Nat × Nat × Int) :=
  let (whole, n, rest) := scanDigits 0 0 cs
  let (mantissa, places, digits, rest) : Nat × Nat × Nat × List Char :=
    match rest with
    | '.' :: frac =>
        let (m, k, rest) := scanDigits whole 0 frac
        (m, k, n + k, rest)
    | rest => (whole, 0, n, rest)
  if digits = 0 then none
  else (parseExp rest).map fun e => (mantissa, places, e)

/-- The number that an unsigned part writes. -/
def parseUnsigned (cs : List Char) : Option ℚ :=
  (scanNumber cs).map fun (mantissa, places, e) => (mantissa : ℚ) / 10 ^ places * 10 ^ e

/-- `str::parse::<f64>` in exact arithmetic: the number that the string writes, and `none` for the
parse error.  It neither rounds nor underflows nor overflows, and the spellings of NaN and of the
infinities, which name no rational, are `none` too.  The reading that rounds is `parseFloat`. -/
def parseF64 (s : String) : Option ℚ :=
  let (neg, cs) := scanSign s.toList
  (parseUnsigned cs).map fun q => if neg then -q else q

example : parseF64 "65000.50" = some (130001 / 2) := by decide +kernel
example : parseF64 "-1.5e-1" = some (-3 / 20) := by decide +kernel
example : parseF64 "1.2.3" = none := by decide +kernel

/-! ## Messages -/

/-- One price level as sent: `[price, quantity]`. -/
abbrev Level := String × String

structure DepthUpdate where
  eventType : String
  eventTime : UInt64
  symbol : String
  /-- `U` -/
  firstUpdateId : UInt64
  /-- `u` -/
  lastUpdateId : UInt64
  /-- `pu` -/
  prevLastUpdateId : UInt64
  bids : List Level
  asks : List Level
  deriving DecidableEq, Repr

structure Trade where
  eventType : String
  eventTime : UInt64
  symbol : String
  price : String
  qty : String
  isBuyerMaker : Bool
  deriving DecidableEq, Repr

structure DepthSnapshot where
  lastUpdateId : UInt64
  bids : List Level
  asks : List Level
  deriving DecidableEq, Repr

inductive MarketEvent where
  | depthUpdate (update : DepthUpdate)
  | depthSnapshot (snapshot : DepthSnapshot)
  | trade (trade : Trade)
  | reconnect
  deriving DecidableEq, Repr

/-- What a strategy sees: the top levels as (price, quantity), best first on both sides. -/
structure OrderbookSnapshot where
  symbol : String
  bids : List (ℚ × ℚ)
  asks : List (ℚ × ℚ)
  timestampMs : UInt64
  deriving DecidableEq

inductive Signal where
  | buy (price qty : ℚ)
  | sell (price qty : ℚ)
  | hold
  deriving DecidableEq

structure ValidatedOrder where
  signal : Signal
  clientOrderId : String
  deriving DecidableEq

end CryptoTrader
