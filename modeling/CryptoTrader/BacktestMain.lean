/-
# CryptoTrader.BacktestMain — the command line of the backtest.

`main` of `bin/backtest.rs`, from its arguments to the figures it prints.  The configuration is given; the
files, the parser of a line, the allocator and what the clocks and the id generator say at each event are
parameters; the layout of the printed lines is left out.  An end without a report is an error, also where
the program panics or aborts because it cannot allocate the synthetic events.

The arguments are a sequence of items (`Item`), the last of a kind winning, and whatever follows an option
is its value, even if it looks like an option.  A run over a recorded file has no snapshot to start from,
so its book never goes live: whatever the file holds and whatever the strategy is, it prints zeros.
-/
import CryptoTrader.DataLoader
import CryptoTrader.SyntheticData
import CryptoTrader.UnsyncedBacktest
import CryptoTrader.Wiring

namespace CryptoTrader

namespace BacktestMain

/-! ## §1 The arguments -/

structure Args where
  dataPath : Option String
  strategyName : String
  numEvents : Nat
  deriving DecidableEq

def Args.default : Args where
  dataPath := none
  strategyName := "noop"
  numEvents := 100

/-- The digits of a `usize`, after those read so far. -/
def parseDigits : Nat → List Char → Except String Nat
  | n, [] => .ok n
  | n, c :: cs =>
      if c.isDigit then
        let n := n * 10 + (c.toNat - '0'.toNat)
        if n < 2 ^ 64 then parseDigits n cs
        else .error "number too large to fit in target type"
      else .error "invalid digit found in string"

/-- `str::parse::<usize>` -/
def parseUsize (s : String) : Except String Nat :=
  match s.toList with
  | [] => .error "cannot parse integer from empty string"
  | ['+'] => .error "invalid digit found in string"
  | '+' :: cs => parseDigits 0 cs
  | cs => parseDigits 0 cs

/-- What the arguments are made of. -/
inductive Item where
  | strategy (name : String)
  | events (text : String) (n : Nat)
  | path (p : String)

namespace Item

def Valid : Item → Prop
  | strategy _ => True
  | events text n => parseUsize text = .ok n
  | path p => p ≠ "--strategy" ∧ p ≠ "--events"

def render : Item → List String
  | strategy name => ["--strategy", name]
  | events text _ => ["--events", text]
  | path p => [p]

def apply (args : Args) : Item → Args
  | strategy name => { args with strategyName := name }
  | events _ n => { args with numEvents := n }
  | path p => { args with dataPath := some p }

end Item

/-- Arguments that no item starts with, and the complaint. -/
inductive Stuck : List String → String → Prop where
  | strategy : Stuck ["--strategy"] "--strategy requires a value"
  | events : Stuck ["--events"] "--events requires a value"
  | number {text e : String} (rest : List String) : parseUsize text = .error e →
      Stuck ("--events" :: text :: rest) e

/-- Items up to the end, or to where the loop is stuck. -/
def Splits (tokens : List String) : Prop :=
  ∃ items : List Item, (∀ item ∈ items, item.Valid) ∧
    (tokens = items.flatMap Item.render ∨
      ∃ rest e, tokens = items.flatMap Item.render ++ rest ∧ Stuck rest e)

theorem Stuck.splits {rest : List String} {e : String} (h : Stuck rest e) : Splits rest :=
  ⟨[], fun _ h => absurd h List.not_mem_nil, Or.inr ⟨rest, e, rfl, h⟩⟩

theorem Splits.item {rest : List String} (h : Splits rest) (item : Item) (hitem : item.Valid) :
    Splits (item.render ++ rest) := by
  obtain ⟨items, hitems, hrest⟩ := h
  refine ⟨item :: items, ?_, ?_⟩
  · intro i hi
    rcases List.mem_cons.mp hi with rfl | hi
    · exact hitem
    · exact hitems i hi
  · rw [List.flatMap_cons]
    rcases hrest with rfl | ⟨rest', e, rfl, hstuck⟩
    · exact Or.inl rfl
    · exact Or.inr ⟨rest', e, (List.append_assoc _ _ _).symm, hstuck⟩

/-- Any arguments split. -/
theorem splits : ∀ tokens : List String, Splits tokens
  | [] => ⟨[], fun _ h => absurd h List.not_mem_nil, Or.inl rfl⟩
  | arg :: rest => by
      by_cases hstrategy : arg = "--strategy"
      · subst hstrategy
        match rest with
        | [] => exact Stuck.strategy.splits
        | name :: rest => exact (splits rest).item (.strategy name) trivial
      by_cases hevents : arg = "--events"
      · subst hevents
        match rest with
        | [] => exact Stuck.events.splits
        | text :: rest =>
            cases hparse : parseUsize text with
            | error e => exact (Stuck.number rest hparse).splits
            | ok n => exact (splits rest).item (.events text n) hparse
      exact (splits rest).item (.path arg) ⟨hstrategy, hevents⟩

section

variable {ε : Type} [ToString ε] (cfg : Config) (files : String → Except String (List Char))
  (fromStr : String → Except ε DepthUpdate) (grants : Nat → Bool) (clock : Nat → UInt64 × Readings)

/-- The events of a run: `clock` says what the code reads at each. -/
def ticks (events : List DepthUpdate) : List Tick :=
  events.mapIdx fun i update => ⟨update, (clock i).1, (clock i).2⟩

end

end BacktestMain

end CryptoTrader
