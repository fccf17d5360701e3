/-
# CryptoTrader.Orderbook — the local order book and its sync state machine.

The functions of `orderbook.rs`.  The book is either `buffering` (events are stored, the sides are
empty or stale) or `live` at the id of the last event applied.  A REST snapshot takes it to `live`
and replays the buffered events; a sequence gap takes it back to `buffering` and raises
`resync_needed`.

The book is generic in its numbers (`BookNumber`): all it does with an `f64` is to parse it, to make
the key of a price and to compare a quantity with zero.  `Orderbook` is the book of exact rationals,
and `Orderbook Float` is the one of binary64 numbers.

`BTreeMap<u64, f64>` is `Std.ExtTreeMap Nat F`, whose equality is extensional: two sides are equal
exactly when they hold the same quantity at every key.  `&mut self` methods return the new book;
`handleUpdate` also threads the value of the shared `resync_needed` flag, which it can only raise.
Log lines are not modelled.
-/
import CryptoTrader.Types
import CryptoTrader.Lib.WriteLog

namespace CryptoTrader

open Lib

/-! ## Numbers -/

/-- What the book does with numbers, and what it presumes of zero. -/
class BookNumber (F : Type) where
  /-- `str::parse::<f64>` -/
  parse : String → Option F
  /-- `0.0` -/
  zero : F
  /-- `price_to_key` -/
  toKey : F → Nat
  /-- `q == 0.0` -/
  IsZero : F → Prop
  /-- `q > 0.0` -/
  IsPos : F → Prop
  decidableIsZero : DecidablePred IsZero
  decidableIsPos : DecidablePred IsPos
  toKey_zero : toKey zero = 0
  isZero_zero : IsZero zero
  not_isPos_zero : ¬ IsPos zero

open BookNumber

instance {F : Type} [BookNumber F] (q : F) : Decidable (IsZero q) := decidableIsZero q

instance {F : Type} [BookNumber F] (q : F) : Decidable (IsPos q) := decidableIsPos q

/-- `(price * 1e8) as u64` in exact arithmetic: the cast truncates toward zero and saturates at both
ends.  With binary64 numbers the product is rounded before the cast. -/
def priceToKey (price : ℚ) : Nat := min ⌊price * 10 ^ 8⌋.toNat (2 ^ 64 - 1)

/-- The exact rationals. -/
@[default_instance]
instance : BookNumber ℚ where
  parse := parseF64
  zero := 0
  toKey := priceToKey
  IsZero q := q = 0
  IsPos q := q > 0
  decidableIsZero q := inferInstanceAs (Decidable (q = 0))
  decidableIsPos q := inferInstanceAs (Decidable (q > 0))
  toKey_zero := by decide +kernel
  isZero_zero := rfl
  not_isPos_zero := lt_irrefl 0

/-! ## The book -/

variable {F : Type}

/-- One side of the book: price key ↦ quantity. -/
abbrev Side (F : Type := ℚ) := Std.ExtTreeMap Nat F

inductive SyncState where
  | buffering (buf : List DepthUpdate)
  | live (lastUpdateId : UInt64)
  deriving DecidableEq

structure Orderbook (F : Type := ℚ) where
  symbol : String
  bids : Side F
  asks : Side F
  depthLevels : Nat
  state : SyncState

/-! ## Levels -/

section Levels

variable [BookNumber F]

/-- A level as the code reads it: the key of its price and its quantity, with `0.0` for a string
that does not parse. -/
def readLevel (level : Level) : Nat × F :=
  (toKey ((parse level.1 : Option F).getD zero), (parse level.2).getD zero)

/-- One pass of the loop over the levels of a diff: quantity zero removes the key, anything else
is stored. -/
def applyLevel (side : Side F) (level : Level) : Side F :=
  let (key, qty) := readLevel level
  if IsZero qty then side.erase key else side.insert key qty

/-- `apply_levels`: the two loops, one over each side. -/
def applyLevels (sides : Side F × Side F) (update : DepthUpdate) : Side F × Side F :=
  (update.bids.foldl applyLevel sides.1, update.asks.foldl applyLevel sides.2)

/-- One pass of the loop that loads a snapshot: only positive quantities are stored. -/
def loadLevel (side : Side F) (level : Level) : Side F :=
  let (key, qty) := readLevel level
  if IsPos qty then side.insert key qty else side

/-- A side rebuilt from the levels of a snapshot. -/
def loadLevels (levels : List Level) : Side F := levels.foldl loadLevel ∅

/-! What the two loops do with a level, by its quantity. -/

variable {side : Side F} {level : Level}

theorem applyLevel_of_isZero (h : IsZero (readLevel (F := F) level).2) :
    applyLevel side level = side.erase (readLevel (F := F) level).1 := if_pos h

theorem applyLevel_of_not_isZero (h : ¬ IsZero (readLevel (F := F) level).2) :
    applyLevel side level
      = side.insert (readLevel (F := F) level).1 (readLevel level).2 := if_neg h

theorem loadLevel_of_isPos (h : IsPos (readLevel (F := F) level).2) :
    loadLevel side level
      = side.insert (readLevel (F := F) level).1 (readLevel level).2 := if_pos h

theorem loadLevel_of_not_isPos (h : ¬ IsPos (readLevel (F := F) level).2) :
    loadLevel side level = side := if_neg h

end Levels

/-- A level of exact numbers. -/
theorem readLevel_rat (level : Level) :
    readLevel level = (priceToKey ((parseF64 level.1).getD 0), (parseF64 level.2).getD 0) := rfl

/-- The last quantity the levels list for a key. -/
def lastListed (key : Nat) (levels : List Level) : Option ℚ :=
  WriteLog.lastEntry key (levels.map readLevel)

theorem applyLevel_eq_write (side : Side) (level : Level) :
    applyLevel side level
      = WriteLog.write (fun q : ℚ => if q = 0 then none else some q) side (readLevel level) := by
  unfold WriteLog.write
  by_cases h : (readLevel level).2 = 0
  · simp only [applyLevel_of_isZero h, h, if_true]
  · simp only [applyLevel_of_not_isZero h, h, if_false]

/-- The loop over the levels of a diff replays them. -/
theorem foldl_applyLevel_eq_replay (levels : List Level) (side : Side) :
    levels.foldl applyLevel side
      = WriteLog.replay (fun q : ℚ => if q = 0 then none else some q) side
          (levels.map readLevel) := by
  rw [WriteLog.replay, List.foldl_map]
  exact congrFun (congrFun (congrArg List.foldl
    (funext fun s => funext fun l => applyLevel_eq_write s l)) side) levels

/-- Only the last listed quantity of a key counts, and zero means absent. -/
theorem getElem?_foldl_applyLevel (levels : List Level) (side : Side) (key : Nat) :
    (levels.foldl applyLevel side)[key]? =
      match lastListed key levels with
      | some q => if q = 0 then none else some q
      | none => side[key]? := by
  rw [foldl_applyLevel_eq_replay, WriteLog.getElem?_replay, lastListed]
  cases WriteLog.lastEntry key (levels.map readLevel) <;> rfl

theorem loadLevels_eq_replay (levels : List Level) (side : Side) :
    levels.foldl loadLevel side
      = WriteLog.replay some side ((levels.map readLevel).filter fun l => 0 < l.2) := by
  induction levels generalizing side with
  | nil => rfl
  | cons level levels ih =>
      rw [List.foldl_cons, ih, List.map_cons, List.filter_cons]
      by_cases h : 0 < (readLevel level).2
      · rw [loadLevel_of_isPos h, if_pos (decide_eq_true h)]
        rfl
      · rw [loadLevel_of_not_isPos h, if_neg (by simpa using h)]

/-- A loaded side holds the last positive quantity listed for a key. -/
theorem getElem?_loadLevels (levels : List Level) (key : Nat) :
    (loadLevels levels)[key]?
      = WriteLog.lastEntry key ((levels.map readLevel).filter fun l => 0 < l.2) := by
  rw [loadLevels, loadLevels_eq_replay, WriteLog.getElem?_replay]
  cases WriteLog.lastEntry key ((levels.map readLevel).filter fun l => 0 < l.2) with
  | some q => rfl
  | none => exact Std.ExtTreeMap.getElem?_empty

namespace Orderbook

def new (symbol : String) (depthLevels : Nat) : Orderbook F where
  symbol := symbol
  bids := ∅
  asks := ∅
  depthLevels := depthLevels
  state := .buffering []

def reset (book : Orderbook F) : Orderbook F :=
  { book with bids := ∅, asks := ∅, state := .buffering [] }

/-- Both sides at once. -/
def sides (book : Orderbook F) : Side F × Side F := (book.bids, book.asks)

def isLive (book : Orderbook F) : Bool :=
  match book.state with
  | .buffering _ => false
  | .live _ => true

/-- The buffered events; a live book treats a snapshot as a fresh start with an empty buffer. -/
def buffered (book : Orderbook F) : List DepthUpdate :=
  match book.state with
  | .buffering buf => buf
  | .live _ => []

/-- The book with new sides, live at an id: what every accepted message leaves behind. -/
def liveAt (book : Orderbook F) (sides : Side F × Side F) (id : UInt64) : Orderbook F :=
  { book with bids := sides.1, asks := sides.2, state := .live id }

@[simp] theorem liveAt_state (book : Orderbook F) (sides : Side F × Side F) (id : UInt64) :
    (book.liveAt sides id).state = .live id := rfl

@[simp] theorem liveAt_sides (book : Orderbook F) (sides : Side F × Side F) (id : UInt64) :
    (book.liveAt sides id).sides = sides := rfl

@[simp] theorem liveAt_liveAt (book : Orderbook F) (sides sides' : Side F × Side F) (id id' : UInt64) :
    (book.liveAt sides id).liveAt sides' id' = book.liveAt sides' id' := rfl

theorem liveAt_self {book : Orderbook F} {id : UInt64} (h : book.state = .live id) :
    book.liveAt book.sides id = book := by
  cases book
  cases h
  rfl

/-! ## `handle_snapshot` -/

/-- The test that picks the first buffered event: `U <= S+1 && u >= S+1`.  The sum is the wrapping
one of a release build. -/
def connects (s : UInt64) (e : DepthUpdate) : Bool :=
  e.firstUpdateId ≤ s + 1 && e.lastUpdateId ≥ s + 1

variable [BookNumber F]

/-- The replay loop: the first event is taken as it is, each later one must continue the one
before it, and the loop stops at the first that does not. -/
def replay (sides : Side F × Side F) (lastId : UInt64) (first : Bool) :
    List DepthUpdate → (Side F × Side F) × UInt64
  | [] => (sides, lastId)
  | event :: rest =>
      -- a gap inside the buffer: this event and all later ones are dropped
      if !first && event.prevLastUpdateId ≠ lastId then (sides, lastId)
      else replay (applyLevels sides event) event.lastUpdateId false rest

/-- Returns `true` if the book is live, together with the new book. -/
def handleSnapshot (book : Orderbook F) (snapshot : DepthSnapshot) : Bool × Orderbook F :=
  let s := snapshot.lastUpdateId
  let buffered := book.buffered
  let loaded := (loadLevels snapshot.bids, loadLevels snapshot.asks)
  match buffered.findIdx? (connects s) with
  -- no buffered event to apply: live at the snapshot itself
  | none => (true, { book with bids := loaded.1, asks := loaded.2, state := .live s })
  -- everything before the first event that connects is taken to be in the snapshot
  | some idx =>
      let ((bids, asks), lastId) := replay loaded s true (buffered.drop idx)
      (true, { book with bids := bids, asks := asks, state := .live lastId })

/-- What a snapshot does to a book: the sides and id it ends with are the loaded ones, or those of
the replay when some buffered event connects. -/
theorem handleSnapshot_eq (book : Orderbook F) (snapshot : DepthSnapshot) :
    book.handleSnapshot snapshot =
      let loaded : Side F × Side F := (loadLevels snapshot.bids, loadLevels snapshot.asks)
      let r := match book.buffered.findIdx? (connects snapshot.lastUpdateId) with
        | none => (loaded, snapshot.lastUpdateId)
        | some idx => replay loaded snapshot.lastUpdateId true (book.buffered.drop idx)
      (true, book.liveAt r.1 r.2) := by
  unfold handleSnapshot
  cases h : book.buffered.findIdx? (connects snapshot.lastUpdateId) <;> simp only [h] <;> rfl

theorem handleSnapshot_isLive (book : Orderbook F) (snapshot : DepthSnapshot) :
    (book.handleSnapshot snapshot).2.isLive = true := by
  rw [handleSnapshot_eq]
  rfl

/-! ## `handle_update` -/

/-- What the live branch does with an event. -/
inductive Sequencing where
  | apply
  | stale
  | gap
  deriving DecidableEq

/-- The sequencing test of the live branch, at a book that expects `pu = expected`. -/
def sequencing (expected : UInt64) (update : DepthUpdate) : Sequencing :=
  if update.prevLastUpdateId ≠ expected then
    -- already in the book: skipped, not a gap
    if update.lastUpdateId ≤ expected then .stale
    -- spans the expected id, as the first event after a snapshot does
    else if update.prevLastUpdateId < expected && update.lastUpdateId > expected then .apply
    else .gap
  else .apply

/-- Returns whether the update was applied, the new book and the new value of `resync_needed`.
The code never takes the `Err` side of its result type. -/
def handleUpdate (book : Orderbook F) (update : DepthUpdate) (resyncNeeded : Bool) :
    Except String Bool × Orderbook F × Bool :=
  match book.state with
  | .buffering buf =>
      (.ok false, { book with state := .buffering (buf ++ [update]) }, resyncNeeded)
  | .live expected =>
      match sequencing expected update with
      | .stale => (.ok false, book, resyncNeeded)
      -- the event that shows the gap is not buffered either
      | .gap => (.ok false, book.reset, true)
      | .apply =>
          let (bids, asks) := applyLevels book.sides update
          (.ok true,
            { book with bids := bids, asks := asks, state := .live update.lastUpdateId },
            resyncNeeded)

/-- What an update does to a buffering book. -/
theorem handleUpdate_buffering {book : Orderbook F} {buf : List DepthUpdate}
    (h : book.state = .buffering buf) (update : DepthUpdate) (resyncNeeded : Bool) :
    book.handleUpdate update resyncNeeded
      = (.ok false, { book with state := .buffering (buf ++ [update]) }, resyncNeeded) := by
  simp only [handleUpdate, h]

/-- What an update does to a live book, by the outcome of the sequencing test. -/
theorem handleUpdate_live {book : Orderbook F} {n : UInt64} (h : book.state = .live n)
    (update : DepthUpdate) (resyncNeeded : Bool) :
    book.handleUpdate update resyncNeeded =
      match sequencing n update with
      | .stale => (.ok false, book, resyncNeeded)
      | .gap => (.ok false, book.reset, true)
      | .apply =>
          (.ok true, book.liveAt (applyLevels book.sides update) update.lastUpdateId,
            resyncNeeded) := by
  simp only [handleUpdate, h]
  cases sequencing n update <;> rfl

/-- The accepted events continue the book exactly or span its id. -/
theorem sequencing_eq_apply_iff {n : UInt64} {update : DepthUpdate} :
    sequencing n update = .apply ↔
      update.prevLastUpdateId = n ∨
        (update.prevLastUpdateId < n ∧ n < update.lastUpdateId) := by
  unfold sequencing
  split
  · next hne =>
      split
      · next hle =>
          have : ¬ (update.prevLastUpdateId < n ∧ n < update.lastUpdateId) := by grind
          simp [hne, this]
      · next hlt =>
          split
          · next h =>
              simp only [Bool.and_eq_true, decide_eq_true_eq, gt_iff_lt] at h
              simp [h]
          · next h =>
              simp only [Bool.and_eq_true, decide_eq_true_eq, gt_iff_lt] at h
              simp [hne, h]
  · next heq => simp [not_not.mp heq]

/-- The skipped events end at or before the id of the book and do not continue it. -/
theorem sequencing_eq_stale_iff {n : UInt64} {update : DepthUpdate} :
    sequencing n update = .stale ↔
      update.prevLastUpdateId ≠ n ∧ update.lastUpdateId ≤ n := by
  unfold sequencing
  split
  · next hne =>
      split
      · next hle => simp [hne, hle]
      · next hlt => split <;> simp [hne, hlt]
  · next heq => simp [not_not.mp heq]

/-! ## `snapshot` -/

/-- The price of a key, `k as f64 / 1e8` in exact arithmetic. -/
def keyPrice (key : Nat) : ℚ := key / 10 ^ 8

/-- The published view: best bids first (the map read from its end), best asks first, at most
`depth_levels` a side, stamped with the wall clock. -/
def snapshot (book : Orderbook) (nowMs : UInt64) : OrderbookSnapshot where
  symbol := book.symbol
  bids := (book.bids.toList.reverse.take book.depthLevels).map fun l => (keyPrice l.1, l.2)
  asks := (book.asks.toList.take book.depthLevels).map fun l => (keyPrice l.1, l.2)
  timestampMs := nowMs

/-! ## Runs of book operations -/

/-- A call on the book. -/
inductive Op where
  | update (update : DepthUpdate)
  | snapshot (snapshot : DepthSnapshot)
  | reset

/-- The book after a call. -/
def applyOp (book : Orderbook F) : Op → Orderbook F
  | .update e => (book.handleUpdate e false).2.1
  | .snapshot s => (book.handleSnapshot s).2
  | .reset => book.reset

/-- The book after a sequence of calls. -/
def runOps (book : Orderbook F) (ops : List Op) : Orderbook F := ops.foldl applyOp book

/-- Deliver a list of events, threading the `resync_needed` flag. -/
def deliver (book : Orderbook F) (resyncNeeded : Bool) : List DepthUpdate → Orderbook F × Bool
  | [] => (book, resyncNeeded)
  | e :: es =>
      let (_, book, resyncNeeded) := book.handleUpdate e resyncNeeded
      deliver book resyncNeeded es

end Orderbook

end CryptoTrader
