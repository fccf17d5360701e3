/-
# CryptoTrader.LevelData — which level strings may reach the book.

The strings of a level come from the network and are parsed with `unwrap_or(0.0)`, so a string
that does not parse reads as zero.  What zero means depends on the path: a quantity of zero is a
delete in a diff and a skipped level in a snapshot, a price of zero is the key 0.  Snapshot loading
stores positive quantities only; a diff stores whatever is not zero.  So a diff can store a
negative quantity or NaN, and both paths can store a level at key 0, where it is the best ask.

`DiffOk` and `LoadOk` are, level by level and against the side the level finds, exactly the
conditions under which nothing bad is stored and an unparsable level changes nothing.  A run all of
whose levels meet them keeps both sides clean in every reachable state.  The conditions speak of
what a level reads as, so the lemmas hold for numbers of any kind; the result is stated for the
binary64 numbers of the code, where `1e-400` reads as zero, `inf` as a positive quantity and the key
of a price is that of its rounded product.
-/
import CryptoTrader.Binary64
import CryptoTrader.BufferedReplay
import CryptoTrader.Lib.Deferred

namespace CryptoTrader.LevelData

open Lib.Deferred Orderbook SnapshotTiming BufferedReplay BookNumber

variable {F : Type}

/-! ## §1 Levels -/

/-- Erasing a key changes nothing exactly when the key is not stored. -/
theorem erase_eq_self_iff {side : Side F} {key : Nat} :
    side.erase key = side ↔ side[key]? = none := by
  constructor
  · intro h
    rw [← h, Std.ExtTreeMap.getElem?_erase_self]
  · intro h
    apply Std.ExtTreeMap.ext_getElem?
    intro k
    rw [Std.ExtTreeMap.getElem?_erase]
    split
    · next heq =>
        rw [Std.compare_eq_iff_eq] at heq
        rw [← heq, h]
    · rfl

variable [BookNumber F]

/-- Every stored level has a positive key and a positive quantity. -/
def Clean (side : Side F) : Prop :=
  ∀ (key : Nat) (qty : F), side[key]? = some qty → 0 < key ∧ IsPos qty

/-- One of the two strings of the level does not parse. -/
def Unparsable (F : Type) [BookNumber F] (level : Level) : Prop :=
  (parse level.1 : Option F) = none ∨ (parse level.2 : Option F) = none

/-- A level of a diff that does no harm to the side it finds. -/
structure DiffOk (side : Side F) (level : Level) : Prop where
  /-- it deletes, or what it stores has a positive key and quantity -/
  stored : IsZero (readLevel (F := F) level).2 ∨
    0 < (readLevel (F := F) level).1 ∧ IsPos (readLevel (F := F) level).2
  /-- it does not delete anything by a string that does not parse -/
  absent : Unparsable F level → IsZero (readLevel (F := F) level).2 →
    side[(readLevel (F := F) level).1]? = none

/-- A level of a snapshot that does no harm: if it is stored at all, its key is positive. -/
def LoadOk (_ : Side F) (level : Level) : Prop :=
  IsPos (readLevel (F := F) level).2 → 0 < (readLevel (F := F) level).1

/-- A level that does not parse leaves the side as it is. -/
def Unchanged (apply : Side F → Level → Side F) (side : Side F) (level : Level) : Prop :=
  Unparsable F level → apply side level = side

theorem clean_empty : Clean (∅ : Side F) := by
  intro key qty h
  rw [Std.ExtTreeMap.getElem?_empty] at h
  cases h

theorem Clean.erase {side : Side F} (h : Clean side) (key : Nat) : Clean (side.erase key) := by
  intro k q hq
  rw [Std.ExtTreeMap.getElem?_erase] at hq
  split at hq
  · cases hq
  · exact h k q hq

theorem Clean.insert {side : Side F} (h : Clean side) {key : Nat} {qty : F} (hkey : 0 < key)
    (hqty : IsPos qty) : Clean (side.insert key qty) := by
  intro k q hq
  rw [Std.ExtTreeMap.getElem?_insert] at hq
  split at hq
  · next heq =>
      rw [Std.compare_eq_iff_eq] at heq
      rw [Option.some.injEq] at hq
      subst heq hq
      exact ⟨hkey, hqty⟩
  · exact h k q hq

/-- An unparsable level whose quantity is not zero is read at key 0: it is the price that does not
parse. -/
theorem readLevel_of_unparsable {level : Level} (h : Unparsable F level)
    (hqty : ¬ IsZero (readLevel (F := F) level).2) : (readLevel (F := F) level).1 = 0 := by
  unfold readLevel at hqty ⊢
  rcases h with hprice | hq
  · rw [hprice]
    exact toKey_zero
  · rw [hq] at hqty
    exact absurd isZero_zero hqty

/-- So is one whose quantity is positive. -/
theorem readLevel_of_unparsable_pos {level : Level} (h : Unparsable F level)
    (hqty : IsPos (readLevel (F := F) level).2) : (readLevel (F := F) level).1 = 0 := by
  unfold readLevel at hqty ⊢
  rcases h with hprice | hq
  · rw [hprice]
    exact toKey_zero
  · rw [hq] at hqty
    exact absurd hqty not_isPos_zero

/-- **Diff levels, one at a time.**  On a clean side, a level keeps the side clean and, if it does
not parse, unchanged, exactly when it is `DiffOk`. -/
theorem diffOk_iff {side : Side F} (hside : Clean side) {level : Level} :
    DiffOk side level ↔ Unchanged applyLevel side level ∧ Clean (applyLevel side level) := by
  unfold Unchanged
  by_cases hzero : IsZero (readLevel (F := F) level).2
  · rw [applyLevel_of_isZero hzero, erase_eq_self_iff]
    constructor
    · intro h
      exact ⟨fun hbad => h.absent hbad hzero, hside.erase _⟩
    · rintro ⟨habsent, _⟩
      exact ⟨Or.inl hzero, fun hbad _ => habsent hbad⟩
  · rw [applyLevel_of_not_isZero hzero]
    constructor
    · intro h
      obtain ⟨hkey, hqty⟩ := h.stored.resolve_left hzero
      refine ⟨fun hbad => ?_, hside.insert hkey hqty⟩
      have hkey0 := readLevel_of_unparsable hbad hzero
      omega
    · rintro ⟨_, hclean⟩
      have hpos := hclean _ _ Std.ExtTreeMap.getElem?_insert_self
      exact ⟨Or.inr hpos, fun _ h => absurd h hzero⟩

/-- **Snapshot levels, one at a time.** -/
theorem loadOk_iff {side : Side F} (hside : Clean side) {level : Level} :
    LoadOk side level ↔ Unchanged loadLevel side level ∧ Clean (loadLevel side level) := by
  unfold Unchanged
  by_cases hpos : IsPos (readLevel (F := F) level).2
  · rw [loadLevel_of_isPos hpos]
    constructor
    · intro h
      have hkey := h hpos
      refine ⟨fun hbad => ?_, hside.insert hkey hpos⟩
      have hkey0 := readLevel_of_unparsable_pos hbad hpos
      omega
    · rintro ⟨_, hclean⟩
      exact fun _ => (hclean _ _ Std.ExtTreeMap.getElem?_insert_self).1
  · rw [loadLevel_of_not_isPos hpos]
    constructor
    · intro _
      exact ⟨fun _ => rfl, hside⟩
    · intro _ h
      exact absurd h hpos

/-! ## §2 Messages -/

/-- Every level of a diff meets `diff` when its turn comes, on either side. -/
def EventLevels (diff : Side F → Level → Prop) (sides : Side F × Side F) (e : DepthUpdate) : Prop :=
  Along applyLevel diff sides.1 e.bids ∧ Along applyLevel diff sides.2 e.asks

/-- Every level that a call makes the book apply meets `load` or `diff` when its turn comes: those
of an update that a live book applies, those of a snapshot, and those of the buffered events the
snapshot replays. -/
def AtLevels (load diff : Side F → Level → Prop) (book : Orderbook F) : Op → Prop
  | .update e => ∀ n, book.state = .live n → sequencing n e = .apply →
      EventLevels diff book.sides e
  | .snapshot s => (Along loadLevel load ∅ s.bids ∧ Along loadLevel load ∅ s.asks) ∧
      Along applyLevels (EventLevels diff) (loadLevels s.bids, loadLevels s.asks)
        (replayEvents s.lastUpdateId book.buffered)
  | .reset => True

/-- Both sides are clean. -/
def CleanSides (sides : Side F × Side F) : Prop := Clean sides.1 ∧ Clean sides.2

theorem along_diffOk {side : Side F} {levels : List Level} (hside : Clean side)
    (h : Along applyLevel DiffOk side levels) :
    Along applyLevel (Unchanged applyLevel) side levels ∧ Clean (levels.foldl applyLevel side) :=
  Along.carry (P := Clean) (fun _ _ hclean hok => (diffOk_iff hclean).mp hok) hside h

theorem along_loadOk {levels : List Level}
    (h : Along loadLevel LoadOk (∅ : Side F) levels) :
    Along loadLevel (Unchanged loadLevel) (∅ : Side F) levels ∧
      Clean (loadLevels levels : Side F) :=
  Along.carry (P := Clean) (fun _ _ hclean hok => (loadOk_iff hclean).mp hok)
    clean_empty h

theorem eventLevels_diffOk {sides : Side F × Side F} {e : DepthUpdate} (hsides : CleanSides sides)
    (h : EventLevels DiffOk sides e) :
    EventLevels (Unchanged applyLevel) sides e ∧ CleanSides (applyLevels sides e) := by
  obtain ⟨hbids, hcleanBids⟩ := along_diffOk hsides.1 h.1
  obtain ⟨hasks, hcleanAsks⟩ := along_diffOk hsides.2 h.2
  exact ⟨⟨hbids, hasks⟩, hcleanBids, hcleanAsks⟩

/-- **One call** whose levels do no harm keeps both sides clean. -/
theorem applyOp_clean {book : Orderbook F} {op : Op} (hbook : CleanSides book.sides)
    (h : AtLevels LoadOk DiffOk book op) :
    AtLevels (Unchanged loadLevel) (Unchanged applyLevel) book op ∧
      CleanSides (book.applyOp op).sides := by
  cases op with
  | update e =>
      refine ⟨fun n hn hseq => (eventLevels_diffOk hbook (h n hn hseq)).1, ?_⟩
      show CleanSides (book.handleUpdate e false).2.1.sides
      cases hst : book.state with
      | buffering buf =>
          rw [handleUpdate_buffering hst]
          exact hbook
      | live n =>
          rw [handleUpdate_live hst]
          cases hseq : sequencing n e with
          | stale => exact hbook
          | gap => exact ⟨clean_empty, clean_empty⟩
          | apply => exact (eventLevels_diffOk hbook (h n hst hseq)).2
  | snapshot s =>
      obtain ⟨⟨hbids, hasks⟩, hreplay⟩ := h
      obtain ⟨hbids', hcleanBids⟩ := along_loadOk hbids
      obtain ⟨hasks', hcleanAsks⟩ := along_loadOk hasks
      have hloaded : CleanSides (F := F) (loadLevels s.bids, loadLevels s.asks) :=
        ⟨hcleanBids, hcleanAsks⟩
      obtain ⟨hreplay', hcleanReplay⟩ := Along.carry (P := CleanSides (F := F))
        (fun _ _ hclean hok => eventLevels_diffOk hclean hok) hloaded hreplay
      refine ⟨⟨⟨hbids', hasks'⟩, hreplay'⟩, ?_⟩
      show CleanSides (book.handleSnapshot s).2.sides
      rw [handleSnapshot_replayed, replayed_eq_applyAll]
      exact hcleanReplay
  | reset => exact ⟨trivial, clean_empty, clean_empty⟩

/-! ## §3 Runs -/

/-- **Bad level data never enters the book**, in every run whose levels do no harm when their turn
comes: every reachable state holds positive keys and quantities only, and every level that does not
parse leaves its side unchanged. -/
theorem level_data_kept_out (symbol : String) (depthLevels : Nat) (ops : List Op)
    (hok : Along applyOp (AtLevels LoadOk DiffOk)
      (new symbol depthLevels : Orderbook Float) ops) :
    (∀ done rest, ops = done ++ rest →
      Clean ((new symbol depthLevels : Orderbook Float).runOps done).bids ∧
      Clean ((new symbol depthLevels : Orderbook Float).runOps done).asks) ∧
    Along applyOp (AtLevels (Unchanged loadLevel) (Unchanged applyLevel))
      (new symbol depthLevels : Orderbook Float) ops := by
  have hnew : CleanSides (new symbol depthLevels : Orderbook Float).sides :=
    ⟨clean_empty, clean_empty⟩
  have hrun : ∀ {run : List Op},
      Along applyOp (AtLevels LoadOk DiffOk) (new symbol depthLevels : Orderbook Float) run → _ :=
    fun {_} hrun => Along.carry (P := fun book : Orderbook Float => CleanSides book.sides)
      (fun _ _ hclean h => applyOp_clean hclean h) hnew hrun
  refine ⟨?_, (hrun hok).1⟩
  rintro done rest rfl
  exact (hrun (along_append.mp hok).1).2

/-- An update from 5 to 6 with these asks. -/
def askUpdate (asks : List Level) : DepthUpdate where
  eventType := "depthUpdate"
  eventTime := 0
  symbol := "BTCUSDT"
  firstUpdateId := 6
  lastUpdateId := 6
  prevLastUpdateId := 5
  bids := []
  asks := asks

/-- A valid ask, and then two levels that do not parse beside one that does: both delete what is not
there. -/
def harmlessOps : List Op :=
  [.snapshot ⟨5, [], [("65536.4", "1.5")]⟩,
    .update (askUpdate [("abc", "0.0"), ("65536.4", "2"), ("65537.0", "xyz")])]

theorem unparsable_delete_kept_out :
    (∀ done rest, harmlessOps = done ++ rest →
      Clean ((new "BTCUSDT" 20 : Orderbook Float).runOps done).bids ∧
      Clean ((new "BTCUSDT" 20 : Orderbook Float).runOps done).asks) ∧
    Along applyOp (AtLevels (Unchanged loadLevel) (Unchanged applyLevel))
      (new "BTCUSDT" 20 : Orderbook Float) harmlessOps := by
  refine level_data_kept_out "BTCUSDT" 20 harmlessOps
    ⟨⟨⟨trivial, ?_, trivial⟩, trivial⟩, fun _ _ _ => ⟨trivial, ⟨?_, ?_⟩, ⟨?_, ?_⟩, ⟨?_, ?_⟩, trivial⟩,
      trivial⟩
  · exact fun _ => by decide +kernel
  · decide +kernel
  · exact fun _ _ => by decide +kernel
  · decide +kernel
  · exact fun _ hzero => absurd hzero (by decide +kernel)
  · decide +kernel
  · exact fun _ _ => by decide +kernel

/-- A book synchronized at 5 that has applied the update. -/
def bookWithAsk (price qty : String) : Orderbook Float :=
  (new "BTCUSDT" 20).runOps [.snapshot (emptyAt 5), .update (askUpdate [(price, qty)])]

/-- **Bad level data does enter the book.**  A price that does not parse becomes the best ask, at
key 0; and a negative quantity is stored, though a snapshot that lists it is not loaded. -/
theorem bad_level_enters_book :
    (Unparsable Float ("abc", "1.0") ∧ ¬ Clean (bookWithAsk "abc" "1.0").asks ∧
      (bookWithAsk "abc" "1.0").asks.toList = [(0, 1.0)]) ∧
    ¬ Clean (bookWithAsk "3.0" "-1.0").asks ∧ loadLevels [("3.0", "-1.0")] = (∅ : Side Float) := by
  refine ⟨⟨?_, ?_, by decide +kernel⟩, ?_, ?_⟩
  · exact Or.inl (by decide +kernel)
  · intro hclean
    have hkey := (hclean 0 1.0 (by decide +kernel)).1
    omega
  · intro hclean
    have hqty := (hclean (3 * 10 ^ 8) (-1.0) (by decide +kernel)).2
    exact absurd hqty (by decide +kernel)
  · have hnot : ¬ IsPos (readLevel (F := Float) ("3.0", "-1.0")).2 := by decide +kernel
    exact loadLevel_of_not_isPos hnot

end CryptoTrader.LevelData
