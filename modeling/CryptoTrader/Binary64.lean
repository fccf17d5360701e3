/-
# CryptoTrader.Binary64 — the book of binary64 numbers.

`orderbook.rs` computes with `f64`.  What the book does with the strings of a level depends on
rounding: `1e-400` parses to zero and so deletes, `inf` parses and stores, and the key of `65536.4`
is one below `6553640000000`, because the product with `1e8` is rounded before the cast truncates
it.  `Float` has all of that: `parseFloat` rounds to the nearest number, ties to even, and
`Float.toUInt64` truncates, saturates and sends NaN to zero, as `as u64` does.

`Orderbook Float` and the book of exact rationals run the same code, so whatever is said of one of
them without mention of prices and quantities holds of the other: they sequence every message alike,
whatever its levels (`runOps_state_eq`).  Their sides hold the same keys as long as the two readings
of every level agree on its key and on the sign of its quantity (`sides_match`).
-/
import CryptoTrader.Orderbook

namespace CryptoTrader

open BookNumber

/-! ## §1 Reading -/

/-- The unsigned part of a number: the nearest binary64 number to `mantissa · 10^(e - places)`. -/
def scanFloat (cs : List Char) : Option Float :=
  (scanNumber cs).map fun (mantissa, places, e) =>
    let exponent := e - places
    Float.ofScientific mantissa (exponent < 0) exponent.natAbs

/-- The spellings of the infinities and of NaN, in any case. -/
def scanSpecial (cs : List Char) : Option Float :=
  let word := cs.map Char.toLower
  if word = "inf".toList ∨ word = "infinity".toList then some (1.0 / 0.0)
  else if word = "nan".toList then some (0.0 / 0.0)
  else none

/-- `str::parse::<f64>`; `none` is the parse error. -/
def parseFloat (s : String) : Option Float :=
  let (neg, cs) := scanSign s.toList
  ((scanFloat cs).or (scanSpecial cs)).map fun x => if neg then -x else x

instance : BookNumber Float where
  parse := parseFloat
  zero := 0.0
  toKey price := (price * 1e8).toUInt64.toNat
  IsZero q := (q == 0.0) = true
  IsPos q := q > 0.0
  decidableIsZero q := inferInstanceAs (Decidable ((q == 0.0) = true))
  decidableIsPos q := inferInstanceAs (Decidable (q > 0.0))
  toKey_zero := by decide +kernel
  isZero_zero := by decide +kernel
  not_isPos_zero := by decide +kernel

example : (parseFloat "65536.4").map toKey = some 6553639999999 := by decide +kernel
example : (parseFloat "-Inf").map toKey = some 0 := by decide +kernel
example : parseFloat "1e-400" = some 0.0 := by decide +kernel
example : parseFloat "1.2.3" = none := by decide +kernel

/-! ## §2 Two books in step -/

variable {F G : Type}

namespace Orderbook

section Runs

variable {M : Side F × Side F → Side G × Side G → Prop} {Good : DepthUpdate → Prop}
  {GoodSnapshot : DepthSnapshot → Prop}

/-- Two books, with numbers of two kinds, in the same state of synchronization and with sides that
`M` relates; every event that either still has to replay is `Good`. -/
structure InStep (M : Side F × Side F → Side G × Side G → Prop) (Good : DepthUpdate → Prop)
    (a : Orderbook F) (b : Orderbook G) : Prop where
  state : a.state = b.state
  sides : M a.sides b.sides
  waiting : ∀ e ∈ a.buffered, Good e

theorem InStep.liveAt {a : Orderbook F} {b : Orderbook G} {sides : Side F × Side F}
    {sides' : Side G × Side G} (h : M sides sides') (id : UInt64) :
    InStep M Good (a.liveAt sides id) (b.liveAt sides' id) where
  state := rfl
  sides := h
  waiting := fun _ he => absurd he List.not_mem_nil

variable [BookNumber F] [BookNumber G]

/-- What the numbers have to do for two books to stay in step: `M` relates the empty sides, and it
is kept by the levels of every `Good` event and established by those of every `GoodSnapshot`. -/
structure Agree (M : Side F × Side F → Side G × Side G → Prop) (Good : DepthUpdate → Prop)
    (GoodSnapshot : DepthSnapshot → Prop) : Prop where
  empty : M (∅, ∅) (∅, ∅)
  apply : ∀ {sides sides' e}, M sides sides' → Good e →
    M (applyLevels sides e) (applyLevels sides' e)
  load : ∀ {s : DepthSnapshot}, GoodSnapshot s →
    M (loadLevels s.bids, loadLevels s.asks) (loadLevels s.bids, loadLevels s.asks)

/-- The replay breaks at the same event, and ends at the same id. -/
theorem Agree.replay (h : Agree M Good GoodSnapshot) {events : List DepthUpdate}
    (hgood : ∀ e ∈ events, Good e) {sides : Side F × Side F} {sides' : Side G × Side G}
    (hsides : M sides sides') (id : UInt64) (first : Bool) :
    M (replay sides id first events).1 (replay sides' id first events).1 ∧
      (replay sides id first events).2 = (replay sides' id first events).2 := by
  induction events generalizing sides sides' id first with
  | nil => exact ⟨hsides, rfl⟩
  | cons e events ih =>
      unfold Orderbook.replay
      split
      · exact ⟨hsides, rfl⟩
      · have hstep := h.apply hsides (hgood e List.mem_cons_self)
        exact ih (fun e' he' => hgood e' (List.mem_cons_of_mem e he')) hstep _ _

/-- The messages that a call may bring. -/
def GoodOp (Good : DepthUpdate → Prop) (GoodSnapshot : DepthSnapshot → Prop) : Op → Prop
  | .update e => Good e
  | .snapshot s => GoodSnapshot s
  | .reset => True

/-- **An update finds both books in step and leaves them so**, with the same answer and the same
flag. -/
theorem Agree.handleUpdate (h : Agree M Good GoodSnapshot) {a : Orderbook F} {b : Orderbook G}
    (hab : InStep M Good a b) {e : DepthUpdate} (he : Good e) (flag : Bool) :
    (a.handleUpdate e flag).1 = (b.handleUpdate e flag).1 ∧
      (a.handleUpdate e flag).2.2 = (b.handleUpdate e flag).2.2 ∧
      InStep M Good (a.handleUpdate e flag).2.1 (b.handleUpdate e flag).2.1 := by
  have hstate := hab.state.symm
  cases ha : a.state with
  | buffering buf =>
      rw [ha] at hstate
      rw [handleUpdate_buffering ha, handleUpdate_buffering hstate]
      refine ⟨rfl, rfl, rfl, hab.sides, ?_⟩
      intro e' he'
      have hwait := hab.waiting
      rw [buffered, ha] at hwait
      rcases List.mem_append.mp he' with hold | hnew
      · exact hwait e' hold
      · obtain rfl := List.mem_singleton.mp hnew
        exact he
  | live n =>
      rw [ha] at hstate
      rw [handleUpdate_live ha, handleUpdate_live hstate]
      cases sequencing n e with
      | stale => exact ⟨rfl, rfl, hab⟩
      | gap => exact ⟨rfl, rfl, rfl, h.empty, fun _ he' => absurd he' List.not_mem_nil⟩
      | apply => exact ⟨rfl, rfl, InStep.liveAt (h.apply hab.sides he) _⟩

/-- **A snapshot leaves both books in step.** -/
theorem Agree.handleSnapshot (h : Agree M Good GoodSnapshot) {a : Orderbook F} {b : Orderbook G}
    (hab : InStep M Good a b) {s : DepthSnapshot} (hs : GoodSnapshot s) :
    InStep M Good (a.handleSnapshot s).2 (b.handleSnapshot s).2 := by
  have hbuf : b.buffered = a.buffered := by rw [buffered, buffered, hab.state]
  rw [handleSnapshot_eq, handleSnapshot_eq, hbuf]
  cases hidx : a.buffered.findIdx? (connects s.lastUpdateId) with
  | none => exact InStep.liveAt (h.load hs) _
  | some idx =>
      have hgood : ∀ e ∈ a.buffered.drop idx, Good e := fun e he =>
        hab.waiting e (List.mem_of_mem_drop he)
      obtain ⟨hsides, hid⟩ := h.replay hgood (h.load hs) s.lastUpdateId true
      simp only [hid]
      exact InStep.liveAt hsides _

/-- One call. -/
theorem Agree.applyOp (h : Agree M Good GoodSnapshot) {a : Orderbook F} {b : Orderbook G}
    (hab : InStep M Good a b) {op : Op} (hop : GoodOp Good GoodSnapshot op) :
    InStep M Good (a.applyOp op) (b.applyOp op) := by
  cases op with
  | update e => exact (h.handleUpdate hab hop false).2.2
  | snapshot s => exact h.handleSnapshot hab hop
  | reset => exact ⟨rfl, h.empty, fun _ he => absurd he List.not_mem_nil⟩

/-- **A whole run** from two new books. -/
theorem Agree.runOps (h : Agree M Good GoodSnapshot) (symbol : String) (depthLevels : Nat)
    {ops : List Op} (hops : ∀ op ∈ ops, GoodOp Good GoodSnapshot op) :
    InStep M Good ((new symbol depthLevels : Orderbook F).runOps ops)
      ((new symbol depthLevels : Orderbook G).runOps ops) := by
  have hnew : InStep M Good (new symbol depthLevels : Orderbook F) (new symbol depthLevels) :=
    ⟨rfl, h.empty, fun _ he => absurd he List.not_mem_nil⟩
  exact List.foldl_rel hnew fun op hop _ _ hab => h.applyOp hab (hops op hop)

/-- **Synchronization does not look at numbers**: after any calls, two books, be it of binary64 numbers
and of exact rationals, buffer the same events or are live at the same id. -/
theorem runOps_state_eq (symbol : String) (depthLevels : Nat) (ops : List Op) :
    ((new symbol depthLevels : Orderbook F).runOps ops).state
      = ((new symbol depthLevels : Orderbook G).runOps ops).state := by
  have hagree : Agree (F := F) (G := G) (fun _ _ => True) (fun _ => True) fun _ => True :=
    ⟨trivial, fun _ _ => trivial, fun _ => trivial⟩
  refine (hagree.runOps symbol depthLevels fun op _ => ?_).state
  cases op <;> trivial

end Runs

end Orderbook

/-! ## §3 Sides -/

section Sides

variable {R : F → G → Prop}

/-- Two sides hold the same keys, with quantities that `R` relates. -/
def SideMatch (R : F → G → Prop) (side : Side F) (side' : Side G) : Prop :=
  ∀ key : Nat, Option.Rel R side[key]? side'[key]?

theorem sideMatch_empty : SideMatch R ∅ ∅ := by
  intro key
  rw [Std.ExtTreeMap.getElem?_empty, Std.ExtTreeMap.getElem?_empty]
  exact .none

theorem SideMatch.erase {side : Side F} {side' : Side G} (h : SideMatch R side side')
    (key : Nat) : SideMatch R (side.erase key) (side'.erase key) := by
  intro k
  rw [Std.ExtTreeMap.getElem?_erase, Std.ExtTreeMap.getElem?_erase]
  split
  · exact .none
  · exact h k

theorem SideMatch.insert {side : Side F} {side' : Side G} (h : SideMatch R side side')
    {q : F} {q' : G} (hq : R q q') (key : Nat) :
    SideMatch R (side.insert key q) (side'.insert key q') := by
  intro k
  rw [Std.ExtTreeMap.getElem?_insert, Std.ExtTreeMap.getElem?_insert]
  split
  · exact .some hq
  · exact h k

/-- Both sides of both books match. -/
def SidesMatch (R : F → G → Prop) (sides : Side F × Side F) (sides' : Side G × Side G) : Prop :=
  SideMatch R sides.1 sides'.1 ∧ SideMatch R sides.2 sides'.2

variable [BookNumber F] [BookNumber G]

/-- The two readings of a level agree: the same key, and quantities that `R` relates and that are
zero together and positive together. -/
structure ReadAlike (R : F → G → Prop) (level : Level) : Prop where
  key : (readLevel (F := F) level).1 = (readLevel (F := G) level).1
  qty : R (readLevel (F := F) level).2 (readLevel (F := G) level).2
  isZero : IsZero (readLevel (F := F) level).2 ↔ IsZero (readLevel (F := G) level).2
  isPos : IsPos (readLevel (F := F) level).2 ↔ IsPos (readLevel (F := G) level).2

theorem SideMatch.applyLevel {side : Side F} {side' : Side G} (h : SideMatch R side side')
    {level : Level} (hlevel : ReadAlike R level) :
    SideMatch R (applyLevel side level) (applyLevel side' level) := by
  by_cases hzero : IsZero (readLevel (F := F) level).2
  · rw [applyLevel_of_isZero hzero, applyLevel_of_isZero (hlevel.isZero.mp hzero), hlevel.key]
    exact h.erase _
  · rw [applyLevel_of_not_isZero hzero,
      applyLevel_of_not_isZero fun hzero' => hzero (hlevel.isZero.mpr hzero'), hlevel.key]
    exact h.insert hlevel.qty _

theorem SideMatch.loadLevel {side : Side F} {side' : Side G} (h : SideMatch R side side')
    {level : Level} (hlevel : ReadAlike R level) :
    SideMatch R (loadLevel side level) (loadLevel side' level) := by
  by_cases hpos : IsPos (readLevel (F := F) level).2
  · rw [loadLevel_of_isPos hpos, loadLevel_of_isPos (hlevel.isPos.mp hpos), hlevel.key]
    exact h.insert hlevel.qty _
  · rw [loadLevel_of_not_isPos hpos,
      loadLevel_of_not_isPos fun hpos' => hpos (hlevel.isPos.mpr hpos')]
    exact h

/-- The levels of a message. -/
def EventAlike (R : F → G → Prop) (e : DepthUpdate) : Prop :=
  ∀ level ∈ e.bids ++ e.asks, ReadAlike R level

def SnapshotAlike (R : F → G → Prop) (s : DepthSnapshot) : Prop :=
  ∀ level ∈ s.bids ++ s.asks, ReadAlike R level

theorem agree_sidesMatch :
    Orderbook.Agree (SidesMatch R) (EventAlike R) (SnapshotAlike R) where
  empty := ⟨sideMatch_empty, sideMatch_empty⟩
  apply := by
    rintro sides sides' e ⟨hbids, hasks⟩ he
    exact ⟨List.foldl_rel hbids fun l hl _ _ h => h.applyLevel (he l (List.mem_append_left _ hl)),
      List.foldl_rel hasks fun l hl _ _ h => h.applyLevel (he l (List.mem_append_right _ hl))⟩
  load := by
    intro s hs
    exact ⟨List.foldl_rel sideMatch_empty fun l hl _ _ h =>
        h.loadLevel (hs l (List.mem_append_left _ hl)),
      List.foldl_rel sideMatch_empty fun l hl _ _ h =>
        h.loadLevel (hs l (List.mem_append_right _ hl))⟩

/-- **Where the levels read alike, the books hold alike**: after any calls with such levels, the
two books hold the same keys on both sides, with related quantities. -/
theorem Orderbook.runOps_sides_match (symbol : String) (depthLevels : Nat) {ops : List Op}
    (hops : ∀ op ∈ ops, GoodOp (EventAlike R) (SnapshotAlike R) op) :
    SidesMatch R ((new symbol depthLevels : Orderbook F).runOps ops).sides
      ((new symbol depthLevels : Orderbook G).runOps ops).sides :=
  (agree_sidesMatch.runOps symbol depthLevels hops).sides

end Sides

/-! Half a dollar reads alike, forty cents do not. -/

example : ReadAlike (F := Float) (G := ℚ) (fun _ _ => True) ("65536.5", "1.25") :=
  ⟨by decide +kernel, trivial, by decide +kernel, by decide +kernel⟩

example : ¬ ReadAlike (F := Float) (G := ℚ) (fun _ _ => True) ("65536.4", "1.25") :=
  fun h => absurd h.key (by decide +kernel)

end CryptoTrader
