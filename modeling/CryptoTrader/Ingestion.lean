/-
# CryptoTrader.Ingestion — the message loop of the WebSocket, and the frame that stops it.

The dispatch of `run_ingestion_with_rest` on what `read.next()` yields.  A text frame is tried as a
`DepthUpdate` and then as a `Trade`; one that is neither is logged, cut to its first 120 bytes.  The
two `serde_json::from_str` are parameters.  `&raw[..n]` is `sliceTo`: Rust refuses a cut inside a
character with a panic, and the `min` of the code guards the length of the frame only.

So a frame is handled as it should be unless it is longer than 120 bytes, neither an update nor a
trade, and a character lies across byte 120 (`text_frame_handled_iff`).  The log line is of level
`info`, which is on by default.
-/
import CryptoTrader.Types

namespace CryptoTrader.Ingestion

/-! ## §1 Slices of a string -/

/-- `&s[..n]`; `none` is the panic of a cut that is not between two characters. -/
def sliceTo (s : String) (n : Nat) : Option String :=
  if h : (⟨n⟩ : String.Pos.Raw).IsValid s then some (s.sliceTo ⟨⟨n⟩, h⟩).copy else none

/-- A slice is the first `n` bytes of the string. -/
theorem sliceTo_eq_some_iff {s front : String} {n : Nat} :
    sliceTo s n = some front ↔ front.utf8ByteSize = n ∧ ∃ back, s = front ++ back := by
  unfold sliceTo
  constructor
  · intro h
    split at h
    · next hvalid =>
        obtain rfl := Option.some.inj h
        have hsplits := String.Pos.splits (⟨⟨n⟩, hvalid⟩ : s.Pos)
        have hoffset := congrArg String.Pos.Raw.byteIdx hsplits.offset_eq_rawEndPos
        exact ⟨hoffset.symm, _, hsplits.eq_append⟩
    · cases h
  · rintro ⟨rfl, back, rfl⟩
    have hvalid : (⟨front.utf8ByteSize⟩ : String.Pos.Raw).IsValid (front ++ back) :=
      String.Pos.Raw.isValid_iff_exists_append.mpr ⟨front, back, rfl, rfl⟩
    rw [dif_pos hvalid]
    have hsplits := String.Pos.splits (⟨⟨front.utf8ByteSize⟩, hvalid⟩ : (front ++ back).Pos)
    have hfront : (⟨⟨front.utf8ByteSize⟩, hvalid⟩ : (front ++ back).Pos).Splits front back :=
      ⟨rfl, rfl⟩
    exact congrArg some (hsplits.eq_left hfront)

theorem sliceTo_isSome_iff {s : String} {n : Nat} :
    (∃ front, sliceTo s n = some front) ↔ (⟨n⟩ : String.Pos.Raw).IsValid s := by
  unfold sliceTo
  split
  · next hvalid => exact iff_of_true ⟨_, rfl⟩ hvalid
  · next hcut => exact iff_of_false (fun ⟨_, h⟩ => by cases h) hcut

/-- The whole string is a slice of itself. -/
theorem sliceTo_utf8ByteSize (s : String) : sliceTo s s.utf8ByteSize = some s :=
  sliceTo_eq_some_iff.mpr ⟨rfl, "", String.append_empty.symm⟩

theorem utf8ByteSize_ofList_ascii {cs : List Char} (h : ∀ c ∈ cs, c.utf8Size = 1) :
    (String.ofList cs).utf8ByteSize = cs.length := by
  induction cs with
  | nil => rfl
  | cons c cs ih =>
      obtain ⟨hc, hcs⟩ := List.forall_mem_cons.mp h
      rw [String.ofList_cons, String.utf8ByteSize_append, String.utf8ByteSize_singleton, hc, ih hcs,
        List.length_cons, Nat.add_comm]

/-- A string of one-byte characters can be cut anywhere. -/
theorem isValid_of_ascii {s : String} (h : ∀ c ∈ s.toList, c.utf8Size = 1) {n : Nat}
    (hn : n ≤ s.utf8ByteSize) : (⟨n⟩ : String.Pos.Raw).IsValid s := by
  have hlength : s.utf8ByteSize = s.toList.length := by
    rw [← utf8ByteSize_ofList_ascii h, String.ofList_toList]
  rw [String.Pos.Raw.isValid_iff_exists_take_toList]
  refine ⟨n, ?_⟩
  rw [utf8ByteSize_ofList_ascii fun c hc => h c (List.mem_of_mem_take hc), List.length_take]
  exact (Nat.min_eq_left (hlength ▸ hn)).symm

/-! ## §2 The loop -/

inductive LogLevel where
  | debug
  | info
  | warn
  | error
  deriving DecidableEq

/-- What the loop does to the rest of the program. -/
inductive Effect where
  | log (level : LogLevel) (text : String)
  | touch
  | send (event : MarketEvent)
  | pong (data : List UInt8)
  deriving DecidableEq

/-- `serde_json::from_str` at the two types of message. -/
structure Parsers where
  update : String → Option DepthUpdate
  trade : String → Option Trade

/-- The log line of a frame that is no message. -/
def logUnrecognized (raw : String) : Option (List Effect) :=
  (sliceTo raw (min raw.utf8ByteSize 120)).map fun shown =>
    [.log .info ("Unrecognized WS message: " ++ shown)]

/-- One attempt at a frame: parse it, look at the type, forward it; or go on with the rest. -/
def attempt {α : Type} (parse : String → Option α) (eventType : α → String) (name : String)
    (wrap : α → MarketEvent) (raw : String) (rest : Option (List Effect)) : Option (List Effect) :=
  match parse raw with
  | some message =>
      if eventType message = name then some [.touch, .send (wrap message)] else rest
  | none => rest

/-- The frame is tried as an update first, which most of them are. -/
def dispatch (parsers : Parsers) (raw : String) : Option (List Effect) :=
  attempt parsers.update DepthUpdate.eventType "depthUpdate" .depthUpdate raw <|
    attempt parsers.trade Trade.eventType "aggTrade" .trade raw <|
      logUnrecognized raw

/-- What the loop does with a text frame; `none` is a panic. -/
def onText (parsers : Parsers) (raw : String) : Option (List Effect) :=
  (dispatch parsers raw).map fun effects => .log .debug ("RAW: " ++ raw) :: effects

/-- What the `select!` of the loop completes with. -/
inductive Incoming where
  | cancelled
  | text (raw : String)
  | ping (data : List UInt8)
  | close
  | error (e : String)
  | ended
  | other

/-- One pass of the loop, and whether it goes on. -/
def onIncoming (parsers : Parsers) : Incoming → Option (List Effect × Bool)
  | .cancelled => some ([.log .info "Ingestion cancelled, closing WebSocket"], false)
  | .text raw => (onText parsers raw).map fun effects => (effects, true)
  | .ping data => some ([.pong data], true)
  | .close => some ([.log .warn "WebSocket closed by server"], false)
  | .error e => some ([.log .error ("WebSocket error: " ++ e)], false)
  | .ended => some ([], false)
  | .other => some ([], true)

def readLoop (parsers : Parsers) : List Incoming → Option (List Effect)
  | [] => some []
  | i :: is =>
      match onIncoming parsers i with
      | some (effects, true) => (readLoop parsers is).map (effects ++ ·)
      | some (effects, false) => some effects
      | none => none

/-! ## §3 One frame -/

/-- A parsed message of the type it should have, as an event. -/
def typed {α : Type} (parse : String → Option α) (eventType : α → String) (name : String)
    (wrap : α → MarketEvent) (raw : String) : Option MarketEvent :=
  (parse raw).bind fun message => if eventType message = name then some (wrap message) else none

def updateOf (parsers : Parsers) : String → Option MarketEvent :=
  typed parsers.update DepthUpdate.eventType "depthUpdate" .depthUpdate

def tradeOf (parsers : Parsers) : String → Option MarketEvent :=
  typed parsers.trade Trade.eventType "aggTrade" .trade

/-- The event a frame stands for: an update, or else a trade. -/
def eventOf (parsers : Parsers) (raw : String) : Option MarketEvent :=
  (updateOf parsers raw).or (tradeOf parsers raw)

/-- The watchdog and the event if there is one, and otherwise the rest of the dispatch. -/
def forwardOr (rest : Option (List Effect)) : Option MarketEvent → Option (List Effect)
  | some event => some [.touch, .send event]
  | none => rest

section

variable {α : Type} {parse : String → Option α} {eventType : α → String} {name : String}
  {wrap : α → MarketEvent} {raw : String}

theorem typed_eq_some_iff {event : MarketEvent} :
    typed parse eventType name wrap raw = some event ↔
      ∃ message, event = wrap message ∧ parse raw = some message ∧ eventType message = name := by
  unfold typed
  rw [Option.bind_eq_some_iff]
  constructor
  · rintro ⟨message, hparsed, h⟩
    obtain ⟨htype, rfl⟩ := Option.ite_some_none_eq_some.mp h
    exact ⟨message, rfl, hparsed, htype⟩
  · rintro ⟨message, rfl, hparsed, htype⟩
    exact ⟨message, hparsed, if_pos htype⟩

theorem attempt_eq (rest : Option (List Effect)) :
    attempt parse eventType name wrap raw rest
      = forwardOr rest (typed parse eventType name wrap raw) := by
  unfold attempt typed
  cases parse raw with
  | none => rfl
  | some message =>
      rw [Option.bind_some]
      dsimp only
      split <;> rfl

end

/-- **The dispatch**: the watchdog and the event, or the log line. -/
theorem dispatch_eq (parsers : Parsers) (raw : String) :
    dispatch parsers raw = forwardOr (logUnrecognized raw) (eventOf parsers raw) := by
  rw [dispatch, attempt_eq, attempt_eq, eventOf, updateOf, tradeOf]
  cases typed parsers.update DepthUpdate.eventType "depthUpdate" .depthUpdate raw <;> rfl

/-- What a completed frame has done. -/
theorem onText_cases {parsers : Parsers} {raw : String} {effects : List Effect}
    (h : onText parsers raw = some effects) :
    (∃ event, eventOf parsers raw = some event ∧
      effects = [.log .debug ("RAW: " ++ raw), .touch, .send event]) ∨
    (eventOf parsers raw = none ∧ ∃ shown,
      effects =
        [.log .debug ("RAW: " ++ raw), .log .info ("Unrecognized WS message: " ++ shown)]) := by
  obtain ⟨dispatched, hdispatch, rfl⟩ := Option.map_eq_some_iff.mp h
  rw [dispatch_eq] at hdispatch
  cases hevent : eventOf parsers raw with
  | some event =>
      rw [hevent] at hdispatch
      obtain rfl := Option.some.inj hdispatch
      exact Or.inl ⟨event, rfl, rfl⟩
  | none =>
      rw [hevent] at hdispatch
      obtain ⟨shown, _, rfl⟩ := Option.map_eq_some_iff.mp hdispatch
      exact Or.inr ⟨rfl, shown, rfl⟩

/-- The events of a list of effects. -/
def sent (effects : List Effect) : List MarketEvent :=
  effects.filterMap fun
    | .send event => some event
    | _ => none

/-- The event is the parsed update or the parsed trade, of the right type. -/
def ParsedFrom (parsers : Parsers) (raw : String) : MarketEvent → Prop
  | .depthUpdate update => parsers.update raw = some update ∧ update.eventType = "depthUpdate"
  | .trade trade => parsers.trade raw = some trade ∧ trade.eventType = "aggTrade"
  | .depthSnapshot _ => False
  | .reconnect => False

/-- The event of a frame has been parsed from it. -/
theorem parsedFrom_eventOf {parsers : Parsers} {raw : String} {event : MarketEvent}
    (h : eventOf parsers raw = some event) : ParsedFrom parsers raw event := by
  rcases Option.or_eq_some_iff.mp h with hupdate | ⟨_, htrade⟩
  · obtain ⟨update, rfl, hparsed⟩ := typed_eq_some_iff.mp hupdate
    exact hparsed
  · obtain ⟨trade, rfl, hparsed⟩ := typed_eq_some_iff.mp htrade
    exact hparsed

/-- A frame has an event if one can be parsed from it. -/
theorem eventOf_isSome_iff {parsers : Parsers} {raw : String} :
    (∃ event, eventOf parsers raw = some event) ↔ ∃ event, ParsedFrom parsers raw event := by
  constructor
  · rintro ⟨event, h⟩
    exact ⟨event, parsedFrom_eventOf h⟩
  · rintro ⟨event, h⟩
    cases event with
    | depthUpdate update =>
        have hupdate : updateOf parsers raw = some (.depthUpdate update) :=
          typed_eq_some_iff.mpr ⟨update, rfl, h⟩
        exact ⟨.depthUpdate update, Option.or_eq_some_iff.mpr (Or.inl hupdate)⟩
    | trade trade =>
        have htrade : tradeOf parsers raw = some (.trade trade) :=
          typed_eq_some_iff.mpr ⟨trade, rfl, h⟩
        cases hupdate : updateOf parsers raw with
        | some event => exact ⟨event, Option.or_eq_some_iff.mpr (Or.inl hupdate)⟩
        | none => exact ⟨.trade trade, Option.or_eq_some_iff.mpr (Or.inr ⟨hupdate, htrade⟩)⟩
    | depthSnapshot snapshot => exact h.elim
    | reconnect => exact h.elim

/-- What a frame may do. -/
structure Handled (parsers : Parsers) (raw : String) (effects : List Effect) : Prop where
  one_event : (sent effects).length ≤ 1
  parsed : ∀ event ∈ sent effects, ParsedFrom parsers raw event
  touched : effects.count .touch = (sent effects).length
  logged : sent effects = [] → ∀ effect ∈ effects, ∃ level text, effect = .log level text

/-- Whatever the loop completes a frame with is as it should be. -/
theorem handled_of_onText {parsers : Parsers} {raw : String} {effects : List Effect}
    (h : onText parsers raw = some effects) : Handled parsers raw effects := by
  rcases onText_cases h with ⟨event, hevent, rfl⟩ | ⟨_, shown, rfl⟩
  · refine ⟨le_refl 1, ?_, rfl, fun hnone => by cases hnone⟩
    intro event' hmem
    rw [List.mem_singleton.mp hmem]
    exact parsedFrom_eventOf hevent
  · refine ⟨Nat.zero_le 1, fun event hmem => absurd hmem List.not_mem_nil, rfl, ?_⟩
    intro _ effect hmem
    rcases List.mem_cons.mp hmem with rfl | hmem
    · exact ⟨_, _, rfl⟩
    · rw [List.mem_singleton.mp hmem]
      exact ⟨_, _, rfl⟩

/-- The frame is a message, or its log line can be cut.  The line is cut when it is written, so this
presumes that the info level is enabled, which it is unless `RUST_LOG` says otherwise. -/
def Loggable (parsers : Parsers) (raw : String) : Prop :=
  (∃ event, ParsedFrom parsers raw event) ∨ raw.utf8ByteSize ≤ 120 ∨
    (⟨120⟩ : String.Pos.Raw).IsValid raw

/-- The cut of the log line. -/
theorem logUnrecognized_isSome_iff {raw : String} :
    (∃ effects, logUnrecognized raw = some effects) ↔
      raw.utf8ByteSize ≤ 120 ∨ (⟨120⟩ : String.Pos.Raw).IsValid raw := by
  have hmap : (∃ effects, logUnrecognized raw = some effects) ↔
      ∃ shown, sliceTo raw (min raw.utf8ByteSize 120) = some shown := by
    unfold logUnrecognized
    cases sliceTo raw (min raw.utf8ByteSize 120) <;> simp
  rw [hmap]
  rcases le_or_gt raw.utf8ByteSize 120 with hshort | hlong
  · rw [Nat.min_eq_left hshort]
    exact iff_of_true ⟨raw, sliceTo_utf8ByteSize raw⟩ (Or.inl hshort)
  · rw [Nat.min_eq_right hlong.le, sliceTo_isSome_iff]
    exact (or_iff_right (not_le.mpr hlong)).symm

/-- **A frame completes** when it is a message or its log line can be cut. -/
theorem onText_completes_iff {parsers : Parsers} {raw : String} :
    (∃ effects, onText parsers raw = some effects) ↔ Loggable parsers raw := by
  have hdispatch : (∃ effects, onText parsers raw = some effects) ↔
      ∃ dispatched, dispatch parsers raw = some dispatched := by
    unfold onText
    cases dispatch parsers raw <;> simp
  rw [hdispatch, dispatch_eq, Loggable, ← eventOf_isSome_iff, ← logUnrecognized_isSome_iff]
  cases eventOf parsers raw with
  | some event => exact iff_of_true ⟨_, rfl⟩ (Or.inl ⟨event, rfl⟩)
  | none => exact (or_iff_right fun ⟨_, h⟩ => by cases h).symm

/-- A frame of one-byte characters always completes. -/
theorem onText_completes_of_ascii (parsers : Parsers) {raw : String}
    (h : ∀ c ∈ raw.toList, c.utf8Size = 1) : ∃ effects, onText parsers raw = some effects := by
  rw [onText_completes_iff]
  rcases le_or_gt raw.utf8ByteSize 120 with hshort | hlong
  · exact Or.inr (Or.inl hshort)
  · exact Or.inr (Or.inr (isValid_of_ascii h hlong.le))

/-- **When a text frame is handled.**  For every frame and any two parsers: the dispatch completes
and does what it should exactly when the frame is a message, has at most 120 bytes, or can be cut at
byte 120. -/
theorem text_frame_handled_iff (parsers : Parsers) (raw : String) :
    (∃ effects, onText parsers raw = some effects ∧ Handled parsers raw effects) ↔
      Loggable parsers raw := by
  rw [← onText_completes_iff]
  exact exists_congr fun effects => and_iff_left_of_imp handled_of_onText

/-! A frame that no parser takes: 119 letters, and one of two bytes across the cut. -/

def acrossTheCut : String := String.ofList (List.replicate 119 'x' ++ ['é'])

def neitherParses : Parsers where
  update _ := none
  trade _ := none

/-- **The loop panics on it.** -/
theorem acrossTheCut_panics :
    onText neitherParses acrossTheCut = none ∧
      ¬ ∃ effects, onText neitherParses acrossTheCut = some effects ∧
        Handled neitherParses acrossTheCut effects := by
  have hnot : ¬ Loggable neitherParses acrossTheCut := by
    rintro (⟨event, hparsed⟩ | hshort | hcut)
    · cases event with
      | depthUpdate update => cases hparsed.1
      | trade trade => cases hparsed.1
      | depthSnapshot snapshot => exact hparsed
      | reconnect => exact hparsed
    · exact absurd hshort (by decide +kernel)
    · exact absurd hcut (by decide +kernel)
  rw [← onText_completes_iff] at hnot
  have hpanic : onText neitherParses acrossTheCut = none :=
    Option.eq_none_iff_forall_ne_some.mpr fun effects h => hnot ⟨effects, h⟩
  exact ⟨hpanic, fun ⟨effects, h, _⟩ => hnot ⟨effects, h⟩⟩

/-! ## §4 The whole loop -/

/-- The text frames the loop gets to see before it stops. -/
def seen : List Incoming → List String
  | [] => []
  | .text raw :: is => raw :: seen is
  | .ping _ :: is => seen is
  | .other :: is => seen is
  | .cancelled :: _ => []
  | .close :: _ => []
  | .error _ :: _ => []
  | .ended :: _ => []

theorem sent_append (xs ys : List Effect) : sent (xs ++ ys) = sent xs ++ sent ys :=
  List.filterMap_append

/-- What a completed frame sends. -/
theorem sent_onText {parsers : Parsers} {raw : String} {effects : List Effect}
    (h : onText parsers raw = some effects) : sent effects = (eventOf parsers raw).toList := by
  rcases onText_cases h with ⟨event, hevent, rfl⟩ | ⟨hnone, shown, rfl⟩
  · rw [hevent]
    rfl
  · rw [hnone]
    rfl

/-- **The loop over a connection.**  It ends without a panic exactly when every frame it sees is a
message or can be cut; and then it has sent the events of these frames, in order and once each. -/
theorem readLoop_iff (parsers : Parsers) (incoming : List Incoming) :
    ((∃ effects, readLoop parsers incoming = some effects) ↔
      ∀ raw ∈ seen incoming, Loggable parsers raw) ∧
    ∀ effects, readLoop parsers incoming = some effects →
      sent effects = (seen incoming).filterMap (eventOf parsers) := by
  induction incoming with
  | nil =>
      refine ⟨iff_of_true ⟨[], rfl⟩ fun raw hmem => absurd hmem List.not_mem_nil, ?_⟩
      rintro effects ⟨⟩
      rfl
  | cons i is ih =>
      obtain ⟨hcompletes, hsent⟩ := ih
      have hgoesOn : ∀ {before}, onIncoming parsers i = some (before, true) →
          ((∃ effects, readLoop parsers (i :: is) = some effects) ↔
            ∀ raw ∈ seen is, Loggable parsers raw) ∧
          ∀ effects, readLoop parsers (i :: is) = some effects →
            sent effects = sent before ++ (seen is).filterMap (eventOf parsers) := by
        intro before hpass
        rw [readLoop, hpass]
        dsimp only
        refine ⟨?_, ?_⟩
        · rw [← hcompletes]
          cases readLoop parsers is <;> simp
        · intro effects h
          obtain ⟨rest, hrest, rfl⟩ := Option.map_eq_some_iff.mp h
          rw [sent_append, hsent rest hrest]
      cases i with
      | text raw =>
          have hmem : (∀ raw' ∈ seen (.text raw :: is), Loggable parsers raw') ↔
              Loggable parsers raw ∧ ∀ raw' ∈ seen is, Loggable parsers raw' :=
            List.forall_mem_cons
          rw [hmem, ← onText_completes_iff]
          cases honText : onText parsers raw with
          | none =>
              have hpass : onIncoming parsers (.text raw) = none := by simp [onIncoming, honText]
              rw [readLoop, hpass]
              refine ⟨iff_of_false ?_ ?_, ?_⟩
              · rintro ⟨effects, h⟩
                cases h
              · rintro ⟨⟨effects, h⟩, _⟩
                cases h
              · intro effects h
                cases h
          | some before =>
              have hpass : onIncoming parsers (.text raw) = some (before, true) := by
                simp [onIncoming, honText]
              obtain ⟨hiff, heffects⟩ := hgoesOn hpass
              refine ⟨hiff.trans (and_iff_right ⟨before, rfl⟩).symm, ?_⟩
              intro effects h
              rw [heffects effects h, sent_onText honText]
              show _ = List.filterMap _ (raw :: seen is)
              rw [List.filterMap_cons]
              cases eventOf parsers raw <;> rfl
      | ping data => exact hgoesOn rfl
      | other => exact hgoesOn rfl
      | cancelled | close | error _ | ended =>
          refine ⟨iff_of_true ⟨_, rfl⟩ fun raw hmem => absurd hmem List.not_mem_nil, ?_⟩
          rintro effects ⟨⟩
          rfl

end CryptoTrader.Ingestion
