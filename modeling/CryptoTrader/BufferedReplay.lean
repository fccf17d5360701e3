/-
# CryptoTrader.BufferedReplay — irregular buffers: the replay against live delivery.

`handle_snapshot` sequences the events it finds in its buffer by rules of its own: the first one is
picked by the window `U <= S+1 <= u`, every later one must continue its predecessor exactly, and
the loop breaks at the first that does not, whatever the reason.  `handle_update` sequences the
same events by comparing them with the id of the book.  On a buffer with missing, repeated or old
events the two part ways, and `handle_snapshot` reports the book live all the same.

Live delivery is simple to describe: while no event starts beyond what the book has reached, the
book stands at the largest id so far (`reach`), an event is stale when it ends by then, and the
others are applied.  The replay is described by what it takes (`taken`) and where it breaks
(`Breaks`).
-/
import CryptoTrader.SnapshotTiming

namespace CryptoTrader.BufferedReplay

open Orderbook SnapshotTiming

variable {F : Type} [BookNumber F]

/-- The ids of an event are in order: `pu < U <= u`. -/
def Numbered (e : DepthUpdate) : Prop :=
  e.prevLastUpdateId < e.firstUpdateId ∧ e.firstUpdateId ≤ e.lastUpdateId

/-! ## §1 What live delivery does -/

/-- The largest id among `n` and the ends of the events. -/
def reach (n : UInt64) (es : List DepthUpdate) : UInt64 :=
  es.foldl (fun n e => max n e.lastUpdateId) n

/-- No event starts beyond what has been reached before it. -/
def NoGap (n : UInt64) : List DepthUpdate → Prop
  | [] => True
  | e :: es => e.prevLastUpdateId ≤ n ∧ NoGap (max n e.lastUpdateId) es

instance decidableNoGap (n : UInt64) : (es : List DepthUpdate) → Decidable (NoGap n es)
  | [] => isTrue trivial
  | e :: es => @instDecidableAnd _ _ _ (decidableNoGap (max n e.lastUpdateId) es)

theorem reach_append (n : UInt64) (es fs : List DepthUpdate) :
    reach n (es ++ fs) = reach (reach n es) fs := List.foldl_append

theorem le_reach (n : UInt64) (es : List DepthUpdate) : n ≤ reach n es := by
  induction es generalizing n with
  | nil => exact UInt64.le_refl n
  | cons e es ih =>
      have hstep := ih (max n e.lastUpdateId)
      have hmax : n ≤ max n e.lastUpdateId := by
        rcases UInt64.le_total n e.lastUpdateId with h | h
        · rwa [max_of_le h]
        · rw [max_of_ge h]
          exact UInt64.le_refl n
      exact UInt64.le_trans hmax hstep

theorem noGap_append {n : UInt64} {es fs : List DepthUpdate} :
    NoGap n (es ++ fs) ↔ NoGap n es ∧ NoGap (reach n es) fs := by
  induction es generalizing n with
  | nil => simp [NoGap, reach]
  | cons e es ih =>
      rw [List.cons_append, NoGap, NoGap, ih, and_assoc]
      rfl

/-- How a live book sequences an event whose ids are in order. -/
theorem sequencing_of_numbered {n : UInt64} {e : DepthUpdate} (he : Numbered e) :
    sequencing n e =
      if n < e.prevLastUpdateId then .gap
      else if e.lastUpdateId ≤ n then .stale else .apply := by
  obtain ⟨hlt, hle⟩ := he
  split
  · next hgap =>
      cases hseq : sequencing n e with
      | gap => rfl
      | stale =>
          have hstale := (sequencing_eq_stale_iff.mp hseq).2
          exact absurd hstale (by grind)
      | apply =>
          rcases sequencing_eq_apply_iff.mp hseq with h | h
          · exact absurd h (by grind)
          · exact absurd h.1 (by grind)
  · next hgap =>
      split
      · next hstale => exact sequencing_eq_stale_iff.mpr (by grind)
      · next hnew => exact sequencing_eq_apply_iff.mpr (by grind)

/-- **Live delivery without a gap** ends live at the id reached, and asks for nothing. -/
theorem deliver_of_noGap {n : UInt64} {es : List DepthUpdate} (hids : ∀ e ∈ es, Numbered e)
    (h : NoGap n es) {book : Orderbook} (hlive : book.state = .live n) (resyncNeeded : Bool) :
    (book.deliver resyncNeeded es).1.state = .live (reach n es) ∧
      (book.deliver resyncNeeded es).2 = resyncNeeded := by
  induction es generalizing n book with
  | nil => exact ⟨hlive, rfl⟩
  | cons e es ih =>
      obtain ⟨hpu, hrest⟩ := h
      have hids' : ∀ e' ∈ es, Numbered e' := fun e' h' => hids e' (List.mem_cons_of_mem e h')
      rw [deliver, handleUpdate_live hlive,
        sequencing_of_numbered (hids e List.mem_cons_self), if_neg (UInt64.not_lt.mpr hpu)]
      by_cases hstale : e.lastUpdateId ≤ n
      · rw [if_pos hstale]
        rw [max_of_ge hstale] at hrest
        have hreach : reach n (e :: es) = reach n es := congrArg (reach · es) (max_of_ge hstale)
        rw [hreach]
        exact ih hids' hrest hlive
      · rw [if_neg hstale]
        have hnew : n ≤ e.lastUpdateId := UInt64.le_of_lt (UInt64.not_le.mp hstale)
        rw [max_of_le hnew] at hrest
        have hreach : reach n (e :: es) = reach e.lastUpdateId es :=
          congrArg (reach · es) (max_of_le hnew)
        rw [hreach]
        exact ih hids' hrest (liveAt_state _ _ _)

theorem deliver_cons (book : Orderbook) (resyncNeeded : Bool) (e : DepthUpdate)
    (es : List DepthUpdate) :
    book.deliver resyncNeeded (e :: es) =
      (book.handleUpdate e resyncNeeded).2.1.deliver (book.handleUpdate e resyncNeeded).2.2 es :=
  rfl

/-- A raised flag stays raised. -/
theorem deliver_flag (book : Orderbook) (es : List DepthUpdate) :
    (book.deliver true es).2 = true := by
  induction es generalizing book with
  | nil => rfl
  | cons e es ih =>
      rw [deliver_cons]
      have hflag : (book.handleUpdate e true).2.2 = true := by
        cases hst : book.state with
        | buffering buf => rw [handleUpdate_buffering hst]
        | live n =>
            rw [handleUpdate_live hst]
            cases sequencing n e <;> rfl
      rw [hflag]
      exact ih _

/-- **Live delivery detects every gap**, and nothing else. -/
theorem deliver_gap_iff {n : UInt64} {es : List DepthUpdate} (hids : ∀ e ∈ es, Numbered e)
    {book : Orderbook} (hlive : book.state = .live n) :
    (book.deliver false es).2 = true ↔ ¬ NoGap n es := by
  constructor
  · intro hflag hno
    rw [(deliver_of_noGap hids hno hlive false).2] at hflag
    exact Bool.false_ne_true hflag
  · intro hgap
    induction es generalizing n book with
    | nil => exact absurd trivial hgap
    | cons e es ih =>
        have hids' : ∀ e' ∈ es, Numbered e' := fun e' h' => hids e' (List.mem_cons_of_mem e h')
        rw [deliver, handleUpdate_live hlive, sequencing_of_numbered (hids e List.mem_cons_self)]
        by_cases hpu : n < e.prevLastUpdateId
        · rw [if_pos hpu]
          exact deliver_flag _ es
        · rw [if_neg hpu]
          have hrest : ¬ NoGap (max n e.lastUpdateId) es := fun hno =>
            hgap ⟨UInt64.not_lt.mp hpu, hno⟩
          by_cases hstale : e.lastUpdateId ≤ n
          · rw [if_pos hstale]
            rw [max_of_ge hstale] at hrest
            exact ih hids' hlive hrest
          · rw [if_neg hstale]
            rw [max_of_le (UInt64.le_of_lt (UInt64.not_le.mp hstale))] at hrest
            exact ih hids' (liveAt_state _ _ _) hrest

/-! ## §2 What the replay does -/

/-- The events the replay loop gets through before it ends or breaks. -/
def taken (lastId : UInt64) (first : Bool) : List DepthUpdate → List DepthUpdate
  | [] => []
  | event :: rest =>
      if !first && event.prevLastUpdateId ≠ lastId then []
      else event :: taken event.lastUpdateId false rest

/-- **The loop is what it takes**: it applies those events and ends at the id of the last. -/
theorem replay_eq_taken (sides : Side F × Side F) (id : UInt64) (first : Bool)
    (es : List DepthUpdate) :
    replay sides id first es =
      (applyAll sides (taken id first es), lastId id (taken id first es)) := by
  induction es generalizing sides id first with
  | nil => rfl
  | cons e es ih =>
      rw [replay, taken]
      split
      · rfl
      · rw [ih, lastId_cons]
        rfl

/-- The buffered events that `handle_snapshot` applies. -/
def replayEvents (s : UInt64) (buf : List DepthUpdate) : List DepthUpdate :=
  match buf.findIdx? (connects s) with
  | none => []
  | some idx => taken s true (buf.drop idx)

/-- What a snapshot makes of any buffer, as a fold. -/
theorem replayed_eq_applyAll (loaded : Side F × Side F) (s : UInt64) (buf : List DepthUpdate) :
    replayed loaded s buf =
      (applyAll loaded (replayEvents s buf), lastId s (replayEvents s buf)) := by
  unfold replayed replayEvents
  cases buf.findIdx? (connects s) with
  | none => rfl
  | some idx => exact replay_eq_taken loaded s true (buf.drop idx)

/-- The position of the buffer at which `handle_snapshot` breaks off its replay. -/
def stopIndex (s : UInt64) (buf : List DepthUpdate) : Option Nat :=
  match buf.findIdx? (connects s) with
  | none => none
  | some idx =>
      let stop := idx + (taken s true (buf.drop idx)).length
      if stop < buf.length then some stop else none

/-- The events continue each other from the id `last` on. -/
def Continues (last : UInt64) : List DepthUpdate → Prop
  | [] => True
  | e :: es => e.prevLastUpdateId = last ∧ Continues e.lastUpdateId es

instance decidableContinues (last : UInt64) :
    (es : List DepthUpdate) → Decidable (Continues last es)
  | [] => isTrue trivial
  | e :: es => @instDecidableAnd _ _ _ (decidableContinues e.lastUpdateId es)

/-- `e` is the first event after the first usable one that does not continue its predecessor:
`pre` is unusable events, one that connects to the snapshot, and events that continue it. -/
def Breaks (s : UInt64) (pre : List DepthUpdate) (e : DepthUpdate) : Prop :=
  ∃ unusable first run, pre = unusable ++ first :: run ∧
    (∀ x ∈ unusable, connects s x = false) ∧ connects s first = true ∧
    Continues first.lastUpdateId run ∧ e.prevLastUpdateId ≠ lastId first.lastUpdateId run

/-- The first event is taken as it is. -/
theorem taken_first (id : UInt64) (e : DepthUpdate) (es : List DepthUpdate) :
    taken id true (e :: es) = e :: taken e.lastUpdateId false es := rfl

/-- A run taken to its end is one that continues. -/
theorem taken_continues {last : UInt64} {run : List DepthUpdate} (h : Continues last run)
    (es : List DepthUpdate) :
    taken last false (run ++ es) = run ++ taken (lastId last run) false es := by
  induction run generalizing last with
  | nil => rfl
  | cons e run ih =>
      obtain ⟨hpu, hrest⟩ := h
      rw [List.cons_append, taken, if_neg (by simp [hpu]), ih hrest, lastId_cons]
      rfl

theorem taken_break {last : UInt64} {e : DepthUpdate} (h : e.prevLastUpdateId ≠ last)
    (es : List DepthUpdate) : taken last false (e :: es) = [] := by
  rw [taken, if_pos (by simp [h])]

/-- Whatever the loop leaves over starts with an event that does not continue what it took. -/
theorem taken_split (last : UInt64) (es : List DepthUpdate) :
    Continues last (taken last false es) ∧
      (taken last false es = es ∨ ∃ e rest, es = taken last false es ++ e :: rest ∧
        e.prevLastUpdateId ≠ lastId last (taken last false es)) := by
  induction es generalizing last with
  | nil => exact ⟨trivial, Or.inl rfl⟩
  | cons e es ih =>
      by_cases hpu : e.prevLastUpdateId = last
      · have htaken : taken last false (e :: es) = e :: taken e.lastUpdateId false es := by
          rw [taken, if_neg (by simp [hpu])]
        obtain ⟨hcont, hsplit⟩ := ih e.lastUpdateId
        rw [htaken, lastId_cons]
        refine ⟨⟨hpu, hcont⟩, ?_⟩
        rcases hsplit with hall | ⟨e', rest, hes, hne⟩
        · exact Or.inl (congrArg (e :: ·) hall)
        · exact Or.inr ⟨e', rest, congrArg (e :: ·) hes, hne⟩
      · rw [taken_break hpu]
        exact ⟨trivial, Or.inr ⟨e, es, rfl, hpu⟩⟩

/-- **Where the replay breaks off**, on the buffer itself. -/
theorem stopIndex_eq_some_iff {s : UInt64} {buf : List DepthUpdate} {i : Nat} :
    stopIndex s buf = some i ↔
      ∃ pre e post, buf = pre ++ e :: post ∧ pre.length = i ∧ Breaks s pre e := by
  constructor
  · intro h
    unfold stopIndex at h
    split at h
    · cases h
    · next idx hidx =>
        obtain ⟨hlt, hconn, hbefore⟩ := List.findIdx?_eq_some_iff_getElem.mp hidx
        rw [List.drop_eq_getElem_cons hlt, taken_first] at h
        obtain ⟨hcont, hsplit⟩ := taken_split buf[idx].lastUpdateId (buf.drop (idx + 1))
        generalize taken buf[idx].lastUpdateId false (buf.drop (idx + 1)) = run at h hcont hsplit
        have hbuf : buf = buf.take idx ++ buf[idx] :: buf.drop (idx + 1) := by
          rw [← List.drop_eq_getElem_cons hlt, List.take_append_drop]
        simp only [List.length_cons, Option.ite_some_none_eq_some] at h
        obtain ⟨hstop, rfl⟩ := h
        rcases hsplit with hall | ⟨e, rest, hrest, hne⟩
        · -- everything was taken, so the loop did not break
          rw [hall, List.length_drop] at hstop
          omega
        · refine ⟨buf.take idx ++ buf[idx] :: run, e, rest, ?_, ?_, ?_⟩
          · rw [List.append_assoc, List.cons_append, ← hrest]
            exact hbuf
          · rw [List.length_append, List.length_take, List.length_cons]
            omega
          · refine ⟨buf.take idx, buf[idx], run, rfl, ?_, hconn, hcont, hne⟩
            intro x hx
            obtain ⟨j, hj, rfl⟩ := List.mem_iff_getElem.mp hx
            rw [List.getElem_take]
            rw [List.length_take] at hj
            exact Bool.eq_false_iff.mpr (hbefore j (by omega))
  · rintro ⟨pre, e, post, rfl, rfl, unusable, first, run, rfl, hbefore, hconn, hcont, hne⟩
    have hidx : (unusable ++ first :: run ++ e :: post).findIdx? (connects s) =
        some unusable.length := by
      rw [List.append_assoc, List.findIdx?_append, List.findIdx?_eq_none_iff.mpr hbefore,
        List.cons_append, List.findIdx?_cons, hconn]
      simp
    have hdrop : (unusable ++ first :: run ++ e :: post).drop unusable.length =
        first :: (run ++ e :: post) := by
      rw [List.append_assoc, List.drop_left, List.cons_append]
    unfold stopIndex
    rw [hidx]
    simp only [hdrop]
    rw [taken_first, taken_continues hcont, taken_break hne, List.append_nil]
    simp only [List.length_append, List.length_cons]
    rw [if_pos (by omega)]

/-! ## §3 The two treatments of one buffer -/

/-- A book after the snapshot, with nothing buffered before it. -/
def synced (book : Orderbook) (snapshot : DepthSnapshot) : Orderbook :=
  ({ book with state := .buffering [] }.handleSnapshot snapshot).2

/-- Delivered live one by one, the event at position `i` is skipped: it ends by the id the book
has then. -/
def LiveSkips (book : Orderbook) (snapshot : DepthSnapshot) (buf : List DepthUpdate) (i : Nat) :
    Prop :=
  ∃ n e, buf[i]? = some e ∧
    ((synced book snapshot).deliver false (buf.take i)).1.state = .live n ∧
    sequencing n e = .stale

/-- Delivered live one by one, the event at position `j` is applied. -/
def LiveApplies (book : Orderbook) (snapshot : DepthSnapshot) (buf : List DepthUpdate) (j : Nat) :
    Prop :=
  ∃ e, buf[j]? = some e ∧
    (((synced book snapshot).deliver false (buf.take j)).1.handleUpdate e false).1 = .ok true

/-- A buffer gets the treatment in `handle_snapshot` that live delivery would give it. -/
structure SameTreatment (book : Orderbook) (snapshot : DepthSnapshot) (buf : List DepthUpdate) :
    Prop where
  /-- a gap that live delivery would detect is reported: the book does not go live -/
  gap_reported : ((synced book snapshot).deliver false buf).2 = true →
    ({ book with state := .buffering buf }.handleSnapshot snapshot).1 = false
  /-- what live delivery skips does not end the replay while something to apply is left -/
  stale_never_stops : ∀ i j, stopIndex snapshot.lastUpdateId buf = some i →
    LiveSkips book snapshot buf i → i < j → ¬ LiveApplies book snapshot buf j

/-- The buffers that do: no event starts beyond what the snapshot and the events before it reach;
and if the event at which continuity first breaks is an old one, nothing new comes after it. -/
structure Regular (s : UInt64) (buf : List DepthUpdate) : Prop where
  noGap : NoGap s buf
  noStaleBreak : ∀ pre e post, buf = pre ++ e :: post → Breaks s pre e →
    e.lastUpdateId ≤ reach s pre → ∀ e' ∈ post, e'.lastUpdateId ≤ reach s pre

theorem synced_state (book : Orderbook) (snapshot : DepthSnapshot) :
    (synced book snapshot).state = .live snapshot.lastUpdateId := by
  unfold synced
  rw [handleSnapshot_replayed]
  rfl

theorem getElem?_split (pre : List DepthUpdate) (e : DepthUpdate) (post : List DepthUpdate) :
    (pre ++ e :: post)[pre.length]? = some e := by
  rw [List.getElem?_append_right (Nat.le_refl _), Nat.sub_self]
  rfl

/-- What live delivery does with one event of a buffer without gaps. -/
theorem live_of_noGap (book : Orderbook) (snapshot : DepthSnapshot) {pre post : List DepthUpdate}
    {e : DepthUpdate} (hids : ∀ x ∈ pre ++ e :: post, Numbered x)
    (h : NoGap snapshot.lastUpdateId (pre ++ e :: post)) :
    (LiveSkips book snapshot (pre ++ e :: post) pre.length ↔
      e.lastUpdateId ≤ reach snapshot.lastUpdateId pre) ∧
    (LiveApplies book snapshot (pre ++ e :: post) pre.length ↔
      reach snapshot.lastUpdateId pre < e.lastUpdateId) := by
  obtain ⟨hpre, hpu, _⟩ := noGap_append.mp h
  have hidsPre : ∀ x ∈ pre, Numbered x := fun x hx => hids x (List.mem_append_left _ hx)
  have hstate := (deliver_of_noGap hidsPre hpre (synced_state book snapshot) false).1
  have hseq := sequencing_of_numbered (n := reach snapshot.lastUpdateId pre)
    (hids e (List.mem_append_right pre List.mem_cons_self))
  rw [if_neg (UInt64.not_lt.mpr hpu)] at hseq
  unfold LiveSkips LiveApplies
  rw [getElem?_split, List.take_left]
  refine ⟨?_, ?_⟩
  · constructor
    · rintro ⟨n, e', he', hn, hstale⟩
      rw [Option.some.injEq] at he'
      rw [hstate, SyncState.live.injEq] at hn
      subst he' hn
      exact (sequencing_eq_stale_iff.mp hstale).2
    · intro hle
      rw [if_pos hle] at hseq
      exact ⟨_, e, rfl, hstate, hseq⟩
  · constructor
    · rintro ⟨e', he', happlied⟩
      rw [Option.some.injEq] at he'
      subst he'
      rw [handleUpdate_live hstate, hseq] at happlied
      by_contra hnot
      rw [if_pos (UInt64.not_lt.mp hnot)] at happlied
      cases happlied
    · intro hlt
      refine ⟨e, rfl, ?_⟩
      rw [handleUpdate_live hstate, hseq, if_neg (UInt64.not_le.mpr hlt)]

/-- A position after a split of a list splits what comes after it. -/
theorem split_after_of_getElem? {pre post : List DepthUpdate} {e e' : DepthUpdate} {j : Nat}
    (hj : pre.length < j) (h : (pre ++ e :: post)[j]? = some e') :
    ∃ mid rest, post = mid ++ e' :: rest ∧ j = (pre ++ e :: mid).length := by
  obtain ⟨k, rfl⟩ : ∃ k, j = pre.length + (k + 1) := ⟨j - pre.length - 1, by omega⟩
  rw [List.getElem?_append_right (Nat.le_add_right _ _), Nat.add_sub_cancel_left,
    List.getElem?_cons_succ] at h
  obtain ⟨hk, rfl⟩ := List.getElem?_eq_some_iff.mp h
  refine ⟨post.take k, post.drop (k + 1), ?_, ?_⟩
  · rw [← List.drop_eq_getElem_cons hk, List.take_append_drop]
  · rw [List.length_append, List.length_cons, List.length_take]
    omega

/-- Events that each end by what is reached before them all end by where they start. -/
theorem forall_le_of_none_new {n : UInt64} {es : List DepthUpdate}
    (h : ∀ mid e rest, es = mid ++ e :: rest → e.lastUpdateId ≤ reach n mid) :
    ∀ e ∈ es, e.lastUpdateId ≤ n := by
  induction es with
  | nil => exact fun e he => absurd he List.not_mem_nil
  | cons x es ih =>
      have hx : x.lastUpdateId ≤ n := h [] x es rfl
      have hrest := ih fun mid e rest hes => by
        have hle := h (x :: mid) e rest (congrArg (x :: ·) hes)
        have hreach : reach n (x :: mid) = reach n mid := congrArg (reach · mid) (max_of_ge hx)
        rwa [hreach] at hle
      intro e he
      rcases List.mem_cons.mp he with rfl | hmem
      · exact hx
      · exact hrest e hmem

/-- **Irregular buffers.**  Whatever the snapshot and the buffered events, as long as their ids are
in order (`pu < U <= u`): the buffer gets the gap and staleness treatment of live delivery exactly
when it is regular. -/
theorem sameTreatment_iff_regular (book : Orderbook) (snapshot : DepthSnapshot)
    (buf : List DepthUpdate)
    (hids : ∀ e ∈ buf, e.prevLastUpdateId < e.firstUpdateId ∧ e.firstUpdateId ≤ e.lastUpdateId) :
    SameTreatment book snapshot buf ↔ Regular snapshot.lastUpdateId buf := by
  have hgap := deliver_gap_iff hids (synced_state book snapshot)
  constructor
  · intro h
    have hno : NoGap snapshot.lastUpdateId buf := by
      by_contra hnot
      -- the code never answers `false`
      have hreported := h.gap_reported (hgap.mpr hnot)
      rw [handleSnapshot_eq] at hreported
      cases hreported
    refine ⟨hno, ?_⟩
    rintro pre e post rfl hbreaks hstale
    have hskips := (live_of_noGap book snapshot hids hno).1.mpr hstale
    have hstop := stopIndex_eq_some_iff.mpr ⟨pre, e, post, rfl, rfl, hbreaks⟩
    apply forall_le_of_none_new
    rintro mid e' rest rfl
    have hsplit : pre ++ e :: (mid ++ e' :: rest) = (pre ++ e :: mid) ++ e' :: rest := by simp
    rw [hsplit] at hids hno hstop hskips
    have happlies := (live_of_noGap book snapshot hids hno).2
    have hlater : pre.length < (pre ++ e :: mid).length := by simp
    by_contra hnew
    have hreach : reach snapshot.lastUpdateId (pre ++ e :: mid) =
        reach (reach snapshot.lastUpdateId pre) mid := by
      rw [reach_append]
      exact congrArg (reach · mid) (max_of_ge hstale)
    rw [hreach] at happlies
    have hnever := h.stale_never_stops pre.length (pre ++ e :: mid).length
    rw [hsplit] at hnever
    exact hnever hstop hskips hlater (happlies.mpr (UInt64.not_le.mp hnew))
  · intro h
    refine ⟨fun hflag => absurd h.noGap (hgap.mp hflag), ?_⟩
    intro i j hstop hskips hij happlies
    obtain ⟨pre, e, post, rfl, rfl, hbreaks⟩ := stopIndex_eq_some_iff.mp hstop
    have hstale := (live_of_noGap book snapshot hids h.noGap).1.mp hskips
    have hold := h.noStaleBreak pre e post rfl hbreaks hstale
    obtain ⟨e', he', _⟩ := id happlies
    obtain ⟨mid, rest, rfl, rfl⟩ := split_after_of_getElem? hij he'
    have hsplit : pre ++ e :: (mid ++ e' :: rest) = (pre ++ e :: mid) ++ e' :: rest := by simp
    have hno := h.noGap
    rw [hsplit] at hids hno happlies
    have hnew := (live_of_noGap book snapshot hids hno).2.mp happlies
    have hreach : reach snapshot.lastUpdateId pre ≤
        reach snapshot.lastUpdateId (pre ++ e :: mid) := by
      rw [reach_append]
      exact le_reach _ _
    have hle := hold e' (List.mem_append_right mid List.mem_cons_self)
    exact UInt64.lt_irrefl _ (UInt64.lt_of_lt_of_le hnew (UInt64.le_trans hle hreach))

/-! A missing event in the buffer, and a repeated one. -/

theorem sameTreatment_contiguous :
    SameTreatment (new "BTCUSDT" 20) (emptyAt 10) [quote 9 10 12, quote 12 13 14] :=
  (sameTreatment_iff_regular (new "BTCUSDT" 20) (emptyAt 10) [quote 9 10 12, quote 12 13 14]
    (by decide)).mpr
    { noGap := by decide
      noStaleBreak := by
        intro pre e post hbuf hbreaks
        have hnone :
            stopIndex (emptyAt 10).lastUpdateId [quote 9 10 12, quote 12 13 14] = none := by
          decide
        have hsome := stopIndex_eq_some_iff.mpr ⟨pre, e, post, hbuf, rfl, hbreaks⟩
        rw [hnone] at hsome
        cases hsome }

/-- **Both halves fail.**  With an event missing inside the buffer the book is reported live where
live delivery asks for a resync; and a repeated event ends the replay in front of one that live
delivery applies. -/
theorem irregular_buffers_treated_differently :
    (∀ e ∈ [quote 9 10 12, quote 12 13 14, quote 14 15 16], Numbered e) ∧
    (((synced (new "BTCUSDT" 20) (emptyAt 10)).deliver false [quote 9 10 12, quote 14 15 16]).2
        = true ∧
      ({ new "BTCUSDT" 20 with
          state := .buffering [quote 9 10 12, quote 14 15 16] }.handleSnapshot (emptyAt 10)).1
        = true) ∧
    ¬ SameTreatment (new "BTCUSDT" 20) (emptyAt 10) [quote 9 10 12, quote 14 15 16] ∧
    ¬ SameTreatment (new "BTCUSDT" 20) (emptyAt 10)
        [quote 9 10 12, quote 9 10 12, quote 12 13 14] := by
  refine ⟨by unfold Numbered; decide, ⟨by decide +kernel, by decide +kernel⟩, ?_, ?_⟩
  · intro h
    have hreported := h.gap_reported (by decide +kernel)
    exact absurd hreported (by decide +kernel)
  · intro h
    exact h.stale_never_stops 1 2 (by decide)
      ⟨12, quote 9 10 12, rfl, by decide +kernel, by decide⟩ (by decide)
      ⟨quote 12 13 14, rfl, by decide +kernel⟩

end CryptoTrader.BufferedReplay
