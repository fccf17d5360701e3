/-
# CryptoTrader.DataLoader — recorded updates in a file, one on a line.

`load_depth_updates` of `backtest/data_loader.rs`.  Lines are trimmed, blank ones are skipped, and the
first other one that does not parse ends the load with its number.  `serde_json::from_str` is a parameter;
the text of the file is taken as read (a file that cannot be read, or is not UTF-8, is an error of its
own).

The loader reads any layout of the records: what it makes of a text depends on the records alone
(`Laid`), and the number in its message counts the lines of the file, blank ones included.
-/
import CryptoTrader.Types
import CryptoTrader.Lib.TextLines

namespace CryptoTrader.DataLoader

open Lib.TextLines

/-- `char::is_whitespace` -/
def isWhitespace (c : Char) : Bool :=
  let n := c.toNat
  n = 0x20 || (0x09 ≤ n && n ≤ 0x0d) || n = 0x85 || n = 0xa0 || n = 0x1680 ||
    (0x2000 ≤ n && n ≤ 0x200a) || n = 0x2028 || n = 0x2029 || n = 0x202f || n = 0x205f || n = 0x3000

section

variable {ε : Type} [ToString ε] (fromStr : String → Except ε DepthUpdate)

/-- The loop over the lines, from a line number on. -/
def loadLines : Nat → List (List Char) → Except String (List DepthUpdate)
  | _, [] => .ok []
  | lineNum, line :: rest =>
      let trimmed := trim isWhitespace line
      if trimmed.isEmpty then loadLines (lineNum + 1) rest
      else match fromStr (String.ofList trimmed) with
        | .error e => .error ("Line " ++ toString (lineNum + 1) ++ ": " ++ toString e)
        | .ok update => (loadLines (lineNum + 1) rest).map fun updates => update :: updates

def loadDepthUpdates (text : List Char) : Except String (List DepthUpdate) :=
  loadLines fromStr 0 (lines text)

/-- The records of a text, and what they parse to. -/
def Parses (bodies : List (List Char)) (updates : List DepthUpdate) : Prop :=
  List.Forall₂ (fun body update => fromStr (String.ofList body) = .ok update) bodies updates

/-- A line that the loader gets past: blank, or an update. -/
def Passes (line : List Char) : Prop :=
  trim isWhitespace line = [] ∨
    ∃ update, fromStr (String.ofList (trim isWhitespace line)) = .ok update

/-- A line that it does not get past, and what is wrong with it. -/
def Fails (line : List Char) (e : ε) : Prop :=
  trim isWhitespace line ≠ [] ∧ fromStr (String.ofList (trim isWhitespace line)) = .error e

/-- The message for a first bad line, in lines that are numbered from `lineNum` on. -/
def Blames (lineNum : Nat) (lines : List (List Char)) (message : String) : Prop :=
  ∃ before line after e, lines = before ++ line :: after ∧ (∀ l ∈ before, Passes fromStr l) ∧
    Fails fromStr line e ∧
    message = "Line " ++ toString (lineNum + before.length + 1) ++ ": " ++ toString e

end

variable {ε : Type} [ToString ε] {fromStr : String → Except ε DepthUpdate}

/-! ## The loop -/

theorem loadLines_eq_ok {lineNum : Nat} {lines : List (List Char)} {updates : List DepthUpdate} :
    loadLines fromStr lineNum lines = .ok updates
      ↔ Parses fromStr (nonblank isWhitespace lines) updates := by
  induction lines generalizing lineNum updates with
  | nil =>
      show Except.ok [] = Except.ok updates ↔ List.Forall₂ _ [] updates
      rw [List.forall₂_nil_left_iff, Except.ok.injEq, eq_comm]
  | cons line rest ih =>
      rw [loadLines, nonblank_cons]
      unfold Parses at ih ⊢
      cases htrim : trim isWhitespace line with
      | nil => exact ih
      | cons c cs =>
          rw [if_neg (List.cons_ne_nil c cs), List.singleton_append, List.forall₂_cons_left_iff]
          simp only [List.isEmpty_cons, Bool.false_eq_true, if_false]
          cases hparse : fromStr (String.ofList (c :: cs)) with
          | error e => exact iff_of_false nofun fun ⟨_, _, h, _, _⟩ => by cases h
          | ok update =>
              dsimp only
              constructor
              · intro h
                cases hrest : loadLines fromStr (lineNum + 1) rest with
                | error message =>
                    rw [hrest] at h
                    cases h
                | ok more =>
                    rw [hrest] at h
                    exact ⟨update, more, rfl, ih.mp hrest, (Except.ok.inj h).symm⟩
              · rintro ⟨update', more, hupdate, hmore, rfl⟩
                obtain rfl := Except.ok.inj hupdate
                rw [ih.mpr hmore]
                rfl

omit [ToString ε] in
theorem not_passes_of_fails {line : List Char} {e : ε} (h : Fails fromStr line e) :
    ¬ Passes fromStr line := by
  rintro (hblank | ⟨update, hok⟩)
  · exact h.1 hblank
  · rw [h.2] at hok
    cases hok

/-- A line that is passed moves the first bad one down by one. -/
theorem blames_cons_of_passes {lineNum : Nat} {line : List Char} {rest : List (List Char)}
    {message : String} (h : Passes fromStr line) :
    Blames fromStr (lineNum + 1) rest message ↔ Blames fromStr lineNum (line :: rest) message := by
  have hnumber : ∀ n, lineNum + 1 + n + 1 = lineNum + (n + 1) + 1 := fun n => by omega
  constructor
  · rintro ⟨before, bad, after, e, rfl, hbefore, hbad, rfl⟩
    refine ⟨line :: before, bad, after, e, rfl, ?_, hbad, by rw [hnumber, List.length_cons]⟩
    intro l hl
    rcases List.mem_cons.mp hl with rfl | hl
    · exact h
    · exact hbefore l hl
  · rintro ⟨before, bad, after, e, hlines, hbefore, hbad, rfl⟩
    cases before with
    | nil =>
        obtain ⟨rfl, -⟩ := List.cons.inj hlines
        exact absurd h (not_passes_of_fails hbad)
    | cons l before =>
        obtain ⟨-, rfl⟩ := List.cons.inj hlines
        exact ⟨before, bad, after, e, rfl, fun l hl => hbefore l (List.mem_cons_of_mem _ hl), hbad,
          by rw [hnumber, List.length_cons]⟩

/-- A line that is not passed is the first bad one. -/
theorem blames_cons_of_fails {lineNum : Nat} {line : List Char} {rest : List (List Char)}
    {message : String} {e : ε} (h : Fails fromStr line e) :
    Blames fromStr lineNum (line :: rest) message
      ↔ message = "Line " ++ toString (lineNum + 1) ++ ": " ++ toString e := by
  constructor
  · rintro ⟨before, bad, after, e', hlines, hbefore, hbad, rfl⟩
    cases before with
    | nil =>
        obtain ⟨rfl, -⟩ := List.cons.inj hlines
        obtain rfl := Except.error.inj (h.2.symm.trans hbad.2)
        rfl
    | cons l before =>
        obtain ⟨rfl, -⟩ := List.cons.inj hlines
        exact absurd (hbefore line List.mem_cons_self) (not_passes_of_fails h)
  · rintro rfl
    exact ⟨[], line, rest, e, rfl, fun _ h => absurd h List.not_mem_nil, h, rfl⟩

theorem loadLines_eq_error {lineNum : Nat} {lines : List (List Char)} {message : String} :
    loadLines fromStr lineNum lines = .error message ↔ Blames fromStr lineNum lines message := by
  induction lines generalizing lineNum with
  | nil =>
      refine iff_of_false nofun ?_
      rintro ⟨before, line, after, e, hlines, -⟩
      exact absurd hlines.symm (by simp)
  | cons line rest ih =>
      rw [loadLines]
      cases htrim : trim isWhitespace line with
      | nil => exact ih.trans (blames_cons_of_passes (Or.inl htrim))
      | cons c cs =>
          simp only [List.isEmpty_cons, Bool.false_eq_true, if_false]
          cases hparse : fromStr (String.ofList (c :: cs)) with
          | error e =>
              have hfails : Fails fromStr line e := by
                unfold Fails
                rw [htrim]
                exact ⟨List.cons_ne_nil c cs, hparse⟩
              rw [blames_cons_of_fails hfails]
              dsimp only
              rw [Except.error.injEq, eq_comm]
          | ok update =>
              have hpasses : Passes fromStr line := Or.inr ⟨update, by rw [htrim, hparse]⟩
              refine Iff.trans ?_ (ih.trans (blames_cons_of_passes hpasses))
              cases loadLines fromStr (lineNum + 1) rest <;> simp [Except.map]

/-! ## The file -/

/-- **The loader reads every layout, and names the first bad line.**  A text loads exactly when it is laid
out from records that all parse, whatever the blank lines, the indentation and the line ends, and it loads
as the updates they parse to, in order.  Otherwise the message gives the number of the first line of the
file that is neither blank nor an update.  So what is written with one update on a line, in any layout, is
read back. -/
theorem load_reads_every_layout (fromStr : String → Except ε DepthUpdate) (text : List Char) :
    (∀ updates, loadDepthUpdates fromStr text = .ok updates ↔
      ∃ bodies, Laid isWhitespace text bodies ∧ Parses fromStr bodies updates) ∧
    (∀ message, loadDepthUpdates fromStr text = .error message
      ↔ Blames fromStr 0 (lines text) message) ∧
    ∀ toStr : DepthUpdate → String, (∀ update, fromStr (toStr update) = .ok update) →
      ∀ updates : List DepthUpdate,
        Laid isWhitespace text (updates.map fun update => (toStr update).toList) →
        loadDepthUpdates fromStr text = .ok updates := by
  have hok : ∀ updates, loadDepthUpdates fromStr text = .ok updates ↔
      ∃ bodies, Laid isWhitespace text bodies ∧ Parses fromStr bodies updates := by
    intro updates
    refine loadLines_eq_ok.trans ?_
    have hlaid : ∀ bodies, Laid isWhitespace text bodies ↔ records isWhitespace text = bodies :=
      fun _ => laid_iff_records (by decide) (by decide)
    simp only [hlaid, exists_eq_left']
    rfl
  refine ⟨hok, fun _ => loadLines_eq_error, ?_⟩
  · intro toStr hparses updates hlaid
    refine (hok updates).mpr ⟨_, hlaid, ?_⟩
    unfold Parses
    rw [List.forall₂_map_left_iff, List.forall₂_same]
    intro update _
    rw [String.ofList_toList]
    exact hparses update

end CryptoTrader.DataLoader
