/-
# CryptoTrader.Lib.TextLines — texts that hold one record on a line.

`lines` cuts a text at its line ends, LF or CRLF, and `records` are the lines that are not blank, trimmed.
Read the other way round, a text is a sequence of records with white space before, after and between them,
and at least one line end between any two (`Laid`).  The two readings agree on every text
(`laid_iff_records`), so blank lines, indentation, the kind of line end and a missing last one have no
say in the records.
-/
import Mathlib.Data.List.DropRight

namespace CryptoTrader.Lib.TextLines

/-- The lines of a text; the last one need not be ended. -/
def lines : List Char → List (List Char)
  | [] => []
  | c :: cs =>
      if c = '\n' then [] :: lines cs
      -- a carriage return belongs to the line end that follows it
      else if c = '\r' ∧ cs.head? = some '\n' then lines cs
      else match lines cs with
        | [] => [[c]]
        | line :: rest => (c :: line) :: rest

section

variable (isSpace : Char → Bool)

/-- Without the white space at either end. -/
def trim (line : List Char) : List Char := (line.dropWhile isSpace).rdropWhile isSpace

/-- The lines that are not blank, trimmed. -/
def nonblank (ls : List (List Char)) : List (List Char) :=
  (ls.map (trim isSpace)).filter fun line => !line.isEmpty

def records (text : List Char) : List (List Char) := nonblank isSpace (lines text)

/-- White space only. -/
def Blank (gap : List Char) : Prop := ∀ c ∈ gap, isSpace c = true

/-- A record: on one line, and white space at neither end. -/
structure Solid (body : List Char) : Prop where
  oneLine : '\n' ∉ body
  first : ∃ c rest, body = c :: rest ∧ isSpace c = false
  last : ∃ front c, body = front ++ [c] ∧ isSpace c = false

/-- **A text laid out**: records among white space, with a line end between any two. -/
inductive Laid : List Char → List (List Char) → Prop where
  | blank {gap : List Char} : Blank isSpace gap → Laid gap []
  | last {front body gap : List Char} : Blank isSpace front → Solid isSpace body →
      Blank isSpace gap → Laid (front ++ (body ++ gap)) [body]
  | record {front body gap text : List Char} {bodies : List (List Char)} : Blank isSpace front →
      Solid isSpace body → Blank isSpace gap → '\n' ∈ gap → Laid text bodies →
      Laid (front ++ (body ++ (gap ++ text))) (body :: bodies)

end

variable {isSpace : Char → Bool}

/-! ## Trimming -/

theorem Blank.cons {c : Char} {gap : List Char} (h : Blank isSpace gap) (hc : isSpace c = true) :
    Blank isSpace (c :: gap) := by
  intro d hd
  rcases List.mem_cons.mp hd with rfl | hd
  · exact hc
  · exact h d hd

theorem trim_cons {c : Char} (hc : isSpace c = true) (line : List Char) :
    trim isSpace (c :: line) = trim isSpace line := by
  rw [trim, List.dropWhile_cons_of_pos hc]
  rfl

theorem Blank.trim {gap : List Char} (h : Blank isSpace gap) : TextLines.trim isSpace gap = [] := by
  rw [TextLines.trim, List.dropWhile_eq_nil_iff.mpr h]
  rfl

theorem rdropWhile_append {line gap : List Char} (h : Blank isSpace gap) :
    (line ++ gap).rdropWhile isSpace = line.rdropWhile isSpace := by
  induction gap using List.reverseRecOn with
  | nil => rw [List.append_nil]
  | append_singleton gap c ih =>
      rw [← List.append_assoc, List.rdropWhile_concat_pos isSpace _ c (h c (by simp))]
      exact ih fun d hd => h d (List.mem_append_left _ hd)

/-- A record comes out of its line whole. -/
theorem Solid.trim {body gap : List Char} (h : Solid isSpace body) (hgap : Blank isSpace gap) :
    TextLines.trim isSpace (body ++ gap) = body := by
  obtain ⟨c, rest, hfirst, hc⟩ := h.first
  obtain ⟨front, d, hlast, hd⟩ := h.last
  have hdrop : (body ++ gap).dropWhile isSpace = body ++ gap := by
    rw [hfirst, List.cons_append, List.dropWhile_cons_of_neg (by simp [hc])]
  rw [TextLines.trim, hdrop, rdropWhile_append hgap]
  rw [hlast, List.rdropWhile_concat_neg isSpace _ d (by simp [hd])]

theorem Solid.ne_nil {body : List Char} (h : Solid isSpace body) : body ≠ [] := by
  obtain ⟨c, rest, rfl, -⟩ := h.first
  exact List.cons_ne_nil c rest

/-! ## Lines -/

theorem nonblank_cons (line : List Char) (ls : List (List Char)) :
    nonblank isSpace (line :: ls)
      = (if trim isSpace line = [] then [] else [trim isSpace line]) ++ nonblank isSpace ls := by
  unfold nonblank
  rw [List.map_cons, List.filter_cons]
  cases trim isSpace line with
  | nil => rfl
  | cons c cs => rfl

/-- White space in front of a text makes no record. -/
theorem records_cons {c : Char} (hc : isSpace c = true) (text : List Char) :
    records isSpace (c :: text) = records isSpace text := by
  unfold records
  rw [lines]
  split
  · rw [nonblank_cons]
    rfl
  · split
    · rfl
    · split
      · next hlines =>
          rw [nonblank_cons, trim_cons hc, hlines]
          rfl
      · next line rest hlines => rw [nonblank_cons, trim_cons hc, hlines, nonblank_cons]

theorem records_append {gap : List Char} (hgap : Blank isSpace gap) (text : List Char) :
    records isSpace (gap ++ text) = records isSpace text := by
  induction gap with
  | nil => rfl
  | cons c gap ih =>
      rw [List.cons_append, records_cons (hgap c List.mem_cons_self)]
      exact ih fun d hd => hgap d (List.mem_cons_of_mem c hd)

/-- The first line of what is put behind a record goes on where the record ends. -/
theorem lines_append {body : List Char} (hline : '\n' ∉ body)
    (hlast : ∃ front c, body = front ++ [c] ∧ c ≠ '\r') (text : List Char) :
    lines (body ++ text) = match lines text with
      | [] => [body]
      | line :: rest => (body ++ line) :: rest := by
  induction body with
  | nil =>
      obtain ⟨front, c, hnil, -⟩ := hlast
      exact absurd hnil.symm (by simp)
  | cons c body ih =>
      rw [List.mem_cons, not_or] at hline
      obtain ⟨hc, hbody⟩ := hline
      -- no line end starts at this character
      have hnext : ¬ (c = '\r' ∧ (body ++ text).head? = some '\n') := by
        rintro ⟨rfl, hhead⟩
        cases body with
        | nil =>
            obtain ⟨front, d, hcons, hd⟩ := hlast
            cases front with
            | nil => exact hd (List.cons.inj hcons).1.symm
            | cons e front => exact absurd (List.cons.inj hcons).2.symm (by simp)
        | cons d body =>
            obtain rfl := Option.some.inj hhead
            exact hbody List.mem_cons_self
      rw [List.cons_append, lines, if_neg (Ne.symm hc), if_neg hnext]
      cases body with
      | nil => rfl
      | cons d body =>
          rw [ih hbody]
          · cases lines text with
            | nil => rfl
            | cons line rest => rfl
          · obtain ⟨front, e, hcons, he⟩ := hlast
            cases front with
            | nil => exact absurd (List.cons.inj hcons).2 (by simp)
            | cons f front => exact ⟨front, e, (List.cons.inj hcons).2, he⟩

/-- The line that a gap continues is blank from there on, and ends in the gap if there is a line end. -/
theorem lines_gap {gap : List Char} (hgap : Blank isSpace gap) (text : List Char)
    (hend : '\n' ∈ gap ∨ text = []) :
    (lines (gap ++ text) = [] ∧ text = []) ∨ ∃ line rest, lines (gap ++ text) = line :: rest ∧
      Blank isSpace line ∧ nonblank isSpace rest = records isSpace text := by
  induction gap with
  | nil =>
      rcases hend with hmem | rfl
      · cases hmem
      · exact Or.inl ⟨rfl, rfl⟩
  | cons c gap ih =>
      have hrest : Blank isSpace gap := fun d hd => hgap d (List.mem_cons_of_mem c hd)
      rw [List.cons_append, lines]
      by_cases hc : c = '\n'
      · rw [if_pos hc]
        exact Or.inr ⟨[], _, rfl, fun _ h => absurd h List.not_mem_nil, records_append hrest text⟩
      · have hend' : '\n' ∈ gap ∨ text = [] := hend.imp_left fun hmem =>
          (List.mem_cons.mp hmem).resolve_left (Ne.symm hc)
        rw [if_neg hc]
        split
        · exact ih hrest hend'
        · rcases ih hrest hend' with ⟨hnil, rfl⟩ | ⟨line, rest, hlines, hblank, hrecords⟩
          · rw [hnil]
            have hone : Blank isSpace [c] := by
              intro d hd
              rw [List.mem_singleton.mp hd]
              exact hgap c List.mem_cons_self
            exact Or.inr ⟨[c], [], rfl, hone, rfl⟩
          · rw [hlines]
            exact Or.inr ⟨c :: line, rest, rfl, hblank.cons (hgap c List.mem_cons_self), hrecords⟩

/-- **A record** and the gap behind it. -/
theorem records_solid (hreturn : isSpace '\r' = true) {body gap : List Char} (hbody : Solid isSpace body)
    (hgap : Blank isSpace gap) (text : List Char) (hend : '\n' ∈ gap ∨ text = []) :
    records isSpace (body ++ (gap ++ text)) = body :: records isSpace text := by
  have hlast : ∃ front c, body = front ++ [c] ∧ c ≠ '\r' := by
    obtain ⟨front, c, rfl, hc⟩ := hbody.last
    refine ⟨front, c, rfl, ?_⟩
    rintro rfl
    rw [hreturn] at hc
    cases hc
  have hone : ∀ {line : List Char} (rest : List (List Char)), Blank isSpace line →
      nonblank isSpace ((body ++ line) :: rest) = body :: nonblank isSpace rest := by
    intro line rest hline
    rw [nonblank_cons, hbody.trim hline, if_neg hbody.ne_nil]
    rfl
  rw [records, lines_append hbody.oneLine hlast]
  rcases lines_gap hgap text hend with ⟨hnil, rfl⟩ | ⟨line, rest, hlines, hblank, hrecords⟩
  · rw [hnil]
    have hbare := @hone [] [] fun _ h => absurd h List.not_mem_nil
    rwa [List.append_nil] at hbare
  · rw [hlines]
    exact (hone rest hblank).trans (congrArg _ hrecords)

/-! ## The two readings -/

/-- The records of a text are those it is laid out from. -/
theorem Laid.records (hreturn : isSpace '\r' = true) {text : List Char} {bodies : List (List Char)}
    (h : Laid isSpace text bodies) : TextLines.records isSpace text = bodies := by
  induction h with
  | blank hgap =>
      have hnone := records_append hgap []
      rwa [List.append_nil] at hnone
  | @last front body gap hfront hbody hgap =>
      have hone := records_solid hreturn hbody hgap [] (Or.inr rfl)
      rw [List.append_nil] at hone
      rw [records_append hfront, hone]
      rfl
  | record hfront hbody hgap hend _ ih =>
      rw [records_append hfront, records_solid hreturn hbody hgap _ (Or.inl hend), ih]

theorem Laid.cons_space {c : Char} (hc : isSpace c = true) {text : List Char}
    {bodies : List (List Char)} (h : Laid isSpace text bodies) : Laid isSpace (c :: text) bodies := by
  cases h with
  | blank hgap => exact .blank (hgap.cons hc)
  | last hfront hbody hgap => exact .last (hfront.cons hc) hbody hgap
  | record hfront hbody hgap hend hrest => exact .record (hfront.cons hc) hbody hgap hend hrest

theorem solid_singleton {c : Char} (hc : isSpace c = false) (hnewline : isSpace '\n' = true) :
    Solid isSpace [c] where
  oneLine := by
    intro hmem
    rw [List.mem_singleton.mp hmem, hc] at hnewline
    cases hnewline
  first := ⟨c, [], rfl, hc⟩
  last := ⟨[], c, rfl, hc⟩

/-- A character in front of a record on the same line makes it longer. -/
theorem Solid.cons {c : Char} (hc : isSpace c = false) (hnewline : isSpace '\n' = true)
    {front body : List Char} (hfront : '\n' ∉ front) (h : Solid isSpace body) :
    Solid isSpace (c :: (front ++ body)) where
  oneLine := by
    rintro (_ | ⟨_, hmem⟩)
    · rw [hnewline] at hc
      cases hc
    · rcases List.mem_append.mp hmem with hmem | hmem
      · exact hfront hmem
      · exact h.oneLine hmem
  first := ⟨c, _, rfl, hc⟩
  last := by
    obtain ⟨init, d, rfl, hd⟩ := h.last
    exact ⟨c :: (front ++ init), d, by simp, hd⟩

theorem Laid.cons_solid {c : Char} (hc : isSpace c = false) (hnewline : isSpace '\n' = true)
    {text : List Char} {bodies : List (List Char)} (h : Laid isSpace text bodies) :
    ∃ bodies, Laid isSpace (c :: text) bodies := by
  have hnone : Blank isSpace [] := fun _ h => absurd h List.not_mem_nil
  have hone := solid_singleton hc hnewline
  cases h with
  | blank hgap => exact ⟨_, .last hnone hone hgap⟩
  | @last front body gap hfront hbody hgap =>
      by_cases hend : '\n' ∈ front
      · exact ⟨_, .record hnone hone hfront hend (.last hnone hbody hgap)⟩
      · refine ⟨[c :: (front ++ body)], ?_⟩
        have hlaid := Laid.last hnone (hbody.cons hc hnewline hend) hgap
        rwa [List.nil_append, List.cons_append, List.append_assoc] at hlaid
  | @record front body gap text bodies hfront hbody hgap hline hrest =>
      by_cases hend : '\n' ∈ front
      · exact ⟨_, .record hnone hone hfront hend (.record hnone hbody hgap hline hrest)⟩
      · refine ⟨(c :: (front ++ body)) :: bodies, ?_⟩
        have hlaid := Laid.record hnone (hbody.cons hc hnewline hend) hgap hline hrest
        rwa [List.nil_append, List.cons_append, List.append_assoc] at hlaid

/-- Every text is laid out in some way. -/
theorem exists_laid (hnewline : isSpace '\n' = true) (text : List Char) :
    ∃ bodies, Laid isSpace text bodies := by
  induction text with
  | nil => exact ⟨[], .blank fun _ h => absurd h List.not_mem_nil⟩
  | cons c text ih =>
      obtain ⟨bodies, h⟩ := ih
      cases hc : isSpace c with
      | true => exact ⟨bodies, h.cons_space hc⟩
      | false => exact h.cons_solid hc hnewline

/-- **The two readings agree.** -/
theorem laid_iff_records (hnewline : isSpace '\n' = true) (hreturn : isSpace '\r' = true)
    {text : List Char} {bodies : List (List Char)} :
    Laid isSpace text bodies ↔ records isSpace text = bodies := by
  refine ⟨Laid.records hreturn, ?_⟩
  rintro rfl
  obtain ⟨bodies, h⟩ := exists_laid hnewline text
  rw [h.records hreturn]
  exact h

end CryptoTrader.Lib.TextLines
