/-
# CryptoTrader.Lib.WriteLog — replaying a log of keyed writes onto an ordered map.

A write log is a list of `(key, value)` entries, oldest first.  Replaying it sends an entry to an
`insert` or an `erase` of its key, as `store` decides from the value (`none` = erase).  The one
fact callers need is that only the LAST entry of each key counts: `getElem?_replay` reads the
replayed map at a key from `lastEntry`, and from the old map where the log does not list the key.
-/
import Mathlib.Data.List.Basic
import Mathlib.Order.Basic

namespace CryptoTrader.Lib

open Std (ExtTreeMap)

namespace WriteLog

variable {κ ν β : Type} [DecidableEq κ]

/-! ## The last entry of a key -/

/-- The value of the last entry for `k`, if the log lists `k` at all. -/
def lastEntry (k : κ) : List (κ × ν) → Option ν
  | [] => none
  | (k', v) :: log =>
      match lastEntry k log with
      | some w => some w
      | none => if k' = k then some v else none

/-- The last entry is one of the log. -/
theorem lastEntry_some_mem {log : List (κ × ν)} {k : κ} {v : ν} (h : lastEntry k log = some v) :
    (k, v) ∈ log := by
  induction log with
  | nil => cases h
  | cons e log ih =>
      obtain ⟨k', v'⟩ := e
      rw [lastEntry] at h
      cases hl : lastEntry k log with
      | some w =>
          rw [hl] at h
          exact List.mem_cons_of_mem _ (ih (hl.trans h))
      | none =>
          simp only [hl] at h
          split at h
          · next hk => rw [Option.some.injEq] at h; rw [hk, h]; exact List.mem_cons_self
          · cases h

/-- A key listed once has that entry as its last. -/
theorem lastEntry_eq_some_iff {log : List (κ × ν)} (hnd : (log.map Prod.fst).Nodup) {k : κ}
    {v : ν} : lastEntry k log = some v ↔ (k, v) ∈ log := by
  induction log with
  | nil => simp [lastEntry]
  | cons e log ih =>
      obtain ⟨k', v'⟩ := e
      rw [List.map_cons, List.nodup_cons] at hnd
      have ih' := ih hnd.2
      by_cases hk : k' = k
      · subst hk
        have hnone : lastEntry k' log = none := by
          cases h : lastEntry k' log with
          | none => rfl
          | some w =>
              have hmem : k' ∈ _ := List.mem_map_of_mem (f := Prod.fst) (lastEntry_some_mem h)
              exact absurd hmem hnd.1
        have hnot : (k', v) ∉ log := fun h =>
          hnd.1 (List.mem_map_of_mem (f := Prod.fst) h : k' ∈ _)
        simp only [lastEntry, hnone, if_true, List.mem_cons, hnot, or_false, Prod.mk.injEq,
          Option.some.injEq, true_and]
        exact eq_comm
      · have hne : (k, v) ≠ (k', v') := fun h => hk (congrArg Prod.fst h).symm
        rw [List.mem_cons, or_iff_right hne, ← ih', lastEntry]
        cases lastEntry k log with
        | none => simp only [hk, if_false]
        | some w => rfl

/-- A key has no last entry exactly when the log does not list it. -/
theorem lastEntry_eq_none_iff {log : List (κ × ν)} {k : κ} :
    lastEntry k log = none ↔ k ∉ log.map Prod.fst := by
  induction log with
  | nil => simp [lastEntry]
  | cons e log ih =>
      obtain ⟨k', v'⟩ := e
      rw [lastEntry, List.map_cons, List.mem_cons, not_or, ← ih]
      cases lastEntry k log with
      | some w => simp
      | none => simp [eq_comm]

/-- Of two logs the later one decides where it lists the key. -/
theorem lastEntry_append (xs ys : List (κ × ν)) (k : κ) :
    lastEntry k (xs ++ ys) = (lastEntry k ys).or (lastEntry k xs) := by
  induction xs with
  | nil =>
      show lastEntry k ys = (lastEntry k ys).or none
      rw [Option.or_none]
  | cons e xs ih =>
      obtain ⟨k', v⟩ := e
      rw [List.cons_append, lastEntry, lastEntry, ih]
      cases lastEntry k ys with
      | some w => rfl
      | none => rfl

/-! ## Replay -/

variable [Ord κ] [Std.TransOrd κ] [Std.LawfulEqOrd κ] (store : ν → Option β)

/-- One write: insert what `store` makes of the value, or erase the key. -/
def write (m : ExtTreeMap κ β) (e : κ × ν) : ExtTreeMap κ β :=
  match store e.2 with
  | some b => m.insert e.1 b
  | none => m.erase e.1

/-- Replay a whole log, oldest entry first. -/
def replay (m : ExtTreeMap κ β) (log : List (κ × ν)) : ExtTreeMap κ β :=
  log.foldl (write store) m

theorem getElem?_write (m : ExtTreeMap κ β) (e : κ × ν) (k : κ) :
    (write store m e)[k]? = if e.1 = k then store e.2 else m[k]? := by
  unfold write
  cases store e.2 with
  | some b =>
      show (m.insert e.1 b)[k]? = _
      rw [ExtTreeMap.getElem?_insert]
      simp only [Std.compare_eq_iff_eq]
  | none =>
      show (m.erase e.1)[k]? = _
      rw [ExtTreeMap.getElem?_erase]
      simp only [Std.compare_eq_iff_eq]

/-- **Last write wins.**  A replayed map holds at `k` what `store` makes of the last entry for
`k`, and its old content where the log does not list `k`. -/
theorem getElem?_replay (log : List (κ × ν)) (m : ExtTreeMap κ β) (k : κ) :
    (replay store m log)[k]? =
      match lastEntry k log with
      | some v => store v
      | none => m[k]? := by
  induction log generalizing m with
  | nil => rfl
  | cons e log ih =>
      obtain ⟨k', v⟩ := e
      show (replay store (write store m (k', v)) log)[k]? = _
      rw [ih, lastEntry]
      cases lastEntry k log with
      | some w => rfl
      | none =>
          rw [getElem?_write]
          by_cases hk : k' = k
          · simp only [hk, if_true]
          · simp only [hk, if_false]

/-- **Requoting.**  Delete entries first, then insert: where these between them list every key of
the map, nothing but what is inserted is left. -/
theorem getElem?_replay_requote {m : ExtTreeMap κ β} {deletes inserts : List (κ × ν)}
    (hdelete : ∀ e ∈ deletes, store e.2 = none)
    (hcover : ∀ k, m[k]? ≠ none → k ∈ deletes.map Prod.fst ∨ k ∈ inserts.map Prod.fst) (k : κ) :
    (replay store m (deletes ++ inserts))[k]? = (lastEntry k inserts).bind store := by
  rw [getElem?_replay, lastEntry_append]
  cases hins : lastEntry k inserts with
  | some v => rfl
  | none =>
      cases hdel : lastEntry k deletes with
      | some v => exact hdelete (k, v) (lastEntry_some_mem hdel)
      | none =>
          show m[k]? = none
          by_contra hm
          rcases hcover k hm with hk | hk
          · exact lastEntry_eq_none_iff.mp hdel hk
          · exact lastEntry_eq_none_iff.mp hins hk

end WriteLog

end CryptoTrader.Lib
