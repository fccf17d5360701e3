/-
# CryptoTrader.Lib.RecentWindow — a set and a queue that remember the last entries of a log.

A window answers "is this among the last `cap` entries?" in one look at a set, and keeps a queue
next to the set to know which entry to forget.  The two are kept in step by hand: a full window pops
the oldest entry and erases it from the set, and then the new entry goes into both.  Erasing is
right because the queue has no duplicates, and the queue has none because an entry that the set
knows is turned away.  `Remembers` is that circle as one invariant; `Remembers.push` goes round it
once.
-/
import Mathlib.Data.Finset.Dedup
import Mathlib.Data.Finset.BooleanAlgebra
import Mathlib.Data.List.DropRight

namespace CryptoTrader.Lib.RecentWindow

variable {α : Type*}

/-! ## The last entries of a log -/

theorem length_rtake (log : List α) (n : Nat) : (log.rtake n).length = min log.length n := by
  unfold List.rtake
  rw [List.length_drop]
  omega

theorem rtake_suffix (log : List α) (n : Nat) : log.rtake n <:+ log := List.drop_suffix ..

/-- What a log ends with, if it is no longer than the window, is in the window. -/
theorem suffix_rtake {log run : List α} {n : Nat} (h : run <:+ log) (hlen : run.length ≤ n) :
    run <:+ log.rtake n := by
  refine List.suffix_of_suffix_length_le h (rtake_suffix log n) ?_
  rw [length_rtake]
  exact le_min h.length_le hlen

/-- The window one entry later: full, it loses its oldest entry first. -/
theorem rtake_concat (log : List α) (x : α) {n : Nat} (hn : 0 < n) :
    (log ++ [x]).rtake n
      = (if (log.rtake n).length ≥ n then (log.rtake n).tail else log.rtake n) ++ [x] := by
  obtain ⟨m, rfl⟩ := Nat.exists_eq_succ_of_ne_zero hn.ne'
  rw [List.rtake_concat_succ, length_rtake]
  congr 1
  unfold List.rtake
  split
  · next hfull =>
      rw [List.tail_drop]
      congr 1
      omega
  · next hroom =>
      congr 1
      omega

/-! ## The window -/

variable [DecidableEq α]

/-- Forget the oldest entry of a full window, and add a new one. -/
def push (cap : Nat) (ids : Finset α) (queue : List α) (x : α) : Finset α × List α :=
  let (ids, queue) :=
    if queue.length ≥ cap then
      match queue with
      | oldest :: rest => (ids.erase oldest, rest)
      | [] => (ids, [])
    else (ids, queue)
  (insert x ids, queue ++ [x])

/-- **The window remembers the last `cap` entries of the log**: as a queue in order, as a set, and
without duplicates.  Every longer stretch of the log, by one, has no duplicates either. -/
structure Remembers (cap : Nat) (log : List α) (ids : Finset α) (queue : List α) : Prop where
  in_order : queue = log.rtake cap
  nodup : queue.Nodup
  same : ids = queue.toFinset
  stretches : ∀ run, run <:+: log → run.length ≤ cap + 1 → run.Nodup

theorem Remembers.nil (cap : Nat) : Remembers cap ([] : List α) ∅ [] where
  in_order := (List.rtake_nil cap).symm
  nodup := List.nodup_nil
  same := rfl
  stretches run h _ := by
    rw [List.infix_nil.mp h]
    exact List.nodup_nil

section

variable {cap : Nat} {log : List α} {ids : Finset α} {queue : List α}

/-- Looking in the set is looking in the queue. -/
theorem Remembers.mem_ids (h : Remembers cap log ids queue) {x : α} : x ∈ ids ↔ x ∈ queue := by
  rw [h.same, List.mem_toFinset]

/-- **A new entry.** -/
theorem Remembers.push (h : Remembers cap log ids queue) (hcap : 0 < cap) {x : α}
    (hfresh : x ∉ ids) :
    Remembers cap (log ++ [x]) (push cap ids queue x).1 (push cap ids queue x).2 := by
  have hnew : x ∉ queue := fun hx => hfresh (h.mem_ids.mpr hx)
  have hlast := rtake_concat log x hcap
  rw [← h.in_order] at hlast
  have hrun : ∀ run, run <:+: log ++ [x] → run.length ≤ cap + 1 → run.Nodup := by
    intro run hinfix hlen
    rcases List.infix_concat_iff.mp hinfix with hsuffix | hinfix
    · rcases List.suffix_concat_iff.mp hsuffix with rfl | ⟨before, rfl, hbefore⟩
      · exact List.nodup_nil
      · rw [List.length_append, List.length_singleton] at hlen
        have hwindow : before <:+ queue := by
          rw [h.in_order]
          exact suffix_rtake hbefore (by omega)
        exact List.nodup_append'.mpr ⟨hwindow.sublist.nodup h.nodup, List.nodup_singleton x,
          List.disjoint_singleton.mpr fun hx => hnew (hwindow.subset hx)⟩
    · exact h.stretches run hinfix hlen
  unfold RecentWindow.push
  by_cases hfull : queue.length ≥ cap
  · rw [if_pos hfull] at hlast ⊢
    cases queue with
    | nil =>
        exact absurd hfull (not_le.mpr hcap)
    | cons oldest rest =>
        obtain ⟨hold, hrest⟩ := List.nodup_cons.mp h.nodup
        have hx : x ∉ rest := fun hx => hnew (List.mem_cons_of_mem oldest hx)
        refine ⟨hlast.symm, ?_, ?_, hrun⟩
        · exact List.nodup_append'.mpr ⟨hrest, List.nodup_singleton x,
            List.disjoint_singleton.mpr hx⟩
        · show insert x (ids.erase oldest) = (rest ++ [x]).toFinset
          have herase : (insert oldest rest.toFinset).erase oldest = rest.toFinset :=
            Finset.erase_insert fun hmem => hold (List.mem_toFinset.mp hmem)
          rw [h.same, List.toFinset_cons, herase, List.toFinset_append, List.toFinset_cons,
            List.toFinset_nil, Finset.union_comm]
          rfl
  · rw [if_neg hfull] at hlast ⊢
    refine ⟨hlast.symm, ?_, ?_, hrun⟩
    · exact List.nodup_append'.mpr ⟨h.nodup, List.nodup_singleton x,
        List.disjoint_singleton.mpr hnew⟩
    · show insert x ids = (queue ++ [x]).toFinset
      rw [h.same, List.toFinset_append, List.toFinset_cons, List.toFinset_nil, Finset.union_comm]
      rfl

end

end CryptoTrader.Lib.RecentWindow
