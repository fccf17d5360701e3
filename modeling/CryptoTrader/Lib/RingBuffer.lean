/-
# CryptoTrader.Lib.RingBuffer — a ring of `n` cells as the last `n` samples of a history.

A ring is a vector, the index that is written next and the number of cells in use.  `Holds` ties it
to the whole history of what was pushed: the cell `k` places behind the newest holds the sample `k`
places from the end of the history, for as many samples as fit.  Pushing keeps that, whatever the
ring held and however often it has wrapped, so reading it is reading the history (`lookback_eq`).
-/
import Mathlib.Data.Fin.Basic
import Mathlib.Data.List.Basic

namespace CryptoTrader.Lib.RingBuffer

variable {α : Type*} {n : Nat}

/-- The cell `k` places behind the newest one, when `head` is written next. -/
def cell (head : Fin n) (k : Nat) : Fin n :=
  ⟨(head + n - 1 - k) % n, Nat.mod_lt _ (Fin.pos head)⟩

/-- The ring holds the end of the history. -/
structure Holds (cells : Vector α n) (head : Fin n) (filled : Nat) (history : List α) : Prop where
  filled_eq : filled = min n history.length
  stored : ∀ k, k < filled → history.reverse[k]? = some (cells.get (cell head k))

theorem Holds.nil (cells : Vector α n) (head : Fin n) : Holds cells head 0 [] where
  filled_eq := (Nat.min_zero n).symm
  stored := fun _ hk => absurd hk (Nat.not_lt_zero _)

/-- The place after `head`, around the end. -/
def next (head : Fin n) : Fin n := ⟨(head + 1) % n, Nat.mod_lt _ (Fin.pos head)⟩

/-- After a push the newest cell is the one just written. -/
theorem cell_next_zero (head : Fin n) : cell (next head) 0 = head := by
  have hlt := head.isLt
  apply Fin.ext
  show ((head + 1) % n + n - 1 - 0) % n = head
  rcases Nat.lt_or_ge (head + 1) n with h | h
  · rw [Nat.mod_eq_of_lt h, Nat.sub_zero, Nat.add_right_comm, Nat.add_sub_cancel,
      Nat.add_mod_right, Nat.mod_eq_of_lt hlt]
  · have hlast : (head : Nat) + 1 = n := by omega
    rw [hlast, Nat.mod_self, Nat.zero_add, Nat.sub_zero, Nat.mod_eq_of_lt (by omega)]
    omega

/-- And every other cell is one place further behind. -/
theorem cell_next_succ (head : Fin n) {k : Nat} (hk : k + 1 < n) :
    cell (next head) (k + 1) = cell head k := by
  have hlt := head.isLt
  apply Fin.ext
  show ((head + 1) % n + n - 1 - (k + 1)) % n = (head + n - 1 - k) % n
  rcases Nat.lt_or_ge (head + 1) n with h | h
  · rw [Nat.mod_eq_of_lt h]
    congr 1
    omega
  · have hlast : (head : Nat) + 1 = n := by omega
    rw [hlast, Nat.mod_self]
    have hwrap : (head : Nat) + n - 1 - k = (0 + n - 1 - (k + 1)) + n := by omega
    rw [hwrap, Nat.add_mod_right]

/-- Only the newest cell is the one written. -/
theorem cell_ne_head (head : Fin n) {k : Nat} (hk : k + 1 < n) : cell head k ≠ head := by
  have hlt := head.isLt
  intro h
  have hval : ((head : Nat) + n - 1 - k) % n = head := congrArg Fin.val h
  rcases Nat.lt_or_ge ((head : Nat) + n - 1 - k) n with hsmall | hbig
  · rw [Nat.mod_eq_of_lt hsmall] at hval
    omega
  · rw [Nat.mod_eq_sub_mod hbig, Nat.mod_eq_of_lt (by omega)] at hval
    omega

theorem get_set_self (cells : Vector α n) (i : Fin n) (x : α) : (cells.set i x).get i = x :=
  Vector.getElem_set_self i.isLt

theorem get_set_ne (cells : Vector α n) {i j : Fin n} (x : α) (h : i ≠ j) :
    (cells.set i x).get j = cells.get j :=
  Vector.getElem_set_ne i.isLt j.isLt fun heq => h (Fin.ext heq)

/-- **Pushing** a sample: write it at `head` and move on. -/
theorem Holds.push {cells : Vector α n} {head : Fin n} {filled : Nat} {history : List α}
    (h : Holds cells head filled history) (x : α) :
    Holds (cells.set head x) (next head) (if filled < n then filled + 1 else filled)
      (history ++ [x]) := by
  have hfilled := h.filled_eq
  refine ⟨?_, ?_⟩
  · rw [List.length_append, List.length_singleton]
    split <;> omega
  · intro k hk
    rw [List.reverse_append, List.reverse_singleton, List.singleton_append]
    cases k with
    | zero => rw [List.getElem?_cons_zero, cell_next_zero, get_set_self]
    | succ k =>
        have hpos := Fin.pos head
        have hroom : k + 1 < n := by split at hk <;> omega
        have hold : k < filled := by split at hk <;> omega
        rw [List.getElem?_cons_succ, cell_next_succ head hroom, h.stored k hold,
          get_set_ne cells x (cell_ne_head head hroom).symm]

/-- **Looking back** `k` samples: there are that many exactly when more than `k` cells are in use,
and then the cell holds the sample. -/
theorem Holds.lookback_eq {cells : Vector α n} {head : Fin n} {filled : Nat} {history : List α}
    (h : Holds cells head filled history) {k : Nat} (hk : k < n) :
    (if filled ≤ k then none else some (cells.get (cell head k))) = history.reverse[k]? := by
  have hfilled := h.filled_eq
  split
  · next hle =>
      rw [List.getElem?_eq_none]
      rw [List.length_reverse]
      omega
  · next hlt => exact (h.stored k (Nat.lt_of_not_le hlt)).symm

end CryptoTrader.Lib.RingBuffer
