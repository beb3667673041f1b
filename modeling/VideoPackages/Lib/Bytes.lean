import Mathlib.Algebra.Ring.Nat
import Mathlib.Data.List.Basic
import Mathlib.Tactic.Common

namespace VideoPackages.Bytes

/-!
# Little-endian numbers in byte arrays

A pointer into an array is the rest of the array from there on.

* `putLE` / `getLE` — a number of `w` bytes; `getLE_putLE`;
* `drop_flatMap` — the records of an array of records of one size.
-/

/-- A number in `w` bytes. -/
def putLE : ℕ → ℕ → List ℕ
  | 0, _ => []
  | w + 1, v => v % 256 :: putLE w (v / 256)

/-- The number in the `w` bytes at a pointer. -/
def getLE : ℕ → List ℕ → ℕ
  | 0, _ => 0
  | w + 1, bs => bs.headD 0 + 256 * getLE w bs.tail

@[simp] theorem length_putLE (w v : ℕ) : (putLE w v).length = w := by
  induction w generalizing v with
  | zero => rfl
  | succ w ih => rw [putLE, List.length_cons, ih]

/-- **Round trip.** -/
theorem getLE_putLE {w v : ℕ} (hv : v < 256 ^ w) (rest : List ℕ) :
    getLE w (putLE w v ++ rest) = v := by
  induction w generalizing v with
  | zero => rw [getLE]; omega
  | succ w ih =>
    rw [putLE, List.cons_append, getLE, List.headD_cons, List.tail_cons,
      ih (Nat.div_lt_of_lt_mul (by rwa [Nat.pow_succ'] at hv))]
    omega

section Records

variable {α : Type*} {enc : α → List ℕ} {size : ℕ}

/-- Encodings of one size take as much room as there are values. -/
theorem length_flatMap (henc : ∀ a, (enc a).length = size) (as : List α) :
    (as.flatMap enc).length = as.length * size := by
  induction as with
  | nil => rw [List.flatMap_nil, List.length_nil, List.length_nil, Nat.zero_mul]
  | cons a as ih =>
    rw [List.flatMap_cons, List.length_append, henc, ih, List.length_cons, Nat.succ_mul,
      Nat.add_comm]

/-- The pointer to a record. -/
theorem drop_flatMap (henc : ∀ a, (enc a).length = size) {as : List α} {i : ℕ}
    (hi : i ≤ as.length) (rest : List ℕ) :
    (as.flatMap enc ++ rest).drop (i * size) = (as.drop i).flatMap enc ++ rest := by
  induction i generalizing as with
  | zero => rw [Nat.zero_mul, List.drop_zero, List.drop_zero]
  | succ i ih =>
    cases as with
    | nil => exact absurd hi (by simp)
    | cons a as =>
      rw [List.flatMap_cons, List.append_assoc, Nat.succ_mul, Nat.add_comm, ← List.drop_drop,
        List.drop_left' (henc a), ih (by simpa using hi), List.drop_succ_cons]

end Records

end VideoPackages.Bytes
