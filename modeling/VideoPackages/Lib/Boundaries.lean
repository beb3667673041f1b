import Mathlib.Data.List.Induction
import Mathlib.Order.Lattice
import Mathlib.Tactic.Common

namespace VideoPackages.Boundaries

/-!
# Sets as sorted lists of boundary points

A list of points stands for the set of what has an odd number of points at or below it: what lies
from the first point up to the second, from the third up to the fourth, and so on.

* `inside` — the set of a list;
* `inside_pair` — the same, interval by interval; `inside_ext` — strictly sorted lists with the same
  set are the same list;
* `compress` — empty intervals are dropped, and intervals that touch are joined;
  `inside_compress`, `compress_sorted`.
-/

variable {α : Type*} [LinearOrder α] {pts qts : List α} {a b c s e : α}

/-- Whether `c` is in the set of the points. -/
def inside : List α → α → Bool
  | [], _ => false
  | p :: pts, c => decide (p ≤ c) ^^ inside pts c

theorem inside_cons (p : α) (pts : List α) (c : α) :
    inside (p :: pts) c = (decide (p ≤ c) ^^ inside pts c) := rfl

/-- Two lists of boundaries cancel where both have a value inside. -/
theorem inside_append (pts qts : List α) (c : α) :
    inside (pts ++ qts) c = (inside pts c ^^ inside qts c) := by
  induction pts with
  | nil => exact (Bool.false_xor _).symm
  | cons p pts ih => rw [List.cons_append, inside, inside, ih, Bool.xor_assoc]

/-- Nothing is inside below all points. -/
theorem inside_below (h : ∀ p ∈ pts, c < p) : inside pts c = false := by
  induction pts with
  | nil => rfl
  | cons p pts ih =>
    rw [inside, ih fun q hq => h q (List.mem_cons_of_mem _ hq),
      decide_eq_false (not_le_of_gt (h p List.mem_cons_self))]
    rfl

/-- Nothing is inside above all points, when they come in pairs. -/
theorem inside_above (h : ∀ p ∈ pts, p ≤ c) : inside pts c = decide (pts.length % 2 = 1) := by
  induction pts with
  | nil => rfl
  | cons p pts ih =>
    rw [inside, ih fun q hq => h q (List.mem_cons_of_mem _ hq),
      decide_eq_true (h p List.mem_cons_self), List.length_cons, Bool.true_xor]
    by_cases hodd : pts.length % 2 = 1
    · rw [decide_eq_true hodd, decide_eq_false (by omega)]; rfl
    · rw [decide_eq_false hodd, decide_eq_true (by omega)]; rfl

/-- A boundary that stands twice is none. -/
theorem inside_twice (a : α) (pts : List α) (c : α) : inside (a :: a :: pts) c = inside pts c := by
  rw [inside, inside, ← Bool.xor_assoc, Bool.xor_self, Bool.false_xor]

/-- The first interval, and the rest. -/
theorem inside_pair (hab : a ≤ b) (hb : ∀ p ∈ pts, b ≤ p) :
    inside (a :: b :: pts) c = true ↔ a ≤ c ∧ c < b ∨ inside pts c = true := by
  rw [inside, inside]
  by_cases hbc : b ≤ c
  · simp [hbc, le_trans hab hbc, not_lt_of_ge hbc]
  · have hcb := lt_of_not_ge hbc
    simp [hbc, hcb, inside_below fun p hp => lt_of_lt_of_le hcb (hb p hp)]

/-- **Canonical form.**  Strictly sorted lists with the same set are the same. -/
theorem inside_ext (hp : pts.Pairwise (· < ·)) (hq : qts.Pairwise (· < ·))
    (h : ∀ c, inside pts c = inside qts c) : pts = qts := by
  -- the first point of either list is inside that list only
  have hfirst : ∀ {p : α} {ps : List α}, (p :: ps).Pairwise (· < ·) → inside (p :: ps) p = true :=
    fun hps => by
      rw [inside, decide_eq_true le_rfl, inside_below (List.pairwise_cons.mp hps).1]; rfl
  induction pts generalizing qts with
  | nil =>
    cases qts with
    | nil => rfl
    | cons q qts => exact absurd ((h q).trans (hfirst hq)) Bool.false_ne_true
  | cons p pts ih =>
    cases qts with
    | nil => exact absurd ((h p).symm.trans (hfirst hp)) Bool.false_ne_true
    | cons q qts =>
      have hpq : p = q := by
        rcases lt_trichotomy p q with hlt | heq | hlt
        · refine absurd ((h p).symm.trans (hfirst hp)) ?_
          rw [inside_below fun r hr => ?_]
          · exact Bool.false_ne_true
          · rcases List.mem_cons.mp hr with rfl | hr
            · exact hlt
            · exact lt_trans hlt ((List.pairwise_cons.mp hq).1 r hr)
        · exact heq
        · refine absurd ((h q).trans (hfirst hq)) ?_
          rw [inside_below fun r hr => ?_]
          · exact Bool.false_ne_true
          · rcases List.mem_cons.mp hr with rfl | hr
            · exact hlt
            · exact lt_trans hlt ((List.pairwise_cons.mp hp).1 r hr)
      subst hpq
      rw [ih (List.pairwise_cons.mp hp).2 (List.pairwise_cons.mp hq).2 fun c => ?_]
      have hc := h c
      rw [inside, inside] at hc
      exact Bool.xor_right_inj.mp hc

/-! ### Joining intervals -/

mutual

/-- Empty intervals are dropped, and intervals that touch are joined. -/
def compress : List α → List α
  | x :: y :: rest => if x = y then compress rest else compressFrom x y rest
  | _ => []

/-- The same, with an interval before the list that may still grow. -/
def compressFrom (s e : α) : List α → List α
  | x :: y :: rest =>
    if e = x then compressFrom s y rest
    else s :: e :: (if x = y then compress rest else compressFrom x y rest)
  | _ => [s, e]

end

/-- A boundary alone bounds nothing. -/
theorem compress_short (h : pts.length ≤ 1) : compress pts = [] := by
  cases pts with
  | nil => simp [compress]
  | cons x pts =>
    obtain rfl : pts = [] := List.length_eq_zero_iff.mp (by simpa using h)
    simp [compress]

/-- The last interval is kept as it is. -/
theorem compressFrom_short (s e : α) (h : pts.length ≤ 1) : compressFrom s e pts = [s, e] := by
  cases pts with
  | nil => simp [compressFrom]
  | cons x pts =>
    obtain rfl : pts = [] := List.length_eq_zero_iff.mp (by simpa using h)
    simp [compressFrom]

/-- An interval that begins where the last one ends is joined to it. -/
theorem compressFrom_cons_cons (s e x y : α) (rest : List α) :
    compressFrom s e (x :: y :: rest)
      = if e = x then compressFrom s y rest else s :: e :: compress (x :: y :: rest) := by
  rw [compressFrom, compress]

/-- What `compress` does with a list, and with an interval before it. -/
structure Compressed (pts : List α) : Prop where
  inside : ∀ c, inside (compress pts) c = inside pts c
  insideFrom : ∀ s e c, Boundaries.inside (compressFrom s e pts) c
    = Boundaries.inside (s :: e :: pts) c
  mem : ∀ p ∈ compress pts, p ∈ pts
  memFrom : ∀ s e, ∀ p ∈ compressFrom s e pts, p ∈ s :: e :: pts
  even : (compress pts).length % 2 = 0
  evenFrom : ∀ s e, (compressFrom s e pts).length % 2 = 0
  length : (compress pts).length ≤ pts.length
  lengthFrom : ∀ s e, (compressFrom s e pts).length ≤ pts.length + 2
  sorted : pts.Pairwise (· ≤ ·) → (compress pts).Pairwise (· < ·)
  sortedFrom : ∀ s e, s < e → (s :: e :: pts).Pairwise (· ≤ ·) →
    (compressFrom s e pts).Pairwise (· < ·)

/-- Whole intervals come out increasing, and with the same values inside. -/
theorem compressed (heven : pts.length % 2 = 0) : Compressed pts := by
  induction pts using List.twoStepInduction with
  | nil =>
    have hnil : ∀ s e : α, compressFrom s e [] = [s, e] := fun s e => by rw [compressFrom]; simp
    refine ⟨fun _ => rfl, fun s e c => by rw [hnil], fun _ => id, fun s e p hp => ?_, rfl,
      fun s e => by simp [hnil], Nat.le_refl _, fun s e => by simp [hnil], fun _ => .nil,
      fun s e hse _ => ?_⟩
    · rwa [hnil] at hp
    · rw [hnil]
      simpa using hse
  | singleton x => simp at heven
  | cons_cons x y rest ih _ =>
    have h := ih (by simp only [List.length_cons] at heven; omega)
    -- both functions call each other on two points less, so one induction proves the two
    have hcompress : compress (x :: y :: rest)
        = if x = y then compress rest else compressFrom x y rest := by rw [compress]
    have hinside : ∀ c, inside (compress (x :: y :: rest)) c = inside (x :: y :: rest) c := by
      intro c
      rw [hcompress]
      split
      · rename_i hxy
        rw [h.inside, hxy, inside_twice]
      · exact h.insideFrom x y c
    have hmem : ∀ p ∈ compress (x :: y :: rest), p ∈ x :: y :: rest := by
      intro p hp
      rw [hcompress] at hp
      split at hp
      · exact List.mem_cons_of_mem _ (List.mem_cons_of_mem _ (h.mem p hp))
      · exact h.memFrom x y p hp
    have heven' : (compress (x :: y :: rest)).length % 2 = 0 := by
      rw [hcompress]
      split
      · exact h.even
      · exact h.evenFrom x y
    have hlength : (compress (x :: y :: rest)).length ≤ rest.length + 2 := by
      rw [hcompress]
      split
      · exact Nat.le_trans h.length (Nat.le_add_right _ _)
      · exact h.lengthFrom x y
    have hsorted : (x :: y :: rest).Pairwise (· ≤ ·) →
        (compress (x :: y :: rest)).Pairwise (· < ·) := by
      intro hle
      rw [hcompress]
      split
      · exact h.sorted (List.pairwise_cons.mp (List.pairwise_cons.mp hle).2).2
      · rename_i hxy
        have hlt := lt_of_le_of_ne ((List.pairwise_cons.mp hle).1 y List.mem_cons_self) hxy
        exact h.sortedFrom x y hlt hle
    refine ⟨hinside, fun s e c => ?_, hmem, fun s e p hp => ?_, heven', fun s e => ?_, hlength,
      fun s e => ?_, hsorted, fun s e hse hle => ?_⟩
    · rw [compressFrom_cons_cons]
      split
      · rename_i hex
        rw [h.insideFrom, hex, inside_cons s, inside_cons s, inside_twice]
      · simp only [inside_cons, hinside]
    · rw [compressFrom_cons_cons] at hp
      split at hp
      · rcases List.mem_cons.mp (h.memFrom s y p hp) with rfl | hp
        · exact List.mem_cons_self
        · exact List.mem_cons_of_mem _ (List.mem_cons_of_mem _ (List.mem_cons_of_mem _ hp))
      · rcases List.mem_cons.mp hp with rfl | hp
        · exact List.mem_cons_self
        · rcases List.mem_cons.mp hp with rfl | hp
          · exact List.mem_cons_of_mem _ List.mem_cons_self
          · exact List.mem_cons_of_mem _ (List.mem_cons_of_mem _ (hmem p hp))
    · rw [compressFrom_cons_cons]
      split
      · exact h.evenFrom s y
      · rw [List.length_cons, List.length_cons]
        omega
    · rw [compressFrom_cons_cons, List.length_cons, List.length_cons]
      split
      · have := h.lengthFrom s y
        omega
      · rw [List.length_cons, List.length_cons]
        omega
    · -- `s < e ≤ x ≤ y`: the intervals touch, or there is a gap between them
      obtain ⟨hs, hle₁⟩ := List.pairwise_cons.mp hle
      obtain ⟨he, hle₂⟩ := List.pairwise_cons.mp hle₁
      obtain ⟨hx, hle₃⟩ := List.pairwise_cons.mp hle₂
      rw [compressFrom_cons_cons]
      split
      · refine h.sortedFrom s y ?_ (List.pairwise_cons.mpr ⟨fun p hp => ?_, hle₃⟩)
        · exact lt_of_lt_of_le hse (he y (by simp))
        · exact hs p (List.mem_cons_of_mem _ (List.mem_cons_of_mem _ hp))
      · rename_i hex
        have hlt : ∀ p ∈ x :: y :: rest, e < p := fun p hp => by
          have hxp : x ≤ p := by
            rcases List.mem_cons.mp hp with rfl | hp
            · exact le_rfl
            · exact hx p hp
          exact lt_of_lt_of_le (lt_of_le_of_ne (he x List.mem_cons_self) hex) hxp
        refine List.pairwise_cons.mpr ⟨fun p hp => ?_, List.pairwise_cons.mpr
          ⟨fun p hp => hlt p (hmem p hp), hsorted hle₂⟩⟩
        rcases List.mem_cons.mp hp with rfl | hp
        · exact hse
        · exact lt_trans hse (hlt p (hmem p hp))

end VideoPackages.Boundaries
