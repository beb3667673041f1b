import Mathlib.Computability.Language

namespace VideoPackages.Languages

/-!
# Bounded repetition in a language

* `upTo` — up to `n` texts of a language, one after the other;
* `upTo_sub_one` — empty texts do not count;
* `mem_kstar_iff_upTo` — among short texts, any number of texts is a bounded number.
-/

open Computability

section UpTo

variable {α : Type*} {L : Language α} {w : List α} {n : ℕ}

/-- Up to `n` texts of a language, one after the other. -/
def upTo (L : Language α) (n : ℕ) : Language α := {w | ∃ k, k ≤ n ∧ w ∈ L ^ k}

theorem mem_upTo : w ∈ upTo L n ↔ ∃ k, k ≤ n ∧ w ∈ L ^ k := Iff.rfl

/-- No repetition is the empty text. -/
theorem upTo_zero (L : Language α) : upTo L 0 = 1 := by
  ext w
  rw [mem_upTo]
  constructor
  · rintro ⟨k, hk, hw⟩
    obtain rfl : k = 0 := Nat.le_zero.mp hk
    rwa [pow_zero] at hw
  · exact fun hw => ⟨0, le_rfl, by rwa [pow_zero]⟩

/-- One repetition more, or none. -/
theorem upTo_succ (L : Language α) (n : ℕ) : upTo L (n + 1) = 1 + L * upTo L n := by
  ext w
  rw [mem_upTo, Language.mem_add, Language.mem_mul]
  constructor
  · rintro ⟨k, hk, hw⟩
    cases k with
    | zero => exact .inl (by rwa [pow_zero] at hw)
    | succ k =>
      rw [pow_succ', Language.mem_mul] at hw
      obtain ⟨a, ha, b, hb, hab⟩ := hw
      exact .inr ⟨a, ha, b, ⟨k, Nat.le_of_succ_le_succ hk, hb⟩, hab⟩
  · rintro (hw | ⟨a, ha, b, ⟨k, hk, hb⟩, hab⟩)
    · exact ⟨0, Nat.zero_le _, by rwa [pow_zero]⟩
    · refine ⟨k + 1, Nat.succ_le_succ hk, ?_⟩
      rw [pow_succ', Language.mem_mul]
      exact ⟨a, ha, b, hb, hab⟩

theorem mem_sub_one : w ∈ L - 1 ↔ w ∈ L ∧ w ≠ [] := Iff.rfl

/-- Empty texts do not count. -/
theorem upTo_sub_one (L : Language α) (n : ℕ) : upTo (L - 1) n = upTo L n := by
  induction n with
  | zero => rw [upTo_zero, upTo_zero]
  | succ n ih =>
    ext w
    rw [upTo_succ, upTo_succ, ih, Language.mem_add, Language.mem_add, Language.mem_mul,
      Language.mem_mul]
    constructor
    · rintro (hw | ⟨a, ha, b, hb, hab⟩)
      · exact .inl hw
      · exact .inr ⟨a, (mem_sub_one.mp ha).1, b, hb, hab⟩
    · rintro (hw | ⟨a, ha, b, hb, rfl⟩)
      · exact .inl hw
      · by_cases hnil : a = []
        · subst hnil
          rw [List.nil_append, ← Language.mem_mul, ← Language.mem_add, ← ih, ← upTo_succ]
          obtain ⟨k, hk, hb⟩ := ih ▸ hb
          exact ⟨k, hk.trans n.le_succ, hb⟩
        · exact .inr ⟨a, mem_sub_one.mpr ⟨ha, hnil⟩, b, hb, rfl⟩

/-- A text of length `n` at most is made of `n` texts at most. -/
theorem mem_kstar_iff_upTo (hw : w.length ≤ n) : w ∈ L∗ ↔ w ∈ upTo L n := by
  constructor
  · intro h
    obtain ⟨S, rfl, hS⟩ := Language.mem_kstar_iff_exists_nonempty.mp h
    have hlen : S.length ≤ S.flatten.length := by
      clear h hw
      induction S with
      | nil => exact le_rfl
      | cons a S ih =>
        have ha := List.length_pos_iff.mpr (hS a List.mem_cons_self).2
        have := ih fun y hy => hS y (List.mem_cons_of_mem _ hy)
        rw [List.flatten_cons, List.length_append, List.length_cons]
        omega
    exact ⟨S.length, hlen.trans hw, Language.mem_pow.mpr ⟨S, rfl, rfl, fun y hy => (hS y hy).1⟩⟩
  · rintro ⟨k, -, h⟩
    obtain ⟨S, rfl, -, hS⟩ := Language.mem_pow.mp h
    exact Language.join_mem_kstar hS

end UpTo

end VideoPackages.Languages
