import Mathlib.Data.List.Basic
import Mathlib.Data.List.Infix
import Mathlib.Tactic.Common

namespace VideoPackages.Glob

/-!
# Patterns with `*`, and joined paths

A pattern is matched against a whole text; `*` stands for any text of the characters that it
may stand for.  Some tools let it stand for every character, others stop it at a separator.

* `globMatch` — the matcher, by recursion on the pattern;
* `globMatch_lits` / `globMatch_star` — what a literal text and a `*` match;
* `joined` — a path as text: components joined by a separator that occurs in none of them;
* `prefix_iff` — `d/*` matches the paths strictly below `d`;
* `infix_iff` — `**/w/*` matches the paths that have `w` as a component, neither the first
  nor the last.
-/

variable {α : Type*}

/-- One character of a pattern. -/
inductive Token (α : Type*) where
  | lit (a : α)
  | star
  deriving DecidableEq, Repr

/-- A pattern whose only special character is `*`. -/
def pattern (s : String) : List (Token Char) :=
  s.toList.map fun c => if c = '*' then .star else .lit c

/-- What may be left of a text after a `*` that stands for characters with `ok`. -/
def tailsAfter (ok : α → Bool) : List α → List (List α)
  | [] => [[]]
  | a :: s => (a :: s) :: if ok a then tailsAfter ok s else []

/-- The whole text matches the pattern, where `*` stands for characters with `ok`. -/
def globMatch [DecidableEq α] (ok : α → Bool) : List (Token α) → List α → Bool
  | [], s => s.isEmpty
  | .lit _ :: _, [] => false
  | .lit a :: p, b :: s => decide (a = b) && globMatch ok p s
  | .star :: p, s => (tailsAfter ok s).any (globMatch ok p)

/-! ### The matcher -/

/-- The ends of a text in front of which only such characters stand. -/
theorem mem_tailsAfter {ok : α → Bool} {s v : List α} :
    v ∈ tailsAfter ok s ↔ ∃ u, s = u ++ v ∧ ∀ c ∈ u, ok c = true := by
  induction s with
  | nil =>
    rw [tailsAfter, List.mem_singleton]
    constructor
    · rintro rfl; exact ⟨[], rfl, by simp⟩
    · rintro ⟨u, hu, -⟩
      exact (List.append_eq_nil_iff.mp hu.symm).2
  | cons a s ih =>
    rw [tailsAfter, List.mem_cons]
    constructor
    · -- the star ends here, or it takes the character as well
      rintro (rfl | hv)
      · exact ⟨[], rfl, by simp⟩
      · split at hv
        · next ha =>
          obtain ⟨u, rfl, hu⟩ := ih.mp hv
          exact ⟨a :: u, rfl, List.forall_mem_cons.mpr ⟨ha, hu⟩⟩
        · cases hv
    · rintro ⟨u, hu, hok⟩
      cases u with
      | nil => exact .inl hu.symm
      | cons b u =>
        obtain ⟨rfl, rfl⟩ := List.cons.inj hu
        rw [List.forall_mem_cons] at hok
        rw [if_pos hok.1]
        exact .inr (ih.mpr ⟨u, rfl, hok.2⟩)

section Matcher

variable [DecidableEq α] {ok : α → Bool}

/-- `*` stands for any text of its characters. -/
theorem globMatch_star (p : List (Token α)) (s : List α) :
    globMatch ok (.star :: p) s = true ↔
      ∃ u v, s = u ++ v ∧ (∀ c ∈ u, ok c = true) ∧ globMatch ok p v = true := by
  rw [globMatch, List.any_eq_true]
  constructor
  · rintro ⟨v, hv, hp⟩
    obtain ⟨u, hu, hok⟩ := mem_tailsAfter.mp hv
    exact ⟨u, v, hu, hok, hp⟩
  · rintro ⟨u, v, hu, hok, hp⟩
    exact ⟨v, mem_tailsAfter.mpr ⟨u, hu, hok⟩, hp⟩

/-- A literal text stands for itself. -/
theorem globMatch_lits (l : List α) (p : List (Token α)) (s : List α) :
    globMatch ok (l.map .lit ++ p) s = true ↔ ∃ v, s = l ++ v ∧ globMatch ok p v = true := by
  induction l generalizing s with
  | nil => simp
  | cons a l ih =>
    rw [List.map_cons, List.cons_append]
    cases s with
    | nil => simp [globMatch]
    | cons b s =>
      rw [globMatch, Bool.and_eq_true, decide_eq_true_eq, ih]
      constructor
      · rintro ⟨rfl, v, rfl, hp⟩
        exact ⟨v, rfl, hp⟩
      · rintro ⟨v, hv, hp⟩
        obtain ⟨rfl, rfl⟩ := List.cons.inj hv
        exact ⟨rfl, v, rfl, hp⟩

/-- `l*` -/
theorem globMatch_lits_star (l s : List α) :
    globMatch ok (l.map .lit ++ [.star]) s = true ↔ ∃ v, s = l ++ v ∧ ∀ c ∈ v, ok c = true := by
  rw [globMatch_lits]
  refine exists_congr fun v => and_congr_right fun _ => ?_
  rw [globMatch_star]
  constructor
  · rintro ⟨u, w, rfl, hok, hw⟩
    have hnil : w = [] := List.isEmpty_iff.mp hw
    rwa [hnil, List.append_nil]
  · intro hok
    exact ⟨v, [], (List.append_nil v).symm, hok, rfl⟩

/-- `**l*`, where `*` stands for every text: two stars are one. -/
theorem globMatch_infix (l s : List α) :
    globMatch (fun _ => true) (.star :: .star :: (l.map .lit ++ [.star])) s = true ↔
      ∃ u v, s = u ++ (l ++ v) := by
  rw [globMatch_star]
  constructor
  · rintro ⟨u₁, s₁, rfl, -, h⟩
    obtain ⟨u₂, s₂, rfl, -, h₂⟩ := (globMatch_star _ _).mp h
    obtain ⟨v, rfl, -⟩ := (globMatch_lits_star l s₂).mp h₂
    exact ⟨u₁ ++ u₂, v, (List.append_assoc u₁ u₂ _).symm⟩
  · rintro ⟨u, v, rfl⟩
    refine ⟨u, l ++ v, rfl, fun _ _ => rfl, (globMatch_star _ _).mpr ⟨[], l ++ v, rfl, ?_, ?_⟩⟩
    · exact fun _ _ => rfl
    · exact (globMatch_lits_star l _).mpr ⟨v, rfl, fun _ _ => rfl⟩

end Matcher

/-! ### Joined paths -/

/-- The components with the separator between them. -/
def joined (sep : α) : List (List α) → List α
  | [] => []
  | [c] => c
  | c :: d :: cs => c ++ sep :: joined sep (d :: cs)

section Joined

variable {sep : α}

/-- Two separators: the one written out is the first, or it comes later. -/
theorem sep_cases {c u x j : List α} (hc : sep ∉ c) (h : c ++ sep :: j = u ++ sep :: x) :
    (c = u ∧ j = x) ∨ ∃ u', u = c ++ sep :: u' ∧ j = u' ++ sep :: x := by
  induction c generalizing u with
  | nil =>
    cases u with
    | nil => exact .inl ⟨rfl, (List.cons.inj h).2⟩
    | cons a u =>
      obtain ⟨rfl, hj⟩ := List.cons.inj h
      exact .inr ⟨u, rfl, hj⟩
  | cons a c ih =>
    rw [List.mem_cons, not_or] at hc
    cases u with
    | nil => exact absurd (List.cons.inj h).1.symm hc.1
    | cons b u =>
      obtain ⟨rfl, ht⟩ := List.cons.inj h
      rcases ih hc.2 ht with ⟨rfl, hj⟩ | ⟨u', rfl, hj⟩
      · exact .inl ⟨rfl, hj⟩
      · exact .inr ⟨u', rfl, hj⟩

/-- The first separator of a joined path ends its first component. -/
theorem joined_eq_iff {c x y : List α} {cs : List (List α)} (hc : sep ∉ c) (hx : sep ∉ x) :
    joined sep (c :: cs) = x ++ sep :: y ↔ c = x ∧ cs ≠ [] ∧ joined sep cs = y := by
  cases cs with
  | nil =>
    constructor
    · intro h
      have hmem : sep ∈ c := by
        rw [show c = x ++ sep :: y from h]; simp
      exact absurd hmem hc
    · rintro ⟨-, h, -⟩
      exact absurd rfl h
  | cons d cs =>
    rw [joined]
    constructor
    · intro h
      rcases sep_cases hc h with ⟨rfl, hj⟩ | ⟨u, rfl, -⟩
      · exact ⟨rfl, by simp, hj⟩
      · exact absurd (by simp) hx
    · rintro ⟨rfl, -, hy⟩
      rw [← hy]

/-- **Below a directory.** -/
theorem prefix_iff {d : List α} {p : List (List α)} (hp : ∀ c ∈ p, sep ∉ c) (hd : sep ∉ d) :
    (∃ v, joined sep p = d ++ [sep] ++ v) ↔ ∃ q, q ≠ [] ∧ p = d :: q := by
  cases p with
  | nil =>
    constructor
    · rintro ⟨v, hv⟩
      have hlen := congrArg List.length hv
      simp [joined] at hlen
    · rintro ⟨q, -, hq⟩
      cases hq
  | cons c cs =>
    have hc : sep ∉ c := hp c List.mem_cons_self
    constructor
    · rintro ⟨v, hv⟩
      rw [List.append_assoc] at hv
      obtain ⟨rfl, hcs, -⟩ := (joined_eq_iff hc hd).mp hv
      exact ⟨cs, hcs, rfl⟩
    · rintro ⟨q, hq, hpq⟩
      obtain ⟨rfl, rfl⟩ := List.cons.inj hpq
      refine ⟨joined sep cs, ?_⟩
      rw [List.append_assoc]
      exact (joined_eq_iff hc hc).mpr ⟨rfl, hq, rfl⟩

/-- **A component in the middle.** -/
theorem infix_iff {w : List α} {p : List (List α)} (hp : ∀ c ∈ p, sep ∉ c) (hw : sep ∉ w) :
    (∃ u v, joined sep p = u ++ (sep :: (w ++ [sep]) ++ v)) ↔
      ∃ a b, a ≠ [] ∧ b ≠ [] ∧ p = a ++ w :: b := by
  have hshape : ∀ u v : List α,
      u ++ (sep :: (w ++ [sep]) ++ v) = u ++ sep :: (w ++ [sep] ++ v) := fun _ _ => rfl
  simp only [hshape]
  induction p with
  | nil =>
    constructor
    · rintro ⟨u, v, hv⟩
      have hlen := congrArg List.length hv
      simp [joined] at hlen
    · rintro ⟨a, b, -, -, h⟩
      exact absurd h (by simp)
  | cons c cs ih =>
    have hc : sep ∉ c := hp c List.mem_cons_self
    have hcs : ∀ d ∈ cs, sep ∉ d := fun d hd => hp d (List.mem_cons_of_mem c hd)
    constructor
    · rintro ⟨u, v, hv⟩
      cases cs with
      | nil =>
        have hmem : sep ∈ c := by
          rw [show c = _ from hv]; simp
        exact absurd hmem hc
      | cons d ds =>
        rw [joined] at hv
        rcases sep_cases hc hv with ⟨rfl, hj⟩ | ⟨u', -, hj⟩
        · -- the separator ends the first component, so `w` is the second
          obtain ⟨q, hq, hdq⟩ := (prefix_iff hcs hw).mp ⟨v, hj⟩
          exact ⟨[c], q, by simp, hq, by rw [hdq]; rfl⟩
        · -- it stands further back, behind a component at least
          obtain ⟨a, b, ha, hb, hab⟩ := (ih hcs).mp ⟨u', v, hj⟩
          exact ⟨c :: a, b, by simp, hb, by rw [hab]; rfl⟩
    · rintro ⟨a, b, ha, hb, hab⟩
      -- `w` is the second component, or it stands further back
      cases a with
      | nil => exact absurd rfl ha
      | cons c' a =>
        obtain ⟨rfl, rfl⟩ := List.cons.inj hab
        cases a with
        | nil =>
          obtain ⟨v, hv⟩ := (prefix_iff hcs hw).mpr ⟨b, hb, rfl⟩
          exact ⟨c, v, (joined_eq_iff hc hc).mpr ⟨rfl, by simp, hv⟩⟩
        | cons d a =>
          obtain ⟨u, v, hv⟩ := (ih hcs).mpr ⟨d :: a, b, by simp, hb, rfl⟩
          refine ⟨c ++ sep :: u, v, ?_⟩
          show c ++ sep :: joined sep (d :: (a ++ w :: b)) = _
          rw [List.append_assoc]
          exact congrArg (fun t => c ++ sep :: t) hv

end Joined

end VideoPackages.Glob
