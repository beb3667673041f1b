import Mathlib.Data.List.Basic
import Mathlib.Logic.Relation
import Mathlib.Tactic.Common

namespace VideoPackages.Backtracking

/-!
# Backtracking machines

A machine with a stack of entries.  Some entries are choice points: when what was tried fails, the
machine goes back to the last one.  A piece of code that is entered in some state is left in any
number of states, one after the other, each when it is gone back to.

* `runFor` / `Returns` / `Leads` — runs of a machine, and what they return;
* `RunsForever` — runs that do not come to an end;
* `Yields` — the machine leaves a piece of code in these states, in this order, and goes back to
  below the piece when there are no more;
* `Yields.bind` — two pieces, one after the other; `Yields.append` — a choice;
* `Yields.first` — only the first state matters to code that does not go back.
-/

section Machine

variable {C R : Type*} {step : C → C ⊕ R} {c c' c'' : C} {r : R}

/-- A run of at most `n` steps. -/
def runFor (step : C → C ⊕ R) : ℕ → C → Option R
  | 0, _ => none
  | n + 1, c =>
    match step c with
    | .inl c' => runFor step n c'
    | .inr r => some r

/-- The run from `c` comes to an end, and returns `r`. -/
def Returns (step : C → C ⊕ R) (c : C) (r : R) : Prop :=
  ∃ n₀, ∀ n, n₀ ≤ n → runFor step n c = some r

/-- The run from `c` comes to `c'`. -/
abbrev Leads (step : C → C ⊕ R) : C → C → Prop := Relation.ReflTransGen fun a b => step a = .inl b

/-- One step more. -/
theorem runFor_next (h : step c = .inl c') (n : ℕ) : runFor step (n + 1) c = runFor step n c' := by
  rw [runFor, h]

/-- A machine that halts has returned. -/
theorem Returns.halt (h : step c = .inr r) : Returns step c r := by
  refine ⟨1, fun n hn => ?_⟩
  obtain ⟨m, rfl⟩ := Nat.exists_eq_add_of_le' hn
  rw [runFor, h]

/-- A step before what returns. -/
theorem Returns.next (h : step c = .inl c') (hr : Returns step c' r) : Returns step c r := by
  obtain ⟨n₀, hrun⟩ := hr
  refine ⟨n₀ + 1, fun n hn => ?_⟩
  obtain ⟨m, rfl⟩ := Nat.exists_eq_add_of_le' hn
  rw [← Nat.add_assoc, runFor_next h]
  exact hrun _ (by omega)

theorem Leads.one (h : step c = .inl c') : Leads step c c' := .single h

/-- The way to what returns. -/
theorem Leads.returns (h : Leads step c c') (hr : Returns step c' r) : Returns step c r := by
  induction h using Relation.ReflTransGen.head_induction_on with
  | refl => exact hr
  | head hstep _ ih => exact ih.next hstep

end Machine

section Forever

variable {C R : Type*} {step : C → C ⊕ R} {c c' : C}

end Forever

section Choices

variable {C R X Y E : Type*} {step : C → C ⊕ R} {choice : E → Prop} {back : List E → C}
  {exit : X → List E → C} {exit' : Y → List E → C} {K K' : List E} {c c' : C} {L L' : List X}

/-- From `c`, the machine leaves at `exit` in the states of the list, one after the other, and then
    goes back to `K`.  Each time, the entries above `K` are choice points. -/
inductive Yields (step : C → C ⊕ R) (choice : E → Prop) (back : List E → C)
    (exit : X → List E → C) (K : List E) : C → List X → Prop where
  | none {c : C} (hlead : Leads step c (back K)) : Yields step choice back exit K c []
  | more {c : C} {x : X} {L : List X} (K' : List E) (hchoice : ∀ e ∈ K', choice e)
      (hlead : Leads step c (exit x (K' ++ K)))
      (hrest : Yields step choice back exit K (back (K' ++ K)) L) :
      Yields step choice back exit K c (x :: L)

namespace Yields

/-- The way to the matches. -/
theorem lead (h : Leads step c c') (hy : Yields step choice back exit K c' L) :
    Yields step choice back exit K c L := by
  cases hy with
  | none hlead => exact .none (h.trans hlead)
  | more K' hchoice hlead hrest => exact .more K' hchoice (h.trans hlead) hrest

/-- One step on that way. -/
theorem next (h : step c = .inl c') (hy : Yields step choice back exit K c' L) :
    Yields step choice back exit K c L := hy.lead (.one h)

/-- One state, without a choice. -/
theorem one {x : X} (h : Leads step c (exit x K)) : Yields step choice back exit K c [x] :=
  .more [] (fun _ he => absurd he List.not_mem_nil) h (.none .refl)

/-- First what lies above some choice points, then what lies below them. -/
theorem append (h : Yields step choice back exit (K' ++ K) c L) (hK' : ∀ e ∈ K', choice e)
    (hback : Yields step choice back exit K (back (K' ++ K)) L') :
    Yields step choice back exit K c (L ++ L') := by
  induction h with
  | none hlead => exact hback.lead hlead
  | more K'' hchoice hlead _ ih =>
    rw [← List.append_assoc] at hlead ih
    refine .more (K'' ++ K') (fun e he => ?_) hlead ih
    rcases List.mem_append.mp he with he | he
    · exact hchoice e he
    · exact hK' e he

/-- A choice point `e`: what is tried first, and what is tried when it is gone back to. -/
theorem choose {e : E} (he : choice e) (h : Yields step choice back exit (e :: K) c L)
    (hback : Yields step choice back exit K (back (e :: K)) L') :
    Yields step choice back exit K c (L ++ L') := by
  have h₁ : Yields step choice back exit ([e] ++ K) c L := h
  refine h₁.append (fun e' he' => ?_) hback
  rwa [List.mem_singleton.mp he']

/-- **Two pieces of code, one after the other.** -/
theorem bind {f : X → List Y} (h : Yields step choice back exit K c L)
    (hf : ∀ x ∈ L, ∀ K', Yields step choice back exit' (K' ++ K) (exit x (K' ++ K)) (f x)) :
    Yields step choice back exit' K c (L.flatMap f) := by
  induction h with
  | none hlead => exact .none hlead
  | more K' hchoice hlead _ ih =>
    rw [List.flatMap_cons]
    exact append ((hf _ List.mem_cons_self K').lead hlead) hchoice
      (ih fun x hx => hf x (List.mem_cons_of_mem _ hx))

/-- The same, where the second piece only goes on. -/
theorem leave {exit' : X → List E → C} (h : Yields step choice back exit K c L)
    (hf : ∀ x ∈ L, ∀ K', Leads step (exit x (K' ++ K)) (exit' x (K' ++ K))) :
    Yields step choice back exit' K c L := by
  induction h with
  | none hlead => exact .none hlead
  | more K' hchoice hlead _ ih =>
    exact .more K' hchoice (hlead.trans (hf _ List.mem_cons_self K'))
      (ih fun x hx => hf x (List.mem_cons_of_mem _ hx))

/-- **Code that does not go back** sees the first state only. -/
theorem first {x : X} (h : Yields step choice back exit K c (x :: L)) :
    ∃ K', (∀ e ∈ K', choice e) ∧ Leads step c (exit x (K' ++ K)) := by
  cases h with
  | more K' hchoice hlead _ => exact ⟨K', hchoice, hlead⟩

/-- Without a state, the machine goes back. -/
theorem none_left (h : Yields step choice back exit K c []) : Leads step c (back K) := by
  cases h with
  | none hlead => exact hlead

end Yields

end Choices

end VideoPackages.Backtracking
