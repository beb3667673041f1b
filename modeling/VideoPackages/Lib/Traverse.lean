import Mathlib.Data.List.Basic
import Mathlib.Tactic.Common

namespace VideoPackages.Traverse

/-!
# Loops over lists that change while they run

A loop of a program that may fail, over a list that its body may change.

* `foldlM_run` — a loop over a list that stays, with an invariant that speaks of the elements
  done so far;
* `forEach` — the element after the current one is looked up after the body, so that the loop
  sees what the body adds at the end; `forEach_run`;
* `forEachSafe` — it is looked up before the body, so that the body may take the current element
  away; `forEachSafe_run`.
-/

variable {σ α : Type*}

/-- **Invariant rule.**  If each step succeeds and adds its element to those done, then the loop
    succeeds, with all of them done. -/
theorem foldlM_run {f : σ → α → Option σ} {I : List α → σ → Prop} {total : List α}
    (step : ∀ es c rest s, es ++ c :: rest = total → I es s →
      ∃ s', f s c = some s' ∧ I (es ++ [c]) s')
    {cs es : List α} {s : σ} (hcs : es ++ cs = total) (hs : I es s) :
    ∃ s', cs.foldlM f s = some s' ∧ I total s' := by
  induction cs generalizing es s with
  | nil =>
    rw [List.append_nil] at hcs
    exact ⟨s, rfl, hcs ▸ hs⟩
  | cons c cs ih =>
    obtain ⟨s₁, h₁, hs₁⟩ := step es c cs s hcs hs
    obtain ⟨s₂, h₂, hs₂⟩ := ih (by rw [List.append_assoc, List.singleton_append, hcs]) hs₁
    exact ⟨s₂, by rw [List.foldlM_cons, h₁]; exact h₂, hs₂⟩

variable [DecidableEq α]

/-- What stands after `el` in the list: an element, or nothing when `el` is the last.  Fails when
    `el` is not in the list. -/
def next (l : List α) (el : α) : Option (Option α) :=
  match l.dropWhile (· ≠ el) with
  | [] => none
  | _ :: rest => some rest.head?

/-- The element behind `el` is the one that follows it. -/
theorem next_append {pre rest : List α} {el : α} (h : el ∉ pre) :
    next (pre ++ el :: rest) el = some rest.head? := by
  have hdrop : (pre ++ el :: rest).dropWhile (· ≠ el) = el :: rest := by
    rw [List.dropWhile_append_of_pos (by simpa using fun a ha (he : a = el) => h (he ▸ ha)),
      List.dropWhile_cons_of_neg (by simp)]
  rw [next, hdrop]

/-- The loop of a list macro that moves on after the body. -/
def forEach (list : σ → List α) (body : σ → α → Option σ) : ℕ → Option α → σ → Option σ
  | _, none, s => some s
  | 0, some _, _ => none
  | k + 1, some el, s =>
    (body s el).bind fun s => (next (list s) el).bind fun el₁ => forEach list body k el₁ s

/-- The loop of a list macro that knows the element after the current one before the body. -/
def forEachSafe (list : σ → List α) (body : σ → α → Option σ) : ℕ → Option α → σ → Option σ
  | _, none, s => some s
  | 0, some _, _ => none
  | k + 1, some el, s =>
    (next (list s) el).bind fun el₁ => (body s el).bind fun s => forEachSafe list body k el₁ s

variable (list : σ → List α) (body : σ → α → Option σ) {k : ℕ} {todo es : List α} {s : σ}

/-- **Invariant rule.**  The list is what is done and what is to do; the body may add to the
    latter.  `bound` counts what can be done at all. -/
theorem forEach_run {I : List α → List α → σ → Prop} (bound : ℕ)
    (shape : ∀ es todo s, I es todo s →
      list s = es ++ todo ∧ (list s).Nodup ∧ (list s).length ≤ bound)
    (step : ∀ es el todo s, I es (el :: todo) s →
      ∃ s' new, body s el = some s' ∧ I (es ++ [el]) (todo ++ new) s')
    (hs : I es todo s) (hk : bound ≤ es.length + k) :
    ∃ s' es', forEach list body k todo.head? s = some s' ∧ I es' [] s' := by
  induction k generalizing es todo s with
  | zero =>
    obtain ⟨hlist, -, hbound⟩ := shape es todo s hs
    obtain rfl : todo = [] := by
      rw [hlist, List.length_append] at hbound
      exact List.length_eq_zero_iff.mp (by omega)
    exact ⟨s, es, rfl, hs⟩
  | succ k ih =>
    cases todo with
    | nil => exact ⟨s, es, rfl, hs⟩
    | cons el todo =>
      obtain ⟨s', new, hbody, hs'⟩ := step es el todo s hs
      obtain ⟨hlist, hnodup, -⟩ := shape _ _ s' hs'
      -- no element comes twice, so the next one is the one behind `el` and no other
      have hel : el ∉ es := by
        rw [hlist, List.append_assoc, List.nodup_append] at hnodup
        exact fun h => hnodup.2.2 el h el (by simp) rfl
      have hnext : next (list s') el = some (todo ++ new).head? := by
        rw [hlist, List.append_assoc, List.singleton_append, next_append hel]
      obtain ⟨s'', es', hrun, hend⟩ :=
        ih hs' (by rw [List.length_append, List.length_singleton]; omega)
      refine ⟨s'', es', ?_, hend⟩
      rw [List.head?_cons, forEach, hbody, Option.bind_some, hnext, Option.bind_some, hrun]

/-- **Invariant rule.**  The end of the list is what is to do; the body leaves it alone. -/
theorem forEachSafe_run {I : List α → List α → σ → Prop}
    (shape : ∀ es el todo s, I es (el :: todo) s → ∃ kept, list s = kept ++ el :: todo ∧ el ∉ kept)
    (step : ∀ es el todo s, I es (el :: todo) s →
      ∃ s', body s el = some s' ∧ I (es ++ [el]) todo s')
    (hs : I es todo s) (hk : todo.length ≤ k) :
    ∃ s', forEachSafe list body k todo.head? s = some s' ∧ I (es ++ todo) [] s' := by
  induction todo generalizing es k s with
  | nil =>
    refine ⟨s, by cases k <;> rfl, ?_⟩
    rwa [List.append_nil]
  | cons el todo ih =>
    obtain ⟨k, rfl⟩ : ∃ j, k = j + 1 := ⟨k - 1, by simp at hk; omega⟩
    obtain ⟨kept, hlist, hel⟩ := shape es el todo s hs
    obtain ⟨s', hbody, hs'⟩ := step es el todo s hs
    obtain ⟨s'', hrun, hend⟩ := ih hs' (by simpa using hk)
    refine ⟨s'', ?_, by rwa [List.append_assoc, List.singleton_append] at hend⟩
    rw [List.head?_cons, forEachSafe, hlist, next_append hel, Option.bind_some, hbody,
      Option.bind_some, hrun]

end VideoPackages.Traverse
