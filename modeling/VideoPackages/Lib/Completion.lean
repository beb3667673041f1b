import VideoPackages.Lib.Errexit

namespace VideoPackages.Errexit

/-!
# Runs that exit 0

Under `set -e` a run that exits 0 has not been stopped by any command, except where a failure
is swallowed.  So it would have exited 0 in the same state had nothing been stopped.

* `Settles a b` — where `a` exits 0, `b` does so in the same state;
* `calmBut keep r` — the schedule `r` without its stops, but for failures of the commands in
  `keep`;
* `Settles.seq` / `Settles.on` / … — the two schedules, construct by construct.
-/

variable {σ τ κ C : Type*}

/-- Where `a` exits 0, `b` exits 0 in the same state. -/
def Settles (a b : Script σ) : Prop := ∀ s s', a s = .done s' → b s = .done s'

/-- The command is left alone. -/
def Verdict.calm (v : Verdict κ) : Verdict κ := { v with ending := .exits }

/-- No command is stopped, but those in `keep` fail as they did. -/
def calmBut (keep : C → Bool) (r : Schedule C κ) : Schedule C κ := fun c =>
  if keep c && decide ((r c).ending = .fails) then r c else (r c).calm

/-- Only the ending of a verdict is changed. -/
theorem calmBut_progress (keep : C → Bool) (r : Schedule C κ) (c : C) :
    (calmBut keep r c).progress = (r c).progress := by
  unfold calmBut
  split <;> rfl

/-- A stop that is left of the schedule is a failure of a command in `keep`. -/
theorem calmBut_stops {keep : C → Bool} {r : Schedule C κ} {c : C}
    (h : (calmBut keep r c).ending ≠ .exits) :
    calmBut keep r c = r c ∧ keep c = true ∧ (r c).ending = .fails := by
  unfold calmBut at h ⊢
  split at h
  · next hk =>
    rw [if_pos hk]
    rw [Bool.and_eq_true, decide_eq_true_eq] at hk
    exact ⟨rfl, hk⟩
  · exact absurd rfl h

namespace Settles

theorem refl (a : Script σ) : Settles a a := fun _ _ h => h

/-- A command that has exited 0 has not been stopped. -/
theorem tool {v : Verdict κ} {exec : σ → Option σ} {cut : κ → σ → σ} :
    Settles (tool v exec cut) (tool v.calm exec cut) := by
  intro s s' h
  unfold Errexit.tool at h ⊢
  cases hv : v.ending with
  | exits => rw [hv] at h; exact h
  | fails => rw [hv] at h; cases h
  | killed => rw [hv] at h; cases h

/-- The same under a schedule. -/
theorem tool_calmBut {keep : C → Bool} {r : Schedule C κ} {c : C} {exec : σ → Option σ}
    {cut : κ → σ → σ} :
    Settles (Errexit.tool (r c) exec cut) (Errexit.tool (calmBut keep r c) exec cut) := by
  unfold calmBut
  split
  · exact refl _
  · exact tool

/-- A command without effect, in a calmer run. -/
theorem inert_calmBut {keep : C → Bool} {r : Schedule C κ} {c : C} :
    Settles (inert (σ := σ) (r c)) (inert (calmBut keep r c)) := tool_calmBut

/-- `a || true`: a killed command still ends the script. -/
theorem orTrue_tool {keep : C → Bool} {r : Schedule C κ} {c : C} (hc : keep c = true)
    {exec : σ → Option σ} {cut : κ → σ → σ} :
    Settles (orTrue (Errexit.tool (r c) exec cut))
      (orTrue (Errexit.tool (calmBut keep r c) exec cut)) := by
  intro s s' h
  unfold calmBut
  split
  · exact h
  · next hk =>
    have hnf : (r c).ending ≠ .fails := by simpa [hc] using hk
    unfold orTrue Errexit.tool at h ⊢
    cases hv : (r c).ending with
    | exits => rw [hv] at h; exact h
    | fails => exact absurd hv hnf
    | killed => rw [hv] at h; cases h

/-- Commands that settle, one after the other. -/
theorem seq {as bs : List (Script σ)} (h : List.Forall₂ Settles as bs) :
    Settles (seq as) (seq bs) := by
  induction h with
  | nil => exact refl _
  | @cons a b as bs hab _ ih =>
    intro s s' hdone
    rw [seq_cons] at hdone ⊢
    cases ha : a s with
    | done t =>
      rw [ha, Outcome.bind_done] at hdone
      rw [hab s t ha, Outcome.bind_done]
      exact ih t s' hdone
    | failed t => rw [ha, Outcome.bind_failed] at hdone; cases hdone
    | killed t => rw [ha, Outcome.bind_killed] at hdone; cases hdone

/-- A body that settles, where the test says the same. -/
theorem ifThen {test : σ → Bool} {a b : Script σ} (h : Settles a b) :
    Settles (ifThen test a) (ifThen test b) := by
  intro s s' hdone
  unfold Errexit.ifThen at hdone ⊢
  split at hdone
  · next ht => rw [if_pos ht]; exact h s s' hdone
  · next ht => rw [if_neg ht]; exact hdone

/-- In a part of the state. -/
theorem on {f : Focus σ τ} {a b : Script τ} (h : Settles a b) : Settles (f.on a) (f.on b) := by
  intro s s' hdone
  unfold Focus.on at hdone ⊢
  cases ha : a (f.get s) with
  | done t =>
    rw [ha] at hdone
    rw [h _ _ ha]
    exact hdone
  | failed t => rw [ha] at hdone; cases hdone
  | killed t => rw [ha] at hdone; cases hdone

end Settles

end VideoPackages.Errexit
