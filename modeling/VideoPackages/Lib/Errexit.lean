import Mathlib.Logic.Basic
import Mathlib.Tactic.Common

namespace VideoPackages.Errexit

/-!
# Scripts under `set -e` — outcomes, crash triples and histories of runs

A script is a function from the state it finds to an `Outcome`: it exits 0, it exits
non-zero, or its process is killed.  The environment is an input: a `Verdict` says for a
command whether it is allowed to finish and, if not, how far it got.  Nothing here knows
what a state is.

* `seq`, `ifThen`, `ifElse`, `orTrue` — the control structure of a script;
* `tool` — one command, from what it does when it finishes (`exec`) and from what it leaves
  behind when it does not (`cut`);
* `Triple P a Q R` — from `P`, an exit 0 of `a` leaves `Q` and any other ending leaves `R`.
  With `R := fun _ => False` it says that `a` always exits 0;
* `Focus` — a script that works on one component of a larger state;
* `after` — the state left by a finite history of runs, and `after_invariant`, the one
  induction over histories that every safety result uses.
-/

variable {σ τ κ ρ C : Type*}

/-! ### Outcomes -/

/-- How a script ends, with the state it leaves. -/
inductive Outcome (σ : Type*) where
  | done (s : σ)
  | failed (s : σ)
  | killed (s : σ)
  deriving DecidableEq, Repr

namespace Outcome

/-- The state left behind, however the script ended. -/
def state : Outcome σ → σ
  | done s | failed s | killed s => s

/-- Exit status 0. -/
def exitsZero : Outcome σ → Bool
  | done _ => true
  | _ => false

/-- Go on with `f` after an exit 0; every other ending ends the script (`set -e`). -/
def bind (o : Outcome σ) (f : σ → Outcome σ) : Outcome σ :=
  match o with
  | done s => f s
  | failed s => failed s
  | killed s => killed s

/-- The same ending, in another view of the state. -/
def map (f : σ → τ) : Outcome σ → Outcome τ
  | done s => done (f s)
  | failed s => failed (f s)
  | killed s => killed (f s)

/-- `o.Sat Q R`: exit 0 in a state with `Q`, or any other ending in a state with `R`. -/
def Sat (Q R : σ → Prop) : Outcome σ → Prop
  | done s => Q s
  | failed s | killed s => R s

@[simp] theorem state_done (s : σ) : (done s).state = s := rfl
@[simp] theorem state_failed (s : σ) : (failed s).state = s := rfl
@[simp] theorem state_killed (s : σ) : (killed s).state = s := rfl
@[simp] theorem bind_done (s : σ) (f : σ → Outcome σ) : (done s).bind f = f s := rfl
@[simp] theorem bind_failed (s : σ) (f : σ → Outcome σ) : (failed s).bind f = failed s := rfl
@[simp] theorem bind_killed (s : σ) (f : σ → Outcome σ) : (killed s).bind f = killed s := rfl
@[simp] theorem map_done (f : σ → τ) (s : σ) : (done s).map f = done (f s) := rfl
@[simp] theorem map_failed (f : σ → τ) (s : σ) : (failed s).map f = failed (f s) := rfl
@[simp] theorem map_killed (f : σ → τ) (s : σ) : (killed s).map f = killed (f s) := rfl

/-- A weaker condition on each way to end. -/
theorem Sat.mono {Q Q' R R' : σ → Prop} {o : Outcome σ} (h : o.Sat Q R)
    (hQ : ∀ s, Q s → Q' s) (hR : ∀ s, R s → R' s) : o.Sat Q' R' := by
  cases o with
  | done s => exact hQ s h
  | failed s => exact hR s h
  | killed s => exact hR s h

/-- A postcondition common to all endings holds of the state left. -/
theorem Sat.state {Q : σ → Prop} {o : Outcome σ} (h : o.Sat Q Q) : Q o.state := by
  cases o <;> exact h

/-- A script that cannot end badly ends in a `done`. -/
theorem Sat.exists_done {Q : σ → Prop} {o : Outcome σ} (h : o.Sat Q (fun _ => False)) :
    ∃ s, o = done s ∧ Q s := by
  cases o with
  | done s => exact ⟨s, rfl, h⟩
  | failed s => exact h.elim
  | killed s => exact h.elim

/-- An exit status of 0 is that of a run that is done. -/
theorem exitsZero_iff {o : Outcome σ} : o.exitsZero = true ↔ ∃ s, o = done s := by
  cases o <;> simp [exitsZero]

theorem eq_done {o : Outcome σ} (h : o.exitsZero = true) : o = done o.state := by
  obtain ⟨s, rfl⟩ := exitsZero_iff.mp h
  rfl

/-- One after the other: what stops the first stops both. -/
theorem Sat.bind {Q M R : σ → Prop} {o : Outcome σ} {f : σ → Outcome σ} (h : o.Sat M R)
    (hf : ∀ s, M s → (f s).Sat Q R) : (o.bind f).Sat Q R := by
  cases o with
  | done s => exact hf s h
  | failed s => exact h
  | killed s => exact h

/-- A condition on the state, seen from another state. -/
theorem Sat.map {Q R : τ → Prop} {o : Outcome σ} {f : σ → τ}
    (h : o.Sat (fun s => Q (f s)) (fun s => R (f s))) : (o.map f).Sat Q R := by
  cases o <;> exact h

end Outcome

/-! ### Scripts -/

/-- A script: from the state it finds to the way it ends. -/
abbrev Script (σ : Type*) := σ → Outcome σ

/-- Commands one after the other; the first that does not exit 0 ends the script. -/
def seq : List (Script σ) → Script σ
  | [] => .done
  | a :: as => fun s => (a s).bind (seq as)

/-- `if test; then body; fi`. -/
def ifThen (test : σ → Bool) (body : Script σ) : Script σ := fun s =>
  if test s then body s else .done s

/-- `if test; then a; else b; fi`. -/
def ifElse (test : σ → Bool) (a b : Script σ) : Script σ := fun s =>
  if test s then a s else b s

/-- `a || true`: a failure of `a` is swallowed, a killed process stays killed. -/
def orTrue (a : Script σ) : Script σ := fun s =>
  match a s with
  | .done s' => .done s'
  | .failed s' => .done s'
  | .killed s' => .killed s'

/-- The body, where the test holds. -/
theorem ifThen_pos {test : σ → Bool} {body : Script σ} {s : σ} (h : test s = true) :
    ifThen test body s = body s := if_pos h

/-- Nothing, where it does not. -/
theorem ifThen_neg {test : σ → Bool} {body : Script σ} {s : σ} (h : test s = false) :
    ifThen test body s = .done s := by
  rw [ifThen, h]; rfl

@[simp] theorem seq_nil (s : σ) : seq [] s = .done s := rfl
@[simp] theorem seq_cons (a : Script σ) (as : List (Script σ)) (s : σ) :
    seq (a :: as) s = (a s).bind (seq as) := rfl

/-! ### One command under an environment -/

/-- What the environment does to one command. -/
inductive Ending where
  /-- The command may finish its work. -/
  | exits
  /-- The command exits non-zero. -/
  | fails
  /-- The process is killed while the command runs. -/
  | killed
  deriving DecidableEq, Repr

/-- The environment's decision for one command, and how far the command gets when it
    does not finish. -/
structure Verdict (κ : Type*) where
  ending : Ending
  progress : κ

/-- One command.  Where `exec` is `none` the command cannot do its work and exits non-zero
    by itself; a command that does not finish leaves `cut progress`. -/
def tool (v : Verdict κ) (exec : σ → Option σ) (cut : κ → σ → σ) : Script σ := fun s =>
  match v.ending with
  | .exits =>
    match exec s with
    | some s' => .done s'
    | none => .failed (cut v.progress s)
  | .fails => .failed (cut v.progress s)
  | .killed => .killed (cut v.progress s)

/-- An undisturbed command that can do its work hands its result to the rest of the script. -/
theorem seq_tool_done {v : Verdict κ} {exec : σ → Option σ} {cut : κ → σ → σ}
    {as : List (Script σ)} {s s' : σ} (hv : v.ending = .exits) (he : exec s = some s') :
    seq (tool v exec cut :: as) s = seq as s' := by
  rw [seq_cons, tool, hv, he, Outcome.bind_done]

/-- An undisturbed command that cannot do its work ends the script. -/
theorem seq_tool_none {v : Verdict κ} {exec : σ → Option σ} {cut : κ → σ → σ}
    {as : List (Script σ)} {s : σ} (hv : v.ending = .exits) (he : exec s = none) :
    seq (tool v exec cut :: as) s = .failed (cut v.progress s) := by
  rw [seq_cons, tool, hv, he, Outcome.bind_failed]

/-- A command that is stopped ends the script, with its work cut short. -/
theorem seq_tool_stopped {v : Verdict κ} {exec : σ → Option σ} {cut : κ → σ → σ}
    {as : List (Script σ)} {s : σ} (hv : v.ending ≠ .exits) :
    (seq (tool v exec cut :: as) s).state = cut v.progress s := by
  rw [seq_cons, tool]
  cases h : v.ending with
  | exits => exact absurd h hv
  | fails => rfl
  | killed => rfl

/-- A command that touches nothing of the state. -/
def inert (v : Verdict κ) : Script σ := tool v some (fun _ s => s)

/-- A command without effect that exits 0 is passed over. -/
theorem seq_inert {v : Verdict κ} {as : List (Script σ)} {s : σ} (hv : v.ending = .exits) :
    seq (inert v :: as) s = seq as s :=
  seq_tool_done hv rfl

/-- The environment's decisions for one run: one verdict per command of the script. -/
abbrev Schedule (C κ : Type*) := C → Verdict κ

/-- No command of the run fails or is killed from outside. -/
def Undisturbed (r : Schedule C κ) : Prop := ∀ c, (r c).ending = .exits

/-- Every stop the environment makes in run `r` is one that `W` allows. -/
def StopsIn (W : C → Verdict κ → Prop) (r : Schedule C κ) : Prop :=
  ∀ c, (r c).ending ≠ .exits → W c (r c)

/-- The run that ends at command `c` in the way of `v` and is left alone elsewhere. -/
def stopAt [DecidableEq C] (c : C) (v : Verdict κ) : Schedule C κ := fun c' =>
  if c' = c then v else { v with ending := .exits }

@[simp] theorem stopAt_self [DecidableEq C] (c : C) (v : Verdict κ) : stopAt c v c = v :=
  if_pos rfl

/-- No other command is stopped. -/
theorem stopAt_ending [DecidableEq C] {c c' : C} (v : Verdict κ) (h : c' ≠ c) :
    (stopAt c v c').ending = .exits := by
  rw [stopAt, if_neg h]

/-- A run that is never stopped is stopped nowhere else. -/
theorem Undisturbed.stopsIn {r : Schedule C κ} (h : Undisturbed r)
    (W : C → Verdict κ → Prop) : StopsIn W r := fun c hc => absurd (h c) hc

/-- A run that is stopped in one place is stopped there. -/
theorem stopsIn_stopAt [DecidableEq C] {W : C → Verdict κ → Prop} {c : C} {v : Verdict κ}
    (h : W c v) : StopsIn W (stopAt c v) := by
  intro c' hc'
  unfold stopAt at hc' ⊢
  split at hc'
  · next heq => rw [if_pos heq, heq]; exact h
  · exact absurd rfl hc'

/-! ### Crash triples -/

/-- **Crash triple.**  From a state with `P`, script `a` exits 0 in a state with `Q`, or it
    fails or is killed and leaves a state with `R`. -/
def Triple (P : σ → Prop) (a : Script σ) (Q R : σ → Prop) : Prop :=
  ∀ s, P s → (a s).Sat Q R

namespace Triple

variable {P P' Q Q' M R R' : σ → Prop} {a b : Script σ}

/-- The rule of consequence. -/
theorem consequence (h : Triple P a Q R) (hP : ∀ s, P' s → P s) (hQ : ∀ s, Q s → Q' s)
    (hR : ∀ s, R s → R' s) : Triple P' a Q' R' :=
  fun s hs => (h s (hP s hs)).mono hQ hR

/-- The rule of consequence for the two postconditions. -/
theorem weaken (h : Triple P a Q R) (hQ : ∀ s, Q s → Q' s) (hR : ∀ s, R s → R' s) :
    Triple P a Q' R' :=
  h.consequence (fun _ hs => hs) hQ hR

/-- Two triples about the same commands. -/
theorem and (h : Triple P a Q R) (h' : Triple P' a Q' R') :
    Triple (fun s => P s ∧ P' s) a (fun s => Q s ∧ Q' s) (fun s => R s ∧ R' s) := by
  intro s hs
  have h₁ := h s hs.1
  have h₂ := h' s hs.2
  revert h₁ h₂
  cases a s with
  | done s' => exact fun h₁ h₂ => ⟨h₁, h₂⟩
  | failed s' | killed s' => exact fun h₁ h₂ => ⟨h₁, h₂⟩

theorem nil (h : ∀ s, P s → Q s) : Triple P (seq []) Q R := fun s hs => h s hs

/-- The first command of a sequence, and the rest. -/
theorem cons {as : List (Script σ)} (h : Triple P a M R) (hs : Triple M (seq as) Q R) :
    Triple P (seq (a :: as)) Q R :=
  fun s hP => (h s hP).bind hs

/-- The body of a conditional may assume its test; a skipped body changes nothing. -/
theorem ifThen {test : σ → Bool} (h : Triple (fun s => P s ∧ test s = true) a Q R)
    (hskip : ∀ s, P s → test s = false → Q s) : Triple P (ifThen test a) Q R := by
  intro s hs
  unfold Errexit.ifThen
  by_cases ht : test s = true
  · rw [if_pos ht]; exact h s ⟨hs, ht⟩
  · rw [if_neg ht]; exact hskip s hs (by simpa using ht)

/-- Both branches, each with what the test says. -/
theorem ifElse {test : σ → Bool} (ha : Triple (fun s => P s ∧ test s = true) a Q R)
    (hb : Triple (fun s => P s ∧ test s = false) b Q R) : Triple P (ifElse test a b) Q R := by
  intro s hs
  unfold Errexit.ifElse
  by_cases ht : test s = true
  · rw [if_pos ht]; exact ha s ⟨hs, ht⟩
  · rw [if_neg ht]; exact hb s ⟨hs, by simpa using ht⟩

/-- A command satisfies a triple when its work leads to `Q` and whatever it leaves
    unfinished, because it was stopped or because it cannot do its work, is in `R`. -/
theorem tool {v : Verdict κ} {exec : σ → Option σ} {cut : κ → σ → σ}
    (hexec : ∀ s s', P s → exec s = some s' → Q s')
    (hcut : ∀ s, P s → (v.ending = .exits → exec s = none) → R (cut v.progress s)) :
    Triple P (tool v exec cut) Q R := by
  intro s hs
  unfold Errexit.tool
  cases hv : v.ending with
  | exits =>
    cases he : exec s with
    | some s' => exact hexec s s' hs he
    | none => exact hcut s hs (fun _ => he)
  | fails => exact hcut s hs (by simp [hv])
  | killed => exact hcut s hs (by simp [hv])

/-- `a || true`: what the command leaves when it fails must be good enough to go on with. -/
theorem orTrue_tool {v : Verdict κ} {exec : σ → Option σ} {cut : κ → σ → σ}
    (hexec : ∀ s s', P s → exec s = some s' → Q s')
    (hfail : ∀ s, P s → (v.ending = .exits → exec s = none) → v.ending ≠ .killed →
      Q (cut v.progress s))
    (hkill : ∀ s, P s → v.ending = .killed → R (cut v.progress s)) :
    Triple P (orTrue (Errexit.tool v exec cut)) Q R := by
  intro s hs
  unfold Errexit.orTrue Errexit.tool
  cases hv : v.ending with
  | exits =>
    cases he : exec s with
    | some s' => exact hexec s s' hs he
    | none => exact hfail s hs (fun _ => he) (by simp [hv])
  | fails => exact hfail s hs (by simp [hv]) (by simp [hv])
  | killed => exact hkill s hs hv

/-- A command without effect. -/
theorem inert {v : Verdict κ} (hQ : ∀ s, P s → Q s) (hR : ∀ s, P s → R s) :
    Triple P (inert v) Q R :=
  tool (fun s s' hs he => by cases he; exact hQ s hs) (fun s hs _ => hR s hs)

end Triple

/-! ### Working on one component of the state -/

/-- A component of type `τ` of a state of type `σ`. -/
structure Focus (σ τ : Type*) where
  get : σ → τ
  set : τ → σ → σ
  get_set : ∀ t s, get (set t s) = t
  set_get : ∀ s, set (get s) s = s

/-- Run a script on one component and leave the rest of the state alone. -/
def Focus.on (f : Focus σ τ) (a : Script τ) : Script σ := fun s =>
  (a (f.get s)).map (fun t => f.set t s)

/-- **Frame rule.**  A triple of the component is a triple of the whole, for assertions
    that follow when the component is put back into the state `s` it was taken from. -/
theorem Triple.on {P Q R : σ → τ → Prop} {I J K : σ → Prop} {a : Script τ} (f : Focus σ τ)
    (h : ∀ s, I s → Triple (P s) a (Q s) (R s)) (hP : ∀ s, I s → P s (f.get s))
    (hQ : ∀ s t, I s → Q s t → J (f.set t s)) (hR : ∀ s t, I s → R s t → K (f.set t s)) :
    Triple I (f.on a) J K := by
  intro s hs
  exact Outcome.Sat.map ((h s hs (f.get s) (hP s hs)).mono (fun t ht => hQ s t hs ht)
    (fun t ht => hR s t hs ht))

/-- What does not depend on the component is kept. -/
theorem Triple.on_keeps {F : σ → Prop} {a : Script τ} (f : Focus σ τ)
    (hF : ∀ t s, F s → F (f.set t s)) : Triple F (f.on a) F F :=
  Triple.on (P := fun _ _ => True) (Q := fun _ _ => True) (R := fun _ _ => True) f
    (fun _ _ t _ => by cases a t <;> trivial) (fun _ _ => trivial) (fun s t hs _ => hF t s hs)
    (fun s t hs _ => hF t s hs)

/-! ### Histories of runs -/

/-- The state left by a finite history of runs, each started where the last one stopped. -/
def after (run : ρ → Script σ) (hist : List ρ) (s : σ) : σ :=
  hist.foldl (fun s r => (run r s).state) s

@[simp] theorem after_nil (run : ρ → Script σ) (s : σ) : after run [] s = s := rfl
@[simp] theorem after_cons (run : ρ → Script σ) (r : ρ) (hist : List ρ) (s : σ) :
    after run (r :: hist) s = after run hist (run r s).state := rfl

/-- **Invariant rule.**  What every run of the history preserves, however it ends, holds
    after the whole history. -/
theorem after_invariant {run : ρ → Script σ} {I : σ → Prop} {hist : List ρ} {s : σ}
    (hrun : ∀ r ∈ hist, Triple I (run r) I I) (hs : I s) : I (after run hist s) := by
  induction hist generalizing s with
  | nil => exact hs
  | cons r rs ih =>
    rw [after_cons]
    refine ih (fun r' hr' => hrun r' (List.mem_cons_of_mem r hr')) ?_
    exact (hrun r List.mem_cons_self s hs).state

end VideoPackages.Errexit
