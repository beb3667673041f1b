import VideoPackages.Lib.Errexit
import Mathlib.Data.List.Infix

namespace VideoPackages.Actions

open Errexit

/-!
# GitHub Actions — expressions, and jobs of steps

A job runs its steps one after the other on one machine.  A condition without a status
function is tested only while every step so far has succeeded; `failure()` asks for a step
that has failed.  A failed step is never repaired: the job ends as failed.

* `sameText` / `startsWith` / `firstSet` — `==`, `startsWith` and `||` on strings;
* `startsWith_unique` — a text does not start with two prefixes that differ early on;
* `Step` / `job` — a job as a script, so that crash triples apply to it;
* `Triple.job_cons` — the rule for a step that runs on success;
* `Triple.job_failure` — the rule for one that runs on failure.
-/

/-! ### Expressions on strings -/

/-- Comparisons ignore the case of letters. -/
def folded (s : String) : List Char := s.toList.map Char.toLower

/-- `s == t` -/
def sameText (s t : String) : Bool := decide (folded s = folded t)

/-- `startsWith(s, p)` -/
def startsWith (s p : String) : Bool := (folded p).isPrefixOf (folded s)

/-- `s || t`: the empty string counts as false. -/
def firstSet (s t : String) : String := if s = "" then t else s

/-- `startsWith` ignores the case. -/
theorem startsWith_iff (s p : String) : startsWith s p = true ↔ folded p <+: folded s :=
  List.isPrefixOf_iff_prefix

/-- The case of a text does not matter to its prefixes, and what follows neither. -/
theorem startsWith_append {s p : String} {t : List Char} (h : s.toList = p.toList ++ t) :
    startsWith s p = true := by
  rw [startsWith_iff]
  show p.toList.map Char.toLower <+: s.toList.map Char.toLower
  rw [h, List.map_append]
  exact List.prefix_append _ _

/-- Two prefixes of one text: one is a prefix of the other. -/
theorem startsWith_unique {s p q : String} (hp : startsWith s p = true)
    (hq : startsWith s q = true) : startsWith p q = true ∨ startsWith q p = true := by
  rw [startsWith_iff] at hp hq
  rcases List.prefix_or_prefix_of_prefix hp hq with h | h
  · exact .inr ((startsWith_iff q p).mpr h)
  · exact .inl ((startsWith_iff p q).mpr h)

/-! ### Jobs -/

variable {σ : Type*}

/-- A step: when its condition is tested, its condition, and what it runs. -/
inductive Step (σ : Type*) where
  /-- no status function: only after success -/
  | onSuccess (cond : σ → Bool) (body : Script σ)
  /-- `failure()`: only after a failure -/
  | onFailure (cond : σ → Bool) (body : Script σ)

namespace Step

/-- A step without `if`. -/
def always (body : Script σ) : Step σ := onSuccess (fun _ => true) body

/-- The job after one more step.  A job whose machine is gone runs no further step. -/
def run : Step σ → Outcome σ → Outcome σ
  | onSuccess cond body, .done s => ifThen cond body s
  -- however the step ends, the job has failed
  | onFailure cond body, .failed s => .failed (ifThen cond body s).state
  | _, o => o

end Step

/-- The steps after what has happened so far. -/
def runSteps (steps : List (Step σ)) (o : Outcome σ) : Outcome σ :=
  steps.foldl (fun o st => st.run o) o

/-- A job on a fresh machine. -/
def job (steps : List (Step σ)) : Script σ := fun s => runSteps steps (.done s)

@[simp] theorem runSteps_nil (o : Outcome σ) : runSteps [] o = o := rfl
@[simp] theorem runSteps_cons (st : Step σ) (steps : List (Step σ)) (o : Outcome σ) :
    runSteps (st :: steps) o = runSteps steps (st.run o) := rfl

/-- No step runs after the job has been killed. -/
theorem runSteps_killed (steps : List (Step σ)) (s : σ) :
    runSteps steps (.killed s) = .killed s := by
  induction steps with
  | nil => rfl
  | cons st steps ih =>
    rw [runSteps_cons]
    cases st <;> exact ih

/-- The steps that run after a failure keep `R`. -/
def CleansUp (R : σ → Prop) (steps : List (Step σ)) : Prop :=
  ∀ cond body, Step.onFailure cond body ∈ steps → Triple R (ifThen cond body) R R

variable {P Q M R : σ → Prop} {steps : List (Step σ)} {st : Step σ}

@[simp] theorem cleansUp_nil : CleansUp R [] := fun _ _ h => absurd h List.not_mem_nil

@[simp] theorem cleansUp_onSuccess (cond : σ → Bool) (body : Script σ) :
    CleansUp R (.onSuccess cond body :: steps) ↔ CleansUp R steps := by
  simp [CleansUp]

@[simp] theorem cleansUp_always (body : Script σ) :
    CleansUp R (.always body :: steps) ↔ CleansUp R steps :=
  cleansUp_onSuccess _ body

@[simp] theorem cleansUp_onFailure (cond : σ → Bool) (body : Script σ) :
    CleansUp R (.onFailure cond body :: steps) ↔
      Triple R (ifThen cond body) R R ∧ CleansUp R steps := by
  simp only [CleansUp, List.mem_cons, Step.onFailure.injEq]
  constructor
  · exact fun h => ⟨h cond body (.inl ⟨rfl, rfl⟩), fun c b hmem => h c b (.inr hmem)⟩
  · rintro ⟨hbody, htail⟩ c b (⟨rfl, rfl⟩ | hmem)
    · exact hbody
    · exact htail c b hmem

/-- The steps behind a step clean up when all do. -/
theorem CleansUp.tail (h : CleansUp R (st :: steps)) : CleansUp R steps :=
  fun cond body hmem => h cond body (List.mem_cons_of_mem st hmem)

/-- A job that has failed stays failed, in a state with `R`. -/
theorem runSteps_failed (h : CleansUp R steps) {s : σ} (hs : R s) :
    ∃ s', runSteps steps (.failed s) = .failed s' ∧ R s' := by
  induction steps generalizing s with
  | nil => exact ⟨s, rfl, hs⟩
  | cons st steps ih =>
    rw [runSteps_cons]
    cases st with
    | onSuccess cond body => exact ih h.tail hs
    | onFailure cond body =>
      have hbody := h cond body List.mem_cons_self s hs
      exact ih h.tail hbody.state

/-- What holds so far is handed to the steps that are left. -/
theorem runSteps_sat {o : Outcome σ} (ho : o.Sat M R) (hclean : CleansUp R steps)
    (hsteps : Triple M (job steps) Q R) : (runSteps steps o).Sat Q R := by
  cases o with
  | done s => exact hsteps s ho
  | failed s =>
    obtain ⟨s', hs', hR⟩ := runSteps_failed hclean ho
    rw [hs']
    exact hR
  | killed s =>
    rw [runSteps_killed]
    exact ho

namespace Triple

theorem job_nil (h : ∀ s, P s → Q s) : Triple P (job []) Q R := fun s hs => h s hs

/-- **A step that runs on success.** -/
theorem job_cons {cond : σ → Bool} {body : Script σ} (h : Triple P (ifThen cond body) M R)
    (hclean : CleansUp R steps) (hsteps : Triple M (job steps) Q R) :
    Triple P (job (.onSuccess cond body :: steps)) Q R :=
  fun s hs => show (runSteps steps (ifThen cond body s)).Sat Q R from
    runSteps_sat (h s hs) hclean hsteps

/-- A step without `if`. -/
theorem job_always {body : Script σ} (h : Triple P body M R) (hclean : CleansUp R steps)
    (hsteps : Triple M (job steps) Q R) : Triple P (job (.always body :: steps)) Q R :=
  job_cons (fun s hs => h s hs) hclean hsteps

/-- Steps that come after other steps. -/
theorem job_append {steps' : List (Step σ)} (h : Triple P (job steps) M R)
    (hclean : CleansUp R steps') (hsteps : Triple M (job steps') Q R) :
    Triple P (job (steps ++ steps')) Q R := by
  intro s hs
  show (runSteps (steps ++ steps') (.done s)).Sat Q R
  rw [runSteps, List.foldl_append]
  exact runSteps_sat (h s hs) hclean hsteps

/-- **A step that runs on failure** does nothing on the way to success. -/
theorem job_failure {cond : σ → Bool} {body : Script σ} (hsteps : Triple P (job steps) Q R) :
    Triple P (job (.onFailure cond body :: steps)) Q R :=
  fun s hs => hsteps s hs

end Triple

end VideoPackages.Actions
