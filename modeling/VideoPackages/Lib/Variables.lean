import Mathlib.Data.Set.Basic
import Mathlib.Logic.Function.Basic
import Mathlib.Tactic.Common

namespace VideoPackages.Variables

/-!
# The variables of a shell

A shell variable has a value, and is exported to the commands or not.  Nothing here knows the
names or the values; `$n` of a variable that is not set is `default`.

* `assign` / `exportVar` / `unsetAll` — the statements, and `environ`, what a command sees;
* `AgreeOff S e e'` — the two states differ on the names in `S` only: how a statement changes
  the set;
* `bracket_restores` — variables that are saved, unset, and restored after other commands have
  run: each is exported with its value, and only the names of the copies are left behind.
-/

variable {N V : Type*}

/-- A variable that is set. -/
structure Var (V : Type*) where
  value : V
  exported : Bool

/-- The variables of a shell. -/
abbrev Vars (N V : Type*) := N → Option (Var V)

/-- What a command sees. -/
def environ (e : Vars N V) (n : N) : Option V :=
  (e n).bind fun x => if x.exported then some x.value else none

/-- Statements one after the other. -/
def run (as : List (Vars N V → Vars N V)) (e : Vars N V) : Vars N V :=
  as.foldl (fun e a => a e) e

@[simp] theorem run_nil (e : Vars N V) : run [] e = e := rfl
@[simp] theorem run_cons (a : Vars N V → Vars N V) (as : List (Vars N V → Vars N V))
    (e : Vars N V) : run (a :: as) e = run as (a e) := rfl
/-- Statements one after the other. -/
theorem run_append (as bs : List (Vars N V → Vars N V)) (e : Vars N V) :
    run (as ++ bs) e = run bs (run as e) := List.foldl_append

/-! ### States that differ on a few names -/

/-- The same, but for the names in `S`. -/
def AgreeOff (S : Set N) (e e' : Vars N V) : Prop := ∀ n ∉ S, e n = e' n

section Agree

variable {S T : Set N} {e e' e'' : Vars N V} {n : N}

theorem AgreeOff.refl (S : Set N) (e : Vars N V) : AgreeOff S e e := fun _ _ => rfl

/-- Fewer variables to agree on. -/
theorem AgreeOff.mono (h : AgreeOff S e e') (hST : S ⊆ T) : AgreeOff T e e' :=
  fun n hn => h n fun hS => hn (hST hS)

/-- Agreement goes on. -/
theorem AgreeOff.trans (h : AgreeOff S e e') (h' : AgreeOff S e' e'') : AgreeOff S e e'' :=
  fun n hn => (h n hn).trans (h' n hn)

/-- A command sees the same value. -/
theorem AgreeOff.environ (h : AgreeOff S e e') (hn : n ∉ S) : environ e n = environ e' n := by
  rw [Variables.environ, Variables.environ, h n hn]

end Agree

/-! ### The statements -/

section Statements

variable [DecidableEq N] {S : Set N} {e e' : Vars N V} {n : N} {v v' : Vars N V → V}

/-- `n=v`: a variable that is exported stays so. -/
def assign (n : N) (v : Vars N V → V) (e : Vars N V) : Vars N V :=
  Function.update e n (some ⟨v e, ((e n).map Var.exported).getD false⟩)

/-- `export n=v` -/
def exportVar (n : N) (v : Vars N V → V) (e : Vars N V) : Vars N V :=
  Function.update e n (some ⟨v e, true⟩)

/-- `unset ns` -/
def unsetAll (ns : List N) (e : Vars N V) : Vars N V := fun n => if n ∈ ns then none else e n

@[simp] theorem exportVar_self (n : N) (v : Vars N V → V) (e : Vars N V) :
    exportVar n v e n = some ⟨v e, true⟩ := Function.update_self ..

/-- No command sees a variable that has been unset. -/
theorem environ_unsetAll {ns : List N} (hn : n ∈ ns) : environ (unsetAll ns e) n = none := by
  rw [environ, unsetAll, if_pos hn]; rfl

/-- An assignment to a variable that does not count. -/
theorem agreeOff_assign (hn : n ∈ S) (h : AgreeOff S e e') : AgreeOff S (assign n v e) e' := by
  intro m hm
  have hmn : m ≠ n := fun heq => hm (by rwa [heq])
  rw [assign, Function.update_of_ne hmn, h m hm]

/-- An export of a variable that does not count. -/
theorem agreeOff_exportVar (hn : n ∈ S) (h : AgreeOff S e e') :
    AgreeOff S (exportVar n v e) e' := by
  intro m hm
  have hmn : m ≠ n := fun heq => hm (by rwa [heq])
  rw [Variables.exportVar, Function.update_of_ne hmn, h m hm]

/-- A variable that is exported with one value agrees from then on. -/
theorem AgreeOff.exportVar (h : AgreeOff S e e') (hv : v e = v' e') :
    AgreeOff (S \ {n}) (exportVar n v e) (exportVar n v' e') := by
  intro m hm
  by_cases hmn : m = n
  · subst hmn
    rw [exportVar_self, exportVar_self, hv]
  · rw [Variables.exportVar, Variables.exportVar, Function.update_of_ne hmn,
      Function.update_of_ne hmn]
    exact h m fun hS => hm ⟨hS, hmn⟩

end Statements

/-! ### Values -/

section Values

variable [Inhabited V] {S : Set N} {e e' : Vars N V} {n : N}

/-- `$n` -/
def value (e : Vars N V) (n : N) : V := ((e n).map Var.value).getD default

/-- The script reads the same value. -/
theorem AgreeOff.value (h : AgreeOff S e e') (hn : n ∉ S) : value e n = value e' n := by
  rw [Variables.value, Variables.value, h n hn]

/-- An assignment is read back. -/
theorem value_assign [DecidableEq N] (n : N) (v : Vars N V → V) (e : Vars N V) :
    value (assign n v e) n = v e := by
  simp [value, assign]

end Values

/-! ### Saving and restoring -/

section Bracket

variable [DecidableEq N] [Inhabited V]

/-- `COPY="$NAME"`, for every pair of a name and its copy. -/
def saveAll (ps : List (N × N)) : List (Vars N V → Vars N V) :=
  ps.map fun p => assign p.2 (value · p.1)

/-- `export NAME="$COPY"`, for every pair. -/
def restoreAll (ps : List (N × N)) : List (Vars N V → Vars N V) :=
  ps.map fun p => exportVar p.1 (value · p.2)

variable {ps : List (N × N)} {e : Vars N V} {n : N}

/-- Saving changes the copies only. -/
theorem saveAll_agreeOff (ps : List (N × N)) (e : Vars N V) :
    AgreeOff {n | n ∈ ps.map Prod.snd} (run (saveAll ps) e) e := by
  induction ps generalizing e with
  | nil => exact AgreeOff.refl _ _
  | cons p ps ih =>
    refine AgreeOff.trans ((ih (assign p.2 (value · p.1) e)).mono ?_)
      (agreeOff_assign ?_ (AgreeOff.refl _ _))
    · exact fun m hm => List.mem_cons_of_mem _ hm
    · exact List.mem_cons_self

/-- Restoring changes the variables that were saved only. -/
theorem restoreAll_agreeOff (ps : List (N × N)) (e : Vars N V) :
    AgreeOff {n | n ∈ ps.map Prod.fst} (run (restoreAll ps) e) e := by
  induction ps generalizing e with
  | nil => exact AgreeOff.refl _ _
  | cons p ps ih =>
    refine AgreeOff.trans ((ih (exportVar p.1 (value · p.2) e)).mono ?_)
      (agreeOff_exportVar ?_ (AgreeOff.refl _ _))
    · exact fun m hm => List.mem_cons_of_mem _ hm
    · exact List.mem_cons_self

/-- Every copy has the value of its name: no copy is a name, and no two are one. -/
theorem value_saveAll (hdisj : ∀ p ∈ ps, ∀ q ∈ ps, p.1 ≠ q.2) (hnodup : (ps.map Prod.snd).Nodup)
    {p : N × N} (hp : p ∈ ps) : value (run (saveAll ps) e) p.2 = value e p.1 := by
  induction ps generalizing e with
  | nil => cases hp
  | cons q ps ih =>
    obtain ⟨hq, hnodup⟩ := List.nodup_cons.mp hnodup
    show value (run (saveAll ps) (assign q.2 (value · q.1) e)) p.2 = _
    rcases List.mem_cons.mp hp with rfl | hp'
    · rw [(saveAll_agreeOff ps _).value hq, value_assign]
    · have hne : p.1 ≠ q.2 := hdisj p hp q List.mem_cons_self
      rw [ih (fun a ha b hb => hdisj a (List.mem_cons_of_mem _ ha) b (List.mem_cons_of_mem _ hb))
        hnodup hp', value, value, assign, Function.update_of_ne hne]

/-- Every name is exported, with the value of its copy. -/
theorem restoreAll_self (hdisj : ∀ p ∈ ps, ∀ q ∈ ps, p.1 ≠ q.2)
    (hnodup : (ps.map Prod.fst).Nodup) {p : N × N} (hp : p ∈ ps) :
    run (restoreAll ps) e p.1 = some ⟨value e p.2, true⟩ := by
  induction ps generalizing e with
  | nil => cases hp
  | cons q ps ih =>
    obtain ⟨hq, hnodup⟩ := List.nodup_cons.mp hnodup
    show run (restoreAll ps) (exportVar q.1 (value · q.2) e) p.1 = _
    rcases List.mem_cons.mp hp with rfl | hp'
    · rw [restoreAll_agreeOff ps _ p.1 hq, exportVar_self]
    · have hne : p.2 ≠ q.1 := (hdisj q List.mem_cons_self p hp).symm
      rw [ih (fun a ha b hb => hdisj a (List.mem_cons_of_mem _ ha) b (List.mem_cons_of_mem _ hb))
        hnodup hp', value, value, exportVar, Function.update_of_ne hne]

/-- **Save, unset, restore.**  Every name is exported afterwards, with the value it had. -/
theorem bracket_restores (hdisj : ∀ p ∈ ps, ∀ q ∈ ps, p.1 ≠ q.2)
    (hnames : (ps.map Prod.fst).Nodup) (hcopies : (ps.map Prod.snd).Nodup)
    {p : N × N} (hp : p ∈ ps) :
    run (restoreAll ps) (unsetAll (ps.map Prod.fst) (run (saveAll ps) e)) p.1
      = some ⟨value e p.1, true⟩ := by
  have hcopy : p.2 ∉ ps.map Prod.fst := by
    intro hmem
    obtain ⟨q, hq, heq⟩ := List.mem_map.mp hmem
    exact hdisj q hq p hp heq
  have hunset : value (unsetAll (ps.map Prod.fst) (run (saveAll ps) e)) p.2
      = value (run (saveAll ps) e) p.2 := by
    rw [value, unsetAll, if_neg hcopy, ← value]
  rw [restoreAll_self hdisj hnames hp, hunset, value_saveAll hdisj hcopies hp]

/-- Nothing else changes, but for the copies. -/
theorem bracket_agreeOff (ps : List (N × N)) (e : Vars N V) :
    AgreeOff {n | n ∈ ps.map Prod.fst ∨ n ∈ ps.map Prod.snd}
      (run (restoreAll ps) (unsetAll (ps.map Prod.fst) (run (saveAll ps) e))) e := by
  intro n hn
  have hname : n ∉ ps.map Prod.fst := fun h => hn (.inl h)
  rw [restoreAll_agreeOff ps _ n hname, unsetAll, if_neg hname,
    saveAll_agreeOff ps e n fun h => hn (.inr h)]

end Bracket

end VideoPackages.Variables
