import VideoPackages.Lib.Variables
import VideoPackages.Ndk

namespace VideoPackages

open Variables

/-!
# The shell variables of `build_python.sh`

The script exports the tools of the NDK for the libraries and the target Python, takes them
away for the host Python, and restores them after it.

* `toolchainVars` / `opensslVars` / `hostVars` / `targetVars` — the statements of the script,
  stage by stage; a stage that is skipped sets nothing;
* `hostEnviron_clean` — the host Python is configured without any of the thirteen variables;
* `targetEnviron_isolated` — which stages a run has skipped makes no difference to the target
  Python; and of what the script is started with, only the NDK that it finds and the working
  directory make a difference to the tools.

What the shell itself keeps (`PWD`, `OLDPWD` and the like) is left out.
-/

/-- The variables of the script. -/
abbrev ScriptVars := Vars String String

/-- One statement. -/
abbrev Stmt := ScriptVars → ScriptVars

/-- The variables that are saved for the host Python, and their copies. -/
def savedVars : List (String × String) :=
  [("CC", "OLD_CC"), ("CXX", "OLD_CXX"), ("AR", "OLD_AR"), ("RANLIB", "OLD_RANLIB"),
    ("STRIP", "OLD_STRIP"), ("READELF", "OLD_READELF"), ("CFLAGS", "OLD_CFLAGS"),
    ("CXXFLAGS", "OLD_CXXFLAGS"), ("PKG_CONFIG_PATH", "OLD_PKG_CONFIG_PATH"),
    ("PKG_CONFIG", "OLD_PKG_CONFIG"), ("CPPFLAGS", "OLD_CPPFLAGS"), ("LDFLAGS", "OLD_LDFLAGS"),
    ("LIBS", "OLD_LIBS")]

/-- The names given to `unset`. -/
def unsetNames : List String :=
  ["CC", "CXX", "AR", "RANLIB", "STRIP", "READELF", "CFLAGS", "CXXFLAGS", "PKG_CONFIG_PATH",
    "PKG_CONFIG", "CPPFLAGS", "LDFLAGS", "LIBS"]

section Script

/-! `ndk` is the NDK that the script has found, `pwd` is its working directory. -/

variable (ndk pwd : String)

/-- A tool of the NDK. -/
def ndkTool (name : String) (e : ScriptVars) : String := value e "TOOLCHAIN" ++ "/bin/" ++ name

/-- A compiler of the NDK. -/
def ndkCompiler (name : String) (e : ScriptVars) : String :=
  ndkTool (value e "TARGET" ++ value e "API" ++ name) e

/-- From the NDK on, up to the first library. -/
def toolchainVars : List Stmt :=
  [assign "NDK_PATH" (fun _ => ndk),
    assign "ABI" (fun _ => "arm64-v8a"),
    exportVar "PREFIX_DIR" (fun _ => pwd ++ "/python_install"),
    exportVar "TOOLCHAIN" (fun e => value e "NDK_PATH" ++ "/toolchains/llvm/prebuilt/linux-x86_64"),
    exportVar "TARGET" (fun _ => "aarch64-linux-android"),
    exportVar "API" (fun _ => "26"),
    exportVar "CC" (ndkCompiler "-clang"),
    exportVar "CXX" (ndkCompiler "-clang++"),
    exportVar "AR" (ndkTool "llvm-ar"),
    exportVar "RANLIB" (ndkTool "llvm-ranlib"),
    exportVar "STRIP" (ndkTool "llvm-strip"),
    exportVar "READELF" (ndkTool "llvm-readelf"),
    exportVar "CFLAGS" (fun _ => "-fPIC"),
    exportVar "CXXFLAGS" (fun _ => "-fPIC")]

/-- The OpenSSL stage, with the compilation between the third and the last. -/
def opensslVars : List Stmt :=
  [assign "ORIG_PATH" (value · "PATH"),
    exportVar "ANDROID_NDK_ROOT" (value · "NDK_PATH"),
    exportVar "PATH" (fun e => value e "TOOLCHAIN" ++ "/bin:" ++ value e "PATH"),
    exportVar "PATH" (value · "ORIG_PATH")]

/-- The host Python stage, up to its `configure`. -/
def hostSaveVars : List Stmt := saveAll savedVars ++ [unsetAll unsetNames]

/-- The host Python stage. -/
def hostVars : List Stmt := hostSaveVars ++ restoreAll savedVars

/-- The target Python stage, up to its `configure`. -/
def targetVars : List Stmt :=
  [exportVar "PKG_CONFIG_PATH" (fun e => value e "PREFIX_DIR" ++ "/lib/pkgconfig"),
    exportVar "PKG_CONFIG" (fun _ => "pkg-config"),
    exportVar "CPPFLAGS" (fun e => "-I" ++ value e "PREFIX_DIR" ++ "/include"),
    exportVar "LDFLAGS" (fun e => "-L" ++ value e "PREFIX_DIR" ++ "/lib"),
    exportVar "LIBS" (fun _ => "-lssl -lcrypto -lffi -lz")]

/-- The stages with variables of their own that a run does not skip. -/
structure CompiledStages where
  openssl : Bool
  host : Bool

/-- The variables before the host Python stage. -/
def beforeHost (st : CompiledStages) (e : ScriptVars) : ScriptVars :=
  run (toolchainVars ndk pwd ++ if st.openssl then opensslVars else []) e

/-- What `configure` of the host Python sees. -/
def hostEnviron (st : CompiledStages) (e : ScriptVars) : String → Option String :=
  environ (run hostSaveVars (beforeHost ndk pwd st e))

/-- The variables when the target Python is configured. -/
def atTarget (st : CompiledStages) (e : ScriptVars) : ScriptVars :=
  run ((if st.host then hostVars else []) ++ targetVars) (beforeHost ndk pwd st e)

/-- What `configure` of the target Python sees. -/
def targetEnviron (st : CompiledStages) (e : ScriptVars) : String → Option String :=
  environ (atTarget ndk pwd st e)

end Script

/-- The variables that a script is started with; all of them are exported. -/
def Machine.vars (m : Machine) : ScriptVars :=
  fun n => (m.var n).map fun v => ⟨String.ofList v, true⟩

/-- The value of `NDK_PATH` in a run that has got past the check. -/
def Machine.ndkPath (m : Machine) : String := String.ofList ((buildPythonNdk.path m).getD [])

/-- What `configure` of the target Python sees in a run on the machine. -/
def Machine.pythonEnviron (m : Machine) (pwd : String) (st : CompiledStages) :
    String → Option String := targetEnviron m.ndkPath pwd st m.vars

/-! ### What the statements change -/

/-- The variables that `toolchainVars` exports. -/
def toolchainNames : List String :=
  ["PREFIX_DIR", "TOOLCHAIN", "TARGET", "API", "CC", "CXX", "AR", "RANLIB", "STRIP", "READELF",
    "CFLAGS", "CXXFLAGS"]

/-- The variables that `targetVars` exports. -/
def targetNames : List String := ["PKG_CONFIG_PATH", "PKG_CONFIG", "CPPFLAGS", "LDFLAGS", "LIBS"]

/-- What the two stages before the target Python leave behind. -/
def leftBehind : List String := "ORIG_PATH" :: "ANDROID_NDK_ROOT" :: savedVars.map Prod.snd

variable {ndk pwd : String} {st : CompiledStages} {e e₀ : ScriptVars} {S : Set String}

/-- The tools are exported, with values that do not depend on the variables that the script
    is started with. -/
theorem toolchainVars_exports {n : String} (hn : n ∈ toolchainNames) (e : ScriptVars) :
    run (toolchainVars ndk pwd) e n
      = some ⟨value (run (toolchainVars ndk pwd) fun _ => none) n, true⟩ := by
  simp only [toolchainNames, List.mem_cons, List.not_mem_nil, or_false] at hn
  -- the statement that exports the name first, and only then what it reads
  rcases hn with rfl | rfl | rfl | rfl | rfl | rfl | rfl | rfl | rfl | rfl | rfl | rfl <;>
    simp only [toolchainVars, run_cons, run_nil] <;>
    simp [value, exportVar] <;>
    simp [ndkCompiler, ndkTool, value, assign]

/-- `PATH` comes out of the OpenSSL stage as it went in, if it is exported. -/
theorem opensslVars_agree (hlost : "ORIG_PATH" ∈ S ∧ "ANDROID_NDK_ROOT" ∈ S)
    (hpath : "PATH" ∈ S ∨ ∃ p, e "PATH" = some ⟨p, true⟩) : AgreeOff S (run opensslVars e) e := by
  intro n hn
  have horig : n ≠ "ORIG_PATH" := fun h => hn (h ▸ hlost.1)
  have hroot : n ≠ "ANDROID_NDK_ROOT" := fun h => hn (h ▸ hlost.2)
  by_cases hnp : n = "PATH"
  · subst hnp
    obtain ⟨p, hp⟩ := hpath.resolve_left hn
    simp [opensslVars, exportVar, assign, value, hp]
  · simp [opensslVars, exportVar, assign, hnp, horig, hroot]

/-- The variables that are saved are those that are unset. -/
theorem savedVars_fst : savedVars.map Prod.fst = unsetNames := rfl

/-- The host Python stage loses nothing but what is not exported before it. -/
theorem hostVars_agree (hcopies : ∀ n ∈ savedVars.map Prod.snd, n ∈ S)
    (hexported : ∀ n ∈ unsetNames, n ∈ S ∨ ∃ v, e n = some ⟨v, true⟩) :
    AgreeOff S (run hostVars e) e := by
  have hdisj : ∀ p ∈ savedVars, ∀ q ∈ savedVars, p.1 ≠ q.2 := by decide
  have hrun : run hostVars e = run (restoreAll savedVars) (unsetAll (savedVars.map Prod.fst)
      (run (saveAll savedVars) e)) := by
    rw [hostVars, hostSaveVars, run_append, run_append, savedVars_fst]; rfl
  intro n hn
  rw [hrun]
  by_cases hname : n ∈ savedVars.map Prod.fst
  · obtain ⟨p, hp, rfl⟩ := List.mem_map.mp hname
    obtain ⟨v, hv⟩ := (hexported p.1 hname).resolve_left hn
    rw [bracket_restores hdisj (by decide) (by decide) hp, value, hv]
    rfl
  · refine bracket_agreeOff savedVars e n fun h => ?_
    exact h.elim hname fun hcopy => hn (hcopies n hcopy)

/-- What the target Python is given besides the tools depends on the installation directory
    only. -/
theorem targetVars_exports {n : String} (hn : n ∈ targetNames)
    (hdir : value e "PREFIX_DIR" = value e₀ "PREFIX_DIR") :
    run targetVars e n = run targetVars e₀ n ∧ ∃ v, run targetVars e n = some ⟨v, true⟩ := by
  have hdir' : (Option.map Var.value (e "PREFIX_DIR")).getD ""
      = (Option.map Var.value (e₀ "PREFIX_DIR")).getD "" := hdir
  simp only [targetNames, List.mem_cons, List.not_mem_nil, or_false] at hn
  rcases hn with rfl | rfl | rfl | rfl | rfl <;>
    simp [targetVars, value, exportVar, hdir']

/-- No other variable is set for the target Python. -/
theorem targetVars_other {n : String} (hn : n ∉ targetNames) : run targetVars e n = e n := by
  simp only [targetNames, List.mem_cons, List.not_mem_nil, or_false, not_or] at hn
  simp [targetVars, exportVar, hn]

/-- Two scripts that agree before it agree after it, and on what is set as well. -/
theorem targetVars_agree (h : AgreeOff S e e₀) (hkeep : "PREFIX_DIR" ∉ S) :
    AgreeOff (S \ {n | n ∈ targetNames}) (run targetVars e) (run targetVars e₀) := by
  intro n hn
  by_cases hmem : n ∈ targetNames
  · exact (targetVars_exports hmem (h.value hkeep)).1
  · rw [targetVars_other hmem, targetVars_other hmem]
    exact h n fun hS => hn ⟨hS, hmem⟩

/-- **The host Python** is configured without the thirteen variables, whatever the script was
    started with; of all others only the copies are new. -/
theorem hostEnviron_clean (ndk pwd : String) (st : CompiledStages) (e : ScriptVars) :
    (∀ n ∈ unsetNames, hostEnviron ndk pwd st e n = none) ∧
      ∀ n, n ∉ unsetNames → n ∉ savedVars.map Prod.snd →
        hostEnviron ndk pwd st e n = environ (beforeHost ndk pwd st e) n := by
  have hrun : run hostSaveVars (beforeHost ndk pwd st e)
      = unsetAll unsetNames (run (saveAll savedVars) (beforeHost ndk pwd st e)) := by
    rw [hostSaveVars, run_append]; rfl
  refine ⟨fun n hn => ?_, fun n hn hcopy => ?_⟩
  · rw [hostEnviron, hrun, environ_unsetAll hn]
  · rw [hostEnviron, hrun, environ, unsetAll, if_neg hn, saveAll_agreeOff savedVars _ n hcopy,
      environ]

/-- What the two stages before the target Python change. -/
theorem afterHost_agree (hS : ∀ n ∈ leftBehind ++ targetNames, n ∈ S)
    (hpath : "PATH" ∈ S ∨ ∃ p, e "PATH" = some ⟨p, true⟩) :
    AgreeOff S (run (if st.host then hostVars else []) (beforeHost ndk pwd st e))
      (run (toolchainVars ndk pwd) e) := by
  have hbehind : ∀ n ∈ leftBehind, n ∈ S := fun n hn => hS n (List.mem_append_left _ hn)
  have hpath' : "PATH" ∈ S ∨ ∃ p, run (toolchainVars ndk pwd) e "PATH" = some ⟨p, true⟩ :=
    hpath.imp_right fun ⟨p, hp⟩ => ⟨p, by simp [toolchainVars, exportVar, assign, hp]⟩
  have hopenssl : AgreeOff S (beforeHost ndk pwd st e) (run (toolchainVars ndk pwd) e) := by
    rw [beforeHost, run_append]
    cases st.openssl with
    | true => exact opensslVars_agree ⟨hbehind _ (by decide), hbehind _ (by decide)⟩ hpath'
    | false => exact AgreeOff.refl _ _
  -- the tools are exported, and so they are restored
  have htools : ∀ n ∈ unsetNames, n ∈ toolchainNames ++ targetNames := by decide
  have hhost : AgreeOff S (run (if st.host then hostVars else []) (beforeHost ndk pwd st e))
      (beforeHost ndk pwd st e) := by
    cases st.host with
    | true =>
      refine hostVars_agree (fun n hn => hbehind n ?_) fun n hn => ?_
      · exact List.mem_cons_of_mem _ (List.mem_cons_of_mem _ hn)
      · by_cases hnS : n ∈ S
        · exact .inl hnS
        · have hn' : n ∈ toolchainNames := (List.mem_append.mp (htools n hn)).resolve_right
            fun ht => hnS (hS n (List.mem_append_right _ ht))
          exact .inr ⟨_, (hopenssl n hnS).trans (toolchainVars_exports hn' e)⟩
    | false => exact AgreeOff.refl _ _
  exact hhost.trans hopenssl

/-- The script up to the `configure` of the target Python. -/
theorem atTarget_eq : atTarget ndk pwd st e
    = run targetVars (run (if st.host then hostVars else []) (beforeHost ndk pwd st e)) := by
  rw [atTarget, run_append]

/-- If `PATH` is exported, the target Python sees of the two stages what they leave behind, and
    nothing else. -/
theorem targetEnviron_stages (hpath : ∃ p, e "PATH" = some ⟨p, true⟩) {n : String}
    (hn : n ∉ leftBehind) :
    targetEnviron ndk pwd st e n = targetEnviron ndk pwd ⟨false, false⟩ e n := by
  have hagree : ∀ st : CompiledStages, AgreeOff {n | n ∈ leftBehind ++ targetNames}
      (run (if st.host then hostVars else []) (beforeHost ndk pwd st e))
      (run (toolchainVars ndk pwd) e) := fun st => afterHost_agree (fun _ h => h) (.inr hpath)
  have htarget := targetVars_agree
    ((hagree st).trans fun n hn => (hagree ⟨false, false⟩ n hn).symm) (by decide)
  rw [targetEnviron, targetEnviron, atTarget_eq, atTarget_eq]
  refine htarget.environ fun h => ?_
  exact (List.mem_append.mp h.1).elim hn h.2

/-- The tools come through the two stages as they are exported at the beginning. -/
theorem atTarget_tools (st : CompiledStages) (e : ScriptVars) :
    AgreeOff {n | n ∉ toolchainNames}
      (run (if st.host then hostVars else []) (beforeHost ndk pwd st e))
      (run (toolchainVars ndk pwd) e) := by
  have hlost : ∀ n ∈ leftBehind ++ targetNames, n ∉ toolchainNames := by decide
  exact afterHost_agree hlost (.inl (by decide))

/-- What the target Python is given is set. -/
theorem targetEnviron_isSome {n : String} (hn : n ∈ toolchainNames ++ targetNames) :
    (targetEnviron ndk pwd st e n).isSome := by
  rw [targetEnviron, atTarget_eq, environ]
  by_cases hmem : n ∈ targetNames
  · obtain ⟨-, v, hv⟩ := targetVars_exports hmem rfl
    rw [hv]; rfl
  · have htool := (List.mem_append.mp hn).resolve_right hmem
    rw [targetVars_other hmem, atTarget_tools st e n (not_not.mpr htool),
      toolchainVars_exports htool]
    rfl

/-- With the same NDK and the same directory it is given the same. -/
theorem targetEnviron_tools {st' : CompiledStages} {n : String}
    (hn : n ∈ toolchainNames ++ targetNames) :
    targetEnviron ndk pwd st e n = targetEnviron ndk pwd st' e₀ n := by
  have htools : AgreeOff {n | n ∉ toolchainNames} (run (toolchainVars ndk pwd) e)
      (run (toolchainVars ndk pwd) e₀) := by
    intro n hn
    rw [toolchainVars_exports (not_not.mp hn), toolchainVars_exports (not_not.mp hn)]
  have hall := (atTarget_tools st e).trans
    (htools.trans fun n hn => (atTarget_tools st' e₀ n hn).symm)
  rw [targetEnviron, targetEnviron, atTarget_eq, atTarget_eq]
  refine (targetVars_agree hall (by decide)).environ fun h => ?_
  exact (List.mem_append.mp hn).elim h.1 h.2

/-- **The target Python.**  If `PATH` is set when the script starts, then whatever stages a run
    has skipped, `configure` of the target Python sees what it sees in a run that has skipped
    both, but for what the two leave behind.  And the tools, flags and directories that it is
    given are set; they do not depend on the stages, and on the environment that the script is
    started with only through the NDK that it finds and the working directory. -/
theorem targetEnviron_isolated (m : Machine) (pwd : String) (st : CompiledStages) :
    ((m.var "PATH").isSome → ∀ n ∉ leftBehind,
      m.pythonEnviron pwd st n = m.pythonEnviron pwd ⟨false, false⟩ n) ∧
    ∀ n ∈ toolchainNames ++ targetNames, (m.pythonEnviron pwd st n).isSome ∧
      ∀ st' m', buildPythonNdk.path m' = buildPythonNdk.path m →
        m'.pythonEnviron pwd st' n = m.pythonEnviron pwd st n := by
  refine ⟨fun hset n hn => ?_, fun n hn => ⟨targetEnviron_isSome hn, fun st' m' hndk => ?_⟩⟩
  · obtain ⟨p, hp⟩ := Option.isSome_iff_exists.mp hset
    exact targetEnviron_stages ⟨String.ofList p, by rw [Machine.vars, hp]; rfl⟩ hn
  · have hpath : m'.ndkPath = m.ndkPath := by rw [Machine.ndkPath, Machine.ndkPath, hndk]
    rw [Machine.pythonEnviron, Machine.pythonEnviron, hpath]
    exact targetEnviron_tools hn

/-- A machine with its NDK under the name `home`, and `PATH` if it is given. -/
def sampleVarsMachine (home : String) (path : Option Text) : Machine where
  var := fun x => if x = home then some "/ndk".toList else if x = "PATH" then path else none
  file := fun _ => .missing
  isDir := fun p => decide (p = "/ndk".toList)
  isDir_nil := by decide
  echoOptions := fun _ => []

/-- A run that compiles everything, and one that has nothing left to compile, on machines that
    name the NDK in different ways. -/
theorem targetEnviron_isolated_sample :
    (sampleVarsMachine "ANDROID_NDK_HOME" (some "/bin".toList)).pythonEnviron "/package"
          ⟨true, true⟩ "PATH"
        = (sampleVarsMachine "ANDROID_NDK_HOME" (some "/bin".toList)).pythonEnviron "/package"
          ⟨false, false⟩ "PATH" ∧
      (sampleVarsMachine "ANDROID_NDK_ROOT" none).pythonEnviron "/package" ⟨false, false⟩ "CC"
        = (sampleVarsMachine "ANDROID_NDK_HOME" none).pythonEnviron "/package" ⟨true, true⟩
          "CC" :=
  ⟨(targetEnviron_isolated _ "/package" ⟨true, true⟩).1 (by decide) "PATH" (by decide),
    ((targetEnviron_isolated _ "/package" ⟨true, true⟩).2 "CC" (by decide)).2 _ _ (by decide)⟩

end VideoPackages
