import VideoPackages.PythonGuards

namespace VideoPackages

open Errexit FileTree DirTools

/-!
# The contents of `libpython.zip.so`

The packaging of `build_python.sh` updates an archive in the prefix and copies it to the JNI
directory.  No guard and no earlier stage matters for what it puts there: only the archive
that the run finds, and the directory it packs.

* `pythonStages_keeps_zip` — the stages leave the archive alone;
* `packagePython_zip` — the packaging copies the updated archive;
* `buildPython_stdlib` — for every run that exits 0, when the copy holds exactly the wanted
  files.
-/

variable {env : PythonEnv} {r : Run PythonCmd} {z : Option Dir}

/-- No stage touches the archive. -/
theorem pythonStages_keeps_zip :
    Triple (fun s => s.stdlibZip = z) (pythonStages env r) (fun s => s.stdlibZip = z)
      (fun s => s.stdlibZip = z) := by
  have hon : ∀ {τ : Type} (f : Focus PythonDir τ) (a : Script τ),
      (∀ t s, (f.set t s).stdlibZip = s.stdlibZip) →
      Triple (fun s => s.stdlibZip = z) (f.on a) (fun s => s.stdlibZip = z)
        (fun s => s.stdlibZip = z) :=
    fun f a hf => Triple.on_keeps f (fun t s hs => (hf t s).trans hs)
  refine Triple.cons (Triple.inert (fun _ hs => hs) (fun _ hs => hs)) (Triple.cons ?_
    (Triple.cons (hon _ _ fun _ _ => rfl) (Triple.cons (hon _ _ fun _ _ => rfl)
    (Triple.cons (hon _ _ fun _ _ => rfl) (Triple.cons (hon _ _ fun _ _ => rfl)
    (Triple.cons (hon _ _ fun _ _ => rfl) (Triple.cons (hon _ _ fun _ _ => rfl)
    (Triple.cons (hon _ _ fun _ _ => rfl) (Triple.cons (M := fun s => s.stdlibZip = z) ?_
    (Triple.cons ?_ (Triple.nil fun _ hs => hs)))))))))))
  · exact fillTool_triple (fun _ hs => hs) (fun _ hs _ => hs)
  · -- the last two read other directories before they start
    exact fun s hs => hon PythonDir.hostSite _ (fun _ _ => rfl) s hs
  · exact fun s hs => hon PythonDir.targetSite _ (fun _ _ => rfl) s hs

/-- The archive that `zip` makes of the archive `z` and of what stands below `python_usr`. -/
def repacked (z : Option Dir) (s : PythonDir) : Dir :=
  zipInto (z.getD Tree.empty) (stdlib (s.pythonUsr.getD Tree.empty))

/-- The archive in the JNI directory is the one in the prefix, updated from the directory that
    stands below `python_usr` at the end. -/
theorem packagePython_zip :
    Triple (fun s => s.stdlibZip = z) (packagePython env r)
      (fun s => s.jniZip = some (.archive (repacked z s))) (fun _ => True) := by
  -- before `zip`, nothing touches the archive
  have hmkdir : Triple (fun s : PythonDir => s.stdlibZip = z) (inert (r .mkdirJni))
      (fun s => s.stdlibZip = z) (fun _ => True) :=
    Triple.inert (fun _ hs => hs) (fun _ _ => trivial)
  have hlib : ∀ {new : PythonDir → Option ModeFile} {part : ℕ → PythonDir → Option ModeFile}
      {v : CmdVerdict}, Triple (fun s => s.stdlibZip = z) (libTool PythonDir.lib new part v)
        (fun s => s.stdlibZip = z) (fun _ => True) := fun {_ _ _} =>
    (libTool_keeps fun _ _ hs => hs).weaken (fun _ hs => hs) (fun _ _ => trivial)
  have hcd : Triple (fun s => s.stdlibZip = z) (cd (r .cdStdlib) PythonDir.pythonUsr)
      (fun s => s.stdlibZip = z) (fun _ => True) :=
    cd_triple (fun _ hs _ => hs) (fun _ _ => trivial)
  have hzip : Triple (fun s => s.stdlibZip = z) (zipStdlib (r .zip))
      (fun s => s.stdlibZip = some (repacked z s)) (fun _ => True) := by
    refine Triple.tool (fun s s' hs he => ?_) (fun _ _ _ => trivial)
    cases he
    show some (zipInto (s.stdlibZip.getD Tree.empty) _) = _
    rw [hs]; rfl
  have hback : Triple (fun s : PythonDir => s.stdlibZip = some (repacked z s))
      (inert (r .cdBack)) (fun s => s.stdlibZip = some (repacked z s)) (fun _ => True) :=
    Triple.inert (fun _ hs => hs) (fun _ _ => trivial)
  have hcp : Triple (fun s => s.stdlibZip = some (repacked z s)) (cpZip (r .cpZip))
      (fun s => s.jniZip = some (.archive (repacked z s))) (fun _ => True) := by
    refine Triple.tool (fun s s' hs he => ?_) (fun _ _ _ => trivial)
    obtain ⟨y, hy, rfl⟩ := Option.map_eq_some_iff.mp he
    have hyz : y = repacked z s := Option.some.inj (hy.symm.trans hs)
    rw [hyz]; rfl
  -- after the copy, only the interpreter is touched
  have hchmod : Triple (fun s => s.jniZip = some (.archive (repacked z s)))
      (chmodLib PythonDir.lib (r .chmod))
      (fun s => s.jniZip = some (.archive (repacked z s))) (fun _ => True) :=
    (libTool_keeps fun _ _ hs => hs).weaken (fun _ hs => hs) (fun _ _ => trivial)
  exact Triple.cons hmkdir (Triple.cons hlib (Triple.cons hlib (Triple.cons hcd
    (Triple.cons hzip (Triple.cons hback (Triple.cons hcp (Triple.cons hchmod
    (Triple.nil fun _ hs => hs))))))))

/-- **Contents of the packed standard library.**  Let a run exit 0, from any state, and let no
    name at the top level of the packed directory start with a dot.  The archive it leaves in
    the JNI directory holds exactly the wanted files of that directory, if and only if no file
    outside the left-out directories has `__pycache__` as first or last component only, and
    every entry of the archive that the run found is a wanted file. -/
theorem buildPython_stdlib (env : PythonEnv) (r : Run PythonCmd) (s s' : PythonDir)
    (hdone : buildPython env r s = .done s')
    (hdots : NoTopDots (stdlib (s'.pythonUsr.getD Tree.empty))) :
    ∃ z, s'.jniZip = some (.archive z) ∧
      (PacksExactly (stdlib (s'.pythonUsr.getD Tree.empty)) z ↔
        (∀ p, stdlib (s'.pythonUsr.getD Tree.empty) p ≠ none → ¬ UnderExcluded p →
          pycache ∈ p → InMiddle pycache p) ∧
        ∀ p, (s.stdlibZip.getD Tree.empty) p ≠ none →
          stdlib (s'.pythonUsr.getD Tree.empty) p ≠ none ∧ Wanted p) := by
  have hrun : Triple (fun t => t.stdlibZip = s.stdlibZip) (buildPython env r)
      (fun t => t.jniZip = some (.archive (repacked s.stdlibZip t))) (fun _ => True) :=
    Triple.cons (pythonStages_keeps_zip.weaken (fun _ hs => hs) (fun _ _ => trivial))
      (Triple.cons packagePython_zip (Triple.nil fun _ hs => hs))
  have hzip := hrun s rfl
  rw [hdone] at hzip
  exact ⟨repacked s.stdlibZip s', hzip, zipInto_exact_iff hdots⟩

/-- Everything is built, and `d` stands below `python_usr/lib/python3.11`. -/
def sampleBuilt (d : Dir) : PythonDir where
  zlib := ⟨none, [], none, some Tree.empty⟩
  libffi := ⟨none, [], none, some Tree.empty⟩
  openssl := ⟨none, [], none, some Tree.empty⟩
  cpython := ⟨none, [], none, some Tree.empty⟩
  install := some (((oneFile libzPath [3]).overlay (oneFile libffiPath [3])).overlay
    (oneFile libsslPath [3]))
  host := some Tree.empty
  hostInstall := some (oneFile python3Path [4])
  target := some (oneFile pythonPath [5])
  pythonUsr := some d
  stdlibZip := none
  libpython := none
  jniZip := none

/-- `__pycache__/os.pyc`, at the top level of the standard library. -/
def topCache : Path := [pycache, ⟨"os.pyc", by decide⟩]

/-- A library of one file whose name at the top does not begin with a dot. -/
theorem noTopDots_oneFile {p : Path} {b : Bytes}
    (hp : ∃ c q, p = c :: q ∧ c.name.toList.head? ≠ some '.') :
    NoTopDots (stdlib (oneFile (stdlibPath ++ p) b)) := by
  intro q hq
  have hqp : stdlibPath ++ q = stdlibPath ++ p := by
    by_contra hne
    exact hq (oneFile_of_ne hne b)
  rw [List.append_cancel_left hqp]
  exact hp

/-- A byte-code file at the top level is packed. -/
theorem top_pycache_packed :
    ∃ s' z, buildPython samplePythonEnv (fun _ => unharmed)
        (sampleBuilt (oneFile (stdlibPath ++ topCache) [8])) = .done s' ∧
      NoTopDots (stdlib (s'.pythonUsr.getD Tree.empty)) ∧
      s'.jniZip = some (.archive z) ∧
      ¬ PacksExactly (stdlib (s'.pythonUsr.getD Tree.empty)) z := by
  refine ⟨_, _, rfl, noTopDots_oneFile ⟨_, _, rfl, by decide⟩, rfl, ?_⟩
  intro h
  have hw := (h topCache [8]).mp (by decide +kernel)
  exact hw.2.2 (by decide)

/-- A run on which everything is built, with `os.py` to pack. -/
theorem buildPython_stdlib_sample :
    ∃ s' z, buildPython samplePythonEnv (fun _ => unharmed)
        (sampleBuilt (oneFile osPath [6])) = .done s' ∧
      s'.jniZip = some (.archive z) ∧
      (PacksExactly (stdlib (s'.pythonUsr.getD Tree.empty)) z ↔
        (∀ p, stdlib (s'.pythonUsr.getD Tree.empty) p ≠ none → ¬ UnderExcluded p →
          pycache ∈ p → InMiddle pycache p) ∧
        ∀ p, (Tree.empty : Dir) p ≠ none →
          stdlib (s'.pythonUsr.getD Tree.empty) p ≠ none ∧ Wanted p) := by
  have hdots : NoTopDots (stdlib (oneFile osPath [6])) :=
    noTopDots_oneFile (p := [⟨"os.py", by decide⟩]) ⟨_, _, rfl, by decide⟩
  obtain ⟨s', hdone, husr⟩ : ∃ s', buildPython samplePythonEnv (fun _ => unharmed)
      (sampleBuilt (oneFile osPath [6])) = .done s' ∧ s'.pythonUsr = some (oneFile osPath [6]) :=
    ⟨_, rfl, rfl⟩
  obtain ⟨z, hz, hiff⟩ := buildPython_stdlib samplePythonEnv (fun _ => unharmed)
    (sampleBuilt (oneFile osPath [6])) s' hdone (by rw [husr]; exact hdots)
  exact ⟨s', z, hdone, hz, hiff⟩

end VideoPackages
