import VideoPackages.Download
import VideoPackages.StdlibZip

namespace VideoPackages

open Errexit FileTree DirTools

/-!
# `build_python.sh`

The script builds three static libraries into one prefix, a Python for the build host, and
with these the Python for Android; then it places the interpreter and the packed standard
library in the Gradle project.

* `PythonDir` — the package directory, and its parts that a stage works on;
* `StaticLib` / `PythonEnv` — a library with the file its guard tests for, and the machine;
* `pythonStages` / `packagePython` — the nine guarded stages, and the packaging.
-/

/-! ### Names -/

/-- `lib/libz.a` -/
def libzPath : Path := [⟨"lib", by decide⟩, ⟨"libz.a", by decide⟩]
/-- `lib/libffi.a` -/
def libffiPath : Path := [⟨"lib", by decide⟩, ⟨"libffi.a", by decide⟩]
/-- `lib/libssl.a` -/
def libsslPath : Path := [⟨"lib", by decide⟩, ⟨"libssl.a", by decide⟩]
/-- `bin/python3` -/
def python3Path : Path := [⟨"bin", by decide⟩, ⟨"python3", by decide⟩]
/-- `python` -/
def pythonPath : Path := [⟨"python", by decide⟩]
/-- `Modules` -/
def modulesName : Component := ⟨"Modules", by decide⟩
/-- `Modules/Setup.local` -/
def setupLocalPath : Path := [modulesName, ⟨"Setup.local", by decide⟩]
/-- `lib/python3.11` -/
def stdlibPath : Path := [⟨"lib", by decide⟩, ⟨"python3.11", by decide⟩]

/-- The here-document written to `Modules/Setup.local`. -/
def setupLocal : Bytes := ascii
  "*static*
_ssl _ssl.c -lssl -lcrypto
_hashlib _hashopenssl.c -lcrypto
_md5 md5module.c
_sha1 sha1module.c
_sha256 sha256module.c
_sha512 sha512module.c
_sha3 _sha3/sha3module.c
_blake2 _blake2/blake2module.c _blake2/blake2b_impl.c _blake2/blake2s_impl.c
_socket socketmodule.c
_json _json.c
select selectmodule.c
cmath cmathmodule.c
math mathmodule.c
_struct _struct.c
_ctypes _ctypes/_ctypes.c _ctypes/callbacks.c _ctypes/callproc.c _ctypes/stgdict.c _ctypes/cfield.c -ldl -lffi -DHAVE_FFI_PREP_CIF_VAR -DHAVE_FFI_PREP_CLOSURE_LOC -DHAVE_FFI_CLOSURE_ALLOC
array arraymodule.c
_asyncio _asynciomodule.c
_bisect _bisectmodule.c
_contextvars _contextvarsmodule.c
_csv _csv.c
_datetime _datetimemodule.c
_decimal _decimal/_decimal.c
_elementtree _elementtree.c
_heapq _heapqmodule.c
_multiprocessing _multiprocessing/multiprocessing.c _multiprocessing/semaphore.c
_opcode _opcode.c
_pickle _pickle.c
_posixsubprocess _posixsubprocess.c
_queue _queuemodule.c
_random _randommodule.c
_zoneinfo _zoneinfo.c
binascii binascii.c
fcntl fcntlmodule.c
grp grpmodule.c
mmap mmapmodule.c
pyexpat pyexpat.c
termios termios.c
unicodedata unicodedata.c
zlib zlibmodule.c -lz
_codecs_cn cjkcodecs/_codecs_cn.c
_codecs_hk cjkcodecs/_codecs_hk.c
_codecs_iso2022 cjkcodecs/_codecs_iso2022.c
_codecs_jp cjkcodecs/_codecs_jp.c
_codecs_kr cjkcodecs/_codecs_kr.c
_codecs_tw cjkcodecs/_codecs_tw.c
_multibytecodec cjkcodecs/multibytecodec.c
"

/-! ### The package directory -/

/-- A ZIP file at a path: an archive, by the contents of its entries, or a part of one. -/
inductive ZipFile where
  | archive (z : Dir)
  | torn

/-- `python_package`, as far as the script works on it. -/
structure PythonDir where
  zlib : Download
  libffi : Download
  openssl : Download
  cpython : Download
  /-- `python_install`, without `python_usr` and `lib/libpython.zip.so` -/
  install : Option Dir
  /-- `python-host`, without `install` -/
  host : Option Dir
  /-- `python-host/install` -/
  hostInstall : Option Dir
  /-- `python-target` -/
  target : Option Dir
  /-- `python_install/python_usr` -/
  pythonUsr : Option Dir
  /-- `python_install/lib/libpython.zip.so` -/
  stdlibZip : Option Dir
  /-- `libpython.so` and `libpython.zip.so` in the JNI directory -/
  libpython : Option ModeFile
  jniZip : Option ZipFile

namespace PythonDir

def zlibDownload : Focus PythonDir Download where
  get := zlib
  set := fun t s => { s with zlib := t }
  get_set := fun _ _ => rfl
  set_get := fun _ => rfl

def libffiDownload : Focus PythonDir Download where
  get := libffi
  set := fun t s => { s with libffi := t }
  get_set := fun _ _ => rfl
  set_get := fun _ => rfl

def opensslDownload : Focus PythonDir Download where
  get := openssl
  set := fun t s => { s with openssl := t }
  get_set := fun _ _ => rfl
  set_get := fun _ => rfl

def cpythonDownload : Focus PythonDir Download where
  get := cpython
  set := fun t s => { s with cpython := t }
  get_set := fun _ _ => rfl
  set_get := fun _ => rfl

/-- `zlib-source` and the prefix. -/
def zlibSite : Focus PythonDir (Site Path UInt8) where
  get := fun s => ⟨s.zlib.source, s.install⟩
  set := fun t s => { s with zlib := { s.zlib with source := t.source }, install := t.dest }
  get_set := fun _ _ => rfl
  set_get := fun _ => rfl

/-- `libffi-source` and the prefix. -/
def libffiSite : Focus PythonDir (Site Path UInt8) where
  get := fun s => ⟨s.libffi.source, s.install⟩
  set := fun t s => { s with libffi := { s.libffi with source := t.source }, install := t.dest }
  get_set := fun _ _ => rfl
  set_get := fun _ => rfl

/-- `openssl-source` and the prefix. -/
def opensslSite : Focus PythonDir (Site Path UInt8) where
  get := fun s => ⟨s.openssl.source, s.install⟩
  set := fun t s => { s with openssl := { s.openssl with source := t.source }, install := t.dest }
  get_set := fun _ _ => rfl
  set_get := fun _ => rfl

/-- `python-host` and `python-host/install`. -/
def hostSite : Focus PythonDir (Site Path UInt8) where
  get := fun s => ⟨s.host, s.hostInstall⟩
  set := fun t s => { s with host := t.source, hostInstall := t.dest }
  get_set := fun _ _ => rfl
  set_get := fun _ => rfl

/-- `python-target` and `python_install/python_usr`. -/
def targetSite : Focus PythonDir (Site Path UInt8) where
  get := fun s => ⟨s.target, s.pythonUsr⟩
  set := fun t s => { s with target := t.source, pythonUsr := t.dest }
  get_set := fun _ _ => rfl
  set_get := fun _ => rfl

def installDir : Focus PythonDir (Option Dir) where
  get := install
  set := fun t s => { s with install := t }
  get_set := fun _ _ => rfl
  set_get := fun _ => rfl

def lib : Focus PythonDir (Option ModeFile) where
  get := libpython
  set := fun f s => { s with libpython := f }
  get_set := fun _ _ => rfl
  set_get := fun _ => rfl

end PythonDir

/-! ### The machine -/

/-- What the build of the target Python reads besides its sources: the static libraries, and
    the host Python. -/
structure TargetInputs where
  libs : Dir
  host : Dir

/-- A static library: its release, how it builds, and the file that its guard tests for,
    which is one of the files it installs. -/
structure StaticLib (lib : Path) where
  rel : Release
  pkg : Package Path UInt8 Unit
  pkg_release : pkg.release = rel.tree
  installs_lib : pkg.installed () lib ≠ none

/-- The machine the script runs on.  The three libraries install different files; the
    sources of CPython hold no file `python`, and of the build of the target it is `make`
    that writes it.  `modules` lists the files of the sources below `Modules`. -/
structure PythonEnv where
  zlib : StaticLib libzPath
  libffi : StaticLib libffiPath
  openssl : StaticLib libsslPath
  zlib_libffi : (zlib.pkg.installed ()).Apart (libffi.pkg.installed ())
  zlib_openssl : (zlib.pkg.installed ()).Apart (openssl.pkg.installed ())
  libffi_openssl : (libffi.pkg.installed ()).Apart (openssl.pkg.installed ())
  cpython : Release
  host : Package Path UInt8 Unit
  host_release : host.release = visible cpython.tree
  target : Package Path UInt8 TargetInputs
  target_release : target.release = (visible cpython.tree).write setupLocalPath setupLocal
  modules : List Path
  mem_modules : ∀ p, p ∈ modules ↔ cpython.tree p ≠ none ∧ ∃ c q, p = modulesName :: c :: q
  sources_python : cpython.tree pythonPath = none
  configure_python : ∀ i, target.configure i target.files pythonPath = none
  make_python : ∀ i, target.make i target.files pythonPath ≠ none
  strip : Bytes → Bytes
  newMode : ℕ

/-- All files that the three libraries install. -/
def PythonEnv.libs (env : PythonEnv) : Dir :=
  ((env.zlib.pkg.installed ()).overlay (env.libffi.pkg.installed ())).overlay
    (env.openssl.pkg.installed ())

/-- What the build of the target Python reads of the package directory. -/
def PythonDir.inputs (env : PythonEnv) (s : PythonDir) : TargetInputs :=
  ⟨(s.install.getD Tree.empty).restrict env.libs,
    (s.hostInstall.getD Tree.empty).restrict (env.host.installed ())⟩

/-- The standard library below `python_usr`. -/
def stdlib (usr : Dir) : Dir := fun p => usr (stdlibPath ++ p)

/-! ### The script -/

/-- The commands of the script. -/
inductive PythonCmd where
  | checkNdk | mkdirPrefix
  | zlibDownload (c : DownloadCmd) | zlibBuild (c : BuildCmd)
  | libffiDownload (c : DownloadCmd) | libffiBuild (c : BuildCmd)
  | opensslDownload (c : DownloadCmd) | opensslBuild (c : BuildCmd)
  | cpythonDownload (c : DownloadCmd)
  | mkdirHost | cpHost | hostBuild (c : BuildCmd)
  | mkdirTarget | cpTarget | setupLocal | targetBuild (c : BuildCmd)
  | mkdirJni | cpPython | strip | cdStdlib | zip | cdBack | cpZip | chmod
  deriving DecidableEq, Repr

/-- `if [ ! -f PREFIX/LIB ]; then cd SOURCE; ./configure; make; make install; cd ..; fi` -/
def libStage {lib : Path} (l : StaticLib lib) (r : Run BuildCmd) : Script (Site Path UInt8) :=
  ifThen (fun s => !hasFile s.dest lib) (l.pkg.build () r)

/-- `cp -R python-source/* DIR/ || true`.  Where there is nothing to copy, `cp` fails and
    copies nothing. -/
def copySources (sources : Option Dir) (v : CmdVerdict) : Script (Site Path UInt8) :=
  orTrue (fillTool Site.sourceDir (fun _ => visible (sources.getD Tree.empty)) v)

/-- `mkdir -p DIR` -/
def mkdirSource (v : CmdVerdict) : Script (Site Path UInt8) :=
  fillTool Site.sourceDir (fun _ => Tree.empty) v

/-- `if [ ! -f "python-host/install/bin/python3" ]; then mkdir -p; cp -R; …; fi` -/
def hostStage (env : PythonEnv) (sources : Option Dir) (r : Run PythonCmd) :
    Script (Site Path UInt8) :=
  ifThen (fun s => !hasFile s.dest python3Path)
    (seq [mkdirSource (r .mkdirHost), copySources sources (r .cpHost),
      env.host.build () (fun c => r (.hostBuild c))])

/-- The directory `Modules` shows among the copied sources: one of its files is there. -/
def PythonEnv.showsModules (env : PythonEnv) (s : Site Path UInt8) : Bool :=
  env.modules.any fun p => ((s.source.getD Tree.empty) p).isSome

/-- `cat << 'EOF' > Modules/Setup.local`.  The shell cannot create the file where there is no
    directory `Modules`.  An empty one does not show among the files; whether it is there, the
    verdict says. -/
def catSetupLocal (env : PythonEnv) (v : CmdVerdict) : Script (Site Path UInt8) :=
  writeTool Site.sourceDir setupLocalPath
    (fun s => if env.showsModules s || v.progress.begun then some setupLocal else none) v

/-- `if [ ! -f "python-target/python" ]; then mkdir -p; cp -R; cd; cat; …; fi` -/
def targetStage (env : PythonEnv) (sources : Option Dir) (i : TargetInputs)
    (r : Run PythonCmd) : Script (Site Path UInt8) :=
  ifThen (fun s => !hasFile s.source pythonPath)
    (seq [mkdirSource (r .mkdirTarget), copySources sources (r .cpTarget),
      cd (r (.targetBuild .cd)) Site.source,
      catSetupLocal env (r .setupLocal),
      env.target.steps i (fun c => r (.targetBuild c))])

/-- The nine guarded stages. -/
def pythonStages (env : PythonEnv) (r : Run PythonCmd) : Script PythonDir :=
  seq [inert (r .checkNdk),
    fillTool PythonDir.installDir (fun _ => Tree.empty) (r .mkdirPrefix),
    PythonDir.zlibDownload.on (untarStage env.zlib.rel (fun c => r (.zlibDownload c))),
    PythonDir.zlibSite.on (libStage env.zlib (fun c => r (.zlibBuild c))),
    PythonDir.libffiDownload.on (untarStage env.libffi.rel (fun c => r (.libffiDownload c))),
    PythonDir.libffiSite.on (libStage env.libffi (fun c => r (.libffiBuild c))),
    PythonDir.opensslDownload.on (untarStage env.openssl.rel (fun c => r (.opensslDownload c))),
    PythonDir.opensslSite.on (libStage env.openssl (fun c => r (.opensslBuild c))),
    PythonDir.cpythonDownload.on (untarStage env.cpython (fun c => r (.cpythonDownload c))),
    -- the last two stages read other directories of the state they start from
    fun s => PythonDir.hostSite.on (hostStage env s.cpython.source r) s,
    fun s => PythonDir.targetSite.on (targetStage env s.cpython.source (s.inputs env) r) s]

/-- The command `zip -rq … ./* -x …`, in the standard library below `python_usr`.  It writes a
    new archive beside the old one and renames it. -/
def PythonDir.zipped (s : PythonDir) : PythonDir :=
  let z := zipInto (s.stdlibZip.getD Tree.empty) (stdlib (s.pythonUsr.getD Tree.empty))
  { s with stdlibZip := some z }

/-- `zip -rq "$PREFIX_DIR/lib/libpython.zip.so" ./* -x …` -/
def zipStdlib (v : CmdVerdict) : Script PythonDir :=
  tool v (fun s => some s.zipped) (fun k s => if k.begun then s.zipped else s)

/-- `cp "$PREFIX_DIR/lib/libpython.zip.so" "$TARGET_JNI_DIR/libpython.zip.so"` -/
def cpZip (v : CmdVerdict) : Script PythonDir :=
  tool v (fun s => s.stdlibZip.map fun z => { s with jniZip := some (.archive z) })
    (fun k s => if k.begun then { s with jniZip := some .torn } else s)

/-- The packaging of the result. -/
def packagePython (env : PythonEnv) (r : Run PythonCmd) : Script PythonDir :=
  seq [inert (r .mkdirJni),
    cpLib PythonDir.lib (fun s => s.target.bind (· pythonPath)) env.newMode (r .cpPython),
    stripLib PythonDir.lib env.strip (r .strip),
    -- `lib/python3.11` is part of the tree of `python_usr`
    cd (r .cdStdlib) PythonDir.pythonUsr,
    zipStdlib (r .zip),
    inert (r .cdBack),
    cpZip (r .cpZip),
    chmodLib PythonDir.lib (r .chmod)]

/-- `build_python.sh` -/
def buildPython (env : PythonEnv) (r : Run PythonCmd) : Script PythonDir :=
  seq [pythonStages env r, packagePython env r]

end VideoPackages
