import VideoPackages.Recovery
import VideoPackages.BuildQuickjs
import VideoPackages.BuildFfmpeg
import VideoPackages.FixApk
import VideoPackages.Lib.Glob
import VideoPackages.StdlibZip
import VideoPackages.BuildPython
import VideoPackages.PythonGuards
import VideoPackages.StdlibContents
import VideoPackages.Lib.Actions
import VideoPackages.Workflow
import VideoPackages.ReleaseJob
import VideoPackages.Releases
import VideoPackages.Lib.Words
import VideoPackages.Lib.PlainWords
import VideoPackages.Lib.Lines
import VideoPackages.Ndk
import VideoPackages.NdkResolution
import VideoPackages.Lib.Completion
import VideoPackages.Publishing
import VideoPackages.CiBuilds
import VideoPackages.CiFfmpeg
import VideoPackages.PackageApk
import VideoPackages.Lib.Variables
import VideoPackages.PythonVariables
import VideoPackages.Lib.Traverse
import VideoPackages.Lib.RefGraph
import VideoPackages.QuickjsGc
import VideoPackages.QuickjsGcFree
import VideoPackages.QuickjsHeap
import VideoPackages.Lib.Boundaries
import VideoPackages.CharRange
import VideoPackages.Lib.Bytes
import VideoPackages.Lib.Backtracking
import VideoPackages.RegexpCode
import VideoPackages.RegexpClass
import VideoPackages.RegexpCompile
import VideoPackages.RegexpMatch
import VideoPackages.RegexpExec
import VideoPackages.RegexpSteps
import VideoPackages.RegexpLoops
import VideoPackages.RegexpAdvance
import VideoPackages.RegexpGreedy
import VideoPackages.RegexpBackReference
import VideoPackages.RegexpQuant
import VideoPackages.RegexpCorrect
import VideoPackages.RegexpLazy
import VideoPackages.Lib.Languages
import VideoPackages.RegexpLanguage
