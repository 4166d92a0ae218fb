import Mathlib.Data.Nat.Digits.Defs
import Neemata.Lib.Base64
import Neemata.Lib.PosixPath
import Neemata.Lib.Utf16
import Neemata.Lib.Utf8
import Neemata.Lib.Words

/-!
# Build targets

`createBuildGraph` of `neem/src/internal/build/graph.ts` with the directories that its targets are
written to, and the start entries of `neem/src/internal/manifest/manifest.ts`. The entries of a
configuration have been resolved, so that of a worker, a plugin or a logger there is whether it has
one.
-/

namespace Neemata.Neem

open CodeUnits PosixPath

/-! ## Names as parts of a path -/

def hyphen : UInt16 := unit '-'

/-- `[a-zA-Z0-9._]` -/
def isWordUnit (u : UInt16) : Bool :=
  (unit 'a' ≤ u && u ≤ unit 'z') || (unit 'A' ≤ u && u ≤ unit 'Z') ||
    (unit '0' ≤ u && u ≤ unit '9') || u == unit '.' || u == unit '_'

def sanitizePathPart (value : Text) : Text :=
  let replaced := (trim value).map fun u => if isWordUnit u || u == hyphen then u else hyphen
  let part := Words.strip hyphen (Words.collapse hyphen replaced)
  if part = [] then units "item" else part

/-! ## The configuration -/

structure RuntimeDeclaration where
  worker : Bool

structure Plugin where
  name : Text
  entry : Bool

structure Config where
  runtimes : List (Text × RuntimeDeclaration)
  nodup : (runtimes.map Prod.fst).Nodup
  logger : Bool
  plugins : List Plugin

def normalizeRuntimeNames (runtimes : Option (List Text)) : Option (List Text) :=
  match runtimes with
  | none => none
  | some runtimes =>
    let names := (runtimes.map trim).filter fun name => !name.isEmpty
    if names.isEmpty then none else some names

def assertRuntimeNamesExist (selected : Option (List Text)) (available : List Text) :
    Except Text Unit :=
  match selected with
  | none => .ok ()
  | some selected =>
    let missing := selected.filter fun name => !available.contains name
    if missing.isEmpty then .ok ()
    else .error (units "Unknown Neem runtime(s): " ++ (units ", ").intercalate missing)

/-- The runtimes that are built. -/
def selectedRuntimes (config : Config) (runtimes : Option (List Text)) :
    List (Text × RuntimeDeclaration) :=
  config.runtimes.filter fun runtime =>
    match normalizeRuntimeNames runtimes with
    | none => true
    | some selected => selected.contains runtime.1

/-! ## Targets -/

inductive BuildTargetKind where
  | runtimeWorker | runtimeHost | runtimePlanner | startEntry | workerEntry | hostRunnerEntry
  | pluginEntry | logger
deriving DecidableEq

structure BuildTarget where
  key : Text
  kind : BuildTargetKind
  outDir : Path
deriving DecidableEq

structure RuntimeBuildNode where
  name : Text
  worker : Option BuildTarget
  host : BuildTarget
  planner : BuildTarget

structure PluginBuildNode where
  key : Text
  name : Text
  entry : Option BuildTarget

structure BuildGraph where
  startEntry : BuildTarget
  workerEntry : BuildTarget
  hostRunnerEntry : BuildTarget
  logger : Option BuildTarget
  runtimes : List RuntimeBuildNode
  plugins : List PluginBuildNode

inductive BuildGroup where
  | infra (targets : List BuildTarget)
  | target (target : BuildTarget)

variable (cwd : Path) (outDir : Text)

/-- `String(index).padStart(3, '0')` -/
def padIndex (index : Nat) : Text :=
  let digits := Nat.digits 10 index
  (digits ++ List.replicate (3 - digits.length) 0).reverse.map fun d : Nat => unit '0' + d.toUInt16

def pluginKey (index : Nat) (name : Text) : Text :=
  padIndex index ++ hyphen :: sanitizePathPart name

def createPluginNode (index : Nat) (plugin : Plugin) : Except Text PluginBuildNode :=
  let name := trim plugin.name
  if name = [] then
    .error (units "Neem plugin at index [" ++ units (toString index) ++ units "] must have a name")
  else
    let key := pluginKey index name
    .ok {
      key, name
      entry := if plugin.entry then some {
        key := units "plugin:" ++ key
        kind := .pluginEntry
        outDir := resolve cwd [outDir, units "config", units "plugins", key] } else none }

def createPluginNodes (config : Config) : Except Text (List PluginBuildNode) :=
  (config.plugins.zipIdx).mapM fun plugin => createPluginNode cwd outDir plugin.2 plugin.1

/-- A target of the group `infra`. -/
def infraTarget (key : String) (kind : BuildTargetKind) : BuildTarget where
  key := units key
  kind := kind
  outDir := resolve cwd [outDir, units "runtime"]

def createStartEntryTarget : BuildTarget :=
  infraTarget cwd outDir "runtime:start-entry" .startEntry

def createWorkerEntryTarget : BuildTarget :=
  infraTarget cwd outDir "runtime:worker-entry" .workerEntry

def createHostRunnerEntryTarget : BuildTarget :=
  infraTarget cwd outDir "runtime:host-runner-entry" .hostRunnerEntry

def createLoggerTarget (config : Config) : Option BuildTarget :=
  if config.logger then some {
    key := units "config:logger"
    kind := .logger
    outDir := resolve cwd [outDir, units "config", units "logger"] }
  else none

def runtimeTarget (runtimeDir : Path) (name : Text) (part : String) (kind : BuildTargetKind) :
    BuildTarget where
  key := units "runtime:" ++ name ++ units ":" ++ units part
  kind := kind
  outDir := resolve runtimeDir [units part]

def createRuntimeNode (runtime : Text × RuntimeDeclaration) : RuntimeBuildNode :=
  let runtimeDir := resolve cwd [outDir, units "runtime", sanitizePathPart runtime.1]
  { name := runtime.1
    worker := if runtime.2.worker then
      some (runtimeTarget runtimeDir runtime.1 "worker" .runtimeWorker) else none
    host := runtimeTarget runtimeDir runtime.1 "host" .runtimeHost
    planner := runtimeTarget runtimeDir runtime.1 "planner" .runtimePlanner }

def RuntimeBuildNode.targets (runtime : RuntimeBuildNode) : List BuildTarget :=
  runtime.worker.toList ++ [runtime.host, runtime.planner]

def BuildGraph.infraTargets (graph : BuildGraph) : List BuildTarget :=
  [graph.startEntry, graph.workerEntry, graph.hostRunnerEntry]

def BuildGraph.targets (graph : BuildGraph) : List BuildTarget :=
  graph.infraTargets ++ graph.logger.toList ++ graph.runtimes.flatMap RuntimeBuildNode.targets ++
    graph.plugins.filterMap PluginBuildNode.entry

def BuildGraph.buildGroups (graph : BuildGraph) : List BuildGroup :=
  .infra graph.infraTargets ::
    (graph.targets.drop graph.infraTargets.length).map BuildGroup.target

def createBuildGraph (config : Config) (runtimes : Option (List Text)) :
    Except Text BuildGraph := do
  assertRuntimeNamesExist (normalizeRuntimeNames runtimes) (config.runtimes.map Prod.fst)
  let plugins ← createPluginNodes cwd outDir config
  return {
    startEntry := createStartEntryTarget cwd outDir
    workerEntry := createWorkerEntryTarget cwd outDir
    hostRunnerEntry := createHostRunnerEntryTarget cwd outDir
    logger := createLoggerTarget cwd outDir config
    runtimes := (selectedRuntimes config runtimes).map (createRuntimeNode cwd outDir)
    plugins }

/-! ## Start entries -/

/-- `[A-Za-z0-9_-]` -/
def isSafeUnit (u : UInt16) : Bool :=
  (unit 'A' ≤ u && u ≤ unit 'Z') || (unit 'a' ≤ u && u ≤ unit 'z') ||
    (unit '0' ≤ u && u ≤ unit '9') || u == unit '_' || u == hyphen

/-- `SAFE_RUNTIME_START_DIR_NAME` -/
def isSafe (name : Text) : Bool := !name.isEmpty && name.all isSafeUnit

def toRuntimeStartDirName (name : Text) : Text :=
  if isSafe name then name
  else unit '~' :: Base64.encodeUrl (Utf8.encode (Utf16.decode name))

/-- The directory of the start entry of a runtime. -/
def startDir (name : Text) : Path :=
  resolve cwd [outDir, units "runtimes", toRuntimeStartDirName name]

/-- The files of `writeStartEntries`. -/
def writeStartEntries (runtimeNames : List Text) : List Path :=
  resolve cwd [outDir, units "start.js"] ::
    runtimeNames.map fun name => resolve (startDir cwd outDir name) [units "start.js"]

end Neemata.Neem
