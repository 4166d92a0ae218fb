import Neemata.Lib.Join
import Neemata.Neem.PathParts

/-!
# Where the targets are written to

The outputs of the targets are apart exactly if the names of the runtimes differ as lists of words
and no runtime called `.` stands beside one called like a part of a runtime, and start entries are
apart exactly if the names differ as characters (`outputs_iff`).
-/

namespace Neemata.Neem

open CodeUnits PosixPath

/-! ## What should be apart -/

/-- The targets outside the group `infra`. -/
def BuildGraph.outside (graph : BuildGraph) : List BuildTarget :=
  graph.buildGroups.flatMap fun
    | .infra _ => []
    | .target target => [target]

def StrictlyBelow (root path : Path) : Prop := root <+: path ∧ root ≠ path

structure TargetsApart (cwd : Path) (outDir : Text) (graph : BuildGraph) : Prop where
  apart : graph.outside.Pairwise fun t t' => Apart t.outDir t'.outDir
  not_infra : ∀ t ∈ graph.outside, ∀ t' ∈ graph.infraTargets, t.outDir ≠ t'.outDir
  below : ∀ t ∈ graph.targets, StrictlyBelow (resolve cwd [outDir]) t.outDir

/-- The directories of the start entries of runtimes. -/
def startDirs (cwd : Path) (outDir : Text) (names : List Text) : List Path :=
  (writeStartEntries cwd outDir names).tail.map List.dropLast

structure StartEntriesApart (cwd : Path) (outDir : Text) (names : List Text) : Prop where
  distinct : (startDirs cwd outDir names).Nodup
  below : ∀ dir ∈ startDirs cwd outDir names,
    StrictlyBelow (resolve cwd [outDir, units "runtimes"]) dir

/-! ## When it is -/

/-- The directories of a runtime. -/
def parts (declaration : RuntimeDeclaration) : List Text :=
  (if declaration.worker then [units "worker"] else []) ++ [units "host", units "planner"]

/-- A runtime called `.`, whose directories another runtime is called like one of. -/
def Shadows (runtime other : Text × RuntimeDeclaration) : Prop :=
  nameWords runtime.1 = [dot] ∧ ∃ part ∈ parts runtime.2, nameWords other.1 = [part]

def Separate (runtime other : Text × RuntimeDeclaration) : Prop :=
  nameWords runtime.1 ≠ nameWords other.1 ∧ ¬ Shadows runtime other ∧ ¬ Shadows other runtime

instance decidableShadows (runtime other : Text × RuntimeDeclaration) :
    Decidable (Shadows runtime other) :=
  inferInstanceAs (Decidable (_ ∧ _))

instance decidableSeparate (runtime other : Text × RuntimeDeclaration) :
    Decidable (Separate runtime other) :=
  inferInstanceAs (Decidable (_ ∧ _))

/-! ## Targets below the root -/

variable {cwd : Path} {outDir : Text}

/-- The directory of a runtime below the output directory. -/
def runtimePath (name : Text) : Path :=
  let part := sanitizePathPart name
  if part = dot then [units "runtime"]
  else if part = dotDot then []
  else [units "runtime", part]

theorem resolve_runtimePath (name : Text) :
    resolve cwd [outDir, units "runtime", sanitizePathPart name] =
      resolve cwd [outDir] ++ runtimePath name := by
  have hruntime : Plain (units "runtime") := by decide
  rw [resolve_cons, resolve_cons, hruntime.resolve,
    resolve_segment (slash_notMem_sanitizePathPart name), step, runtimePath]
  simp only [sanitizePathPart_ne_nil, false_or]
  split
  · rfl
  · split
    · rw [List.dropLast_concat, List.append_nil]
    · rw [List.append_assoc]
      rfl

theorem mem_of_mem_parts {declaration : RuntimeDeclaration} {part : Text}
    (h : part ∈ parts declaration) : part ∈ [units "worker", units "host", units "planner"] := by
  rw [parts] at h
  split at h
  · exact h
  · exact List.mem_cons_of_mem _ h

theorem plain_part {declaration : RuntimeDeclaration} {part : Text}
    (h : part ∈ parts declaration) : Plain part := by
  have hplain : ∀ part ∈ [units "worker", units "host", units "planner"], Plain part := by decide
  exact hplain part (mem_of_mem_parts h)

variable (cwd outDir) in
theorem outDirs_runtime (runtime : Text × RuntimeDeclaration) :
    (createRuntimeNode cwd outDir runtime).targets.map BuildTarget.outDir =
      (parts runtime.2).map fun part =>
        resolve cwd [outDir] ++ (runtimePath runtime.1 ++ [part]) := by
  have hparts : ∀ part ∈ [units "worker", units "host", units "planner"], Plain part := by decide
  obtain ⟨hworker, hparts⟩ := List.forall_mem_cons.mp hparts
  obtain ⟨hhost, hparts⟩ := List.forall_mem_cons.mp hparts
  have hplanner := hparts _ (List.mem_singleton_self _)
  rw [createRuntimeNode, RuntimeBuildNode.targets, parts, resolve_runtimePath]
  split
  · simp only [Option.toList_some, List.cons_append, List.nil_append, List.map_cons, List.map_nil,
      runtimeTarget, hworker.resolve, hhost.resolve, hplanner.resolve, List.append_assoc]
  · simp only [Option.toList_none, List.nil_append, List.map_cons, List.map_nil,
      runtimeTarget, hhost.resolve, hplanner.resolve, List.append_assoc]

/-! ## Two runtimes -/

theorem runtimePath_words (name : Text) : runtimePath name =
    if nameWords name = [dot] then [units "runtime"]
    else if nameWords name = [dotDot] then []
    else [units "runtime", sanitizePathPart name] := by
  rw [runtimePath]
  simp only [sanitizePathPart_eq_word (show Words.words isWordUnit dot = [dot] by decide),
    sanitizePathPart_eq_word (show Words.words isWordUnit dotDot = [dotDot] by decide)]

theorem host_mem (declaration : RuntimeDeclaration) : units "host" ∈ parts declaration :=
  List.mem_append_right _ List.mem_cons_self

theorem ne_runtime {declaration : RuntimeDeclaration} {part : Text}
    (h : part ∈ parts declaration) : part ≠ units "runtime" := by
  have hne : ∀ part ∈ [units "worker", units "host", units "planner"],
      part ≠ units "runtime" := by decide
  exact hne part (mem_of_mem_parts h)

/-- A part is a word. -/
theorem sanitizePathPart_eq_part {declaration : RuntimeDeclaration} {part : Text}
    (h : part ∈ parts declaration) (name : Text) :
    sanitizePathPart name = part ↔ nameWords name = [part] := by
  have hwords : ∀ part ∈ [units "worker", units "host", units "planner"],
      Words.words isWordUnit part = [part] := by decide
  exact sanitizePathPart_eq_word (hwords part (mem_of_mem_parts h)) name

variable {r s : Text × RuntimeDeclaration}

/-- The directories of two runtimes are apart. -/
def PathsApart (r s : Text × RuntimeDeclaration) : Prop :=
  ∀ part ∈ parts r.2, ∀ part' ∈ parts s.2,
    Apart (runtimePath r.1 ++ [part]) (runtimePath s.1 ++ [part'])

theorem PathsApart.symm (h : PathsApart r s) : PathsApart s r :=
  fun part hpart part' hpart' => (h part' hpart' part hpart).symm

/-- A runtime called `.` puts its directories where those of the others are. -/
theorem pathsApart_dot (hr : nameWords r.1 = [dot]) (hs : nameWords s.1 ≠ [dot])
    (hshadows : ¬ Shadows r s) : PathsApart r s := by
  intro part hpart part' hpart'
  rw [runtimePath_words r.1, if_pos hr, runtimePath_words s.1, if_neg hs]
  split
  · exact apart_cons (ne_runtime hpart').symm
  · refine apart_cons_iff.mpr (.inr (apart_cons fun heq => hshadows ⟨hr, part, hpart, ?_⟩))
    exact (sanitizePathPart_eq_part hpart s.1).mp heq.symm

/-- A runtime called `..` puts its directories above those of the others. -/
theorem pathsApart_dotDot (hr : nameWords r.1 = [dotDot]) (hs : nameWords s.1 ≠ [dot])
    (hs' : nameWords s.1 ≠ [dotDot]) : PathsApart r s := by
  intro part hpart part' _
  rw [runtimePath_words r.1, if_neg (by rw [hr]; decide), if_pos hr, runtimePath_words s.1,
    if_neg hs, if_neg hs']
  exact apart_cons (ne_runtime hpart)

theorem pathsApart_of_separate (h : Separate r s) : PathsApart r s := by
  obtain ⟨hne, hrs, hsr⟩ := h
  by_cases hr : nameWords r.1 = [dot]
  · exact pathsApart_dot hr (fun hs => hne (hr.trans hs.symm)) hrs
  by_cases hs : nameWords s.1 = [dot]
  · exact (pathsApart_dot hs hr hsr).symm
  by_cases hr' : nameWords r.1 = [dotDot]
  · exact pathsApart_dotDot hr' hs fun hs' => hne (hr'.trans hs'.symm)
  by_cases hs' : nameWords s.1 = [dotDot]
  · exact (pathsApart_dotDot hs' hr hr').symm
  · intro part _ part' _
    rw [runtimePath_words r.1, if_neg hr, if_neg hr', runtimePath_words s.1, if_neg hs, if_neg hs']
    exact apart_cons_iff.mpr (.inr
      (apart_cons fun heq => hne ((sanitizePathPart_eq_iff _ _).mp heq)))

theorem not_shadows_of_pathsApart (h : PathsApart r s) : ¬ Shadows r s := by
  rintro ⟨hr, part, hpart, hs⟩
  have hplain := plain_part hpart
  have hapart := h part hpart _ (host_mem s.2)
  rw [runtimePath_words r.1, if_pos hr, runtimePath_words s.1, hs,
    if_neg fun heq => hplain.ne_dot (List.singleton_inj.mp heq),
    if_neg fun heq => hplain.ne_dotDot (List.singleton_inj.mp heq),
    (sanitizePathPart_eq_part hpart s.1).mpr hs] at hapart
  exact hapart.1 (List.prefix_append [units "runtime", part] [units "host"])

theorem separate_iff : PathsApart r s ↔ Separate r s := by
  refine ⟨fun h => ⟨fun heq => ?_, not_shadows_of_pathsApart h,
    not_shadows_of_pathsApart h.symm⟩, pathsApart_of_separate⟩
  have hapart := h _ (host_mem r.2) _ (host_mem s.2)
  rw [runtimePath_words r.1, heq, (sanitizePathPart_eq_iff r.1 s.1).mpr heq,
    ← runtimePath_words s.1] at hapart
  exact hapart.1 List.prefix_rfl

/-! ## Plugins -/

/-- The index of a plugin can be read off its key. -/
def keyIndex (digits : Text) : Nat :=
  Nat.ofDigits 10 (digits.reverse.map fun u => (u - unit '0').toNat)

theorem digit_lt {index d : Nat}
    (h : d ∈ Nat.digits 10 index ++ List.replicate (3 - (Nat.digits 10 index).length) 0) :
    d < 10 := by
  rcases List.mem_append.mp h with h | h
  · exact Nat.digits_lt_base (by decide) h
  · rw [List.eq_of_mem_replicate h]
    decide

theorem digit_unit : ∀ d < 10, (unit '0' + d.toUInt16 - unit '0').toNat = d ∧
    48 ≤ (unit '0' + d.toUInt16).toNat := by decide

theorem keyIndex_padIndex (index : Nat) : keyIndex (padIndex index) = index := by
  have hdigits : (Nat.digits 10 index ++
      List.replicate (3 - (Nat.digits 10 index).length) 0).map
        ((fun u : UInt16 => (u - unit '0').toNat) ∘ fun d : Nat => unit '0' + d.toUInt16) =
      Nat.digits 10 index ++ List.replicate (3 - (Nat.digits 10 index).length) 0 := by
    refine (List.map_congr_left fun d hd => ?_).trans (List.map_id _)
    exact (digit_unit d (digit_lt hd)).1
  rw [keyIndex, padIndex, ← List.map_reverse, List.reverse_reverse, List.map_map, hdigits,
    Nat.ofDigits_append_replicate_zero, Nat.ofDigits_digits]

theorem mem_padIndex {index : Nat} {u : UInt16} (h : u ∈ padIndex index) : 48 ≤ u.toNat := by
  obtain ⟨d, hd, rfl⟩ := List.mem_map.mp h
  exact (digit_unit d (digit_lt (List.mem_reverse.mp hd))).2

theorem hyphen_notMem_padIndex (index : Nat) : hyphen ∉ padIndex index :=
  fun h => absurd (mem_padIndex h) (by decide)

theorem pluginKey_injective {i j : Nat} {a b : Text} (h : pluginKey i a = pluginKey j b) :
    i = j := by
  have hpad := (append_cons_inj_left (hyphen_notMem_padIndex i) (hyphen_notMem_padIndex j) h).1
  rw [← keyIndex_padIndex i, hpad, keyIndex_padIndex]

theorem plain_pluginKey (index : Nat) (name : Text) : Plain (pluginKey index name) := by
  have hhyphen : hyphen ∈ pluginKey index name :=
    List.mem_append_right _ List.mem_cons_self
  refine ⟨List.ne_nil_of_mem hhyphen, fun h => ?_, fun h => ?_, fun h => ?_⟩
  · exact absurd (h ▸ hhyphen) (by decide)
  · exact absurd (h ▸ hhyphen) (by decide)
  · rcases List.mem_append.mp h with hpad | hname
    · exact absurd (mem_padIndex hpad) (by decide)
    · rcases List.mem_cons.mp hname with heq | hname
      · exact absurd heq (by decide)
      · exact slash_notMem_sanitizePathPart name hname

/-- Where the plugins from an index on are written to. -/
def PluginDirs (cwd : Path) (outDir : Text) (start : Nat) (targets : List BuildTarget) : Prop :=
  ∀ t ∈ targets, ∃ index name, start ≤ index ∧
    t.outDir = resolve cwd [outDir] ++ [units "config", units "plugins", pluginKey index name]

theorem createPluginNode_entry {index : Nat} {plugin : Plugin} {node : PluginBuildNode}
    (h : createPluginNode cwd outDir index plugin = .ok node) :
    ∀ t ∈ node.entry, t.outDir = resolve cwd [outDir] ++
      [units "config", units "plugins", pluginKey index (trim plugin.name)] := by
  unfold createPluginNode at h
  dsimp only at h
  split at h
  · cases h
  · cases h
    intro t ht
    dsimp only at ht
    split at ht
    · cases ht
      have hplain : ∀ segment ∈ [units "config", units "plugins",
          pluginKey index (trim plugin.name)], Plain segment := by
        refine List.forall_mem_cons.mpr ⟨by decide, List.forall_mem_cons.mpr ⟨by decide, ?_⟩⟩
        exact List.forall_mem_singleton.mpr (plain_pluginKey _ _)
      exact resolve_plains (resolve cwd [outDir]) hplain
    · cases ht

theorem createPluginNodes_dirs {plugins : List Plugin} {start : Nat}
    {nodes : List PluginBuildNode} (h : (plugins.zipIdx start).mapM
      (fun plugin => createPluginNode cwd outDir plugin.2 plugin.1) = .ok nodes) :
    PluginDirs cwd outDir start (nodes.filterMap PluginBuildNode.entry) ∧
      (nodes.filterMap PluginBuildNode.entry).Pairwise fun t t' => Apart t.outDir t'.outDir := by
  induction plugins generalizing start nodes with
  | nil =>
    cases h
    exact ⟨fun t ht => absurd ht List.not_mem_nil, .nil⟩
  | cons plugin plugins ih =>
    rw [List.zipIdx_cons, List.mapM_cons] at h
    cases hnode : createPluginNode cwd outDir start plugin with
    | error e =>
      rw [hnode] at h
      cases h
    | ok node =>
      cases hnodes : (plugins.zipIdx (start + 1)).mapM
          (fun plugin => createPluginNode cwd outDir plugin.2 plugin.1) with
      | error e =>
        rw [hnode, hnodes] at h
        cases h
      | ok nodes =>
        rw [hnode, hnodes] at h
        cases h
        obtain ⟨hdirs, hapart⟩ := ih hnodes
        have hlater : PluginDirs cwd outDir start (nodes.filterMap PluginBuildNode.entry) := by
          intro t ht
          obtain ⟨index, name, hindex, hdir⟩ := hdirs t ht
          exact ⟨index, name, Nat.le_of_succ_le hindex, hdir⟩
        cases hentry : node.entry with
        | none =>
          rw [List.filterMap_cons_none hentry]
          exact ⟨hlater, hapart⟩
        | some t =>
          have hdir := createPluginNode_entry hnode t hentry
          rw [List.filterMap_cons_some hentry]
          refine ⟨List.forall_mem_cons.mpr ⟨⟨start, _, Nat.le_refl _, hdir⟩, hlater⟩,
            List.pairwise_cons.mpr ⟨fun t' ht' => ?_, hapart⟩⟩
          obtain ⟨index, name, hindex, hdir'⟩ := hdirs t' ht'
          rw [hdir, hdir', apart_append_iff]
          refine apart_cons_iff.mpr (.inr (apart_cons_iff.mpr (.inr (apart_cons fun hkey => ?_))))
          exact absurd (pluginKey_injective hkey) (Nat.ne_of_lt hindex)

/-! ## The graph -/

variable {config : Config} {runtimes : Option (List Text)} {graph : BuildGraph}

theorem outside_eq (graph : BuildGraph) : graph.outside =
    graph.logger.toList ++ graph.runtimes.flatMap RuntimeBuildNode.targets ++
      graph.plugins.filterMap PluginBuildNode.entry := by
  have hdrop : graph.targets.drop graph.infraTargets.length = graph.logger.toList ++
      graph.runtimes.flatMap RuntimeBuildNode.targets ++
        graph.plugins.filterMap PluginBuildNode.entry := by
    rw [BuildGraph.targets, List.append_assoc, List.append_assoc, List.drop_left,
      List.append_assoc]
  rw [BuildGraph.outside, BuildGraph.buildGroups, List.flatMap_cons, List.flatMap_map, hdrop]
  exact List.flatMap_singleton' _

theorem createBuildGraph_ok (h : createBuildGraph cwd outDir config runtimes = .ok graph) :
    graph.infraTargets = [createStartEntryTarget cwd outDir, createWorkerEntryTarget cwd outDir,
      createHostRunnerEntryTarget cwd outDir] ∧
    graph.logger = createLoggerTarget cwd outDir config ∧
    graph.runtimes = (selectedRuntimes config runtimes).map (createRuntimeNode cwd outDir) ∧
    createPluginNodes cwd outDir config = .ok graph.plugins := by
  unfold createBuildGraph at h
  cases hnames : assertRuntimeNamesExist (normalizeRuntimeNames runtimes)
      (config.runtimes.map Prod.fst) with
  | error e =>
    rw [hnames] at h
    cases h
  | ok _ =>
    cases hplugins : createPluginNodes cwd outDir config with
    | error e =>
      rw [hnames, hplugins] at h
      cases h
    | ok plugins =>
      rw [hnames, hplugins] at h
      cases h
      exact ⟨rfl, rfl, rfl, rfl⟩

theorem resolve_infra : resolve cwd [outDir, units "runtime"] =
    resolve cwd [outDir] ++ [units "runtime"] :=
  resolve_plains (resolve cwd [outDir]) (by decide)

theorem resolve_logger : resolve cwd [outDir, units "config", units "logger"] =
    resolve cwd [outDir] ++ [units "config", units "logger"] :=
  resolve_plains (resolve cwd [outDir]) (by decide)

/-- The directories of a runtime are neither the one of the infra group nor below `config`. -/
theorem runtimePath_append {declaration : RuntimeDeclaration} {part : Text}
    (hpart : part ∈ parts declaration) (name : Text) :
    runtimePath name ++ [part] ≠ [units "runtime"] ∧
      ∀ rest, Apart (runtimePath name ++ [part]) (units "config" :: rest) := by
  have hconfig : ∀ part ∈ [units "worker", units "host", units "planner"],
      part ≠ units "config" := by decide
  have hruntime : units "runtime" ≠ units "config" := by decide
  rw [runtimePath_words]
  split
  · exact ⟨fun h => absurd (congrArg List.length h) (by simp), fun _ => apart_cons hruntime⟩
  · split
    · exact ⟨fun h => ne_runtime hpart (List.singleton_inj.mp h),
        fun _ => apart_cons (hconfig part (mem_of_mem_parts hpart))⟩
    · exact ⟨fun h => absurd (congrArg List.length h) (by simp), fun _ => apart_cons hruntime⟩

theorem mem_outDirs {runtime : Text × RuntimeDeclaration} {dir : Path} :
    (∃ t ∈ (createRuntimeNode cwd outDir runtime).targets, t.outDir = dir) ↔
      ∃ part ∈ parts runtime.2,
        resolve cwd [outDir] ++ (runtimePath runtime.1 ++ [part]) = dir := by
  rw [← List.mem_map, outDirs_runtime cwd outDir runtime, List.mem_map]

theorem nodup_parts (declaration : RuntimeDeclaration) : (parts declaration).Nodup := by
  rw [parts]
  split <;> decide

theorem pairwise_runtime (runtime : Text × RuntimeDeclaration) :
    (createRuntimeNode cwd outDir runtime).targets.Pairwise
      fun t t' => Apart t.outDir t'.outDir := by
  have hdirs : ((createRuntimeNode cwd outDir runtime).targets.map BuildTarget.outDir).Pairwise
      Apart := by
    rw [outDirs_runtime cwd outDir runtime, List.pairwise_map]
    refine (nodup_parts runtime.2).imp fun {a b} hne => ?_
    rw [apart_append_iff, apart_append_iff]
    exact apart_cons hne
  exact List.pairwise_map.mp hdirs

theorem pairwise_runtimes (l : List (Text × RuntimeDeclaration)) :
    ((l.map (createRuntimeNode cwd outDir)).flatMap RuntimeBuildNode.targets).Pairwise
        (fun t t' => Apart t.outDir t'.outDir) ↔ l.Pairwise Separate := by
  rw [List.pairwise_flatMap, List.pairwise_map]
  have hpaths : ∀ r s, (∀ t ∈ (createRuntimeNode cwd outDir r).targets,
      ∀ t' ∈ (createRuntimeNode cwd outDir s).targets, Apart t.outDir t'.outDir) ↔
        Separate r s := by
    intro r s
    rw [← separate_iff]
    constructor
    · intro h part hpart part' hpart'
      obtain ⟨t, ht, htdir⟩ := mem_outDirs.mpr ⟨part, hpart, rfl⟩
      obtain ⟨t', ht', htdir'⟩ := mem_outDirs.mpr ⟨part', hpart', rfl⟩
      have hapart := h t ht t' ht'
      rw [htdir, htdir', apart_append_iff] at hapart
      exact hapart
    · intro h t ht t' ht'
      obtain ⟨part, hpart, hdir⟩ := mem_outDirs.mp ⟨t, ht, rfl⟩
      obtain ⟨part', hpart', hdir'⟩ := mem_outDirs.mp ⟨t', ht', rfl⟩
      rw [← hdir, ← hdir', apart_append_iff]
      exact h part hpart part' hpart'
  constructor
  · exact fun h => h.2.imp fun {r s} hall => (hpaths r s).mp hall
  · refine fun h => ⟨fun node hnode => ?_, h.imp fun {r s} hsep => (hpaths r s).mpr hsep⟩
    obtain ⟨runtime, -, rfl⟩ := List.mem_map.mp hnode
    exact pairwise_runtime runtime

theorem strictlyBelow_append (root : Path) {path : Path} (h : path ≠ []) :
    StrictlyBelow root (root ++ path) :=
  ⟨List.prefix_append root path, fun heq => h (List.self_eq_append_right.mp heq)⟩

/-- A target outside the infra group. -/
inductive Outside (cwd : Path) (outDir : Text) : BuildTarget → Prop where
  | logger {t : BuildTarget} (h : t.outDir =
      resolve cwd [outDir] ++ [units "config", units "logger"]) : Outside cwd outDir t
  | runtime {t : BuildTarget} (runtime : Text × RuntimeDeclaration) (part : Text)
      (hpart : part ∈ parts runtime.2)
      (h : t.outDir = resolve cwd [outDir] ++ (runtimePath runtime.1 ++ [part])) :
      Outside cwd outDir t
  | plugin {t : BuildTarget} (key : Text) (h : t.outDir =
      resolve cwd [outDir] ++ [units "config", units "plugins", key]) : Outside cwd outDir t

theorem outside_logger {t : BuildTarget} (h : t ∈ createLoggerTarget cwd outDir config) :
    t.outDir = resolve cwd [outDir] ++ [units "config", units "logger"] := by
  rw [createLoggerTarget] at h
  split at h
  · cases h
    exact resolve_logger
  · cases h

theorem outside_runtime {t : BuildTarget} {l : List (Text × RuntimeDeclaration)}
    (h : t ∈ (l.map (createRuntimeNode cwd outDir)).flatMap RuntimeBuildNode.targets) :
    ∃ (runtime : Text × RuntimeDeclaration) (part : Text), part ∈ parts runtime.2 ∧
      t.outDir = resolve cwd [outDir] ++ (runtimePath runtime.1 ++ [part]) := by
  obtain ⟨node, hnode, ht⟩ := List.mem_flatMap.mp h
  obtain ⟨runtime, -, rfl⟩ := List.mem_map.mp hnode
  obtain ⟨part, hpart, hdir⟩ := mem_outDirs.mp ⟨t, ht, rfl⟩
  exact ⟨runtime, part, hpart, hdir.symm⟩

theorem Outside.ne_infra {t : BuildTarget} (h : Outside cwd outDir t) :
    t.outDir ≠ resolve cwd [outDir] ++ [units "runtime"] := by
  cases h with
  | logger h =>
    rw [h]
    exact fun heq => absurd (List.append_cancel_left heq) (by decide)
  | runtime runtime part hpart h =>
    rw [h]
    exact fun heq => (runtimePath_append hpart runtime.1).1 (List.append_cancel_left heq)
  | plugin key h =>
    rw [h]
    exact fun heq => absurd (congrArg List.length (List.append_cancel_left heq)) (by simp)

theorem Outside.below {t : BuildTarget} (h : Outside cwd outDir t) :
    StrictlyBelow (resolve cwd [outDir]) t.outDir := by
  cases h with
  | logger h =>
    rw [h]
    exact strictlyBelow_append _ (List.cons_ne_nil _ _)
  | runtime runtime part hpart h =>
    rw [h]
    exact strictlyBelow_append _ (List.append_ne_nil_of_right_ne_nil _ (List.cons_ne_nil _ _))
  | plugin key h =>
    rw [h]
    exact strictlyBelow_append _ (List.cons_ne_nil _ _)

theorem targetsApart_iff (h : createBuildGraph cwd outDir config runtimes = .ok graph) :
    TargetsApart cwd outDir graph ↔ (selectedRuntimes config runtimes).Pairwise Separate := by
  obtain ⟨hinfra, hlogger, hruntimes, hplugins⟩ := createBuildGraph_ok h
  obtain ⟨hdirs, hapart⟩ := createPluginNodes_dirs hplugins
  have houtside : ∀ t ∈ graph.outside, Outside cwd outDir t := by
    intro t ht
    rw [outside_eq, hlogger, hruntimes] at ht
    rcases List.mem_append.mp ht with ht | ht
    · rcases List.mem_append.mp ht with ht | ht
      · exact .logger (outside_logger (Option.mem_toList.mp ht))
      · obtain ⟨runtime, part, hpart, hdir⟩ := outside_runtime ht
        exact .runtime runtime part hpart hdir
    · obtain ⟨index, name, -, hdir⟩ := hdirs t ht
      exact .plugin _ hdir
  have hinfraDir : ∀ t ∈ graph.infraTargets,
      t.outDir = resolve cwd [outDir] ++ [units "runtime"] := by
    rw [hinfra]
    simp [createStartEntryTarget, createWorkerEntryTarget, createHostRunnerEntryTarget,
      infraTarget, resolve_infra]
  have hiff : graph.outside.Pairwise (fun t t' => Apart t.outDir t'.outDir) ↔
      (selectedRuntimes config runtimes).Pairwise Separate := by
    rw [outside_eq, hlogger, hruntimes, List.pairwise_append, List.pairwise_append,
      pairwise_runtimes]
    refine ⟨fun hall => hall.1.2.1, fun hsep => ⟨⟨?_, hsep, ?_⟩, hapart, ?_⟩⟩
    · rw [createLoggerTarget]
      split
      · exact List.pairwise_singleton _ _
      · exact .nil
    · intro t ht t' ht'
      obtain ⟨runtime, part, hpart, hdir⟩ := outside_runtime ht'
      rw [outside_logger (Option.mem_toList.mp ht), hdir, apart_append_iff]
      exact ((runtimePath_append hpart runtime.1).2 _).symm
    · intro t ht t' ht'
      obtain ⟨index, name, -, hdir'⟩ := hdirs t' ht'
      rw [hdir']
      rcases List.mem_append.mp ht with ht | ht
      · rw [outside_logger (Option.mem_toList.mp ht), apart_append_iff]
        exact apart_cons_iff.mpr (.inr (apart_cons (by decide)))
      · obtain ⟨runtime, part, hpart, hdir⟩ := outside_runtime ht
        rw [hdir, apart_append_iff]
        exact (runtimePath_append hpart runtime.1).2 _
  refine ⟨fun hall => hiff.mp hall.apart, fun hsep => ⟨hiff.mpr hsep, ?_, ?_⟩⟩
  · intro t ht t' ht'
    rw [hinfraDir t' ht']
    exact (houtside t ht).ne_infra
  · intro t ht
    rw [BuildGraph.targets, List.append_assoc, List.append_assoc, ← List.append_assoc _ _
      (graph.plugins.filterMap PluginBuildNode.entry), ← outside_eq] at ht
    rcases List.mem_append.mp ht with ht | ht
    · rw [hinfraDir t ht]
      exact strictlyBelow_append _ (List.cons_ne_nil _ _)
    · exact (houtside t ht).below

/-! ## Start entries -/

theorem startDirs_eq (names : List Text) : startDirs cwd outDir names = names.map fun name =>
    resolve cwd [outDir, units "runtimes"] ++ [toRuntimeStartDirName name] := by
  have hstart : Plain (units "start.js") := by decide
  rw [startDirs, writeStartEntries, List.tail_cons, List.map_map]
  refine List.map_congr_left fun name _ => ?_
  show List.dropLast (resolve (startDir cwd outDir name) [units "start.js"]) = _
  rw [hstart.resolve, List.dropLast_concat]
  show resolve (resolve cwd [outDir, units "runtimes"]) [toRuntimeStartDirName name] = _
  exact (plain_toRuntimeStartDirName name).resolve

theorem startEntriesApart_iff (names : List Text) : StartEntriesApart cwd outDir names ↔
    names.Pairwise fun a b => Utf16.decode a ≠ Utf16.decode b := by
  have hnodup : (startDirs cwd outDir names).Nodup ↔
      names.Pairwise fun a b => Utf16.decode a ≠ Utf16.decode b := by
    have hname : ∀ a b, resolve cwd [outDir, units "runtimes"] ++ [toRuntimeStartDirName a] ≠
        resolve cwd [outDir, units "runtimes"] ++ [toRuntimeStartDirName b] ↔
          Utf16.decode a ≠ Utf16.decode b := fun a b => by
      rw [ne_eq, ne_eq, List.append_cancel_left_eq, List.singleton_inj,
        toRuntimeStartDirName_eq_iff]
    rw [startDirs_eq, List.Nodup, List.pairwise_map]
    exact ⟨fun h => h.imp fun {a b} => (hname a b).mp, fun h => h.imp fun {a b} => (hname a b).mpr⟩
  refine ⟨fun h => hnodup.mp h.distinct, fun h => ⟨hnodup.mpr h, fun dir hdir => ?_⟩⟩
  rw [startDirs_eq] at hdir
  obtain ⟨name, -, rfl⟩ := List.mem_map.mp hdir
  exact strictlyBelow_append _ (List.cons_ne_nil _ _)

/-- The outputs of a build are apart exactly if the runtimes are separate, and start entries exactly
if the names differ as characters. -/
theorem outputs_iff (cwd : Path) (outDir : Text) (config : Config) (runtimes : Option (List Text))
    (graph : BuildGraph) (h : createBuildGraph cwd outDir config runtimes = .ok graph)
    (names : List Text) :
    (TargetsApart cwd outDir graph ↔ (selectedRuntimes config runtimes).Pairwise Separate) ∧
    (StartEntriesApart cwd outDir names ↔
      names.Pairwise fun a b => Utf16.decode a ≠ Utf16.decode b) :=
  ⟨targetsApart_iff h, startEntriesApart_iff names⟩

/-! ## Runtimes called `a b` and `a-b` -/

def twoRuntimes (a b : String) (h : ([units a, units b] : List Text).Nodup) : Config where
  runtimes := [(units a, ⟨true⟩), (units b, ⟨false⟩)]
  nodup := h
  logger := true
  plugins := [⟨units "metrics", true⟩]

theorem outputs_iff_api : ∃ graph, createBuildGraph [] (units "dist")
      (twoRuntimes "api" "~jobs" (by decide)) none = .ok graph ∧
    TargetsApart [] (units "dist") graph ∧
    StartEntriesApart [] (units "dist") [units "api", units "~jobs"] := by
  refine ⟨_, rfl, ?_⟩
  obtain ⟨htargets, hstarts⟩ := outputs_iff [] (units "dist")
    (twoRuntimes "api" "~jobs" (by decide)) none _ rfl [units "api", units "~jobs"]
  exact ⟨htargets.mpr (by decide), hstarts.mpr (by decide)⟩

/-- Both runtimes are written to `runtime/a-b`, and the start entries of two names of one lone
surrogate each to one directory. -/
theorem not_outputs_blank :
    (¬ ∀ (cwd : Path) (outDir : Text) (config : Config) (runtimes : Option (List Text))
      (graph : BuildGraph), createBuildGraph cwd outDir config runtimes = .ok graph →
      TargetsApart cwd outDir graph) ∧
    ¬ ∀ (cwd : Path) (outDir : Text) (names : List Text), names.Nodup →
      StartEntriesApart cwd outDir names := by
  constructor
  · intro hall
    obtain ⟨graph, hgraph⟩ : ∃ graph, createBuildGraph [] (units "dist")
      (twoRuntimes "a b" "a-b" (by decide)) none = .ok graph := ⟨_, rfl⟩
    exact absurd ((targetsApart_iff hgraph).mp (hall _ _ _ _ graph hgraph)) (by decide)
  · intro hall
    have hapart := hall [] (units "dist") [[0xD800], [0xD801]] (by decide)
    exact absurd ((startEntriesApart_iff _).mp hapart) (by decide)

end Neemata.Neem
