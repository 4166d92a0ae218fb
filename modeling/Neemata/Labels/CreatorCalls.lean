import Neemata.Labels.LabeledCalls
import Neemata.Labels.Shadowing

/-!
# Only creator calls are labelled

What the transform is for: a call that gets a label is a call of a tracked function of a tracked
module, its own arguments stay, and nothing else of the module changes (`OnlyCreatorCalls`). It is
so unless the name of a call it labels is rebound around the call by a form that the shadowing walk
does not look at (`onlyCreatorCalls_iff`).
-/

namespace Neemata.Labels

open CodeUnits Insertions Quote

/-! ## References to imports -/

/-- The module has an import declaration of the source with the specifier. -/
def ImportsFrom (program : Node) (source : Text) (specifier : Node) : Prop :=
  ∃ start stop parts, .mk .importDeclaration start stop parts ∈ program.body ∧
    (∃ a b literal, parts.child? .source = some (.mk (.stringLiteral source) a b literal)) ∧
    specifier ∈ parts.children .specifiers

/-- Where the bindings of the scope are in sight, the callee refers to the import of a tracked
function from a tracked module or to that member of the namespace of one. A module does not declare
a name that it imports. -/
inductive Refers (program : Node) (modules functions : List Text) (scope : Scope) : Node → Prop
  | direct {name source imported : Text} {start stop a b : Nat} {parts specifier : Parts}
    (himport : ImportsFrom program source (.mk .importSpecifier a b specifier))
    (hmodule : source ∈ modules) (himported : importedName specifier = some imported)
    (hfunction : imported ∈ functions) (hlocal : localName specifier = some name)
    (hscope : ∀ binding ∈ scope, binding.name ≠ name) :
    Refers program modules functions scope (.mk (.identifier name) start stop parts)
  | member {name source function : Text} {start stop a b : Nat} {parts specifier : Parts}
    (himport : ImportsFrom program source (.mk .importNamespaceSpecifier a b specifier))
    (hmodule : source ∈ modules) (hlocal : localName specifier = some name)
    (hscope : ∀ binding ∈ scope, binding.name ≠ name)
    (hobject : (parts.child? .object).bind identifierName = some name)
    (hproperty : (parts.child? .property).bind identifierName = some function)
    (hfunction : function ∈ functions) :
    Refers program modules functions scope (.mk (.memberExpression false) start stop parts)

/-- The form of a callee in which the walk misses that its name is rebound: a binding in sight that
it does not look at, or a private name behind the name of a namespace. -/
def Hidden (scope : Scope) : Node → Prop
  | .mk (.identifier name) .. => ∃ b ∈ scope, b.form.isWalked = false ∧ b.name = name
  | .mk (.memberExpression _) _ _ parts =>
    (∃ b ∈ scope, b.form.isWalked = false ∧
      (parts.child? .object).bind identifierName = some b.name) ∨
      (parts.child? .property).bind identifierName = none
  | _ => False

/-- A specifier that the loop over the statements of the program reads. -/
theorem importsFrom_of_mem {modules : List Text} {program specifier : Node}
    (h : specifier ∈ program.body.flatMap (specifiersOf modules)) :
    ∃ source ∈ modules, ImportsFrom program source specifier := by
  obtain ⟨statement, hstatement, h⟩ := List.mem_flatMap.mp h
  rw [specifiersOf.eq_def] at h
  split at h
  · split at h
    · next hsource =>
      split at h
      · next hmodule =>
        exact ⟨_, List.contains_iff_mem.mp hmodule, _, _, _, hstatement, ⟨_, _, _, hsource⟩, h⟩
      · cases h
    · cases h
  · cases h

theorem mem_trackImports_locals {modules functions : List Text} {program : Node} {name : Text}
    (h : name ∈ (trackImports modules functions program).locals) :
    ∃ source imported a b specifier,
      ImportsFrom program source (.mk .importSpecifier a b specifier) ∧ source ∈ modules ∧
        importedName specifier = some imported ∧ imported ∈ functions ∧
        localName specifier = some name := by
  obtain ⟨specifier, hspecifier, h⟩ := List.mem_filterMap.mp h
  obtain ⟨source, hmodule, himport⟩ := importsFrom_of_mem hspecifier
  rw [localOf.eq_def] at h
  split at h
  · split at h
    · next himported =>
      split at h
      · next hfunction =>
        exact ⟨source, _, _, _, _, himport, hmodule, himported,
          List.contains_iff_mem.mp hfunction, h⟩
      · cases h
    · cases h
  · cases h

theorem mem_trackImports_namespaces {modules functions : List Text} {program : Node} {name : Text}
    (h : name ∈ (trackImports modules functions program).namespaces) :
    ∃ source a b specifier,
      ImportsFrom program source (.mk .importNamespaceSpecifier a b specifier) ∧
        source ∈ modules ∧ localName specifier = some name := by
  obtain ⟨specifier, hspecifier, h⟩ := List.mem_filterMap.mp h
  obtain ⟨source, hmodule, himport⟩ := importsFrom_of_mem hspecifier
  rw [namespaceOf.eq_def] at h
  split at h
  · exact ⟨source, _, _, _, himport, hmodule, h⟩
  · cases h

theorem name?_of_identifierName {node : Node} {name : Text} (h : identifierName node = some name) :
    node.name? = some name := by
  rw [identifierName.eq_def] at h
  split at h
  · exact h
  · cases h

theorem isTrackedCall_cases {functions : List Text} {tracked : Tracked} {call : Node}
    (h : isTrackedCall functions tracked call = true) :
    (∃ name start stop parts, call.callee = some (.mk (.identifier name) start stop parts) ∧
      name ∈ tracked.locals) ∨
    ∃ name function start stop parts,
      call.callee = some (.mk (.memberExpression false) start stop parts) ∧
        (parts.child? .object).bind identifierName = some name ∧ name ∈ tracked.namespaces ∧
        (parts.child? .property).bind Node.name? = some function ∧ function ∈ functions := by
  rw [isTrackedCall.eq_def] at h
  split at h
  · next hcallee => exact .inl ⟨_, _, _, _, hcallee, List.contains_iff_mem.mp h⟩
  · next parts hcallee =>
    split at h
    · next hobject =>
      obtain ⟨hname, hproperty⟩ := Bool.and_eq_true_iff.mp h
      rw [Option.any_eq_true] at hproperty
      obtain ⟨function, hproperty, hfunction⟩ := hproperty
      refine .inr ⟨_, function, _, _, parts, hcallee, ?_, List.contains_iff_mem.mp hname, hproperty,
        List.contains_iff_mem.mp hfunction⟩
      rw [hobject]
      rfl
    · cases h
  · cases h

theorem not_hidden_of_refers {program callee : Node} {modules functions : List Text}
    {scope : Scope} (H : Refers program modules functions scope callee) :
    ¬ Hidden scope callee := by
  cases H with
  | direct _ _ _ _ _ hscope =>
    rintro ⟨b, hb, -, hname⟩
    exact hscope b hb hname
  | member _ _ _ hscope hobject hproperty =>
    rintro (⟨b, hb, -, hname⟩ | hprivate)
    · rw [hobject] at hname
      exact hscope b hb (Option.some.inj hname).symm
    · rw [hprivate] at hproperty
      cases hproperty

/-- A name that is not dropped is rebound only by forms that the walk does not look at. -/
theorem exists_missed {program visit : Node} {scope : Scope} {name : Text}
    (hscope : (scope, visit) ∈ program.scoped []) (hname : name ∉ shadowed program) {b : Binding}
    (hb : b ∈ scope) (hbound : b.name = name) : b.form.isWalked = false := by
  rw [Bool.eq_false_iff]
  intro hwalked
  rcases Node.scoped_shadowed hb hwalked program [] hscope with h | h
  · cases h
  · rw [hbound] at h
    exact hname h

theorem mem_filter_names {names dropped : List Text} {name : Text}
    (h : name ∈ names.filter (!dropped.contains ·)) : name ∈ names ∧ name ∉ dropped := by
  obtain ⟨hname, hkept⟩ := List.mem_filter.mp h
  refine ⟨hname, fun hdropped => ?_⟩
  rw [List.contains_iff_mem.mpr hdropped] at hkept
  cases hkept

/-- A call that is tracked refers to an import unless this is hidden from the walk. -/
theorem refers_of_isTrackedCall {program call : Node} {modules functions : List Text}
    {scope : Scope} (hscope : (scope, call) ∈ program.scoped [])
    (h : isTrackedCall functions
      ((trackImports modules functions program).drop (shadowed program)) call = true) :
    ∃ callee, call.callee = some callee ∧
      (¬ Hidden scope callee → Refers program modules functions scope callee) := by
  rcases isTrackedCall_cases h with ⟨name, start, stop, parts, hcallee, hname⟩ |
    ⟨name, function, start, stop, parts, hcallee, hobject, hname, hproperty, hfunction⟩
  · refine ⟨_, hcallee, fun hidden => ?_⟩
    obtain ⟨hname, hkept⟩ := mem_filter_names hname
    obtain ⟨source, imported, a, b, specifier, himport, hmodule, himported, hfunction, hlocal⟩ :=
      mem_trackImports_locals hname
    exact .direct himport hmodule himported hfunction hlocal fun b hb hbound =>
      hidden ⟨b, hb, exists_missed hscope hkept hb hbound, hbound⟩
  · refine ⟨_, hcallee, fun hidden => ?_⟩
    obtain ⟨hname, hkept⟩ := mem_filter_names hname
    obtain ⟨source, a, b, specifier, himport, hmodule, hlocal⟩ := mem_trackImports_namespaces hname
    have hfree : ∀ b ∈ scope, b.name ≠ name := fun b hb hbound =>
      hidden (.inl ⟨b, hb, exists_missed hscope hkept hb hbound, by rw [hobject, hbound]⟩)
    cases hidentifier : (parts.child? .property).bind identifierName with
    | none => exact absurd (.inr hidentifier) hidden
    | some name' =>
      have hsame : name' = function := by
        obtain ⟨property, hchild, hname'⟩ := Option.bind_eq_some_iff.mp hidentifier
        rw [hchild, Option.bind_some, name?_of_identifierName hname'] at hproperty
        exact Option.some.inj hproperty
      subst hsame
      exact .member himport hmodule hlocal hfree hobject hidentifier hfunction

/-! ## The new arguments -/

/-- A string literal; its text reads as the string (`Quote.unquote_stringify`). -/
def literal (value : Text) : Node :=
  .mk (.stringLiteral value) 0 0 (.token (stringify value) .nil)

/-- `undefined`, in the place of the first argument of a call without arguments. -/
def placeholder : Node :=
  .mk (.identifier (units "undefined")) 0 0 (.token (units "undefined") .nil)

section

variable (host : Host) (code id : Text) (options : LabelsOptions)

def Labeled.newArguments (l : Labeled) : List Node :=
  (if l.call.arguments.isEmpty then [placeholder] else []) ++
    ((if l.call.arguments.length < 2 then [literal (options.label l.name id)] else []) ++
      if options.withOrigin then [literal (originOf host code id options l.call.start)] else [])

/-- The arguments that the transform adds to the call that ends at `stop`. -/
def added (stop : Nat) : List Node :=
  match (labeledCalls host code id options).find? (·.call.stop = stop) with
  | some l => l.newArguments host code id options
  | none => []

/-- The string literal with a value. -/
def IsLiteral (node : Node) (value : Text) : Prop :=
  ∃ start stop text, node = .mk (.stringLiteral value) start stop (.token text .nil) ∧
    unquote text = some value

/-- The arguments of a call before and after the transform: its own ones stay, the label is the
second and the origin the third argument. -/
structure KeepsArguments (own arguments : List Node) (call : Node) : Prop where
  noSpread : ∀ a ∈ own, a.isSpread = false
  own_eq : arguments.take own.length = own.map (Node.extend (added host code id options))
  label : own.length < 2 → ∃ name node, arguments[1]? = some node ∧
    NamedIn (programOf host code id) name call ∧ IsLiteral node (options.label name id)
  origin : options.withOrigin = true → ∃ node, arguments[2]? = some node ∧
    IsLiteral node (originOf host code id options call.start)

/-- The transform changes only calls of creators, and of these only the arguments: a call that gets
arguments refers to a tracked import in the scope that it stands in. -/
structure OnlyCreatorCalls : Prop where
  refers : ∀ call ∈ (programOf host code id).calls, added host code id options call.stop ≠ [] →
    (∃ scope, (scope, call) ∈ (programOf host code id).scoped []) ∧
      ∀ scope, (scope, call) ∈ (programOf host code id).scoped [] →
        ∃ callee, call.callee = some callee ∧ Refers (programOf host code id)
          options.trackedModules options.trackedFunctions scope callee
  arguments : ∀ call ∈ (programOf host code id).calls, added host code id options call.stop ≠ [] →
    KeepsArguments host code id options call.arguments
      (call.extend (added host code id options)).arguments call
  unchanged : (transformLabels host code id options).getD code =
    ((programOf host code id).extend (added host code id options)).text

variable {host code id options}

/-! ## Candidates get arguments -/

section

variable (hparse : IsTreeOf (programOf host code id) code)

include hparse

theorem calls_apart {a b : Node} (ha : a ∈ (programOf host code id).calls)
    (hb : b ∈ (programOf host code id).calls) (hne : a ≠ b) :
    a.insertionPoint ≠ b.insertionPoint ∧ a.stop ≠ b.stop := by
  obtain ⟨type, start, stop, parts, hprogram, -, hplaced⟩ := hparse
  rw [hprogram] at ha hb
  exact Parts.calls_apart hplaced ha hb hne

theorem eq_of_stop_eq {a b : Node} (ha : a ∈ (programOf host code id).calls)
    (hb : b ∈ (programOf host code id).calls) (h : a.stop = b.stop) : a = b := by
  by_contra hne
  exact (calls_apart hparse ha hb hne).2 h

end

theorem added_of_mem {l : Labeled} (hl : l ∈ labeledCalls host code id options) :
    added host code id options l.call.stop = l.newArguments host code id options := by
  obtain ⟨before, after, heq⟩ := List.append_of_mem hl
  have hpairwise := labeledCalls_pairwise host code id options
  rw [heq, List.pairwise_append] at hpairwise
  have hfind : (labeledCalls host code id options).find? (·.call.stop = l.call.stop) = some l :=
    List.find?_eq_some_iff_append.mpr ⟨decide_eq_true rfl, before, after, heq, fun a ha => by
      simpa using hpairwise.2.2 a ha l List.mem_cons_self⟩
  rw [added, hfind]

/-- The texts of the new arguments behind the placeholder. -/
theorem Eligible.parts_ne_nil {tracked : Tracked} {l : Labeled}
    (H : Eligible options tracked l.call) :
    (if l.call.arguments.length < 2 then [literal (options.label l.name id)] else []) ++
      (if options.withOrigin then [literal (originOf host code id options l.call.start)] else []) ≠
        [] := by
  have hfew := H.few
  rw [LabelsOptions.limit] at hfew
  cases horigin : options.withOrigin with
  | true => simp
  | false =>
    rw [horigin, if_neg Bool.false_ne_true] at hfew
    simp [hfew]

theorem Eligible.newArguments_ne_nil {tracked : Tracked} {l : Labeled}
    (H : Eligible options tracked l.call) : l.newArguments host code id options ≠ [] := by
  rw [Labeled.newArguments]
  exact List.append_ne_nil_of_right_ne_nil _ H.parts_ne_nil

theorem exists_of_added_ne_nil {stop : Nat} (h : added host code id options stop ≠ []) :
    ∃ l ∈ labeledCalls host code id options, l.call.stop = stop := by
  rw [added] at h
  split at h
  · next l hl =>
    exact ⟨l, List.mem_of_find?_eq_some hl, by simpa using List.find?_some hl⟩
  · exact absurd rfl h

/-- The calls that get arguments are the candidates. -/
theorem added_ne_nil_iff (hparse : IsTreeOf (programOf host code id) code) {call : Node}
    (hcall : call ∈ (programOf host code id).calls) :
    added host code id options call.stop ≠ [] ↔ Candidate host code id options call := by
  constructor
  · intro h
    obtain ⟨l, hl, hstop⟩ := exists_of_added_ne_nil h
    obtain ⟨H, hnamed⟩ := mem_labeledCalls hl
    rwa [← eq_of_stop_eq hparse hnamed.mem_calls hcall hstop]
  · intro H
    obtain ⟨l, hl, hstop⟩ := H.exists_labeled
    rw [← hstop, added_of_mem hl]
    exact (mem_labeledCalls hl).1.eligible.newArguments_ne_nil

/-! ## The edits -/

theorem text_literal (value : Text) : (literal value).text = stringify value :=
  List.append_nil _

theorem Labeled.map_text_parts (l : Labeled) :
    ((if l.call.arguments.length < 2 then [literal (options.label l.name id)] else []) ++
      (if options.withOrigin then [literal (originOf host code id options l.call.start)]
        else [])).map Node.text = l.parts host code id options := by
  rw [Labeled.parts, List.map_append]
  congr 1
  · split
    · rw [List.map_singleton, text_literal]
    · rfl
  · split
    · rw [List.map_singleton, text_literal]
    · rfl

/-- The edit that the transform makes for a call is the one for its new arguments. -/
theorem edit_eq {l : Labeled} (hl : l ∈ labeledCalls host code id options) :
    Node.edit (added host code id options) l.call = [l.edit host code id options] := by
  have H := (mem_labeledCalls hl).1.eligible
  have hne : ¬ (l.newArguments host code id options).isEmpty = true := fun h =>
    H.newArguments_ne_nil (List.isEmpty_iff.mp h)
  have hparts : l.parts host code id options ≠ [] := by
    rw [← Labeled.map_text_parts]
    exact fun h => H.parts_ne_nil (List.map_eq_nil_iff.mp h)
  rw [Node.edit, added_of_mem hl, if_neg hne, Labeled.edit, Labeled.newArguments,
    Parts.text_separated, List.map_append, Labeled.map_text_parts]
  cases hlast : l.call.arguments.getLast? with
  | none =>
    have hnil : l.call.arguments = [] := List.getLast?_eq_none_iff.mp hlast
    rw [hnil, if_pos List.isEmpty_nil, if_pos List.isEmpty_nil, Node.insertionPoint, hlast,
      List.map_singleton, List.singleton_append, List.intercalate_cons_of_ne_nil hparts]
    rfl
  | some last =>
    have hfull : ¬ l.call.arguments.isEmpty = true := fun h => by
      rw [List.isEmpty_iff.mp h] at hlast
      cases hlast
    rw [if_neg hfull, if_neg hfull, Node.insertionPoint, hlast]
    rfl

theorem offset_edit {l : Labeled} (hl : l ∈ labeledCalls host code id options) :
    (l.edit host code id options).offset = l.call.insertionPoint := by
  refine offset_of_mem_edit (added host code id options) ?_
  rw [edit_eq hl]
  exact List.mem_singleton_self _

/-- The transform makes the edits that give the program the new arguments. -/
theorem contents_edits (hparse : IsTreeOf (programOf host code id) code) (i : Nat) :
    contents ((labeledCalls host code id options).map (Labeled.edit host code id options)) i =
      contents ((programOf host code id).edits (added host code id options)) i := by
  refine contents_congr ?_ ?_ (fun e => ?_) i
  · rw [List.pairwise_map]
    refine (labeledCalls_pairwise host code id options).imp_of_mem fun {a b} ha hb hne => ?_
    rw [offset_edit ha, offset_edit hb]
    exact (calls_apart hparse (mem_labeledCalls ha).2.mem_calls (mem_labeledCalls hb).2.mem_calls
      fun h => hne (congrArg Node.stop h)).1
  · obtain ⟨type, start, stop, parts, hprogram, -, hplaced⟩ := hparse
    rw [hprogram]
    exact Parts.edits_pairwise _ hplaced
  · rw [List.mem_map, Node.edits, List.mem_flatMap]
    constructor
    · rintro ⟨l, hl, rfl⟩
      refine ⟨l.call, (mem_labeledCalls hl).2.mem_calls, ?_⟩
      rw [edit_eq hl]
      exact List.mem_singleton_self _
    · rintro ⟨call, hcall, he⟩
      have hne : added host code id options call.stop ≠ [] := fun h => by
        rw [Node.edit, h, if_pos List.isEmpty_nil] at he
        cases he
      obtain ⟨l, hl, hstop⟩ := exists_of_added_ne_nil hne
      rw [← eq_of_stop_eq hparse (mem_labeledCalls hl).2.mem_calls hcall hstop, edit_eq hl,
        List.mem_singleton] at he
      exact ⟨l, hl, he.symm⟩

/-- Insertions in the code make the text of the program with the new arguments. -/
theorem insertAll_edits (hparse : IsTreeOf (programOf host code id) code) :
    insertAll ((labeledCalls host code id options).map (Labeled.edit host code id options)) code =
      ((programOf host code id).extend (added host code id options)).text := by
  have hcontents : ∀ i,
      contents ((labeledCalls host code id options).map (Labeled.edit host code id options)) i =
        contents ((programOf host code id).edits (added host code id options)) i :=
    contents_edits hparse
  obtain ⟨type, start, stop, parts, hprogram, rfl, hplaced⟩ := hparse
  rw [hprogram] at hcontents ⊢
  have hend : contents (parts.edits (added host parts.text id options)) parts.text.length = [] :=
    contents_eq_nil fun e he => by
      have := Parts.edits_within _ parts hplaced he
      omega
  rw [insertAll, Node.extend, hcontents, Parts.weave_text _ _ parts 0 hplaced fun j _ _ =>
    hcontents j]
  exact (congrArg _ hend).trans (List.append_nil _)

theorem offset_edits_le (hparse : IsTreeOf (programOf host code id) code) :
    ∀ e ∈ (labeledCalls host code id options).map (Labeled.edit host code id options),
      e.offset ≤ code.length := by
  intro e he
  obtain ⟨l, hl, rfl⟩ := List.mem_map.mp he
  have hcall := (mem_labeledCalls hl).2.mem_calls
  rw [offset_edit hl]
  obtain ⟨type, start, stop, parts, hprogram, rfl, hplaced⟩ := hparse
  rw [hprogram] at hcall
  have := Parts.calls_within parts 0 hplaced l.call hcall
  omega

/-! ## When it holds -/

theorem transformLabels_getD (hparse : IsTreeOf (programOf host code id) code)
    (hmagic : ∀ edits : List (Edit UInt16), (∀ e ∈ edits, e.offset ≤ code.length) →
      host.magicString code edits = insertAll edits code) :
    (transformLabels host code id options).getD code =
      ((programOf host code id).extend (added host code id options)).text := by
  rw [← insertAll_edits hparse, transformLabels]
  split
  · next h =>
    rw [List.isEmpty_iff.mp h, List.map_nil, insertAll_nil]
    rfl
  · exact hmagic _ (offset_edits_le hparse)

theorem isLiteral_literal (value : Text) : IsLiteral (literal value) value :=
  ⟨0, 0, stringify value, rfl, unquote_stringify value⟩

variable (host code id options) in
/-- Behind at most two own arguments the label is the second and the origin the third one. -/
theorem Labeled.getElem?_newArguments (l : Labeled) {own : List Node}
    (hlength : own.length = l.call.arguments.length) :
    (l.call.arguments.length < 2 →
      (own ++ l.newArguments host code id options)[1]? =
        some (literal (options.label l.name id))) ∧
    (options.withOrigin = true → l.call.arguments.length < 3 →
      (own ++ l.newArguments host code id options)[2]? =
        some (literal (originOf host code id options l.call.start))) := by
  rw [Labeled.newArguments]
  match own, hcall : l.call.arguments, hlength with
  | [], [], _ =>
    refine ⟨fun _ => rfl, fun horigin _ => ?_⟩
    rw [if_pos horigin]
    rfl
  | [_], [_], _ =>
    refine ⟨fun _ => rfl, fun horigin _ => ?_⟩
    rw [if_pos horigin]
    rfl
  | [_, _], [_, _], _ =>
    refine ⟨fun h => absurd h (Nat.lt_irrefl 2), fun horigin _ => ?_⟩
    rw [if_pos horigin]
    rfl
  | _ :: _ :: _ :: _, _ :: _ :: _ :: _, _ =>
    refine ⟨fun h => ?_, fun _ h => ?_⟩
    · simp only [List.length_cons] at h
      omega
    · simp only [List.length_cons] at h
      omega

theorem Labeled.keepsArguments {l : Labeled} (hl : l ∈ labeledCalls host code id options) :
    KeepsArguments host code id options l.call.arguments
      (l.call.extend (added host code id options)).arguments l.call := by
  obtain ⟨⟨-, -, H⟩, hnamed⟩ := mem_labeledCalls hl
  have harguments : (l.call.extend (added host code id options)).arguments =
      l.call.arguments.map (Node.extend (added host code id options)) ++
        l.newArguments host code id options := by
    rw [← added_of_mem hl]
    have hcallee := isTrackedCall_cases H.isTracked
    cases hcall : l.call with
    | mk type start stop parts =>
      rw [hcall] at hcallee
      rcases hcallee with ⟨_, _, _, _, h, -⟩ | ⟨_, _, _, _, _, h, -⟩ <;> cases h
    | callExpression start stop head arguments => exact Node.arguments_extend _
  have hlength : (l.call.arguments.map (Node.extend (added host code id options))).length =
      l.call.arguments.length := List.length_map _
  obtain ⟨hlabel, horigin⟩ := l.getElem?_newArguments host code id options hlength
  have hfew := H.few
  rw [LabelsOptions.limit] at hfew
  rw [harguments]
  refine ⟨H.noSpread, List.take_left' hlength, fun h => ⟨l.name, _, hlabel h, hnamed,
    isLiteral_literal _⟩, fun h => ⟨_, horigin h ?_, isLiteral_literal _⟩⟩
  rwa [h, if_pos rfl] at hfew

/-- The transform changes only creator calls exactly if no candidate is hidden from the walk: none
stands in a function declaration with a parameter, in a catch clause, or in a named function or
class expression (or in a block with a declaration of TypeScript) that rebinds the name it is called
by, and none calls a private member of a namespace. -/
theorem onlyCreatorCalls_iff (hparse : IsTreeOf (programOf host code id) code)
    (hmagic : ∀ edits : List (Edit UInt16), (∀ e ∈ edits, e.offset ≤ code.length) →
      host.magicString code edits = insertAll edits code) :
    OnlyCreatorCalls host code id options ↔
      ∀ scope call callee, (scope, call) ∈ (programOf host code id).scoped [] →
        Candidate host code id options call → call.callee = some callee →
        ¬ Hidden scope callee := by
  constructor
  · rintro H scope call callee hscope hcandidate hcallee
    obtain ⟨name, hnamed⟩ := hcandidate.named
    obtain ⟨callee', hcallee', hrefers⟩ := (H.refers call hnamed.mem_calls
      ((added_ne_nil_iff hparse hnamed.mem_calls).mpr hcandidate)).2 scope hscope
    rw [hcallee] at hcallee'
    cases hcallee'
    exact not_hidden_of_refers hrefers
  · intro H
    refine ⟨fun call hcall hadded => ?_, fun call hcall hadded => ?_,
      transformLabels_getD hparse hmagic⟩
    · have hcandidate := (added_ne_nil_iff hparse hcall).mp hadded
      refine ⟨Node.exists_scope _ [] (Node.mem_visits_of_calls _ hcall), fun scope hscope => ?_⟩
      obtain ⟨callee, hcallee, hrefers⟩ :=
        refers_of_isTrackedCall hscope hcandidate.eligible.isTracked
      exact ⟨callee, hcallee, hrefers (H scope call callee hscope hcandidate hcallee)⟩
    · obtain ⟨l, hl, hstop⟩ := exists_of_added_ne_nil hadded
      rw [← eq_of_stop_eq hparse (mem_labeledCalls hl).2.mem_calls hcall hstop]
      exact Labeled.keepsArguments hl

end

/-! ## A creator and a function with a parameter of its name -/

def identifier (name : String) (start : Nat) : Node :=
  .mk (.identifier (units name)) start (start + name.length) (.token (units name) .nil)

/-- An import of `lazy` from `nmtjs`. -/
def importLazy : Node :=
  .mk .importDeclaration 0 24 (.token (units "import\x7b") (.child .specifiers
    (.mk .importSpecifier 7 11 (.child .imported (identifier "lazy" 7)
      (.shorthand .local_ 7 11 (units "lazy") .nil)))
    (.token (units "\x7dfrom") (.child .source
      (.mk (.stringLiteral (units "nmtjs")) 16 23 (.token (units "\"nmtjs\"") .nil))
      (.token (units ";") .nil)))))

def callLazy (start : Nat) : Node :=
  .callExpression start (start + 6) (.child .callee (identifier "lazy" start) .nil) .nil

/-- The declaration of a constant `db` that `lazy()` is assigned to. -/
def constDb (start : Nat) : Node :=
  .mk (.variableDeclaration .const) start (start + 15) (.token (units "const ")
    (.child .declarations (.mk .variableDeclarator (start + 6) (start + 15)
      (.child .id (identifier "db" (start + 6)) (.token (units "=")
        (.child .init (callLazy (start + 9)) .nil)))) .nil))

/-- The declaration of a function with a parameter `lazy` and this constant in its body. -/
def functionRun : Node :=
  .mk .functionDeclaration 24 59 (.token (units "function ") (.child .id (identifier "run" 33)
    (.token (units "(") (.child .params (identifier "lazy" 37) (.token (units ")")
      (.child .body (.mk .blockStatement 42 59 (.token (units "\x7b") (.child .body (constDb 43)
        (.token (units "\x7d") .nil)))) .nil))))))

def importAnd (statement : Node) : Node :=
  .mk .program 0 statement.stop (.child .body importLazy (.child .body statement .nil))

/-- A host whose parser gives the program. -/
def hostOf (program : Node) : Host where
  parseSync _ _ := program
  cwd := units "/app"
  isAbsolute path := path.head? = some (unit '/')
  relative _ path := path
  magicString code edits := insertAll edits code

def withoutOrigin : LabelsOptions := { origin := some false }

def parameterCode : Text :=
  units "import\x7blazy\x7dfrom\"nmtjs\";function run(lazy)\x7bconst db=lazy()\x7d"

def constantCode : Text := units "import\x7blazy\x7dfrom\"nmtjs\";const db=lazy()"

theorem isTreeOf_importAnd {statement : Node} {code : Text} (h : statement.Placed 24)
    (htext : (importAnd statement).text = code) : IsTreeOf (importAnd statement) code :=
  ⟨_, _, _, _, rfl, htext, by decide, h, trivial⟩

theorem not_hidden_nil {callee : Node} (h : (identifierName callee).isSome = true) :
    ¬ Hidden [] callee := by
  rw [identifierName.eq_def] at h
  split at h
  · rintro ⟨b, hb, -⟩
    cases hb
  · cases h

theorem constant_labeled : OnlyCreatorCalls (hostOf (importAnd (constDb 24))) constantCode
    (units "a.ts") withoutOrigin := by
  have htree : IsTreeOf (programOf (hostOf (importAnd (constDb 24))) constantCode (units "a.ts"))
      constantCode :=
    isTreeOf_importAnd (by decide +kernel) (by decide +kernel)
  refine (onlyCreatorCalls_iff htree fun edits _ => rfl).mpr
    fun scope call callee hscope _ hcallee => ?_
  have hfree : ∀ p ∈ (importAnd (constDb 24)).scoped [],
      p.1 = [] ∧ p.2.callee.all (fun callee => (identifierName callee).isSome) = true := by
    decide +kernel
  obtain ⟨hnil, hidentifier⟩ := hfree _ hscope
  dsimp only at hnil hidentifier
  rw [hcallee] at hidentifier
  rw [hnil]
  exact not_hidden_nil hidentifier

/-- The parameter of the function is called with the label. -/
theorem parameter_labeled :
    transformLabels (hostOf (importAnd functionRun)) parameterCode (units "a.ts") withoutOrigin =
      some (parameterCode.take 57 ++ units "undefined, \"db\"" ++ parameterCode.drop 57) ∧
    ¬ OnlyCreatorCalls (hostOf (importAnd functionRun)) parameterCode (units "a.ts")
      withoutOrigin := by
  refine ⟨by decide +kernel, fun H => ?_⟩
  have hcall : callLazy 52 ∈ (importAnd functionRun).calls := List.mem_cons_self
  have hadded : added (hostOf (importAnd functionRun)) parameterCode (units "a.ts") withoutOrigin
      58 ≠ [] := by decide +kernel
  have hscope : ([⟨.variable, units "db"⟩, ⟨.declarationParameter, units "lazy"⟩], callLazy 52) ∈
      (importAnd functionRun).scoped [] := List.mem_of_getElem? (i := 13) rfl
  obtain ⟨callee, hcallee, hrefers⟩ := (H.refers _ hcall hadded).2 _ hscope
  cases hcallee
  cases hrefers with
  | direct _ _ _ _ _ hfree => exact hfree ⟨.declarationParameter, units "lazy"⟩ (by simp) rfl

end Neemata.Labels
