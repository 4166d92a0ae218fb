import Neemata.Labels.MoreArguments
import Neemata.Lib.Quote

/-!
# The label transform

`transformLabels` gives the calls of tracked creator functions the name they are assigned to as
their second argument and the place they stand at as their third one. The parser, `MagicString` and
the functions of `node:path` are parameters. The source map is left out.
-/

namespace Neemata.Labels

open CodeUnits Insertions Quote

structure LabelsOptions where
  modules : Option (List Text) := none
  functions : Option (List Text) := none
  format : Option (Text → Text → Text) := none
  origin : Option Bool := none
  root : Option Text := none

def defaultModules : List Text :=
  [units "@nmtjs/core", units "@nmtjs/application", units "nmtjs"]

def defaultFunctions : List Text :=
  [units "createFactoryInjectable", units "createLazyInjectable", units "createValueInjectable",
    units "factory", units "lazy", units "value"]

/-- What the transform calls of other packages and of the platform. -/
structure Host where
  parseSync : Text → Text → Node
  cwd : Text
  isAbsolute : Text → Bool
  relative : Text → Text → Text
  /-- The string of a `MagicString` of the text after the edits, each made by `appendLeft`. -/
  magicString : Text → List (Edit UInt16) → Text

namespace LabelsOptions

variable (options : LabelsOptions)

def trackedFunctions : List Text := options.functions.getD defaultFunctions

def trackedModules : List Text := options.modules.getD defaultModules

def label (name id : Text) : Text := (options.format.getD fun name _ => name) name id

def withOrigin : Bool := options.origin.getD true

/-- From how many arguments on a call is left as it is. -/
def limit : Nat := if options.withOrigin then 3 else 2

end LabelsOptions

def NodeType.isWrapper : NodeType → Bool
  | .tsAsExpression | .tsSatisfiesExpression | .tsNonNullExpression | .tsInstantiationExpression
  | .parenthesizedExpression => true
  | _ => false

/-- The callee is `.$withType` of something. -/
def Parts.isWithType (head : Parts) : Bool :=
  match head.child? .callee with
  | some (.mk (.memberExpression false) _ _ parts) =>
    (parts.child? .property).bind Node.name? == some (units "$withType")
  | _ => false

mutual

/-- The call that made the value of an expression. -/
def Node.unwrap : Node → Option Node
  | .mk type _ _ parts => if type.isWrapper then parts.unwrapIn .expression else none
  | .callExpression start stop head arguments =>
    if head.isWithType then head.unwrapCalleeObject
    else some (.callExpression start stop head arguments)

def Parts.unwrapIn (field : Field) : Parts → Option Node
  | .nil => none
  | .token _ rest => rest.unwrapIn field
  | .child field' node rest => if field' = field then node.unwrap else rest.unwrapIn field
  | .shorthand field' _ _ _ rest => if field' = field then none else rest.unwrapIn field

def Parts.unwrapCalleeObject : Parts → Option Node
  | .nil => none
  | .token _ rest => rest.unwrapCalleeObject
  | .child field' node rest =>
    if field' = .callee then node.unwrapObject else rest.unwrapCalleeObject
  | .shorthand field' _ _ _ rest => if field' = .callee then none else rest.unwrapCalleeObject

def Node.unwrapObject : Node → Option Node
  | .mk _ _ _ parts => parts.unwrapIn .object
  | .callExpression .. => none

end

def propertyName (key : Option Node) (computed : Bool) : Option Text :=
  if computed then none
  else
    match key with
    | some (.mk (.identifier name) ..) => some name
    | some (.mk (.stringLiteral value) ..) => some value
    | _ => none

/-! ## Imports and shadowing -/

structure Tracked where
  locals : List Text
  namespaces : List Text

/-- The specifiers of an import from one of the modules. -/
def specifiersOf (modules : List Text) : Node → List Node
  | .mk .importDeclaration _ _ parts =>
    match parts.child? .source with
    | some (.mk (.stringLiteral source) ..) =>
      if modules.contains source then parts.children .specifiers else []
    | _ => []
  | _ => []

/-- The name that a specifier imports: an identifier or a string. -/
def importedName (parts : Parts) : Option Text :=
  match parts.child? .imported with
  | some (.mk (.stringLiteral value) ..) => some value
  | some node => node.name?
  | none => none

def localName (parts : Parts) : Option Text := (parts.child? .local_).bind Node.name?

def localOf (functions : List Text) : Node → Option Text
  | .mk .importSpecifier _ _ parts =>
    match importedName parts with
    | some imported => if functions.contains imported then localName parts else none
    | none => none
  | _ => none

def namespaceOf : Node → Option Text
  | .mk .importNamespaceSpecifier _ _ parts => localName parts
  | _ => none

def Node.body : Node → List Node
  | .mk _ _ _ parts => parts.children .body
  | .callExpression .. => []

def trackImports (modules functions : List Text) (program : Node) : Tracked :=
  let specifiers := program.body.flatMap (specifiersOf modules)
  { locals := specifiers.filterMap (localOf functions)
    namespaces := specifiers.filterMap namespaceOf }

def identifierName : Node → Option Text
  | .mk (.identifier name) .. => some name
  | _ => none

/-- The names of the identifiers in a node. -/
def Node.identifiers (node : Node) : List Text := node.visits.filterMap identifierName

/-- The names that the walk drops where it visits a node. -/
def Node.dropped : Node → List Text
  | .mk .functionDeclaration _ _ parts | .mk .classDeclaration _ _ parts =>
    ((parts.child? .id).bind Node.name?).toList
  | .mk .variableDeclarator _ _ parts => (parts.child? .id).toList.flatMap Node.identifiers
  | .mk .functionExpression _ _ parts | .mk .arrowFunctionExpression _ _ parts =>
    (parts.children .params).flatMap Node.identifiers
  | _ => []

def shadowed (program : Node) : List Text := program.visits.flatMap Node.dropped

def Tracked.drop (tracked : Tracked) (names : List Text) : Tracked where
  locals := tracked.locals.filter (!names.contains ·)
  namespaces := tracked.namespaces.filter (!names.contains ·)

def Tracked.isEmpty (tracked : Tracked) : Bool :=
  tracked.locals.isEmpty && tracked.namespaces.isEmpty

def isTrackedCall (functions : List Text) (tracked : Tracked) (node : Node) : Bool :=
  match node.callee with
  | some (.mk (.identifier name) ..) => tracked.locals.contains name
  | some (.mk (.memberExpression false) _ _ parts) =>
    match parts.child? .object with
    | some (.mk (.identifier name) ..) =>
      tracked.namespaces.contains name &&
        ((parts.child? .property).bind Node.name?).any functions.contains
    | _ => false
  | _ => false

/-! ## Origins -/

def lineStartsFrom (i : Nat) : Text → List Nat
  | [] => []
  | u :: text =>
    if u = lf then (i + 1) :: lineStartsFrom (i + 1) text else lineStartsFrom (i + 1) text

def lineStarts (code : Text) : List Nat := 0 :: lineStartsFrom 0 code

/-- The last line up to `line` that does not start behind the offset. -/
def lineAt (starts : List Nat) (offset : Nat) : Nat → Nat
  | line + 2 =>
    if offset < starts.getD (line + 1) 0 then lineAt starts offset (line + 1) else line + 2
  | line => line

section

variable (host : Host) (code id : Text) (options : LabelsOptions)

def filename : Text := id.takeWhile (· ≠ unit '?')

def originPath : Text :=
  if host.isAbsolute (filename id) then
    (host.relative (options.root.getD host.cwd) (filename id)).map
      fun u => if u = unit '\\' then unit '/' else u
  else filename id

def originOf (offset : Nat) : Text :=
  let starts := lineStarts code
  let line := lineAt starts offset starts.length
  originPath host id options ++ units ":" ++ units (toString line) ++ units ":" ++
    units (toString (offset - starts.getD (line - 1) 0 + 1))

/-! ## Labels -/

/-- A call in the set `labeled`, with the name it is labelled with. -/
structure Labeled where
  call : Node
  name : Text

/-- The arguments that a call gets, as source texts. -/
def Labeled.parts (labeled : Labeled) : List Text :=
  (if labeled.call.arguments.length < 2 then [stringify (options.label labeled.name id)] else []) ++
    if options.withOrigin then [stringify (originOf host code id options labeled.call.start)]
    else []

/-- The call of `appendLeft`. -/
def Labeled.edit (labeled : Labeled) : Edit UInt16 :=
  let joined := (units ", ").intercalate (labeled.parts host code id options)
  match labeled.call.arguments.getLast? with
  | none => ⟨labeled.call.stop - 1, units "undefined, " ++ joined⟩
  | some last => ⟨last.stop, units ", " ++ joined⟩

/-- Two calls of one text end at different places. -/
def tryLabel (tracked : Tracked) (labeled : List Labeled) (name : Option Text)
    (expression : Option Node) : List Labeled :=
  match name, expression.bind Node.unwrap with
  | some name, some call =>
    if name = [] then labeled
    else if labeled.any (·.call.stop = call.stop) ||
        !isTrackedCall options.trackedFunctions tracked call then labeled
    -- explicit arguments always win; spreads make positions unknowable
    else if options.limit ≤ call.arguments.length then labeled
    else if call.arguments.any Node.isSpread then labeled
    else labeled ++ [⟨call, name⟩]
  | _, _ => labeled

/-- The name and the expression with which the second walk calls `tryLabel` at a node. -/
def Node.naming : Node → Option Text × Option Node
  | .mk .variableDeclarator _ _ parts =>
    match parts.child? .id with
    | some (.mk (.identifier name) ..) => (some name, parts.child? .init)
    | _ => (none, none)
  | .mk (.propertyDefinition computed) _ _ parts =>
    (propertyName (parts.child? .key) computed, parts.child? .value)
  | .mk (.property kind shorthand computed) _ _ parts =>
    if kind = .init ∧ shorthand = false then
      (propertyName (parts.child? .key) computed, parts.child? .value)
    else (none, none)
  | .mk (.assignmentExpression operator) _ _ parts =>
    if operator = units "=" then
      match parts.child? .left with
      | some (.mk (.identifier name) ..) => (some name, parts.child? .right)
      | some (.mk (.memberExpression false) _ _ left) =>
        ((left.child? .property).bind Node.name?, parts.child? .right)
      | _ => (none, none)
    else (none, none)
  | _ => (none, none)

def labelNode (tracked : Tracked) (labeled : List Labeled) (node : Node) : List Labeled :=
  tryLabel options tracked labeled node.naming.1 node.naming.2

/-- The set `labeled` at the end; it is empty where the transform returns before. -/
def labeledCalls : List Labeled :=
  if options.trackedFunctions.all fun name => (firstIndex name code).isNone then []
  else
    let program := host.parseSync (filename id) code
    let tracked := trackImports options.trackedModules options.trackedFunctions program
    if tracked.isEmpty then []
    else
      let tracked := tracked.drop (shadowed program)
      if tracked.isEmpty then []
      else program.visits.foldl (labelNode options tracked) []

/-- The transformed code; `none` where the transform returns `undefined`. -/
def transformLabels : Option Text :=
  let labeled := labeledCalls host code id options
  if labeled.isEmpty then none
  else some (host.magicString code (labeled.map (Labeled.edit host code id options)))

end

end Neemata.Labels
