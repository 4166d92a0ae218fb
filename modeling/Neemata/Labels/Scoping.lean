import Neemata.Labels.Estree

/-!
# Scoping

The bindings of JavaScript that are in sight at each node of a module, those of the module itself
apart: parameters, hoisted and lexical declarations, catch parameters and the names of function and
class expressions. The declarations of TypeScript that make a value bind their name in their block.
-/

namespace Neemata.Labels

open CodeUnits

/-- What binds a name. -/
inductive Form where
  | variable | function | class_
  | declarationParameter
  | expressionParameter
  | catchParameter
  | functionExpression | classExpression
  | typeScript
deriving DecidableEq

structure Binding where
  form : Form
  name : Text
deriving DecidableEq

abbrev Scope := List Binding

def bindings (form : Form) (names : List Text) : Scope := names.map (⟨form, ·⟩)

/-! ## Names that a node declares -/

mutual

/-- `BoundNames` of a pattern. -/
def Node.patternNames : Node → List Text
  | .mk type _ _ parts =>
    match type with
    | .identifier name => [name]
    | .objectPattern => parts.patternNamesIn .properties
    | .property .. => parts.patternNamesIn .value
    | .arrayPattern => parts.patternNamesIn .elements
    | .assignmentPattern => parts.patternNamesIn .left
    | .restElement => parts.patternNamesIn .argument
    | .tsParameterProperty => parts.patternNamesIn .parameter
    | _ => []
  | .callExpression .. => []

def Parts.patternNamesIn (field : Field) : Parts → List Text
  | .nil => []
  | .token _ rest => rest.patternNamesIn field
  | .child field' node rest =>
    if field' = field then node.patternNames ++ rest.patternNamesIn field
    else rest.patternNamesIn field
  | .shorthand field' _ _ name rest =>
    if field' = field then name :: rest.patternNamesIn field else rest.patternNamesIn field

end

def Node.declaratorNames : Node → List Text
  | .mk .variableDeclarator _ _ parts => (parts.child? .id).toList.flatMap Node.patternNames
  | _ => []

def idNames (parts : Parts) : List Text := ((parts.child? .id).bind Node.name?).toList

mutual

/-- `VarDeclaredNames`: a function and a static block keep theirs. -/
def Node.varNames : Node → List Text
  | .mk type _ _ parts =>
    match type with
    | .functionDeclaration | .functionExpression | .arrowFunctionExpression | .staticBlock
    | .tsModuleBlock => []
    | .variableDeclaration .var =>
      (parts.children .declarations).flatMap Node.declaratorNames ++ parts.varNames
    | _ => parts.varNames
  | .callExpression _ _ head arguments => head.varNames ++ arguments.varNames

def Parts.varNames : Parts → List Text
  | .nil => []
  | .token _ rest => rest.varNames
  | .child _ node rest => node.varNames ++ rest.varNames
  | .shorthand _ _ _ _ rest => rest.varNames

end

/-- What a declaration binds in its block. -/
def Node.lexicalBindings : Node → Scope
  | .mk (.variableDeclaration kind) _ _ parts =>
    if kind = .var then []
    else bindings .variable ((parts.children .declarations).flatMap Node.declaratorNames)
  | .mk .functionDeclaration _ _ parts => bindings .function (idNames parts)
  | .mk .classDeclaration _ _ parts => bindings .class_ (idNames parts)
  | .mk .tsDeclareFunction _ _ parts | .mk .tsEnumDeclaration _ _ parts
  | .mk .tsModuleDeclaration _ _ parts | .mk .tsImportEqualsDeclaration _ _ parts =>
    bindings .typeScript (idNames parts)
  | _ => []

/-- What a statement binds in its block; one of a namespace may be exported. -/
def Node.statementBindings : Node → Scope
  | .mk .exportNamedDeclaration _ _ parts =>
    (parts.child? .declaration).toList.flatMap Node.lexicalBindings
  | node => node.lexicalBindings

/-! ## Scopes -/

def hoisted (parts : Parts) : Scope :=
  bindings .variable ((parts.children .body).flatMap Node.varNames)

def Node.caseBindings : Node → Scope
  | .mk _ _ _ parts => (parts.children .consequent).flatMap Node.statementBindings
  | .callExpression .. => []

/-- Defaults of parameters do not see the variables of the body. -/
def functionBindings (form : Form) (parts : Parts) (field : Field) : Scope :=
  bindings form ((parts.children .params).flatMap Node.patternNames) ++
    if field = .body then hoisted parts else []

/-- The bindings that a node adds for what it has in a field. -/
def NodeType.binds (type : NodeType) (parts : Parts) (field : Field) : Scope :=
  match type with
  | .functionDeclaration => functionBindings .declarationParameter parts field
  | .functionExpression =>
    bindings .functionExpression (idNames parts) ++
      functionBindings .expressionParameter parts field
  | .arrowFunctionExpression => functionBindings .expressionParameter parts field
  | .classDeclaration =>
    if field = .superClass ∨ field = .body then bindings .class_ (idNames parts) else []
  | .classExpression =>
    if field = .superClass ∨ field = .body then bindings .classExpression (idNames parts) else []
  | .staticBlock | .tsModuleBlock =>
    hoisted parts ++ (parts.children .body).flatMap Node.statementBindings
  | .blockStatement => (parts.children .body).flatMap Node.statementBindings
  | .forStatement => (parts.children .init).flatMap Node.lexicalBindings
  | .forInStatement | .forOfStatement => (parts.children .left).flatMap Node.lexicalBindings
  | .switchStatement =>
    if field = .cases then (parts.children .cases).flatMap Node.caseBindings else []
  | .catchClause =>
    bindings .catchParameter ((parts.children .param).flatMap Node.patternNames)
  | _ => []

mutual

/-- The nodes in a node, each with the bindings in sight at it. -/
def Node.scoped (scope : Scope) : Node → List (Scope × Node)
  | .mk type start stop parts =>
    (scope, .mk type start stop parts) ::
      parts.scopedBy fun field => type.binds parts field ++ scope
  | .callExpression start stop head arguments =>
    (scope, .callExpression start stop head arguments) ::
      (head.scopedBy (fun _ => scope) ++ arguments.scopedBy fun _ => scope)

def Parts.scopedBy (scopeOf : Field → Scope) : Parts → List (Scope × Node)
  | .nil => []
  | .token _ rest => rest.scopedBy scopeOf
  | .child field node rest => node.scoped (scopeOf field) ++ rest.scopedBy scopeOf
  | .shorthand field start stop name rest =>
    (scopeOf field, .mk (.identifier name) start stop .nil) :: rest.scopedBy scopeOf

end

end Neemata.Labels
