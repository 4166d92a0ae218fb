import Neemata.Lib.CodeUnits

/-!
# Modules as ESTrees

The tree that `oxc-parser` gives of a module, with the text between the nodes: a node has the parts
that its text is made of, in their order. The text of a call is that of its callee and type
arguments, and its arguments in parentheses. Node types that neither the transform nor scoping tells
apart are `other`.
-/

namespace Neemata.Labels

open CodeUnits

inductive VariableKind where
  | var | let_ | const | using | awaitUsing
deriving DecidableEq

inductive PropertyKind where
  | init | get | set
deriving DecidableEq

/-- The type of a node, with the fields of it that are no nodes. -/
inductive NodeType where
  | program
  | importDeclaration | importSpecifier | importDefaultSpecifier | importNamespaceSpecifier
  | exportNamedDeclaration
  | identifier (name : Text)
  | privateIdentifier (name : Text)
  | stringLiteral (value : Text)
  | functionDeclaration | functionExpression | arrowFunctionExpression
  | classDeclaration | classExpression
  | propertyDefinition (computed : Bool)
  | staticBlock
  | variableDeclaration (kind : VariableKind)
  | variableDeclarator
  | objectPattern | arrayPattern | assignmentPattern | restElement | tsParameterProperty
  | property (kind : PropertyKind) (shorthand computed : Bool)
  | memberExpression (computed : Bool)
  | assignmentExpression (operator : Text)
  | spreadElement
  | blockStatement | forStatement | forInStatement | forOfStatement
  | switchStatement | switchCase | catchClause
  | tsAsExpression | tsSatisfiesExpression | tsNonNullExpression | tsInstantiationExpression
  | parenthesizedExpression
  | tsDeclareFunction | tsEnumDeclaration | tsModuleDeclaration | tsModuleBlock
  | tsImportEqualsDeclaration
  | other (type : String)
deriving DecidableEq

/-- The field in which a node has another one, or several in an array. -/
inductive Field where
  | argument | arguments | body | callee | cases | consequent | declaration | declarations
  | elements | expression | id | imported | init | key | left | local_ | object | param | parameter
  | params | properties | property | right | source | specifiers | superClass | value
  | other (name : String)
deriving DecidableEq

mutual

/-- A node with its type, its span in the text of the module and its parts. -/
inductive Node where
  | mk (type : NodeType) (start stop : Nat) (parts : Parts)
  | callExpression (start stop : Nat) (head arguments : Parts)

/-- The parts of a node. A shorthand has one identifier in two fields: the second one has no text of
its own. -/
inductive Parts where
  | nil
  | token (text : Text) (rest : Parts)
  | child (field : Field) (node : Node) (rest : Parts)
  | shorthand (field : Field) (start stop : Nat) (name : Text) (rest : Parts)

end

def leftParen : UInt16 := 40

def rightParen : UInt16 := 41

mutual

def Node.text : Node → Text
  | .mk _ _ _ parts => parts.text
  | .callExpression _ _ head arguments =>
    head.text ++ leftParen :: (arguments.text ++ [rightParen])

def Parts.text : Parts → Text
  | .nil => []
  | .token text rest => text ++ rest.text
  | .child _ node rest => node.text ++ rest.text
  | .shorthand _ _ _ _ rest => rest.text

end

mutual

/-- The spans in a node that begins at `i` are where its text has them. -/
def Node.Placed (i : Nat) : Node → Prop
  | .mk _ start stop parts => start = i ∧ stop = i + parts.text.length ∧ parts.Placed i
  | .callExpression start stop head arguments =>
    start = i ∧ stop = i + head.text.length + arguments.text.length + 2 ∧ head.Placed i ∧
      arguments.Placed (i + head.text.length + 1)

def Parts.Placed (i : Nat) : Parts → Prop
  | .nil => True
  | .token text rest => rest.Placed (i + text.length)
  | .child _ node rest => node.Placed i ∧ rest.Placed (i + node.text.length)
  | .shorthand _ _ _ _ rest => rest.Placed i

end

mutual

instance Node.instDecidablePlaced (i : Nat) : (node : Node) → Decidable (node.Placed i)
  | .mk _ start stop parts =>
    have := Parts.instDecidablePlaced i parts
    inferInstanceAs (Decidable (start = i ∧ stop = i + parts.text.length ∧ parts.Placed i))
  | .callExpression start stop head arguments =>
    have := Parts.instDecidablePlaced i head
    have := Parts.instDecidablePlaced (i + head.text.length + 1) arguments
    inferInstanceAs (Decidable (start = i ∧
      stop = i + head.text.length + arguments.text.length + 2 ∧ head.Placed i ∧
      arguments.Placed (i + head.text.length + 1)))

instance Parts.instDecidablePlaced (i : Nat) : (parts : Parts) → Decidable (parts.Placed i)
  | .nil => .isTrue trivial
  | .token text rest => Parts.instDecidablePlaced (i + text.length) rest
  | .child _ node rest =>
    have := Node.instDecidablePlaced i node
    have := Parts.instDecidablePlaced (i + node.text.length) rest
    inferInstanceAs (Decidable (node.Placed i ∧ rest.Placed (i + node.text.length)))
  | .shorthand _ _ _ _ rest => Parts.instDecidablePlaced i rest

end

/-! ## Children -/

namespace Parts

/-- The nodes of an array. -/
def nodes : Parts → List Node
  | .nil => []
  | .token _ rest => rest.nodes
  | .child _ node rest => node :: rest.nodes
  | .shorthand _ _ _ _ rest => rest.nodes

def children (field : Field) : Parts → List Node
  | .nil => []
  | .token _ rest => rest.children field
  | .child field' node rest =>
    if field' = field then node :: rest.children field else rest.children field
  | .shorthand field' start stop name rest =>
    if field' = field then .mk (.identifier name) start stop .nil :: rest.children field
    else rest.children field

def child? (field : Field) (parts : Parts) : Option Node := (parts.children field).head?

end Parts

namespace Node

def stop : Node → Nat
  | .mk _ _ stop _ => stop
  | .callExpression _ stop _ _ => stop

def start : Node → Nat
  | .mk _ start _ _ => start
  | .callExpression start _ _ _ => start

def callee : Node → Option Node
  | .mk .. => none
  | .callExpression _ _ head _ => head.child? .callee

def arguments : Node → List Node
  | .mk .. => []
  | .callExpression _ _ _ arguments => arguments.nodes

/-- The field `name` of a node. -/
def name? : Node → Option Text
  | .mk (.identifier name) .. => some name
  | .mk (.privateIdentifier name) .. => some name
  | _ => none

def isSpread : Node → Bool
  | .mk .spreadElement .. => true
  | _ => false

end Node

/-! ## Visits -/

mutual

/-- What `walk` visits of a node. -/
def Node.visits : Node → List Node
  | .mk type start stop parts => .mk type start stop parts :: parts.visits
  | .callExpression start stop head arguments =>
    .callExpression start stop head arguments :: (head.visits ++ arguments.visits)

def Parts.visits : Parts → List Node
  | .nil => []
  | .token _ rest => rest.visits
  | .child _ node rest => node.visits ++ rest.visits
  | .shorthand _ start stop name rest => .mk (.identifier name) start stop .nil :: rest.visits

end

theorem Node.mem_visits_self (node : Node) : node ∈ node.visits := by
  cases node <;> exact List.mem_cons_self

theorem Parts.visits_of_mem_children {field : Field} {node visit : Node}
    (hvisit : visit ∈ node.visits) :
    ∀ parts : Parts, node ∈ parts.children field → visit ∈ parts.visits
  | .nil, h => absurd h List.not_mem_nil
  | .token _ rest, h => visits_of_mem_children hvisit rest h
  | .child field' first rest, h => by
    rw [Parts.children] at h
    split at h
    · rcases List.mem_cons.mp h with rfl | h
      · exact List.mem_append_left _ hvisit
      · exact List.mem_append_right _ (visits_of_mem_children hvisit rest h)
    · exact List.mem_append_right _ (visits_of_mem_children hvisit rest h)
  | .shorthand field' start stop name rest, h => by
    rw [Parts.children] at h
    split at h
    · rcases List.mem_cons.mp h with rfl | h
      · rw [List.mem_singleton.mp hvisit]
        exact List.mem_cons_self
      · exact List.mem_cons_of_mem _ (visits_of_mem_children hvisit rest h)
    · exact List.mem_cons_of_mem _ (visits_of_mem_children hvisit rest h)

mutual

/-- The calls in a node, each after those in it. -/
def Node.calls : Node → List Node
  | .mk _ _ _ parts => parts.calls
  | .callExpression start stop head arguments =>
    head.calls ++ arguments.calls ++ [.callExpression start stop head arguments]

def Parts.calls : Parts → List Node
  | .nil => []
  | .token _ rest => rest.calls
  | .child _ node rest => node.calls ++ rest.calls
  | .shorthand _ _ _ _ rest => rest.calls

end

end Neemata.Labels
