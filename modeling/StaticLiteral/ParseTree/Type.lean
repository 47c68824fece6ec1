import StaticLiteral.ParseTree.Expression

/-!
# Types from parse trees

Type annotations. A union inside a union is merged into it, and parentheses leave no trace.
-/

namespace StaticLiteral.MakeSyntax.Makers

variable (m : Makers)

/-- A member of a tuple type; a labelled one has its type in an annotation. -/
def tupleMember (n : ParseTree) : MakeSyntax Node := do
  if n.type == "required_parameter" || n.type == "optional_parameter" then
    return (← m.typeAnnotation (n.child? "type")).getD (.unknownType {} (symbol n))
  else m.type n

/-- The property signatures among the members of an object type or interface. -/
def propertySignatures (n : ParseTree) : MakeSyntax (List Node) :=
  (n.named.filter (·.type == "property_signature")).mapM fun c => do
    let name ← m.propertyName (c.child? "name")
    let type ← m.typeAnnotation (c.child? "type")
    return .propertySignature (← info c) name type

/-- The members that a type adds to the union around it. -/
def unionMembers : Node → List Node
  | .unionType _ types => types
  | type => [type]

/-- A reference to a generic type with its arguments. -/
def genericType (n : ParseTree) : MakeSyntax Node := do
  let i ← info n
  let name ← match n.child? "name" with
    | some name => text name
    | none => pure []
  let arguments ← match n.child? "type_arguments" with
    | some list => list.named.mapM m.type
    | none => pure []
  return .typeReference i (.identifier i name) arguments

/-- The type that a tree of any sort is. -/
def typeOfType (n : ParseTree) : MakeSyntax Node := do
  let i ← info n
  match n.type, n.named with
  | "literal_type", first :: _ => return .literalType i (← m.expression first)
  | "predefined_type", _ => return .keywordType i (← text n)
  | "tuple_type", members => return .tupleType i (← members.mapM m.tupleMember)
  | "array_type", first :: _ => return .arrayType i (← m.type first)
  | "readonly_type", first :: _ =>
    return .typeOperator i (Text.ofString "readonly") (← m.type first)
  | "index_type_query", first :: _ =>
    return .typeOperator i (Text.ofString "keyof") (← m.type first)
  | "generic_type", _ => m.genericType n
  | "type_identifier", _ | "nested_type_identifier", _ =>
    return .typeReference i (.identifier i (← text n)) []
  | "object_type", _ => return .typeLiteral i (← m.propertySignatures n)
  | "union_type", members =>
    return .unionType i ((← members.mapM m.type).flatMap unionMembers)
  | "parenthesized_type", first :: _ => m.type first
  | _, _ => return .unknownType i (symbol n)

/-- A type one level further down. -/
def makeType (n : ParseTree) : MakeSyntax Node := guarded n (cutOffType n) (m.typeOfType n)

end StaticLiteral.MakeSyntax.Makers
