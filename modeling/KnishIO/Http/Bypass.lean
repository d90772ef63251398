import KnishIO.Http.Operation
import KnishIO.Library.GraphQL.Landmarks

open ByteString

namespace KnishIO

namespace GraphQLClient

/-- The first definition is an operation, and what stands first in the text is its own: the first operation keyword
is its type, and the first name behind the first brace is the one that its selections start with. -/
structure Straight (request : Request) (document : GraphQL.Document) (operation : GraphQL.Operation) : Prop where
  parsed : GraphQL.parseDocument request.query = some document
  first : document.head? = some (.operation operation)
  keyword : FirstKeyword request.query operation.type.keyword
  name : FirstName request.query operation.leadingName

section Reading

variable {request : Request} {document : GraphQL.Document} {operation : GraphQL.Operation}

theorem Straight.reads (h : Straight request document operation) :
    parseOperation request.query = (operation.type.keyword, operation.leadingName) :=
  Prod.ext (firstKeyword_iff.mp h.keyword) (firstName_iff.mp h.name).1

end Reading

section Example

end Example

end GraphQLClient

end KnishIO
