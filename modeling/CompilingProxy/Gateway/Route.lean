import CompilingProxy.Http.Request

/-!
# Routing requests

The proxy compiles what is asked for by its name: scripts with types, fetched by `GET`, inside the
scope. All else is passed through to the origin server, and so is every request that carries the
mark.
-/

namespace CompilingProxy

open Text

namespace Header

/-- The headers that describe one connection and not the message. -/
def connectionNames : List String :=
  ["connection", "keep-alive", "proxy-authenticate", "proxy-authorization", "te", "trailer",
    "transfer-encoding", "upgrade", "host", "content-length"]

def isOfConnection (name : String) : Bool := connectionNames.any (sameName · name)

/-- The headers that travel on with a message. -/
def endToEnd (headers : List Header) : List Header := headers.filter fun h => !isOfConnection h.1

end Header

inductive Route where
  | passThrough
  | compile
deriving DecidableEq, Repr

/-- Whether a path names a script with types; declarations compile to nothing. -/
def isCompiledPath (path : List Char) : Bool :=
  !endsWith ".d.ts".toList path && (endsWith ".ts".toList path || endsWith ".tsx".toList path)

/-- What becomes of a request when scripts are compiled under the scope. -/
def Request.route (r : Request) (scope : String) : Route :=
  if Header.sameName r.method "get" && !r.isBypassed && beginsWith scope.toList r.url.pathText &&
      isCompiledPath r.url.pathText then
    .compile
  else .passThrough

end CompilingProxy
