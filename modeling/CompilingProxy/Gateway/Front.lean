import CompilingProxy.Gateway.Basic

/-!
# The front of the gateway

Requests as they come in over HTTP, with a target in the place of an address, and answers as they go
out. Names of headers are written in lower case on both sides.
-/

namespace CompilingProxy

open Text

/-- A request as it comes in. -/
structure IncomingRequest where
  method : String
  target : String
  headers : List Header
  body : List UInt8

/-- An answer as it goes out. -/
structure Reply where
  status : Nat
  headers : List Header
  body : List UInt8
deriving DecidableEq, Repr

namespace Header

def lowerName (name : String) : String := String.ofList (lowerAscii name.toList)

/-- The characters that the names of headers are made of. -/
def isNameCharacter (c : Char) : Bool :=
  c.isAlphanum || "!#$%&'*+-.^_`|~".toList.contains c

def isName (name : String) : Bool := !name.isEmpty && name.toList.all isNameCharacter

/-- Whether text may be the value of a header. -/
def isValue (value : String) : Bool :=
  value.toList.all fun c => c == '\t' || (0x20 ≤ c.val && c.val != 0x7f)

/-- Whether the value of a header is read as text. -/
def isReadable (value : String) : Bool :=
  value.toList.all fun c => c == '\t' || (0x20 ≤ c.val && c.val < 0x7f)

/-- Headers of one name behind the first one of that name. -/
def grouped : (fuel : Nat) → List Header → List Header
  | 0, _ => []
  | _ + 1, [] => []
  | fuel + 1, h :: hs =>
    h :: hs.filter (·.1 == h.1) ++ grouped fuel (hs.filter (·.1 != h.1))

/-- The headers of a request that comes in. -/
def incoming (headers : List Header) : List Header :=
  let headers := headers.map fun h => (lowerName h.1, h.2)
  (grouped headers.length headers).filter fun h => isReadable h.2

end Header

namespace Gateway

/-- Path and query of a target, which may be a whole address; an empty query is none. A target that
names a server alone asks for its root, and a star for the server itself. -/
def pathAndQuery (target : List Char) : List Char :=
  let bare := target.takeWhile (· ≠ '#')
  let rooted :=
    if beginsWith ['/'] bare then bare
    else
      match cutAt? "://".toList bare with
      | none => if bare = ['*'] then bare else ['/']
      | some (_, rest) =>
        let tail := rest.dropWhile fun c => c ≠ '/' ∧ c ≠ '?'
        if beginsWith ['/'] tail then tail else '/' :: tail
  match cutFirst? '?' rooted with
  | some (path, []) => path
  | _ => rooted

/-- A reply with text alone. -/
def textReply (status : Nat) (text : String) : Reply :=
  ⟨status, [("content-type", textType)], bytes text⟩

/-- An answer as it goes out; one that HTTP has no form for is kept back. -/
def replyOf (r : Response) : Reply :=
  let headers := Header.endToEnd r.headers
  if 100 ≤ r.status && r.status ≤ 999 &&
      headers.all (fun h => Header.isName h.1 && Header.isValue h.2) then
    ⟨r.status, headers.map fun h => (Header.lowerName h.1, h.2), r.body⟩
  else textReply 502 "invalid upstream response"

/-- Answers a request as it comes in. -/
def serve (g : Gateway) (net : Network) (s : GatewayState) (r : IncomingRequest) :
    Reply × GatewayState :=
  let target := String.ofList (pathAndQuery r.target.toList)
  match g.requestUrl target with
  | .error e => (textReply 400 e.message, s)
  | .ok url =>
    let request := { Request.get url with
      method := r.method, headers := Header.incoming r.headers, body := r.body }
    let (response, s) := g.handle net s request
    (replyOf response, s)

end Gateway

end CompilingProxy
