import CompilingProxy.Url.Basic

/-!
# Requests to the origin server

What the proxy itself fetches carries a mark in the query, so that a request of its own that comes
back to it is passed through instead of being compiled again. The mark never belongs to the address
of a source.
-/

namespace CompilingProxy

open Text

/-- A header's name and value. -/
abbrev Header := String × String

namespace Header

def sameName (a b : String) : Bool := lowerAscii a.toList == lowerAscii b.toList

/-- The value of the first header of that name, in any case. -/
def find? (name : String) (headers : List Header) : Option String :=
  (headers.find? fun h => sameName h.1 name).map (·.2)

end Header

/-- The query parameter that marks a request which must not be compiled. -/
def bypassParameter : String := "x-tsgate-skip-compile"

structure Request where
  method : String
  url : Url
  headers : List Header
  body : List UInt8
  /-- Whether a stored copy must not be the answer. -/
  noCache : Bool
deriving DecidableEq, Repr

namespace UrlPath

/-- The path at the end of an address, where opaque text has no spaces at its end. -/
def trimmed : UrlPath → UrlPath
  | .opaquely text => .opaquely (text.reverse.dropWhile (· = ' ')).reverse
  | .segments pieces => .segments pieces

end UrlPath

namespace Url

/-- A name in a query with plus signs and percent-encoding undone. -/
def decodeName (cs : List Char) : List UInt8 :=
  Percent.decode (bytes (String.ofList (cs.map fun c => if c = '+' then ' ' else c)))

/-- The names of the parameters in a query. -/
def parameterNames (query : List Char) : List (List UInt8) :=
  ((splitOnChar '&' query).filter (!·.isEmpty)).map fun pair =>
    decodeName (pair.takeWhile (· ≠ '='))

def lowerByte (b : UInt8) : UInt8 := if 0x41 ≤ b && b ≤ 0x5a then b + 32 else b

/-- Whether the query has the bypass parameter, in any case and with any value. -/
def isMarked (u : Url) : Bool :=
  match u.query with
  | some q => (parameterNames q).any fun name => name.map lowerByte == bytes bypassParameter
  | none => false

/-- The URL with the bypass parameter after its query unless it has it already. -/
def marked (u : Url) : Url :=
  if u.isMarked then u
  else
    let mark := (bypassParameter ++ "=true").toList
    match u.query with
    | none | some [] => { u with query := some mark }
    | some q => { u with query := some (q ++ '&' :: mark) }

/-- The address of a source: no query, no fragment, and no spaces at the end of an opaque path. -/
def source (u : Url) : Url := { u with path := u.path.trimmed, query := none, fragment := none }

end Url

namespace Request

/-- A plain request for what stands at a URL. -/
def get (url : Url) : Request := ⟨"GET", url, [], [], false⟩

/-- A request of the proxy's own: marked, and never answered from a stored copy. -/
def bypass (url : Url) : Request := { get url.marked with noCache := true }

/-- The headers that are sent. A request that refuses stored copies says so in two headers of its
own and in no others of their names. -/
def wireHeaders (r : Request) : List Header :=
  if r.noCache then
    (r.headers.filter fun h =>
      !Header.sameName h.1 "cache-control" && !Header.sameName h.1 "pragma") ++
      [("cache-control", "no-cache"), ("pragma", "no-cache")]
  else r.headers

def isBypassed (r : Request) : Bool := r.url.isMarked

end Request

end CompilingProxy
