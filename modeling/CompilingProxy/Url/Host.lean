import CompilingProxy.Url.Address
import CompilingProxy.Url.Name

/-!
# Hosts

The host of a URL is a name or an address. Both have one canonical form each, so equal hosts have
equal text.
-/

namespace CompilingProxy

/-- Why text is not a URL. -/
inductive UrlError where
  | emptyHost
  | badName
  | badPort
  | badAddress4
  | badAddress6
  | badNameCharacter
  | relativeWithoutBase
  | relativeToOpaque
deriving DecidableEq, Repr

def UrlError.message : UrlError → String
  | .emptyHost => "empty host"
  | .badName => "invalid international domain name"
  | .badPort => "invalid port number"
  | .badAddress4 => "invalid IPv4 address"
  | .badAddress6 => "invalid IPv6 address"
  | .badNameCharacter => "invalid domain character"
  | .relativeWithoutBase => "relative URL without a base"
  | .relativeToOpaque => "relative URL with a cannot-be-a-base base"

namespace Host

open Text

/-- The text with its encoded bytes put back, if that is UTF-8. -/
def decoded? (cs : List Char) : Option (List Char) :=
  (ofBytes? (Percent.decode (bytes (String.ofList cs)))).map String.toList

/-- The host that stands in the URL of a scheme with hosts of names and addresses. -/
def parse (cs : List Char) : Except UrlError (List Char) :=
  match cs with
  | '[' :: rest =>
    if rest.getLast? = some ']' then
      match address6? rest.dropLast with
      | some pieces => .ok (['['] ++ render6 pieces ++ [']'])
      | none => .error .badAddress6
    else .error .badAddress6
  | _ =>
    match (decoded? cs).bind asciiName? with
    | none => .error .badName
    | some [] => .error .emptyHost
    | some name =>
      if endsInNumber name then
        match address4? name with
        | some n => .ok (render4 n)
        | none => .error .badAddress4
      else .ok name

/-- Characters that no host may hold, whatever the scheme. -/
def isForbiddenEverywhere (c : Char) : Bool :=
  ['\x00', '\t', '\n', '\r', ' '].contains c ||
    (0x20 < c.val && c.val < 0x7f && c != '%' && isForbidden c)

/-- The host that stands in the URL of any other scheme: an address of eight pieces or text that is
only encoded. -/
def parseOpaque (cs : List Char) : Except UrlError (List Char) :=
  match cs with
  | '[' :: _ => parse cs
  | _ =>
    if cs.any isForbiddenEverywhere then .error .badNameCharacter
    else .ok (Percent.encode Percent.controls cs)

end Host

end CompilingProxy
