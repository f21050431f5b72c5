import CompilingProxy.Url.Host
import CompilingProxy.Text.Blank

/-!
# URLs

A URL is taken apart into scheme, authority, path, query and fragment, each in its canonical text,
so that two URLs are equal just when they are written the same. Text without a scheme is read
against a base.
-/

namespace CompilingProxy

open Text

/-- What stands between the two slashes and the path. -/
structure Authority where
  /-- User and password as they are written before the `@`. -/
  userinfo : Option (List Char)
  host : List Char
  port : Option Nat
deriving DecidableEq, Repr

/-- The path of a URL: opaque text, or segments that each follow a slash. -/
inductive UrlPath where
  | opaquely (text : List Char)
  | segments (segments : List (List Char))
deriving DecidableEq, Repr

structure Url where
  scheme : List Char
  authority : Option Authority
  path : UrlPath
  query : Option (List Char)
  fragment : Option (List Char)
deriving DecidableEq, Repr

namespace UrlPath

def render : UrlPath → List Char
  | .opaquely text => text
  | .segments pieces => pieces.flatMap ('/' :: ·)

end UrlPath

namespace Url

/-- The port that a scheme with hosts implies; none for the scheme of local files. -/
def defaultPort? (scheme : List Char) : Option Nat :=
  [("http", 80), ("https", 443), ("ws", 80), ("wss", 443), ("ftp", 21)].lookup
    (String.ofList scheme)

def isFile (scheme : List Char) : Bool := scheme == "file".toList

/-- The schemes whose URLs always have a host and a path. -/
def isSpecial (scheme : List Char) : Bool := (defaultPort? scheme).isSome || isFile scheme

def authorityText (a : Authority) : List Char :=
  (match a.userinfo with
    | some u => u ++ ['@']
    | none => []) ++
  a.host ++
  (match a.port with
    | some p => ':' :: (toString p).toList
    | none => [])

def pathText (u : Url) : List Char := u.path.render

def render (u : Url) : List Char :=
  u.scheme ++ [':'] ++
  (match u.authority, u.path with
    | some a, _ => ['/', '/'] ++ authorityText a
    | none, .segments ([] :: _ :: _) => ['/', '.']
    | none, _ => []) ++
  u.pathText ++
  (match u.query with
    | some q => '?' :: q
    | none => []) ++
  (match u.fragment with
    | some f => '#' :: f
    | none => [])

def text (u : Url) : String := String.ofList u.render

/-- Whether nothing can be read against the URL. -/
def isOpaque (u : Url) : Bool :=
  match u.path with
  | .opaquely _ => true
  | .segments _ => false

/-! ### Reading -/

/-- Control characters and spaces off both ends, tabs and line breaks out everywhere. -/
def clean (cs : List Char) : List Char :=
  (trimBy (fun c => c.val ≤ 0x20) cs).filter fun c => c != '\t' && c != '\n' && c != '\r'

/-- The scheme in lower case and what follows its colon. -/
def scheme? (cs : List Char) : Option (List Char × List Char) :=
  match cs with
  | [] => none
  | c :: _ =>
    if !c.isAlpha then none
    else
      let isPart := fun c : Char => c.isAlphanum || c == '+' || c == '-' || c == '.'
      match cs.dropWhile isPart with
      | ':' :: rest => some (lowerAscii (cs.takeWhile isPart), rest)
      | _ => none

/-- Query and fragment from their marks on. -/
def queryAndFragment (special : Bool) (cs : List Char) :
    Option (List Char) × Option (List Char) :=
  let encodeQuery := Percent.encode (if special then Percent.specialQuery else Percent.query)
  let encodeFragment := Percent.encode Percent.fragment
  match cs with
  | '#' :: rest => (none, some (encodeFragment rest))
  | '?' :: rest =>
    match cutFirst? '#' rest with
    | some (q, f) => (some (encodeQuery q), some (encodeFragment f))
    | none => (some (encodeQuery rest), none)
  | _ => (none, none)

def isMark (c : Char) : Bool := c == '?' || c == '#'

def isSlash (special : Bool) (c : Char) : Bool := c == '/' || (special && c == '\\')

/-- A segment `.`, in any of its encodings. -/
def isSingleDot (segment : List Char) : Bool :=
  [".", "%2e"].contains (String.ofList (lowerAscii segment))

/-- A segment `..`, in any of its encodings. -/
def isDoubleDot (segment : List Char) : Bool :=
  ["..", "%2e.", ".%2e", "%2e%2e"].contains (String.ofList (lowerAscii segment))

/-! ### Drives

A local file may lie on a drive, which a letter and a colon or bar stand for. No path leaves its
drive. -/

def isDriveMark (c : Char) : Bool := c == ':' || c == '|'

def isDrive : List Char → Bool
  | [letter, mark] => letter.isAlpha && isDriveMark mark
  | _ => false

/-- A drive as it is written in a path. -/
def isWrittenDrive : List Char → Bool
  | [letter, mark] => letter.isAlpha && mark == ':'
  | _ => false

/-- Whether a drive stands at the front, followed by the end of a segment. -/
def beginsWithDrive : List Char → Bool
  | [letter, mark] => isDrive [letter, mark]
  | letter :: mark :: c :: _ =>
    isDrive [letter, mark] && (c == '/' || c == '\\' || c == '?' || c == '#')
  | _ => false

/-! ### Paths -/

/-- The text up to the last slash and with it, and what follows. -/
def cutSegment (path : List Char) : List Char × List Char :=
  match cutLast? '/' path with
  | some (front, segment) => (front ++ ['/'], segment)
  | none => ([], path)

/-- A path without its last segment, unless that is a drive. -/
def dropSegment (isFile : Bool) (path : List Char) : List Char :=
  let (front, segment) := cutSegment path
  if isFile && isWrittenDrive segment then path else front

/-- A path that ends with a slash without it, where a segment stands before the slash that is not a
drive. -/
def dropSlash (path : List Char) : List Char :=
  match cutLast? '/' path.dropLast with
  | some (_, segment) =>
    if path.getLast? == some '/' && !beginsWithDrive (segment ++ ['/']) then path.dropLast else path
  | none => path

/-- A path that ends with a slash. -/
def closed (path : List Char) : List Char :=
  if path.getLast? == some '/' then path else path ++ ['/']

/-- Adds the characters of a segment to a path. What stands directly behind a drive is set off from
it by a slash, which is no part of the segment; `start` is where that begins. -/
def addChars (isFile : Bool) : (path : List Char) → (start : Nat) → List Char → List Char × Nat
  | path, start, [] => (path, start)
  | path, start, c :: cs =>
    let (path, start) :=
      if isFile && isWrittenDrive (path.drop 1) then (path ++ ['/'], start + 1) else (path, start)
    addChars isFile (path ++ Percent.encodeChar Percent.path c) start cs

/-- A path that has been walked so far. -/
structure Walk where
  path : List Char
  /-- Whether the path has been found to begin with a drive, which takes the place of a host. -/
  onDrive : Bool := false

/-- Adds a segment to a path; `isLast` if no slash follows it. -/
def Walk.add (isFile isLast : Bool) (w : Walk) (segment : List Char) : Walk :=
  let slash := if isLast then [] else ['/']
  let (added, start) := addChars isFile w.path w.path.length segment
  let written := added.drop start
  if isDoubleDot written then
    let shorter := dropSegment isFile (dropSlash (added.take start))
    { w with path := if isLast then shorter else closed shorter }
  else if isSingleDot written then { w with path := closed (added.take start) }
  else if isFile && start == 1 && isDrive written then
    { path := added.take (start + 1) ++ [':'] ++ slash, onDrive := true }
  else { w with path := added ++ slash }

/-- Adds segments to a path, one after another. -/
def Walk.addAll (isFile : Bool) : Walk → List (List Char) → Walk
  | w, [] => w
  | w, [last] => w.add isFile true last
  | w, segment :: rest => Walk.addAll isFile (w.add isFile false segment) rest

/-- The pieces between slashes of either kind that the scheme knows. -/
def writtenSegments (special : Bool) (cs : List Char) : List (List Char) :=
  splitOnChar '/' (if special then cs.map fun c => if c = '\\' then '/' else c else cs)

/-- Walks on from a path as far as the text's path goes. -/
def walk (scheme path cs : List Char) : Walk :=
  Walk.addAll (isFile scheme) { path }
    (writtenSegments (isSpecial scheme) (cs.takeWhile (!isMark ·)))

/-- The path that a text stands for. Local files have no empty segments at the front. -/
def pathOfText (isFile : Bool) (text : List Char) : UrlPath :=
  match if isFile then '/' :: text.dropWhile (· == '/') else text with
  | [] => .segments []
  | _ :: rest => .segments (splitOnChar '/' rest)

/-- Reads a path on from what there is of it already, and what follows it. -/
def withPath (scheme : List Char) (authority : Option Authority) (path cs : List Char) : Url :=
  let (query, fragment) := queryAndFragment (isSpecial scheme) (cs.dropWhile (!isMark ·))
  ⟨scheme, authority, pathOfText (isFile scheme) (walk scheme path cs).path, query, fragment⟩

/-- Reads the path that may follow an authority. -/
def pathStart (scheme : List Char) (authority : Authority) (cs : List Char) : Url :=
  let special := isSpecial scheme
  match cs with
  | [] => withPath scheme (some authority) (if special then ['/'] else []) []
  | c :: rest =>
    if isSlash special c then withPath scheme (some authority) ['/'] rest
    else withPath scheme (some authority) (if isMark c && !special then [] else ['/']) cs

/-- User and password before the `@`, encoded; nothing if both are empty. -/
def userinfoText (cs : List Char) : Option (List Char) :=
  let encode := Percent.encode Percent.userinfo
  match cutFirst? ':' cs with
  | none => if cs.isEmpty then none else some (encode cs)
  | some (user, password) =>
    if password.isEmpty then if user.isEmpty then none else some (encode user)
    else some (encode user ++ ':' :: encode password)

/-- The host part ends at a colon outside square brackets. -/
def hostText : (inside : Bool) → List Char → List Char × List Char
  | _, [] => ([], [])
  | inside, c :: cs =>
    if c = ':' ∧ !inside then ([], c :: cs)
    else
      let (host, rest) := hostText (if c = '[' then true else if c = ']' then false else inside) cs
      (c :: host, rest)

/-- The port after its colon, and what follows it; none if it is not written or the one that the
scheme implies. -/
def portNumber (scheme : List Char) (cs : List Char) :
    Except UrlError (Option Nat × List Char) :=
  let digits := cs.takeWhile Char.isDigit
  let rest := cs.dropWhile Char.isDigit
  let n := digits.foldl (fun acc c => acc * 10 + (c.toNat - 48)) 0
  if n > 65535 || !rest.head?.all fun c => isSlash true c || isMark c then .error .badPort
  else .ok (if digits.isEmpty || defaultPort? scheme = some n then none else some n, rest)

/-- Reads on after the two slashes before an authority. -/
def afterSlashes (scheme : List Char) (cs : List Char) : Except UrlError Url := do
  let special := isSpecial scheme
  let isEnd := fun c => isSlash special c || isMark c
  let written := cs.takeWhile (!isEnd ·)
  let rest := cs.dropWhile (!isEnd ·)
  let (userinfo, hostAndPort) := match cutLast? '@' written with
    | some (front, back) => (some front, back)
    | none => (none, written)
  if userinfo == some [] && hostAndPort.isEmpty && !rest.isEmpty then throw .emptyHost
  let userinfo := userinfo.bind userinfoText
  let (hostText, port) := hostText false hostAndPort
  if hostText.isEmpty && (special || !port.isEmpty) then throw .emptyHost
  let host ← if special then Host.parse hostText else Host.parseOpaque hostText
  let (port, rest) ← match port with
    | [] => pure (none, rest)
    | _ :: port => portNumber scheme (port ++ rest)
  if host.isEmpty && userinfo.isSome then throw .emptyHost
  return pathStart scheme ⟨userinfo, host, port⟩ rest

/-- The authority of a local file without a host. -/
def noHost : Authority := ⟨none, [], none⟩

/-- Reads on after the two slashes before the host of a local file. A drive may stand in the place
of the host, or come to stand at the front of the path. -/
def afterFileSlashes (cs : List Char) : Except UrlError Url := do
  let scheme := "file".toList
  let isEnd := fun c => isSlash true c || isMark c
  let written := cs.takeWhile (!isEnd ·)
  let host ← if written.isEmpty || isDrive written then pure [] else Host.parse written
  if host.isEmpty || host == "localhost".toList then
    return withPath scheme (some noHost) ['/']
      (if isDrive written then cs else cs.dropWhile (!isEnd ·))
  else
    let rest := cs.dropWhile (!isEnd ·)
    let rest := if rest.head?.any (isSlash true) then rest.drop 1 else rest
    let authority := if (walk scheme ['/'] rest).onDrive then noHost else ⟨none, host, none⟩
    return withPath scheme (some authority) ['/'] rest

/-- The URL with another query and fragment, read from their marks on. -/
def withMarks (base : Url) (cs : List Char) : Url :=
  let (query, fragment) := queryAndFragment (isSpecial base.scheme) cs
  match cs with
  | '?' :: _ => { base with query, fragment }
  | _ => { base with fragment }

/-- The drive that a path begins with. -/
def drive? (u : Url) : Option (List Char) :=
  match u.path with
  | .segments (first :: _) => if isWrittenDrive first then some first else none
  | _ => none

/-- Reads on after the colon of the file scheme, against another local file if one is given. -/
def afterFile (base : Option Url) (cs : List Char) : Except UrlError Url := do
  let scheme := "file".toList
  let onBase (path : List Char) : Url := withPath scheme (base.bind (·.authority)) path cs
  let alone (path : List Char) : Url := withPath scheme (some noHost) path cs
  match cs with
  | a :: rest =>
    if isSlash true a then
      if rest.head?.any (isSlash true) then afterFileSlashes (rest.drop 1)
      else if base.isNone || beginsWithDrive rest then return alone []
      else
        match base.bind drive? with
        | some drive => return alone ('/' :: drive)
        | none => return onBase []
    else
      match base with
      | none => return alone ['/']
      | some b =>
        if isMark a then return b.withMarks cs
        else if beginsWithDrive cs then return alone ['/']
        else return onBase (dropSegment true b.pathText)
  | [] =>
    match base with
    | none => return alone ['/']
    | some b => return b.withMarks []

/-- Reads on after the colon of a scheme without hosts of its own. -/
def afterPlainScheme (scheme cs : List Char) : Except UrlError Url :=
  match cs with
  | '/' :: '/' :: rest => afterSlashes scheme rest
  | '/' :: rest => .ok (withPath scheme none ['/'] rest)
  | _ =>
    let (query, fragment) := queryAndFragment false (cs.dropWhile (!isMark ·))
    let text := Percent.encode Percent.controls (cs.takeWhile (!isMark ·))
    .ok ⟨scheme, none, .opaquely text, query, fragment⟩

/-- Reads a path, a query or a fragment against a base that is no local file. -/
def onPath (base : Url) (cs : List Char) : Except UrlError Url :=
  let special := isSpecial base.scheme
  match cs with
  | [] => .ok (base.withMarks [])
  | c :: rest =>
    if isMark c then .ok (base.withMarks cs)
    else if !isSlash special c then
      let path := dropSegment false base.pathText
      .ok (withPath base.scheme base.authority (if path.isEmpty then ['/'] else path) cs)
    else if !rest.head?.any (isSlash special) then
      .ok (withPath base.scheme base.authority ['/'] rest)
    else if special then afterSlashes base.scheme (rest.dropWhile (isSlash special))
    else afterSlashes base.scheme (rest.drop 1)

/-- Reads what has no scheme of its own against a base. -/
def relative (base : Url) (cs : List Char) : Except UrlError Url :=
  if cs.head? == some '#' then .ok (base.withMarks cs)
  else if base.isOpaque then .error .relativeToOpaque
  else if isFile base.scheme then afterFile (some base) cs
  else onPath base cs

/-- Reads a URL; what has no scheme is read against the base. -/
def parseWith (base : Option Url) (input : List Char) : Except UrlError Url :=
  let cs := clean input
  match scheme? cs with
  | some (scheme, rest) =>
    let base := base.filter (·.scheme == scheme)
    if isFile scheme then afterFile base rest
    else if isSpecial scheme then
      let slashes := (rest.takeWhile (isSlash true)).length
      match base with
      | some b =>
        if slashes < 2 then onPath b rest
        else afterSlashes scheme (rest.dropWhile (isSlash true))
      | none => afterSlashes scheme (rest.dropWhile (isSlash true))
    else afterPlainScheme scheme rest
  | none =>
    match base with
    | some b => relative b cs
    | none => .error .relativeWithoutBase

def parse (s : String) : Except UrlError Url := parseWith none s.toList

/-- Reads a reference against this URL. -/
def join (base : Url) (reference : String) : Except UrlError Url :=
  parseWith (some base) reference.toList

/-- The URL with its path replaced by one that also ends with a slash. -/
def asDirectory (u : Url) : Url :=
  if endsWith ['/'] u.pathText then u
  else
    match u.path with
    | .segments segments => { u with path := .segments (segments ++ [[]]) }
    | .opaquely _ => u

/-- Scheme, host and port, which requests through the proxy may not change. -/
def origin (u : Url) : List Char × Option (List Char × Option Nat) :=
  (u.scheme, u.authority.map fun a => (a.host, a.port))

end Url

end CompilingProxy
