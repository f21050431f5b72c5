import CompilingProxy.Time.Reading
import CompilingProxy.Http.Request

/-!
# Answers of the origin server

Only an answer with status 200 is compiled or cached. The head of an answer stays with the module
that was read from it.
-/

namespace CompilingProxy

structure Response where
  url : Url
  status : Nat
  statusText : String
  headers : List Header
  body : List UInt8
deriving DecidableEq, Repr

/-- What is kept of an answer: whose source it is, how fresh it is and what type it claims. -/
structure ResponseHead where
  url : Url
  status : Nat
  lastModified : Option Instant
  contentType : Option String
deriving DecidableEq, Repr

namespace Response

def ok (url : Url) (body : List UInt8) : Response := ⟨url, 200, "OK", [], body⟩

def withStatus (url : Url) (status : Nat) (statusText : String) : Response :=
  ⟨url, status, statusText, [], []⟩

def withHeader (r : Response) (name value : String) : Response :=
  { r with headers := r.headers ++ [(name, value)] }

def isOk (r : Response) : Bool := r.status == 200

def header? (r : Response) (name : String) : Option String := Header.find? name r.headers

/-- When the source changed last; none without a header that holds a date. -/
def lastModified (r : Response) : Option Instant :=
  (r.header? "last-modified").bind Instant.ofHeader?

def text (r : Response) : String := Text.ofBytesLossy r.body

def head (r : Response) (source : Url) : ResponseHead :=
  ⟨source, r.status, r.lastModified, r.header? "content-type"⟩

end Response

/-- Why a source could not be fetched. -/
inductive FetchError where
  | status (url : String) (code : Nat) (statusText : String)
  | transport (url : String) (reason : String)
  | badUrl (reason : UrlError)
deriving DecidableEq, Repr

def FetchError.message : FetchError → String
  | .status url code statusText => s!"{code} {statusText}: {url}"
  | .transport url reason => s!"request to {url} failed: {reason}"
  | .badUrl reason => s!"invalid url: {reason.message}"

/-- Fetches the source at a URL; any answer but 200 is an error. -/
def sourceOf (url : Url) : Except FetchError Response → Except FetchError Response
  | .error e => .error e
  | .ok r => if r.isOk then .ok r else .error (.status url.source.text r.status r.statusText)

/-- What answers requests. An answer of any status is one; an error is no answer at all. -/
abbrev Network := Request → Except FetchError Response

end CompilingProxy
