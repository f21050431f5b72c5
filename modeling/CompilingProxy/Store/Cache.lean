import CompilingProxy.Store.Basic
import CompilingProxy.Http.Response

/-!
# The cache of compiled modules

An entry stands under the address of its source and remembers when the source that it was compiled
from had changed last. It may be served as long as the source has not changed since. A store that
fails counts as one that has nothing.
-/

namespace CompilingProxy

open JsonDocument

structure CacheEntry where
  url : String
  body : String
  contentType : String
  lastModified : Instant
deriving DecidableEq, Repr

namespace CacheEntry

/-- The type of what modules compile to. -/
def scriptType : String := "application/javascript"

/-- The entry of a module that compiles to a text. -/
def script (url : Url) (body : String) (lastModified : Instant) : CacheEntry :=
  ⟨url.source.text, body, scriptType, lastModified⟩

/-- Whether the source has not changed since. -/
def isFresh (e : CacheEntry) (lastModified : Instant) : Bool := lastModified.le e.lastModified

def toJson (e : CacheEntry) : Json :=
  .object [("url", .string e.url), ("body", .string e.body), ("contentType", .string e.contentType),
    ("lastModified", .string e.lastModified.documentText)]

def instant (d : JsonDocument) : Except JsonFault Instant := do
  match Instant.ofDocument? (← asString d) with
  | some i => return i
  | none => throw .mismatched

def ofDocument (d : JsonDocument) : Except JsonFault CacheEntry := do
  let fs ← Fields.ofDocument ["url", "body", "contentType", "lastModified"] d
  return ⟨← fs.required "url" asString, ← fs.required "body" asString,
    ← fs.required "contentType" asString, ← fs.required "lastModified" instant⟩

end CacheEntry

namespace Store

/-- The entry of a source, fresh or not. -/
def cached? (s : Store) (url : Url) : Option CacheEntry :=
  match s.getDocument .compiled url.source.text CacheEntry.ofDocument with
  | .ok entry => entry
  | .error _ => none

/-- The entry of a source that changed last at that time; nothing is fresh if that is not known. -/
def freshEntry? (s : Store) (url : Url) (lastModified : Option Instant) : Option CacheEntry := do
  let lastModified ← lastModified
  let entry ← s.cached? url
  if entry.isFresh lastModified then some entry else none

def putEntry (s : Store) (entry : CacheEntry) : Store :=
  match s.setDocument .compiled entry.url entry.toJson with
  | .ok s => s
  | .error _ => s

def dropEntry (s : Store) (url : Url) : Store :=
  match s.delete .compiled url.source.text with
  | .ok s => s
  | .error _ => s

/-- Keeps what a source compiles to, or nothing if it is not known when the source changed last. -/
def keepCompiled (s : Store) (url : Url) (compiled : String) (lastModified : Option Instant) :
    Store :=
  match lastModified with
  | some i => s.putEntry (.script url compiled i)
  | none => s.dropEntry url

end Store

end CompilingProxy
