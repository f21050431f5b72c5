import CompilingProxy.Proofs.Json.Writing
import CompilingProxy.Store.Cache

/-!
# Cache entries and their documents
-/

namespace CompilingProxy.CacheEntry

open JsonDocument

/-- An entry reads back as itself when its date does. -/
theorem read_document {e : CacheEntry}
    (hdate : Instant.ofDocument? e.lastModified.documentText = some e.lastModified) :
    Json.read ofDocument (Text.bytes e.toJson.render) = .ok e := by
  let first : String × String := ("url", e.url)
  let rest : List (String × String) := [("body", e.body), ("contentType", e.contentType),
    ("lastModified", e.lastModified.documentText)]
  have hjson : e.toJson = .object ((first :: rest).map fun m => (m.1, .string m.2)) := rfl
  have hinstant : instant (.string e.lastModified.documentText) = .ok e.lastModified := by
    rw [instant, asString]
    dsimp only [bind, Except.bind]
    rw [hdate]
    rfl
  have hfields : ofDocument (.object ((first :: rest).map fun m => (m.1, .string m.2)) none) =
      .ok e := by
    have hvalues : Fields.ofDocument ["url", "body", "contentType", "lastModified"]
        (.object ((first :: rest).map fun m => (m.1, .string m.2)) none) =
          .ok ⟨false, ((first :: rest).map fun m => (m.1, .string m.2)).reverse⟩ := rfl
    rw [ofDocument, hvalues]
    dsimp only [bind, Except.bind]
    have hlast : Fields.required ⟨false, ((first :: rest).map fun m => (m.1, .string m.2)).reverse⟩
        "lastModified" instant = .ok e.lastModified := hinstant
    rw [hlast]
    rfl
  rw [Json.read, hjson, ofBytes_texts]
  dsimp only
  rw [hfields]
  rfl

end CompilingProxy.CacheEntry

namespace CompilingProxy.Store

variable {s : Store} {url : Url} {entry : CacheEntry}

theorem cached_of_fresh {i : Instant} (h : s.freshEntry? url (some i) = some entry) :
    s.cached? url = some entry ∧ entry.isFresh i := by
  obtain ⟨e, hcached, h⟩ := Option.bind_eq_some_iff.mp h
  split at h
  case isTrue hfresh =>
    cases h
    exact ⟨hcached, hfresh⟩
  case isFalse => cases h

theorem read_of_cached (h : s.cached? url = some entry) :
    ∃ bytes, s.get .compiled url.source.text = .ok (some bytes) ∧
      Json.read CacheEntry.ofDocument bytes = .ok entry := by
  rw [cached?] at h
  split at h
  case h_1 found hfound =>
    subst h
    obtain ⟨bytes?, hget, hread⟩ := bind_eq_ok_iff.mp hfound
    cases bytes? with
    | none => cases hread
    | some bytes =>
      refine ⟨bytes, hget, ?_⟩
      dsimp only at hread
      split at hread
      case h_1 hentry =>
        cases hread
        exact hentry
      case h_2 => cases hread
  case h_2 => cases h

end CompilingProxy.Store
