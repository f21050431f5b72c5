import Mathlib.Data.List.TakeWhile
import CompilingProxy.Proofs.Module.Path
import CompilingProxy.Proofs.Url.Source

/-!
# Addresses of paths

A path is written so that no query and no fragment begins in it, and so is the path of every address
that is read. An address that the path of it leads back to has neither.
-/

namespace CompilingProxy

open Text

namespace Url

variable {u base : Url} {cs path : List Char}

namespace Unmarked

theorem mono {ds : List Char} (h : Unmarked ds) (hsub : cs ⊆ ds) : Unmarked cs :=
  fun c hc => h c (hsub hc)

theorem append {ds : List Char} (h : Unmarked cs) (h' : Unmarked ds) : Unmarked (cs ++ ds) := by
  intro c hc
  rcases List.mem_append.mp hc with hc | hc
  · exact h c hc
  · exact h' c hc

/-- Segments make a path without marks, if none is in one of them. -/
theorem render {pieces : List (List Char)} (h : ∀ piece ∈ pieces, Unmarked piece) :
    Unmarked (pieces.flatMap ('/' :: ·)) := by
  intro c hc
  obtain ⟨piece, hpiece, hc⟩ := List.mem_flatMap.mp hc
  rcases List.mem_cons.mp hc with rfl | hc
  · rfl
  · exact h piece hpiece c hc

theorem upperHexDigit {n : Nat} (h : n < 16) : isMark (Percent.upperHexDigit n) = false := by
  have hall : ∀ n : Fin 16, isMark (Percent.upperHexDigit n) = false := by decide
  exact hall ⟨n, h⟩

theorem encodeByte (b : UInt8) : Unmarked (Percent.encodeByte b) := by
  have hb := b.toNat_lt
  intro c hc
  simp only [Percent.encodeByte, List.mem_cons, List.not_mem_nil, or_false] at hc
  rcases hc with rfl | rfl | rfl
  · rfl
  · exact upperHexDigit (by omega)
  · exact upperHexDigit (by omega)

/-- A path is written in characters that are no marks. -/
theorem encodeChar (c : Char) : Unmarked (Percent.encodeChar Percent.path c) := by
  rw [Percent.encodeChar]
  split
  case isTrue hplain =>
    intro d hd
    rw [List.mem_singleton.mp hd, isMark, Bool.or_eq_false_iff, beq_eq_false_iff_ne,
      beq_eq_false_iff_ne]
    constructor <;> rintro rfl <;> exact absurd hplain.2.2 (by decide)
  case isFalse =>
    intro d hd
    obtain ⟨b, -, hd⟩ := List.mem_flatMap.mp hd
    exact encodeByte b d hd

theorem addChars {file : Bool} {start : Nat} (h : Unmarked path) (cs : List Char) :
    Unmarked (Url.addChars file path start cs).1 := by
  induction cs generalizing path start with
  | nil => exact h
  | cons c cs ih =>
    have hset : Unmarked (if file && isWrittenDrive (path.drop 1) then (path ++ ['/'], start + 1)
        else (path, start)).1 := by
      split
      · exact h.append unmarked_root
      · exact h
    exact ih (hset.append (encodeChar c))

theorem dropSegment {file : Bool} (h : Unmarked path) : Unmarked (Url.dropSegment file path) := by
  have hfront : Unmarked (cutSegment path).1 := by
    rw [cutSegment]
    split
    case h_1 front segment hcut =>
      refine .append (h.mono ?_) unmarked_root
      rw [cutLast?_eq hcut]
      exact List.subset_append_left _ _
    case h_2 => exact h.mono (List.nil_subset _)
  rw [Url.dropSegment]
  dsimp only
  split
  · exact h
  · exact hfront

theorem dropSlash (h : Unmarked path) : Unmarked (Url.dropSlash path) := by
  have hshort : Unmarked path.dropLast := h.mono (List.dropLast_subset _)
  rw [Url.dropSlash]
  split
  · split
    · exact hshort
    · exact h
  · exact h

theorem closed (h : Unmarked path) : Unmarked (Url.closed path) := by
  rw [Url.closed]
  split
  · exact h
  · exact h.append unmarked_root

theorem slash (isLast : Bool) : Unmarked (if isLast then [] else ['/']) := by
  cases isLast
  · exact unmarked_root
  · exact fun _ hc => by cases hc

end Unmarked

/-! ### Walks -/

/-- A step adds no mark to the path, whatever the segment is. -/
theorem Walk.unmarked_add {file isLast : Bool} {w : Walk} (h : Unmarked w.path)
    (segment : List Char) : Unmarked (w.add file isLast segment).path := by
  have hadded : Unmarked (addChars file w.path w.path.length segment).1 := h.addChars segment
  have htaken (n : Nat) : Unmarked ((addChars file w.path w.path.length segment).1.take n) :=
    hadded.mono (List.take_subset _ _)
  rw [Walk.add]
  dsimp only
  split
  · have hshort : Unmarked (dropSegment file (dropSlash
        ((addChars file w.path w.path.length segment).1.take
          (addChars file w.path w.path.length segment).2))) := (htaken _).dropSlash.dropSegment
    dsimp only
    split
    · exact hshort
    · exact hshort.closed
  · split
    · exact (htaken _).closed
    · split
      · exact ((htaken _).append (fun _ hc => by rw [List.mem_singleton.mp hc]; rfl)).append
          (.slash isLast)
      · exact hadded.append (.slash isLast)

theorem Walk.unmarked_addAll {file : Bool} {w : Walk} (h : Unmarked w.path)
    (segments : List (List Char)) : Unmarked (w.addAll file segments).path := by
  induction segments generalizing w with
  | nil => exact h
  | cons segment rest ih =>
    cases rest with
    | nil => exact w.unmarked_add h segment
    | cons next rest => exact ih (w.unmarked_add h segment)

/-- The path of an address that is read on from an unmarked path has no mark. -/
theorem unmarked_pathText_withPath {scheme cs : List Char} {authority : Option Authority}
    (h : Unmarked path) : Unmarked (withPath scheme authority path cs).pathText := by
  have hwalk : Unmarked (walk scheme path cs).path := Walk.unmarked_addAll h _
  have hread : ∀ file : Bool, ∀ text : List Char, Unmarked text →
      Unmarked (pathOfText file text).render := by
    intro file text htext
    have hrooted : Unmarked (if file then '/' :: text.dropWhile (· == '/') else text) := by
      split
      · exact unmarked_root.append (htext.mono (List.dropWhile_suffix _).subset)
      · exact htext
    rw [pathOfText]
    split
    · exact fun _ hc => by cases hc
    case h_2 c rest heq =>
      rw [heq] at hrooted
      have hrest : Unmarked rest := hrooted.mono (List.subset_cons_self _ _)
      exact .render fun piece hpiece => hrest.mono (subset_of_mem_splitOnChar hpiece)
  exact hread _ _ hwalk

theorem pathText_unmarked_of_join {reference : String} (hrooted : beginsWith ['/'] reference.toList)
    (h : base.join reference = .ok u) : Unmarked u.pathText :=
  join_rooted_yields (fun u => Unmarked u.pathText) hrooted
    (fun _ _ _ hpath _ => unmarked_pathText_withPath hpath) u h

/-- An unmarked reference leads to an address without a query and without a fragment. -/
theorem source_eq_of_join {reference : String} (hrooted : beginsWith ['/'] reference.toList)
    (hunmarked : Unmarked reference.toList) (h : base.join reference = .ok u) : u.source = u := by
  have hnone : ∀ authority path rest, Unmarked path → rest ⊆ reference.toList →
      (withPath base.scheme authority path rest).source =
        withPath base.scheme authority path rest := by
    intro authority path rest _ hrest
    have hdrop : rest.dropWhile (!isMark ·) = [] := by
      refine List.dropWhile_eq_nil_iff.mpr fun c hc => ?_
      rw [hunmarked c (hrest hc)]
      rfl
    rw [source_of_not_isOpaque isOpaque_withPath, withPath, hdrop]
    rfl
  exact join_rooted_yields (fun u => u.source = u) hrooted hnone u h

end Url

namespace ModulePath

open Url (Unmarked unmarked_root)

/-- The segments of a path are parts of it. -/
theorem subset_of_mem_segments {path s : List Char} (h : s ∈ segments path) : s ⊆ path := by
  have hwalk : ∀ pieces walked : List (List Char), s ∈ pieces.foldl walk walked →
      s ∈ walked ∨ s ∈ pieces := by
    intro pieces
    induction pieces with
    | nil => exact fun walked h => .inl h
    | cons piece pieces ih =>
      intro walked h
      rcases ih (walk walked piece) h with h | h
      · rw [walk] at h
        split at h
        · exact .inl h
        · split at h
          · exact .inl (List.mem_of_mem_tail h)
          · rcases List.mem_cons.mp h with rfl | h
            · exact .inr List.mem_cons_self
            · exact .inl h
      · exact .inr (List.mem_cons_of_mem _ h)
  rw [segments, List.mem_reverse] at h
  rcases hwalk _ _ h with h | h
  · cases h
  · exact subset_of_mem_splitOnChar h

theorem unmarked_normalize {path : List Char} (h : Unmarked path) : Unmarked (normalize path) := by
  rw [normalize]
  unfold renderSegments
  split
  · exact unmarked_root
  · exact .render fun piece hpiece => h.mono (subset_of_mem_segments hpiece)

theorem rooted_normalize (path : List Char) : beginsWith ['/'] (normalize path) := by
  rw [normalize]
  cases segments path with
  | nil => rfl
  | cons s ss => rfl

theorem rooted_ofUrl (u : Url) : beginsWith ['/'] (ofUrl u).text.toList := by
  rw [ofUrl, String.toList_ofList]
  exact rooted_normalize _

theorem join_eq_of_toUrl {p : ModulePath} {base url : Url}
    (h : p.toUrl base = .ok url) : base.join p.text = .ok url := by
  rw [toUrl] at h
  split at h
  case h_1 hjoin =>
    cases h
    exact hjoin
  case h_2 => cases h

/-- An address that its path leads to again is the address of a source. -/
theorem source_eq_of_toUrl {u base : Url} (h : (ofUrl u).toUrl base = .ok u) : u.source = u := by
  have hjoin := join_eq_of_toUrl h
  have hpath := Url.pathText_unmarked_of_join (rooted_ofUrl u) hjoin
  refine Url.source_eq_of_join (rooted_ofUrl u) ?_ hjoin
  rw [ofUrl, String.toList_ofList]
  exact unmarked_normalize hpath

end ModulePath

end CompilingProxy
