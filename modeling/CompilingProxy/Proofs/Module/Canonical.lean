import CompilingProxy.Proofs.Module.Path

/-!
# Walking paths

A written path is a walk from the root, and the canonical form of a path is the place where the
walk ends. A path that is joined to another one goes on from the place where that one ends, so
nothing but the place counts.
-/

namespace CompilingProxy.ModulePath

open Text

/-- The text is a path from the root in canonical form. -/
def IsRooted (path : List Char) : Prop :=
  ∃ ss, (∀ s ∈ ss, IsSegment s) ∧ path = renderSegments ss

/-- Where a written segment leads from a directory: nothing and `.` stay in it, `..` leads to the
directory above unless this is the root, and any other segment leads one level down. -/
def enter (dir : List (List Char)) (segment : List Char) : List (List Char) :=
  if segment = [] ∨ segment = ['.'] then dir
  else if segment = ['.', '.'] then dir.dropLast
  else dir ++ [segment]

theorem reverse_walk (walked : List (List Char)) (segment : List Char) :
    (walk walked segment).reverse = enter walked.reverse segment := by
  unfold walk enter
  split
  · rfl
  split
  · exact List.dropLast_reverse.symm
  · exact List.reverse_cons

theorem reverse_foldl_walk (pieces walked : List (List Char)) :
    (pieces.foldl walk walked).reverse = pieces.foldl enter walked.reverse := by
  induction pieces generalizing walked with
  | nil => rfl
  | cons piece pieces ih => rw [List.foldl_cons, List.foldl_cons, ih, reverse_walk]

theorem segments_eq_foldl_enter (path : List Char) :
    segments path = (splitOnChar '/' path).foldl enter [] :=
  reverse_foldl_walk _ _

theorem foldl_enter_segments {ss dir : List (List Char)} (h : ∀ s ∈ ss, IsSegment s) :
    ss.foldl enter dir = dir ++ ss := by
  have hwalk := reverse_foldl_walk ss dir.reverse
  rw [foldl_walk_segments h, List.reverse_append, List.reverse_reverse, List.reverse_reverse]
    at hwalk
  exact hwalk.symm

theorem isRooted_normalize (path : List Char) : IsRooted (normalize path) :=
  ⟨segments path, fun _ => isSegment_of_mem_segments, rfl⟩

theorem normalize_eq_self_iff {path : List Char} : normalize path = path ↔ IsRooted path := by
  constructor
  · intro h
    rw [← h]
    exact isRooted_normalize path
  · rintro ⟨ss, hss, rfl⟩
    exact normalize_renderSegments hss

/-! ### Joining -/

theorem segments_append_cons (front back : List Char) :
    segments (front ++ '/' :: back) = (splitOnChar '/' back).foldl enter (segments front) := by
  rw [segments_eq_foldl_enter, splitOnChar_append_cons, List.foldl_append,
    ← segments_eq_foldl_enter]

theorem segments_normalize (path : List Char) : segments (normalize path) = segments path :=
  segments_renderSegments fun _ => isSegment_of_mem_segments

theorem normalize_append_cons (front back : List Char) :
    normalize (normalize front ++ '/' :: back) = normalize (front ++ '/' :: back) := by
  unfold normalize
  rw [segments_append_cons, segments_append_cons, ← normalize, segments_normalize]

/-! ### Resolving -/

theorem dropLast_append_fileName {p : ModulePath} {ss : List (List Char)} {last : List Char}
    (hlast : '/' ∉ last) (htext : p.text.toList = renderSegments (ss ++ [last])) :
    p.dir = ss.flatMap ('/' :: ·) ++ ['/'] ∧ p.fileName = last := by
  have hcut : p.text.toList = ss.flatMap ('/' :: ·) ++ '/' :: last := by
    rw [htext]
    cases ss <;> simp [renderSegments]
  constructor
  · rw [dir, hcut, cutLast?_append hlast]
  · rw [fileName, afterLast, hcut, cutLast?_append hlast]

/-- Whatever is written behind the directory of a path is walked from there. -/
theorem segments_dir_append {p : ModulePath} {ss : List (List Char)}
    (hss : ∀ s ∈ ss, IsSegment s) (htext : p.text.toList = renderSegments ss) (back : List Char) :
    segments (p.dir ++ back) = (splitOnChar '/' back).foldl enter ss.dropLast := by
  rcases List.eq_nil_or_concat' ss with rfl | ⟨front, last, rfl⟩
  · have hdir : p.dir = ['/'] := by
      rw [dir, htext]
      rfl
    rw [hdir]
    exact segments_append_cons [] back
  · have hlast := hss last (List.mem_append_right _ List.mem_cons_self)
    have hfront : ∀ s ∈ front, IsSegment s := fun s hs => hss s (List.mem_append_left _ hs)
    rw [(dropLast_append_fileName hlast.2.2.2 htext).1, List.append_assoc, List.singleton_append,
      segments_append_cons, List.dropLast_concat]
    congr 1
    cases front with
    | nil => rfl
    | cons s front => exact segments_renderSegments hfront

theorem resolve?_relative {p : ModulePath} {ss : List (List Char)} {specifier : String}
    (hss : ∀ s ∈ ss, IsSegment s) (htext : p.text.toList = renderSegments ss)
    (hrelative : isRelative specifier.toList = true) :
    p.resolve? specifier = some ⟨String.ofList (renderSegments
      ((splitOnChar '/' specifier.toList).foldl enter ss.dropLast))⟩ := by
  rw [resolve?, if_pos hrelative, normalize, segments_dir_append hss htext]

/-- The text of a canonical path names this path wherever it stands. -/
theorem resolve?_text {p q : ModulePath} (h : IsRooted q.text.toList) :
    p.resolve? q.text = some q := by
  have hnormal := normalize_eq_self_iff.mpr h
  obtain ⟨ss, hss, htext⟩ := h
  have hrelative : isRelative q.text.toList = false := by
    rw [htext]
    cases ss <;> simp [renderSegments, isRelative, beginsWith, dropFront?]
  have habsolute : isRootAbsolute q.text.toList = true := by
    cases ss with
    | nil => rw [htext]; rfl
    | cons s ss => exact IsSource.isRootAbsolute ⟨s :: ss, List.cons_ne_nil s ss, hss, htext⟩
  rw [resolve?, hrelative, habsolute, hnormal, String.ofList_toList]
  rfl

theorem resolve?_fileName {p : ModulePath} (h : IsRooted p.text.toList) (hroot : p.text ≠ "/") :
    p.resolve? ("./" ++ String.ofList p.fileName) = some p := by
  obtain ⟨ss, hss, htext⟩ := h
  rcases List.eq_nil_or_concat' ss with rfl | ⟨front, last, rfl⟩
  · exact absurd (String.toList_inj.mp htext) hroot
  · have hlast := hss last (List.mem_append_right _ List.mem_cons_self)
    have hspecifier : ("./" ++ String.ofList p.fileName).toList = ['.'] ++ '/' :: last := by
      rw [(dropLast_append_fileName hlast.2.2.2 htext).2]
      simp
    have hpieces : splitOnChar '/' (['.'] ++ '/' :: last) = [['.'], last] := by
      rw [splitOnChar_append_cons, splitOnChar_of_notMem hlast.2.2.2]
      rfl
    rw [resolve?_relative hss htext (by rw [hspecifier]; rfl), hspecifier, hpieces,
      List.dropLast_concat]
    have hsegment : ∀ s ∈ [last], IsSegment s := by
      intro s hs
      rw [List.mem_singleton.mp hs]
      exact hlast
    have hwalk : [['.'], last].foldl enter front = front ++ [last] := foldl_enter_segments hsegment
    rw [hwalk, ← htext, String.ofList_toList]

/-- Canonical forms are exactly the paths that are their own, and a path that is joined to another
may as well be joined to its canonical form. From a canonical path a relative specifier is walked
segment by segment, beginning in its directory and never leaving the root; its own text leads to it
from everywhere and its file name from beside it. -/
theorem canonical_form_of_paths :
    (∀ path, IsRooted (normalize path)) ∧
    (∀ path, normalize path = path ↔ IsRooted path) ∧
    (∀ front back,
      normalize (normalize front ++ '/' :: back) = normalize (front ++ '/' :: back)) ∧
    ∀ (p : ModulePath) (ss : List (List Char)), (∀ s ∈ ss, IsSegment s) →
      p.text.toList = renderSegments ss →
      (∀ specifier : String, isRelative specifier.toList = true → ∃ q,
        p.resolve? specifier = some q ∧ IsRooted q.text.toList ∧ q.text.toList =
          renderSegments ((splitOnChar '/' specifier.toList).foldl enter ss.dropLast)) ∧
      (∀ other : ModulePath, other.resolve? p.text = some p) ∧
      (p.text ≠ "/" → p.resolve? ("./" ++ String.ofList p.fileName) = some p) := by
  refine ⟨isRooted_normalize, fun _ => normalize_eq_self_iff, normalize_append_cons, ?_⟩
  intro p ss hss htext
  have hrooted : IsRooted p.text.toList := ⟨ss, hss, htext⟩
  refine ⟨?_, fun _ => resolve?_text hrooted, resolve?_fileName hrooted⟩
  intro specifier hrelative
  refine ⟨_, resolve?_relative hss htext hrelative, ?_, String.toList_ofList⟩
  rw [String.toList_ofList, ← segments_dir_append hss htext]
  exact isRooted_normalize _

theorem canonical_form_of_main :
    isRelative "../../lib/.//x.ts".toList = true ∧
      (ModulePath.mk "/src/main.ts").resolve? "../../lib/.//x.ts" = some ⟨"/lib/x.ts"⟩ ∧
      (ModulePath.mk "/src/main.ts").resolve? "./main.ts" = some ⟨"/src/main.ts"⟩ := by
  have hss : ∀ s ∈ ["src".toList, "main.ts".toList], IsSegment s := by
    intro s hs
    simp only [List.mem_cons, List.not_mem_nil, or_false] at hs
    rcases hs with rfl | rfl <;> exact ⟨by decide, by decide, by decide, by decide⟩
  obtain ⟨hrelative, -, hname⟩ := canonical_form_of_paths.2.2.2 ⟨"/src/main.ts"⟩ _ hss rfl
  obtain ⟨q, hresolve, -, hq⟩ := hrelative "../../lib/.//x.ts" rfl
  refine ⟨rfl, ?_, hname (by decide)⟩
  rw [hresolve, ← String.toList_inj.mp (hq.trans (rfl : _ = "/lib/x.ts".toList))]

end CompilingProxy.ModulePath
