import CompilingProxy.Module.Path
import CompilingProxy.Proofs.Text.Split

/-!
# Canonical paths

A path that a specifier resolves to is written in one way only, so that reading it again gives the
same path.
-/

namespace CompilingProxy

open Text

namespace ModulePath

/-- A segment that leads one level down, and is one. -/
def IsSegment (s : List Char) : Prop := s ≠ [] ∧ s ≠ ['.'] ∧ s ≠ ['.', '.'] ∧ '/' ∉ s

theorem isSegment_of_mem_walk {walked : List (List Char)} {segment : List Char}
    (hwalked : ∀ s ∈ walked, IsSegment s) (hsep : '/' ∉ segment) :
    ∀ s ∈ walk walked segment, IsSegment s := by
  rw [walk]
  split
  case isTrue => exact hwalked
  case isFalse hstays =>
    split
    case isTrue => exact fun s hs => hwalked s (List.mem_of_mem_tail hs)
    case isFalse hdown =>
      intro s hs
      rcases List.mem_cons.mp hs with rfl | hs
      · rw [not_or] at hstays
        exact ⟨hstays.1, hstays.2, hdown, hsep⟩
      · exact hwalked s hs

theorem isSegment_of_mem_foldl {pieces walked : List (List Char)}
    (hwalked : ∀ s ∈ walked, IsSegment s) (hsep : ∀ s ∈ pieces, '/' ∉ s) :
    ∀ s ∈ pieces.foldl walk walked, IsSegment s := by
  induction pieces generalizing walked with
  | nil => exact hwalked
  | cons piece pieces ih =>
    rw [List.foldl_cons]
    exact ih (isSegment_of_mem_walk hwalked (hsep piece List.mem_cons_self))
      fun s hs => hsep s (List.mem_cons_of_mem _ hs)

theorem isSegment_of_mem_segments {path s : List Char} (h : s ∈ segments path) :
    IsSegment s := by
  rw [segments, List.mem_reverse] at h
  exact isSegment_of_mem_foldl (by simp) (fun _ => notMem_of_mem_splitOnChar) s h

theorem walk_segment {walked : List (List Char)} {s : List Char} (h : IsSegment s) :
    walk walked s = s :: walked := by
  rw [walk, if_neg (not_or.mpr ⟨h.1, h.2.1⟩), if_neg h.2.2.1]

theorem foldl_walk_segments {ss walked : List (List Char)} (h : ∀ s ∈ ss, IsSegment s) :
    ss.foldl walk walked = ss.reverse ++ walked := by
  induction ss generalizing walked with
  | nil => rfl
  | cons s ss ih =>
    rw [List.foldl_cons, walk_segment (h s List.mem_cons_self),
      ih fun t ht => h t (List.mem_cons_of_mem _ ht), List.reverse_cons, List.append_assoc,
      List.singleton_append]

/-- A path that is rendered from segments has these segments. -/
theorem segments_renderSegments {ss : List (List Char)} (h : ∀ s ∈ ss, IsSegment s) :
    segments (renderSegments ss) = ss := by
  cases ss with
  | nil => rfl
  | cons s ss =>
    have hsplit := splitOnChar_pieces List.not_mem_nil fun t ht => (h t ht).2.2.2
    rw [List.nil_append] at hsplit
    have hrender : renderSegments (s :: ss) = (s :: ss).flatMap ('/' :: ·) := rfl
    rw [segments, hrender, hsplit, List.foldl_cons]
    change ((s :: ss).foldl walk []).reverse = s :: ss
    rw [foldl_walk_segments h, List.append_nil, List.reverse_reverse]

theorem normalize_renderSegments {ss : List (List Char)} (h : ∀ s ∈ ss, IsSegment s) :
    normalize (renderSegments ss) = renderSegments ss := by
  rw [normalize, segments_renderSegments h]

/-- The path of a source, as it is written everywhere. -/
def IsSource (p : ModulePath) : Prop :=
  ∃ ss, ss ≠ [] ∧ (∀ s ∈ ss, IsSegment s) ∧ p.text.toList = renderSegments ss

theorem IsSource.parse? {p : ModulePath} (h : p.IsSource) : ModulePath.parse? p.text = some p := by
  obtain ⟨ss, hne, hss, htext⟩ := h
  have hrooted : beginsWith ['/'] p.text.toList = true := by
    rw [htext]
    cases ss with
    | nil => exact absurd rfl hne
    | cons s ss => rfl
  rw [ModulePath.parse?, if_pos hrooted, htext, normalize_renderSegments hss, ← htext,
    String.ofList_toList]

theorem IsSource.isRootAbsolute {p : ModulePath} (h : p.IsSource) :
    isRootAbsolute p.text.toList := by
  obtain ⟨ss, hne, hss, htext⟩ := h
  rw [htext]
  cases ss with
  | nil => exact absurd rfl hne
  | cons s ss =>
    obtain ⟨hs, -, -, hsep⟩ := hss s List.mem_cons_self
    cases s with
    | nil => exact absurd rfl hs
    | cons c cs =>
      have hc : '/' ≠ c := fun heq => hsep (heq ▸ List.mem_cons_self)
      simp [renderSegments, ModulePath.isRootAbsolute, beginsWith, dropFront?, hc]

theorem isSegment_append_ts {s : List Char} (h : IsSegment s) :
    IsSegment (s ++ ".ts".toList) := by
  obtain ⟨hs, -, -, hsep⟩ := h
  have hlong : 3 < (s ++ ".ts".toList).length := by
    cases s with
    | nil => exact absurd rfl hs
    | cons c cs => simp
  have hne : ∀ t : List Char, t.length ≤ 3 → s ++ ".ts".toList ≠ t := by
    rintro t ht rfl
    omega
  refine ⟨hne _ (by simp), hne _ (by simp), hne _ (by simp), ?_⟩
  · rw [List.mem_append, not_or]
    exact ⟨hsep, by decide⟩

theorem renderSegments_append_ts {ss : List (List Char)} {s : List Char} :
    renderSegments (ss ++ [s]) ++ ".ts".toList = renderSegments (ss ++ [s ++ ".ts".toList]) := by
  have hrender : ∀ t : List Char, renderSegments (ss ++ [t]) = (ss ++ [t]).flatMap ('/' :: ·) := by
    intro t
    cases ss <;> rfl
  rw [hrender, hrender]
  simp

/-- With the suffix of a script, the canonical form of a path is the path of a source. -/
theorem isSource_withDefaultExtension {ss : List (List Char)} (h : ∀ s ∈ ss, IsSegment s) :
    (ModulePath.mk (String.ofList (renderSegments ss))).withDefaultExtension.IsSource := by
  rw [withDefaultExtension]
  split
  case isTrue hext =>
    refine ⟨ss, ?_, h, String.toList_ofList⟩
    rintro rfl
    rw [String.toList_ofList] at hext
    revert hext
    decide
  case isFalse =>
    rcases List.eq_nil_or_concat ss with rfl | ⟨front, s, rfl⟩
    · refine ⟨[".ts".toList], by simp, ?_, ?_⟩
      · intro s hs
        rw [List.mem_singleton.mp hs]
        exact ⟨by decide, by decide, by decide, by decide⟩
      · simp [renderSegments]
    · rw [List.concat_eq_append] at h ⊢
      refine ⟨front ++ [s ++ ".ts".toList], by simp, fun t ht => ?_, ?_⟩
      · rcases List.mem_append.mp ht with ht | ht
        · exact h t (List.mem_append_left _ ht)
        · rw [List.mem_singleton.mp ht]
          exact isSegment_append_ts (h s (List.mem_append_right _ List.mem_cons_self))
      · rw [← renderSegments_append_ts, String.toList_append, String.toList_ofList]

/-- Whatever a specifier names is named in canonical form. -/
theorem normalize_of_resolve? {p target : ModulePath} {specifier : String}
    (h : p.resolve? specifier = some target) :
    ∃ path, target = ⟨String.ofList (normalize path)⟩ := by
  rw [resolve?] at h
  split at h
  · exact ⟨_, (Option.some.inj h).symm⟩
  · split at h
    · exact ⟨_, (Option.some.inj h).symm⟩
    · cases h

/-- What a specifier comes to when it names a path is the path of a source. -/
theorem isSource_of_resolve? {p target : ModulePath} {specifier : String}
    (h : p.resolve? specifier = some target) : target.withDefaultExtension.IsSource := by
  obtain ⟨path, rfl⟩ := normalize_of_resolve? h
  exact isSource_withDefaultExtension fun s => isSegment_of_mem_segments

/-- The path is the one of a library, or it is written in segments that each lead one level down. -/
def IsCanonical (p : ModulePath) : Prop :=
  (∃ name, p = .library name) ∨ ∃ ss, (∀ s ∈ ss, IsSegment s) ∧ p.text.toList = renderSegments ss

theorem isCanonical_of_resolve? {p target : ModulePath} {specifier : String}
    (h : p.resolve? specifier = some target) : target.IsCanonical := by
  obtain ⟨path, rfl⟩ := normalize_of_resolve? h
  exact .inr ⟨segments path, fun s => isSegment_of_mem_segments, String.toList_ofList⟩

theorem IsSource.isCanonical {p : ModulePath} (h : p.IsSource) : p.IsCanonical := by
  obtain ⟨ss, -, hss, htext⟩ := h
  exact .inr ⟨ss, hss, htext⟩

theorem libraryFileName_eq (name : List Char) :
    ∃ rest, libraryFileName name = 'l' :: 'i' :: 'b' :: '.' :: rest := by
  rw [libraryFileName]
  split
  · exact ⟨_, rfl⟩
  · exact ⟨_, rfl⟩

theorem library_text (name : String) :
    ∃ rest, (library name).text.toList = 'l' :: 'i' :: 'b' :: '.' :: rest := by
  obtain ⟨rest, hrest⟩ := libraryFileName_eq name.toList
  exact ⟨rest, by rw [library, String.toList_ofList, hrest]⟩

theorem isLibrary_library (name : String) : (library name).isLibrary := by
  obtain ⟨rest, hrest⟩ := library_text name
  rw [isLibrary, hrest]
  rfl

theorem IsCanonical.unrooted {p : ModulePath} (h : p.IsCanonical) (hlibrary : p.isLibrary) :
    ∃ rest, p.text.toList = 'l' :: 'i' :: 'b' :: '.' :: rest := by
  rcases h with ⟨name, rfl⟩ | ⟨ss, -, htext⟩
  · exact library_text name
  · rw [isLibrary, htext] at hlibrary
    cases ss <;> cases hlibrary

/-- A path under the root has one slash at its front and is written as it is read. -/
theorem IsCanonical.rooted {p : ModulePath} (h : p.IsCanonical) (hsource : p.isLibrary = false) :
    ∃ rest, p.text.toList = '/' :: rest ∧ beginsWith ['/'] rest = false ∧
      normalize p.text.toList = p.text.toList := by
  rcases h with ⟨name, rfl⟩ | ⟨ss, hss, htext⟩
  · rw [isLibrary_library] at hsource
    cases hsource
  · have hnormal : normalize p.text.toList = p.text.toList := by
      rw [htext, normalize_renderSegments hss]
    cases ss with
    | nil => exact ⟨[], htext, rfl, hnormal⟩
    | cons s ss =>
      obtain ⟨hs, -, -, hsep⟩ := hss s List.mem_cons_self
      refine ⟨s ++ ss.flatMap ('/' :: ·), htext, ?_, hnormal⟩
      cases s with
      | nil => exact absurd rfl hs
      | cons c cs =>
        have hc : '/' ≠ c := fun heq => hsep (heq ▸ List.mem_cons_self)
        simp [beginsWith, dropFront?, hc]

theorem resolve?_isSome_iff {p : ModulePath} {specifier : String} :
    (p.resolve? specifier).isSome ↔
      isRelative specifier.toList ∨ ModulePath.isRootAbsolute specifier.toList := by
  rw [resolve?]
  cases hrelative : isRelative specifier.toList <;>
    cases hrooted : ModulePath.isRootAbsolute specifier.toList <;> simp

end ModulePath

end CompilingProxy
