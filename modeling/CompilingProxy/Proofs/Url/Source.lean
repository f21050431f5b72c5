import Mathlib.Data.List.DropRight
import CompilingProxy.Http.Request
import CompilingProxy.Module.Error
import CompilingProxy.Proofs.Outcome
import CompilingProxy.Proofs.Text.Split

/-!
# Addresses of sources

A mark in the query changes nothing about whose address it is, and an address names the same path
with its query and without.
-/

namespace CompilingProxy

open Text

theorem UrlPath.trimmed_trimmed (path : UrlPath) : path.trimmed.trimmed = path.trimmed := by
  cases path with
  | opaquely text =>
    rw [trimmed, trimmed, List.reverse_reverse, List.dropWhile_idempotent]
  | segments pieces => rfl

namespace Url

variable {u base : Url}

/-! ### Sources -/

theorem source_source : u.source.source = u.source := by
  rw [source, source, UrlPath.trimmed_trimmed]

theorem source_query : u.source.query = none := rfl

theorem source_fragment : u.source.fragment = none := rfl

theorem origin_source : u.source.origin = u.origin := rfl

/-- An address whose path is made of segments keeps all but its query and fragment. -/
theorem source_of_not_isOpaque (h : u.isOpaque = false) :
    u.source = { u with query := none, fragment := none } := by
  obtain ⟨scheme, authority, path, query, fragment⟩ := u
  cases path with
  | opaquely text => cases h
  | segments pieces => rfl

theorem pathText_source (h : u.isOpaque = false) : u.source.pathText = u.pathText := by
  rw [source_of_not_isOpaque h]
  rfl

/-- The mark is no part of the address of a source. -/
theorem marked_source : u.marked.source = u.source := by
  rw [marked]
  split
  · rfl
  · dsimp only
    split <;> rfl

/-! ### Rooted references -/

theorem isOpaque_withPath {scheme path cs : List Char} {authority : Option Authority} :
    (withPath scheme authority path cs).isOpaque = false := by
  have hpath : ∃ pieces, (withPath scheme authority path cs).path = .segments pieces := by
    rw [withPath]
    dsimp only
    rw [pathOfText]
    split
    · exact ⟨_, rfl⟩
    · exact ⟨_, rfl⟩
  obtain ⟨pieces, hpieces⟩ := hpath
  rw [isOpaque, hpieces]

/-- The address has a path made of segments. -/
def IsSegmented (u : Url) : Prop := u.isOpaque = false

/-- No query and no fragment begins in the text. -/
def Unmarked (cs : List Char) : Prop := ∀ c ∈ cs, isMark c = false

theorem unmarked_root : Unmarked ['/'] := by simp [Unmarked, isMark]

theorem hostText_append (inside : Bool) (cs : List Char) :
    (hostText inside cs).1 ++ (hostText inside cs).2 = cs := by
  induction cs generalizing inside with
  | nil => rfl
  | cons c cs ih =>
    rw [hostText]
    split
    · rfl
    · exact congrArg (c :: ·) (ih _)

/-- What follows a port stands behind it. -/
theorem portNumber_yields (scheme cs : List Char) :
    Yields (fun a : Option Nat × List Char => a.2 ⊆ cs) (portNumber scheme cs) := by
  rw [portNumber]
  refine .ite (fun _ ha => by cases ha) ?_
  intro a ha
  cases ha
  exact (List.dropWhile_suffix _).subset

/-- The address is of the kind, if all are that have a path read from such characters. -/
theorem pathStart_of_withPath {kind : Url → Prop} {scheme cs : List Char} {authority : Authority}
    (hkind : ∀ path rest, Unmarked path → rest ⊆ cs →
      kind (withPath scheme (some authority) path rest)) : kind (pathStart scheme authority cs) := by
  have hempty : Unmarked [] := fun _ hc => by cases hc
  have hpath (special : Bool) : Unmarked (if special then ['/'] else []) := by
    cases special
    · exact hempty
    · exact unmarked_root
  unfold pathStart
  dsimp only
  split
  · exact hkind _ _ (hpath _) (List.Subset.refl _)
  · split
    · exact hkind _ _ unmarked_root (List.subset_cons_self _ _)
    · split
      · exact hkind _ _ hempty (List.Subset.refl _)
      · exact hkind _ _ unmarked_root (List.Subset.refl _)

section

variable {kind : Url → Prop} {scheme cs : List Char}

/-- What is left to read once the host is known. -/
theorem port_yields (hstart : ∀ authority rest, rest ⊆ cs → kind (pathStart scheme authority rest))
    {authority : Option Nat → Authority} {port rest : List Char} {isMissing : Bool}
    (hrest : port ++ rest ⊆ cs) :
    Yields kind (do
      let (port, rest) ← match port with
        | [] => pure (none, rest)
        | _ :: port => portNumber scheme (port ++ rest)
      if isMissing then throw .emptyHost
      return pathStart scheme (authority port) rest) := by
  have hend : ∀ a : Option Nat × List Char, a.2 ⊆ cs → Yields kind (do
      if isMissing then throw .emptyHost
      return pathStart scheme (authority a.1) a.2 : Except UrlError Url) :=
    fun a ha => .ite (.bind fun _ => .pure (hstart _ _ ha)) (.pure (hstart _ _ ha))
  cases port with
  | nil => exact hend (none, rest) hrest
  | cons c port =>
    refine .andThen (portNumber_yields scheme (port ++ rest)) fun a ha => hend a ?_
    exact fun x hx => hrest (List.mem_cons_of_mem _ (ha hx))

/-- What is left to read of a host and behind it. -/
theorem host_yields (hstart : ∀ authority rest, rest ⊆ cs → kind (pathStart scheme authority rest))
    {host : Except UrlError (List Char)} {authority : List Char → Option Nat → Authority}
    {port rest : List Char} {isMissing : List Char → Bool} (hrest : port ++ rest ⊆ cs) :
    Yields kind (host >>= fun host => do
      let (port, rest) ← match port with
        | [] => pure (none, rest)
        | _ :: port => portNumber scheme (port ++ rest)
      if isMissing host then throw .emptyHost
      return pathStart scheme (authority host port) rest) := .bind fun _ => port_yields hstart hrest

/-- The port, if there is one, stands in what is written before the path. -/
theorem port_subset (isEnd : Char → Bool) :
    (hostText false (match cutLast? '@' (cs.takeWhile isEnd) with
      | some (front, back) => (some front, back)
      | none => ((none : Option (List Char)), cs.takeWhile isEnd)).2).2 ++ cs.dropWhile isEnd ⊆
        cs := by
  have hwritten : ∀ written, written ⊆ cs.takeWhile isEnd →
      (hostText false written).2 ++ cs.dropWhile isEnd ⊆ cs := by
    intro written hwritten
    refine List.append_subset.mpr ⟨fun c hc => ?_, (List.dropWhile_suffix _).subset⟩
    have hmem : c ∈ written := by
      rw [← hostText_append false written]
      exact List.mem_append_right _ hc
    exact (List.takeWhile_prefix _).subset (hwritten hmem)
  cases hcut : cutLast? '@' (cs.takeWhile isEnd) with
  | none => exact hwritten _ (List.Subset.refl _)
  | some parts =>
    refine hwritten parts.2 ?_
    rw [cutLast?_eq hcut]
    exact List.Subset.trans (List.subset_cons_self _ _) (List.subset_append_right _ _)

/-- Whatever the host is, the address goes on with a path behind it. -/
theorem afterSlashes_yields (hkind : ∀ authority path rest, Unmarked path → rest ⊆ cs →
      kind (withPath scheme authority path rest)) : Yields kind (afterSlashes scheme cs) := by
  have hstart : ∀ authority rest, rest ⊆ cs → kind (pathStart scheme authority rest) :=
    fun _ _ hrest => pathStart_of_withPath fun path rest' hpath hrest' =>
      hkind _ path rest' hpath (List.Subset.trans hrest' hrest)
  unfold afterSlashes
  dsimp only
  exact .ite
    (.bind fun _ => .ite (.bind fun _ => .ite (host_yields hstart (port_subset _))
        (host_yields hstart (port_subset _)))
      (.ite (host_yields hstart (port_subset _)) (host_yields hstart (port_subset _))))
    (.ite (.bind fun _ => .ite (host_yields hstart (port_subset _))
        (host_yields hstart (port_subset _)))
      (.ite (host_yields hstart (port_subset _)) (host_yields hstart (port_subset _))))

end

/-- Whatever the host of a local file is, the address goes on with a path behind it. -/
theorem afterFileSlashes_yields {kind : Url → Prop} {cs : List Char}
    (hkind : ∀ authority path rest, Unmarked path → rest ⊆ cs →
      kind (withPath "file".toList authority path rest)) : Yields kind (afterFileSlashes cs) := by
  have hrest (isEnd : Char → Bool) : cs.dropWhile isEnd ⊆ cs := (List.dropWhile_suffix _).subset
  have hlocal (c : Prop) [Decidable c] (isEnd : Char → Bool) :
      (if c then cs else cs.dropWhile isEnd) ⊆ cs := by
    split
    · exact List.Subset.refl _
    · exact hrest _
  have hshared (c : Prop) [Decidable c] (isEnd : Char → Bool) :
      (if c then (cs.dropWhile isEnd).drop 1 else cs.dropWhile isEnd) ⊆ cs := by
    split
    · exact List.Subset.trans (List.drop_suffix _ _).subset (hrest _)
    · exact hrest _
  unfold afterFileSlashes
  dsimp only
  refine .ite (.bind fun _ => ?_) (.bind fun _ => ?_)
  · exact .ite (.pure (hkind _ _ _ unmarked_root (hlocal _ _)))
      (.pure (hkind _ _ _ unmarked_root (hshared _ _)))
  · exact .ite (.pure (hkind _ _ _ unmarked_root (hlocal _ _)))
      (.pure (hkind _ _ _ unmarked_root (hshared _ _)))

theorem unmarked_drive {drive : List Char} (h : base.drive? = some drive) :
    Unmarked ('/' :: drive) := by
  have hwritten : isWrittenDrive drive := by
    rw [drive?] at h
    split at h
    case h_1 first _ _ =>
      split at h
      case isTrue hfirst =>
        cases h
        exact hfirst
      case isFalse => cases h
    case h_2 => cases h
  unfold isWrittenDrive at hwritten
  split at hwritten
  case h_1 letter mark =>
    obtain ⟨hletter, hmark⟩ := Bool.and_eq_true_iff.mp hwritten
    have hplain : isMark letter = false := by
      rw [isMark, Bool.or_eq_false_iff, beq_eq_false_iff_ne, beq_eq_false_iff_ne]
      constructor <;> rintro rfl <;> cases hletter
    rw [beq_iff_eq.mp hmark]
    intro c hc
    simp only [List.mem_cons, List.not_mem_nil, or_false] at hc
    rcases hc with rfl | rfl | rfl
    · rfl
    · exact hplain
    · rfl
  case h_2 => cases hwritten

/-- A rooted reference to a local file leads to a local file. -/
theorem afterFile_yields {kind : Url → Prop} {cs : List Char}
    (hkind : ∀ authority path rest, Unmarked path → rest ⊆ '/' :: cs →
      kind (withPath "file".toList authority path rest)) :
    Yields kind (afterFile (some base) ('/' :: cs)) := by
  have hslash : isSlash true '/' = true := rfl
  have hempty : Unmarked [] := fun _ hc => by cases hc
  unfold afterFile
  dsimp only
  rw [if_pos hslash]
  refine .ite (afterFileSlashes_yields fun authority path rest hpath hrest => ?_)
    (.ite (.pure (hkind _ _ _ hempty (List.Subset.refl _))) ?_)
  · exact hkind _ _ _ hpath fun c hc => List.mem_cons_of_mem _ (List.mem_of_mem_drop (hrest hc))
  · split
    case h_1 hdrive => exact .pure (hkind _ _ _ (unmarked_drive hdrive) (List.Subset.refl _))
    case h_2 => exact .pure (hkind _ _ _ hempty (List.Subset.refl _))

/-- A rooted reference leads to an address of the same scheme. -/
theorem onPath_yields {kind : Url → Prop} {cs : List Char}
    (hkind : ∀ authority path rest, Unmarked path → rest ⊆ '/' :: cs →
      kind (withPath base.scheme authority path rest)) :
    Yields kind (onPath base ('/' :: cs)) := by
  have hslash : isSlash (isSpecial base.scheme) '/' = true := rfl
  have hmark : ¬isMark '/' = true := by decide
  rw [onPath]
  dsimp only
  rw [if_neg hmark, hslash, Bool.not_true, if_neg Bool.false_ne_true]
  refine .ite (.pure (hkind _ _ _ unmarked_root (List.subset_cons_self _ _)))
    (.ite (afterSlashes_yields fun authority path rest hpath hrest => ?_)
      (afterSlashes_yields fun authority path rest hpath hrest => ?_))
  · exact hkind _ _ _ hpath fun c hc =>
      List.mem_cons_of_mem _ ((List.dropWhile_suffix _).subset (hrest hc))
  · exact hkind _ _ _ hpath fun c hc => List.mem_cons_of_mem _ (List.mem_of_mem_drop (hrest hc))

/-- What begins with one slash alone stays where the host is. -/
theorem onPath_eq_onBase {cs : List Char}
    (hslash : cs.head?.any (isSlash (isSpecial base.scheme)) = false) :
    onPath base ('/' :: cs) = .ok (withPath base.scheme base.authority ['/'] cs) := by
  have hmark : ¬isMark '/' = true := by decide
  have hfirst : isSlash (isSpecial base.scheme) '/' = true := rfl
  rw [onPath]
  dsimp only
  rw [if_neg hmark, hfirst, Bool.not_true, if_neg Bool.false_ne_true, hslash, Bool.not_false,
    if_pos rfl]

/-- A slash at the front is no blank, so it stays there. -/
theorem clean_rooted {cs : List Char} (h : beginsWith ['/'] cs) :
    ∃ rest, clean cs = '/' :: rest := by
  obtain ⟨rest, rfl⟩ : ∃ rest, cs = '/' :: rest := by
    cases cs with
    | nil => cases h
    | cons c rest =>
      by_cases hc : c = '/'
      · exact ⟨rest, by rw [hc]⟩
      · simp [beginsWith, dropFront?, Ne.symm hc] at h
  let isBlank := fun c : Char => decide (c.val ≤ 0x20)
  have hslash : ¬isBlank '/' = true := by decide
  obtain ⟨back, hback⟩ : ∃ back, (rest.reverse ++ ['/']).dropWhile isBlank = back ++ ['/'] := by
    rw [List.dropWhile_append]
    split
    · exact ⟨[], List.dropWhile_cons_of_neg hslash⟩
    · exact ⟨_, rfl⟩
  have htrim : trimBy isBlank ('/' :: rest) = '/' :: back.reverse := by
    rw [trimBy, List.dropWhile_cons_of_neg hslash, List.reverse_cons, hback, List.reverse_append]
    rfl
  rw [clean, htrim, List.filter_cons_of_pos (by decide)]
  exact ⟨_, rfl⟩

/-- A rooted reference has no scheme and no mark at its front. -/
theorem join_rooted {reference : String} {rest : List Char}
    (hclean : clean reference.toList = '/' :: rest) :
    base.join reference =
      if base.isOpaque then .error .relativeToOpaque
      else if isFile base.scheme then afterFile (some base) ('/' :: rest)
      else onPath base ('/' :: rest) := by
  have hscheme : scheme? ('/' :: rest) = none := rfl
  have hfragment : ¬(('/' :: rest).head? == some '#') = true := by
    rw [List.head?_cons]
    decide
  rw [join, parseWith]
  dsimp only
  rw [hclean, hscheme]
  dsimp only
  rw [relative, if_neg hfragment]

theorem clean_subset (cs : List Char) : clean cs ⊆ cs := by
  refine List.Subset.trans List.filter_sublist.subset fun c hc => ?_
  have hback := (List.dropWhile_suffix _).subset (List.mem_reverse.mp hc)
  exact (List.dropWhile_suffix _).subset (List.mem_reverse.mp hback)

/-- What a rooted reference leads to is of the kind, if all addresses of its scheme are that have a
path read from such characters. -/
theorem join_rooted_yields (kind : Url → Prop) {reference : String}
    (hrooted : beginsWith ['/'] reference.toList)
    (hkind : ∀ authority path rest, Unmarked path → rest ⊆ reference.toList →
      kind (withPath base.scheme authority path rest)) :
    Yields kind (base.join reference) := by
  obtain ⟨rest, hclean⟩ := clean_rooted hrooted
  have hsub : '/' :: rest ⊆ reference.toList := hclean ▸ clean_subset _
  rw [join_rooted hclean]
  refine .ite (fun _ ha => by cases ha) ?_
  split
  case isTrue hfile =>
    rw [beq_iff_eq.mp hfile] at hkind
    exact afterFile_yields fun _ path _ hpath hrest =>
      hkind _ path _ hpath (List.Subset.trans hrest hsub)
  case isFalse =>
    exact onPath_yields fun _ path _ hpath hrest =>
      hkind _ path _ hpath (List.Subset.trans hrest hsub)

/-- What a rooted reference leads to has a path made of segments. -/
theorem isOpaque_of_join {reference : String} (hrooted : beginsWith ['/'] reference.toList)
    (h : base.join reference = .ok u) : u.isOpaque = false :=
  join_rooted_yields IsSegmented hrooted (fun _ _ _ _ _ => isOpaque_withPath) u h

end Url

end CompilingProxy
