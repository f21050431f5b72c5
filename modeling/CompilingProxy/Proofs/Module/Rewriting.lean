import CompilingProxy.Proofs.Analysis.Respelling
import CompilingProxy.Proofs.Grammar.Literal
import CompilingProxy.Proofs.Host.History
import CompilingProxy.Proofs.Module.Canonical
import CompilingProxy.Proofs.Sketch

/-!
# Rewriting specifiers twice

A text whose specifiers are canonical is left as it is when it is read and rewritten again, unless
one of them leads to the root, whose name has nothing before its suffix.
-/

namespace CompilingProxy

open Text

namespace ModulePath

variable {p q : ModulePath} {s : String} {ss : List (List Char)}

/-- The root of all modules, which no specifier should lead to. -/
def root : ModulePath := ⟨"/"⟩

theorem withDefaultExtension_eq_self_iff :
    p.withDefaultExtension = p ↔ hasScriptExtension p.text.toList := by
  rw [withDefaultExtension]
  split
  case isTrue h => exact iff_of_true rfl h
  case isFalse h =>
    refine iff_of_false (fun heq => ?_) h
    have hlength := congrArg (fun q => q.text.toList.length) heq
    rw [String.toList_append, List.length_append] at hlength
    simp at hlength

theorem hasScriptExtension_ts {front segment : List Char} (h : IsSegment segment) :
    hasScriptExtension (front ++ '/' :: (segment ++ ".ts".toList)) := by
  have hname : afterLast '/' (front ++ '/' :: (segment ++ ".ts".toList)) =
      segment ++ '.' :: "ts".toList := by
    rw [afterLast, cutLast?_append (isSegment_append_ts h).2.2.2]
    rfl
  rw [hasScriptExtension, hname, cutLast?_append (by decide)]
  have hstem : segment.isEmpty = false := by simpa using h.1
  simp [hstem, scriptExtensions]

/-- With the default suffix a canonical path has the suffix of a script, unless it is the root. -/
theorem hasScriptExtension_withDefaultExtension (h : ∀ s ∈ ss, IsSegment s) :
    hasScriptExtension
      (ModulePath.mk (String.ofList (renderSegments ss))).withDefaultExtension.text.toList ↔
      ss ≠ [] := by
  rcases List.eq_nil_or_concat ss with rfl | ⟨front, segment, rfl⟩
  · decide
  · rw [List.concat_eq_append] at h ⊢
    refine iff_of_true ?_ (by simp)
    have hsegment := h segment (List.mem_append_right _ List.mem_cons_self)
    rw [withDefaultExtension]
    split
    case isTrue hext => exact hext
    case isFalse =>
      have hrender : renderSegments (front ++ [segment]) =
          front.flatMap ('/' :: ·) ++ '/' :: segment := by
        cases front <;> simp [renderSegments]
      rw [String.toList_append, String.toList_ofList, hrender, List.append_assoc, List.cons_append]
      exact hasScriptExtension_ts hsegment

theorem IsSource.resolve? (h : q.IsSource) : p.resolve? q.text = some q := by
  obtain ⟨ss, -, hss, htext⟩ := h
  exact resolve?_text ⟨ss, hss, htext⟩

/-- What a specifier leads to has the suffix of a script, once it has been given one, unless that is
the root. -/
theorem hasScriptExtension_of_resolve? (h : p.resolve? s = some q) :
    hasScriptExtension q.withDefaultExtension.text.toList ↔ q ≠ root := by
  obtain ⟨path, rfl⟩ := normalize_of_resolve? h
  rw [normalize, hasScriptExtension_withDefaultExtension fun s => isSegment_of_mem_segments]
  refine not_congr ⟨fun hnil => by rw [hnil]; rfl, fun heq => ?_⟩
  have hrender : renderSegments (segments path) = renderSegments [] := by
    have htext := congrArg (fun q => q.text.toList) heq
    rwa [String.toList_ofList] at htext
  rw [← segments_renderSegments fun s => isSegment_of_mem_segments, hrender]
  rfl

/-- The canonical form of a specifier leads to where the specifier leads, unless that is the
root. -/
theorem resolve?_withDefaultExtension (h : p.resolve? s = some q) :
    (p.resolve? q.withDefaultExtension.text).map withDefaultExtension =
      some q.withDefaultExtension ↔ q ≠ root := by
  rw [(isSource_of_resolve? h).resolve?, Option.map_some, Option.some_inj,
    withDefaultExtension_eq_self_iff, hasScriptExtension_of_resolve? h]

theorem withDefaultExtension_eq_iff_root (h : p.resolve? s = some q) :
    q.withDefaultExtension = root.withDefaultExtension ↔ q = root := by
  refine ⟨fun heq => ?_, fun heq => by rw [heq]⟩
  by_contra hne
  have hext := (hasScriptExtension_of_resolve? h).mpr hne
  rw [heq] at hext
  revert hext
  decide

end ModulePath

/-! ### One literal -/

section

variable {path : ModulePath} {source source' : List Char} {l l' : Node}
  {x : Dependency × List TextEdit}

theorem specifierDependency?_of_slice {quote : Char} {specifier : List Char}
    (h : slice source l.start l.stop = quote :: specifier ++ [quote]) :
    specifierDependency? path source l =
      (path.resolve? (String.ofList specifier)).map fun target =>
        (⟨target.withDefaultExtension, .module⟩,
          if target.withDefaultExtension.text.toList = specifier then []
          else [.replace l.start l.stop
            (String.ofList (quote :: target.withDefaultExtension.text.toList ++ [quote]))]) := by
  obtain ⟨c, cs, hcs⟩ : ∃ c cs, specifier ++ [quote] = c :: cs :=
    List.exists_cons_of_ne_nil (by simp)
  have hsame : ∀ text : List Char,
      (quote :: text ++ [quote] == quote :: (specifier ++ [quote])) = decide (text = specifier) := by
    intro text
    rw [List.cons_append, Bool.eq_iff_iff, beq_iff_eq, List.cons_inj_right,
      List.append_cancel_right_eq, decide_eq_true_iff]
  rw [specifierDependency?, h, List.cons_append, hcs]
  dsimp only
  rw [← hcs, List.dropLast_concat]
  simp only [hsame, decide_eq_true_iff]

/-- What a literal of a rewritten text comes to, by what it came to before. -/
theorem specifierDependency?_respelled (h : literalRespells path source source' l l') :
    (specifierDependency? path source l = none → specifierDependency? path source' l' = none) ∧
      ∀ x, specifierDependency? path source l = some x →
        (x.1 ≠ ⟨ModulePath.root.withDefaultExtension, .module⟩ →
          specifierDependency? path source' l' = some (x.1, [])) ∧
        (x.1 = ⟨ModulePath.root.withDefaultExtension, .module⟩ →
          ∃ d e, specifierDependency? path source' l' = some (d, [e])) := by
  rw [literalRespells] at h
  split at h
  case h_1 => cases h
  case h_2 quote rest htext =>
    rw [Bool.and_eq_true, Bool.and_eq_true, beq_iff_eq, beq_iff_eq] at h
    obtain ⟨⟨-, hlast⟩, htext'⟩ := h
    obtain ⟨specifier, rfl⟩ := List.getLast?_eq_some_iff.mp hlast
    rw [List.dropLast_concat] at htext'
    rw [specifierDependency?_of_slice htext, specifierDependency?_of_slice htext']
    cases htarget : path.resolve? (String.ofList specifier) with
    | none =>
      refine ⟨fun _ => ?_, fun x hx => by cases hx⟩
      rw [ModulePath.respell, htarget]
      dsimp only
      rw [htarget, Option.map_none]
    | some target =>
      have hreplaced : path.respell specifier = target.withDefaultExtension.text.toList := by
        rw [ModulePath.respell, htarget]
      have hagain : path.resolve? (String.ofList (path.respell specifier)) =
          some target.withDefaultExtension := by
        rw [hreplaced, String.ofList_toList]
        exact (ModulePath.isSource_of_resolve? htarget).resolve?
      rw [Option.map_some, hagain, Option.map_some, hreplaced]
      refine ⟨fun hnone => (by cases hnone), fun x hx => ?_⟩
      obtain rfl := Option.some.inj hx
      dsimp only
      simp only [ne_eq, Dependency.mk.injEq, and_true,
        ModulePath.withDefaultExtension_eq_iff_root htarget]
      have hfixed := ModulePath.resolve?_withDefaultExtension htarget
      rw [(ModulePath.isSource_of_resolve? htarget).resolve?, Option.map_some,
        Option.some_inj] at hfixed
      refine ⟨fun hne => ?_, fun hroot => ?_⟩
      · have hsame := hfixed.mpr hne
        rw [hsame, if_pos rfl]
      · have hmoved : target.withDefaultExtension.withDefaultExtension.text.toList ≠
            target.withDefaultExtension.text.toList := by
          intro heq
          exact hfixed.mp (congrArg ModulePath.mk (String.toList_injective heq)) hroot
        rw [if_neg hmoved]
        exact ⟨_, _, rfl⟩

/-! ### All literals of a text -/

variable {ls ls' : List Node}

/-- Where no specifier leads to the root, the literals of the rewritten text come to what they came
to before, and to no edits. -/
theorem specifiers_settled
    (h : List.Forall₂ (fun l l' => literalRespells path source source' l l') ls ls')
    (hroot : ∀ x ∈ ls.filterMap (specifierDependency? path source),
      x.1 ≠ ⟨ModulePath.root.withDefaultExtension, .module⟩) :
    ls'.filterMap (specifierDependency? path source') =
      (ls.filterMap (specifierDependency? path source)).map fun x => (x.1, []) := by
  induction h with
  | nil => rfl
  | @cons l l' ls ls' hl _ ih =>
    obtain ⟨hnone, hsome⟩ := specifierDependency?_respelled hl
    cases hfound : specifierDependency? path source l with
    | none =>
      rw [List.filterMap_cons_none hfound] at hroot ⊢
      rw [List.filterMap_cons_none (hnone hfound), ih hroot]
    | some x =>
      rw [List.filterMap_cons_some hfound] at hroot ⊢
      have hsame := (hsome x hfound).1 (hroot x List.mem_cons_self)
      rw [List.filterMap_cons_some hsame, List.map_cons,
        ih fun y hy => hroot y (List.mem_cons_of_mem _ hy)]

/-- A specifier that leads to the root is edited again. -/
theorem exists_edit_of_root
    (h : List.Forall₂ (fun l l' => literalRespells path source source' l l') ls ls')
    {x : Dependency × List TextEdit} (hx : x ∈ ls.filterMap (specifierDependency? path source))
    (hroot : x.1 = ⟨ModulePath.root.withDefaultExtension, .module⟩) :
    ∃ d e, (d, [e]) ∈ ls'.filterMap (specifierDependency? path source') := by
  obtain ⟨l, hl, hfound⟩ := List.mem_filterMap.mp hx
  induction h with
  | nil => cases hl
  | @cons l₁ l₁' ls ls' hl₁ _ ih =>
    rcases List.mem_cons.mp hl with rfl | hl
    · obtain ⟨d, e, hagain⟩ := ((specifierDependency?_respelled hl₁).2 x hfound).2 hroot
      exact ⟨d, e, List.mem_filterMap.mpr ⟨l₁', List.mem_cons_self, hagain⟩⟩
    · obtain ⟨d, e, hmem⟩ := ih (List.mem_filterMap.mpr ⟨l, hl, hfound⟩) hl
      obtain ⟨l', hl', hagain⟩ := List.mem_filterMap.mp hmem
      exact ⟨d, e, List.mem_filterMap.mpr ⟨l', List.mem_cons_of_mem _ hl', hagain⟩⟩

theorem kind_of_directiveDependency? {comment : List Char} {d : Dependency}
    (h : directiveDependency? path comment = some d) : d.kind ≠ .module := by
  rw [directiveDependency?] at h
  obtain ⟨⟨kind, name⟩, -, h⟩ := Option.bind_eq_some_iff.mp h
  dsimp only at h
  split at h
  · rw [← Option.some.inj h]
    exact DependencyKind.noConfusion
  · obtain ⟨target, -, h⟩ := Option.bind_eq_some_iff.mp h
    split at h
    · cases h
    · rw [← Option.some.inj h]
      exact DependencyKind.noConfusion

/-- Directives refer to libraries and files, and name no modules. -/
theorem kind_of_mem_directives {ns : List Node} {d : Dependency}
    (hd : d ∈ directives path source ns) : d.kind ≠ .module := by
  induction ns with
  | nil => cases hd
  | cons n ns ih =>
    rw [directives] at hd
    split at hd
    · rcases List.mem_append.mp hd with hd | hd
      · exact kind_of_directiveDependency? (Option.mem_toList.mp hd)
      · exact ih hd
    · split at hd
      · exact ih hd
      · cases hd

/-- The head of a text says the same once its comments do. -/
theorem directives_eq {ns ns' : List Node}
    (h : List.Forall₂ (fun n n' => n.respells path source source' n') ns ns')
    (hcomments : List.Forall₂ (fun n n' => n.isA .comment →
      slice source' n'.start n'.stop = slice source n.start n.stop) ns ns') :
    directives path source' ns' = directives path source ns := by
  induction h with
  | nil => rfl
  | @cons n n' ns ns' hn _ ih =>
    cases hcomments with
    | cons hcomment hrest =>
      rw [directives, directives, Node.isA_of_respells hn .comment,
        Node.isA_of_respells hn .hashBangLine]
      rw [Node.isA_of_respells hn .comment] at hcomment
      split
      case isTrue hkind => rw [hcomment hkind, ih hrest]
      case isFalse => rw [ih hrest]

end

/-! ### Modules -/

namespace ModuleRecord

/-- The tree of the second text is that of the first one, with canonical specifiers, and with
comments that read the same. -/
structure Rereads (r r' : ModuleRecord) : Prop where
  respells : r.tree.respells r.path r.text.toList r'.text.toList r'.tree
  comments : List.Forall₂ (fun c c' => c.isA .comment →
    slice r'.text.toList c'.start c'.stop = slice r.text.toList c.start c.stop)
    r.tree.children r'.tree.children

variable {r r' : ModuleRecord} {read : TreeReader}

/-- What a rewritten text comes to is what it came to before, without edits, unless a specifier
leads to the root. -/
theorem discover_rewritten_iff (hpath : r'.path = r.path) (h : r.Rereads r') :
    r'.discover = ⟨r.discover.met, []⟩ ↔
      ⟨ModulePath.root.withDefaultExtension, .module⟩ ∉ r.discover.met := by
  have hsources := sources_respell h.respells
  have hdirectives := directives_eq (Node.respells_iff.mp h.respells).2.2.2 h.comments
  rw [discover, hpath, Discovery.mk.injEq, hdirectives, specifiersIn_sources]
  constructor
  · rintro ⟨-, hedits⟩ hmem
    have hmodule : ∃ x ∈ r.tree.sources.filterMap (specifierDependency? r.path r.text.toList),
        x.1 = ⟨ModulePath.root.withDefaultExtension, .module⟩ := by
      rw [discover, specifiersIn_sources] at hmem
      rcases List.mem_append.mp hmem with hmem | hmem
      · exact absurd rfl (kind_of_mem_directives hmem)
      · exact List.mem_map.mp hmem
    obtain ⟨x, hx, hroot⟩ := hmodule
    obtain ⟨d, e, hagain⟩ := exists_edit_of_root hsources hx hroot
    have hnone := List.flatMap_eq_nil_iff.mp hedits _ hagain
    cases hnone
  · intro hroot
    have hmodules : ∀ x ∈ r.tree.sources.filterMap (specifierDependency? r.path r.text.toList),
        x.1 ≠ ⟨ModulePath.root.withDefaultExtension, .module⟩ := by
      intro x hx heq
      refine hroot ?_
      rw [discover, specifiersIn_sources]
      exact List.mem_append_right _ (List.mem_map.mpr ⟨x, hx, heq⟩)
    rw [specifiers_settled hsources hmodules, discover, specifiersIn_sources]
    simp

/-- A module at a bare path whose specifiers are literals gets literals for them. -/
theorem isLiteral_of_mem_edits (hbare : r.path.isBare)
    (hliterals : ∀ l ∈ r.tree.sources, Lexeme.isLiteral (slice r.text.toList l.start l.stop)) :
    ∀ e ∈ r.discover.edits, Lexeme.isLiteral e.replacement.toList := by
  intro e he
  rw [discover, specifiersIn_sources] at he
  obtain ⟨⟨d, edits⟩, hx, he⟩ := List.mem_flatMap.mp he
  obtain ⟨l, hl, hfound⟩ := List.mem_filterMap.mp hx
  have hliteral := hliterals l hl
  rw [specifierDependency?] at hfound
  split at hfound
  case h_1 quote c cs htext =>
    obtain ⟨target, htarget, heq⟩ := Option.map_eq_some_iff.mp hfound
    obtain ⟨-, rfl⟩ := Prod.mk.inj heq
    rw [htext] at hliteral
    dsimp only at he
    split at he
    · cases he
    · rw [List.mem_singleton.mp he, TextEdit.replace, String.toList_ofList]
      exact ModulePath.isLiteral_respelled hbare hliteral htarget
  case h_2 => cases hfound

/-- Rewriting a text a second time changes nothing and names the same dependencies, exactly if no
specifier leads to the root: when the specifiers are literals, when the module's path can stand
between quotes, and when a text in which literals are put in the place of literals has the tree of
the one before. Likewise for single specifiers: the canonical form of what a specifier leads to
leads there itself, exactly if that is not the root. -/
theorem rewriting_settles (hread : read.IsFaithful) (hserved : r = r.served read)
    (hbare : r.path.isBare)
    (hliterals : ∀ l ∈ r.tree.sources, Lexeme.isLiteral (slice r.text.toList l.start l.stop))
    (hparse : ∀ r', r.edited r.discover.edits r.discover.paths read = .ok r' →
      (∀ e ∈ r.discover.edits, Lexeme.isLiteral e.replacement.toList) → r.Rereads r') :
    (∃ r', r.edited r.discover.edits r.discover.paths read = .ok r' ∧
      (r'.discover = ⟨r.discover.met, []⟩ ↔
        ⟨ModulePath.root.withDefaultExtension, .module⟩ ∉ r.discover.met)) ∧
      ∀ (p : ModulePath) (s : String) (q : ModulePath), p.resolve? s = some q →
        ((p.resolve? q.withDefaultExtension.text).map ModulePath.withDefaultExtension =
          some q.withDefaultExtension ↔ q ≠ ModulePath.root) := by
  refine ⟨?_, fun p s q h => ModulePath.resolve?_withDefaultExtension h⟩
  obtain ⟨r', hedited⟩ := Host.edited_isOk hread hserved r.discover.paths
  exact ⟨r', hedited, discover_rewritten_iff (edited_path hedited)
    (hparse r' hedited (isLiteral_of_mem_edits hbare hliterals))⟩

/-- A module that is read line by line. -/
def ofLines (path : ModulePath) (text : String) : ModuleRecord :=
  .ofText path (.ofName "") .ts text ⟨.ofName "", 200, none, none⟩ TreeReader.ofLines.placed

theorem ofLines_served (path : ModulePath) (text : String) :
    ofLines path text = (ofLines path text).served TreeReader.ofLines.placed := rfl

/-- A module with a directive, and with a specifier that is to be made canonical, one that is so
already, and one that names no path. -/
def directed : ModuleRecord :=
  ofLines ⟨"/lib/a.ts"⟩
    "/// <reference path='z' />\nimport '../b';\nexport * from '/c.tsx';\nimport 'q';\n"

theorem directed_served : directed = directed.served TreeReader.ofLines.placed :=
  ofLines_served _ _

/-- The module once its specifiers are canonical. -/
def directedAgain : ModuleRecord :=
  (directed.edited directed.discover.edits directed.discover.paths
    TreeReader.ofLines.placed).toOption.get (by decide +kernel)

theorem directed_edited : directed.edited directed.discover.edits directed.discover.paths
    TreeReader.ofLines.placed = .ok directedAgain := by
  apply eq_ok_of_toOption
  rw [directedAgain, Option.some_get]

/-- `rewriting_settles` for a module of three specifiers, one of which is edited. -/
theorem directed_settles :
    (directed.discover.edits.length = 1 ∧ ∃ r', directed.edited directed.discover.edits
      directed.discover.paths TreeReader.ofLines.placed = .ok r' ∧
        r'.discover = ⟨directed.discover.met, []⟩) ∧
      ((ModulePath.mk "/lib/a.ts").resolve? (ModulePath.mk "/c").withDefaultExtension.text).map
        ModulePath.withDefaultExtension = some (ModulePath.mk "/c").withDefaultExtension := by
  obtain ⟨⟨r', hedited, hsettled⟩, hpaths⟩ := rewriting_settles (TreeReader.placed_isFaithful _)
    directed_served (by decide +kernel) (by decide +kernel) fun r' hr' _ => by
      rw [directed_edited] at hr'
      rw [← Except.ok.inj hr']
      exact ⟨by decide +kernel, by decide +kernel⟩
  exact ⟨⟨by decide +kernel, r', hedited, hsettled.mpr (by decide +kernel)⟩,
    (hpaths ⟨"/lib/a.ts"⟩ "../c" ⟨"/c"⟩ (by decide +kernel)).mpr (by decide +kernel)⟩

/-- A module that imports the root, and one whose path has a quote in it. -/
def rooted : ModuleRecord := ofLines ⟨"/a.ts"⟩ "import '/';\n"

def apostrophed : ModuleRecord := ofLines ⟨"/it's/a.ts"⟩ "import './b';\n"

/-- The module once the root has a suffix. -/
def rootedAgain : ModuleRecord :=
  (rooted.edited rooted.discover.edits rooted.discover.paths
    TreeReader.ofLines.placed).toOption.get (by decide +kernel)

theorem rooted_edited : rooted.edited rooted.discover.edits rooted.discover.paths
    TreeReader.ofLines.placed = .ok rootedAgain := by
  apply eq_ok_of_toOption
  rw [rootedAgain, Option.some_get]

/-- What leads to the root is edited at every turn, and a quote in a module's path ends the literals
that its specifiers are replaced by. -/
theorem rewriting_goes_on :
    (∃ r r' : ModuleRecord, r = r.served TreeReader.ofLines.placed ∧ r.path.isBare ∧
      (∀ l ∈ r.tree.sources, Lexeme.isLiteral (slice r.text.toList l.start l.stop)) ∧
      r.edited r.discover.edits r.discover.paths TreeReader.ofLines.placed = .ok r' ∧
      r.Rereads r' ∧ r'.discover.edits ≠ [] ∧ r'.discover.met ≠ r.discover.met) ∧
    (∃ (p : ModulePath) (s : String) (q : ModulePath), p.resolve? s = some q ∧
      (p.resolve? q.withDefaultExtension.text).map ModulePath.withDefaultExtension ≠
        some q.withDefaultExtension) ∧
    ∃ r : ModuleRecord, r = r.served TreeReader.ofLines.placed ∧
      (∀ l ∈ r.tree.sources, Lexeme.isLiteral (slice r.text.toList l.start l.stop)) ∧
      ∃ e ∈ r.discover.edits, Lexeme.isLiteral e.replacement.toList = false := by
  refine ⟨⟨rooted, rootedAgain, ofLines_served _ _, by decide +kernel, by decide +kernel,
    rooted_edited, ⟨by decide +kernel, by decide +kernel⟩,
    by decide +kernel, by decide +kernel⟩,
    ⟨⟨"/a.ts"⟩, "/", ⟨"/"⟩, by decide +kernel, by decide +kernel⟩,
    apostrophed, ofLines_served _ _, by decide +kernel, by decide +kernel⟩

end ModuleRecord

end CompilingProxy
