import CompilingProxy.Proofs.Analysis.Occurrence
import CompilingProxy.Proofs.Module.Rewriting
import CompilingProxy.Proofs.Text.Splice

/-!
# What rewriting touches

The edits of a module are made to the literals by which its imports and exports name other modules,
and to nothing else. The main result says which literals are reached, what becomes of them, and what
is told of the module's dependencies, for every tree whose parts lie in each other in order.
-/

namespace CompilingProxy

open Text

/-- Whether the text stands between two of the same quotes. -/
def Text.isQuoted : List Char → Bool
  | [] => false
  | quote :: rest => (quote == '"' || quote == '\'') && rest.getLast? == some quote

theorem Text.isQuoted_iff {cs : List Char} :
    isQuoted cs ↔ ∃ quote specifier, (quote = '"' ∨ quote = '\'') ∧
      cs = quote :: specifier ++ [quote] := by
  cases cs with
  | nil => simp [isQuoted]
  | cons c cs =>
    rw [isQuoted, Bool.and_eq_true, Bool.or_eq_true, beq_iff_eq, beq_iff_eq, beq_iff_eq,
      List.getLast?_eq_some_iff]
    constructor
    · rintro ⟨hquote, specifier, rfl⟩
      exact ⟨c, specifier, hquote, rfl⟩
    · rintro ⟨quote, specifier, hquote, heq⟩
      obtain ⟨rfl, rfl⟩ := List.cons.inj heq
      exact ⟨hquote, specifier, rfl⟩

namespace Node

/-! ### Parts in order -/

/-- Whether the trees lie between the offsets, each behind the one before. -/
def lieBetween (start stop : Nat) : List Node → Bool
  | [] => decide (start ≤ stop)
  | n :: ns => decide (start ≤ n.start) && decide (n.start ≤ n.stop) && lieBetween n.stop stop ns

/-- Whether the parts of every node lie in it, each behind the one before. -/
def isNested (n : Node) : Bool := n.everywhere fun n => lieBetween n.start n.stop n.children

theorem lieBetween_cons_iff {start stop : Nat} {n : Node} {ns : List Node} :
    lieBetween start stop (n :: ns) ↔
      start ≤ n.start ∧ n.start ≤ n.stop ∧ lieBetween n.stop stop ns := by
  rw [lieBetween, Bool.and_eq_true, Bool.and_eq_true, decide_eq_true_eq, decide_eq_true_eq,
    and_assoc]

theorem isNested_iff {n : Node} :
    n.isNested ↔ lieBetween n.start n.stop n.children ∧ ∀ c ∈ n.children, c.isNested :=
  everywhere_iff

theorem le_of_lieBetween {start stop : Nat} {ns : List Node} (h : lieBetween start stop ns) :
    start ≤ stop := by
  induction ns generalizing start with
  | nil => simpa [lieBetween] using h
  | cons n ns ih =>
    obtain ⟨hstart, hwidth, hns⟩ := lieBetween_cons_iff.mp h
    have hrest := ih hns
    omega

theorem lieBetween_append_cons {start stop : Nat} {n : Node} {front back : List Node}
    (h : lieBetween start stop (front ++ n :: back)) :
    lieBetween start n.start front ∧ n.start ≤ n.stop ∧ lieBetween n.stop stop back := by
  induction front generalizing start with
  | nil =>
    obtain ⟨hstart, hwidth, hback⟩ := lieBetween_cons_iff.mp h
    exact ⟨by simpa [lieBetween] using hstart, hwidth, hback⟩
  | cons m front ih =>
    obtain ⟨hstart, hm, hrest⟩ := lieBetween_cons_iff.mp h
    obtain ⟨hfront, hwidth, hback⟩ := ih hrest
    exact ⟨lieBetween_cons_iff.mpr ⟨hstart, hm, hfront⟩, hwidth, hback⟩

theorem bounds_of_lieBetween {start stop : Nat} {n : Node} {ns : List Node}
    (h : lieBetween start stop ns) (hn : n ∈ ns) :
    start ≤ n.start ∧ n.start ≤ n.stop ∧ n.stop ≤ stop := by
  obtain ⟨front, back, rfl⟩ := List.append_of_mem hn
  obtain ⟨hfront, hwidth, hback⟩ := lieBetween_append_cons h
  exact ⟨le_of_lieBetween hfront, hwidth, le_of_lieBetween hback⟩

theorem Reaches.bounds {n m : Node} {way : List Descent} (h : n.Reaches way m)
    (hnested : n.isNested) :
    n.start ≤ m.start ∧ m.start ≤ m.stop ∧ m.stop ≤ n.stop ∧ m.isNested := by
  induction h with
  | here =>
    have hwidth := le_of_lieBetween (isNested_iff.mp hnested).1
    exact ⟨Nat.le_refl _, hwidth, Nat.le_refl _, hnested⟩
  | @down n child target front back way hchildren hway ih =>
    obtain ⟨hrow, hbelow⟩ := isNested_iff.mp hnested
    have hmem : child ∈ n.children := by simp [hchildren]
    have hchild := bounds_of_lieBetween hrow hmem
    obtain ⟨hstart, hwidth, hstop, htarget⟩ := ih (hbelow child hmem)
    exact ⟨by omega, hwidth, by omega, htarget⟩

/-- What is collected from trees in a row is in order if what is collected from each of them is. -/
theorem pairwise_flatMap {R : Node → Node → Prop} {f : Node → List Node} {start stop : Nat}
    {ns : List Node} (hafter : ∀ a b, a.stop ≤ b.start → R a b)
    (hrow : lieBetween start stop ns)
    (hinside : ∀ c ∈ ns, ∀ l ∈ f c, c.start ≤ l.start ∧ l.stop ≤ c.stop)
    (hpair : ∀ c ∈ ns, (f c).Pairwise R) : (ns.flatMap f).Pairwise R := by
  induction ns generalizing start with
  | nil => exact List.Pairwise.nil
  | cons n ns ih =>
    obtain ⟨-, -, hns⟩ := lieBetween_cons_iff.mp hrow
    have hothers := ih hns (fun c hc => hinside c (List.mem_cons_of_mem _ hc))
      fun c hc => hpair c (List.mem_cons_of_mem _ hc)
    rw [List.flatMap_cons]
    refine List.pairwise_append.mpr ⟨hpair n List.mem_cons_self, hothers, ?_⟩
    intro a ha b hb
    obtain ⟨c, hc, hb⟩ := List.mem_flatMap.mp hb
    have hfirst := hinside n List.mem_cons_self a ha
    have hsecond := hinside c (List.mem_cons_of_mem _ hc) b hb
    have hbetween := bounds_of_lieBetween hns hc
    exact hafter a b (by omega)

/-! ### Sources -/

/-- The way leads to an import or export that names another module with the literal. -/
def IsSourceAlong (n : Node) (way : List Descent) (literal : Node) : Prop :=
  ∃ statement, n.Reaches way statement ∧ statement.isImportOrExport ∧
    statement.child? .source = some literal

theorem mem_children_of_child? {n literal : Node} {role : Role}
    (h : n.child? role = some literal) : literal ∈ n.children :=
  List.mem_of_find?_eq_some h

theorem isSourceAlong_iff {n literal : Node} {way : List Descent} :
    n.IsSourceAlong way literal ↔
      (way = [] ∧ n.isImportOrExport ∧ n.child? .source = some literal) ∨
        ∃ front child back rest, n.children = front ++ child :: back ∧
          way = ⟨n, front⟩ :: rest ∧ child.IsSourceAlong rest literal := by
  constructor
  · rintro ⟨statement, hway, hkind, hsource⟩
    rcases Reaches.cases_iff.mp hway with
      ⟨rfl, rfl⟩ | ⟨front, child, back, rest, hchildren, hrest, rfl⟩
    · exact .inl ⟨rfl, hkind, hsource⟩
    · exact .inr ⟨front, child, back, rest, hchildren, rfl, statement, hrest, hkind, hsource⟩
  · rintro (⟨rfl, hkind, hsource⟩ | ⟨front, child, back, rest, hchildren, rfl, h⟩)
    · exact ⟨n, .here n, hkind, hsource⟩
    · obtain ⟨statement, hrest, hkind, hsource⟩ := h
      exact ⟨statement, .down hchildren hrest, hkind, hsource⟩

/-- The sources that are found are those of the statements that stand in no import. -/
theorem mem_sources_iff {n literal : Node} :
    literal ∈ n.sources ↔ ∃ way, n.IsSourceAlong way literal ∧
      ∀ d ∈ way, d.parent.isA .importStatement = false := by
  induction n using Node.induction_below with
  | step n ih =>
    rw [sources_eq, List.mem_append]
    constructor
    · rintro (hown | hbelow)
      · split at hown
        case isTrue hkind =>
          exact ⟨[], isSourceAlong_iff.mpr (.inl ⟨rfl, hkind, Option.mem_toList.mp hown⟩), by simp⟩
        case isFalse => cases hown
      · split at hbelow
        case isTrue => cases hbelow
        case isFalse himport =>
          obtain ⟨c, hc, hliteral⟩ := List.mem_flatMap.mp hbelow
          obtain ⟨front, back, hchildren⟩ := List.append_of_mem hc
          obtain ⟨way, hway, houtside⟩ := (ih c hc).mp hliteral
          refine ⟨_, isSourceAlong_iff.mpr (.inr ⟨front, c, back, way, hchildren, rfl, hway⟩), ?_⟩
          intro d hd
          rcases List.mem_cons.mp hd with rfl | hd
          · simpa using himport
          · exact houtside d hd
    · rintro ⟨way, hway, houtside⟩
      rcases isSourceAlong_iff.mp hway with
        ⟨rfl, hkind, hsource⟩ | ⟨front, c, back, rest, hchildren, rfl, hrest⟩
      · exact .inl (by rw [if_pos hkind, hsource]; exact List.mem_singleton_self _)
      · have hc : c ∈ n.children := by simp [hchildren]
        have himport : n.isA .importStatement = false := houtside _ List.mem_cons_self
        have hfound : literal ∈ c.sources :=
          (ih c hc).mpr ⟨rest, hrest, fun d hd => houtside d (List.mem_cons_of_mem _ hd)⟩
        right
        rw [if_neg (by simp [himport])]
        exact List.mem_flatMap.mpr ⟨c, hc, hfound⟩

theorem bounds_of_mem_sources {n literal : Node} (hnested : n.isNested)
    (h : literal ∈ n.sources) :
    n.start ≤ literal.start ∧ literal.start ≤ literal.stop ∧ literal.stop ≤ n.stop := by
  obtain ⟨way, ⟨statement, hway, -, hsource⟩, -⟩ := mem_sources_iff.mp h
  obtain ⟨hstart, -, hstop, hstatement⟩ := hway.bounds hnested
  have hliteral :=
    bounds_of_lieBetween (isNested_iff.mp hstatement).1 (mem_children_of_child? hsource)
  omega

theorem sources_of_not_holdsStatement {n : Node} (h : n.holdsStatement = false) :
    n.sources = [] := by
  induction n using Node.induction_below with
  | step n ih =>
    obtain ⟨hown, hbelow⟩ := holdsStatement_eq_false_iff.mp h
    rw [sources_eq, if_neg (by simp [hown]), List.nil_append]
    split
    · rfl
    · exact List.flatMap_eq_nil_iff.mpr fun c hc => ih c hc (hbelow c hc)

/-- Whether the literal of an import or export is a quoted piece of the text or an empty one, and
holds no statement. -/
def quotesSource (text : List Char) (n : Node) : Bool :=
  !n.isImportOrExport || (n.child? .source).all fun literal =>
    (slice? text literal.start literal.stop).any (fun cs => cs.isEmpty || isQuoted cs) &&
      !literal.holdsStatement

/-- Whether all literals by which imports and exports name other modules are such pieces. -/
def quotesSources (text : List Char) (n : Node) : Bool := n.everywhere (quotesSource text)

/-- Whether no statement stands in an export in front of what it names another module with. -/
def putsSourceFirst (n : Node) : Bool :=
  !n.isReExport ||
    (n.children.takeWhile (·.role != some .source)).all fun c => !c.holdsStatement

def putsSourcesFirst (n : Node) : Bool := n.everywhere putsSourceFirst

theorem quotesSource_iff {text : List Char} {n : Node} :
    n.quotesSource text ↔ n.isImportOrExport → ∀ literal, n.child? .source = some literal →
      (∃ cs, slice? text literal.start literal.stop = some cs ∧ (cs = [] ∨ isQuoted cs)) ∧
        literal.holdsStatement = false := by
  rw [quotesSource]
  cases n.isImportOrExport <;> cases n.child? .source <;> simp [Option.any_eq_true]

theorem quotesSources_iff {text : List Char} {n : Node} :
    n.quotesSources text ↔ n.quotesSource text ∧ ∀ c ∈ n.children, c.quotesSources text :=
  everywhere_iff

theorem putsSourcesFirst_iff {n : Node} :
    n.putsSourcesFirst ↔ n.putsSourceFirst ∧ ∀ c ∈ n.children, c.putsSourcesFirst :=
  everywhere_iff

theorem holdsStatement_of_putsSourceFirst {n literal c : Node} {front back : List Node}
    (hfirst : n.putsSourceFirst) (hexport : n.isA .exportStatement)
    (hsource : n.child? .source = some literal) (hchildren : n.children = front ++ literal :: back)
    (hfront : ∀ c ∈ front, c.role ≠ some .source) (hc : c ∈ front) :
    c.holdsStatement = false := by
  have hreExport : n.isReExport := by rw [isReExport, hexport, hsource]; rfl
  rw [putsSourceFirst, hreExport, Bool.not_true, Bool.false_or, List.all_eq_true] at hfirst
  have htaken : c ∈ n.children.takeWhile (·.role != some .source) := by
    rw [hchildren, List.takeWhile_append_of_pos (by simpa using hfront)]
    exact List.mem_append_left _ hc
  simpa using hfirst c htaken

/-- Sources are in order, in a sense in which what stands farther on comes later, if that holds the
other way around as well or if no export has statements in front of its own source. -/
theorem pairwise_sources {R : Node → Node → Prop} {text : List Char} {n : Node}
    (hnested : n.isNested) (hquotes : n.quotesSources text)
    (hafter : ∀ a b, a.stop ≤ b.start → R a b)
    (hbefore : (∀ a b, b.stop ≤ a.start → R a b) ∨ n.putsSourcesFirst) :
    n.sources.Pairwise R := by
  induction n using Node.induction_below with
  | step n ih =>
    obtain ⟨hrow, hbelow⟩ := isNested_iff.mp hnested
    obtain ⟨hquote, hquotesBelow⟩ := quotesSources_iff.mp hquotes
    have hinside : ∀ c ∈ n.children, ∀ l ∈ c.sources, c.start ≤ l.start ∧ l.stop ≤ c.stop := by
      intro c hc l hl
      have hbounds := bounds_of_mem_sources (hbelow c hc) hl
      exact ⟨hbounds.1, hbounds.2.2⟩
    have hchildren : (n.children.flatMap sources).Pairwise R :=
      pairwise_flatMap hafter hrow hinside fun c hc => ih c hc (hbelow c hc) (hquotesBelow c hc)
        (hbefore.imp_right fun h => (putsSourcesFirst_iff.mp h).2 c hc)
    rw [sources_eq]
    by_cases himport : n.isA .importStatement
    · rw [if_pos himport, List.append_nil]
      split
      · cases n.child? .source <;> simp
      · exact List.Pairwise.nil
    rw [if_neg himport]
    by_cases hkind : n.isImportOrExport
    swap
    · rwa [if_neg hkind, List.nil_append]
    rw [if_pos hkind]
    cases hsource : n.child? .source with
    | none => exact hchildren
    | some literal =>
      have hexport : n.isA .exportStatement := by simpa [isImportOrExport, himport] using hkind
      obtain ⟨-, hplain⟩ := quotesSource_iff.mp hquote hkind literal hsource
      obtain ⟨-, front, back, hsplit, hfront⟩ := List.find?_eq_some_iff_append.mp hsource
      rw [hsplit] at hrow
      obtain ⟨hrowFront, -, hrowBack⟩ := lieBetween_append_cons hrow
      -- The export's own source is taken first, wherever it stands among the children.
      refine List.pairwise_cons.mpr ⟨fun x hx => ?_, hchildren⟩
      obtain ⟨c, hc, hx⟩ := List.mem_flatMap.mp hx
      have hbounds := hinside c hc x hx
      rw [hsplit] at hc
      rcases List.mem_append.mp hc with hc | hc
      · rcases hbefore with hback | hfirst
        · have hleft := bounds_of_lieBetween hrowFront hc
          exact hback literal x (by omega)
        · have hnone := holdsStatement_of_putsSourceFirst (putsSourcesFirst_iff.mp hfirst).1
            hexport hsource hsplit (by simpa using hfront) hc
          rw [sources_of_not_holdsStatement hnone] at hx
          cases hx
      · rcases List.mem_cons.mp hc with rfl | hc
        · rw [sources_of_not_holdsStatement hplain] at hx
          cases hx
        · have hright := bounds_of_lieBetween hrowBack hc
          exact hafter literal x (by omega)

theorem sources_apart {text : List Char} {n : Node} (hnested : n.isNested)
    (hquotes : n.quotesSources text) : n.sources.Pairwise fun a b => a.range.Apart b.range :=
  pairwise_sources hnested hquotes (fun _ _ => .inl) (.inl fun _ _ => .inr)

theorem slice_of_mem_sources {text : List Char} {n literal : Node}
    (hquotes : n.quotesSources text) (h : literal ∈ n.sources) :
    ∃ cs, slice? text literal.start literal.stop = some cs ∧ (cs = [] ∨ isQuoted cs) := by
  obtain ⟨way, ⟨statement, hway, hkind, hsource⟩, -⟩ := mem_sources_iff.mp h
  have hquote := (quotesSources_iff.mp (hway.everywhere hquotes)).1
  exact (quotesSource_iff.mp hquote hkind literal hsource).1

end Node

/-! ### Edits -/

namespace ModulePath

/-- The literal with a canonical specifier between its quotes. -/
def respellLiteral (p : ModulePath) : List Char → List Char
  | [] => []
  | quote :: rest => quote :: p.respell rest.dropLast ++ [quote]

/-- What a literal becomes, whether that changes it or not. -/
def respelling (p : ModulePath) (source : List Char) (literal : Node) : TextEdit :=
  .replace literal.start literal.stop
    (String.ofList (p.respellLiteral (slice source literal.start literal.stop)))

end ModulePath

section

variable {path : ModulePath} {source : List Char}

theorem ModulePath.respellLiteral_quoted (p : ModulePath) (quote : Char) (specifier : List Char) :
    p.respellLiteral (quote :: specifier ++ [quote]) = quote :: p.respell specifier ++ [quote] := by
  rw [List.cons_append, respellLiteral, List.dropLast_concat]

theorem specifier_edits_eq {literal : Node}
    (h : slice source literal.start literal.stop = [] ∨
      isQuoted (slice source literal.start literal.stop)) :
    (specifierDependency? path source literal).toList.flatMap (·.2) =
      [path.respelling source literal].filter (·.changes source) := by
  rcases h with hempty | hquoted
  · have hsame : (path.respelling source literal).changes source = false := by
      simp [TextEdit.changes, ModulePath.respelling, TextEdit.replace, hempty,
        ModulePath.respellLiteral]
    rw [specifierDependency?, hempty, List.filter_cons_of_neg (by simp [hsame])]
    rfl
  · obtain ⟨quote, specifier, -, htext⟩ := isQuoted_iff.mp hquoted
    have hchanges : (path.respelling source literal).changes source =
        decide (path.respell specifier ≠ specifier) := by
      rw [TextEdit.changes, ModulePath.respelling, TextEdit.replace, String.toList_ofList]
      dsimp only
      rw [htext, ModulePath.respellLiteral_quoted, Bool.eq_iff_iff]
      simp
    rw [specifierDependency?_of_slice htext, List.filter_cons, hchanges, ModulePath.respelling,
      htext, ModulePath.respellLiteral_quoted, ModulePath.respell]
    cases path.resolve? (String.ofList specifier) with
    | none => simp
    | some target =>
      by_cases hsame : target.withDefaultExtension.text.toList = specifier
      · simp [hsame]
      · simp [hsame]

theorem edits_eq_filter {r : ModuleRecord} (hquotes : r.tree.quotesSources r.text.toList) :
    r.discover.edits = (r.tree.sources.map (r.path.respelling r.text.toList)).filter
      (·.changes r.text.toList) := by
  have hcut : ∀ ls : List Node, (∀ l ∈ ls, slice r.text.toList l.start l.stop = [] ∨
      isQuoted (slice r.text.toList l.start l.stop)) →
      (ls.filterMap (specifierDependency? r.path r.text.toList)).flatMap (·.2) =
        (ls.map (r.path.respelling r.text.toList)).filter (·.changes r.text.toList) := by
    intro ls
    induction ls with
    | nil => intro _; rfl
    | cons l ls ih =>
      intro h
      have hfirst : (specifierDependency? r.path r.text.toList l).toList.flatMap (·.2) =
          [r.path.respelling r.text.toList l].filter (·.changes r.text.toList) :=
        specifier_edits_eq (h l List.mem_cons_self)
      rw [List.filterMap_cons, List.map_cons, ← List.singleton_append, List.filter_append,
        ← hfirst, ← ih fun m hm => h m (List.mem_cons_of_mem _ hm)]
      cases specifierDependency? r.path r.text.toList l <;> simp
  rw [ModuleRecord.discover, specifiersIn_sources]
  apply hcut
  intro l hl
  obtain ⟨cs, hslice, hcs⟩ := Node.slice_of_mem_sources hquotes hl
  rwa [slice, hslice, Option.getD_some]

end

/-! ### What is told -/

/-- Comments, and the line that names an interpreter. -/
def Node.isOfHead (n : Node) : Bool := n.isA .comment || n.isA .hashBangLine

theorem directives_eq_filterMap (path : ModulePath) (source : List Char) (ns : List Node) :
    directives path source ns =
      ((ns.takeWhile Node.isOfHead).filter (·.isA .comment)).filterMap fun n =>
        directiveDependency? path (slice source n.start n.stop) := by
  induction ns with
  | nil => rfl
  | cons n ns ih =>
    rw [directives, List.takeWhile_cons, Node.isOfHead]
    by_cases hcomment : n.isA .comment
    · rw [if_pos hcomment, hcomment, Bool.true_or, if_pos rfl, List.filter_cons, if_pos hcomment,
        List.filterMap_cons, ih]
      cases directiveDependency? path (slice source n.start n.stop) <;> simp
    · rw [if_neg hcomment]
      by_cases hbang : n.isA .hashBangLine
      · rw [if_pos hbang, hbang, Bool.or_true, if_pos rfl, List.filter_cons, if_neg hcomment,
          ih]
      · rw [if_neg hbang, if_neg (by simp [hcomment, hbang])]
        rfl

namespace Discovery

/-- Taking up what has a path of its own, one after the other, is leaving out later repeats. -/
theorem foldl_eq_eraseDupsBy (known met : List Dependency) :
    met.foldl (fun known x => if known.any (·.path == x.path) then known else known ++ [x]) known =
      known ++ (met.filter fun x => !known.any (·.path == x.path)).eraseDupsBy
        (·.path == ·.path) := by
  induction met generalizing known with
  | nil => simp [List.eraseDupsBy_nil]
  | cons d met ih =>
    rw [List.foldl_cons]
    by_cases hknown : known.any (·.path == d.path)
    · rw [if_pos hknown, ih, List.filter_cons_of_neg (by simp [hknown])]
    · have hothers : (met.filter fun x => !(known ++ [d]).any (·.path == x.path)) =
          (met.filter fun x => !known.any (·.path == x.path)).filter fun x =>
            decide ((x.path == d.path) = false) := by
        rw [List.filter_filter]
        refine List.filter_congr fun x _ => ?_
        have hcomm : (d.path == x.path) = (x.path == d.path) := BEq.comm
        rw [List.any_append, List.any_cons, List.any_nil, Bool.or_false, Bool.not_or,
          Bool.and_comm, hcomm]
        cases x.path == d.path <;> rfl
      rw [if_neg hknown, ih, hothers, List.filter_cons_of_pos (by simpa using hknown),
        List.eraseDupsBy_cons, List.append_assoc, List.singleton_append]

theorem dependencies_eq_eraseDupsBy (d : Discovery) :
    d.dependencies = d.met.eraseDupsBy (·.path == ·.path) := by
  rw [dependencies, foldl_eq_eraseDupsBy]
  simp

end Discovery

theorem kind_of_specifierDependency? {path : ModulePath} {source : List Char} {literal : Node}
    {x : Dependency × List TextEdit} (h : specifierDependency? path source literal = some x) :
    x.1.kind = .module := by
  rw [specifierDependency?] at h
  split at h
  · obtain ⟨target, -, rfl⟩ := Option.map_eq_some_iff.mp h
    rfl
  · cases h

namespace ModuleRecord

variable {r : ModuleRecord} {read : TreeReader}

theorem filter_met_eq (r : ModuleRecord) :
    r.discover.met.filter (·.kind != .module) =
      ((r.tree.children.takeWhile Node.isOfHead).filter (·.isA .comment)).filterMap fun n =>
        directiveDependency? r.path (slice r.text.toList n.start n.stop) := by
  have hdirectives : (directives r.path r.text.toList r.tree.children).filter
      (·.kind != .module) = directives r.path r.text.toList r.tree.children := by
    refine List.filter_eq_self.mpr fun d hd => ?_
    simpa using kind_of_mem_directives hd
  have hmodules : ((r.tree.sources.filterMap (specifierDependency? r.path r.text.toList)).map
      (·.1)).filter (·.kind != .module) = [] := by
    refine List.filter_eq_nil_iff.mpr fun d hd => ?_
    obtain ⟨x, hx, rfl⟩ := List.mem_map.mp hd
    obtain ⟨literal, -, hfound⟩ := List.mem_filterMap.mp hx
    simp [kind_of_specifierDependency? hfound]
  rw [discover, specifiersIn_sources, List.filter_append, hdirectives, hmodules, List.append_nil,
    directives_eq_filterMap]

/-! ### The rewritten module -/

/-- What the edits of a module are made to, what its text becomes, and what it is said to depend
on. -/
structure RewritesSources (r : ModuleRecord) : Prop where
  /-- An edit is made to the whole source of a statement, at whatever depth it stands. -/
  ranges : ∀ e ∈ r.discover.edits, ∃ way literal,
    r.tree.IsSourceAlong way literal ∧ e.range = literal.range
  apart : r.discover.edits.Pairwise fun a b => a.range.Apart b.range
  inRow : r.tree.putsSourcesFirst → InRow r.discover.edits
  /-- The sources outside imports are respelled where they stand, and all else stays. -/
  text : ∃ literals : List Node, literals.Pairwise (fun a b => a.stop ≤ b.start) ∧
    (∀ literal, literal ∈ literals ↔ ∃ way, r.tree.IsSourceAlong way literal ∧
      ∀ d ∈ way, d.parent.isA .importStatement = false) ∧
    ∀ read, ∃ r', r.edited r.discover.edits r.discover.paths read = .ok r' ∧
      r'.text.toList =
        editedFrom r.text.toList 0 (literals.map (r.path.respelling r.text.toList))
  canonical : ∀ quote specifier,
    ModulePath.isRelative specifier ∨ ModulePath.isRootAbsolute specifier →
      ∃ target, r.path.resolve? (String.ofList specifier) = some target ∧
        r.path.respellLiteral (quote :: specifier ++ [quote]) =
          quote :: target.withDefaultExtension.text.toList ++ [quote]
  dependencies : r.discover.dependencies = r.discover.met.eraseDupsBy (·.path == ·.path)
  directives : r.discover.met.filter (·.kind != .module) =
    ((r.tree.children.takeWhile Node.isOfHead).filter (·.isA .comment)).filterMap fun n =>
      directiveDependency? r.path (slice r.text.toList n.start n.stop)

/-- The sources of a module in the order of its text, each to be respelled where it stands. -/
theorem exists_sources_inRow (hnested : r.tree.isNested)
    (hquotes : r.tree.quotesSources r.text.toList) :
    ∃ literals : List Node, literals.Perm r.tree.sources ∧
      InRow (literals.map (r.path.respelling r.text.toList)) := by
  let respelled := r.path.respelling r.text.toList
  let precedes (a b : Node) : Bool := (respelled a).precedes (respelled b)
  have hperm := List.mergeSort_perm r.tree.sources precedes
  have hsorted : (r.tree.sources.mergeSort precedes).Pairwise fun a b => precedes a b :=
    List.pairwise_mergeSort
      (fun a b c => TextEdit.precedes_trans (respelled a) (respelled b) (respelled c))
      (fun a b => TextEdit.precedes_total (respelled a) (respelled b)) r.tree.sources
  have hapart := Node.sources_apart hnested hquotes
  refine ⟨_, hperm, List.pairwise_map.mpr ?_⟩
  have hboth := hsorted.and ((hperm.pairwise_iff Range.Apart.symm).mpr hapart)
  refine hboth.imp_of_mem fun {a b} ha hb hab => ?_
  have hwidth := Node.bounds_of_mem_sources hnested (hperm.mem_iff.mp hb)
  exact TextEdit.stop_le_of_precedes hab.1 hab.2 hwidth.2.1

theorem fits_of_mem_sources {literal : Node} (hquotes : r.tree.quotesSources r.text.toList)
    (h : literal ∈ r.tree.sources) :
    literal.range.Fits r.text.toList ∧
      ((r.path.respelling r.text.toList literal).changes r.text.toList →
        literal.start < literal.stop) := by
  obtain ⟨cs, hslice, -⟩ := Node.slice_of_mem_sources hquotes h
  obtain ⟨hfits, hstop⟩ := fits_of_slice? hslice
  refine ⟨hfits, fun hchanges => ?_⟩
  cases cs with
  | nil =>
    rw [TextEdit.changes, ModulePath.respelling, TextEdit.replace, String.toList_ofList] at hchanges
    simp [slice, hslice, ModulePath.respellLiteral] at hchanges
  | cons c cs =>
    have hpos := c.utf8Size_pos
    rw [width_cons] at hstop
    omega

theorem exists_edited {out : List Char} {offsets : OffsetMap} {edits : List TextEdit}
    (h : applyEdits r.rawText.toList edits = .ok (out, offsets)) (hserved : r.rawText = r.text)
    (paths : List ModulePath) (read : TreeReader) :
    ∃ r', r.edited edits paths read = .ok r' ∧ r'.text.toList = out := by
  rw [edited]
  split
  case isTrue hnone =>
    rw [List.isEmpty_iff.mp hnone, applyEdits_nil, hserved] at h
    exact ⟨_, rfl, congrArg Prod.fst (Except.ok.inj h)⟩
  case isFalse =>
    rw [h]
    exact ⟨_, rfl, String.toList_ofList⟩

/-- Whatever the tree of a module is like, so long as its parts lie in each other in order and
specifiers are quoted: edits are made to the sources of imports and exports only, apart from each
other, and in order where no export has statements in front of its own source. They can be performed
always, and then every source holds a canonical specifier, save that of a statement that stands in
an import. Dependencies are what is met without later repeats, and directives are read off the
comments in front of the first statement. -/
theorem rewrites_sources (hserved : r.rawText = r.text) (hnested : r.tree.isNested)
    (hquotes : r.tree.quotesSources r.text.toList) : r.RewritesSources := by
  have hedits := edits_eq_filter hquotes
  have hsublist : r.discover.edits.Sublist
      (r.tree.sources.map (r.path.respelling r.text.toList)) := hedits ▸ List.filter_sublist
  constructor
  case ranges =>
    intro e he
    obtain ⟨literal, hliteral, rfl⟩ := List.mem_map.mp (hsublist.subset he)
    obtain ⟨way, hway, -⟩ := Node.mem_sources_iff.mp hliteral
    exact ⟨way, literal, hway, rfl⟩
  case apart =>
    have hapart : (r.tree.sources.map (r.path.respelling r.text.toList)).Pairwise
        fun a b => a.range.Apart b.range :=
      List.pairwise_map.mpr (Node.sources_apart hnested hquotes)
    exact hapart.sublist hsublist
  case inRow =>
    intro hfirst
    have hrow : InRow (r.tree.sources.map (r.path.respelling r.text.toList)) :=
      List.pairwise_map.mpr (Node.pairwise_sources hnested hquotes (fun _ _ => id) (.inr hfirst))
    exact hrow.sublist hsublist
  case text =>
    obtain ⟨literals, hperm, hrow⟩ := exists_sources_inRow hnested hquotes
    refine ⟨literals, List.pairwise_map.mp hrow, fun literal => ?_, fun read => ?_⟩
    · rw [hperm.mem_iff, Node.mem_sources_iff]
    have hfits : ∀ e ∈ literals.map (r.path.respelling r.text.toList),
        e.range.Fits r.text.toList := by
      intro e he
      obtain ⟨literal, hliteral, rfl⟩ := List.mem_map.mp he
      exact (fits_of_mem_sources hquotes (hperm.mem_iff.mp hliteral)).1
    have hwide : ∀ e ∈ (literals.map (r.path.respelling r.text.toList)).filter
        (·.changes r.text.toList), e.range.start < e.range.stop := by
      intro e he
      obtain ⟨he, hchanges⟩ := List.mem_filter.mp he
      obtain ⟨literal, hliteral, rfl⟩ := List.mem_map.mp he
      exact (fits_of_mem_sources hquotes (hperm.mem_iff.mp hliteral)).2 hchanges
    have hsame : ((literals.map (r.path.respelling r.text.toList)).filter
        (·.changes r.text.toList)).Perm r.discover.edits := by
      rw [hedits]
      exact (hperm.map _).filter _
    obtain ⟨offsets, happly⟩ := applyEdits_eq_editedFrom hsame (hrow.sublist List.filter_sublist)
      (fun e he => hfits e (List.mem_filter.mp he).1) hwide
    rw [editedFrom_filter_changes hfits hrow (isBoundary_zero _) fun _ _ => Nat.zero_le _]
      at happly
    rw [← hserved] at happly
    obtain ⟨r', hr', htext⟩ := exists_edited happly hserved r.discover.paths read
    exact ⟨r', hr', by rw [htext, hserved]⟩
  case canonical =>
    intro quote specifier hpath
    have hresolves : (r.path.resolve? (String.ofList specifier)).isSome :=
      ModulePath.resolve?_isSome_iff.mpr (by rwa [String.toList_ofList])
    obtain ⟨target, htarget⟩ := Option.isSome_iff_exists.mp hresolves
    refine ⟨target, htarget, ?_⟩
    rw [ModulePath.respellLiteral_quoted, ModulePath.respell, htarget]
  case dependencies => exact r.discover.dependencies_eq_eraseDupsBy
  case directives => exact r.filter_met_eq

section

open Node

/-- A module that imports another one twice, the first time within a namespace, and has a directive
at its head and another one at its end. -/
def enclosed : ModuleRecord :=
  .ofTree "m.ts" ("/// <reference path='z' />\n" ++
    "export namespace N \x7b import './b'; \x7d\nimport './b';\n/// <reference path='y' />\n") <|
    .script 105
      [leaf .comment 0 26,
        branch .exportStatement
          [word 27 "export",
            playing .declaration <| branch .internalModule
              [word 34 "namespace", playing .name (leaf .identifier 44 45),
                playing .body <| branch .statementBlock
                  [word 46 "\x7b", ofLine 48 "import './b';".toList, word 62 "\x7d"]]],
        ofLine 64 "import './b';".toList,
        leaf .comment 78 104]

/-- `rewrites_sources` for a module with two edits and two dependencies. -/
theorem enclosed_rewrites : enclosed.discover.edits.length = 2 ∧
    enclosed.discover.paths = [⟨"/z"⟩, ⟨"/b.ts"⟩] ∧ enclosed.RewritesSources :=
  ⟨by decide +kernel, by decide +kernel,
    rewrites_sources rfl (by decide +kernel) (by decide +kernel)⟩

/-- What an import says of what it imports, with a method and an import in that. -/
def attributeOfImport : Node :=
  branch .importAttribute
    [word 13 "with", branch .object
      [word 18 "\x7b", branch .methodDefinition
        [playing .name (leaf .propertyIdentifier 20 21),
          playing .parameters (branch .formalParameters [word 21 "(", word 22 ")"]),
          playing .body (branch .statementBlock
            [word 24 "\x7b", ofLine 26 "import './b';".toList, word 40 "\x7d"])],
        word 42 "\x7d"]]

/-- A module with an import that stands in an import. -/
def attributed : ModuleRecord :=
  .ofTree "m.ts" "import './a' with \x7b m() \x7b import './b'; \x7d \x7d;\n" <|
    .script 45
      [branch .importStatement
        [word 0 "import", playing .source (literal 7 3), attributeOfImport, word 43 ";"]]

/-- A module with an import in the text that an export has in front of its source. -/
def interrupted : ModuleRecord :=
  .ofTree "m.ts" "export namespace N \x7b import './y'; * from './x';\n" <|
    .script 49
      [branch .exportStatement
        [word 0 "export",
          branch .error
            [word 7 "namespace", leaf .identifier 17 18, word 19 "\x7b",
              ofLine 21 "import './y';".toList],
          word 35 "*", word 37 "from", playing .source (literal 42 3), word 47 ";"]]

/-- An import within an import is not found, though its specifier is relative, and the edits of an
export that surrounds an import are out of order. -/
theorem nested_sources_missed_or_reordered :
    (∃ r : ModuleRecord, r.rawText = r.text ∧ r.tree.isNested ∧
      r.tree.quotesSources r.text.toList ∧ r.tree.hasError = false ∧ ∃ way literal,
        r.tree.IsSourceAlong way literal ∧ literal.text r.text.toList = "'./b'" ∧
          (∀ e ∈ r.discover.edits, e.range ≠ literal.range) ∧
          (r.path.resolve? "./b").map (·.withDefaultExtension) = some ⟨"/b.ts"⟩ ∧
            ⟨"/b.ts"⟩ ∉ r.discover.paths) ∧
      ∃ r : ModuleRecord, r.rawText = r.text ∧ r.tree.isNested ∧
        r.tree.quotesSources r.text.toList ∧ ¬ InRow r.discover.edits := by
  refine ⟨⟨attributed, rfl, by decide +kernel, by decide +kernel, by decide +kernel, ?_⟩,
    interrupted, rfl, by decide +kernel, by decide +kernel, by decide +kernel⟩
  have hblock : ∃ way, attributeOfImport.Reaches way (ofLine 26 "import './b';".toList) :=
    Reaches.exists_of_mem (.tail _ (.head _)) <| Reaches.exists_of_mem (.tail _ (.head _)) <|
      Reaches.exists_of_mem (.tail _ (.tail _ (.head _))) <|
        Reaches.exists_of_mem (.tail _ (.head _)) ⟨[], .here _⟩
  obtain ⟨way, hway⟩ : ∃ way, attributed.tree.Reaches way (ofLine 26 "import './b';".toList) :=
    Reaches.exists_of_mem (.head _) <| Reaches.exists_of_mem (.tail _ (.tail _ (.head _))) hblock
  exact ⟨way, _, ⟨_, hway, by decide +kernel, rfl⟩, by decide +kernel, by decide +kernel,
    by decide +kernel, by decide +kernel⟩

end

end ModuleRecord

end CompilingProxy
