import CompilingProxy.Proofs.Config.Reading
import CompilingProxy.Proofs.Json.Writing

/-!
# Recording a configuration

The document that a configuration is recorded as means what the document meant that it was read
from: it reads back as the same configuration, and what has no meaning here stands in it as it stood
before.
-/

namespace CompilingProxy

open JsonDocument

/-! ### What is written -/

theorem aliased_of_mem {α : Type} {names : List (String × α)} {fallback a : α}
    (hnames : Distinct names) {name : String} (hname : (name, a) ∈ names) :
    aliased (ofAlias? names) fallback (.string name) = .ok a := by
  have hsome := (ofAlias?_eq_some_iff hnames).mpr ⟨name, hname, rfl⟩
  have hvalue : aliased (ofAlias? names) fallback (.string name) =
      .ok ((ofAlias? names name).getD fallback) := rfl
  rw [hvalue, hsome]
  rfl

theorem asList_asString (names : List String) :
    asList asString (ofJson (Json.list .string names)) = .ok names := by
  have hnames : (ofJsonItems (names.map Json.string)).mapM asString = .ok names := by
    induction names with
    | nil => rfl
    | cons name names ih =>
      rw [List.map_cons, ofJsonItems, List.mapM_cons, ih]
      rfl
  rw [Json.list, ofJson, asList, hnames]
  rfl

theorem ofJsonMembers_append (ms ms' : List (String × Json)) :
    ofJsonMembers (ms ++ ms') = ofJsonMembers ms ++ ofJsonMembers ms' := by
  simp only [ofJsonMembers_eq, List.map_append]

theorem NamedOptions.read_of_notMem {n : NamedOptions} {key : String} {d : JsonDocument} {j : Json}
    (hkey : key ∉ CompilerOptions.keys) (hj : d.toJson = .ok j) :
    n.read key d = .ok { n with extra := Json.insert key j n.extra } := by
  unfold NamedOptions.read
  split
  case h_12 =>
    rw [hj]
    rfl
  all_goals exact absurd (by decide) hkey

theorem NamedOptions.foldlM_read {n : NamedOptions} {ms : List (String × Json)}
    (h : ∀ m ∈ ms, m.1 ∉ CompilerOptions.keys ∧ m.2.Ordered) :
    (ofJsonMembers ms).foldlM (fun n m => NamedOptions.read n m.1 m.2) n =
      .ok { n with extra := Json.insertAll n.extra ms } := by
  induction ms generalizing n with
  | nil => rfl
  | cons m ms ih =>
    obtain ⟨hkey, hordered⟩ := h m List.mem_cons_self
    rw [ofJsonMembers, List.foldlM_cons, read_of_notMem hkey (toJson_ofJson hordered)]
    exact ih fun m hm => h m (List.mem_cons_of_mem _ hm)

namespace CompilerOptions

/-- The members that mean something here. -/
def known (o : CompilerOptions) : List (String × Json) :=
  [("target", .string o.target.name), ("module", .string o.module.name),
      ("moduleResolution", .string o.moduleResolution.name)] ++
    (o.lib.map fun names => ("lib", Json.list Json.string names)).toList ++
    [("allowJs", .bool o.allowJs), ("checkJs", .bool o.checkJs),
      ("noEmitOnError", .bool o.noEmitOnError)] ++
    (o.outFile.map fun name => ("outFile", Json.string name)).toList ++
    [("noUnusedLocals", .bool o.noUnusedLocals),
      ("verbatimModuleSyntax", .bool o.verbatimModuleSyntax),
      ("erasableSyntaxOnly", .bool o.erasableSyntaxOnly)]

theorem toJson_eq (o : CompilerOptions) : o.toJson = .object (o.known ++ o.extra) := rfl

/-- The options as they are named by their own document, but for what has no meaning here. -/
def named (o : CompilerOptions) : NamedOptions where
  target := some o.target
  module := some o.module
  moduleResolution := some o.moduleResolution
  lib := o.lib.map some
  allowJs := some o.allowJs
  checkJs := some o.checkJs
  noEmitOnError := some o.noEmitOnError
  outFile := o.outFile.map some
  noUnusedLocals := some o.noUnusedLocals
  verbatimModuleSyntax := some o.verbatimModuleSyntax
  erasableSyntaxOnly := some o.erasableSyntaxOnly

theorem foldlM_known (o : CompilerOptions) :
    (ofJsonMembers o.known).foldlM (fun n m => NamedOptions.read n m.1 m.2) {} = .ok o.named := by
  have htarget : aliased ScriptTarget.ofAlias? .esNext (.string o.target.name) = .ok o.target :=
    aliased_of_mem (by decide) (by cases o.target <;> decide)
  have hmodule : aliased ModuleSystem.ofAlias? .esNext (.string o.module.name) = .ok o.module :=
    aliased_of_mem (by decide) (by cases o.module <;> decide)
  have hresolution : aliased ModuleResolution.ofAlias? .node (.string o.moduleResolution.name) =
      .ok o.moduleResolution :=
    aliased_of_mem (by decide) (by cases o.moduleResolution <;> decide)
  have hlib (names : List String) : asOptional (asList asString)
      (ofJson (Json.list Json.string names)) = .ok (some names) := by
    have hvalue : asOptional (asList asString) (ofJson (Json.list Json.string names)) =
        (asList asString (ofJson (Json.list Json.string names))).map some := rfl
    rw [hvalue, asList_asString]
    rfl
  have hchoices : (ofJsonMembers [("target", .string o.target.name),
      ("module", .string o.module.name),
      ("moduleResolution", .string o.moduleResolution.name)]).foldlM
        (fun n m => NamedOptions.read n m.1 m.2) {} =
      .ok { target := some o.target, module := some o.module,
            moduleResolution := some o.moduleResolution } := by
    simp only [ofJsonMembers, ofJson, List.foldlM_cons, NamedOptions.read, once]
    rw [htarget, hmodule, hresolution]
    rfl
  simp only [known, List.append_assoc]
  rw [ofJsonMembers_append, List.foldlM_append]
  refine bind_eq_ok_iff.mpr ⟨_, hchoices, ?_⟩
  rw [named]
  cases o.lib with
  | none => cases o.outFile <;> rfl
  | some names =>
    have hread (n : NamedOptions) (hnone : n.lib = none) :
        n.read "lib" (ofJson (Json.list Json.string names)) =
          .ok { n with lib := some (some names) } := by
      simp only [NamedOptions.read, once]
      rw [hnone, hlib]
      rfl
    rw [Option.map_some, Option.toList_some, List.singleton_append, ofJsonMembers,
      List.foldlM_cons, hread _ rfl]
    cases o.outFile <;> rfl

theorem keys_known (o : CompilerOptions) : o.known.map Prod.fst = keys.filter fun key =>
    (key ≠ "lib" || o.lib.isSome) && (key ≠ "outFile" || o.outFile.isSome) := by
  rw [known]
  cases o.lib <;> cases o.outFile <;> rfl

theorem fst_mem_keys {o : CompilerOptions} {m : String × Json} (h : m ∈ o.known) :
    m.1 ∈ keys := by
  have hm := List.mem_map_of_mem (f := Prod.fst) h
  rw [keys_known] at hm
  exact (List.mem_filter.mp hm).1

theorem get?_toJson (o : CompilerOptions) {key : String} (hkey : key ∉ keys) :
    o.toJson.get? key = o.extra.lookup key := by
  have hnone : o.known.lookup key = none := by
    rw [List.lookup_eq_none_iff]
    intro m hm
    exact bne_iff_ne.mpr fun heq => hkey (by rw [heq]; exact fst_mem_keys hm)
  rw [toJson_eq, Json.get?, List.lookup_append, hnone]
  rfl

variable {depth : Nat} {o : CompilerOptions}

theorem WellFormed.ofDocument_toJson (h : o.WellFormed depth) :
    ofDocument (ofJson o.toJson) = .ok o := by
  have hextra := NamedOptions.foldlM_read (n := o.named) fun m hm =>
    ⟨h.unknown m hm, (h.legible m hm).2⟩
  -- The members stand in order already, so they come into the places that they had.
  have hplaces : Json.insertAll o.named.extra o.extra = o.extra := Json.ofMembers_of_inOrder h.order
  rw [hplaces] at hextra
  have hread : (ofJson o.toJson).foldMembers NamedOptions.read {} =
      .ok { o.named with extra := o.extra } := by
    refine foldMembers_eq_ok_iff.mpr ⟨_, rfl, ?_⟩
    rw [ofJsonMembers_append, List.foldlM_append]
    exact bind_eq_ok_iff.mpr ⟨_, foldlM_known o, hextra⟩
  have hoptions : ({ o.named with extra := o.extra } : NamedOptions).toOptions = o := by
    obtain ⟨_, _, _, lib, _, _, _, outFile, _, _, _, _⟩ := o
    cases lib <;> cases outFile <;> rfl
  rw [ofDocument, hread]
  exact congrArg Except.ok hoptions

theorem legible_known {m : String × Json} (h : m ∈ o.known) : m.2.Legible (depth + 2) := by
  have hlist (names : List String) : (Json.list Json.string names).Legible (depth + 2) :=
    .array fun j hj => by
      obtain ⟨name, -, rfl⟩ := List.mem_map.mp hj
      exact .string
  have hall : ∀ m ∈ o.known, m.2.Legible (depth + 2) := by
    rw [known]
    simp only [List.forall_mem_append, List.forall_mem_cons, Option.mem_toList,
      Option.map_eq_some_iff]
    refine ⟨⟨⟨⟨⟨.string, .string, .string, nofun⟩, ?_⟩, .bool, .bool, .bool, nofun⟩, ?_⟩,
      .bool, .bool, .bool, nofun⟩
    · rintro m ⟨names, -, rfl⟩
      exact hlist names
    · rintro m ⟨name, -, rfl⟩
      exact .string
  exact hall m h

theorem WellFormed.legible_toJson (h : o.WellFormed (depth + 2)) :
    o.toJson.Legible (depth + 3) := by
  refine .object fun m hm => ?_
  rcases List.mem_append.mp hm with hm | hm
  · exact legible_known hm
  · exact (h.legible m hm).1

end CompilerOptions

namespace Config

variable {depth : Nat} {c : Config}

theorem foldlM_readMember {s : Option CompilerOptions × List (String × Json)}
    {ms : List (String × Json)} (h : ∀ m ∈ ms, m.1 ≠ "compilerOptions" ∧ m.2.Ordered) :
    (ofJsonMembers ms).foldlM (fun s m => readMember s m.1 m.2) s =
      .ok (s.1, Json.insertAll s.2 ms) := by
  induction ms generalizing s with
  | nil => rfl
  | cons m ms ih =>
    obtain ⟨hkey, hordered⟩ := h m List.mem_cons_self
    have hfirst : readMember s m.1 (ofJson m.2) = .ok (s.1, Json.insert m.1 m.2 s.2) := by
      rw [readMember, if_neg (by simpa using hkey), toJson_ofJson hordered]
      rfl
    rw [ofJsonMembers, List.foldlM_cons, hfirst]
    exact ih fun m hm => h m (List.mem_cons_of_mem _ hm)

theorem WellFormed.ofDocument_toJson (h : c.WellFormed depth) :
    ofDocument (ofJson c.toJson) = .ok c := by
  have hoptions : readMember (none, []) "compilerOptions" (ofJson c.options.toJson) =
      .ok (some c.options, []) := by
    rw [readMember, if_pos (by decide), once, h.options.ofDocument_toJson]
    rfl
  have hrest := foldlM_readMember (s := (some c.options, [])) fun m hm =>
    ⟨h.unknown m hm, (h.legible m hm).2⟩
  have hplaces : Json.insertAll [] c.rest = c.rest := Json.ofMembers_of_inOrder h.order
  have hread : (ofJson c.toJson).foldMembers readMember (none, []) =
      .ok (some c.options, c.rest) := by
    refine foldMembers_eq_ok_iff.mpr ⟨_, rfl, ?_⟩
    rw [ofJsonMembers, List.foldlM_cons, hoptions]
    rw [hplaces] at hrest
    exact hrest
  rw [ofDocument_eq, hread]
  rfl

theorem WellFormed.legible_toJson (h : c.WellFormed (depth + 1)) :
    c.toJson.Legible (depth + 4) := by
  refine .object fun m hm => ?_
  rcases List.mem_cons.mp hm with rfl | hm
  · exact h.options.legible_toJson
  · exact (h.legible m hm).1

/-- A configuration that has been read is recorded as a document that means the same: it reads back
as that configuration, whatever has no meaning here stands in it as it stood before, and the choices
are those that were named. -/
theorem recording_keeps_meaning {bytes : List UInt8} {c : Config} (h : ofBytes bytes = .ok c)
    (hreal : ∀ x, .real x ∈ c.toJson.numbers → (JsonNumber.real x).Survives) :
    ofBytes (Text.bytes c.toJson.render) = .ok c ∧
    ∃ loaded, Json.parse bytes = .ok loaded ∧
      (∀ key, key ≠ "compilerOptions" →
        c.rest.lookup key = loaded.get? key ∧ c.toJson.get? key = loaded.get? key) ∧
      c.toJson.get? "compilerOptions" = some c.options.toJson ∧
      let options := (loaded.get? "compilerOptions").getD (.object [])
      (∀ key ∉ CompilerOptions.keys, c.options.extra.lookup key = options.get? key ∧
        c.options.toJson.get? key = options.get? key) ∧
      StandsFor ScriptTarget.names .esNext (options.get? "target") c.options.target ∧
      StandsFor ModuleSystem.names .esNext (options.get? "module") c.options.module ∧
      StandsFor ModuleResolution.names .node (options.get? "moduleResolution")
        c.options.moduleResolution := by
  obtain ⟨hend, hdocument⟩ := read_eq_ok_iff.mp h
  obtain ⟨loaded, hloaded, hmeans, hformed⟩ := of_ofDocument (legible_ofBytes bytes) hdocument
  have hback : ofBytes (Text.bytes c.toJson.render) = .ok c := by
    refine read_eq_ok_iff.mpr ?_
    rw [ofBytes_render hformed.legible_toJson hreal]
    exact ⟨rfl, hformed.ofDocument_toJson⟩
  refine ⟨hback, loaded, read_eq_ok_iff.mpr ⟨hend, hloaded⟩, ?_, rfl, ?_, hmeans.options.target,
    hmeans.options.module, hmeans.options.moduleResolution⟩
  · intro key hkey
    have hget : c.toJson.get? key = c.rest.lookup key := by
      rw [toJson, Json.get?, Json.lookup_cons_eq_ite, if_neg hkey]
    exact ⟨hmeans.rest key hkey, hget.trans (hmeans.rest key hkey)⟩
  · intro key hkey
    have hextra := hmeans.options.extra key hkey
    exact ⟨hextra, (c.options.get?_toJson hkey).trans hextra⟩

/-- A document that names its target by another name, and a module system that there is not. -/
def olderNames : Json :=
  .object
    [("include", .array [.string "src", .object [("n", Json.nat 1)]]),
      ("compilerOptions", .object
        [("target", .string "eS6"), ("strict", .bool true), ("module", .string "Wasm"),
          ("depth", Json.int (-2))])]

/-- What `olderNames` says. -/
def olderConfig : Config where
  options :=
    { target := .es2015, extra := [("depth", Json.int (-2)), ("strict", .bool true)] }
  rest := [("include", .array [.string "src", .object [("n", Json.nat 1)]])]

theorem ofBytes_olderNames : ofBytes (Text.bytes olderNames.render) = .ok olderConfig := by
  have hlegible : olderNames.Legible depthLimit := by
    refine .object (List.forall_mem_cons.mpr
      ⟨.array ?_, List.forall_mem_singleton.mpr (.object ?_)⟩)
    · refine List.forall_mem_cons.mpr ⟨.string, List.forall_mem_singleton.mpr (.object ?_)⟩
      exact List.forall_mem_singleton.mpr (.number (by decide))
    · intro m hm
      simp only [List.mem_cons, List.not_mem_nil, or_false] at hm
      rcases hm with rfl | rfl | rfl | rfl
      · exact .string
      · exact .bool
      · exact .string
      · exact .number (by decide)
  have hnumbers : olderNames.numbers = [.natural 1, .negative 2] := rfl
  have hnone : ∀ x, .real x ∉ olderNames.numbers := by
    intro x hx
    rw [hnumbers] at hx
    simp at hx
  refine read_eq_ok_iff.mpr ?_
  rw [ofBytes_render hlegible fun x hx => absurd hx (hnone x)]
  exact ⟨rfl, rfl⟩

/-- `recording_keeps_meaning` for names that are not written again. -/
theorem olderNames_keeps_meaning :
    ofBytes (Text.bytes olderNames.render) = .ok olderConfig ∧
      ofBytes (Text.bytes olderConfig.toJson.render) = .ok olderConfig ∧
      olderConfig.options.toJson.get? "target" = some (.string "ES2015") ∧
      ∃ loaded, Json.parse (Text.bytes olderNames.render) = .ok loaded ∧
        olderConfig.toJson.get? "include" = loaded.get? "include" := by
  have hnumbers : olderConfig.toJson.numbers = [.negative 2, .natural 1] := rfl
  have hnone : ∀ x, .real x ∉ olderConfig.toJson.numbers := by
    intro x hx
    rw [hnumbers] at hx
    simp at hx
  obtain ⟨hback, loaded, hloaded, hrest, -⟩ := recording_keeps_meaning ofBytes_olderNames
    fun x hx => absurd hx (hnone x)
  exact ⟨ofBytes_olderNames, hback, rfl, loaded, hloaded, (hrest "include" (by decide)).2⟩

end Config

end CompilingProxy
