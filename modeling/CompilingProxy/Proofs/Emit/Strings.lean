import CompilingProxy.Proofs.Emit.Enum
import CompilingProxy.Proofs.Text.Literal

/-!
# Strings in enums

A string that a member is initialised with is written as it is. The name of a member is written as
it stands between its quotes, with every backslash escaped, so that it is a different name if it
has escapes.
-/

namespace CompilingProxy

open Text

namespace Node

/-- A template without substitutions, as it is read: there are pieces of text in it unless nothing
stands between its marks. -/
def isSimpleTemplate (source : List Char) (n : Node) : Bool :=
  n.isA .templateString &&
    n.children.all (fun c => c.children.isEmpty &&
      (c.isWord "`" || c.isOneOf [.stringFragment, .escapeSequence])) &&
    (!n.namedChildren.isEmpty || n.text source == "``")

variable {source : List Char} {n : Node}

theorem isInert_of_piece (h : n.isWord "`" || n.isOneOf [.stringFragment, .escapeSequence]) :
    n.isInert := by
  obtain ⟨label, role, start, stop, missing, children⟩ := n
  cases label with
  | word text =>
    have htext : text = "`" := by simpa [isWord, isOneOf] using h
    subst htext
    rfl
  | kind k =>
    have hk : k = .stringFragment ∨ k = .escapeSequence := by simpa [isWord, isOneOf] using h
    rcases hk with rfl | rfl <;> rfl

theorem everywhere_isInert_of_isSimpleTemplate (h : n.isSimpleTemplate source) :
    n.everywhere isInert := by
  rw [isSimpleTemplate, Bool.and_eq_true, Bool.and_eq_true] at h
  obtain ⟨⟨htemplate, hpieces⟩, -⟩ := h
  refine everywhere_iff.mpr ⟨?_, fun c hc => ?_⟩
  · obtain ⟨label, role, start, stop, missing, children⟩ := n
    obtain rfl : label = .kind .templateString := by simpa [isA] using htemplate
    rfl
  · obtain ⟨hleaf, hpiece⟩ := Bool.and_eq_true_iff.mp (List.all_eq_true.mp hpieces c hc)
    refine everywhere_iff.mpr ⟨isInert_of_piece hpiece, fun d hd => ?_⟩
    rw [List.isEmpty_iff.mp hleaf] at hd
    cases hd

end Node

namespace Emit

/-- Which strings of an enum the rows keep: a member's name is another one exactly if there are
escapes in it, and what a member is initialised with denotes the same. -/
structure KeepsStrings (source : List Char) (d : Node) (rows : List EnumRow) : Prop where
  length_eq : rows.length = d.enumMembers.length
  key_iff : ∀ {i : Nat} {m : EnumMember} {r : EnumRow} {units : List Nat},
    d.enumMembers[i]? = some m → rows[i]? = some r →
      nameUnits? (m.key.text source).toList = some units →
        (literalUnits? (quoted r.key).toList = some units ↔
          '\\' ∉ (m.key.text source).toList)
  value : ∀ {i : Nat} {m : EnumMember} {r : EnumRow} {e : Node},
    d.enumMembers[i]? = some m → rows[i]? = some r → m.value = some e →
      e.isA .string ∨ e.isSimpleTemplate source → ∃ literal,
        (r.value = .inl (.string literal) ∨ r.value = .inr literal) ∧
          literalUnits? literal.toList = literalUnits? (e.text source).toList

section

variable {t : Setting} {f : Frame} {p : Place} {scope : List String} {n d : Node}
  {enumName : String} {rows : List EnumRow} {fuel : Nat}

/-- A template is written as it is, unless it is empty. -/
theorem Assigns.of_template {before : List EnumRow} {x : EnumValue ⊕ String}
    (h : Assigns t (visit t fuel) f enumName before (some n) x)
    (htemplate : n.isSimpleTemplate t.source) :
    x = .inr (n.text t.source) ∨ n.text t.source = "``" ∧ x = .inl (.string "\"\"") := by
  have hinert := Node.everywhere_isInert_of_isSimpleTemplate htemplate
  rw [Node.isSimpleTemplate, Bool.and_eq_true, Bool.and_eq_true] at htemplate
  obtain ⟨⟨hkind, -⟩, hempty⟩ := htemplate
  have hkind := Node.isA_iff.mp hkind
  by_cases hparts : n.namedChildren = []
  · have htext : n.text t.source = "``" := by simpa [hparts] using hempty
    have hdenotes : EnumValue.Denotes t.source (scopeOf enumName before) n
        (.string (quoted (n.unquoted t.source))) := .template hkind hparts
    have hquoted : quoted (n.unquoted t.source) = "\"\"" := by
      rw [Node.text] at htext
      rw [Node.unquoted, ← String.toList_ofList (l := slice t.source n.start n.stop), htext]
      decide
    rw [hquoted] at hdenotes
    exact .inr ⟨htext, h.of_denotes hdenotes⟩
  · cases h with
    | constant hc =>
      have hnone := hc.ofNode?_eq
      rw [EnumValue.ofNode?_eq_match, hkind] at hnone
      simp [hparts] at hnone
    | computed _ htext => exact .inl (by rw [htext.eq_text hinert])

theorem Tabulates.keepsStrings
    (h : Tabulates t (visit t fuel) f enumName [] d.enumMembers rows) :
    KeepsStrings t.source d rows where
  length_eq := h.length_eq
  key_iff := by
    intro i m r units hm hr hunits
    obtain ⟨hkey, -⟩ := h.row hm hr
    rw [Node.text, String.toList_ofList] at hunits ⊢
    rw [hkey, quoted, Node.unquoted, String.toList_ofList, String.toList_ofList]
    exact literalUnits?_quote_unquote_iff hunits
  value := by
    intro i m r e hm hr he htext
    obtain ⟨-, hvalue⟩ := h.row hm hr
    rw [he] at hvalue
    rcases htext with hstring | htemplate
    · exact ⟨_, .inl (hvalue.of_denotes (.string (Node.isA_iff.mp hstring))), rfl⟩
    · rcases hvalue.of_template htemplate with hx | ⟨hempty, hx⟩
      · exact ⟨_, .inr hx, rfl⟩
      · refine ⟨_, .inl hx, ?_⟩
        rw [hempty]
        decide

/-- An enum is compiled to a call with a row for each of its members, in which the strings that
members are initialised with denote the same, and so do the names without escapes. -/
theorem visit_keepsStrings {name : Node} (hd : n.container? = some d)
    (henum : d.isA .enumDeclaration) (hname : d.child? .name = some name) :
    FillsEnum t (visit t fuel) f d n (name.text t.source) (KeepsStrings t.source d)
      (visit t (fuel + 1) f p scope n) :=
  visit_fillsEnum hd henum hname fun _ h => h.keepsStrings

end

section

open Node

def enumOfTexts : Node :=
  enumOf 0 42
    [branch .enumAssignment
      [playing .name (literal 9 3), word 15 "=",
        playing .value <| branch .string
          [word 17 "'", leaf .stringFragment 18 19, leaf .escapeSequence 19 21,
            leaf .stringFragment 21 22, word 22 "'"]],
      word 23 ",",
      member 25 <| branch .templateString
        [word 29 "`", leaf .stringFragment 30 31, word 31 "`"],
      word 32 ",",
      member 34 (branch .templateString [word 38 "`", word 39 "`"])]

def textsInEnum : ModuleRecord :=
  .ofTree "m.ts" "enum E \x7b 'a b' = 'c\\'d', F = `e`, G = `` \x7d\n" (script 43 [enumOfTexts])

def textsOut : Except EditError Emission :=
  visit (settingOf textsInEnum) 4 ⟨[], ⟨0, 43⟩⟩ {} [] enumOfTexts

theorem enumOfTexts_keepsStrings :
    textsOut.map (·.edits) = .ok [.replace 0 42 ("var E;\n(function (E) \x7b\n" ++
      "    E[\"a b\"] = 'c\\'d';\n    E[E[\"F\"] = `e`] = \"F\";\n    E[\"G\"] = \"\";\n" ++
      "\x7d)(E || (E = \x7b\x7d));")] ∧
    FillsEnum (settingOf textsInEnum) (visit (settingOf textsInEnum) 3) ⟨[], ⟨0, 43⟩⟩
      enumOfTexts enumOfTexts "E" (KeepsStrings (settingOf textsInEnum).source enumOfTexts)
      textsOut := by
  have hname : (playing .name (leaf .identifier 5 6)).text (settingOf textsInEnum).source = "E" := by
    decide +kernel
  have hchild : enumOfTexts.child? .name = some (playing .name (leaf .identifier 5 6)) := rfl
  exact ⟨by decide +kernel, hname ▸ visit_keepsStrings (d := enumOfTexts) rfl rfl hchild⟩

/-- An escape in the name of a member is escaped once more. -/
def escapeInName : ModuleRecord :=
  .ofTree "m.ts" "enum E \x7b 'a\\'b' = 'c' \x7d\n" <|
    script 24
      [enumOf 0 23
        [branch .enumAssignment
          [playing .name <| branch .string
              [word 9 "'", leaf .stringFragment 10 11, leaf .escapeSequence 11 13,
                leaf .stringFragment 13 14, word 14 "'"],
            word 16 "=", playing .value (literal 18 1)]]]

theorem escapeInName_denotes_another :
    escapeInName.tree.hasError = false ∧
      escapeInName.emit escapeInName.analysis {} = .ok
        ("var E;\n(function (E) \x7b\n    E[\"a\\\\'b\"] = 'c';\n" ++
          "\x7d)(E || (E = \x7b\x7d));\n") ∧
      nameUnits? "'a\\'b'".toList = literalUnits? "\"a'b\"".toList ∧
      nameUnits? "'a\\'b'".toList ≠ literalUnits? "\"a\\\\'b\"".toList :=
  ⟨by decide, by decide +kernel, by decide, by decide⟩

end

end Emit

end CompilingProxy
