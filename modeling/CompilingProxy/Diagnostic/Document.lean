import CompilingProxy.Diagnostic.Basic
import CompilingProxy.Json.Shape

/-!
# Diagnostics as documents
-/

namespace CompilingProxy

open JsonDocument

/-! ### Writing -/

def Position.toJson (p : Position) : Json :=
  .object [("line", .nat p.line), ("column", .nat p.column)]

mutual

def Message.toJson : Message → Json
  | .mk text [] => .object [("text", .string text)]
  | .mk text (m :: ms) =>
    .object [("text", .string text), ("next", .array (m.toJson :: Message.allToJson ms))]

def Message.allToJson : List Message → List Json
  | [] => []
  | m :: ms => m.toJson :: Message.allToJson ms

end

/-- The members that say where something is. -/
def placeMembers (file : Option ModulePath) (start : Option Position) : List (String × Json) :=
  [("file", .optional (fun p => .string p.text) file), ("start", .optional Position.toJson start)]

def RelatedPlace.toJson (r : RelatedPlace) : Json :=
  .object (placeMembers r.file r.start ++ [("message", r.message.toJson)])

def Diagnostic.toJson (d : Diagnostic) : Json :=
  let related :=
    if d.related.isEmpty then [] else [("related", Json.list RelatedPlace.toJson d.related)]
  .object ([("kind", .string d.kind.name), ("category", .string d.category.name),
      ("code", .nat d.code)] ++ placeMembers d.file d.start ++
    [("message", d.message.toJson)] ++ related)

def DiagnosticGroup.toJson (g : DiagnosticGroup) : Json :=
  .object [("kind", .string g.kind.name), ("diagnostics", .list Diagnostic.toJson g.diagnostics)]

def Report.toJson (r : Report) : Json :=
  .object [("results", .list DiagnosticGroup.toJson r.groups)]

/-! ### Reading -/

def Position.ofDocument (d : JsonDocument) : Except JsonFault Position := do
  let fs ← Fields.ofDocument ["line", "column"] d
  return ⟨← fs.required "line" asCount, ← fs.required "column" asCount⟩

/-- Reads a message; the fuel bounds the levels of detail. -/
def Message.ofDocumentWithin : (fuel : Nat) → JsonDocument → Except JsonFault Message
  | 0, _ => .error .malformed
  | fuel + 1, d => do
    let fs ← Fields.ofDocument ["text", "next"] d
    let text ← fs.required "text" asString
    return .mk text (← fs.defaulted "next" [] (asList (ofDocumentWithin fuel)))

/-- Documents nest no deeper than their limit, and so do messages. -/
def Message.ofDocument (d : JsonDocument) : Except JsonFault Message :=
  Message.ofDocumentWithin depthLimit d

def ModulePath.ofDocument (d : JsonDocument) : Except JsonFault ModulePath :=
  (asString d).map ModulePath.mk

def RelatedPlace.ofDocument (d : JsonDocument) : Except JsonFault RelatedPlace := do
  let fs ← Fields.ofDocument ["file", "start", "message"] d
  return ⟨← fs.nullable "file" ModulePath.ofDocument, ← fs.nullable "start" Position.ofDocument,
    ← fs.required "message" Message.ofDocument⟩

def Diagnostic.ofDocument (d : JsonDocument) : Except JsonFault Diagnostic := do
  let fs ← Fields.ofDocument
    ["kind", "category", "code", "file", "start", "message", "related"] d
  return ⟨← fs.required "kind" (asOneOf DiagnosticKind.names),
    ← fs.required "category" (asOneOf Category.names), ← fs.required "code" asCount,
    ← fs.nullable "file" ModulePath.ofDocument, ← fs.nullable "start" Position.ofDocument,
    ← fs.required "message" Message.ofDocument,
    ← fs.defaulted "related" [] (asList RelatedPlace.ofDocument)⟩

def DiagnosticGroup.ofDocument (d : JsonDocument) : Except JsonFault DiagnosticGroup := do
  let fs ← Fields.ofDocument ["kind", "diagnostics"] d
  return ⟨← fs.required "kind" (asOneOf DiagnosticKind.names),
    ← fs.required "diagnostics" (asList Diagnostic.ofDocument)⟩

end CompilingProxy
