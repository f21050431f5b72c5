import CompilingProxy.Grammar.Round
import CompilingProxy.Module.Path

/-!
# The tree of a module
-/

namespace CompilingProxy.Grammar

/-- The grammar of modules without elements. -/
def plainDialect : Thunk Dialect := Thunk.mk fun _ => dialect false

/-- The grammar of modules with elements. -/
def elementDialect : Thunk Dialect := Thunk.mk fun _ => dialect true

/-- The tree of a module. What cannot be read of it becomes nodes of errors. -/
def parse (kind : ScriptKind) (text : String) : Node :=
  let dialect := (if kind.readsElements then elementDialect else plainDialect).get
  match Reading.whole dialect text.toList with
  | some d => d.toNode dialect.tables.symbols
  | none => { label := .kind .error, start := 0, stop := text.utf8ByteSize }

end CompilingProxy.Grammar
