import CompilingProxy.Config.Options
import CompilingProxy.Diagnostic.Basic

/-!
# Options that do not go together
-/

namespace CompilingProxy

/-- What is wrong with the options as a whole. -/
def CompilerOptions.check (o : CompilerOptions) : List Diagnostic :=
  let error (holds : Bool) (code : Nat) (text : String) : List Diagnostic :=
    if holds then [.overall .compiler .error code text] else []
  error (o.checkJs && !o.allowJs) 5052
      "Option 'checkJs' cannot be specified without specifying option 'allowJs'." ++
    error (o.outFile.isSome && !(o.module == .amd || o.module == .system)) 6131
      ("Cannot compile modules using option 'outFile' unless the '--module' flag is 'amd' or " ++
        "'system'.")

end CompilingProxy
