import CompilingProxy.Host.Basic

/-!
# What a host's modules compile to
-/

namespace CompilingProxy

/-- What a module compiles to, and what is to be said of it. -/
structure CompiledModule where
  path : ModulePath
  url : Url
  /-- The compiled text; none for libraries and declarations, and for text with errors. -/
  compiled : Option String
  groups : List DiagnosticGroup
  response : ResponseHead

def CompiledModule.hasErrors (m : CompiledModule) : Bool :=
  m.groups.any fun g => g.diagnostics.any (·.isError)

/-- What all modules of a pass compile to, in the order of registration. -/
structure CompiledPass where
  modules : List CompiledModule
  /-- What is to be said of the options. -/
  options : DiagnosticGroup

namespace CompiledPass

def get? (p : CompiledPass) (path : ModulePath) : Option CompiledModule :=
  p.modules.find? (·.path == path)

/-- The module whose source stands at an address. -/
def atUrl? (p : CompiledPass) (url : Url) : Option CompiledModule :=
  p.modules.find? (·.url == url.source)

def report (p : CompiledPass) : Report := ⟨p.options :: p.modules.flatMap (·.groups)⟩

def compiledCount (p : CompiledPass) : Nat := (p.modules.filter (·.compiled.isSome)).length

def hasErrors (p : CompiledPass) : Bool :=
  p.options.diagnostics.any (·.isError) || p.modules.any (·.hasErrors)

/-- The pass without any compiled text. -/
def withoutOutput (p : CompiledPass) : CompiledPass :=
  { p with modules := p.modules.map fun m => { m with compiled := none } }

end CompiledPass

namespace Host

/-- Runs what may have to analyse files. -/
def analysing (h : Host) (act : Analyzing α) : α × Host :=
  let (a, memo) := act.run h.memo
  (a, { h with memo })

/-- The diagnostics of a file by groups. -/
def diagnostics (h : Host) (path : ModulePath) : Except HostError (List DiagnosticGroup) × Host :=
  match h.sourceFile? path with
  | none => (.error (.missing path), h)
  | some r =>
    let (groups, h) := h.analysing (h.program.diagnosticGroups r)
    (.ok groups, h)

/-- What a registered module compiles to. -/
def outputOf (h : Host) (r : ModuleRecord) : Except HostError CompiledModule × Host :=
  match h.analysing (h.program.output r) with
  | (.error e, h) => (.error (.module e), h)
  | (.ok out, h) =>
    let (groups, h) := h.analysing (h.program.diagnosticGroups r)
    (.ok ⟨r.path, r.url, out.map (·.text), groups, r.response⟩, h)

def output (h : Host) (path : ModulePath) : Except HostError CompiledModule × Host :=
  match h.registry.get? path with
  | none => (.error (.missing path), h)
  | some r => h.outputOf r

def outputsOf (h : Host) : List ModuleRecord → Except HostError (List CompiledModule) × Host
  | [] => (.ok [], h)
  | r :: rs =>
    match h.outputOf r with
    | (.error e, h) => (.error e, h)
    | (.ok m, h) =>
      match h.outputsOf rs with
      | (.error e, h) => (.error e, h)
      | (.ok ms, h) => (.ok (m :: ms), h)

/-- What all registered modules compile to: nothing at all if there is an error anywhere and the
options do not let that pass. -/
def outputs (h : Host) : Except HostError CompiledPass × Host :=
  match h.outputsOf h.registry.records with
  | (.error e, h) => (.error e, h)
  | (.ok modules, h) =>
    let pass : CompiledPass := ⟨modules, ⟨.compiler, h.settings.options.check⟩⟩
    let withheld := pass.hasErrors && h.settings.options.noEmitOnError
    (.ok (if withheld then pass.withoutOutput else pass), h)

end Host

end CompilingProxy
