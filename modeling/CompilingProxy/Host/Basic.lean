import CompilingProxy.Program.Output
import CompilingProxy.Module.Dependency
import CompilingProxy.Module.Registry

/-!
# Compilation hosts

A host gathers the modules of one pass. Each path is ingested at most once: its ingestion is begun
when something first depends on it, it runs when its turn comes, and it ends in a record or in a
failure that stays. A module that was registered has a queue of what it depends on, which whoever
walks on from the module empties.
-/

namespace CompilingProxy

structure HostSettings where
  /-- What the paths of sources are read against. -/
  origin : Url
  /-- What the names of libraries are read against. -/
  libBase : Url
  options : CompilerOptions := {}
  /-- How many modules one walk may meet. -/
  limit : Nat := 1000000
  /-- What makes trees of the modules' texts. -/
  read : TreeReader := Grammar.parse

/-- An ingestion that was begun and has not run. -/
structure Ingestion where
  path : ModulePath
  url : Url
  /-- The answer to read, if it is there already. -/
  response : Option Response
deriving DecidableEq, Repr

/-- What stands for a module until its turn comes. -/
inductive Ticket where
  | ready (outcome : Except HostError ModuleRecord)
  | awaited (path : ModulePath)

/-- The tickets of what a module depends on. -/
abbrev TicketQueue := List (ModulePath × Ticket)

structure Host where
  settings : HostSettings
  registry : Registry := {}
  /-- The libraries that were handed in as text, each path once. -/
  extraLibraries : List ModuleRecord := []
  pending : List Ingestion := []
  failures : List (ModulePath × HostError) := []
  /-- The records that ingestions ended in. -/
  ingested : List ModuleRecord := []
  queues : List (ModulePath × TicketQueue) := []
  memo : AnalysisMemo := {}
  /-- All ingestions that were begun, first one first. -/
  begun : List Ingestion := []
  /-- What was asked of the network, first one first. -/
  requests : List Request := []

namespace Host

def extraLibrary? (h : Host) (path : ModulePath) : Option ModuleRecord :=
  h.extraLibraries.find? (·.path == path)

/-- The record that a path stands for. -/
def sourceFile? (h : Host) (path : ModulePath) : Option ModuleRecord :=
  match h.registry.get? path with
  | some r => some r
  | none => h.extraLibrary? path

def fileExists (h : Host) (path : ModulePath) : Bool :=
  h.registry.contains path || (h.extraLibrary? path).isSome

/-- The paths of all files, registered ones first. -/
def fileNames (h : Host) : List ModulePath :=
  h.registry.list ++ h.extraLibraries.map (·.path)

/-- The kind that a path's suffix tells. -/
def kindOf (h : Host) (path : ModulePath) : ScriptKind :=
  .ofPath path.text h.settings.options.allowJs

/-- The files as a program. -/
def program (h : Host) : Program :=
  ⟨h.settings.options, h.registry.records ++ h.extraLibraries⟩

/-- Where a path is fetched from. -/
def urlOf (h : Host) (path : ModulePath) : Except HostError Url :=
  match path.toUrl (if path.isLibrary then h.settings.libBase else h.settings.origin) with
  | .ok url => .ok url
  | .error e => .error (.unlocated path e.message)

/-! ### Tickets -/

/-- The ticket of a path. Its ingestion is begun if nothing is known of the path. -/
def ticket (h : Host) (i : Ingestion) : Ticket × Host :=
  match h.extraLibrary? i.path with
  | some r => (.ready (.ok r), h)
  | none =>
    match h.failures.lookup i.path with
    | some e => (.ready (.error e), h)
    | none =>
      match h.registry.get? i.path with
      | some r => (.ready (.ok r), h)
      | none =>
        if h.pending.any (·.path == i.path) then (.awaited i.path, h)
        else (.awaited i.path, { h with pending := h.pending ++ [i], begun := h.begun ++ [i] })

/-- The ticket of a path that is fetched from where it belongs. -/
def ticketOf (h : Host) (path : ModulePath) : Ticket × Host :=
  match h.urlOf path with
  | .ok url => h.ticket ⟨path, url, none⟩
  | .error e => (.ready (.error e), h)

def queueOf (h : Host) (path : ModulePath) : TicketQueue := (h.queues.lookup path).getD []

/-- Puts a ticket at the end of a module's queue unless there is one for its path. -/
def putTicket (h : Host) (path dependency : ModulePath) (t : Ticket) : Host :=
  let queue := h.queueOf path
  let queue := if (queue.lookup dependency).isSome then queue else queue ++ [(dependency, t)]
  { h with queues := (path, queue) :: h.queues.filter (·.1 != path) }

/-- Files a ticket for a dependency of a module unless the dependency is there already. -/
def file (h : Host) (path dependency : ModulePath) : Host :=
  if h.registry.contains dependency || (h.extraLibrary? dependency).isSome then h
  else
    let (t, h) := h.ticketOf dependency
    h.putTicket path dependency t

/-- Makes the specifiers of a record canonical and files tickets for all that it depends on. -/
def adopt (h : Host) (r : ModuleRecord) : Except HostError ModuleRecord × Host :=
  let d := r.discover
  let h := d.met.foldl (fun h x => h.file r.path x.path) h
  match r.edited d.edits d.paths h.settings.read with
  | .ok r => (.ok r, h)
  | .error e => (.error (.module (.badEdit e)), h)

/-! ### Ingestion -/

/-- The answer that an ingestion reads: the one that it came with, or one that is fetched now. -/
def fetch (net : Network) (h : Host) (i : Ingestion) : Except FetchError Response × Host :=
  match i.response with
  | some r =>
    if r.isOk then (.ok r, h)
    else (.error (.status i.url.source.text r.status r.statusText), h)
  | none =>
    let request := Request.bypass i.url
    (sourceOf i.url (net request), { h with requests := h.requests ++ [request] })

/-- The record of an answer. -/
def readResponse (h : Host) (i : Ingestion) (r : Response) : ModuleRecord :=
  let source := i.url.source
  .ofText i.path source (.ofPath i.path.text h.settings.options.allowJs) r.text (r.head source)
    h.settings.read

/-- Ends an ingestion, which is no longer begun from then on. -/
def settle (h : Host) (path : ModulePath) (outcome : Except HostError ModuleRecord) :
    Except HostError ModuleRecord × Host :=
  let h := { h with pending := h.pending.filter (·.path != path) }
  match outcome with
  | .ok r =>
    let (r, registry) := h.registry.register r
    (.ok r, { h with registry, ingested := h.ingested ++ [r] })
  | .error e => (.error e, { h with failures := (path, e) :: h.failures })

/-- Runs an ingestion to its end. -/
def ingest (net : Network) (h : Host) (i : Ingestion) : Except HostError ModuleRecord × Host :=
  match h.fetch net i with
  | (.error e, h) => h.settle i.path (.error (.fetch e))
  | (.ok response, h) =>
    let (outcome, h) := h.adopt (h.readResponse i response)
    h.settle i.path outcome

/-- What a ticket comes to when its turn has come. -/
def redeem (net : Network) (h : Host) : Ticket → Except HostError ModuleRecord × Host
  | .ready outcome => (outcome, h)
  | .awaited path =>
    match h.pending.find? (·.path == path) with
    | some i => h.ingest net i
    | none =>
      match h.failures.lookup path, h.ingested.find? (·.path == path) with
      | some e, _ => (.error e, h)
      | none, some r => (.ok r, h)
      | none, none => (.error (.missing path), h)

/-! ### Closures -/

/-- The tickets of dependencies that were not met before, with all of them as met. -/
def collect (h : Host) (queue : TicketQueue) :
    (seen : List ModulePath) → List ModulePath → List Ticket × List ModulePath × Host
  | seen, [] => ([], seen, h)
  | seen, d :: ds =>
    if seen.contains d then h.collect queue seen ds
    else
      let (t, h) := match queue.lookup d with
        | some t => (t, h)
        | none => h.ticketOf d
      let (ts, seen, h) := h.collect queue (d :: seen) ds
      (t :: ts, seen, h)

/-- Empties the queue of a module into tickets for all that it depends on. -/
def expand (h : Host) (seen : List ModulePath) (r : ModuleRecord) :
    List Ticket × List ModulePath × Host :=
  let queue := h.queueOf r.path
  let h := { h with queues := h.queues.filter (·.1 != r.path) }
  h.collect queue seen r.dependencies

/-- Redeems tickets one after another and puts those of what they lead to behind them, until none is
left or one fails. -/
def follow (net : Network) (root : ModulePath) :
    (fuel : Nat) → (seen : List ModulePath) → List Ticket → Host → Except HostError Unit × Host
  | _, _, [], h => (.ok (), h)
  | 0, _, _ :: _, h => (.error (.unbounded root), h)
  | fuel + 1, seen, t :: ts, h =>
    match h.redeem net t with
    | (.error e, h) => (.error e, h)
    | (.ok r, h) =>
      let (more, seen, h) := h.expand seen r
      follow net root fuel seen (ts ++ more) h

/-- Ingests all that a module depends on, directly or through others. -/
def close (net : Network) (h : Host) (r : ModuleRecord) : Except HostError ModuleRecord × Host :=
  let (tickets, seen, h) := h.expand [r.path] r
  match follow net r.path h.settings.limit seen tickets h with
  | (.ok (), h) => (.ok r, h)
  | (.error e, h) => (.error e, h)

/-! ### Operations -/

/-- Registers a module and all that it depends on. -/
def addRoot (net : Network) (h : Host) (path : ModulePath) (url : Url)
    (response : Option Response := none) : Except HostError ModuleRecord × Host :=
  let (t, h) := h.ticket ⟨path, url, response⟩
  match h.redeem net t with
  | (.error e, h) => (.error e, h)
  | (.ok r, h) => h.close net r

/-- Registers the module at an address. -/
def addRootUrl (net : Network) (h : Host) (url : Url) (response : Option Response := none) :
    Except HostError ModuleRecord × Host :=
  h.addRoot net (ModulePath.ofUrl url.source) url.source response

/-- Registers a library by its name. -/
def addLibrary (net : Network) (h : Host) (name : String) : Except HostError ModuleRecord × Host :=
  let path := ModulePath.library name
  match h.urlOf path with
  | .error e => (.error e, h)
  | .ok url => h.addRoot net path url

/-- Registers libraries one after another. -/
def addLibraries (net : Network) (h : Host) : List String → Except HostError Unit × Host
  | [] => (.ok (), h)
  | name :: names =>
    match h.addLibrary net name with
    | (.error e, h) => (.error e, h)
    | (.ok _, h) => h.addLibraries net names

/-- Registers the libraries that the options name. -/
def addOptionLibraries (net : Network) (h : Host) : Except HostError Unit × Host :=
  h.addLibraries net (h.settings.options.lib.getD [])

/-- A library that is handed in as text. -/
structure ExtraLibrary where
  name : String
  content : String
  version : Nat
deriving DecidableEq, Repr

/-- The record of a library that is handed in. A rooted name is a path, any other one a library's.
-/
def extraRecord (h : Host) (l : ExtraLibrary) : Except HostError ModuleRecord := do
  let path ←
    if l.name.startsWith "/" then (ModulePath.parse l.name).mapError .module
    else pure (ModulePath.library l.name)
  let url ← h.urlOf path
  return { ModuleRecord.ofText path url .ts l.content ⟨url, 200, none, none⟩ h.settings.read with
    version := l.version }

/-- Puts a record in the place of the one that its path has, or at the end. -/
def putRecord (records : List ModuleRecord) (r : ModuleRecord) : List ModuleRecord :=
  if records.any (·.path == r.path) then
    records.map fun old => if old.path == r.path then r else old
  else records ++ [r]

/-- Replaces all libraries that were handed in. -/
def setExtraLibraries (h : Host) (libraries : List ExtraLibrary) : Except HostError Unit × Host :=
  match libraries.mapM h.extraRecord with
  | .error e => (.error e, h)
  | .ok records => (.ok (), { h with extraLibraries := records.foldl putRecord [] })

/-- Replaces the text of a registered module. -/
def update (net : Network) (h : Host) (path : ModulePath) (text : String) :
    Except HostError ModuleRecord × Host :=
  match h.registry.get? path with
  | none => (.error (.missing path), h)
  | some known =>
    match h.adopt (.ofText path known.url known.kind text known.response h.settings.read) with
    | (.error e, h) => (.error e, h)
    | (.ok r, h) =>
      match h.registry.replace r with
      | .error e => (.error (.module e), h)
      | .ok (r, registry) => { h with registry }.close net r

end Host

end CompilingProxy
