import CompilingProxy.Proofs.Gateway.Pass

/-!
# Steady runs

A run of requests for scripts, over a network that may change from one request to the next. It is
steady if sources that change are marked as changed and the configuration stays the same; every
module that is compiled in it is then what the answer for the module's address compiles to.
-/

namespace CompilingProxy

/-! ### Networks -/

/-- What an answer says, wherever it was asked for. -/
def Response.content (x : Response) : Nat × String × List Header × List UInt8 :=
  (x.status, x.statusText, x.headers, x.body)

theorem CompiledModule.Renders.of_content {settings : HostSettings} {i : Ingestion}
    {x y : Response} {m : CompiledModule} (h : m.Renders settings i x)
    (hcontent : y.content = x.content) : y.isOk = x.isOk ∧ m.Renders settings i y := by
  obtain ⟨url, status, statusText, headers, body⟩ := x
  obtain ⟨url', status', statusText', headers', body'⟩ := y
  obtain ⟨rfl, rfl, rfl, rfl⟩ : status' = status ∧ statusText' = statusText ∧ headers' = headers ∧
      body' = body := by
    simpa [Response.content] using hcontent
  exact ⟨rfl, h⟩

/-- What a network answers is a matter of the source that it is asked for. -/
def Network.IsPlain (net : Network) : Prop :=
  ∀ r r' : Request, r.url.source = r'.url.source →
    (net r).map Response.content = (net r').map Response.content

/-- From one network to the other, sources do not go back in time, and a source that is marked as
unchanged is unchanged. -/
def Network.Precedes (net net' : Network) : Prop :=
  ∀ u x x' i i', net (.bypass u) = .ok x → net' (.bypass u) = .ok x' → x.isOk → x'.isOk →
    x.lastModified = some i → x'.lastModified = some i' → i.le i' ∧ (i = i' → x.body = x'.body)

/-- Nothing changes on a network that stays the same. -/
theorem Network.precedes_self (net : Network) : net.Precedes net := by
  intro u x x' i i' hx hx' _ _ hi hi'
  rw [hx] at hx'
  cases hx'
  rw [hi] at hi'
  cases hi'
  exact ⟨i.le_refl, fun _ => rfl⟩

/-- A request for a script, and the network as it is at the time. -/
structure Ask where
  net : Network
  url : Url

namespace Gateway

/-- Answers requests for scripts one after another. -/
def serveAll (g : Gateway) (s : GatewayState) : List Ask → GatewayState
  | [] => s
  | a :: asks => g.serveAll (g.compileRequest a.net s a.url).2 asks

/-- The script that is asked for can be had, and this is the pass that compiles it. -/
def Passes (g : Gateway) (a : Ask) (pass : CompiledPass) : Prop :=
  ∃ x s, a.net (.bypass a.url.source) = .ok x ∧ x.isOk ∧
    (g.compile a.net s a.url.source x).1 = .ok pass

/-- The configuration says the same of the options whenever it can be read. -/
def IsConfigured (g : Gateway) (options : CompilerOptions) (net : Network) : Prop :=
  ∀ s config, (g.loadConfig net s).1 = .ok config → config.options = options

/-- The address is one that is asked for or one of a module that is compiled for it. -/
def Names (g : Gateway) (asks : List Ask) (u : Url) : Prop :=
  ∃ a ∈ asks, u = a.url.source ∨ ∃ pass, g.Passes a pass ∧ ∃ m ∈ pass.modules, u = m.url

/-- What is assumed of a run. -/
structure IsSteady (g : Gateway) (options : CompilerOptions) (asks : List Ask) : Prop where
  plain : ∀ a ∈ asks, a.net.IsPlain
  inOrder : asks.Pairwise fun a b => a.net.Precedes b.net
  configured : ∀ a ∈ asks, g.IsConfigured options a.net
  emits : options.noEmitOnError = false
  /-- Source paths that are met are those of their addresses. -/
  located : ∀ a ∈ asks, ∀ pass, g.Passes a pass → ∀ m ∈ pass.modules, m.path.isLibrary = false →
    ∀ u, m.path.toUrl g.origin = .ok u → ModulePath.ofUrl u = m.path
  /-- Addresses are told apart by their texts. -/
  named : ∀ u v, g.Names asks u → g.Names asks v → u.text = v.text → u = v

/-! ### Modules of passes -/

/-- What passes for the options run on. -/
def passSettings (g : Gateway) (options : CompilerOptions) : HostSettings :=
  { origin := g.origin, libBase := g.libBase, options, read := g.read }

section

variable {g : Gateway} {options : CompilerOptions} {pass : CompiledPass}

/-- What is compiled is what a pass for the options compiles that are read for it. -/
theorem runPass_of_compile {net : Network} {s : GatewayState} {url : Url} {x : Response}
    (h : (g.compile net s url x).1 = .ok pass) :
    ∃ config h', (g.loadConfig net s).1 = .ok config ∧
      runPass net { settings := g.passSettings config.options } url x = (.ok pass, h') := by
  unfold compile at h
  split at h
  case h_1 => cases h
  case h_2 config s' hload =>
    refine ⟨config, ?_⟩
    dsimp only at h
    rw [← passSettings] at h
    cases hrun : runPass net { settings := g.passSettings config.options } url x with
    | mk outcome h' =>
      rw [hrun] at h
      cases outcome with
      | error e => cases h
      | ok pass' =>
        cases h
        exact ⟨h', by rw [hload], rfl⟩

theorem compile_eq_ok {net : Network} {s : GatewayState} {url : Url} {x : Response}
    (hconfigured : g.IsConfigured options net) (h : (g.compile net s url x).1 = .ok pass) :
    ∃ h', runPass net { settings := g.passSettings options } url x = (.ok pass, h') := by
  obtain ⟨config, h', hload, hrun⟩ := runPass_of_compile h
  rw [hconfigured s config hload] at hrun
  exact ⟨h', hrun⟩

theorem answer_eq_of_source_eq {net : Network} {u v : Url} {x : Response} (hplain : net.IsPlain)
    (hsource : u.source = v.source) (hanswer : net (.bypass u) = .ok x) :
    ∃ y, net (.bypass v) = .ok y ∧ y.content = x.content := by
  have hsame := hplain (.bypass u) (.bypass v)
    ((Url.marked_source.trans hsource).trans Url.marked_source.symm)
  rw [hanswer] at hsame
  cases hother : net (.bypass v) with
  | error e =>
    rw [hother] at hsame
    cases hsame
  | ok y =>
    rw [hother] at hsame
    exact ⟨y, rfl, (Except.ok.inj hsame).symm⟩

theorem renders_of_pass {a : Ask} {m : CompiledModule} (hconfigured : g.IsConfigured options a.net)
    (hemits : options.noEmitOnError = false) (hpass : g.Passes a pass) (hm : m ∈ pass.modules) :
    ∃ i x, m.Renders (g.passSettings options) i x := by
  obtain ⟨x, s, hx, hok, hcompile⟩ := hpass
  obtain ⟨h', hrun⟩ := compile_eq_ok hconfigured hcompile
  obtain ⟨i, y, -, -, hrenders⟩ := runPass_spec hemits hrun m hm
  exact ⟨i, y, hrenders⟩

/-- A module that is no library has the path of its address and is what the answer for the address
compiles to. -/
theorem module_of_pass {a : Ask} {m : CompiledModule} (hplain : a.net.IsPlain)
    (hconfigured : g.IsConfigured options a.net) (hemits : options.noEmitOnError = false)
    (hlocated : ∀ u, m.path.toUrl g.origin = .ok u → ModulePath.ofUrl u = m.path)
    (hpass : g.Passes a pass) (hm : m ∈ pass.modules) (hsource : m.path.isLibrary = false) :
    m.path = ModulePath.ofUrl m.url ∧ ∃ i x, a.net (.bypass m.url) = .ok x ∧ x.isOk ∧
      m.Renders (g.passSettings options) i x := by
  obtain ⟨x, s, hx, hok, hcompile⟩ := hpass
  obtain ⟨h', hrun⟩ := compile_eq_ok hconfigured hcompile
  obtain ⟨i, y, hi, hy, hrenders⟩ := runPass_spec hemits hrun m hm
  have hmurl := hrenders.url
  have hmpath := hrenders.path
  rcases hi with rfl | ⟨hnone, hurl⟩
  · rw [Url.source_source, Url.source_source] at hmurl
    rw [Url.source_source] at hmpath
    rw [Ingestion.answer] at hy
    obtain ⟨hanswer, hyok⟩ := eq_ok_of_sourceOf hy
    cases hanswer
    refine ⟨by rw [hmpath, hmurl], _, x, ?_, hyok, hrenders⟩
    rw [hmurl]
    exact hx
  · -- A module that is fetched from where it belongs, which may be written with a query.
    rw [Host.urlOf, ← hmpath, hsource, if_neg Bool.false_ne_true] at hurl
    have hjoined : m.path.toUrl g.origin = .ok i.url := by
      split at hurl
      · cases hurl
        assumption
      · cases hurl
    have hsegments : i.url.isOpaque = false := by
      refine Url.isOpaque_of_join ?_ (ModulePath.join_eq_of_toUrl hjoined)
      simpa [ModulePath.isLibrary] using hsource
    rw [Ingestion.answer, hnone] at hy
    obtain ⟨hanswer, hyok⟩ := eq_ok_of_sourceOf hy
    obtain ⟨y', hanswer', hcontent⟩ :=
      answer_eq_of_source_eq hplain Url.source_source.symm hanswer
    obtain ⟨hok', hrenders'⟩ := hrenders.of_content hcontent
    refine ⟨?_, i, y', ?_, hok'.trans hyok, hrenders'⟩
    · rw [hmurl, ← hlocated i.url hjoined, ModulePath.ofUrl, ModulePath.ofUrl,
        Url.pathText_source hsegments]
    · rw [hmurl]
      exact hanswer'

end

/-! ### Networks that stay the same -/

section

variable {g : Gateway} {net : Network} {a : Ask}

theorem loadConfig_fst (s s' : GatewayState) :
    (g.loadConfig net s).1 = (g.loadConfig net s').1 := by
  unfold loadConfig
  dsimp only [GatewayState.ask]
  split
  · rfl
  · split
    · rfl
    · split <;> split <;> rfl

theorem compile_fst (s s' : GatewayState) (url : Url) (x : Response) :
    (g.compile net s url x).1 = (g.compile net s' url x).1 := by
  have hload : (g.loadConfig net s).1 = (g.loadConfig net s').1 := loadConfig_fst s s'
  unfold compile
  cases h : g.loadConfig net s with
  | mk outcome t =>
    cases h' : g.loadConfig net s' with
    | mk outcome' t' =>
      rw [h, h'] at hload
      cases hload
      cases outcome with
      | error e => rfl
      | ok config => rfl

/-- The pass for a script that can be had. -/
def passOf? (g : Gateway) (a : Ask) : Option CompiledPass :=
  match a.net (.bypass a.url.source) with
  | .ok x => if x.isOk then (g.compile a.net ⟨.inMemory, []⟩ a.url.source x).1.toOption else none
  | .error _ => none

theorem passes_iff {pass : CompiledPass} : g.Passes a pass ↔ g.passOf? a = some pass := by
  rw [passOf?]
  constructor
  · rintro ⟨x, s, hx, hok, hpass⟩
    rw [hx]
    dsimp only
    rw [if_pos hok, compile_fst _ s, hpass]
    rfl
  · intro h
    split at h
    case h_1 x hx =>
      split at h
      case isTrue hok => 
        have := eq_ok_of_fst_toOption h
        exact ⟨x, _, hx, hok, congrArg Prod.fst this⟩
      case isFalse => cases h
    case h_2 => cases h

/-- The addresses that are asked for, and those of the modules that are compiled for them. -/
def addresses (g : Gateway) (asks : List Ask) : List Url :=
  asks.flatMap fun a => a.url.source :: ((g.passOf? a).map fun p => p.modules.map (·.url)).getD []

theorem mem_addresses {asks : List Ask} {u : Url} (h : g.Names asks u) : u ∈ g.addresses asks := by
  obtain ⟨a, ha, rfl | ⟨pass, hpass, m, hm, rfl⟩⟩ := h
  · exact List.mem_flatMap.mpr ⟨a, ha, List.mem_cons_self⟩
  · refine List.mem_flatMap.mpr ⟨a, ha, List.mem_cons_of_mem _ ?_⟩
    rw [passes_iff.mp hpass]
    exact List.mem_map_of_mem hm

/-- Whether the source paths of the modules are those of their addresses. -/
def areLocated (g : Gateway) (pass : CompiledPass) : Bool :=
  pass.modules.all fun m => m.path.isLibrary ||
    match m.path.toUrl g.origin with
    | .ok u => ModulePath.ofUrl u == m.path
    | .error _ => true

/-- A run on a network that stays the same is steady if its modules are where they belong. -/
theorem isSteady_of_unchanging {config : Config} {asks : List Ask} (hplain : net.IsPlain)
    (hnet : ∀ a ∈ asks, a.net = net)
    (hconfig : (g.loadConfig net ⟨.inMemory, []⟩).1.toOption = some config)
    (hemits : config.options.noEmitOnError = false)
    (hlocated : ∀ a ∈ asks, (g.passOf? a).all g.areLocated)
    (hnamed : ∀ u ∈ g.addresses asks, ∀ v ∈ g.addresses asks, u.text = v.text → u = v) :
    g.IsSteady config.options asks where
  plain a ha := by rwa [hnet a ha]
  inOrder := List.pairwise_of_forall_mem_list fun a ha b hb => by
    rw [hnet a ha, hnet b hb]
    exact net.precedes_self
  configured a ha s config' h := by
    rw [hnet a ha, loadConfig_fst s ⟨.inMemory, []⟩] at h
    rw [h] at hconfig
    cases hconfig
    rfl
  emits := hemits
  located a ha pass hpass m hm hsource u hu := by
    have hall := hlocated a ha
    rw [passes_iff.mp hpass] at hall
    have hm' := List.all_eq_true.mp hall m hm
    rw [hsource, hu, Bool.false_or] at hm'
    exact eq_of_beq hm'
  named u v hu hv := hnamed u (mem_addresses hu) v (mem_addresses hv)

end

end Gateway

end CompilingProxy
