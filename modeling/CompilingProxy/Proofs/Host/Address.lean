import CompilingProxy.Proofs.Host.Provenance
import CompilingProxy.Proofs.Host.Reachability
import CompilingProxy.Proofs.Host.Report
import CompilingProxy.Proofs.Url.Written

/-!
# One module for each address

A host knows modules by their paths, and what becomes of them is kept by their addresses. Where the
addresses of paths say what the paths say, an address is that of one module at most: the path of a
source is the one that its address names, and libraries lie together at an origin of their own.
-/

namespace CompilingProxy

open Text

/-- Whether the path is written in addresses as it is. The name of a library may not be taken for a
scheme. -/
def ModulePath.isPlain (p : ModulePath) : Bool :=
  Url.isPlain p.text.toList && !(p.isLibrary && p.text.toList.contains ':')

namespace Host

variable {settings : HostSettings} {h : Host}

/-- The ingestion is one of a root that lies elsewhere than libraries, or one of a module that is
fetched from where it belongs. -/
def Places (settings : HostSettings) (i : Ingestion) : Prop :=
  i.path = ModulePath.ofUrl i.url.source ∧ i.url.origin ≠ settings.libBase.origin ∧
      i.url.isWritten ∨
    i.path.IsCanonical ∧ urlOf { settings } i.path = .ok i.url

/-- Sources lie elsewhere than libraries, and neither are local files. -/
structure SetsApart (settings : HostSettings) : Prop where
  apart : settings.origin.origin ≠ settings.libBase.origin
  remote : Url.isFile settings.origin.scheme = false
  remoteLibraries : Url.isFile settings.libBase.scheme = false
  written : settings.origin.isWritten
  writtenLibraries : settings.libBase.isWritten

/-- The record has the address of its path. -/
inductive IsAddressed (settings : HostSettings) (r : ModuleRecord) : Prop
  | source (hpath : r.path = ModulePath.ofUrl r.url) (hsource : r.path.isLibrary = false)
      (haway : r.url.origin ≠ settings.libBase.origin)
  | library (hlibrary : r.path.isLibrary) (horigin : r.url.origin = settings.libBase.origin)
      (hname : r.url.pathText = settings.libBase.folder ++ r.path.text.toList)

/-- Two records at one place of one origin have one path. -/
theorem IsAddressed.path_eq {r r' : ModuleRecord} (hr : IsAddressed settings r)
    (hr' : IsAddressed settings r') (horigin : r.url.origin = r'.url.origin)
    (hplace : r.url.pathText = r'.url.pathText) : r.path = r'.path := by
  cases hr with
  | source hpath hsource haway =>
    cases hr' with
    | source hpath' hsource' haway' =>
      rw [hpath, hpath', ModulePath.ofUrl, ModulePath.ofUrl, hplace]
    | library hlibrary hlib hname => exact absurd (horigin.trans hlib) haway
  | library hlibrary hlib hname =>
    cases hr' with
    | source hpath hsource haway => exact absurd (horigin.symm.trans hlib) haway
    | library hlibrary' hlib' hname' =>
      rw [hplace, hname'] at hname
      have htext := List.append_cancel_left hname
      exact congrArg ModulePath.mk (String.toList_inj.mp htext.symm)

section

variable {p : ModulePath} {url : Url}

/-- A library lies in the folder of libraries. -/
theorem library_of_urlOf (hapart : SetsApart settings) (hcanonical : p.IsCanonical)
    (hplain : p.isPlain) (hlibrary : p.isLibrary) (hurl : urlOf { settings } p = .ok url) :
    url.source = url ∧ url.isWritten ∧ url.origin = settings.libBase.origin ∧
      url.pathText = settings.libBase.folder ++ p.text.toList := by
  rw [ModulePath.isPlain, hlibrary, Bool.true_and, Bool.and_eq_true] at hplain
  obtain ⟨hplain, hcolon⟩ := hplain
  have hjoin := ModulePath.join_eq_of_toUrl (toUrl_of_urlOf hurl)
  rw [if_pos hlibrary] at hjoin
  obtain ⟨rest, htext⟩ := hcanonical.unrooted hlibrary
  obtain ⟨hsegmented, front, hfront, rfl⟩ := Url.join_plain_bare hapart.remoteLibraries htext
    (by decide) (by simpa using hcolon) hplain hjoin
  refine ⟨Url.source_atPath, Url.isWritten_atPath hapart.writtenLibraries fun hhostless => ?_, rfl,
    by rw [Url.pathText_atPath, hfront, List.cons_append]⟩
  exact Url.head?_folder hapart.writtenLibraries hhostless hsegmented hfront
    (Url.head?_plain hplain)

/-- A source lies at the origin of sources, where its path says. -/
theorem source_of_urlOf (hapart : SetsApart settings) (hcanonical : p.IsCanonical)
    (hplain : p.isPlain) (hsource : p.isLibrary = false) (hurl : urlOf { settings } p = .ok url) :
    url.source = url ∧ url.isWritten ∧ url.origin = settings.origin.origin ∧
      ModulePath.ofUrl url = p := by
  rw [ModulePath.isPlain, Bool.and_eq_true] at hplain
  obtain ⟨hplain, -⟩ := hplain
  have hjoin := ModulePath.join_eq_of_toUrl (toUrl_of_urlOf hurl)
  rw [hsource, if_neg Bool.false_ne_true] at hjoin
  obtain ⟨rest, htext, hbare, hnormal⟩ := hcanonical.rooted hsource
  obtain rfl := Url.join_plain_rooted hapart.remote htext hbare hplain hjoin
  rw [htext] at hplain hnormal
  refine ⟨Url.source_atPath, Url.isWritten_atPath hapart.written fun _ => ?_, rfl, ?_⟩
  · exact Url.head?_plain (Url.isPlain_of_rooted hplain)
  · rw [ModulePath.ofUrl, Url.pathText_atPath, hnormal, ← htext, String.ofList_toList]

end

/-- What is read from where it belongs, or as a root, has the address of its path if the path is
plain. -/
theorem isAddressed_of_reads (hapart : SetsApart settings) {i : Ingestion} {x : Response}
    {r : ModuleRecord} (hi : Places settings i) (hreads : r.Reads settings i x)
    (hplain : r.path.isPlain) : r.url.isWritten ∧ IsAddressed settings r := by
  obtain ⟨hpath, hurl, -⟩ := hreads.origin
  rw [hpath] at hplain
  rcases hi with ⟨hroot, haway, hwritten⟩ | ⟨hcanonical, hlocated⟩
  · refine ⟨hurl ▸ Url.isWritten_source hwritten, .source (by rw [hpath, hurl, hroot]) ?_ ?_⟩
    · rw [hpath, hroot, ModulePath.isLibrary, ModulePath.rooted_ofUrl]
      rfl
    · rwa [hurl, Url.origin_source]
  · cases hlibrary : i.path.isLibrary with
    | true =>
      obtain ⟨hsame, hwritten, horigin, hname⟩ :=
        library_of_urlOf hapart hcanonical hplain hlibrary hlocated
      rw [hsame] at hurl
      exact ⟨hurl ▸ hwritten, .library (by rw [hpath, hlibrary]) (by rw [hurl, horigin])
        (by rw [hurl, hname, hpath])⟩
    | false =>
      obtain ⟨hsame, hwritten, horigin, hnamed⟩ :=
        source_of_urlOf hapart hcanonical hplain hlibrary hlocated
      rw [hsame] at hurl
      exact ⟨hurl ▸ hwritten, .source (by rw [hpath, hurl, hnamed]) (by rw [hpath, hlibrary])
        (by rw [hurl, horigin]; exact hapart.apart)⟩

/-! ### Hosts that gather modules -/

/-- Whether the operation adds libraries, or a root that lies elsewhere. -/
def Operation.adds (settings : HostSettings) : Operation → Bool
  | .addRootUrl url _ => url.origin != settings.libBase.origin && url.isWritten
  | .addLibrary _ | .addLibraries _ | .addOptionLibraries => true
  | .addRoot .. | .update .. | .setExtraLibraries _ => false

/-- Everything that the host has was added so. -/
structure Gathers (settings : HostSettings) (h : Host) : Prop where
  sound : h.Sound
  queued : h.Queued
  provided : h.Provided (fun _ _ => True) settings (Places settings)

namespace Gathers

variable {net : Network}

theorem empty (settings : HostSettings) : Gathers settings { settings } :=
  ⟨sound_empty settings, queued_empty settings, .empty⟩

theorem addRoot (hg : h.Gathers settings) {path : ModulePath} {url : Url}
    {response : Option Response} (hroot : Places settings ⟨path, url, response⟩) :
    (h.addRoot net path url response).2.Gathers settings := by
  have heq : h.addRoot net path url response =
      ((h.addRoot net path url response).1, (h.addRoot net path url response).2) := rfl
  obtain ⟨-, hsound, hqueued, -⟩ := addRoot_spec hg.sound hg.queued heq
  exact ⟨hsound, hqueued, hg.provided.addRoot (fun _ _ _ => trivial)
    (fun ds i hds hi => .inr ⟨hds i.path hi.1, hi.2.2⟩) hroot hg.sound hg.queued⟩

theorem addLibrary (hg : h.Gathers settings) (name : String) :
    (h.addLibrary net name).2.Gathers settings := by
  unfold Host.addLibrary
  dsimp only
  split
  case h_1 => exact hg
  case h_2 url hurl =>
    rw [hg.provided.urlOf_eq] at hurl
    have hplaces : Places settings ⟨.library name, url, none⟩ := .inr ⟨.inl ⟨name, rfl⟩, hurl⟩
    exact hg.addRoot hplaces

theorem addLibraries (hg : h.Gathers settings) (names : List String) :
    (h.addLibraries net names).2.Gathers settings := by
  induction names generalizing h with
  | nil =>
    rw [addLibraries_nil]
    exact hg
  | cons name names ih =>
    have hadded : (h.addLibrary net name).2.Gathers settings := hg.addLibrary name
    rw [addLibraries_cons]
    split
    case h_1 heq =>
      rw [heq] at hadded
      exact hadded
    case h_2 heq =>
      rw [heq] at hadded
      exact ih hadded

theorem perform (hg : h.Gathers settings) {op : Operation} (hop : op.adds settings) :
    (h.perform net op).Gathers settings := by
  cases op with
  | addRootUrl url response =>
    obtain ⟨haway, hwritten⟩ := Bool.and_eq_true_iff.mp hop
    refine hg.addRoot (.inl ⟨?_, ?_, Url.isWritten_source hwritten⟩)
    · rw [Url.source_source]
    · rw [Url.origin_source]
      exact bne_iff_ne.mp haway
  | addLibrary name => exact hg.addLibrary name
  | addLibraries names => exact hg.addLibraries names
  | addOptionLibraries => exact hg.addLibraries _
  | addRoot path url response => cases hop
  | update path text => cases hop
  | setExtraLibraries libraries => cases hop

theorem performAll (hg : h.Gathers settings) {history : List (Network × Operation)}
    (hadds : ∀ x ∈ history, x.2.adds settings) : (h.performAll history).Gathers settings := by
  induction history generalizing h with
  | nil => exact hg
  | cons x history ih =>
    exact ih (hg.perform (hadds x List.mem_cons_self)) fun y hy =>
      hadds y (List.mem_cons_of_mem _ hy)

theorem source_eq (hg : h.Gathers settings) {r : ModuleRecord} (hr : r ∈ h.registry.records) :
    r.url.source = r.url := by
  obtain ⟨i, x, -, -, hreads⟩ := hg.provided.records r hr
  rw [hreads.origin.2.1, Url.source_source]

theorem isAddressed (hg : h.Gathers settings) (hapart : SetsApart settings)
    (hplain : ∀ p ∈ h.registry.list, p.isPlain) {r : ModuleRecord} (hr : r ∈ h.registry.records) :
    r.url.isWritten ∧ IsAddressed settings r := by
  obtain ⟨i, x, hi, -, hreads⟩ := hg.provided.records r hr
  exact isAddressed_of_reads hapart hi hreads (hplain _ (List.mem_map_of_mem hr))

/-- Records whose addresses are written the same have one path. -/
theorem path_eq (hg : h.Gathers settings) (hapart : SetsApart settings)
    (hplain : ∀ p ∈ h.registry.list, p.isPlain) {r r' : ModuleRecord}
    (hr : r ∈ h.registry.records) (hr' : r' ∈ h.registry.records)
    (htext : r.url.text = r'.url.text) : r.path = r'.path := by
  obtain ⟨hwritten, haddressed⟩ := hg.isAddressed hapart hplain hr
  obtain ⟨hwritten', haddressed'⟩ := hg.isAddressed hapart hplain hr'
  obtain ⟨horigin, hplace⟩ :=
    Url.eq_of_text_eq hwritten hwritten' (hg.source_eq hr) (hg.source_eq hr') htext
  exact haddressed.path_eq haddressed' horigin hplace

end Gathers

/-- Where all paths are plain, whatever roots and libraries a host was asked to add: the addresses of
modules of different paths are written differently, and a source is known by the path that its
address names. So the output at an address is that of one module, and no two modules of a pass are
kept under one key. -/
theorem one_module_for_each_address (hapart : SetsApart settings)
    {history : List (Network × Operation)} (hadds : ∀ x ∈ history, x.2.adds settings)
    (hplain : ∀ p ∈ (performAll { settings } history).registry.list, p.isPlain) :
    (∀ r ∈ (performAll { settings } history).registry.records,
      ∀ r' ∈ (performAll { settings } history).registry.records,
        r.url.text = r'.url.text → r.path = r'.path) ∧
      (∀ r ∈ (performAll { settings } history).registry.records, r.path.isLibrary = false →
        ModulePath.ofUrl r.url = r.path) ∧
      ∀ pass h', (performAll { settings } history).outputs = (.ok pass, h') →
        (∀ m ∈ pass.modules, pass.atUrl? m.url = some m) ∧
          (pass.modules.map fun m => m.url.source.text).Nodup := by
  have hg := (Gathers.empty settings).performAll hadds
  generalize performAll { settings } history = h at hg hplain
  refine ⟨fun r hr r' hr' => hg.path_eq hapart hplain hr hr', fun r hr hsource => ?_,
    fun pass h' heq => ?_⟩
  · cases (hg.isAddressed hapart hplain hr).2 with
    | source hpath => exact hpath.symm
    | library hlibrary =>
      rw [hsource] at hlibrary
      cases hlibrary
  · obtain ⟨hlist, hrecord⟩ := record_of_outputs hg.sound.nodup heq
    have hpaths : (pass.modules.map (·.path)).Nodup := by
      rw [hlist]
      exact hg.sound.nodup
    have hsource : ∀ m ∈ pass.modules, m.url.source = m.url := by
      intro m hm
      obtain ⟨r, hr, -, hurl, -⟩ := hrecord m hm
      rw [hurl, hg.source_eq hr]
    have honce : ∀ m ∈ pass.modules, ∀ m' ∈ pass.modules, m.url.text = m'.url.text → m = m' := by
      intro m hm m' hm' htext
      obtain ⟨r, hr, hpath, hurl, -⟩ := hrecord m hm
      obtain ⟨r', hr', hpath', hurl', -⟩ := hrecord m' hm'
      refine List.inj_on_of_nodup_map hpaths hm hm' ?_
      rw [hpath, hpath']
      exact hg.path_eq hapart hplain hr hr' (by rw [← hurl, htext, hurl'])
    refine ⟨fun m hm => ?_, List.Nodup.map_on (fun m hm m' hm' hkey => ?_) hpaths.of_map⟩
    · rw [CompiledPass.atUrl?, hsource m hm]
      have hsome : (pass.modules.find? (·.url == m.url)).isSome :=
        List.find?_isSome.mpr ⟨m, hm, beq_self_eq_true m.url⟩
      obtain ⟨found, hfound⟩ := Option.isSome_iff_exists.mp hsome
      have hurl : found.url = m.url := by simpa using List.find?_some hfound
      rw [hfound, honce found (List.mem_of_find?_eq_some hfound) m hm (congrArg Url.text hurl)]
    · rw [hsource m hm, hsource m' hm'] at hkey
      exact honce m hm m' hm' hkey

/-! ### Modules that depend on each other -/

/-- Sources and libraries at two hosts. -/
def spreadSettings : HostSettings :=
  { origin := .ofName "", libBase := .ofHost "cdn.test" none [""], read := .ofLines }

/-- The ring of scripts is asked for once at one of them and once at another one, where it cannot be
had, and then a library. -/
def spreadHistory : List (Network × Operation) :=
  [(ring, .addRootUrl (.ofName "a.ts") none), (.ofFiles [], .addRootUrl (.ofName "e.ts") none),
    (ring, .addLibrary "ES5")]

def spreadHost : Host := performAll { settings := spreadSettings } spreadHistory

def spreadPass : CompiledPass := spreadHost.outputs.1.toOption.get (by decide +kernel)

theorem spread_outputs : spreadHost.outputs = (.ok spreadPass, spreadHost.outputs.2) :=
  eq_ok_of_fst_toOption (Option.some_get _).symm

/-- `one_module_for_each_address` for the ring of scripts and its libraries. -/
theorem spread_modules_apart :
    spreadHost.registry.list =
        [⟨"/a.ts"⟩, ⟨"/b.ts"⟩, ⟨"/c.ts"⟩, ⟨"/d.ts"⟩, ⟨"lib.es5.d.ts"⟩, ⟨"lib.dom.d.ts"⟩] ∧
      (∀ r ∈ spreadHost.registry.records, ∀ r' ∈ spreadHost.registry.records,
        r.url.text = r'.url.text → r.path = r'.path) ∧
      (∀ m ∈ spreadPass.modules, spreadPass.atUrl? m.url = some m) ∧
      (spreadPass.modules.map fun m => m.url.source.text).Nodup := by
  have hapart : SetsApart spreadSettings :=
    ⟨by decide +kernel, by decide +kernel, by decide +kernel, by decide +kernel, by decide +kernel⟩
  have hadds : ∀ x ∈ spreadHistory, x.2.adds spreadSettings := by decide +kernel
  have hall := one_module_for_each_address hapart hadds (by decide +kernel)
  rw [← spreadHost] at hall
  obtain ⟨hurl, -, hpass⟩ := hall
  obtain ⟨hfound, hkeys⟩ := hpass _ _ spread_outputs
  exact ⟨by decide +kernel, hurl, hfound, hkeys⟩

/-! ### A module that is named with a query -/

/-- A script that names another one twice, with a query and without. -/
def queried : Network := .ofFiles
  [("/a.ts", "import './x.ts?raw';\nimport '/x.ts';\n"), ("/x.ts", "// none\n")]

def queriedHost : Host :=
  performAll { settings := spreadSettings } [(queried, .addRootUrl (.ofName "a.ts") none)]

def queriedPass : CompiledPass := queriedHost.outputs.1.toOption.get (by decide +kernel)

/-- A specifier keeps its query when it is made a path, and addresses of sources have none: the
script is registered twice, at one address, under which only one of the two is found and both would
be kept. -/
theorem queried_modules_share_address :
    (∃ r ∈ queriedHost.registry.records, ∃ r' ∈ queriedHost.registry.records,
      r.path ≠ r'.path ∧ r.url = r'.url) ∧
      queriedHost.outputs = (.ok queriedPass, queriedHost.outputs.2) ∧
      ∃ m ∈ queriedPass.modules, ∃ m' ∈ queriedPass.modules, m.path ≠ m'.path ∧
        queriedPass.atUrl? m'.url ≠ some m' ∧ m.url.source.text = m'.url.source.text := by
  refine ⟨by decide +kernel, eq_ok_of_fst_toOption (Option.some_get _).symm, ?_⟩
  have hfound : ∃ m ∈ queriedPass.modules, ∃ m' ∈ queriedPass.modules, m.path ≠ m'.path ∧
      (queriedPass.atUrl? m'.url).map (·.path) ≠ some m'.path ∧
      m.url.source.text = m'.url.source.text := by decide +kernel
  obtain ⟨m, hm, m', hm', hpaths, hother, hkey⟩ := hfound
  refine ⟨m, hm, m', hm', hpaths, fun hsame => hother ?_, hkey⟩
  rw [hsame]
  rfl

end Host

end CompilingProxy
