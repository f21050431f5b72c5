import CompilingProxy.Proofs.Gateway.Steady
import CompilingProxy.Proofs.Host.Memory

/-!
# Requests of the proxy's own

All that the proxy asks for by itself is marked, whatever the query of the address says already. A
request that is marked is passed through under every scope, so that none of them makes the proxy
compile again when it comes back.
-/

namespace CompilingProxy

open Text

/-! ### Marks -/

namespace Url

theorem parameterNames_append (front back : List Char) :
    parameterNames (front ++ '&' :: back) = parameterNames front ++ parameterNames back := by
  rw [parameterNames, splitOnChar_append_cons, List.filter_append, List.map_append,
    parameterNames, parameterNames]

theorem isMarked_marked (u : Url) : u.marked.isMarked := by
  have hmark : ((parameterNames (bypassParameter ++ "=true").toList).any fun name =>
      name.map lowerByte == bytes bypassParameter) = true := by decide +kernel
  rw [marked]
  split
  case isTrue hmarked => exact hmarked
  case isFalse =>
    dsimp only
    split
    case h_1 => exact hmark
    case h_2 => exact hmark
    case h_3 q _ _ =>
      rw [isMarked]
      dsimp only
      rw [parameterNames_append, List.any_append, hmark, Bool.or_true]

theorem marked_marked (u : Url) : u.marked.marked = u.marked := by
  rw [marked, if_pos u.isMarked_marked]

end Url

/-! ### Requests -/

namespace Header

/-- All headers of that name, in any case. -/
def named (name : String) (headers : List Header) : List Header :=
  headers.filter fun h => sameName h.1 name

theorem named_append (name : String) (front back : List Header) :
    named name (front ++ back) = named name front ++ named name back :=
  List.filter_append _ _

end Header

namespace Request

variable {r : Request}

/-- The request is one that the proxy makes by itself: no stored copy is the answer, and when it
comes back it is not compiled, whatever the scope is. -/
structure IsOwn (r : Request) : Prop where
  method : r.method = "GET"
  marked : r.isBypassed
  cacheControl : Header.named "cache-control" r.wireHeaders = [("cache-control", "no-cache")]
  pragma : Header.named "pragma" r.wireHeaders = [("pragma", "no-cache")]
  passes : ∀ scope, r.route scope = .passThrough

/-- Whatever headers a request has, one that refuses stored copies says so once in each way. -/
theorem named_wireHeaders (h : r.noCache) :
    Header.named "cache-control" r.wireHeaders = [("cache-control", "no-cache")] ∧
      Header.named "pragma" r.wireHeaders = [("pragma", "no-cache")] := by
  have hothers : ∀ name, (∀ h : Header, Header.sameName h.1 name →
      Header.sameName h.1 "cache-control" ∨ Header.sameName h.1 "pragma") →
      Header.named name (r.headers.filter fun h =>
        !Header.sameName h.1 "cache-control" && !Header.sameName h.1 "pragma") = [] := by
    intro name hname
    rw [Header.named, List.filter_filter, List.filter_eq_nil_iff]
    intro h _ hboth
    simp only [Bool.and_eq_true, Bool.not_eq_true'] at hboth
    obtain ⟨hsame, hcontrol, hpragma⟩ := hboth
    rcases hname h hsame with hcontrol' | hpragma'
    · cases hcontrol.symm.trans hcontrol'
    · cases hpragma.symm.trans hpragma'
  rw [wireHeaders, if_pos h, Header.named_append, Header.named_append, hothers _ fun _ => .inl,
    hothers _ fun _ => .inr]
  constructor <;> decide +kernel

theorem passes_of_isBypassed (h : r.isBypassed) (scope : String) :
    r.route scope = .passThrough := by
  rw [route, h, Bool.not_true, Bool.and_false, Bool.false_and, Bool.false_and,
    if_neg Bool.false_ne_true]

theorem isOwn_bypass (url : Url) : (bypass url).IsOwn where
  method := rfl
  marked := url.isMarked_marked
  cacheControl := (named_wireHeaders rfl).1
  pragma := (named_wireHeaders rfl).2
  passes := passes_of_isBypassed url.isMarked_marked

end Request

/-! ### Hosts -/

namespace Host

variable {h : Host}

def AsksOwn (h : Host) : Prop := ∀ r ∈ h.requests, r.IsOwn

theorem asksOwn_kept (net : Network) : Kept net AsksOwn where
  launches := by
    intro h h' hown hl
    rwa [AsksOwn, hl.requests]
  ingest := by
    intro h i hown _
    have hasks : ∀ r ∈ i.asks, r.IsOwn := by
      intro r hr
      rw [Ingestion.asks] at hr
      split at hr
      · cases hr
      · rw [List.mem_singleton.mp hr]
        exact Request.isOwn_bypass _
    obtain ⟨hl, outcome, hlaunches, -, heq⟩ := ingest_eq_settle net h i
    rw [AsksOwn, heq, (hl.settle_spec i.path outcome).2.1, hlaunches.requests]
    exact List.forall_mem_append.mpr ⟨hown, hasks⟩

theorem asksOwn_undertake (hown : h.AsksOwn) (t : Task) : (h.undertake t).AsksOwn := by
  cases t with
  | operation net op =>
    exact (asksOwn_kept net).perform (fun hown' _ => hown') (fun _ hown' => hown') hown op
  | diagnostics path =>
    obtain ⟨memo, hstate⟩ := h.diagnostics_state path
    rwa [undertake, hstate]
  | output path =>
    obtain ⟨memo, hstate⟩ := h.output_state path
    rwa [undertake, hstate]
  | outputs =>
    obtain ⟨memo, hstate⟩ := h.outputs_state
    rwa [undertake, hstate]

theorem asksOwn_undertakeAll (hown : h.AsksOwn) (history : List Task) :
    (h.undertakeAll history).AsksOwn := by
  induction history generalizing h with
  | nil => exact hown
  | cons t history ih => exact ih (asksOwn_undertake hown t)

end Host

/-! ### Runs -/

namespace Gateway

variable (g : Gateway) (net : Network)

/-- What has been asked of the network since then, the proxy has asked by itself. -/
def AsksOwn (s s' : GatewayState) : Prop :=
  ∃ asked, s'.requests = s.requests ++ asked ∧ ∀ r ∈ asked, r.IsOwn

namespace AsksOwn

variable {s s' s'' : GatewayState}

theorem refl (s : GatewayState) : AsksOwn s s := ⟨[], (List.append_nil _).symm, by simp⟩

theorem trans (h : AsksOwn s s') (h' : AsksOwn s' s'') : AsksOwn s s'' := by
  obtain ⟨asked, hasked, hown⟩ := h
  obtain ⟨asked', hasked', hown'⟩ := h'
  refine ⟨asked ++ asked', ?_, List.forall_mem_append.mpr ⟨hown, hown'⟩⟩
  rw [hasked', hasked, List.append_assoc]

theorem congr (h : AsksOwn s s') (hrequests : s''.requests = s'.requests) : AsksOwn s s'' := by
  rwa [AsksOwn, hrequests]

end AsksOwn

theorem asksOwn_ask (s : GatewayState) (url : Url) : AsksOwn s (s.ask net (.bypass url)).2 :=
  ⟨[.bypass url], rfl, by simpa using Request.isOwn_bypass url⟩

theorem asksOwn_loadConfig (s : GatewayState) : AsksOwn s (g.loadConfig net s).2 := by
  have hasked := asksOwn_ask net s g.configUrl
  rw [loadConfig]
  dsimp only
  split
  · exact hasked
  · split
    · exact hasked
    · split <;> exact hasked.congr rfl

theorem asksOwn_runPass {h : Host} (hown : h.AsksOwn) (url : Url) (x : Response) :
    (runPass net h url x).2.AsksOwn := by
  have hkept := Host.asksOwn_kept net
  have hlibraries := hkept.addLibraries hown (h.settings.options.lib.getD [])
  rw [← Host.addOptionLibraries] at hlibraries
  rw [runPass]
  split
  case h_1 heq =>
    rw [heq] at hlibraries
    exact hlibraries
  case h_2 h₁ heq =>
    rw [heq] at hlibraries
    have hroot := hkept.addRoot hlibraries (ModulePath.ofUrl url.source) url.source (some x)
    rw [← Host.addRootUrl] at hroot
    split
    case h_1 heq' =>
      rw [heq'] at hroot
      exact hroot
    case h_2 h₂ heq' =>
      rw [heq'] at hroot
      obtain ⟨memo, hstate⟩ := h₂.outputs_state
      rw [hstate]
      exact hroot

theorem asksOwn_compile (s : GatewayState) (url : Url) (x : Response) :
    AsksOwn s (g.compile net s url x).2 := by
  have hload := asksOwn_loadConfig g net s
  rw [compile]
  split
  case h_1 heq =>
    rw [heq] at hload
    exact hload
  case h_2 config s' heq =>
    rw [heq] at hload
    dsimp only
    have hnone : Host.AsksOwn { settings := g.passSettings config.options } :=
      fun r hr => by cases hr
    exact hload.trans ⟨_, rfl, asksOwn_runPass net hnone url x⟩

theorem asksOwn_respond (s : GatewayState) (url : Url) : AsksOwn s (g.respond net s url).2 := by
  have hasked := asksOwn_ask net s url.source
  rw [respond]
  dsimp only
  split
  case h_1 heq =>
    rw [heq] at hasked
    exact hasked
  case h_2 x s' heq =>
    rw [heq] at hasked
    split
    · exact hasked
    · split
      · exact hasked
      · have hcompiled := hasked.trans (asksOwn_compile g net s' url.source x)
        split <;> split <;> exact hcompiled.congr rfl

theorem asksOwn_compileRequest (s : GatewayState) (url : Url) :
    AsksOwn s (g.compileRequest net s url).2 := by
  have hresponded := asksOwn_respond g net s url
  rw [compileRequest]
  split
  case h_1 heq =>
    rw [heq] at hresponded
    exact hresponded
  case h_2 heq =>
    rw [heq] at hresponded
    exact hresponded

theorem asksOwn_serveAll (s : GatewayState) (asks : List Ask) :
    AsksOwn s (g.serveAll s asks) := by
  induction asks generalizing s with
  | nil => exact .refl s
  | cons a asks ih => exact (asksOwn_compileRequest g a.net s a.url).trans (ih _)

theorem asksOwn_check (s : GatewayState) (url : Url) :
    AsksOwn s (g.check net s url).2 := by
  have hasked := asksOwn_ask net s url
  rw [check]
  dsimp only
  split
  · exact hasked
  · exact hasked.trans (asksOwn_compile g net _ url.source _)

/-- A mark is found again in every query, is put there once and is no part of the address of a
source; and all that is asked for in a run of requests for scripts, or by a host whatever it is made
to do, is marked and passed through wherever it comes back. -/
theorem own_requests_pass_through :
    (∀ u : Url, u.marked.isMarked ∧ u.marked.marked = u.marked ∧ u.marked.source = u.source) ∧
      (∀ (g : Gateway) (s : GatewayState) (asks : List Ask), AsksOwn s (g.serveAll s asks)) ∧
      (∀ (g : Gateway) (net : Network) (s : GatewayState) (url : Url),
        AsksOwn s (g.check net s url).2) ∧
      ∀ (settings : HostSettings) (history : List Host.Task),
        (Host.undertakeAll { settings } history).AsksOwn := by
  refine ⟨fun u => ⟨u.isMarked_marked, u.marked_marked, Url.marked_source⟩, asksOwn_serveAll,
    asksOwn_check, fun settings history => ?_⟩
  exact Host.asksOwn_undertakeAll (fun r hr => by cases hr) history

end Gateway

end CompilingProxy
