import CompilingProxy.Gateway.Front
import CompilingProxy.Proofs.Sketch
import CompilingProxy.Proofs.Url.Source

/-!
# Where requests go

The target of a request is read against the address of the origin server. It keeps the scheme, and
it keeps host and port unless it takes their place: two slashes at its front begin a host of its
own, and among local files a drive does.
-/

namespace CompilingProxy

open Text

namespace Url

variable {base u : Url}

/-- Whether a rooted reference takes the place of the host that it is read against. -/
def replacesHost (base : Url) (reference : String) : Bool :=
  match clean reference.toList with
  | [] => false
  | _ :: rest =>
    rest.head?.any (isSlash (isSpecial base.scheme)) ||
      (isFile base.scheme && (beginsWithDrive rest || base.drive?.isSome))

/-! ### Parts that stay -/

theorem scheme_eq_of_join {reference : String} (hrooted : beginsWith ['/'] reference.toList)
    (h : base.join reference = .ok u) : u.scheme = base.scheme :=
  join_rooted_yields (fun u => u.scheme = base.scheme) hrooted (fun _ _ _ _ _ => rfl) u h

theorem afterFile_eq_onBase {cs : List Char} (hslash : cs.head?.any (isSlash true) = false)
    (hfront : beginsWithDrive cs = false) (hbase : base.drive?.isNone) :
    afterFile (some base) ('/' :: cs) =
      .ok (withPath "file".toList base.authority [] ('/' :: cs)) := by
  have hfirst : isSlash true '/' = true := rfl
  have hnone : (some base).bind drive? = none := Option.isNone_iff_eq_none.mp hbase
  unfold afterFile
  dsimp only
  rw [if_pos hfirst, hslash, if_neg Bool.false_ne_true, hfront, hnone]
  rfl

/-- A rooted reference that does not take the place of the host leads to where the host is. -/
theorem authority_eq_of_join {reference : String} (hrooted : beginsWith ['/'] reference.toList)
    (hhost : base.replacesHost reference = false) (h : base.join reference = .ok u) :
    u.authority = base.authority := by
  obtain ⟨rest, hclean⟩ := clean_rooted hrooted
  rw [replacesHost, hclean] at hhost
  obtain ⟨hslash, hdrive⟩ := Bool.or_eq_false_iff.mp hhost
  rw [join_rooted hclean] at h
  split at h
  case isTrue => cases h
  case isFalse =>
    split at h
    case isTrue hfile =>
      have hspecial : isSpecial base.scheme = true := by rw [isSpecial, hfile, Bool.or_true]
      rw [hfile, Bool.true_and] at hdrive
      obtain ⟨hfront, hbase⟩ := Bool.or_eq_false_iff.mp hdrive
      rw [hspecial] at hslash
      rw [afterFile_eq_onBase hslash hfront (Option.isSome_eq_false_iff.mp hbase)] at h
      cases h
      rfl
    case isFalse =>
      rw [onPath_eq_onBase hslash] at h
      cases h
      rfl

theorem origin_eq_of_join {reference : String} (hrooted : beginsWith ['/'] reference.toList)
    (hhost : base.replacesHost reference = false) (h : base.join reference = .ok u) :
    u.origin = base.origin := by
  rw [origin, scheme_eq_of_join hrooted h, authority_eq_of_join hrooted hhost h, origin]

theorem origin_marked : u.marked.origin = u.origin := by
  rw [marked]
  split
  · rfl
  · dsimp only
    split <;> rfl

end Url

/-! ### Requests -/

theorem Request.origin_bypass {url : Url} : (Request.bypass url).url.origin = url.origin :=
  Url.origin_marked

namespace Gateway

variable {g : Gateway} {settings : Settings}

theorem originUrl_of_ofSettings (h : ofSettings settings = .ok g) :
    settings.originUrl = .ok g.origin := by
  obtain ⟨_, -, h⟩ := bind_eq_ok_iff.mp h
  obtain ⟨origin, horigin, h⟩ := bind_eq_ok_iff.mp h
  obtain ⟨_, -, h⟩ := bind_eq_ok_iff.mp h
  obtain ⟨_, -, h⟩ := bind_eq_ok_iff.mp h
  cases h
  exact horigin

theorem ofSettings_eq_ok {origin libBase configUrl : Url} (horigin : settings.originUrl = .ok origin)
    (hlib : settings.libBaseUrl = .ok libBase) (hscope : settings.scope.startsWith "/")
    (hpath : settings.configPath.startsWith "/")
    (hconfig : origin.join settings.configPath = .ok configUrl) :
    ofSettings settings = .ok { settings, origin, libBase, configUrl } := by
  rw [ofSettings, Settings.validate, Settings.rooted, Settings.rooted, if_pos hscope, if_pos hpath,
    horigin, hlib]
  dsimp only [bind, Except.bind]
  rw [hconfig]
  rfl

theorem join_of_requestUrl {target : String} {url : Url} (h : g.requestUrl target = .ok url) :
    g.origin.join target = .ok url := by
  rw [requestUrl] at h
  cases hjoin : g.origin.join target with
  | error e =>
    rw [hjoin] at h
    cases h
  | ok url' =>
    rw [hjoin] at h
    cases h
    rfl

/-- The network has been asked some more, first for something at that origin. -/
def AsksFirst (origin : List Char × Option (List Char × Option Nat)) (s s' : GatewayState) : Prop :=
  ∃ first rest, s'.requests = s.requests ++ first :: rest ∧ first.url.origin = origin

theorem loadConfig_requests (net : Network) (s : GatewayState) :
    ∃ asked, (g.loadConfig net s).2.requests = s.requests ++ asked := by
  refine ⟨[.bypass g.configUrl], ?_⟩
  rw [loadConfig]
  dsimp only
  split
  · rfl
  · split
    · rfl
    · split <;> rfl

theorem compile_requests (net : Network) (s : GatewayState) (url : Url) (response : Response) :
    ∃ asked, (g.compile net s url response).2.requests = s.requests ++ asked := by
  obtain ⟨asked, hasked⟩ := g.loadConfig_requests net s
  rw [compile]
  cases hload : g.loadConfig net s with
  | mk outcome s' =>
    rw [hload] at hasked
    cases outcome with
    | error e => exact ⟨asked, hasked⟩
    | ok config =>
      dsimp only at hasked ⊢
      rw [hasked, List.append_assoc]
      exact ⟨_, rfl⟩

theorem respond_asksFirst (net : Network) (s : GatewayState) (url : Url) :
    AsksFirst url.origin s (g.respond net s url).2 := by
  have hfirst : (Request.bypass url.source).url.origin = url.origin :=
    Request.origin_bypass.trans Url.origin_source
  rw [respond, GatewayState.ask]
  dsimp only
  cases net (.bypass url.source) with
  | error e => exact ⟨_, [], rfl, hfirst⟩
  | ok response =>
    dsimp only
    split
    · exact ⟨_, [], rfl, hfirst⟩
    · split
      · exact ⟨_, [], rfl, hfirst⟩
      · -- A pass asks for the configuration and for what the script depends on, after the script.
        obtain ⟨asked, hasked⟩ := g.compile_requests net
          { s with requests := s.requests ++ [.bypass url.source] } url.source response
        rw [List.append_assoc] at hasked
        split <;> split <;> exact ⟨_, asked, hasked, hfirst⟩

theorem handle_asksFirst (net : Network) (s : GatewayState) (r : Request) :
    AsksFirst r.url.origin s (g.handle net s r).2 := by
  rw [handle]
  split
  · rw [compileRequest]
    have h := g.respond_asksFirst net s r.url
    split
    case h_1 heq =>
      rw [heq] at h
      exact h
    case h_2 heq =>
      rw [heq] at h
      exact h
  · rw [forward, GatewayState.ask]
    dsimp only
    split
    case h_1 heq =>
      obtain ⟨-, rfl⟩ := Prod.mk.inj heq
      exact ⟨_, [], rfl, rfl⟩
    case h_2 heq =>
      obtain ⟨-, rfl⟩ := Prod.mk.inj heq
      exact ⟨_, [], rfl, rfl⟩

/-- The address that a target names has the scheme of the origin server, and unless the target takes
the place of the host it has its host and port too: what the request asks for first is there. -/
theorem requests_go_to_origin (hsettings : ofSettings settings = .ok g) {target : String}
    (hrooted : beginsWith ['/'] target.toList) {url : Url}
    (hurl : g.requestUrl target = .ok url) :
    ∃ origin, settings.originUrl = .ok origin ∧ url.scheme = origin.scheme ∧
      (origin.replacesHost target = false → url.origin = origin.origin ∧
        ∀ (net : Network) (s : GatewayState) (r : Request), r.url = url →
          AsksFirst origin.origin s (g.handle net s r).2) := by
  have hjoin := join_of_requestUrl hurl
  refine ⟨g.origin, originUrl_of_ofSettings hsettings, Url.scheme_eq_of_join hrooted hjoin,
    fun hhost => ?_⟩
  have horigin : url.origin = g.origin.origin := Url.origin_eq_of_join hrooted hhost hjoin
  refine ⟨horigin, fun net s r hr => ?_⟩
  have hfirst := g.handle_asksFirst net s r
  rwa [hr, horigin] at hfirst

/-! ### A gateway that can be led away -/

def portalSettings : Settings := { origin := "http://[::1]:8080", libBase := "http://[::1]/lib/" }

def portal : Gateway where
  settings := portalSettings
  origin := .ofHost "[::1]" (some 8080) [""]
  libBase := .ofHost "[::1]" none ["lib", ""]
  configUrl := .ofHost "[::1]" (some 8080) ["tsconfig.json"]

theorem portal_ofSettings : ofSettings portalSettings = .ok portal :=
  ofSettings_eq_ok (eq_ok_of_toOption (by decide +kernel)) (eq_ok_of_toOption (by decide +kernel))
    (String.startsWith_string_iff.mpr ⟨[], by decide⟩)
    (String.startsWith_string_iff.mpr ⟨"tsconfig.json".toList, by decide⟩)
    (eq_ok_of_toOption (by decide +kernel))

/-- `requests_go_to_origin` for a target that has two slashes behind its front. -/
theorem portal_requests_go_to_origin :
    ∃ url, portal.requestUrl "/a//[::2]/x" = .ok url ∧ url.origin = portal.origin.origin ∧
      ∀ (net : Network) (s : GatewayState),
        AsksFirst portal.origin.origin s (portal.handle net s (.get url)).2 := by
  have hurl : portal.requestUrl "/a//[::2]/x" =
      .ok (.ofHost "[::1]" (some 8080) ["a", "", "[::2]", "x"]) :=
    eq_ok_of_toOption (by decide +kernel)
  obtain ⟨origin, horigin, -, hstay⟩ :=
    requests_go_to_origin portal_ofSettings (by decide +kernel) hurl
  cases (originUrl_of_ofSettings portal_ofSettings).symm.trans horigin
  obtain ⟨hsame, hasks⟩ := hstay (by decide +kernel)
  exact ⟨_, hurl, hsame, fun net s => hasks net s _ rfl⟩

/-- Two slashes at the front of a target lead to whatever host is named behind them, and what the
request asks for first is there. -/
theorem double_slash_leaves_origin :
    ofSettings portalSettings = .ok portal ∧ beginsWith ['/'] "//[::2]/x".toList ∧
      ∃ url, portal.requestUrl "//[::2]/x" = .ok url ∧ url.origin ≠ portal.origin.origin ∧
        ∀ (net : Network) (s : GatewayState),
          ¬AsksFirst portal.origin.origin s (portal.handle net s (.get url)).2 := by
  have hurl : portal.requestUrl "//[::2]/x" = .ok (.ofHost "[::2]" none ["x"]) :=
    eq_ok_of_toOption (by decide +kernel)
  have haway : (Url.ofHost "[::2]" none ["x"]).origin ≠ portal.origin.origin := by decide
  refine ⟨portal_ofSettings, by decide +kernel, _, hurl, haway, fun net s => ?_⟩
  rintro ⟨first, rest, hrequests, hfirst⟩
  obtain ⟨first', rest', hrequests', hfirst'⟩ :=
    portal.handle_asksFirst net s (.get (.ofHost "[::2]" none ["x"]))
  rw [hrequests'] at hrequests
  obtain ⟨hsame, -⟩ := List.cons.inj (List.append_cancel_left hrequests)
  rw [hsame, hfirst] at hfirst'
  exact haway hfirst'.symm

end Gateway

end CompilingProxy
