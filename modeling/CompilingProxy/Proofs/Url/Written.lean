import CompilingProxy.Proofs.Url.Plain

/-!
# Addresses that are written the same

Each part of an address can be read back from its text: the scheme ends at the first colon, what
stands between the two slashes and the path ends at the next slash, its host begins behind its last
`@`, and its port behind its last colon, if no bracket follows that. So the same text is that of one
source only.
-/

namespace CompilingProxy

open Text

theorem isDigit_of_mem_toString {p : Nat} {c : Char} (h : c ∈ (toString p).toList) : c.isDigit := by
  rw [Nat.toString_eq_ofList_toDigits, String.toList_ofList] at h
  exact Nat.isDigit_of_mem_toDigits (by decide) (by decide) h

theorem notMem_toString {p : Nat} {c : Char} (h : c.isDigit = false) : c ∉ (toString p).toList := by
  intro hc
  rw [isDigit_of_mem_toString hc] at h
  cases h

theorem eq_of_toString_eq {p q : Nat} (h : (toString p).toList = (toString q).toList) : p = q := by
  have hread := congrArg (fun cs => Nat.ofDigitChars 10 cs 0) h
  simpa only [Nat.toString_eq_ofList_toDigits, String.toList_ofList,
    Nat.ofDigitChars_ten_toDigits] using hread

namespace Authority

/-- Whether the parts can be told from the text: a host that has colons ends with a bracket. -/
def isWritten (a : Authority) : Bool :=
  !(Url.authorityText a).contains '/' && !a.host.contains '@' &&
    (!a.host.contains ':' || a.host.getLast? == some ']')

/-- What the text has behind the user. -/
def hostAndPort (a : Authority) : List Char :=
  a.host ++ match a.port with
    | some p => ':' :: (toString p).toList
    | none => []

variable {a b : Authority}

theorem isWritten_iff : a.isWritten ↔ '/' ∉ Url.authorityText a ∧ '@' ∉ a.host ∧
    (':' ∈ a.host → a.host.getLast? = some ']') := by
  simp [isWritten, and_assoc, imp_iff_not_or]

/-- No host that ends with a bracket is one with a port. -/
theorem ne_withPort {host host' : List Char} {p : Nat}
    (h : ':' ∈ host → host.getLast? = some ']') :
    host ≠ host' ++ ':' :: (toString p).toList := by
  rintro rfl
  have hlast := h (by simp)
  rw [List.getLast?_append_cons] at hlast
  rcases List.mem_cons.mp (List.mem_of_getLast? hlast) with hc | hc
  · cases hc
  · exact notMem_toString rfl hc

theorem eq_of_hostAndPort (ha : a.isWritten) (hb : b.isWritten)
    (h : a.hostAndPort = b.hostAndPort) : a.host = b.host ∧ a.port = b.port := by
  obtain ⟨-, -, ha⟩ := isWritten_iff.mp ha
  obtain ⟨-, -, hb⟩ := isWritten_iff.mp hb
  have hcolon : ∀ p : Nat, ':' ∉ (toString p).toList := fun _ => notMem_toString rfl
  rw [hostAndPort, hostAndPort] at h
  cases hp : a.port with
  | none =>
    cases hq : b.port with
    | none => simpa [hp, hq] using h
    | some q =>
      rw [hp, hq, List.append_nil] at h
      exact absurd h (ne_withPort ha)
  | some p =>
    cases hq : b.port with
    | none =>
      rw [hp, hq, List.append_nil] at h
      exact absurd h.symm (ne_withPort hb)
    | some q =>
      rw [hp, hq] at h
      have hread := congrArg (cutLast? ':') h
      rw [cutLast?_append (hcolon p), cutLast?_append (hcolon q)] at hread
      obtain ⟨hhost, hport⟩ := Prod.mk.inj (Option.some.inj hread)
      exact ⟨hhost, congrArg some (eq_of_toString_eq hport)⟩

theorem afterLast_authorityText (ha : a.isWritten) :
    afterLast '@' (Url.authorityText a) = a.hostAndPort := by
  obtain ⟨-, hhost, -⟩ := isWritten_iff.mp ha
  have hplain : '@' ∉ a.hostAndPort := by
    rw [hostAndPort, List.mem_append, not_or]
    refine ⟨hhost, ?_⟩
    split
    · simpa using notMem_toString rfl
    · exact List.not_mem_nil
  obtain ⟨userinfo, host, port⟩ := a
  cases userinfo with
  | none =>
    have htext : Url.authorityText ⟨none, host, port⟩ = hostAndPort ⟨none, host, port⟩ := rfl
    rw [htext, afterLast, cutLast?_of_notMem hplain]
  | some u =>
    have htext : Url.authorityText ⟨some u, host, port⟩ =
        u ++ '@' :: hostAndPort ⟨some u, host, port⟩ :=
      (List.append_assoc (u ++ ['@']) host _).trans (List.append_assoc u ['@'] _)
    rw [htext, afterLast, cutLast?_append hplain]

theorem eq_of_authorityText (ha : a.isWritten) (hb : b.isWritten)
    (h : Url.authorityText a = Url.authorityText b) : a.host = b.host ∧ a.port = b.port := by
  refine eq_of_hostAndPort ha hb ?_
  rw [← afterLast_authorityText ha, ← afterLast_authorityText hb, h]

end Authority

namespace Url

/-- Whether the parts can be told from the text. Without a host, what follows the scheme may not look
like one, and no segment `.` stands at the front, as that is written before an empty segment. -/
def isWritten (u : Url) : Bool :=
  !u.scheme.contains ':' &&
    match u.authority, u.path with
    | some a, .segments _ => a.isWritten
    | some _, .opaquely _ => false
    | none, .segments pieces => pieces.all (!·.contains '/') && pieces.head? != some ['.']
    | none, .opaquely text => text.head? != some '/'

/-- What the text of a source has behind the colon. -/
def address (u : Url) : List Char :=
  (match u.authority, u.path with
    | some a, _ => ['/', '/'] ++ authorityText a
    | none, .segments ([] :: _ :: _) => ['/', '.']
    | none, _ => []) ++
  u.pathText

/-- The path in what follows the colon, if there is no host. -/
def hostlessPath : List Char → List Char
  | '/' :: '.' :: '/' :: '/' :: rest => '/' :: '/' :: rest
  | cs => cs

section

variable {u v : Url}

theorem render_source (h : u.source = u) : u.render = u.scheme ++ ':' :: u.address := by
  have hquery : u.query = none := h ▸ source_query
  have hfragment : u.fragment = none := h ▸ source_fragment
  rw [render, hquery, hfragment, address]
  simp only [List.append_assoc, List.append_nil, List.singleton_append]
  rfl

theorem notMem_scheme (hu : u.isWritten) : ':' ∉ u.scheme := by
  have hscheme := (Bool.and_eq_true_iff.mp hu).1
  simpa using hscheme

theorem takeWhile_rooted {front path : List Char} (hfront : '/' ∉ front)
    (hpath : ∀ c ∈ path.head?, c = '/') : (front ++ path).takeWhile (· != '/') = front := by
  rw [List.takeWhile_append_of_pos fun c hc => bne_iff_ne.mpr (ne_of_mem_of_not_mem hc hfront)]
  cases path with
  | nil => rw [List.takeWhile_nil, List.append_nil]
  | cons c path =>
    rw [hpath c rfl]
    exact List.append_nil _

/-- Behind the slashes of a host follow its text and a path that is empty or begins with one. -/
theorem address_hosted {a : Authority} (ha : u.authority = some a) (hu : u.isWritten) :
    a.isWritten ∧ u.address = '/' :: '/' :: (authorityText a ++ u.pathText) ∧
      ∀ c ∈ u.pathText.head?, c = '/' := by
  obtain ⟨scheme, authority, path, query, fragment⟩ := u
  cases ha
  cases path with
  | opaquely text => simp [isWritten] at hu
  | segments pieces =>
    refine ⟨(Bool.and_eq_true_iff.mp hu).2, rfl, ?_⟩
    cases pieces with
    | nil => simp [pathText, UrlPath.render]
    | cons piece pieces => simp [pathText, UrlPath.render]

/-- Without a host, no two slashes follow the scheme, and the path can be read back. -/
theorem address_hostless (ha : u.authority = none) (hu : u.isWritten) :
    (∀ rest, u.address ≠ '/' :: '/' :: rest) ∧ hostlessPath u.address = u.pathText := by
  obtain ⟨scheme, authority, path, query, fragment⟩ := u
  cases ha
  have hpath := (Bool.and_eq_true_iff.mp hu).2
  cases path with
  | opaquely text =>
    have htext : text.head? ≠ some '/' := by simpa using hpath
    have haddress : address ⟨scheme, none, .opaquely text, query, fragment⟩ = text := rfl
    rw [haddress]
    refine ⟨fun rest heq => htext (by rw [heq]; rfl), ?_⟩
    unfold hostlessPath
    split
    case h_1 => exact absurd rfl htext
    case h_2 => rfl
  | segments pieces =>
    rw [Bool.and_eq_true, List.all_eq_true] at hpath
    obtain ⟨hplain, hdot⟩ := hpath
    match pieces with
    | [] => exact ⟨fun _ heq => (by cases heq), rfl⟩
    | [[]] => exact ⟨fun _ heq => (by cases heq), rfl⟩
    | [] :: next :: pieces => exact ⟨fun _ heq => (by cases heq), rfl⟩
    | (c :: cs) :: pieces =>
      have hslash : '/' ∉ c :: cs := by simpa using hplain _ List.mem_cons_self
      rw [List.mem_cons, not_or] at hslash
      obtain ⟨hc, hcs⟩ := hslash
      have haddress : address ⟨scheme, none, .segments ((c :: cs) :: pieces), query, fragment⟩ =
          '/' :: c :: (cs ++ pieces.flatMap ('/' :: ·)) := rfl
      rw [haddress]
      refine ⟨fun rest heq => hc (by cases heq; rfl), ?_⟩
      unfold hostlessPath
      split
      case h_1 rest heq =>
        simp only [List.cons.injEq, true_and] at heq
        obtain ⟨rfl, heq⟩ := heq
        cases cs with
        | nil => exact absurd rfl (bne_iff_ne.mp hdot)
        | cons d ds =>
          obtain ⟨rfl, -⟩ := List.cons.inj heq
          exact absurd List.mem_cons_self hcs
      case h_2 => rfl

theorem eq_of_text_eq (hu : u.isWritten) (hv : v.isWritten) (hsource : u.source = u)
    (hsource' : v.source = v) (h : u.text = v.text) :
    u.origin = v.origin ∧ u.pathText = v.pathText := by
  have hrender : u.render = v.render := String.ofList_injective h
  rw [render_source hsource, render_source hsource'] at hrender
  have hread := congrArg (cutFirst? ':') hrender
  rw [cutFirst?_append (notMem_scheme hu), cutFirst?_append (notMem_scheme hv)] at hread
  obtain ⟨hscheme, haddress⟩ := Prod.mk.inj (Option.some.inj hread)
  rw [origin, origin, hscheme]
  cases ha : u.authority with
  | none =>
    obtain ⟨hsingle, hpath⟩ := address_hostless ha hu
    cases hb : v.authority with
    | none => exact ⟨rfl, by rw [← hpath, haddress, (address_hostless hb hv).2]⟩
    | some b => exact absurd (haddress.trans (address_hosted hb hv).2.1) (hsingle _)
  | some a =>
    obtain ⟨ha, htext, hpath⟩ := address_hosted ha hu
    cases hb : v.authority with
    | none => exact absurd (haddress.symm.trans htext) ((address_hostless hb hv).1 _)
    | some b =>
      obtain ⟨hb, htext', hpath'⟩ := address_hosted hb hv
      rw [htext, htext', List.cons_inj_right, List.cons_inj_right] at haddress
      have hread := congrArg (List.takeWhile (· != '/')) haddress
      rw [takeWhile_rooted (Authority.isWritten_iff.mp ha).1 hpath,
        takeWhile_rooted (Authority.isWritten_iff.mp hb).1 hpath'] at hread
      obtain ⟨hhost, hport⟩ := Authority.eq_of_authorityText ha hb hread
      rw [hread] at haddress
      exact ⟨by rw [Option.map_some, Option.map_some, hhost, hport],
        List.append_cancel_left haddress⟩

/-! ### Addresses that are read against each other -/

theorem isWritten_source (hu : u.isWritten) : u.source.isWritten := by
  obtain ⟨scheme, authority, path, query, fragment⟩ := u
  cases path with
  | segments pieces => exact hu
  | opaquely text =>
    obtain ⟨hscheme, hpath⟩ := Bool.and_eq_true_iff.mp hu
    cases authority with
    | some a => cases hpath
    | none =>
      have htext : text.head? ≠ some '/' := by simpa using hpath
      -- Blanks are taken off the end, so the front stays as it is unless nothing is left.
      have hfront : (text.reverse.dropWhile (· = ' ')).reverse.head? ≠ some '/' := by
        intro hhead
        obtain ⟨back, hback⟩ : (text.reverse.dropWhile (· = ' ')).reverse <+: text := by
          simpa using List.reverse_prefix.mpr (List.dropWhile_suffix (l := text.reverse) (· = ' '))
        have hsame := congrArg List.head? hback
        rw [List.head?_append, hhead] at hsame
        exact htext hsame.symm
      exact Bool.and_eq_true_iff.mpr ⟨hscheme, bne_iff_ne.mpr hfront⟩

theorem isWritten_atPath {text : List Char} (hu : u.isWritten)
    (hdot : u.authority = none → (splitOnChar '/' text).head? ≠ some ['.']) :
    (u.atPath text).isWritten := by
  obtain ⟨scheme, authority, path, query, fragment⟩ := u
  obtain ⟨hscheme, hpath⟩ := Bool.and_eq_true_iff.mp hu
  refine Bool.and_eq_true_iff.mpr ⟨hscheme, ?_⟩
  cases authority with
  | none =>
    refine Bool.and_eq_true_iff.mpr ⟨List.all_eq_true.mpr fun s hs => ?_, bne_iff_ne.mpr (hdot rfl)⟩
    simpa using notMem_of_mem_splitOnChar hs
  | some a =>
    cases path with
    | opaquely text => cases hpath
    | segments pieces => exact hpath

theorem head?_plain {text : List Char} (h : isPlain text) :
    (splitOnChar '/' text).head? ≠ some ['.'] := by
  intro hhead
  have hdot := ((isPlain_iff.mp h).2 _ (List.mem_of_head? hhead)).1
  cases hdot

/-- What is named in a folder stands behind the same segment as what the folder is the one of. -/
theorem head?_folder {front name : List Char} (hu : u.isWritten) (ha : u.authority = none)
    (hsegmented : u.isOpaque = false) (hfront : u.folder = '/' :: front)
    (hname : (splitOnChar '/' name).head? ≠ some ['.']) :
    (splitOnChar '/' (front ++ name)).head? ≠ some ['.'] := by
  obtain ⟨front', hfolder, hcases⟩ := folder_spec hsegmented
  obtain rfl : front' = front := by simpa [hfolder] using hfront
  rcases hcases with rfl | ⟨outer, last, rfl, htext⟩
  · exact hname
  · obtain ⟨scheme, authority, path, query, fragment⟩ := u
    cases ha
    have hpath := (Bool.and_eq_true_iff.mp hu).2
    cases path with
    | opaquely text => cases hsegmented
    | segments pieces =>
      rw [Bool.and_eq_true, List.all_eq_true] at hpath
      obtain ⟨hplain, hdot⟩ := hpath
      cases pieces with
      | nil => cases htext
      | cons piece pieces =>
        have hpiece : piece ++ pieces.flatMap ('/' :: ·) = outer ++ '/' :: last :=
          (List.cons.inj htext).2
        have hsplit : splitOnChar '/' (outer ++ '/' :: last) = piece :: pieces := by
          rw [← hpiece]
          refine splitOnChar_pieces (by simpa using hplain piece List.mem_cons_self) fun s hs => ?_
          simpa using hplain s (List.mem_cons_of_mem _ hs)
        obtain ⟨first, rest, houter, -⟩ := splitOnChar_spec '/' outer
        rw [splitOnChar_append_cons, houter] at hsplit
        rw [List.append_assoc, List.singleton_append, splitOnChar_append_cons, houter]
        obtain ⟨rfl, -⟩ := List.cons.inj hsplit
        exact bne_iff_ne.mp hdot

end

end Url

end CompilingProxy
