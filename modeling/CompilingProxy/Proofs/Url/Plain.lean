import CompilingProxy.Proofs.Url.Path

/-!
# Plain references

The path of an address writes a plain text as it is, so that the address that the text leads to
says what the text says. What is rooted takes the place of the path that it is read against,
anything else the place of its last segment.
-/

namespace CompilingProxy

open Text

namespace Url

/-- Whether a path writes the character as it is and takes it for no slash. -/
def isPlainCharacter (c : Char) : Bool :=
  0x20 ≤ c.val && c.val < 0x7f && !Percent.path.contains c && c != '\\'

/-- Whether a path writes the text as it is, segment by segment. -/
def isPlain (cs : List Char) : Bool :=
  cs.all isPlainCharacter &&
    (splitOnChar '/' cs).all fun segment => !isSingleDot segment && !isDoubleDot segment

section

variable {c : Char} {cs path : List Char}

theorem isPlainCharacter_iff :
    isPlainCharacter c ↔ 0x20 ≤ c.val ∧ c.val < 0x7f ∧ c ∉ Percent.path ∧ c ≠ '\\' := by
  simp [isPlainCharacter, and_assoc]

theorem encodeChar_plain (h : isPlainCharacter c) : Percent.encodeChar Percent.path c = [c] := by
  obtain ⟨hlow, hhigh, hset, -⟩ := isPlainCharacter_iff.mp h
  rw [Percent.encodeChar, if_pos ⟨hlow, hhigh, by simpa using hset⟩]

theorem unmarked_plain (h : cs.all isPlainCharacter) : Unmarked cs := by
  intro c hc
  obtain ⟨-, -, hset, -⟩ := isPlainCharacter_iff.mp (List.all_eq_true.mp h c hc)
  rw [isMark, Bool.or_eq_false_iff, beq_eq_false_iff_ne, beq_eq_false_iff_ne]
  constructor <;> rintro rfl <;> exact hset (by decide)

/-- No plain character is cleaned away. -/
theorem clean_plain (h : cs.all isPlainCharacter) : clean cs = cs := by
  have hkept : ∀ c ∈ cs, ¬c.val ≤ 0x20 := by
    intro c hc hlow
    obtain ⟨hleast, -, hset, -⟩ := isPlainCharacter_iff.mp (List.all_eq_true.mp h c hc)
    have hspace : c = ' ' := Char.ext (UInt32.le_antisymm hlow hleast)
    exact hset (hspace ▸ by decide)
  have hfront : ∀ ds : List Char, ds ⊆ cs → ds.dropWhile (fun c => decide (c.val ≤ 0x20)) = ds := by
    intro ds hds
    cases ds with
    | nil => rfl
    | cons d ds =>
      exact List.dropWhile_cons_of_neg (by simpa using hkept d (hds List.mem_cons_self))
  rw [clean, trimBy, hfront cs (List.Subset.refl _), hfront _ (by simp), List.reverse_reverse]
  refine List.filter_eq_self.mpr fun c hc => ?_
  have hkept := hkept c hc
  have hne : ∀ d : Char, d.val ≤ 0x20 → c ≠ d := fun d hd heq => hkept (heq ▸ hd)
  simp [hne '\t' (by decide), hne '\n' (by decide), hne '\r' (by decide)]

/-! ### Walks -/

theorem addChars_plain {start : Nat} (h : cs.all isPlainCharacter) :
    addChars false path start cs = (path ++ cs, start) := by
  induction cs generalizing path with
  | nil => rw [addChars, List.append_nil]
  | cons c cs ih =>
    rw [List.all_cons, Bool.and_eq_true] at h
    rw [addChars, Bool.false_and, if_neg Bool.false_ne_true]
    dsimp only
    rw [encodeChar_plain h.1, ih h.2, List.append_assoc, List.singleton_append]

theorem Walk.add_plain {isLast : Bool} {w : Walk} {segment : List Char}
    (h : segment.all isPlainCharacter) (hsingle : isSingleDot segment = false)
    (hdouble : isDoubleDot segment = false) :
    (w.add false isLast segment).path = w.path ++ segment ++ if isLast then [] else ['/'] := by
  rw [Walk.add]
  dsimp only
  rw [addChars_plain h]
  dsimp only
  rw [List.drop_left, hdouble, hsingle]
  rfl

/-- A walk along plain segments adds them as they are. -/
theorem Walk.addAll_plain {w : Walk} {segment : List Char} {segments : List (List Char)}
    (h : ∀ s ∈ segment :: segments, s.all isPlainCharacter ∧ isSingleDot s = false ∧
      isDoubleDot s = false) :
    (w.addAll false (segment :: segments)).path =
      w.path ++ (segment ++ segments.flatMap ('/' :: ·)) := by
  obtain ⟨hplain, hsingle, hdouble⟩ := h segment List.mem_cons_self
  induction segments generalizing w segment with
  | nil =>
    rw [Walk.addAll, Walk.add_plain hplain hsingle hdouble]
    simp
  | cons next segments ih =>
    obtain ⟨hplain', hsingle', hdouble'⟩ := h next (by simp)
    rw [Walk.addAll, ih (fun s hs => h s (List.mem_cons_of_mem _ hs)) hplain' hsingle' hdouble',
      Walk.add_plain hplain hsingle hdouble]
    · simp
    · simp

theorem writtenSegments_plain {special : Bool} (h : cs.all isPlainCharacter) :
    writtenSegments special cs = splitOnChar '/' cs := by
  have hsame : cs.map (fun c => if c = '\\' then '/' else c) = cs.map id :=
    List.map_congr_left fun c hc =>
      if_neg (isPlainCharacter_iff.mp (List.all_eq_true.mp h c hc)).2.2.2
  rw [writtenSegments, hsame, List.map_id, ite_self]

theorem isPlain_iff : isPlain cs ↔ cs.all isPlainCharacter ∧
    ∀ s ∈ splitOnChar '/' cs, isSingleDot s = false ∧ isDoubleDot s = false := by
  simp [isPlain]

theorem isPlain_of_rooted (h : isPlain ('/' :: cs)) : isPlain cs := by
  obtain ⟨hall, hdots⟩ := isPlain_iff.mp h
  rw [List.all_cons, Bool.and_eq_true] at hall
  rw [splitOnChar, if_pos rfl] at hdots
  exact isPlain_iff.mpr ⟨hall.2, fun s hs => hdots s (List.mem_cons_of_mem _ hs)⟩

/-- Outside of local files, a path goes on with plain text as it is. -/
theorem walk_plain {scheme : List Char} (hremote : isFile scheme = false) (h : isPlain cs) :
    (walk scheme path cs).path = path ++ cs := by
  obtain ⟨hall, hdots⟩ := isPlain_iff.mp h
  have hwhole : cs.takeWhile (!isMark ·) = cs :=
    List.takeWhile_eq_self_iff.mpr fun c hc => by rw [unmarked_plain hall c hc]; rfl
  rw [walk, hwhole, writtenSegments_plain hall, hremote]
  cases hsplit : splitOnChar '/' cs with
  | nil => exact absurd hsplit splitOnChar_ne_nil
  | cons segment segments =>
    rw [hsplit] at hdots
    rw [Walk.addAll_plain, eq_of_splitOnChar hsplit]
    intro s hs
    have hsub : s ⊆ cs := subset_of_mem_splitOnChar (hsplit ▸ hs)
    exact ⟨List.all_eq_true.mpr fun c hc => List.all_eq_true.mp hall c (hsub hc), hdots s hs⟩

end

/-! ### References -/

section

variable {base u : Url} {reference : String} {text : List Char}

/-- The address at the same host whose path is the text behind a slash. -/
def atPath (base : Url) (text : List Char) : Url :=
  { base with path := .segments (splitOnChar '/' text), query := none, fragment := none }

theorem source_atPath : (base.atPath text).source = base.atPath text := rfl

theorem pathText_atPath : (base.atPath text).pathText = '/' :: text := by
  obtain ⟨segment, segments, hsplit, htext, -⟩ := splitOnChar_spec '/' text
  rw [pathText, atPath, hsplit, ← htext]
  rfl

theorem withPath_plain {front : List Char} (hremote : isFile base.scheme = false)
    (h : isPlain text) :
    withPath base.scheme base.authority ('/' :: front) text = base.atPath (front ++ text) := by
  have hend : text.dropWhile (!isMark ·) = [] :=
    List.dropWhile_eq_nil_iff.mpr fun c hc => by rw [unmarked_plain (isPlain_iff.mp h).1 c hc]; rfl
  rw [withPath, hend, walk_plain hremote h, hremote]
  rfl

/-- A plain reference with one slash at its front leads to where it says, at the host that it is
read against. -/
theorem join_plain_rooted {rest : List Char} (hremote : isFile base.scheme = false)
    (htext : reference.toList = '/' :: rest) (hbare : beginsWith ['/'] rest = false)
    (hplain : isPlain reference.toList) (h : base.join reference = .ok u) :
    u = base.atPath rest := by
  obtain ⟨hall, -⟩ := isPlain_iff.mp hplain
  have hslash : rest.head?.any (isSlash (isSpecial base.scheme)) = false := by
    cases rest with
    | nil => rfl
    | cons c rest =>
      have hc : c ≠ '/' := by
        rintro rfl
        cases hbare
      have hback : c ≠ '\\' :=
        (isPlainCharacter_iff.mp (List.all_eq_true.mp hall c (by simp [htext]))).2.2.2
      simp [isSlash, hc, hback]
  rw [join_rooted (by rw [clean_plain hall, htext])] at h
  split at h
  case isTrue => cases h
  case isFalse =>
    rw [hremote, if_neg Bool.false_ne_true, onPath_eq_onBase hslash] at h
    cases h
    rw [htext] at hplain
    exact withPath_plain hremote (isPlain_of_rooted hplain)

/-- The path up to the last segment and with the slash before it. -/
def folder (u : Url) : List Char :=
  let path := dropSegment false u.pathText
  if path.isEmpty then ['/'] else path

/-- A folder is the root, or what the path has before its last slash. -/
theorem folder_spec (h : u.isOpaque = false) : ∃ front, u.folder = '/' :: front ∧
    (front = [] ∨ ∃ outer last, front = outer ++ ['/'] ∧
      u.pathText = '/' :: (outer ++ '/' :: last)) := by
  have hpath : u.pathText = [] ∨ ∃ rest, u.pathText = '/' :: rest := by
    rw [pathText]
    cases hpath : u.path with
    | opaquely text => simp [isOpaque, hpath] at h
    | segments pieces =>
      cases pieces with
      | nil => exact .inl rfl
      | cons piece pieces => exact .inr ⟨_, rfl⟩
  have hcut : dropSegment false u.pathText = (cutSegment u.pathText).1 := rfl
  rw [folder, hcut, cutSegment]
  cases hcut : cutLast? '/' u.pathText with
  | none => exact ⟨[], rfl, .inl rfl⟩
  | some parts =>
    obtain ⟨front, segment⟩ := parts
    have hwhole := cutLast?_eq hcut
    cases front with
    | nil => exact ⟨[], rfl, .inl rfl⟩
    | cons c front =>
      rcases hpath with hnone | ⟨rest, hrest⟩
      · rw [hnone] at hwhole
        cases hwhole
      · rw [hrest] at hwhole
        cases hwhole
        exact ⟨front ++ ['/'], rfl, .inr ⟨front, segment, rfl, hrest⟩⟩

theorem scheme?_eq_none {cs : List Char} (h : ':' ∉ cs) : scheme? cs = none := by
  cases cs with
  | nil => rfl
  | cons c rest =>
    rw [scheme?]
    split
    case isTrue => rfl
    case isFalse =>
      dsimp only
      split
      case h_1 rest' hrest =>
        exact absurd ((List.dropWhile_suffix _).subset (hrest ▸ List.mem_cons_self)) h
      case h_2 => rfl

/-- A plain reference without a slash at its front leads to what it names in the folder that it is
read in. -/
theorem join_plain_bare {c : Char} {rest : List Char} (hremote : isFile base.scheme = false)
    (htext : reference.toList = c :: rest) (hbare : c ≠ '/') (hcolon : ':' ∉ reference.toList)
    (hplain : isPlain reference.toList) (h : base.join reference = .ok u) :
    base.isOpaque = false ∧ ∃ front, base.folder = '/' :: front ∧
      u = base.atPath (front ++ reference.toList) := by
  obtain ⟨hall, -⟩ := isPlain_iff.mp hplain
  have hmark : isMark c = false := unmarked_plain hall c (by simp [htext])
  have hback : c ≠ '\\' :=
    (isPlainCharacter_iff.mp (List.all_eq_true.mp hall c (by simp [htext]))).2.2.2
  have hslash : isSlash (isSpecial base.scheme) c = false := by simp [isSlash, hbare, hback]
  have hfragment : ¬(reference.toList.head? == some '#') = true := by
    rw [htext]
    rintro hc
    simp only [List.head?_cons, beq_iff_eq, Option.some.injEq] at hc
    rw [hc] at hmark
    cases hmark
  rw [join, parseWith] at h
  dsimp only at h
  rw [clean_plain hall, scheme?_eq_none hcolon] at h
  dsimp only at h
  rw [relative, if_neg hfragment] at h
  split at h
  case isTrue => cases h
  case isFalse hsegments =>
    have hsegmented : base.isOpaque = false := Bool.eq_false_iff.mpr hsegments
    obtain ⟨front, hfront, -⟩ := folder_spec hsegmented
    rw [hremote, if_neg Bool.false_ne_true, htext, onPath] at h
    dsimp only at h
    rw [hmark, if_neg Bool.false_ne_true, hslash, Bool.not_false, if_pos rfl] at h
    cases h
    rw [htext] at hplain ⊢
    refine ⟨hsegmented, front, hfront, ?_⟩
    change withPath base.scheme base.authority base.folder (c :: rest) = _
    rw [hfront, withPath_plain hremote hplain]

end

end Url

end CompilingProxy
