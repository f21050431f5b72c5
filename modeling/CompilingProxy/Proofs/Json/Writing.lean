import Mathlib.Data.List.DropRight
import CompilingProxy.Proofs.Json.Legible
import CompilingProxy.Proofs.Json.Reading

/-!
# Values that are written

A value reads back from its text, whatever stands behind that, if its numbers read back from theirs.
Reading counts the levels and the steps that it takes; a value that a document can hold is not too
deep, and two steps for each byte are enough.
-/

namespace CompilingProxy

namespace JsonDocument

open Text

variable {fuel depth : Nat} {bs rest blank : Bytes} {d : JsonDocument} {n : JsonNumber}

/-! ### Space -/

def Blank (bs : Bytes) : Prop := ∀ b ∈ bs, isSpace b

theorem skipSpace_append (h : Blank blank) (bs : Bytes) :
    skipSpace (blank ++ bs) = skipSpace bs :=
  List.dropWhile_append_of_pos h

theorem skipSpace_skipSpace (bs : Bytes) : skipSpace (skipSpace bs) = skipSpace bs :=
  List.dropWhile_idempotent isSpace bs

theorem skipSpace_append_of_cons {b : UInt8} {bs' : Bytes} (h : skipSpace bs = b :: bs')
    (rest : Bytes) : skipSpace (bs ++ rest) = b :: (bs' ++ rest) := by
  rw [skipSpace] at h
  rw [skipSpace, List.dropWhile_append, h]
  rfl

theorem blank_of_skipSpace (h : (skipSpace bs).isEmpty) : Blank bs :=
  List.dropWhile_eq_nil_iff.mp (List.isEmpty_iff.mp h)

theorem value_skipSpace : value fuel depth (skipSpace bs) = value fuel depth bs := by
  cases fuel with
  | zero => rfl
  | succ fuel => rw [value, value, skipSpace_skipSpace]

/-- A value that is read whole does not begin with a bracket that closes something. -/
theorem exists_cons_of_value (h : value fuel depth bs = (d, some rest)) :
    ∃ b bs', skipSpace bs = b :: bs' ∧ b ∉ [0x5d, 0x7d] := by
  cases fuel with
  | zero => cases h
  | succ fuel =>
    rw [value] at h
    cases hbs : skipSpace bs with
    | nil =>
      rw [hbs] at h
      cases h
    | cons b bs' =>
      refine ⟨b, bs', rfl, fun hb => ?_⟩
      rw [hbs] at h
      simp only [List.mem_cons, List.not_mem_nil, or_false] at hb
      rcases hb with rfl | rfl <;> cases h

/-! ### Entries -/

theorem nextEntry_close (close : UInt8) {first : Bool} (hclose : isSpace close = false)
    (hblank : Blank blank) :
    nextEntry close first (blank ++ close :: rest) = .close rest := by
  rw [nextEntry, skipSpace_append hblank, skipSpace_of_not_isSpace hclose]
  exact if_pos (beq_self_eq_true close)

theorem nextEntry_first (close : UInt8) {b : UInt8} {bs' : Bytes} (hbs : skipSpace bs = b :: bs')
    (hb : b ≠ close) : nextEntry close true bs = .entry (skipSpace bs) := by
  rw [nextEntry, hbs]
  exact if_neg (by simpa using hb)

theorem nextEntry_further (close : UInt8) {b : UInt8} {bs' : Bytes} (hclose : close ≠ 0x2c)
    (hblank : Blank blank) (hbs : skipSpace bs = b :: bs') (hb : b ≠ close) :
    nextEntry close false (blank ++ 0x2c :: bs) = .entry (skipSpace bs) := by
  rw [nextEntry, skipSpace_append hblank, skipSpace_of_not_isSpace (by decide)]
  dsimp only
  rw [if_neg (by simpa using hclose.symm), if_neg (by decide), if_pos (by decide), hbs]
  exact if_neg (by simpa using hb)

/-! ### Numbers -/

theorem items_isArray (fuel depth : Nat) (first : Bool) (read : List JsonDocument) (bs : Bytes) :
    ∃ ds closing, (items fuel depth first read bs).1 = .array ds closing := by
  induction fuel generalizing first read bs with
  | zero => exact ⟨_, _, rfl⟩
  | succ fuel ih =>
    rw [items]
    split
    · exact ⟨_, _, rfl⟩
    · exact ⟨_, _, rfl⟩
    · split
      · exact ⟨_, _, rfl⟩
      · exact ih _ _ _

theorem members_isObject (fuel depth : Nat) (first : Bool) (read : List (String × JsonDocument))
    (bs : Bytes) :
    ∃ ds closing, (members fuel depth first read bs).1 = .object ds closing := by
  induction fuel generalizing first read bs with
  | zero => exact ⟨_, _, rfl⟩
  | succ fuel ih =>
    rw [members]
    split
    · exact ⟨_, _, rfl⟩
    · exact ⟨_, _, rfl⟩
    · split
      · exact ⟨_, _, rfl⟩
      · split
        · exact ⟨_, _, rfl⟩
        · split
          · exact ih _ _ _
          · split
            · exact ih _ _ _
            · exact ⟨_, _, rfl⟩
        · exact ⟨_, _, rfl⟩
    · exact ⟨_, _, rfl⟩

theorem not_isSpace_of_isDigit {b : UInt8} (h : isDigit b) : isSpace b = false := by
  rw [← Bool.not_eq_true]
  intro hspace
  have hb : b = 0x20 ∨ b = 0x0a ∨ b = 0x09 ∨ b = 0x0d := by
    simpa [isSpace, or_assoc] using hspace
  rcases hb with rfl | rfl | rfl | rfl <;> cases h

/-- A number stands here: its sign, and its digits. -/
inductive NumberAt (bs : Bytes) : (positive : Bool) → (digits : Bytes) → Prop where
  | positive {b : UInt8} {digits : Bytes} (hbs : skipSpace bs = b :: digits) (hb : isDigit b) :
      NumberAt bs true (b :: digits)
  | negative {digits : Bytes} (hbs : skipSpace bs = 0x2d :: digits) : NumberAt bs false digits

theorem value_of_numberAt {positive : Bool} {digits : Bytes} (h : NumberAt bs positive digits) :
    value (fuel + 1) depth bs = scalar .number (numberText positive digits) := by
  cases h with
  | negative hbs =>
    rw [value, hbs]
    rfl
  | @positive b digits hbs hb =>
    have hquote : b ≠ 0x22 := by
      rintro rfl
      cases hb
    have hminus : b ≠ 0x2d := by
      rintro rfl
      cases hb
    rw [value, hbs]
    dsimp only
    rw [if_neg (by simpa using hquote), if_neg (by simpa using hminus), if_pos hb]

theorem scalar_fst_eq_number {α : Type} {make : α → JsonDocument} {x : Except JsonFault (α × Bytes)}
    (hmake : ∀ a, make a ≠ .number n) : (scalar make x).1 ≠ .number n := by
  cases x with
  | error f => nofun
  | ok found => exact hmake found.1

theorem numberAt_of_value (h : (value fuel depth bs).1 = .number n) :
    ∃ positive digits, NumberAt bs positive digits := by
  cases fuel with
  | zero => cases h
  | succ fuel =>
    rw [value] at h
    split at h
    · cases h
    case h_2 b bs' hbs =>
      split at h
      · exact absurd h (scalar_fst_eq_number fun _ hmade => by cases hmade)
      split at h
      case isTrue hminus =>
        rw [beq_iff_eq.mp hminus] at hbs
        exact ⟨false, bs', .negative hbs⟩
      split at h
      case isTrue hdigit => exact ⟨true, b :: bs', .positive hbs hdigit⟩
      split at h
      · exact absurd h (scalar_fst_eq_number fun _ hmade => by cases hmade)
      split at h
      · exact absurd h (scalar_fst_eq_number fun _ hmade => by cases hmade)
      split at h
      · exact absurd h (scalar_fst_eq_number fun _ hmade => by cases hmade)
      split at h
      · split at h
        · cases h
        · obtain ⟨ds, closing, hitems⟩ := items_isArray fuel (depth - 1) true [] bs'
          rw [hitems] at h
          cases h
      split at h
      · split at h
        · cases h
        · obtain ⟨ds, closing, hmembers⟩ := members_isObject fuel (depth - 1) true [] bs'
          rw [hmembers] at h
          cases h
      · cases h

/-! ### Values -/

/-- The bytes are read as the document, whatever follows them. Space at their end may stay. -/
def Reads (depth : Nat) (bs : Bytes) (d : JsonDocument) : Prop :=
  ∀ fuel rest, 2 * bs.length ≤ fuel → Closes rest →
    ∃ blank, Blank blank ∧ value fuel depth (bs ++ rest) = (d, some (blank ++ rest))

theorem numberAt_append {positive : Bool} {digits : Bytes} (h : NumberAt bs positive digits)
    (rest : Bytes) : NumberAt (bs ++ rest) positive (digits ++ rest) := by
  cases h with
  | positive hbs hb => exact .positive (skipSpace_append_of_cons hbs rest) hb
  | negative hbs => exact .negative (skipSpace_append_of_cons hbs rest)

theorem read_eq_ok_iff {α : Type} {shape : JsonDocument → Except JsonFault α} {a : α} :
    Json.read shape bs = .ok a ↔ (ofBytes bs).2 = none ∧ shape (ofBytes bs).1 = .ok a := by
  unfold Json.read
  obtain ⟨d, trailing⟩ := ofBytes bs
  rw [bind_eq_ok_iff]
  cases trailing with
  | none =>
    constructor
    · rintro ⟨a', ha', h⟩
      exact ⟨rfl, by rw [ha', ← Except.ok.inj h]⟩
    · rintro ⟨-, h⟩
      exact ⟨a, h, rfl⟩
  | some f =>
    constructor
    · rintro ⟨a', -, h⟩
      cases h
    · rintro ⟨h, -⟩
      cases h

theorem eq_number_of_toJson (h : d.toJson = .ok (.number n)) : d = .number n := by
  cases d with
  | number m => exact congrArg number (Json.number.inj (Except.ok.inj h))
  | array =>
    obtain ⟨-, js, -, heq⟩ := toJson_array_eq_ok_iff.mp h
    cases heq
  | object =>
    obtain ⟨-, js, -, heq⟩ := toJson_object_eq_ok_iff.mp h
    cases heq
  | null | bool | string | fault => cases h

theorem ofBytes_of_value (h : value (2 * bs.length + 2) depthLimit bs = (d, some rest)) :
    ofBytes bs = (d, if (skipSpace rest).isEmpty then none else some .malformed) := by
  rw [ofBytes, h]

theorem reads_number (h : n.Survives) : Reads depth (bytes n.render) (.number n) := by
  obtain ⟨hend, hnumber⟩ := read_eq_ok_iff.mp h
  have hnumber := eq_number_of_toJson hnumber
  generalize bytes n.render = bs at hend hnumber
  rw [ofBytes_fst] at hnumber
  obtain ⟨positive, digits, hat⟩ := numberAt_of_value hnumber
  cases hread : numberText positive digits with
  | error f =>
    rw [value_of_numberAt hat, hread] at hnumber
    cases hnumber
  | ok found =>
    obtain ⟨m, behind⟩ := found
    have hvalue : value (2 * bs.length + 2) depthLimit bs = (.number m, some behind) := by
      rw [value_of_numberAt hat, hread]
      rfl
    rw [hvalue] at hnumber
    obtain rfl := number.inj hnumber
    -- Nothing but space is left over, and that stays in front of whatever follows.
    have hblank : (skipSpace behind).isEmpty := by
      rw [ofBytes_of_value hvalue] at hend
      by_contra hmore
      rw [if_neg hmore] at hend
      cases hend
    intro fuel rest hfuel hrest
    obtain ⟨fuel, rfl⟩ : ∃ k, fuel = k + 1 := by
      have hlength : bs.length ≠ 0 := by
        intro hnil
        rw [List.length_eq_zero_iff.mp hnil] at hat
        cases hat <;> contradiction
      exact ⟨fuel - 1, by omega⟩
    refine ⟨behind, blank_of_skipSpace hblank, ?_⟩
    rw [value_of_numberAt (numberAt_append hat rest), numberText_append hrest hread]
    rfl

theorem survives_of_numberAt {positive : Bool} {digits : Bytes}
    (hat : NumberAt (bytes n.render) positive digits)
    (h : numberText positive digits = .ok (n, [])) : n.Survives := by
  have hvalue : value (2 * (bytes n.render).length + 2) depthLimit (bytes n.render) =
      (.number n, some []) := by
    rw [value_of_numberAt hat, h]
    rfl
  refine read_eq_ok_iff.mpr ?_
  rw [ofBytes_of_value hvalue]
  exact ⟨rfl, rfl⟩

theorem survives_of_fits (hfits : n.Fits) (hreal : ∀ x, n ≠ .real x) : n.Survives := by
  cases n with
  | natural n =>
    obtain ⟨c, cs, hcs⟩ := List.exists_cons_of_ne_nil (Nat.toDigits_ne_nil (n := n) (b := 10))
    have hdigit := Nat.isDigit_of_mem_toDigits (n := n) (b := 10) (c := c) (by decide) (by decide)
      (by rw [hcs]; exact List.mem_cons_self)
    have hbytes : bytes (JsonNumber.natural n).render = asciiBytes (Nat.toDigits 10 n) :=
      bytes_toString n
    have hread : numberText true (asciiBytes (Nat.toDigits 10 n)) = .ok (.natural n, []) :=
      numberText_toDigits hfits
    refine survives_of_numberAt ?_ hread
    rw [hbytes, hcs]
    have hdigit := (isDigit_ascii hdigit).1
    exact .positive (skipSpace_of_not_isSpace (not_isSpace_of_isDigit hdigit)) hdigit
  | negative n =>
    have hbytes : bytes (JsonNumber.negative n).render =
        0x2d :: asciiBytes (Nat.toDigits 10 n) := by
      have hminus : bytes "-" = [0x2d] := by
        rw [bytes_eq]
        decide
      rw [JsonNumber.render, bytes_append, hminus, bytes_toString]
      rfl
    have hlt : n < UInt64.size := Nat.lt_of_le_of_lt hfits.2 (by decide)
    have hread : numberText false (asciiBytes (Nat.toDigits 10 n)) = .ok (.negative n, []) := by
      rw [numberText_toDigits hlt]
      exact (if_neg (Nat.pos_iff_ne_zero.mp hfits.1)).trans (if_pos hfits.2)
    refine survives_of_numberAt ?_ hread
    rw [hbytes]
    exact .negative (skipSpace_of_not_isSpace (by decide))
  | real x => exact absurd rfl (hreal x)

/-! ### Collections -/

/-- What follows the first entry of a collection: the others, each behind a comma. -/
def behindCommas (texts : List Bytes) : Bytes := texts.flatMap (0x2c :: ·)

theorem closes_behindCommas {close : UInt8} (hclose : close ∈ [0x5d, 0x7d]) (texts : List Bytes)
    (rest : Bytes) : Closes (behindCommas texts ++ close :: rest) := by
  cases texts with
  | nil => exact closes_cons (List.mem_cons_of_mem _ hclose)
  | cons text texts => exact closes_cons List.mem_cons_self

theorem behindCommas_cons (text : Bytes) (texts : List Bytes) (rest : Bytes) :
    behindCommas (text :: texts) ++ rest = 0x2c :: (text ++ (behindCommas texts ++ rest)) := by
  rw [behindCommas, List.flatMap_cons, ← behindCommas, List.append_assoc, List.cons_append]

theorem length_behindCommas_cons (text : Bytes) (texts : List Bytes) :
    (behindCommas (text :: texts)).length = text.length + (behindCommas texts).length + 1 := by
  have h := congrArg List.length (behindCommas_cons text texts [])
  simpa [Nat.add_assoc] using h

theorem items_close {read : List JsonDocument} {first : Bool} (blank : Bytes)
    (hblank : Blank blank) :
    items (fuel + 1) depth first read (blank ++ 0x5d :: rest) =
      (.array read.reverse none, some rest) := by
  have hclose : nextEntry 0x5d first (blank ++ 0x5d :: rest) = .close rest :=
    nextEntry_close 0x5d (by decide) hblank
  rw [items, hclose]

theorem items_entry {read : List JsonDocument} {first : Bool} {input : Bytes}
    (hnext : nextEntry 0x5d first input = .entry (skipSpace bs))
    (hvalue : value fuel depth bs = (d, some rest)) :
    items (fuel + 1) depth first read input = items fuel depth false (d :: read) rest := by
  rw [items, hnext]
  dsimp only
  rw [value_skipSpace, hvalue]

theorem items_behindCommas {entries : List (Bytes × JsonDocument)}
    (h : ∀ e ∈ entries, Reads depth e.1 e.2) {read : List JsonDocument}
    (hfuel : 2 * (behindCommas (entries.map Prod.fst)).length < fuel) (hblank : Blank blank) :
    items fuel depth false read
        (blank ++ (behindCommas (entries.map Prod.fst) ++ 0x5d :: rest)) =
      (.array (read.reverse ++ entries.map Prod.snd) none, some rest) := by
  induction entries generalizing fuel read blank with
  | nil =>
    obtain ⟨fuel, rfl⟩ : ∃ k, fuel = k + 1 := ⟨fuel - 1, by omega⟩
    rw [List.map_nil, behindCommas, List.flatMap_nil, List.nil_append, items_close _ hblank,
      List.map_nil, List.append_nil]
  | cons e entries ih =>
    -- One step goes to this call; the comma in front of the entry has brought two.
    rw [List.map_cons, length_behindCommas_cons] at hfuel
    obtain ⟨fuel, rfl⟩ : ∃ k, fuel = k + 1 := ⟨fuel - 1, by omega⟩
    obtain ⟨blank', hblank', hvalue⟩ := h e List.mem_cons_self fuel
      (behindCommas (entries.map Prod.fst) ++ 0x5d :: rest) (by omega)
      (closes_behindCommas (by decide) _ _)
    obtain ⟨b, bs', hbs, hb⟩ := exists_cons_of_value hvalue
    have hnext := nextEntry_further 0x5d (by decide) hblank hbs
      (fun heq => hb (by rw [heq]; decide))
    rw [List.map_cons, behindCommas_cons, items_entry hnext hvalue,
      ih (fun e he => h e (List.mem_cons_of_mem _ he)) (by omega) hblank', List.reverse_cons,
      List.append_assoc]
    rfl

/-- The entries of a collection, with commas between them. -/
def commaSeparated : List Bytes → Bytes
  | [] => []
  | text :: texts => text ++ behindCommas texts

theorem blank_nil : Blank [] := fun _ hb => absurd hb List.not_mem_nil

theorem reads_array (entries : List (Bytes × JsonDocument))
    (h : ∀ e ∈ entries, Reads (depth + 1) e.1 e.2) :
    Reads (depth + 2) (0x5b :: (commaSeparated (entries.map Prod.fst) ++ [0x5d]))
      (.array (entries.map Prod.snd) none) := by
  intro fuel rest hfuel _
  rw [List.length_cons, List.length_append, List.length_singleton] at hfuel
  obtain ⟨fuel, rfl⟩ : ∃ k, fuel = k + 2 := ⟨fuel - 2, by omega⟩
  have hopen (bs : Bytes) : value (fuel + 2) (depth + 2) (0x5b :: bs) =
      items (fuel + 1) (depth + 1) true [] bs := rfl
  refine ⟨[], blank_nil, ?_⟩
  rw [List.cons_append, hopen, List.append_assoc, List.singleton_append, List.nil_append]
  cases entries with
  | nil => exact items_close [] blank_nil
  | cons e entries =>
    rw [List.map_cons, commaSeparated, List.length_append] at hfuel
    obtain ⟨blank, hblank, hvalue⟩ := h e List.mem_cons_self fuel
      (behindCommas (entries.map Prod.fst) ++ 0x5d :: rest) (by omega)
      (closes_behindCommas (by decide) _ _)
    obtain ⟨b, bs', hbs, hb⟩ := exists_cons_of_value hvalue
    have hnext := nextEntry_first 0x5d hbs (fun heq => hb (by rw [heq]; decide))
    rw [List.map_cons, commaSeparated, List.append_assoc, items_entry hnext hvalue,
      items_behindCommas (fun e he => h e (List.mem_cons_of_mem _ he)) (by omega) hblank]
    rfl

/-- The bytes of a member by the key, with those of its value. -/
def memberBytes (key : String) (text : Bytes) : Bytes := bytes (quoted key) ++ 0x3a :: text

theorem memberBytes_append (key : String) (text rest : Bytes) : memberBytes key text ++ rest =
    0x22 :: (key.toList.flatMap quotedBytes ++ 0x22 :: 0x3a :: (text ++ rest)) := by
  simp [memberBytes, bytes_quoted]

theorem length_le_memberBytes (key : String) (text : Bytes) :
    text.length ≤ (memberBytes key text).length := by
  rw [memberBytes, List.length_append, List.length_cons]
  omega

theorem skipSpace_memberBytes (key : String) (text rest : Bytes) :
    skipSpace (memberBytes key text ++ rest) = 0x22 ::
      (key.toList.flatMap quotedBytes ++ 0x22 :: 0x3a :: (text ++ rest)) := by
  rw [memberBytes_append]
  exact skipSpace_of_not_isSpace (by decide)

theorem members_close {read : List (String × JsonDocument)} {first : Bool} (blank : Bytes)
    (hblank : Blank blank) :
    members (fuel + 1) depth first read (blank ++ 0x7d :: rest) =
      (.object read.reverse none, some rest) := by
  have hclose : nextEntry 0x7d first (blank ++ 0x7d :: rest) = .close rest :=
    nextEntry_close 0x7d (by decide) hblank
  rw [members, hclose]

theorem members_entry {read : List (String × JsonDocument)} {first : Bool} {key : String}
    {input text behind : Bytes}
    (hnext : nextEntry 0x7d first input = .entry (skipSpace (memberBytes key text ++ behind)))
    (hvalue : value fuel depth (text ++ behind) = (d, some rest)) :
    members (fuel + 1) depth first read input =
      members fuel depth false ((key, d) :: read) rest := by
  rw [skipSpace_memberBytes] at hnext
  rw [members, hnext]
  simp only [stringText_quoted]
  rw [skipSpace_of_not_isSpace (by decide)]
  simp only [hvalue]

theorem members_behindCommas {entries : List (String × Bytes × JsonDocument)}
    (h : ∀ e ∈ entries, Reads depth e.2.1 e.2.2) {read : List (String × JsonDocument)}
    (hfuel : 2 * (behindCommas (entries.map fun e => memberBytes e.1 e.2.1)).length < fuel)
    (hblank : Blank blank) :
    members fuel depth false read
        (blank ++ (behindCommas (entries.map fun e => memberBytes e.1 e.2.1) ++ 0x7d :: rest)) =
      (.object (read.reverse ++ entries.map fun e => (e.1, e.2.2)) none, some rest) := by
  induction entries generalizing fuel read blank with
  | nil =>
    obtain ⟨fuel, rfl⟩ : ∃ k, fuel = k + 1 := ⟨fuel - 1, by omega⟩
    rw [List.map_nil, behindCommas, List.flatMap_nil, List.nil_append, members_close _ hblank,
      List.map_nil, List.append_nil]
  | cons e entries ih =>
    have hlength := length_le_memberBytes e.1 e.2.1
    rw [List.map_cons, length_behindCommas_cons] at hfuel
    obtain ⟨fuel, rfl⟩ : ∃ k, fuel = k + 1 := ⟨fuel - 1, by omega⟩
    obtain ⟨blank', hblank', hvalue⟩ := h e List.mem_cons_self fuel
      (behindCommas (entries.map fun e => memberBytes e.1 e.2.1) ++ 0x7d :: rest) (by omega)
      (closes_behindCommas (by decide) _ _)
    have hnext := nextEntry_further 0x7d (by decide) hblank
      (skipSpace_memberBytes e.1 e.2.1
        (behindCommas (entries.map fun e => memberBytes e.1 e.2.1) ++ 0x7d :: rest)) (by decide)
    rw [List.map_cons, behindCommas_cons, members_entry hnext hvalue,
      ih (fun e he => h e (List.mem_cons_of_mem _ he)) (by omega) hblank', List.reverse_cons,
      List.append_assoc]
    rfl

theorem reads_object (entries : List (String × Bytes × JsonDocument))
    (h : ∀ e ∈ entries, Reads (depth + 1) e.2.1 e.2.2) :
    Reads (depth + 2)
      (0x7b :: (commaSeparated (entries.map fun e => memberBytes e.1 e.2.1) ++ [0x7d]))
      (.object (entries.map fun e => (e.1, e.2.2)) none) := by
  intro fuel rest hfuel _
  rw [List.length_cons, List.length_append, List.length_singleton] at hfuel
  obtain ⟨fuel, rfl⟩ : ∃ k, fuel = k + 2 := ⟨fuel - 2, by omega⟩
  have hopen (bs : Bytes) : value (fuel + 2) (depth + 2) (0x7b :: bs) =
      members (fuel + 1) (depth + 1) true [] bs := rfl
  refine ⟨[], blank_nil, ?_⟩
  rw [List.cons_append, hopen, List.append_assoc, List.singleton_append, List.nil_append]
  cases entries with
  | nil => exact members_close [] blank_nil
  | cons e entries =>
    have hlength := length_le_memberBytes e.1 e.2.1
    rw [List.map_cons, commaSeparated, List.length_append] at hfuel
    obtain ⟨blank, hblank, hvalue⟩ := h e List.mem_cons_self fuel
      (behindCommas (entries.map fun e => memberBytes e.1 e.2.1) ++ 0x7d :: rest) (by omega)
      (closes_behindCommas (by decide) _ _)
    have hnext := nextEntry_first 0x7d (skipSpace_memberBytes e.1 e.2.1
      (behindCommas (entries.map fun e => memberBytes e.1 e.2.1) ++ 0x7d :: rest)) (by decide)
    rw [List.map_cons, commaSeparated, List.append_assoc, members_entry hnext hvalue,
      members_behindCommas (fun e he => h e (List.mem_cons_of_mem _ he)) (by omega) hblank]
    rfl

/-! ### What is rendered -/

theorem bytes_comma : bytes "," = [0x2c] := by
  rw [bytes_eq]
  decide

theorem bytes_renderItems (js : List Json) :
    bytes (Json.renderItems js) = commaSeparated (js.map fun j => bytes j.render) := by
  induction js with
  | nil =>
    rw [bytes_eq]
    rfl
  | cons j js ih =>
    cases js with
    | nil => simp [Json.renderItems, commaSeparated, behindCommas]
    | cons j' js =>
      have hstep : Json.renderItems (j :: j' :: js) =
          j.render ++ "," ++ Json.renderItems (j' :: js) := by
        rw [Json.renderItems]
        nofun
      rw [hstep, bytes_append, bytes_append, ih, bytes_comma]
      simp [commaSeparated, behindCommas]

theorem bytes_renderMembers (ms : List (String × Json)) :
    bytes (Json.renderMembers ms) =
      commaSeparated (ms.map fun m => memberBytes m.1 (bytes m.2.render)) := by
  have hcolon : bytes ":" = [0x3a] := by
    rw [bytes_eq]
    decide
  induction ms with
  | nil =>
    rw [bytes_eq]
    rfl
  | cons m ms ih =>
    obtain ⟨key, j⟩ := m
    cases ms with
    | nil =>
      rw [Json.renderMembers, bytes_append, bytes_append, hcolon]
      simp [commaSeparated, behindCommas, memberBytes]
    | cons m' ms =>
      have hstep : Json.renderMembers ((key, j) :: m' :: ms) =
          quoted key ++ ":" ++ j.render ++ "," ++ Json.renderMembers (m' :: ms) := by
        rw [Json.renderMembers]
        nofun
      rw [hstep, bytes_append, bytes_append, bytes_append, bytes_append, ih, bytes_comma, hcolon]
      simp [commaSeparated, behindCommas, memberBytes]

theorem ofJsonItems_eq (js : List Json) : ofJsonItems js = js.map ofJson := by
  induction js with
  | nil => rfl
  | cons j js ih => rw [ofJsonItems, ih, List.map_cons]

theorem ofJsonMembers_eq (ms : List (String × Json)) :
    ofJsonMembers ms = ms.map fun m => (m.1, ofJson m.2) := by
  induction ms with
  | nil => rfl
  | cons m ms ih => rw [ofJsonMembers, ih, List.map_cons]

theorem reads_word {bs : Bytes} (hbs : bs ≠ [])
    (h : ∀ fuel rest, value (fuel + 1) depth (bs ++ rest) = (d, some rest)) : Reads depth bs d := by
  intro fuel rest hfuel _
  have hlength := List.length_pos_iff.mpr hbs
  obtain ⟨fuel, rfl⟩ : ∃ k, fuel = k + 1 := ⟨fuel - 1, by omega⟩
  exact ⟨[], blank_nil, h fuel rest⟩

theorem reads_render {j : Json} (h : j.Legible depth)
    (hreal : ∀ x, .real x ∈ j.numbers → (JsonNumber.real x).Survives) :
    Reads depth (bytes j.render) (ofJson j) := by
  induction h with
  | null =>
    have hbytes : bytes Json.null.render = [0x6e, 0x75, 0x6c, 0x6c] := by
      rw [bytes_eq]
      decide
    rw [hbytes]
    exact reads_word (by decide) fun _ _ => rfl
  | @bool depth b =>
    have htrue : bytes (Json.bool true).render = [0x74, 0x72, 0x75, 0x65] := by
      rw [bytes_eq]
      decide
    have hfalse : bytes (Json.bool false).render = [0x66, 0x61, 0x6c, 0x73, 0x65] := by
      rw [bytes_eq]
      decide
    cases b with
    | true =>
      rw [htrue]
      exact reads_word (by decide) fun _ _ => rfl
    | false =>
      rw [hfalse]
      exact reads_word (by decide) fun _ _ => rfl
  | @number depth n hn =>
    by_cases hkind : ∃ x, n = .real x
    · obtain ⟨x, rfl⟩ := hkind
      exact reads_number (hreal x List.mem_cons_self)
    · exact reads_number (survives_of_fits hn fun x hx => hkind ⟨x, hx⟩)
  | @string depth s =>
    refine reads_word ?_ fun _ rest => value_quoted s rest
    rw [Json.render, bytes_quoted]
    exact List.cons_ne_nil _ _
  | @array depth js _ ih =>
    have hopen : bytes "[" = [0x5b] := by
      rw [bytes_eq]
      decide
    have hclose : bytes "]" = [0x5d] := by
      rw [bytes_eq]
      decide
    have hentries : ∀ e ∈ js.map fun j => (bytes j.render, ofJson j),
        Reads (depth + 1) e.1 e.2 := by
      intro e he
      obtain ⟨j, hj, rfl⟩ := List.mem_map.mp he
      exact ih j hj fun x hx => hreal x (Json.mem_numbersOfItems_iff.mpr ⟨j, hj, hx⟩)
    have hreads := reads_array _ hentries
    rw [List.map_map, List.map_map] at hreads
    rw [Json.render, bytes_append, bytes_append, hopen, hclose, bytes_renderItems, ofJson,
      ofJsonItems_eq]
    exact hreads
  | @object depth ms _ ih =>
    have hopen : bytes "\x7b" = [0x7b] := by
      rw [bytes_eq]
      decide
    have hclose : bytes "\x7d" = [0x7d] := by
      rw [bytes_eq]
      decide
    have hentries : ∀ e ∈ ms.map fun m => (m.1, bytes m.2.render, ofJson m.2),
        Reads (depth + 1) e.2.1 e.2.2 := by
      intro e he
      obtain ⟨m, hm, rfl⟩ := List.mem_map.mp he
      exact ih m hm fun x hx => hreal x (Json.mem_numbersOfMembers_iff.mpr ⟨m, hm, hx⟩)
    have hreads := reads_object _ hentries
    rw [List.map_map, List.map_map] at hreads
    rw [Json.render, bytes_append, bytes_append, hopen, hclose, bytes_renderMembers, ofJson,
      ofJsonMembers_eq]
    exact hreads

/-- The document of a value is read from what the value is written as. -/
theorem ofBytes_render {j : Json} (h : j.Legible depthLimit)
    (hreal : ∀ x, .real x ∈ j.numbers → (JsonNumber.real x).Survives) :
    ofBytes (bytes j.render) = (ofJson j, none) := by
  obtain ⟨blank, hblank, hvalue⟩ := reads_render h hreal
    (2 * (bytes j.render).length + 2) [] (by omega) closes_nil
  rw [List.append_nil, List.append_nil] at hvalue
  have hempty : (skipSpace blank).isEmpty := by
    have hnil := skipSpace_append hblank []
    rw [List.append_nil] at hnil
    rw [hnil]
    rfl
  rw [ofBytes_of_value hvalue, if_pos hempty]

theorem ofBytes_texts (ms : List (String × String)) :
    ofBytes (bytes (Json.object (ms.map fun m => (m.1, .string m.2))).render) =
      (.object (ms.map fun m => (m.1, .string m.2)) none, none) := by
  have hlegible : (Json.object (ms.map fun m => (m.1, .string m.2))).Legible depthLimit :=
    .object fun n hn => by
      obtain ⟨m, -, rfl⟩ := List.mem_map.mp hn
      exact .string
  have hnone : ∀ x, .real x ∉ (Json.object (ms.map fun m => (m.1, .string m.2))).numbers := by
    intro x hx
    obtain ⟨n, hn, hx⟩ := Json.mem_numbersOfMembers_iff.mp hx
    obtain ⟨m, -, rfl⟩ := List.mem_map.mp hn
    cases hx
  rw [ofBytes_render hlegible fun x hx => absurd hx (hnone x), ofJson, ofJsonMembers_eq,
    List.map_map]
  rfl

end JsonDocument

end CompilingProxy
