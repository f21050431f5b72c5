import CompilingProxy.Config.Options
import CompilingProxy.Proofs.Json.Legible

/-!
# Reading a configuration

What a configuration holds is what stands in its document. A choice is the one that its name stands
for, whatever the case of the letters, and what has no meaning here is kept by its key.
-/

namespace CompilingProxy

open JsonDocument

/-! ### Readers of values -/

/-- The reader takes nothing but what has been read whole. -/
def TakesValues {α : Type} (read : JsonDocument → Except JsonFault α) : Prop :=
  ∀ {d : JsonDocument} {a : α}, read d = .ok a → ∃ j, d.toJson = .ok j

section

variable {α : Type} {read : JsonDocument → Except JsonFault α} {d : JsonDocument}

theorem takesValues_asBool : TakesValues asBool := by
  intro d b h
  cases d with
  | bool b => exact ⟨_, rfl⟩
  | _ => cases h

theorem takesValues_asString : TakesValues asString := by
  intro d s h
  cases d with
  | string s => exact ⟨_, rfl⟩
  | _ => cases h

theorem takesValues_asOptional (hread : TakesValues read) : TakesValues (asOptional read) := by
  intro d o h
  cases hread' : read d with
  | ok a => exact hread hread'
  | error f =>
    cases d with
    | null => exact ⟨_, rfl⟩
    | _ =>
      rw [asOptional, hread'] at h
      · cases h
      · nofun

theorem exists_toJsonItems (hread : TakesValues read) {ds : List JsonDocument} {as : List α}
    (h : ds.mapM read = .ok as) : ∃ js, toJsonItems ds = .ok js := by
  induction ds generalizing as with
  | nil => exact ⟨[], rfl⟩
  | cons d ds ih =>
    rw [List.mapM_cons] at h
    obtain ⟨a, ha, h⟩ := bind_eq_ok_iff.mp h
    obtain ⟨as, has, -⟩ := bind_eq_ok_iff.mp h
    obtain ⟨j, hj⟩ := hread ha
    obtain ⟨js, hjs⟩ := ih has
    refine ⟨j :: js, ?_⟩
    rw [toJsonItems, hj, hjs]
    rfl

theorem takesValues_asList (hread : TakesValues read) : TakesValues (asList read) := by
  intro d as h
  cases d with
  | array items closing =>
    obtain ⟨as, has, h⟩ := bind_eq_ok_iff.mp h
    cases closing with
    | some f => cases h
    | none =>
      obtain ⟨js, hjs⟩ := exists_toJsonItems hread has
      exact ⟨_, toJson_array_eq_ok_iff.mpr ⟨rfl, js, hjs, rfl⟩⟩
  | _ => cases h

theorem once_eq_ok_iff {known o : Option α} :
    once known read d = .ok o ↔ known = none ∧ ∃ a, read d = .ok a ∧ o = some a := by
  rw [once]
  cases known with
  | some a =>
    constructor
    · intro h
      cases h
    · rintro ⟨h, -⟩
      cases h
  | none =>
    cases hread : read d with
    | error f =>
      constructor
      · intro h
        cases h
      · rintro ⟨-, a, h, -⟩
        cases h
    | ok a =>
      constructor
      · intro h
        exact ⟨rfl, a, rfl, (Except.ok.inj h).symm⟩
      · rintro ⟨-, a, h, rfl⟩
        cases h
        rfl

end

/-! ### Names -/

/-- The value is a text that is one of the names, whatever the case of its letters. -/
def IsNameOf {α : Type} (names : List (String × α)) (j : Option Json) (a : α) : Prop :=
  ∃ s name, j = some (.string s) ∧ (name, a) ∈ names ∧
    Text.lowerAscii name.toList = Text.lowerAscii s.toList

/-- What is named, or the default where no name stands. -/
def StandsFor {α : Type} (names : List (String × α)) (fallback : α) (j : Option Json) (a : α) :
    Prop :=
  IsNameOf names j a ∨ (a = fallback ∧ ∀ b, ¬IsNameOf names j b)

section

variable {α : Type} {names : List (String × α)} {fallback a : α} {d : JsonDocument}

/-- No two names are alike but for the case of their letters. -/
abbrev Distinct (names : List (String × α)) : Prop :=
  names.Pairwise fun m n => Text.lowerAscii m.1.toList ≠ Text.lowerAscii n.1.toList

theorem ofAlias?_eq_some_iff (hnames : Distinct names) {s : String} :
    ofAlias? names s = some a ↔ ∃ name, (name, a) ∈ names ∧
      Text.lowerAscii name.toList = Text.lowerAscii s.toList := by
  rw [ofAlias?]
  induction names with
  | nil => simp
  | cons m names ih =>
    obtain ⟨hfirst, hrest⟩ := List.pairwise_cons.mp hnames
    by_cases hm : Text.lowerAscii m.1.toList = Text.lowerAscii s.toList
    · rw [List.find?_cons_of_pos (by simpa using hm), Option.map_some, Option.some.injEq]
      constructor
      · rintro rfl
        exact ⟨m.1, List.mem_cons_self, hm⟩
      · rintro ⟨name, hname, hs⟩
        rcases List.mem_cons.mp hname with heq | hname
        · rw [← heq]
        · exact absurd (hm.trans hs.symm) (hfirst _ hname)
    · rw [List.find?_cons_of_neg (by simpa using hm), ih hrest]
      constructor
      · rintro ⟨name, hname, hs⟩
        exact ⟨name, List.mem_cons_of_mem _ hname, hs⟩
      · rintro ⟨name, hname, hs⟩
        rcases List.mem_cons.mp hname with heq | hname
        · exact absurd (by rw [← heq]; exact hs) hm
        · exact ⟨name, hname, hs⟩

theorem standsFor_of_aliased (hnames : Distinct names)
    (h : aliased (ofAlias? names) fallback d = .ok a) :
    ∃ j, d.toJson = .ok j ∧ StandsFor names fallback (some j) a := by
  obtain ⟨j, hj, h⟩ := bind_eq_ok_iff.mp h
  refine ⟨j, hj, ?_⟩
  cases j with
  | string s =>
    dsimp only at h
    cases halias : ofAlias? names s with
    | some b =>
      rw [halias] at h
      cases h
      obtain ⟨name, hname, hs⟩ := (ofAlias?_eq_some_iff hnames).mp halias
      exact .inl ⟨s, name, rfl, hname, hs⟩
    | none =>
      rw [halias] at h
      cases h
      refine .inr ⟨rfl, ?_⟩
      rintro b ⟨_, name, ⟨⟩, hname, hs⟩
      have hsome := (ofAlias?_eq_some_iff hnames).mpr ⟨name, hname, hs⟩
      rw [halias] at hsome
      cases hsome
  | _ =>
    cases h
    exact .inr ⟨rfl, by rintro b ⟨_, _, ⟨⟩, -⟩⟩

theorem standsFor_none : StandsFor names fallback none fallback :=
  .inr ⟨rfl, by rintro b ⟨_, _, ⟨⟩, -⟩⟩

end

/-! ### Options -/

namespace CompilerOptions

/-- The options that mean something here. -/
def keys : List String :=
  ["target", "module", "moduleResolution", "lib", "allowJs", "checkJs", "noEmitOnError", "outFile",
    "noUnusedLocals", "verbatimModuleSyntax", "erasableSyntaxOnly"]

end CompilerOptions

/-- A member by the name gives the option a value that it means, once; any other leaves the option
as it is. -/
def Sets {α : Type} (name : String) (means : Json → α → Prop) (key : String) (j : Json)
    (before after : Option α) : Prop :=
  if key = name then before = none ∧ ∃ a, means j a ∧ after = some a else after = before

section

variable {α : Type} {name key : String} {means : Json → α → Prop} {j : Json} {before : Option α}
  {a : α}

theorem sets_of_ne (hne : key ≠ name) : Sets name means key j before before := by
  rw [Sets, if_neg hne]

theorem sets_of_none (hnone : before = none) (ha : means j a) :
    Sets name means name j before (some a) := by
  rw [Sets, if_pos rfl]
  exact ⟨hnone, a, ha, rfl⟩

end

namespace NamedOptions

variable {o o' : NamedOptions} {key : String} {d : JsonDocument}

structure Effect (o : NamedOptions) (key : String) (j : Json) (o' : NamedOptions) : Prop where
  extra : o'.extra = if key ∉ CompilerOptions.keys then Json.insert key j o.extra else o.extra
  target : Sets "target" (fun j => StandsFor ScriptTarget.names .esNext (some j)) key j
    o.target o'.target
  module : Sets "module" (fun j => StandsFor ModuleSystem.names .esNext (some j)) key j
    o.module o'.module
  moduleResolution : Sets "moduleResolution"
    (fun j => StandsFor ModuleResolution.names .node (some j)) key j
    o.moduleResolution o'.moduleResolution

/-- A member by another name than those of the three choices. -/
theorem effect_of_ne {j : Json}
    (hextra : o'.extra = if key ∉ CompilerOptions.keys then Json.insert key j o.extra else o.extra)
    (hsame : o'.target = o.target ∧ o'.module = o.module ∧
      o'.moduleResolution = o.moduleResolution)
    (hne : key ∉ ["target", "module", "moduleResolution"]) : Effect o key j o' where
  extra := hextra
  target := by
    rw [hsame.1]
    exact sets_of_ne fun heq => hne (by rw [heq]; decide)
  module := by
    rw [hsame.2.1]
    exact sets_of_ne fun heq => hne (by rw [heq]; decide)
  moduleResolution := by
    rw [hsame.2.2]
    exact sets_of_ne fun heq => hne (by rw [heq]; decide)

theorem effect_of_read (h : o.read key d = .ok o') :
    ∃ j, d.toJson = .ok j ∧ Effect o key j o' := by
  unfold NamedOptions.read at h
  split at h
  all_goals obtain ⟨v, hv, h⟩ := bind_eq_ok_iff.mp h
  -- The choices come first and what has no meaning here next; of any other option nothing is kept
  -- but that its value has been read.
  case h_1 =>
    cases h
    obtain ⟨hnone, a, ha, rfl⟩ := once_eq_ok_iff.mp hv
    obtain ⟨j, hj, ha⟩ := standsFor_of_aliased (by decide) ha
    exact ⟨j, hj, by rw [if_neg (by decide)], sets_of_none hnone ha, sets_of_ne (by decide),
      sets_of_ne (by decide)⟩
  case h_2 =>
    cases h
    obtain ⟨hnone, a, ha, rfl⟩ := once_eq_ok_iff.mp hv
    obtain ⟨j, hj, ha⟩ := standsFor_of_aliased (by decide) ha
    exact ⟨j, hj, by rw [if_neg (by decide)], sets_of_ne (by decide), sets_of_none hnone ha,
      sets_of_ne (by decide)⟩
  case h_3 =>
    cases h
    obtain ⟨hnone, a, ha, rfl⟩ := once_eq_ok_iff.mp hv
    obtain ⟨j, hj, ha⟩ := standsFor_of_aliased (by decide) ha
    exact ⟨j, hj, by rw [if_neg (by decide)], sets_of_ne (by decide), sets_of_ne (by decide),
      sets_of_none hnone ha⟩
  case h_12 =>
    cases h
    have hkey : key ∉ CompilerOptions.keys := by
      simp only [CompilerOptions.keys, List.mem_cons, List.not_mem_nil, or_false, not_or]
      and_intros <;> assumption
    have hsub : ["target", "module", "moduleResolution"] ⊆ CompilerOptions.keys := by decide
    exact ⟨v, hv, effect_of_ne (by rw [if_pos hkey]) ⟨rfl, rfl, rfl⟩ fun hmem => hkey (hsub hmem)⟩
  all_goals
    cases h
    obtain ⟨-, a, ha, -⟩ := once_eq_ok_iff.mp hv
  case h_4 =>
    obtain ⟨j, hj⟩ := takesValues_asOptional (takesValues_asList takesValues_asString) ha
    exact ⟨j, hj, effect_of_ne (by rw [if_neg (by decide)]) ⟨rfl, rfl, rfl⟩ (by decide)⟩
  case h_8 =>
    obtain ⟨j, hj⟩ := takesValues_asOptional takesValues_asString ha
    exact ⟨j, hj, effect_of_ne (by rw [if_neg (by decide)]) ⟨rfl, rfl, rfl⟩ (by decide)⟩
  all_goals
    obtain ⟨j, hj⟩ := takesValues_asBool ha
    exact ⟨j, hj, effect_of_ne (by rw [if_neg (by decide)]) ⟨rfl, rfl, rfl⟩ (by decide)⟩

end NamedOptions

/-! ### Many members -/

section

variable {σ : Type} {step : σ → String → JsonDocument → Except JsonFault σ} {start state : σ}
  {effect : σ → String → Json → σ → Prop} {ds : List (String × JsonDocument)}
  {js : List (String × Json)}

theorem foldMembers_eq_ok_iff {d : JsonDocument} : d.foldMembers step start = .ok state ↔
    ∃ ds, d = .object ds none ∧
      ds.foldlM (fun state m => step state m.1 m.2) start = .ok state := by
  constructor
  · intro h
    cases d with
    | object ds closing =>
      obtain ⟨state', hstate, h⟩ := bind_eq_ok_iff.mp h
      cases closing with
      | none =>
        cases h
        exact ⟨ds, rfl, hstate⟩
      | some f => cases h
    | _ => cases h
  · rintro ⟨ds, rfl, h⟩
    exact bind_eq_ok_iff.mpr ⟨state, h, rfl⟩

/-- Members have these effects, one after the other. -/
inductive Effects (effect : σ → String → Json → σ → Prop) :
    σ → List (String × Json) → σ → Prop where
  | nil {s : σ} : Effects effect s [] s
  | cons {s s' s'' : σ} {m : String × Json} {ms : List (String × Json)}
      (hfirst : effect s m.1 m.2 s') (hrest : Effects effect s' ms s'') :
      Effects effect s (m :: ms) s''

theorem effects_of_foldlM (effect : σ → String → Json → σ → Prop)
    (hstep : ∀ m ∈ ds, ∀ s s', step s m.1 m.2 = .ok s' →
      ∃ j, m.2.toJson = .ok j ∧ effect s m.1 j s')
    (h : ds.foldlM (fun state m => step state m.1 m.2) start = .ok state) :
    ∃ js, toJsonMembers ds = .ok js ∧ Effects effect start js state := by
  induction ds generalizing start with
  | nil =>
    cases h
    exact ⟨[], rfl, .nil⟩
  | cons m ds ih =>
    rw [List.foldlM_cons] at h
    obtain ⟨s, hs, h⟩ := bind_eq_ok_iff.mp h
    obtain ⟨j, hj, hfirst⟩ := hstep m List.mem_cons_self start s hs
    obtain ⟨js, hjs, hrest⟩ := ih (fun m hm => hstep m (List.mem_cons_of_mem _ hm)) h
    refine ⟨(m.1, j) :: js, ?_, .cons hfirst hrest⟩
    rw [toJsonMembers, hj, hjs]
    rfl

theorem Effects.kept (kept : σ → List (String × Json)) (keep : String → Bool)
    (hkept : ∀ s key j s', effect s key j s' →
      kept s' = if keep key then Json.insert key j (kept s) else kept s)
    (h : Effects effect start js state) :
    kept state = Json.insertAll (kept start) (js.filter fun m => keep m.1) := by
  induction h with
  | nil => rfl
  | cons hfirst _ ih =>
    rw [ih, hkept _ _ _ _ hfirst, List.filter_cons]
    split <;> rfl

/-- What stands by a name is what its option means, and without a member by the name the option
stays as it was. -/
theorem Effects.sets {α : Type} (option : σ → Option α) {name : String} {means : Json → α → Prop}
    (hsets : ∀ s key j s', effect s key j s' → Sets name means key j (option s) (option s'))
    (h : Effects effect start js state) :
    (∀ j, js.reverse.lookup name = some j → ∃ a, means j a ∧ option state = some a) ∧
      (js.reverse.lookup name = none → option state = option start) := by
  induction h with
  | nil => exact ⟨nofun, fun _ => rfl⟩
  | @cons s s' s'' m ms hfirst _ ih =>
    have hset := hsets _ _ _ _ hfirst
    rw [List.reverse_cons, List.lookup_append, Json.lookup_cons_eq_ite]
    by_cases hname : m.1 = name
    · rw [Sets, if_pos hname] at hset
      obtain ⟨-, a, ha, hafter⟩ := hset
      rw [if_pos hname.symm]
      -- The member counts unless another one by the name comes later.
      cases hrest : ms.reverse.lookup name with
      | none =>
        refine ⟨fun j hj => ⟨a, ?_, ?_⟩, nofun⟩
        · rw [← Option.some.inj hj]
          exact ha
        · rw [ih.2 hrest, hafter]
      | some j' => exact ⟨fun j hj => ih.1 j (by rw [hrest]; exact hj), nofun⟩
    · rw [Sets, if_neg hname] at hset
      rw [if_neg (Ne.symm hname), List.lookup_nil, Option.or_none]
      exact ⟨ih.1, fun hnone => (ih.2 hnone).trans hset⟩

end

/-! ### What is read -/

namespace CompilerOptions

/-- The options are what the value says: its choices, and what has no meaning here as it is. -/
structure Means (j : Json) (o : CompilerOptions) : Prop where
  extra : ∀ key ∉ keys, o.extra.lookup key = j.get? key
  target : StandsFor ScriptTarget.names .esNext (j.get? "target") o.target
  module : StandsFor ModuleSystem.names .esNext (j.get? "module") o.module
  moduleResolution : StandsFor ModuleResolution.names .node (j.get? "moduleResolution")
    o.moduleResolution

/-- What has no meaning here can be written beside the options, in a place where so many levels are
open to it, without being taken for one. -/
structure WellFormed (depth : Nat) (o : CompilerOptions) : Prop where
  order : Json.InOrder o.extra
  unknown : ∀ m ∈ o.extra, m.1 ∉ keys
  legible : ∀ m ∈ o.extra, m.2.Legible depth ∧ m.2.Ordered

theorem standsFor_of_sets {α : Type} {names : List (String × α)} {fallback : α}
    {option : Option α} {js : List (String × Json)} {name : String}
    (h : (∀ j, js.reverse.lookup name = some j →
        ∃ a, StandsFor names fallback (some j) a ∧ option = some a) ∧
      (js.reverse.lookup name = none → option = none)) :
    StandsFor names fallback ((Json.object (Json.ofMembers js)).get? name)
      (option.getD fallback) := by
  rw [Json.get?, Json.lookup_ofMembers]
  cases hj : js.reverse.lookup name with
  | none =>
    rw [h.2 hj]
    exact standsFor_none
  | some j =>
    obtain ⟨a, ha, hoption⟩ := h.1 j hj
    rw [hoption]
    exact ha

theorem lookup_kept (keep : String → Bool) {js : List (String × Json)} {key : String}
    (hkey : keep key) : (Json.ofMembers (js.filter fun m => keep m.1)).lookup key =
      (Json.object (Json.ofMembers js)).get? key := by
  rw [Json.get?, Json.lookup_ofMembers, Json.lookup_ofMembers, ← List.filter_reverse,
    Json.lookup_filter hkey]

theorem legible_of_toJsonMembers {depth : Nat} {ds : List (String × JsonDocument)}
    {js : List (String × Json)} (hds : ∀ m ∈ ds, m.2.Legible depth)
    (hjs : toJsonMembers ds = .ok js) {m : String × Json} (hm : m ∈ js) :
    m.2.Legible depth ∧ m.2.Ordered := by
  obtain ⟨d, hd, hm⟩ := mem_toJsonMembers hjs hm
  exact (hds _ hd).toJson hm

theorem of_ofDocument {depth : Nat} {d : JsonDocument} {o : CompilerOptions}
    (hd : d.Legible (depth + 2)) (h : ofDocument d = .ok o) :
    ∃ j, d.toJson = .ok j ∧ o.Means j ∧ o.WellFormed (depth + 1) := by
  obtain ⟨n, hn, rfl⟩ : ∃ n, d.foldMembers NamedOptions.read {} = .ok n ∧ n.toOptions = o := by
    rw [ofDocument] at h
    cases hn : d.foldMembers NamedOptions.read {} with
    | error f =>
      rw [hn] at h
      cases h
    | ok n =>
      rw [hn] at h
      exact ⟨n, rfl, Except.ok.inj h⟩
  obtain ⟨ds, rfl, hfold⟩ := foldMembers_eq_ok_iff.mp hn
  obtain ⟨js, hjs, heffects⟩ := effects_of_foldlM NamedOptions.Effect
    (fun m _ s s' hs => NamedOptions.effect_of_read hs) hfold
  have hextra : n.extra = Json.ofMembers (js.filter fun m => m.1 ∉ keys) :=
    heffects.kept NamedOptions.extra (fun key => key ∉ keys)
      fun s key j s' hs => by simpa using hs.extra
  refine ⟨_, toJson_object_eq_ok_iff.mpr ⟨rfl, js, hjs, rfl⟩, ⟨?_, ?_, ?_, ?_⟩, ?_, ?_, ?_⟩
  · intro key hkey
    rw [NamedOptions.toOptions, hextra]
    exact lookup_kept (fun key => key ∉ keys) (decide_eq_true hkey)
  · exact standsFor_of_sets (heffects.sets NamedOptions.target fun _ _ _ _ hs => hs.target)
  · exact standsFor_of_sets (heffects.sets NamedOptions.module fun _ _ _ _ hs => hs.module)
  · exact standsFor_of_sets
      (heffects.sets NamedOptions.moduleResolution fun _ _ _ _ hs => hs.moduleResolution)
  · rw [NamedOptions.toOptions, hextra]
    exact Json.inOrder_ofMembers _
  · intro m hm
    rw [NamedOptions.toOptions, hextra] at hm
    exact of_decide_eq_true (List.mem_filter.mp (mem_of_mem_ofMembers hm)).2
  · intro m hm
    rw [NamedOptions.toOptions, hextra] at hm
    cases hd with
    | object hds =>
      exact legible_of_toJsonMembers hds hjs (List.mem_filter.mp (mem_of_mem_ofMembers hm)).1

end CompilerOptions

namespace Config

variable {depth : Nat}

def readMember (s : Option CompilerOptions × List (String × Json)) (key : String)
    (value : JsonDocument) : Except JsonFault (Option CompilerOptions × List (String × Json)) := do
  if key == "compilerOptions" then
    return (← once s.1 CompilerOptions.ofDocument value, s.2)
  else return (s.1, Json.insert key (← value.toJson) s.2)

theorem ofDocument_eq (d : JsonDocument) : ofDocument d =
    d.foldMembers readMember (none, []) >>= fun s => .ok ⟨s.1.getD {}, s.2⟩ := rfl

structure Effect (depth : Nat) (s : Option CompilerOptions × List (String × Json)) (key : String)
    (j : Json) (s' : Option CompilerOptions × List (String × Json)) : Prop where
  rest : s'.2 = if key ≠ "compilerOptions" then Json.insert key j s.2 else s.2
  options : Sets "compilerOptions" (fun j o => o.Means j ∧ o.WellFormed (depth + 1)) key j s.1 s'.1

theorem effect_of_readMember {s s' : Option CompilerOptions × List (String × Json)} {key : String}
    {d : JsonDocument} (hd : d.Legible (depth + 2)) (h : readMember s key d = .ok s') :
    ∃ j, d.toJson = .ok j ∧ Effect depth s key j s' := by
  rw [readMember] at h
  split at h
  case isTrue hkey =>
    obtain rfl := beq_iff_eq.mp hkey
    obtain ⟨v, hv, h⟩ := bind_eq_ok_iff.mp h
    cases h
    obtain ⟨hnone, o, ho, rfl⟩ := once_eq_ok_iff.mp hv
    obtain ⟨j, hj, hmeans⟩ := CompilerOptions.of_ofDocument hd ho
    exact ⟨j, hj, by rw [if_neg (by decide)], sets_of_none hnone hmeans⟩
  case isFalse hkey =>
    have hne : key ≠ "compilerOptions" := fun heq => hkey (beq_iff_eq.mpr heq)
    obtain ⟨j, hj, h⟩ := bind_eq_ok_iff.mp h
    cases h
    exact ⟨j, hj, by rw [if_pos hne], sets_of_ne hne⟩

/-- What has no meaning here can be written beside the options without being taken for them. -/
structure WellFormed (depth : Nat) (c : Config) : Prop where
  options : c.options.WellFormed (depth + 1)
  order : Json.InOrder c.rest
  unknown : ∀ m ∈ c.rest, m.1 ≠ "compilerOptions"
  legible : ∀ m ∈ c.rest, m.2.Legible (depth + 2) ∧ m.2.Ordered

/-- The configuration is what the value says. -/
structure Means (j : Json) (c : Config) : Prop where
  options : c.options.Means ((j.get? "compilerOptions").getD (.object []))
  rest : ∀ key, key ≠ "compilerOptions" → c.rest.lookup key = j.get? key

theorem of_ofDocument {d : JsonDocument} {c : Config} (hd : d.Legible (depth + 3))
    (h : ofDocument d = .ok c) : ∃ j, d.toJson = .ok j ∧ c.Means j ∧ c.WellFormed depth := by
  rw [ofDocument_eq] at h
  obtain ⟨⟨o, rest⟩, hread, h⟩ := bind_eq_ok_iff.mp h
  cases h
  obtain ⟨ds, rfl, hfold⟩ := foldMembers_eq_ok_iff.mp hread
  cases hd with
  | object hds =>
    obtain ⟨js, hjs, heffects⟩ := effects_of_foldlM (Effect depth)
      (fun m hm s s' hs => effect_of_readMember (hds m hm) hs) hfold
    have hrest : rest = Json.ofMembers (js.filter fun m => m.1 ≠ "compilerOptions") :=
      heffects.kept Prod.snd (fun key => key ≠ "compilerOptions")
        fun s key j s' hs => by simpa using hs.rest
    have hoptions := heffects.sets Prod.fst fun _ _ _ _ hs => hs.options
    have hmeant : (o.getD {}).Means
          (((Json.object (Json.ofMembers js)).get? "compilerOptions").getD (.object [])) ∧
        (o.getD {}).WellFormed (depth + 1) := by
      rw [Json.get?, Json.lookup_ofMembers]
      cases hj : js.reverse.lookup "compilerOptions" with
      | none =>
        obtain rfl : o = none := hoptions.2 hj
        exact ⟨⟨fun _ _ => rfl, standsFor_none, standsFor_none, standsFor_none⟩,
          ⟨.nil, fun m hm => absurd hm List.not_mem_nil, fun m hm => absurd hm List.not_mem_nil⟩⟩
      | some j =>
        obtain ⟨o', ho', heq⟩ := hoptions.1 j hj
        obtain rfl : o = some o' := heq
        exact ho'
    have hvalue : (object ds none).toJson = .ok (.object (Json.ofMembers js)) :=
      toJson_object_eq_ok_iff.mpr ⟨rfl, js, hjs, rfl⟩
    refine ⟨_, hvalue, ⟨hmeant.1, ?_⟩, hmeant.2, ?_, ?_, ?_⟩
    · intro key hkey
      rw [hrest]
      exact CompilerOptions.lookup_kept (fun key => key ≠ "compilerOptions")
        (decide_eq_true hkey)
    · rw [hrest]
      exact Json.inOrder_ofMembers _
    · intro m hm
      rw [hrest] at hm
      exact of_decide_eq_true (List.mem_filter.mp (mem_of_mem_ofMembers hm)).2
    · intro m hm
      rw [hrest] at hm
      exact CompilerOptions.legible_of_toJsonMembers hds hjs
        (List.mem_filter.mp (mem_of_mem_ofMembers hm)).1

end Config

end CompilingProxy
