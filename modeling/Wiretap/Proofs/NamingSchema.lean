import Wiretap.Naming.Decoding
import Wiretap.Proofs.JsonValues
import Wiretap.Proofs.Success

/-! Which JSON values describe a naming convention. A value does so if it is an object whose member
`naming`, if there is one, is an object of options of the right sort and of no others. The
convention takes the options that are given and the defaults of the rest. Every other value is
refused, and on no value does the decoder ask for a part that is not there. -/

namespace Wiretap

open Json

namespace Naming

/-! ### The schema -/

/-- The options that an object may hold, and what each of them has to be. -/
structure Admits (options : List (String × Json)) : Prop where
  known : ∀ m ∈ options, m.1 ∈ ["public_prefix", "private_prefix", "leak_prefixes"]
  stem : ∀ name ∈ ["public_prefix", "private_prefix"], ∀ value, HasMember options name value →
    ∃ text, text ≠ "" ∧ value = .string text
  stems : ∀ value, HasMember options "leak_prefixes" value →
    ∃ texts : List String, (∀ text ∈ texts, text ≠ "") ∧ value = .array (texts.map .string)

/-- The JSON values that describe a convention. -/
def Documented (value : Json) : Prop :=
  ∃ members, value = .object members ∧ ∀ inner, HasMember members "naming" inner →
    ∃ options, inner = .object options ∧ Admits options

/-- The option `name` is given as `value`, or it is not given and `value` is its default. -/
def Sets {α : Type} (options : List (String × Json)) (name : String) (write : α → Json)
    (default value : α) : Prop :=
  HasMember options name (write value) ∨ Lacks options name ∧ value = default

/-- The convention takes the options that are given and the defaults of the others. -/
structure Settles (options : List (String × Json)) (naming : Naming) : Prop where
  publicStem : Sets options "public_prefix" .string "pk" naming.publicStem
  privateStem : Sets options "private_prefix" .string "sk" naming.privateStem
  leakStems : Sets options "leak_prefixes" .strings ["K_", "M", "sk"] naming.leakStems

/-- `options` are the options of the value, none if it does not name them. -/
def OptionsOf (value : Json) (options : List (String × Json)) : Prop :=
  ∃ members, value = .object members ∧
    (HasMember members "naming" (.object options) ∨ Lacks members "naming" ∧ options = [])

/-! ### Reading options -/

section Options

variable {options : List (String × Json)} {name : String} {α : Type} {write : α → Json}
  {good : α → Prop} {default : α}

theorem hasMember_or_lacks (options : List (String × Json)) (name : String) :
    (∃ value, HasMember options name value) ∨ Lacks options name := by
  cases h : lookup name options with
  | none => exact .inr (lookup_eq_none_iff.mp h)
  | some value => exact .inl ⟨value, lookup_eq_some_iff.mp h⟩

theorem exists_sets (h : ∀ value, HasMember options name value → ∃ a, good a ∧ value = write a)
    (default : α) : ∃ a, Sets options name write default a := by
  rcases hasMember_or_lacks options name with ⟨value, hvalue⟩ | hlacks
  · obtain ⟨a, -, rfl⟩ := h value hvalue
    exact ⟨a, .inl hvalue⟩
  · exact ⟨default, .inr ⟨hlacks, rfl⟩⟩

/-- An option that is read where it is given has the value that is written there, and no value that
is written there is refused. -/
theorem given_eq_ok_iff {read : Json → Except NamingError α} (hwrite : write.Injective)
    (hread : ∀ value a, read value = .ok a ↔ good a ∧ value = write a) {a : α} :
    (lookup name options).elim (.ok default) read = .ok a ↔
      Sets options name write default a ∧
        ∀ value, HasMember options name value → ∃ b, good b ∧ value = write b := by
  rcases hasMember_or_lacks options name with ⟨value, hvalue⟩ | hlacks
  · rw [lookup_eq_some_iff.mpr hvalue, Option.elim_some, hread]
    constructor
    · rintro ⟨ha, rfl⟩
      refine ⟨.inl hvalue, fun other hother => ⟨a, ha, ?_⟩⟩
      exact hother.unique hvalue
    · rintro ⟨hsets | ⟨hlacks, -⟩, hall⟩
      · obtain rfl := hvalue.unique hsets
        obtain ⟨b, hb, heq⟩ := hall _ hvalue
        exact ⟨hwrite heq ▸ hb, rfl⟩
      · exact absurd hlacks hvalue.not_lacks
  · rw [lookup_eq_none_iff.mpr hlacks, Option.elim_none]
    have hnone : ∀ value, ¬HasMember options name value := fun value h => h.not_lacks hlacks
    constructor
    · rintro h
      cases h
      exact ⟨.inr ⟨hlacks, rfl⟩, fun value h => absurd h (hnone value)⟩
    · rintro ⟨hsets | ⟨-, rfl⟩, -⟩
      · exact absurd hsets (hnone _)
      · rfl

end Options

/-- The text of an option that has to be a text and not empty. -/
def readStem (name : String) : Json → Except NamingError String
  | .string s => if s.isEmpty then .error (.badStem name) else .ok s
  | _ => .error (.badStem name)

/-- The texts of an option that has to be an array of texts that are not empty. -/
def readStems : Json → Except NamingError (List String)
  | .array items =>
    match texts? items with
    | none => .error .badLeakStems
    | some texts => if texts.any (·.isEmpty) then .error .badLeakStems else .ok texts
  | _ => .error .badLeakStems

theorem stem_eq (name default : String) (options : List (String × Json)) :
    stem name default options = (lookup name options).elim (.ok default) (readStem name) := by
  unfold stem
  cases lookup name options with
  | none => rfl
  | some value => cases value <;> rfl

theorem stems_eq (default : List String) (options : List (String × Json)) :
    stems default options = (lookup "leak_prefixes" options).elim (.ok default) readStems := by
  unfold stems
  cases lookup "leak_prefixes" options with
  | none => rfl
  | some value => cases value <;> rfl

theorem readStem_eq_ok_iff (name : String) (value : Json) (text : String) :
    readStem name value = .ok text ↔ text ≠ "" ∧ value = .string text := by
  cases value with
  | string s =>
    by_cases hs : s = ""
    · have hread : readStem name (.string s) = .error (.badStem name) := if_pos (by simp [hs])
      rw [hread]
      constructor
      · exact nofun
      · rintro ⟨htext, heq⟩
        cases heq
        exact absurd hs htext
    · have hread : readStem name (.string s) = .ok s := if_neg (by simp [hs])
      rw [hread]
      constructor
      · rintro h
        cases h
        exact ⟨hs, rfl⟩
      · rintro ⟨-, heq⟩
        cases heq
        rfl
  | _ => simp [readStem]

theorem readStems_eq_ok_iff (value : Json) (texts : List String) :
    readStems value = .ok texts ↔ (∀ text ∈ texts, text ≠ "") ∧ value = .strings texts := by
  cases value with
  | array items =>
    have hitems : Json.array items = .strings texts ↔ texts? items = some texts := by
      rw [strings, Json.array.injEq, texts?_eq_some_iff]
    rw [hitems]
    simp only [readStems]
    cases htexts : texts? items with
    | none => simp
    | some given =>
      dsimp only
      by_cases hempty : given.any (·.isEmpty) = true
      · rw [if_pos hempty]
        constructor
        · exact nofun
        · rintro ⟨hall, heq⟩
          cases heq
          obtain ⟨text, hmem, htext⟩ := List.any_eq_true.mp hempty
          exact absurd (by simpa using htext) (hall text hmem)
      · rw [if_neg hempty]
        constructor
        · rintro h
          cases h
          refine ⟨fun text hmem htext => hempty ?_, rfl⟩
          exact List.any_eq_true.mpr ⟨text, hmem, by simp [htext]⟩
        · rintro ⟨-, heq⟩
          cases heq
          rfl
  | _ => simp [readStems, strings]

/-! ### The schema is what is decoded -/

variable {options : List (String × Json)}

theorem stem_eq_ok_iff {name default text : String} :
    stem name default options = .ok text ↔ Sets options name .string default text ∧
      ∀ value, HasMember options name value → ∃ s, s ≠ "" ∧ value = .string s := by
  rw [stem_eq]
  exact given_eq_ok_iff string_injective (readStem_eq_ok_iff name)

theorem stems_eq_ok_iff {default texts : List String} :
    stems default options = .ok texts ↔ Sets options "leak_prefixes" .strings default texts ∧
      ∀ value, HasMember options "leak_prefixes" value →
        ∃ given : List String, (∀ s ∈ given, s ≠ "") ∧ value = .strings given := by
  rw [stems_eq]
  exact given_eq_ok_iff strings_injective readStems_eq_ok_iff

/-- The names among the options that no option has. -/
def unknown (options : List (String × Json)) : List String :=
  (options.map (·.1)).filter (!Naming.options.contains ·)

theorem unknown_eq_nil_iff :
    unknown options = [] ↔
      ∀ m ∈ options, m.1 ∈ ["public_prefix", "private_prefix", "leak_prefixes"] := by
  unfold unknown
  rw [List.filter_eq_nil_iff, List.forall_mem_map]
  simp only [Bool.not_eq_true', Bool.not_eq_false, List.contains_eq_mem, decide_eq_true_eq]
  rfl

theorem ofOptions_of_unknown (h : unknown options ≠ []) :
    ofOptions options = .error (.unknownOptions (Terms.ofList (unknown options)).toList) := by
  have hempty : (unknown options).isEmpty = false := by simpa using h
  unfold unknown at hempty
  simp only [ofOptions, hempty]
  rfl

theorem ofOptions_of_known (h : unknown options = []) :
    ofOptions options = (do
      let publicStem ← stem "public_prefix" "pk" options
      let privateStem ← stem "private_prefix" "sk" options
      let leakStems ← stems ["K_", "M", "sk"] options
      return { publicStem, privateStem, leakStems }) := by
  have hempty : (unknown options).isEmpty = true := by simp [h]
  unfold unknown at hempty
  simp only [ofOptions, hempty]
  rfl

theorem ofOptions_eq_ok_iff {naming : Naming} :
    ofOptions options = .ok naming ↔ Admits options ∧ Settles options naming := by
  by_cases hknown : unknown options = []
  · rw [ofOptions_of_known hknown]
    simp only [bind_eq_ok_iff, stem_eq_ok_iff, stems_eq_ok_iff, pure, Except.pure, Except.ok.injEq]
    constructor
    · rintro ⟨_, ⟨hpublic, hpublic'⟩, _, ⟨hprivate, hprivate'⟩, _, ⟨hleak, hleak'⟩, rfl⟩
      refine ⟨⟨unknown_eq_nil_iff.mp hknown, ?_, hleak'⟩, hpublic, hprivate, hleak⟩
      rw [List.forall_mem_cons, List.forall_mem_singleton]
      exact ⟨hpublic', hprivate'⟩
    · rintro ⟨admits, settles⟩
      exact ⟨_, ⟨settles.publicStem, admits.stem _ (by simp)⟩, _,
        ⟨settles.privateStem, admits.stem _ (by simp)⟩, _,
        ⟨settles.leakStems, admits.stems⟩, rfl⟩
  · rw [ofOptions_of_unknown hknown]
    constructor
    · exact nofun
    · exact fun h => absurd (unknown_eq_nil_iff.mpr h.1.known) hknown

theorem Admits.exists_settles (h : Admits options) : ∃ naming, Settles options naming := by
  obtain ⟨publicStem, hpublic⟩ := exists_sets (h.stem "public_prefix" (by simp)) "pk"
  obtain ⟨privateStem, hprivate⟩ := exists_sets (h.stem "private_prefix" (by simp)) "sk"
  obtain ⟨leakStems, hleak⟩ : ∃ texts, Sets options "leak_prefixes" .strings _ texts :=
    exists_sets h.stems ["K_", "M", "sk"]
  exact ⟨⟨publicStem, privateStem, leakStems⟩, hpublic, hprivate, hleak⟩

/-- The convention that the member `naming` describes. -/
def ofInner : Json → Except NamingError Naming
  | .object options => ofOptions options
  | _ => .error .namingNotAnObject

theorem ofJson_object (members : List (String × Json)) :
    ofJson (.object members) = (lookup "naming" members).elim (ofInner (.object [])) ofInner := by
  unfold ofJson
  dsimp only
  cases lookup "naming" members with
  | none => rfl
  | some inner => cases inner <;> rfl

theorem ofInner_eq_ok_iff {inner : Json} {naming : Naming} :
    ofInner inner = .ok naming ↔
      ∃ options, inner = .object options ∧ Admits options ∧ Settles options naming := by
  cases inner with
  | object options => simp [ofInner, ofOptions_eq_ok_iff]
  | _ => simp [ofInner]

theorem ofJson_eq_ok_iff {value : Json} {naming : Naming} :
    ofJson value = .ok naming ↔
      ∃ options, OptionsOf value options ∧ Admits options ∧ Settles options naming := by
  cases value with
  | object members =>
    rw [ofJson_object]
    rcases hasMember_or_lacks members "naming" with ⟨inner, hinner⟩ | hlacks
    · rw [lookup_eq_some_iff.mpr hinner, Option.elim_some, ofInner_eq_ok_iff]
      constructor
      · rintro ⟨options, rfl, h⟩
        exact ⟨options, ⟨members, rfl, .inl hinner⟩, h⟩
      · rintro ⟨options, ⟨_, heq, hoptions | ⟨hlacks, -⟩⟩, h⟩
        · cases heq
          exact ⟨options, hinner.unique hoptions, h⟩
        · cases heq
          exact absurd hlacks hinner.not_lacks
    · rw [lookup_eq_none_iff.mpr hlacks, Option.elim_none, ofInner_eq_ok_iff]
      constructor
      · rintro ⟨options, heq, h⟩
        cases heq
        exact ⟨[], ⟨members, rfl, .inr ⟨hlacks, rfl⟩⟩, h⟩
      · rintro ⟨options, ⟨_, heq, hoptions | ⟨-, rfl⟩⟩, h⟩
        · cases heq
          exact absurd hlacks hoptions.not_lacks
        · exact ⟨[], rfl, h⟩
  | _ => simp [ofJson, OptionsOf]

theorem documented_iff {value : Json} :
    Documented value ↔ ∃ options, OptionsOf value options ∧ Admits options := by
  constructor
  · rintro ⟨members, rfl, h⟩
    rcases hasMember_or_lacks members "naming" with ⟨inner, hinner⟩ | hlacks
    · obtain ⟨options, rfl, admits⟩ := h inner hinner
      exact ⟨options, ⟨members, rfl, .inl hinner⟩, admits⟩
    · have admits : Admits [] := by
        have hnone (name : String) (inner : Json) : ¬HasMember [] name inner :=
          fun h => h.not_lacks fun m hm => nomatch hm
        exact ⟨nofun, fun name _ value hvalue => absurd hvalue (hnone name value),
          fun value hvalue => absurd hvalue (hnone _ value)⟩
      exact ⟨[], ⟨members, rfl, .inr ⟨hlacks, rfl⟩⟩, admits⟩
  · rintro ⟨options, ⟨members, rfl, hoptions | ⟨hlacks, rfl⟩⟩, admits⟩
    · exact ⟨members, rfl, fun inner hinner => ⟨options, hinner.unique hoptions, admits⟩⟩
    · exact ⟨members, rfl, fun inner hinner => absurd hlacks hinner.not_lacks⟩

/-! ### Taking a value apart -/

/-- What can go wrong where a value is taken apart: it is refused, or it is asked for a part that it
does not have. -/
inductive Trouble where
  | refused (error : NamingError)
  | noMembers
  | noMember (name : String)
  | noItems
  | noText

def membersOf : Json → Except Trouble (List (String × Json))
  | .object members => .ok members
  | _ => .error .noMembers

def memberOf (name : String) (members : List (String × Json)) : Except Trouble Json :=
  match lookup name members with
  | some value => .ok value
  | none => .error (.noMember name)

def itemsOf : Json → Except Trouble (List Json)
  | .array items => .ok items
  | _ => .error .noItems

def textOf : Json → Except Trouble String
  | .string s => .ok s
  | _ => .error .noText

def isObject : Json → Bool
  | .object _ => true
  | _ => false

def isArray : Json → Bool
  | .array _ => true
  | _ => false

/-- Whether a value is a text that is not empty. -/
def isStem : Json → Bool
  | .string s => !s.isEmpty
  | _ => false

/-- What `read` makes of the member `name`, or `default` if there is none. -/
def whereGiven {α : Type} (name : String) (members : List (String × Json)) (default : α)
    (read : Json → Except Trouble α) : Except Trouble α := do
  if members.any (·.1 == name) then
    read (← memberOf name members)
  else return default

def stemByParts (name : String) (value : Json) : Except Trouble String :=
  if isStem value then textOf value else throw (.refused (.badStem name))

def stemsByParts (value : Json) : Except Trouble (List String) := do
  if !isArray value then throw (.refused .badLeakStems)
  let items ← itemsOf value
  if items.all isStem then items.mapM textOf else throw (.refused .badLeakStems)

def knownByParts (options : List (String × Json)) : Except Trouble Naming := do
  let publicStem ← whereGiven "public_prefix" options "pk" (stemByParts "public_prefix")
  let privateStem ← whereGiven "private_prefix" options "sk" (stemByParts "private_prefix")
  let leakStems ← whereGiven "leak_prefixes" options ["K_", "M", "sk"] stemsByParts
  return { publicStem, privateStem, leakStems }

def innerByParts (inner : Json) : Except Trouble Naming := do
  if !isObject inner then throw (.refused .namingNotAnObject)
  let options ← membersOf inner
  if !(unknown options).isEmpty then
    throw (.refused (.unknownOptions (Terms.ofList (unknown options)).toList))
  knownByParts options

/-- The convention that a JSON value describes, by tests of what a value is and by looks at its
parts, which fail where there is no such part. -/
def ofJsonByParts (value : Json) : Except Trouble Naming := do
  if !isObject value then throw (.refused .notAnObject)
  innerByParts (← whereGiven "naming" (← membersOf value) (.object []) pure)

section Parts

variable {α β : Type} {name : String} {members : List (String × Json)}

theorem whereGiven_eq (default : α) (read : Json → Except Trouble α) :
    whereGiven name members default read = (lookup name members).elim (.ok default) read := by
  unfold whereGiven memberOf
  rcases hasMember_or_lacks members name with ⟨value, hvalue⟩ | hlacks
  · have hany : members.any (·.1 == name) = true := by
      obtain ⟨front, back, rfl, -⟩ := hvalue
      simp
    rw [hany, lookup_eq_some_iff.mpr hvalue]
    rfl
  · have hany : members.any (·.1 == name) = false := by simpa [Lacks] using hlacks
    rw [hany, lookup_eq_none_iff.mpr hlacks]
    rfl

/-- A refusal stays one where its place among other troubles is told. -/
theorem elim_mapError {default : α} {read : Json → Except NamingError α}
    {readByParts : Json → Except Trouble α}
    (h : ∀ value, readByParts value = (read value).mapError .refused) (given : Option Json) :
    given.elim (.ok default) readByParts =
      (given.elim (.ok default) read).mapError .refused := by
  cases given with
  | none => rfl
  | some value => exact h value

end Parts

theorem stemByParts_eq (name : String) (value : Json) :
    stemByParts name value = (readStem name value).mapError .refused := by
  cases value with
  | string s =>
    simp only [stemByParts, readStem, isStem, textOf]
    by_cases hs : s.isEmpty = true
    · simp only [hs]
      rfl
    · simp only [hs]
      rfl
  | _ => rfl

theorem exists_texts {items : List Json} (h : items.all isStem = true) :
    ∃ texts : List String, items = texts.map .string := by
  induction items with
  | nil => exact ⟨[], rfl⟩
  | cons item items ih =>
    rw [List.all_cons, Bool.and_eq_true] at h
    obtain ⟨texts, rfl⟩ := ih h.2
    cases item with
    | string s => exact ⟨s :: texts, rfl⟩
    | _ => cases h.1

theorem stemsByParts_eq (value : Json) :
    stemsByParts value = (readStems value).mapError .refused := by
  cases value with
  | array items =>
    show (if items.all isStem then items.mapM textOf else throw (.refused .badLeakStems)) =
      (readStems (.array items)).mapError .refused
    unfold readStems
    dsimp only
    cases htexts : texts? items with
    | none =>
      have hall : ¬items.all isStem = true := by
        intro hall
        obtain ⟨texts, hitems⟩ := exists_texts hall
        cases htexts.symm.trans (texts?_eq_some_iff.mpr hitems)
      rw [if_neg hall]
      rfl
    | some texts =>
      obtain rfl := texts?_eq_some_iff.mp htexts
      have hall : (texts.map Json.string).all isStem = !texts.any (·.isEmpty) := by
        rw [List.all_map, List.not_any_eq_all_not]
        rfl
      dsimp only
      have htextOf : (texts.map Json.string).mapM textOf = .ok texts := by
        rw [List.mapM_map, mapM_eq_ok (f := textOf ∘ Json.string) (g := id) fun _ _ => rfl,
          List.map_id]
      rw [hall, htextOf]
      cases texts.any (·.isEmpty) with
      | true => rfl
      | false => rfl
  | _ => rfl

theorem knownByParts_eq {options : List (String × Json)} (h : unknown options = []) :
    knownByParts options = (ofOptions options).mapError .refused := by
  rw [ofOptions_of_known h]
  simp only [knownByParts, whereGiven_eq, bind_mapError, stem_eq, stems_eq,
    elim_mapError (stemByParts_eq _), elim_mapError stemsByParts_eq]
  rfl

theorem innerByParts_eq (inner : Json) :
    innerByParts inner = (ofInner inner).mapError .refused := by
  cases inner with
  | object options =>
    show (if (!(unknown options).isEmpty) = true then _ else knownByParts options) =
      (ofOptions options).mapError .refused
    by_cases hknown : unknown options = []
    · rw [if_neg (by simp [hknown]), knownByParts_eq hknown]
    · rw [if_pos (by simpa using hknown), ofOptions_of_unknown hknown]
      rfl
  | _ => rfl

theorem ofJsonByParts_eq (value : Json) :
    ofJsonByParts value = (ofJson value).mapError .refused := by
  cases value with
  | object members =>
    show (whereGiven "naming" members (.object []) pure >>= innerByParts) = _
    rw [ofJson_object, whereGiven_eq]
    cases lookup "naming" members with
    | none => exact innerByParts_eq (.object [])
    | some inner => exact innerByParts_eq inner
  | _ => rfl

/-! ### Exactness -/

/-- A convention whose stems are not empty can be read back from its JSON value. -/
theorem ofJson_toJson {naming : Naming} (hpublic : naming.publicStem ≠ "")
    (hprivate : naming.privateStem ≠ "") (hleak : ∀ s ∈ naming.leakStems, s ≠ "") :
    ofJson naming.toJson = .ok naming := by
  unfold toJson
  generalize hoptions : [("public_prefix", Json.string naming.publicStem),
    ("private_prefix", .string naming.privateStem),
    ("leak_prefixes", .strings naming.leakStems)] = options
  have hgiven : lookup "public_prefix" options = some (.string naming.publicStem) ∧
      lookup "private_prefix" options = some (.string naming.privateStem) ∧
      lookup "leak_prefixes" options = some (.strings naming.leakStems) := by
    subst hoptions
    simp [lookup]
  have hknown : unknown options = [] := by
    subst hoptions
    simp [unknown, Naming.options]
  have hnaming : lookup "naming" [("naming", .object options)] = some (.object options) := by
    simp [lookup]
  rw [ofJson_object, hnaming, Option.elim_some]
  show ofOptions options = .ok naming
  rw [ofOptions_of_known hknown, stem_eq, stem_eq, stems_eq, hgiven.1, hgiven.2.1, hgiven.2.2,
    Option.elim_some, Option.elim_some, Option.elim_some,
    (readStem_eq_ok_iff _ _ _).mpr ⟨hpublic, rfl⟩, (readStem_eq_ok_iff _ _ _).mpr ⟨hprivate, rfl⟩,
    (readStems_eq_ok_iff _ _).mpr ⟨hleak, rfl⟩]
  rfl

/-- The decoder accepts the documented values and refuses all others, and no look at a part of a
value goes amiss. The convention takes what is given, in the order in which it is given, and the
defaults of the rest; so every convention without empty stems is read back from its JSON value. -/
theorem ofJson_exact :
    (∀ value, ofJsonByParts value = (ofJson value).mapError .refused) ∧
    (∀ value, (∃ naming, ofJson value = .ok naming) ↔ Documented value) ∧
    (∀ value naming, ofJson value = .ok naming →
      ∃ options, OptionsOf value options ∧ Settles options naming) ∧
    ∀ naming : Naming, naming.publicStem ≠ "" → naming.privateStem ≠ "" →
      (∀ s ∈ naming.leakStems, s ≠ "") → ofJson naming.toJson = .ok naming := by
  refine ⟨ofJsonByParts_eq, fun value => ?_, fun value naming h => ?_,
    fun naming hpublic hprivate hleak => ofJson_toJson hpublic hprivate hleak⟩
  · rw [documented_iff]
    constructor
    · rintro ⟨naming, h⟩
      obtain ⟨options, hoptions, admits, -⟩ := ofJson_eq_ok_iff.mp h
      exact ⟨options, hoptions, admits⟩
    · rintro ⟨options, hoptions, admits⟩
      obtain ⟨naming, settles⟩ := admits.exists_settles
      exact ⟨naming, ofJson_eq_ok_iff.mpr ⟨options, hoptions, admits, settles⟩⟩
  · obtain ⟨options, hoptions, -, settles⟩ := ofJson_eq_ok_iff.mp h
    exact ⟨options, hoptions, settles⟩

/-- Two of the options, in an object that holds `naming` twice. -/
def twoOptions : Json :=
  .object [("naming", .null), ("version", .number "2"),
    ("naming", .object [("leak_prefixes", .strings ["s", "K"]), ("public_prefix", .string "p")])]

/-- An empty text among the stems. -/
def emptyStem : Json :=
  .object [("naming", .object [("leak_prefixes", .strings ["K", ""])])]

theorem ofJson_exact_twoOptions :
    Documented twoOptions ∧
    (∃ options, OptionsOf twoOptions options ∧ Settles options ⟨"p", "sk", ["s", "K"]⟩) ∧
    ¬Documented emptyStem ∧ ofJson (toJson ⟨"p", "q", []⟩) = .ok ⟨"p", "q", []⟩ := by
  obtain ⟨-, hdocumented, hsettles, hback⟩ := ofJson_exact
  have htwo : ofJson twoOptions = .ok ⟨"p", "sk", ["s", "K"]⟩ := by decide +kernel
  have hempty : ofJson emptyStem = .error .badLeakStems := by decide +kernel
  refine ⟨(hdocumented _).mp ⟨_, htwo⟩, hsettles _ _ htwo, fun h => ?_,
    hback ⟨"p", "q", []⟩ (by decide) (by decide) (by decide)⟩
  obtain ⟨naming, hnaming⟩ := (hdocumented _).mpr h
  cases hempty.symm.trans hnaming

end Naming

end Wiretap
