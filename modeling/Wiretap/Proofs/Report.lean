import Wiretap.Proofs.Declarations
import Wiretap.Proofs.LeastKnowledge
import Wiretap.Report.Basic

/-! The report on a protocol. It shows what each principal knows at the end of a run, the adversary
last, and its verdict lists what the adversary knows and should not: the keys that open ciphertexts
first, then the words that are no keys and no names of constructed values. -/

namespace Wiretap

/-! ### Kinds of terms -/

theorem bar_of_hasBars {cs : List Char} (h : isStructured.hasBars cs = true) : '|' ∈ cs := by
  fun_induction isStructured.hasBars cs with
  | case1 => exact List.mem_cons_self
  | case2 _ _ _ ih => exact List.mem_cons_of_mem _ (ih h)
  | case3 => exact nomatch h

/-- Words show neither constructors nor concatenations. -/
theorem isStructured_of_isWord {t : String} (h : Text.isWord t = true) :
    isStructured t = false := by
  have hchars : ∀ c ∈ t.toList, Text.isWordChar c = true := by
    rw [Text.isWord, Bool.and_eq_true] at h
    exact List.all_eq_true.mp h.2
  have hparen : t.toList.contains '(' = false := by
    by_contra hmem
    have := hchars '(' (by simpa using hmem)
    exact absurd this (by decide)
  have hbars : isStructured.hasBars t.toList = false := by
    by_contra hbars
    have := hchars '|' (bar_of_hasBars (by simpa using hbars))
    exact absurd this (by decide)
  rw [isStructured, hparen, hbars]
  rfl

section Buckets

variable {table : KeyTable} {lowered : List String} {t : String}

theorem bucket_eq_secret_iff : bucket table lowered t = .secret ↔ table.Unlocks t := by
  rw [← KeyTable.opens_iff]
  unfold bucket
  constructor
  · intro h
    split at h
    · assumption
    · split at h
      · cases h
      · split at h <;> cases h
  · intro h
    rw [if_pos h]

theorem bucket_eq_plaintext_iff :
    bucket table lowered t = .plaintext ↔
      Text.isWord t = true ∧ table.kind? t = none ∧ Text.lowercase t ∉ lowered := by
  unfold bucket
  constructor
  · intro h
    split at h
    · cases h
    · split at h
      · cases h
      · rename_i hobserved
        split at h
        · rename_i hplain
          simp only [Bool.and_eq_true, Option.isNone_iff_eq_none] at hplain
          refine ⟨hplain.1, hplain.2, fun hmem => hobserved ?_⟩
          simp [hmem]
        · cases h
  · rintro ⟨hword, hkind, hlowered⟩
    have hopens : table.opens t = false := by simp [KeyTable.opens, hkind]
    simp [hopens, isStructured_of_isWord hword, hlowered, hword, hkind]

end Buckets

namespace View

variable {v : View} {table : KeyTable} {constructed : List String} {t : String}

theorem mem_secrets :
    t ∈ (v.profile table constructed).secrets ↔ t ∈ v.knows ∧ table.Unlocks t := by
  unfold profile classify
  dsimp only
  rw [List.mem_filter, decide_eq_true_eq, bucket_eq_secret_iff, Terms.mem_def]

theorem mem_plaintext :
    t ∈ (v.profile table constructed).plaintext ↔
      t ∈ v.knows ∧ Text.isWord t = true ∧ table.kind? t = none ∧
        ∀ x ∈ constructed, Text.lowercase x ≠ Text.lowercase t := by
  unfold profile classify
  dsimp only
  rw [List.mem_filter, decide_eq_true_eq, bucket_eq_plaintext_iff, Terms.mem_def, List.mem_map]
  simp

theorem secrets_ascending (v : View) (table : KeyTable) (constructed : List String) :
    (v.profile table constructed).secrets.Pairwise (· < ·) :=
  v.knows.ascending.filter _

theorem plaintext_ascending (v : View) (table : KeyTable) (constructed : List String) :
    (v.profile table constructed).plaintext.Pairwise (· < ·) :=
  v.knows.ascending.filter _

end View

/-! ### Profiles -/

namespace Protocol

variable {p : Protocol} {naming : Naming} {name : String}

/-- The profile of a principal by what it knows at the end of a run. -/
def Profiles (p : Protocol) (naming : Naming) (who : String) (profile : Profile) : Prop :=
  ∃ v, p.Leaves naming who v ∧ profile = v.profile p.keyTable p.constructed

theorem Profiles.name_eq {profile : Profile} (h : p.Profiles naming name profile) :
    profile.name = name := by
  obtain ⟨v, leaves, rfl⟩ := h
  exact leaves.name

theorem Profiles.isAdversary_iff {profile : Profile} (h : p.Profiles naming name profile) :
    profile.isAdversary = true ↔ name = adversary := by
  simp [Profile.isAdversary, h.name_eq]

theorem map_name_of_profiles {names : List String} {profiles : List Profile}
    (h : List.Forall₂ (p.Profiles naming) names profiles) : profiles.map (·.name) = names := by
  rw [← List.forall₂_eq_eq_eq, List.forall₂_map_left_iff]
  exact (h.imp fun _ _ h => h.name_eq).flip

/-- What a report has to show: the other principals, the adversary behind them, and the verdict on
the adversary. -/
structure Reports (p : Protocol) (naming : Naming) (others : List Profile) (last : Profile)
    (report : Report) : Prop where
  profiles : report.profiles = others ++ [last]
  verdict : report.verdict = last.judge naming
  others : List.Forall₂ (p.Profiles naming) p.others others
  last : p.Profiles naming adversary last

theorem Reports.eq {others : List Profile} {last : Profile} {report : Report}
    (h : p.Reports naming others last report) :
    report = ⟨others ++ [last], last.judge naming⟩ := by
  obtain ⟨profiles, verdict⟩ := report
  rw [← h.profiles, ← h.verdict]

theorem reports_of_leaves {k : Knowledge}
    (h : List.Forall₂ (p.Leaves naming) p.principals k.views) :
    ∃ others last, p.Reports naming others last (k.report p naming) := by
  have hprofiles : List.Forall₂ (p.Profiles naming) p.principals
      (k.views.map (·.profile p.keyTable p.constructed)) :=
    List.forall₂_map_right_iff.mpr (h.imp fun _ v leaves => ⟨v, leaves, rfl⟩)
  unfold Knowledge.report
  dsimp only
  generalize k.views.map (·.profile p.keyTable p.constructed) = profiles at hprofiles
  have hothers : List.Forall₂ (p.Profiles naming) p.others (profiles.filter (!·.isAdversary)) :=
    List.rel_filter (fun _ _ h => by simp [h.isAdversary_iff, ← Bool.not_eq_true]) hprofiles
  have hlast : List.Forall₂ (p.Profiles naming) [adversary] (profiles.filter (·.isAdversary)) := by
    rw [← filter_adversary p]
    exact List.rel_filter (fun _ _ h => by simp [h.isAdversary_iff]) hprofiles
  obtain ⟨last, hlast, heq⟩ : ∃ last, p.Profiles naming adversary last ∧
      profiles.filter (·.isAdversary) = [last] := by
    cases hfilter : profiles.filter (·.isAdversary) with
    | nil =>
      rw [hfilter] at hlast
      cases hlast
    | cons last rest =>
      rw [hfilter] at hlast
      cases hlast with
      | cons h hrest =>
        cases hrest
        exact ⟨last, h, rfl⟩
  refine ⟨_, last, ?_, ?_, hothers, hlast⟩
  · rw [adversaryLast, heq]
  · rw [adversaryLast, heq, List.getLast?_concat]
    rfl

/-- Protocols whose messages carry statements are analysed without a fault. -/
theorem analyze_reports (p : Protocol) (naming : Naming)
    (hp : ∀ m ∈ p.messages, m.body.IsStatement) :
    ∃ a, p.analyze naming = .ok a ∧ ∃ others last, p.Reports naming others last a.report := by
  have hfault := derive_fault p naming .byText hp
  refine ⟨_, by simp only [analyze, hfault]; rfl, ?_⟩
  exact reports_of_leaves (derive_leaves p naming .byText hp)

/-- The order in which ciphertexts are tried does not show in the report. -/
theorem report_analyze (schedule : Schedule) (hp : ∀ m ∈ p.messages, m.body.IsStatement)
    {a : Analysis} (ha : p.analyze naming = .ok a) :
    a.report = (p.derive naming schedule).state.report p naming := by
  simp only [analyze, derive_fault p naming .byText hp] at ha
  cases ha
  unfold Knowledge.report
  rw [derive_views_schedule p naming schedule .byText hp]

/-! ### The verdict -/

/-- The names that messages give to constructed values. -/
theorem mem_constructed {x : String} :
    x ∈ p.constructed ↔
      ∃ m ∈ p.messages, ∃ value, m.body = .assign x value ∧ value.isConstructed = true := by
  unfold constructed
  rw [List.mem_filterMap]
  refine exists_congr fun m => and_congr_right fun _ => ?_
  unfold Message.constructed?
  constructor
  · intro h
    split at h
    · rename_i target value hbody
      split at h
      · rename_i hvalue
        cases h
        exact ⟨value, hbody, hvalue⟩
      · cases h
    · cases h
  · rintro ⟨value, hbody, hvalue⟩
    rw [hbody]
    exact if_pos hvalue

/-- `others` lists the roles but the adversary, each once, in the order in which they are first
declared. -/
structure LinesUp (p : Protocol) (others : List String) : Prop where
  mem : ∀ name, name ∈ others ↔ name ∈ p.roles ∧ name ≠ adversary
  ordered : others.Pairwise fun a b => p.roles.idxOf a < p.roles.idxOf b

/-- `keys` are the keys in `known` that open ciphertexts and should not leak, and `words` are the
words in `known` that should not leak, are declared as no key and, in whatever case, name no
constructed value. Both are in ascending order. -/
structure Leaks (p : Protocol) (naming : Naming) (known : Terms) (keys words : List String) :
    Prop where
  keys_ascending : keys.Pairwise (· < ·)
  words_ascending : words.Pairwise (· < ·)
  mem_keys : ∀ t, t ∈ keys ↔ t ∈ known ∧ naming.isCatastrophic t = true ∧ p.keyTable.Unlocks t
  mem_words : ∀ t, t ∈ words ↔ t ∈ known ∧ naming.isCatastrophic t = true ∧
    Text.isWord t = true ∧ (∀ d ∈ p.keys, d.name ≠ t) ∧
    ∀ m ∈ p.messages, ∀ x value, m.body = .assign x value → value.isConstructed = true →
      Text.lowercase x ≠ Text.lowercase t

theorem Leaks.nodup {known : Terms} {keys words : List String}
    (h : p.Leaks naming known keys words) : (keys ++ words).Nodup := by
  refine List.nodup_append.mpr ⟨h.keys_ascending.imp fun h => String.ne_of_lt h,
    h.words_ascending.imp fun h => String.ne_of_lt h, ?_⟩
  rintro t hkey _ hword rfl
  have hkind := kind?_eq_none_iff.mpr ((h.mem_words t).mp hword).2.2.2.1
  have hunlocks := ((h.mem_keys t).mp hkey).2.2
  rw [KeyTable.Unlocks, hkind] at hunlocks
  simp at hunlocks

/-- The verdict on a view lists its leaks. -/
theorem judge_leaks (p : Protocol) (naming : Naming) (v : View) :
    ∃ keys words, ((v.profile p.keyTable p.constructed).judge naming).leaked = keys ++ words ∧
      p.Leaks naming v.knows keys words := by
  refine ⟨_, _, List.filter_append .., (v.secrets_ascending _ _).filter _,
    (v.plaintext_ascending _ _).filter _, fun t => ?_, fun t => ?_⟩
  · rw [List.mem_filter, View.mem_secrets]
    tauto
  · have hnames : (∀ x ∈ p.constructed, Text.lowercase x ≠ Text.lowercase t) ↔
        ∀ m ∈ p.messages, ∀ x value, m.body = .assign x value → value.isConstructed = true →
          Text.lowercase x ≠ Text.lowercase t := by
      constructor
      · intro h m hm x value hbody hvalue
        exact h x (mem_constructed.mpr ⟨m, hm, value, hbody, hvalue⟩)
      · intro h x hx
        obtain ⟨m, hm, value, hbody, hvalue⟩ := mem_constructed.mp hx
        exact h m hm x value hbody hvalue
    rw [List.mem_filter, View.mem_plaintext, kind?_eq_none_iff, hnames]
    tauto

/-- The report on a protocol whose messages carry statements shows every role but the adversary
once, in the order of the first declarations, and then the adversary. Its verdict lists, without
repetition, what leaks of that which the adversary knows at the end of a run. -/
theorem analyze_verdict (p : Protocol) (naming : Naming) (schedule : Schedule)
    (hp : ∀ m ∈ p.messages, m.body.IsStatement) :
    ∃ a v others keys words, p.analyze naming = .ok a ∧
      (p.derive naming schedule).state.view? adversary = some v ∧
      a.report.profiles.map (·.name) = others ++ [adversary] ∧ p.LinesUp others ∧
      a.report.verdict.leaked = keys ++ words ∧ (keys ++ words).Nodup ∧
      p.Leaks naming v.knows keys words ∧
      (a.report.verdict.isCatastrophic = true ↔ keys ++ words ≠ []) := by
  obtain ⟨a, ha, others, last, reports⟩ := analyze_reports p naming hp
  obtain ⟨w, leaves, rfl⟩ := reports.last
  obtain ⟨v, hv, leaves'⟩ := view?_derive p naming schedule hp (.inr rfl)
  obtain ⟨keys, words, hleaked, leaks⟩ := judge_leaks p naming w
  rw [← reports.verdict] at hleaked
  rw [(leaves.unique leaves').1] at leaks
  refine ⟨a, v, p.others, keys, words, ha, hv, ?_, ⟨fun _ => mem_others, p.others_ordered⟩, hleaked,
    leaks.nodup, leaks, ?_⟩
  · rw [reports.profiles, List.map_append, map_name_of_profiles reports.others, List.map_singleton]
    exact congrArg (p.others ++ [·]) leaves.name
  · simp [Verdict.isCatastrophic, hleaked]

/-- A key and a word in the open, and a word that clashes with the name of a digest. The adversary
is declared, and a role is declared twice. -/
def spill : Protocol where
  roles := ["A", "Adversary", "B", "A"]
  keys := [⟨.shared, "K_AB", ["A", "B"]⟩]
  messages := [⟨"A", "B", .concat (.ident "K_AB") (.ident "M1")⟩,
    ⟨"B", "A", .assign "m2" (.hash (.ident "M1"))⟩, ⟨"A", "B", .ident "M2"⟩]

theorem analyze_verdict_spill :
    (∀ m ∈ spill.messages, m.body.IsStatement) ∧
      ∃ a v others, spill.analyze {} = .ok a ∧
        (spill.derive {} .byText).state.view? adversary = some v ∧
        a.report.profiles.map (·.name) = others ++ ["Adversary"] ∧ "A" ∈ others ∧ "B" ∈ others ∧
        "K_AB" ∈ a.report.verdict.leaked ∧ "M1" ∈ a.report.verdict.leaked ∧
        "M2" ∈ v.knows ∧ "M2" ∉ a.report.verdict.leaked ∧
        a.report.verdict.isCatastrophic = true := by
  have hp : ∀ m ∈ spill.messages, m.body.IsStatement := by decide
  obtain ⟨a, v, others, keys, words, ha, hv, hnames, lines, hleaked, -, leaks, hcatastrophic⟩ :=
    analyze_verdict spill {} .byText hp
  obtain ⟨w, hw, leaves⟩ := view?_derive spill {} .byText hp (.inr rfl)
  obtain rfl := Option.some.inj (hv.symm.trans hw)
  -- The adversary sees all three messages, so it knows whatever they show.
  have shown : ∀ m ∈ spill.messages, ∀ x, m.body.value.Shows (.ident x) → x ∈ v.knows :=
    fun m hm x hx => leaves.least.1.1 (.inr ⟨m, hm, .inl ⟨.inr (.inr rfl), .inr ⟨_, hx, rfl, rfl⟩⟩⟩)
  have hkey : "K_AB" ∈ keys :=
    (leaks.mem_keys _).mpr ⟨shown _ (.head _) _ (.left (.self _)), by decide, .inl rfl⟩
  have hconstructed : ∀ x ∈ spill.constructed, Text.lowercase x ≠ Text.lowercase "M1" := by decide
  have hword : "M1" ∈ words :=
    (leaks.mem_words _).mpr ⟨shown _ (.head _) _ (.right (.self _)), by decide, by decide, by decide,
      fun m hm x value hbody hvalue =>
        hconstructed x (mem_constructed.mpr ⟨m, hm, value, hbody, hvalue⟩)⟩
  have hclash : "M2" ∉ keys ++ words := by
    rw [List.mem_append]
    rintro (h | h)
    · have hunlocks := KeyTable.opens_iff.mpr ((leaks.mem_keys _).mp h).2.2
      exact absurd hunlocks (by decide)
    · exact ((leaks.mem_words _).mp h).2.2.2.2 _ (.tail _ (.head _)) "m2" _ rfl rfl (by decide)
  refine ⟨hp, a, v, others, ha, hv, hnames, (lines.mem _).mpr (by decide),
    (lines.mem _).mpr (by decide), ?_, ?_, shown _ (.tail _ (.tail _ (.head _))) _ (.self _), ?_, ?_⟩
  · exact hleaked ▸ List.mem_append_left _ hkey
  · exact hleaked ▸ List.mem_append_right _ hword
  · exact hleaked ▸ hclash
  · exact hcatastrophic.mpr (List.ne_nil_of_mem (List.mem_append_left _ hkey))

end Protocol

end Wiretap
