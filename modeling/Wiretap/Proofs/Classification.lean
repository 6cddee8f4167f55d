import Wiretap.Proofs.Provenance
import Wiretap.Proofs.Report

/-! Every known term goes to one of three lists. The tests that decide it look at the text of the
term alone. On what principals come to know in a parsed protocol they tell what the term is: a text
with a parenthesis is a compound expression, and a word is a name of the language. So the rules
leave only public keys over. -/

namespace Wiretap

open Lexing

/-- The lists are ascending, no two of them have a common member, and together they have the members
of the set. -/
structure Classification.Divides (c : Classification) (terms : Terms) : Prop where
  secrets : c.secrets.Pairwise (· < ·)
  plaintext : c.plaintext.Pairwise (· < ·)
  observed : c.observed.Pairwise (· < ·)
  secrets_plaintext : c.secrets.Disjoint c.plaintext
  secrets_observed : c.secrets.Disjoint c.observed
  plaintext_observed : c.plaintext.Disjoint c.observed
  mem : ∀ t, t ∈ terms ↔ t ∈ c.secrets ∨ t ∈ c.plaintext ∨ t ∈ c.observed

theorem disjoint_filter_of_ne {xs : List String} {f : String → Bucket} {b b' : Bucket}
    (h : b ≠ b') : (xs.filter (f · = b)).Disjoint (xs.filter (f · = b')) := by
  intro t ht ht'
  have hb : f t = b := of_decide_eq_true (List.mem_filter.mp ht).2
  have hb' : f t = b' := of_decide_eq_true (List.mem_filter.mp ht').2
  exact h (hb.symm.trans hb')

theorem classify_divides (terms : Terms) (table : KeyTable) (constructed : List String) :
    (classify terms table constructed).Divides terms where
  secrets := terms.ascending.filter _
  plaintext := terms.ascending.filter _
  observed := terms.ascending.filter _
  secrets_plaintext := disjoint_filter_of_ne (by decide)
  secrets_observed := disjoint_filter_of_ne (by decide)
  plaintext_observed := disjoint_filter_of_ne (by decide)
  mem t := by
    simp only [classify, List.mem_filter, decide_eq_true_eq, Terms.mem_def, ← and_or_left]
    refine (and_iff_left ?_).symm
    cases bucket table (constructed.map Text.lowercase) t <;> simp

theorem Classification.Divides.mem_observed {c : Classification} {terms : Terms}
    (h : c.Divides terms) {t : String} :
    t ∈ c.observed ↔ t ∈ terms ∧ t ∉ c.secrets ∧ t ∉ c.plaintext := by
  rw [h.mem]
  constructor
  · intro ht
    exact ⟨.inr (.inr ht), fun hs => h.secrets_observed hs ht, fun hp => h.plaintext_observed hp ht⟩
  · rintro ⟨hs | hp | ho, hsecrets, hplaintext⟩
    · exact absurd hs hsecrets
    · exact absurd hp hplaintext
    · exact ho

/-! ### What parsed protocols come to know -/

theorem isStructured_of_paren {t : String} (h : '(' ∈ t.toList) : isStructured t = true := by
  simp [isStructured, h]

namespace Protocol

variable {p : Protocol} {naming : Naming} {who t : String} {v : View}

/-- The last declaration of a key called `t` gives it this kind. -/
def DeclaredLast (p : Protocol) (t : String) (kind : KeyKind) : Prop :=
  ∃ d, (p.declarationsOf t).getLast? = some d ∧ d.kind = kind

theorem kind?_eq_some_iff {kind : KeyKind} :
    p.keyTable.kind? t = some kind ↔ p.DeclaredLast t kind := by
  rw [kind?_eq_getLast?, List.getLast?_map, Option.map_eq_some_iff]
  rfl

theorem unlocks_iff_declaredLast : p.keyTable.Unlocks t ↔
    p.DeclaredLast t .shared ∨ p.DeclaredLast t .privateHalf :=
  or_congr kind?_eq_some_iff kind?_eq_some_iff

theorem DeclaredLast.isName {kind : KeyKind} (h : p.DeclaredLast t kind) (hp : p.WellShaped) :
    IsName t := by
  obtain ⟨d, hd, -⟩ := h
  obtain ⟨hmem, rfl⟩ := mem_declarationsOf.mp (List.mem_of_getLast? hd)
  exact (hp.keys d hmem).name

/-- A compound expression with the label `t` stands in a message that `who` sees. -/
def ShowsCompound (p : Protocol) (who t : String) : Prop :=
  ∃ m ∈ p.messages, m.SeenBy who ∧
    ∃ n ∈ m.body.preorder, n.IsExpr ∧ (∀ x, n ≠ .ident x) ∧ n.label = .ok t

/-- A message gives a name to a constructed value that is `t` in some case. -/
def NamesConstructed (p : Protocol) (t : String) : Prop :=
  ∃ m ∈ p.messages, ∃ x value, m.body = .assign x value ∧ value.isConstructed = true ∧
    Text.lowercase x = Text.lowercase t

theorem namesConstructed_iff :
    p.NamesConstructed t ↔ ∃ x ∈ p.constructed, Text.lowercase x = Text.lowercase t := by
  constructor
  · rintro ⟨m, hm, x, value, hbody, hvalue, hlower⟩
    exact ⟨x, mem_constructed.mpr ⟨m, hm, value, hbody, hvalue⟩, hlower⟩
  · rintro ⟨x, hx, hlower⟩
    obtain ⟨m, hm, value, hbody, hvalue⟩ := mem_constructed.mp hx
    exact ⟨m, hm, x, value, hbody, hvalue, hlower⟩

theorem ShowsCompound.paren_mem (h : p.ShowsCompound who t) : '(' ∈ t.toList := by
  obtain ⟨m, -, -, n, -, hexpr, hcompound, hlabel⟩ := h
  obtain rfl := Except.ok.inj (hexpr.label.symm.trans hlabel)
  exact hexpr.paren_mem_text hcompound

theorem ShowsCompound.not_isWord (h : p.ShowsCompound who t) : Text.isWord t = false :=
  Text.not_isWord_of_mem h.paren_mem (by decide)

/-- A known term that consists of word characters is a name of the language: nothing that starts
with a numeral or spells a keyword is ever known. -/
theorem Leaves.isName (hp : p.WellShaped) (hbodies : ∀ m ∈ p.messages, m.body.IsStatement)
    (hv : p.Leaves naming who v) (ht : t ∈ v.knows) (hword : Text.isWord t = true) : IsName t := by
  obtain ⟨n, hmeets, htext⟩ := hv.meets hbodies ht
  cases hmeets with
  | granted h =>
    cases htext
    cases h with
    | publicKey hd _ | key hd _ => exact (hp.keys _ hd).name
    | nonce hd _ => exact (hp.nonces _ hd).name
  | @seen m n hm _ hmem hexpr =>
    obtain rfl := hexpr.eq_ident hword htext
    exact (hp.messages m hm).body.isName hmem

theorem Leaves.showsCompound (hp : p.WellShaped)
    (hbodies : ∀ m ∈ p.messages, m.body.IsStatement) (hv : p.Leaves naming who v)
    (ht : t ∈ v.knows) (hword : Text.isWord t = false) : p.ShowsCompound who t := by
  have hnoWord : ¬IsWord t := fun h => by
    rw [h.isWord] at hword
    cases hword
  obtain ⟨m, hm, hseen, n, hmem, hexpr, hcompound, rfl⟩ := hv.compound hp hbodies ht hnoWord
  exact ⟨m, hm, hseen, n, hmem, hexpr, hcompound, hexpr.label⟩

/-- What the three lists hold of the terms that a principal knows. The last rule sorts the terms on
which no other rule has a word: those of them that are observed are public keys. -/
structure Sorts (p : Protocol) (who : String) (known : Terms) (c : Classification) : Prop where
  secrets : ∀ t, t ∈ c.secrets ↔
    t ∈ known ∧ (p.DeclaredLast t .shared ∨ p.DeclaredLast t .privateHalf)
  plaintext : ∀ t, t ∈ c.plaintext ↔
    t ∈ known ∧ IsName t ∧ (∀ d ∈ p.keys, d.name ≠ t) ∧ ¬p.NamesConstructed t
  observed : ∀ t, t ∈ c.observed ↔
    t ∈ known ∧ (p.ShowsCompound who t ∨ p.DeclaredLast t .publicHalf ∨
      IsName t ∧ p.NamesConstructed t ∧ t ∉ c.secrets)
  leftOver : ∀ t ∈ c.observed, isStructured t = false → ¬p.NamesConstructed t →
    p.DeclaredLast t .publicHalf

theorem mem_secrets_classify {known : Terms} :
    t ∈ (classify known p.keyTable p.constructed).secrets ↔
      t ∈ known ∧ (p.DeclaredLast t .shared ∨ p.DeclaredLast t .privateHalf) := by
  rw [← unlocks_iff_declaredLast]
  exact View.mem_secrets (v := ⟨"", known, []⟩)

theorem mem_plaintext_classify {known : Terms} :
    t ∈ (classify known p.keyTable p.constructed).plaintext ↔
      t ∈ known ∧ Text.isWord t = true ∧ (∀ d ∈ p.keys, d.name ≠ t) ∧ ¬p.NamesConstructed t := by
  have hnames : ¬p.NamesConstructed t ↔
      ∀ x ∈ p.constructed, Text.lowercase x ≠ Text.lowercase t := by
    simp [namesConstructed_iff]
  rw [← kind?_eq_none_iff, hnames]
  exact View.mem_plaintext (v := ⟨"", known, []⟩)

theorem not_mem_classify_of_compound {known : Terms} (hp : p.WellShaped)
    (h : p.ShowsCompound who t) :
    t ∉ (classify known p.keyTable p.constructed).secrets ∧
      t ∉ (classify known p.keyTable p.constructed).plaintext := by
  have hword : ¬Text.isWord t = true := by simp [h.not_isWord]
  refine ⟨fun ht => ?_, fun ht => hword (mem_plaintext_classify.mp ht).2.1⟩
  rcases (mem_secrets_classify.mp ht).2 with hlast | hlast
  · exact hword (hlast.isName hp).isWord
  · exact hword (hlast.isName hp).isWord

theorem not_mem_classify_of_public {known : Terms} (h : p.DeclaredLast t .publicHalf) :
    t ∉ (classify known p.keyTable p.constructed).secrets ∧
      t ∉ (classify known p.keyTable p.constructed).plaintext := by
  have hkind := kind?_eq_some_iff.mpr h
  refine ⟨fun ht => ?_, fun ht => ?_⟩
  · have hunlocks := unlocks_iff_declaredLast.mpr (mem_secrets_classify.mp ht).2
    simp [KeyTable.Unlocks, hkind] at hunlocks
  · have hnone := kind?_eq_none_iff.mpr (mem_plaintext_classify.mp ht).2.2.1
    simp [hkind] at hnone

/-- A known term that is neither a secret nor plaintext. -/
theorem Leaves.observed_cases (hp : p.WellShaped)
    (hbodies : ∀ m ∈ p.messages, m.body.IsStatement) (hv : p.Leaves naming who v)
    (ht : t ∈ v.knows) (hsecret : t ∉ (classify v.knows p.keyTable p.constructed).secrets)
    (hplain : t ∉ (classify v.knows p.keyTable p.constructed).plaintext) :
    p.ShowsCompound who t ∨ p.DeclaredLast t .publicHalf ∨ IsName t ∧ p.NamesConstructed t := by
  cases hword : Text.isWord t with
  | false => exact .inl (hv.showsCompound hp hbodies ht hword)
  | true =>
    right
    cases hkind : p.keyTable.kind? t with
    | none =>
      right
      refine ⟨hv.isName hp hbodies ht hword, ?_⟩
      by_contra hnames
      exact hplain (mem_plaintext_classify.mpr ⟨ht, hword, kind?_eq_none_iff.mp hkind, hnames⟩)
    | some kind =>
      left
      rw [kind?_eq_some_iff] at hkind
      cases kind with
      | publicHalf => exact hkind
      | shared => exact absurd (mem_secrets_classify.mpr ⟨ht, .inl hkind⟩) hsecret
      | privateHalf => exact absurd (mem_secrets_classify.mpr ⟨ht, .inr hkind⟩) hsecret

theorem Leaves.mem_observed (hp : p.WellShaped)
    (hbodies : ∀ m ∈ p.messages, m.body.IsStatement) (hv : p.Leaves naming who v) :
    t ∈ (classify v.knows p.keyTable p.constructed).observed ↔
      t ∈ v.knows ∧ (p.ShowsCompound who t ∨ p.DeclaredLast t .publicHalf ∨
        IsName t ∧ p.NamesConstructed t ∧
          t ∉ (classify v.knows p.keyTable p.constructed).secrets) := by
  rw [(classify_divides ..).mem_observed]
  refine and_congr_right fun ht => ⟨?_, ?_⟩
  · rintro ⟨hsecret, hplain⟩
    rcases hv.observed_cases hp hbodies ht hsecret hplain with h | h | ⟨hname, hnames⟩
    · exact .inl h
    · exact .inr (.inl h)
    · exact .inr (.inr ⟨hname, hnames, hsecret⟩)
  · rintro (h | h | ⟨-, hnames, hsecret⟩)
    · exact not_mem_classify_of_compound hp h
    · exact not_mem_classify_of_public h
    · exact ⟨hsecret, fun h => (mem_plaintext_classify.mp h).2.2.2 hnames⟩

theorem Leaves.sorts (hp : p.WellShaped) (hbodies : ∀ m ∈ p.messages, m.body.IsStatement)
    (hv : p.Leaves naming who v) :
    p.Sorts who v.knows (classify v.knows p.keyTable p.constructed) where
  secrets _ := mem_secrets_classify
  plaintext t := by
    rw [mem_plaintext_classify]
    refine and_congr_right fun ht => and_congr_left fun _ => ?_
    exact ⟨hv.isName hp hbodies ht, fun h => h.isWord⟩
  observed _ := hv.mem_observed hp hbodies
  leftOver t ht hstructured hnames := by
    rcases ((hv.mem_observed hp hbodies).mp ht).2 with h | h | ⟨-, h, -⟩
    · rw [isStructured_of_paren h.paren_mem] at hstructured
      cases hstructured
    · exact h
    · exact absurd h hnames

/-! ### Reports -/

theorem Reports.exists_profile {others : List Profile} {last : Profile} {report : Report}
    (h : p.Reports naming others last report) (hwho : who ∈ p.principals) :
    ∃ profile, report.profile? who = some profile ∧ p.Profiles naming who profile := by
  have hprofiles : List.Forall₂ (p.Profiles naming) (p.others ++ [adversary]) report.profiles := by
    rw [h.profiles]
    exact List.rel_append h.others (.cons h.last .nil)
  have hmem : who ∈ p.others ++ [adversary] := by
    rw [List.mem_append, List.mem_singleton, mem_others]
    by_cases hadversary : who = adversary
    · exact .inr hadversary
    · exact .inl ⟨(mem_principals.mp hwho).resolve_right hadversary, hadversary⟩
  obtain ⟨profile, hfind⟩ : ∃ profile, report.profile? who = some profile := by
    rw [← map_name_of_profiles hprofiles] at hmem
    obtain ⟨profile, hprofile, hname⟩ := List.mem_map.mp hmem
    rw [← Option.isSome_iff_exists, Report.profile?, List.find?_isSome]
    exact ⟨profile, hprofile, by simpa using hname⟩
  obtain ⟨name, -, hprofile⟩ := forall₂_mem_right hprofiles (List.mem_of_find?_eq_some hfind)
  have hname : profile.name = who := by simpa using List.find?_some hfind
  exact ⟨profile, hfind, hname ▸ hprofile.name_eq ▸ hprofile⟩

/-- Classification divides any set of terms into three ascending lists. In the report on a parsed
protocol these lists hold of the knowledge of each principal the keys whose last declaration is
shared or private, the other names apart from those of constructed values, and as observed objects
the compound expressions, the public keys and the names of constructed values. -/
theorem classification_exact :
    (∀ terms table constructed, (classify terms table constructed).Divides terms) ∧
    ∀ (source : String) (p : Protocol) (naming : Naming) (schedule : Schedule),
      parse source = .ok p → ∃ a, p.analyze naming = .ok a ∧
        ∀ who ∈ p.principals, ∃ v profile,
          (p.derive naming schedule).state.view? who = some v ∧
          a.report.profile? who = some profile ∧
          profile.toClassification = classify v.knows p.keyTable p.constructed ∧
          p.Sorts who v.knows profile.toClassification := by
  refine ⟨classify_divides, fun source p naming schedule hparse => ?_⟩
  have hbodies := isStatement_of_parse hparse
  obtain ⟨a, ha, others, last, reports⟩ := analyze_reports p naming hbodies
  refine ⟨a, ha, fun who hwho => ?_⟩
  obtain ⟨v, hv, leaves⟩ := view?_derive p naming schedule hbodies (mem_principals.mp hwho)
  obtain ⟨profile, hprofile, w, leaves', rfl⟩ := reports.exists_profile hwho
  -- The report comes from a run in another order, which ends with the same knowledge.
  have hknows : w.knows = v.knows := (leaves'.unique leaves).1
  have hclassify : (w.profile p.keyTable p.constructed).toClassification =
      classify v.knows p.keyTable p.constructed := by rw [← hknows]; rfl
  refine ⟨v, _, hv, hprofile, hclassify, ?_⟩
  rw [hclassify]
  exact leaves.sorts (wellShaped_of_parse hparse) hbodies

/-- A key that is declared again as a public one, and two names that differ in case only, one of
them of a constructed value. -/
def clashingSource : String :=
  "roles: A shared key S: A shared key K: A public key K: A nonce N: A " ++
    "A -> A: c = Hash(N) || s A -> A: C || S"

def clashing : Protocol where
  roles := ["A"]
  keys := [⟨.shared, "S", ["A"]⟩, ⟨.shared, "K", ["A"]⟩, ⟨.publicHalf, "K", ["A"]⟩]
  nonces := [⟨"N", "A"⟩]
  messages := [⟨"A", "A", .assign "c" (.concat (.hash (.ident "N")) (.ident "s"))⟩,
    ⟨"A", "A", .concat (.ident "C") (.ident "S")⟩]

theorem classification_exact_clashing :
    parse clashingSource = .ok clashing ∧ adversary ∈ clashing.principals ∧
    ∃ a v profile, clashing.analyze {} = .ok a ∧
      (clashing.derive {} unsorted).state.view? adversary = some v ∧
      a.report.profile? adversary = some profile ∧
      profile.secrets = ["S"] ∧ profile.plaintext = ["s"] ∧
      profile.observed = ["(C || S)", "(Hash(N) || s)", "C", "Hash(N)", "K", "c"] ∧
      clashing.Sorts adversary v.knows profile.toClassification := by
  have hparse : parse clashingSource = .ok clashing := by decide +kernel
  have hwho : adversary ∈ clashing.principals := by decide
  obtain ⟨a, ha, hprofiles⟩ := classification_exact.2 _ _ {} unsorted hparse
  obtain ⟨v, profile, hv, hprofile, hclassify, hsorts⟩ := hprofiles _ hwho
  have hknown : ((clashing.derive {} unsorted).state.view? adversary).map (·.knows.toList) =
      some ["(C || S)", "(Hash(N) || s)", "C", "Hash(N)", "K", "S", "c", "s"] := by decide +kernel
  rw [hv, Option.map_some, Option.some_inj] at hknown
  have hlists : profile.toClassification = ⟨["S"], ["s"],
      ["(C || S)", "(Hash(N) || s)", "C", "Hash(N)", "K", "c"]⟩ := by
    rw [hclassify, classify, hknown]
    decide +kernel
  refine ⟨hparse, hwho, a, v, profile, ha, hv, hprofile, ?_, ?_, ?_, hsorts⟩
  · exact congrArg Classification.secrets hlists
  · exact congrArg Classification.plaintext hlists
  · exact congrArg Classification.observed hlists

end Protocol

end Wiretap
