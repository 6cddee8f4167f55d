import Wiretap.Proofs.JsonValues
import Wiretap.Proofs.Lines
import Wiretap.Proofs.Report
import Wiretap.Report.Rendering
import Wiretap.Report.Summary

/-! Reading reports. The text of a report is read back line by line: an empty line ends each list,
the list of principals tells how many sections follow, and a section tells by its titles which of
its lists is which. Terms and names may be any texts of one line, except that nobody may have the
heading of the adversary for a name. -/

namespace Wiretap

open Text

/-! ### The reader -/

namespace Report

/-- The lines in front of the first empty one, and those behind it. -/
def readBlock (lines : List String) : List String × List String :=
  (lines.takeWhile (· ≠ ""), (lines.dropWhile (· ≠ "")).drop 1)

/-- What stands behind the dash of a list item. -/
def readItem (line : String) : String :=
  String.ofList (line.toList.drop 4)

/-- The terms that the lines below a title show. -/
def readItems (lines : List String) : List String :=
  if lines = ["  (none)"] then [] else lines.map readItem

/-- A list with its title line, and the lines behind it. -/
def readBucket (lines : List String) : (String × List String) × List String :=
  let (block, rest) := readBlock lines
  ((block.headD "", readItems (block.drop 1)), rest)

/-- The principal that a heading is for. -/
def readHeading (heading : String) : String :=
  if heading = "Adversary (Passive Eavesdropper)" then adversary else heading

/-- The items of the first list that has one of the titles. -/
def itemsUnder (titles : List String) (buckets : List (String × List String)) : List String :=
  ((buckets.find? (·.1 ∈ titles)).map (·.2)).getD []

/-- A number of parts, one after the other, and the lines behind them. -/
def readMany {α : Type} (readPart : List String → α × List String) :
    Nat → List String → List α × List String
  | 0, lines => ([], lines)
  | n + 1, lines =>
    let (part, rest) := readPart lines
    let (parts, rest) := readMany readPart n rest
    (part :: parts, rest)

/-- The section of a principal, and the lines behind it. -/
def readProfile (lines : List String) : Profile × List String :=
  let (buckets, rest) := readMany readBucket 3 (lines.drop 3)
  ({ name := readHeading ((lines.drop 1).headD "")
     secrets := itemsUnder ["Secrets Known:", "Secrets Learned:"] buckets
     plaintext := itemsUnder ["Plaintext Data:", "Plaintext Learned:"] buckets
     observed := itemsUnder ["Observed Crypto Objects:", "Observed Messages / Objects:"] buckets },
    rest)

/-- The verdict, with the items of the list that may follow it. -/
def readVerdict (lines : List String) : Verdict :=
  ⟨((readBlock (lines.drop 4)).1.drop 1).map readItem⟩

/-- The report that a text shows, unless its list of principals names others than its sections. -/
def read? (text : String) : Option Report :=
  let (principals, rest) := readBlock ((linesOf text).drop 5)
  let (profiles, rest) := readMany readProfile principals.length rest
  if principals.map (readHeading ∘ readItem) = profiles.map (·.name) then
    some ⟨profiles, readVerdict rest⟩
  else none

/-! ### Lists -/

theorem readBlock_append {block : List String} (h : ∀ line ∈ block, line ≠ "")
    (rest : List String) : readBlock (block ++ "" :: rest) = (block, rest) := by
  have hblock : ∀ line ∈ block, decide (line ≠ "") = true := by simpa using h
  unfold readBlock
  rw [List.takeWhile_append_of_pos hblock, List.dropWhile_append_of_pos hblock]
  simp

theorem readItem_item (t : String) : readItem ("  - " ++ t) = t := by
  simp [readItem]

theorem item_ne_empty (t : String) : "  - " ++ t ≠ "" := by
  intro h
  have hchars := congrArg String.toList h
  simp at hchars

theorem map_readItem (terms : List String) :
    (terms.map ("  - " ++ ·)).map readItem = terms := by
  simp [Function.comp_def, readItem_item]

/-- The lines below a title. -/
def itemLines (terms : List String) : List String :=
  if terms.isEmpty then ["  (none)"] else terms.map ("  - " ++ ·)

theorem itemLines_ne_empty (terms : List String) : ∀ line ∈ itemLines terms, line ≠ "" := by
  cases terms with
  | nil => exact (by decide : ∀ line ∈ ["  (none)"], line ≠ "")
  | cons t ts => exact List.forall_mem_map.mpr fun x _ => item_ne_empty x

theorem readItems_itemLines (terms : List String) : readItems (itemLines terms) = terms := by
  cases terms with
  | nil => rfl
  | cons t ts =>
    -- The mark of an empty list has no dash and so is no item.
    have hne : itemLines (t :: ts) ≠ ["  (none)"] := by
      intro h
      have hchars := congrArg String.toList (List.cons.inj h).1
      simp at hchars
    rw [readItems, if_neg hne]
    exact map_readItem (t :: ts)

theorem readBucket_bucketLines (title : String) (terms rest : List String) :
    readBucket (bucketLines title terms ++ rest) = ((title ++ ":", terms), rest) := by
  have htitle : title ++ ":" ≠ "" := by
    intro h
    have hchars := congrArg String.toList h
    simp at hchars
  have hblock : ∀ line ∈ (title ++ ":") :: itemLines terms, line ≠ "" :=
    List.forall_mem_cons.mpr ⟨htitle, itemLines_ne_empty terms⟩
  have hlines : bucketLines title terms ++ rest =
      ((title ++ ":") :: itemLines terms) ++ "" :: rest := by
    simp [bucketLines, itemLines]
  rw [hlines, readBucket, readBlock_append hblock]
  dsimp only
  rw [List.headD_cons, List.drop_succ_cons, List.drop_zero, readItems_itemLines]

/-! ### Sections -/

/-- Parts that are read one by one are read one after the other. -/
theorem readMany_flatMap {α β : Type} {readPart : List String → β × List String}
    {print : α → List String} {view : α → β} {xs : List α}
    (h : ∀ x ∈ xs, ∀ rest, readPart (print x ++ rest) = (view x, rest)) (rest : List String) :
    readMany readPart xs.length (xs.flatMap print ++ rest) = (xs.map view, rest) := by
  induction xs with
  | nil => rfl
  | cons x xs ih =>
    rw [List.forall_mem_cons] at h
    rw [List.flatMap_cons, List.append_assoc, List.length_cons, readMany, h.1]
    dsimp only
    rw [ih h.2, List.map_cons]

/-- What stands between the rules at the top of a section. -/
def heading (profile : Profile) : String :=
  if profile.isAdversary then "Adversary (Passive Eavesdropper)" else profile.name

/-- The lists of a section with their titles, as they follow each other in the text. -/
def buckets (profile : Profile) : List (String × List String) :=
  if profile.isAdversary then
    [("Observed Messages / Objects", profile.observed), ("Secrets Learned", profile.secrets),
      ("Plaintext Learned", profile.plaintext)]
  else
    [("Secrets Known", profile.secrets), ("Plaintext Data", profile.plaintext),
      ("Observed Crypto Objects", profile.observed)]

theorem lines_eq (profile : Profile) : profile.lines =
    rule '-' :: heading profile :: rule '-' ::
      (buckets profile).flatMap fun b => bucketLines b.1 b.2 := by
  unfold Profile.lines heading buckets
  by_cases h : profile.isAdversary = true
  · simp [h]
  · simp [h]

theorem listLine_eq (profile : Profile) : profile.listLine = "  - " ++ heading profile := by
  unfold Profile.listLine heading
  by_cases h : profile.isAdversary = true
  · have hname : profile.name = adversary := of_decide_eq_true h
    rw [if_pos h, if_pos h, hname]
    decide
  · rw [if_neg h, if_neg h, String.append_empty]

theorem readHeading_heading {profile : Profile}
    (h : profile.name ≠ "Adversary (Passive Eavesdropper)") :
    readHeading (heading profile) = profile.name := by
  unfold heading
  by_cases hadversary : profile.isAdversary = true
  · have hname : profile.name = adversary := of_decide_eq_true hadversary
    rw [if_pos hadversary, hname]
    rfl
  · rw [if_neg hadversary, readHeading, if_neg h]

theorem readProfile_lines {profile : Profile}
    (h : profile.name ≠ "Adversary (Passive Eavesdropper)") (rest : List String) :
    readProfile (profile.lines ++ rest) = (profile, rest) := by
  have hthree : (buckets profile).length = 3 := by
    unfold buckets
    by_cases hadversary : profile.isAdversary = true
    · rw [if_pos hadversary]
      rfl
    · rw [if_neg hadversary]
      rfl
  have hbuckets := readMany_flatMap (fun (b : String × List String) (_ : b ∈ buckets profile) =>
    readBucket_bucketLines b.1 b.2) rest
  rw [hthree] at hbuckets
  simp only [lines_eq, List.cons_append, readProfile, List.drop_succ_cons, List.drop_zero,
    List.headD_cons, hbuckets, readHeading_heading h]
  -- The titles tell the lists apart, in whichever order they stand.
  unfold buckets
  by_cases hadversary : profile.isAdversary = true
  · simp [hadversary, itemsUnder]
  · simp [hadversary, itemsUnder]

theorem readVerdict_lines (v : Verdict) (rest : List String) :
    readVerdict (v.lines ++ rest) = v := by
  obtain ⟨leaked⟩ := v
  cases leaked with
  | nil => rfl
  | cons t ts =>
    have hblock : ∀ line ∈ "Adversary learned:" :: (t :: ts).map ("  - " ++ ·), line ≠ "" :=
      List.forall_mem_cons.mpr ⟨by decide, List.forall_mem_map.mpr fun x _ => item_ne_empty x⟩
    have hlines : (Verdict.lines ⟨t :: ts⟩ ++ rest).drop 4 =
        ("Adversary learned:" :: (t :: ts).map ("  - " ++ ·)) ++ "" :: rule '=' :: rest := by
      simp [Verdict.lines, Verdict.isCatastrophic]
    rw [readVerdict, hlines, readBlock_append hblock]
    exact congrArg Verdict.mk (map_readItem (t :: ts))

/-! ### Whole reports -/

theorem map_readHeading {profiles : List Profile}
    (h : ∀ profile ∈ profiles, profile.name ≠ "Adversary (Passive Eavesdropper)") :
    (profiles.map (·.listLine)).map (readHeading ∘ readItem) = profiles.map (·.name) := by
  rw [List.map_map]
  refine List.map_congr_left fun profile hprofile => ?_
  simp only [Function.comp_apply, listLine_eq, readItem_item]
  exact readHeading_heading (h profile hprofile)

theorem read?_of_linesOf {text : String} {r : Report} {rest : List String}
    (h : ∀ profile ∈ r.profiles, profile.name ≠ "Adversary (Passive Eavesdropper)")
    (hlines : linesOf text = r.lines ++ rest) : read? text = some r := by
  have hlist : ∀ line ∈ r.profiles.map (·.listLine), line ≠ "" := by
    refine List.forall_mem_map.mpr fun profile _ => ?_
    rw [listLine_eq]
    exact item_ne_empty _
  have hbody : (linesOf text).drop 5 = r.profiles.map (·.listLine) ++
      "" :: (r.profiles.flatMap (·.lines) ++ (r.verdict.lines ++ rest)) := by
    simp [hlines, Report.lines]
  have hprofiles := readMany_flatMap
    (fun profile hprofile => readProfile_lines (h profile hprofile)) (r.verdict.lines ++ rest)
  rw [List.map_id'] at hprofiles
  rw [read?, hbody, readBlock_append hlist]
  dsimp only
  rw [List.length_map, hprofiles]
  dsimp only
  rw [if_pos (map_readHeading h), readVerdict_lines]

/-! ### Lines without line feeds -/

/-- A word for a name, and terms of one line. -/
structure LegibleProfile (profile : Profile) : Prop where
  name : Text.isWord profile.name = true
  secrets : ∀ t ∈ profile.secrets, OneLine t
  plaintext : ∀ t ∈ profile.plaintext, OneLine t
  observed : ∀ t ∈ profile.observed, OneLine t

/-- Reports that show names and terms on one line each. -/
structure Legible (r : Report) : Prop where
  profiles : ∀ profile ∈ r.profiles, LegibleProfile profile
  leaked : ∀ t ∈ r.verdict.leaked, OneLine t

theorem oneLine_rule {mark : Char} (h : '\n' ≠ mark) : OneLine (rule mark) := by
  simp [OneLine, rule, h]

theorem oneLine_item {t : String} (h : OneLine t) : OneLine ("  - " ++ t) :=
  oneLine_append.mpr ⟨by decide, h⟩

theorem oneLine_bucketLines {title : String} {terms : List String} (htitle : OneLine title)
    (hterms : ∀ t ∈ terms, OneLine t) : ∀ line ∈ bucketLines title terms, OneLine line := by
  have hitems : ∀ line ∈ itemLines terms, OneLine line := by
    cases terms with
    | nil => exact (by decide : ∀ line ∈ ["  (none)"], OneLine line)
    | cons t ts => exact List.forall_mem_map.mpr fun x hx => oneLine_item (hterms x hx)
  refine List.forall_mem_cons.mpr ⟨oneLine_append.mpr ⟨htitle, by decide⟩, ?_⟩
  exact List.forall_mem_append.mpr ⟨hitems, List.forall_mem_singleton.mpr (by decide)⟩

theorem LegibleProfile.name_ne {profile : Profile} (h : LegibleProfile profile) :
    profile.name ≠ "Adversary (Passive Eavesdropper)" := by
  intro hname
  have hword := h.name
  rw [hname] at hword
  exact absurd hword (by decide)

theorem LegibleProfile.oneLine_heading {profile : Profile} (h : LegibleProfile profile) :
    OneLine (heading profile) := by
  unfold heading
  by_cases hadversary : profile.isAdversary = true
  · rw [if_pos hadversary]
    decide
  · rw [if_neg hadversary]
    exact oneLine_of_isWord h.name

theorem LegibleProfile.oneLine_buckets {profile : Profile} (h : LegibleProfile profile) :
    ∀ b ∈ buckets profile, OneLine b.1 ∧ ∀ t ∈ b.2, OneLine t := by
  unfold buckets
  by_cases hadversary : profile.isAdversary = true
  · rw [if_pos hadversary]
    simp only [List.forall_mem_cons, List.not_mem_nil, false_imp_iff, implies_true, and_true]
    exact ⟨⟨by decide, h.observed⟩, ⟨by decide, h.secrets⟩, by decide, h.plaintext⟩
  · rw [if_neg hadversary]
    simp only [List.forall_mem_cons, List.not_mem_nil, false_imp_iff, implies_true, and_true]
    exact ⟨⟨by decide, h.secrets⟩, ⟨by decide, h.plaintext⟩, by decide, h.observed⟩

theorem LegibleProfile.oneLine_lines {profile : Profile} (h : LegibleProfile profile) :
    ∀ line ∈ profile.lines, OneLine line := by
  have hrule : OneLine (rule '-') := oneLine_rule (by decide)
  rw [lines_eq, List.forall_mem_cons, List.forall_mem_cons, List.forall_mem_cons,
    List.forall_mem_flatMap]
  refine ⟨hrule, h.oneLine_heading, hrule, fun b hb => ?_⟩
  obtain ⟨htitle, hterms⟩ := h.oneLine_buckets b hb
  exact oneLine_bucketLines htitle hterms

theorem oneLine_summary (v : Verdict) : OneLine v.summary := by
  unfold Verdict.summary
  cases v.isCatastrophic with
  | true => exact (by decide : OneLine "Potentially catastrophic leak detected.")
  | false => exact (by decide : OneLine "No catastrophic leaks detected under this simple model.")

theorem oneLine_verdictLines {v : Verdict} (h : ∀ t ∈ v.leaked, OneLine t) :
    ∀ line ∈ v.lines, OneLine line := by
  have hlearned : ∀ line ∈ "Adversary learned:" :: v.leaked.map ("  - " ++ ·), OneLine line :=
    List.forall_mem_cons.mpr
      ⟨by decide, List.forall_mem_map.mpr fun t ht => oneLine_item (h t ht)⟩
  have hlist : ∀ line ∈ if v.isCatastrophic then
      "Adversary learned:" :: v.leaked.map ("  - " ++ ·) else [], OneLine line := by
    cases v.isCatastrophic with
    | true => exact hlearned
    | false => exact nofun
  unfold Verdict.lines
  rw [List.forall_mem_append, List.forall_mem_append]
  refine ⟨⟨?_, hlist⟩, ?_⟩
  · simp only [List.forall_mem_cons]
    exact ⟨oneLine_rule (by decide), by decide, oneLine_rule (by decide), oneLine_summary v, nofun⟩
  · simp only [List.forall_mem_cons]
    exact ⟨by decide, oneLine_rule (by decide), nofun⟩

theorem Legible.oneLine_lines {r : Report} (h : r.Legible) : ∀ line ∈ r.lines, OneLine line := by
  have hlist : ∀ line ∈ r.profiles.map (·.listLine), OneLine line := by
    refine List.forall_mem_map.mpr fun profile hprofile => ?_
    rw [listLine_eq]
    exact oneLine_item (h.profiles profile hprofile).oneLine_heading
  have hsections : ∀ line ∈ r.profiles.flatMap (·.lines), OneLine line :=
    List.forall_mem_flatMap.mpr fun profile hprofile => (h.profiles profile hprofile).oneLine_lines
  have htop : ∀ line ∈ [rule '=', "PROTOCOL KNOWLEDGE ANALYSIS", rule '=', "", "Principals:"],
      OneLine line := by
    simp only [List.forall_mem_cons]
    exact ⟨oneLine_rule (by decide), by decide, oneLine_rule (by decide), by decide, by decide,
      nofun⟩
  unfold Report.lines
  simp only [List.forall_mem_append]
  exact ⟨⟨⟨⟨htop, hlist⟩, List.forall_mem_singleton.mpr (by decide)⟩, hsections⟩,
    oneLine_verdictLines h.leaked⟩

/-- A line feed at the end of a text starts an empty line. -/
theorem intercalate_concat_empty {lines : List String} (h : lines ≠ []) :
    "\n".intercalate (lines ++ [""]) = "\n".intercalate lines ++ "\n" := by
  induction lines with
  | nil => exact absurd rfl h
  | cons line lines ih =>
    cases lines with
    | nil => simp
    | cons next lines =>
      rw [List.cons_append, List.cons_append, String.intercalate_cons_cons,
        String.intercalate_cons_cons, ← List.cons_append, ih (List.cons_ne_nil _ _)]
      exact String.append_assoc.symm

theorem Legible.read?_format {r : Report} (h : r.Legible) : read? r.format = some r := by
  have hne : r.lines ≠ [] := by
    simp [Report.lines]
  have hlines : linesOf r.format = r.lines ++ [""] := by
    rw [Report.format, ← intercalate_concat_empty hne]
    refine linesOf_intercalate (by simp) (List.forall_mem_append.mpr ⟨h.oneLine_lines, ?_⟩)
    exact List.forall_mem_singleton.mpr (by decide)
  exact read?_of_linesOf (fun profile hprofile => (h.profiles profile hprofile).name_ne) hlines

/-! ### JSON values -/

theorem profileJson_injective {x y : Profile} (h : x.toJson = y.toJson) : x = y := by
  simp only [Profile.toJson, Classification.members, Json.object.injEq, List.cons.injEq,
    Prod.mk.injEq, Json.string.injEq, true_and, and_true] at h
  obtain ⟨hname, hsecrets, hplaintext, hobserved⟩ := h
  have hsecrets := Json.strings_injective hsecrets
  have hplaintext := Json.strings_injective hplaintext
  have hobserved := Json.strings_injective hobserved
  obtain ⟨⟨_, _, _⟩, _⟩ := x
  obtain ⟨⟨_, _, _⟩, _⟩ := y
  simp_all

theorem toJson_injective {r s : Report} (h : r.toJson = s.toJson) : r = s := by
  simp only [Report.toJson, Verdict.toJson, Json.object.injEq, List.cons.injEq, Prod.mk.injEq,
    Json.array.injEq, true_and, and_true] at h
  obtain ⟨hprofiles, -, -, hleaked⟩ := h
  have hprofiles := (List.map_inj_right fun _ _ => profileJson_injective).mp hprofiles
  have hleaked := Json.strings_injective hleaked
  obtain ⟨_, ⟨_⟩⟩ := r
  obtain ⟨_, ⟨_⟩⟩ := s
  simp_all

end Report

namespace Protocol

variable {p q : Protocol} {naming : Naming}

theorem Profiles.legible {who : String} {profile : Profile} (h : p.Profiles naming who profile)
    (hp : p.WellShaped) (hbodies : ∀ m ∈ p.messages, m.body.IsStatement)
    (hwho : Text.isWord who = true) : Report.LegibleProfile profile := by
  have hname := h.name_eq
  obtain ⟨v, leaves, rfl⟩ := h
  have hterm {t : String} (ht : t ∈ v.knows.toList) : OneLine t := by
    obtain ⟨x, hx, rfl⟩ := leaves.hasTerm hbodies ht
    exact (hx.isNamedTerm hp).oneLine
  exact ⟨hname ▸ hwho, fun t ht => hterm (List.mem_of_mem_filter ht),
    fun t ht => hterm (List.mem_of_mem_filter ht), fun t ht => hterm (List.mem_of_mem_filter ht)⟩

theorem Reports.legible {others : List Profile} {last : Profile} {report : Report}
    (h : p.Reports naming others last report) (hp : p.WellShaped)
    (hbodies : ∀ m ∈ p.messages, m.body.IsStatement) : report.Legible := by
  have hlast := h.last.legible hp hbodies (by decide)
  have hothers : ∀ profile ∈ others, Report.LegibleProfile profile := by
    intro profile hprofile
    obtain ⟨who, hwho, hprofile⟩ := forall₂_mem_right h.others hprofile
    exact hprofile.legible hp hbodies (hp.roles who (mem_others.mp hwho).1).isWord
  constructor
  · rw [h.profiles, List.forall_mem_append, List.forall_mem_singleton]
    exact ⟨hothers, hlast⟩
  · rw [h.verdict]
    intro t ht
    rcases List.mem_append.mp (List.mem_of_mem_filter ht) with ht | ht
    · exact hlast.secrets t ht
    · exact hlast.plaintext t ht

/-- Protocols that texts spell have reports, whatever the naming, and the text of a report shows all
that is in it: it can be read back, and two texts are the same if and only if the JSON values are,
that is, if and only if the reports are. -/
theorem format_faithful {source source' : String} (hp : parse source = .ok p)
    (hq : parse source' = .ok q) (naming naming' : Naming) :
    ∃ a b, p.analyze naming = .ok a ∧ q.analyze naming' = .ok b ∧
      (a.report.format = b.report.format ↔ a.report.toJson = b.report.toJson) ∧
      (a.report.toJson = b.report.toJson ↔ a.report = b.report) ∧
      Report.read? a.report.format = some a.report := by
  have hbodies := isStatement_of_parse hp
  have hbodies' := isStatement_of_parse hq
  obtain ⟨a, ha, others, last, hreports⟩ := analyze_reports p naming hbodies
  obtain ⟨b, hb, others', last', hreports'⟩ := analyze_reports q naming' hbodies'
  have hread := (hreports.legible (wellShaped_of_parse hp) hbodies).read?_format
  have hread' := (hreports'.legible (wellShaped_of_parse hq) hbodies').read?_format
  refine ⟨a, b, ha, hb, ⟨fun h => ?_, fun h => ?_⟩, ⟨Report.toJson_injective, fun h => h ▸ rfl⟩,
    hread⟩
  · rw [h, hread', Option.some.injEq] at hread
    rw [hread]
  · rw [Report.toJson_injective h]

theorem map_name_analyze {a : Analysis} (hp : ∀ m ∈ p.messages, m.body.IsStatement)
    (ha : p.analyze naming = .ok a) : a.report.profiles.map (·.name) = p.others ++ [adversary] := by
  obtain ⟨a', ha', others, last, hreports⟩ := analyze_reports p naming hp
  cases ha.symm.trans ha'
  rw [hreports.profiles, List.map_append, map_name_of_profiles hreports.others, List.map_singleton,
    hreports.last.name_eq]

/-- One message with a word that marks empty lists in reports, to a role of a given name. -/
def noneSent (receiver : String) : Protocol where
  roles := ["A", receiver]
  messages := [⟨"A", receiver, .ident "none"⟩]

theorem format_faithful_noneSent :
    parse "roles: A, Adversary A -> Adversary: none" = .ok (noneSent "Adversary") ∧
    parse "roles: A, B A -> B: none" = .ok (noneSent "B") ∧
    ∃ a b, (noneSent "Adversary").analyze {} = .ok a ∧
      (noneSent "B").analyze ⟨"k", "s", ["n"]⟩ = .ok b ∧
      a.report.format ≠ b.report.format ∧ Report.read? a.report.format = some a.report := by
  have hfirst : parse "roles: A, Adversary A -> Adversary: none" = .ok (noneSent "Adversary") := by
    decide +kernel
  have hsecond : parse "roles: A, B A -> B: none" = .ok (noneSent "B") := by
    decide +kernel
  obtain ⟨a, b, ha, hb, hformat, hjson, hread⟩ :=
    format_faithful hfirst hsecond {} ⟨"k", "s", ["n"]⟩
  refine ⟨hfirst, hsecond, a, b, ha, hb, fun h => ?_, hread⟩
  -- A role with the name of the adversary has no section of its own.
  have hnames := map_name_analyze (isStatement_of_parse hfirst) ha
  rw [hjson.mp (hformat.mp h), map_name_analyze (isStatement_of_parse hsecond) hb] at hnames
  exact absurd hnames (by decide +kernel)

end Protocol

end Wiretap
