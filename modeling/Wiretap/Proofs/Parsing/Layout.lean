import Wiretap.Proofs.Lexing.Lossless
import Wiretap.Proofs.Parsing.Blame
import Wiretap.Proofs.Parsing.RoundTrip

/-! Layout and the spelling of keywords. A text may be laid out anew: its tokens stay in order, a
keyword is spelled by any word of its kind, and any white space and comments go between them. The
new text has tokens of the same kinds with the same identifiers, and parsing it has the same outcome
at the same token. -/

namespace Wiretap

/-- The tokens are of one kind and, if they are identifiers, have one text. -/
structure Token.SameSense (x y : Token) : Prop where
  kind : x.kind = y.kind
  name : x.kind = .identifier → x.text = y.text

def Likeness.sense : Likeness where
  rel := Token.SameSense
  kind h := h.kind
  name h := h.name

/-- Whether tokens of the kind are words. -/
def Kind.isWord (k : Kind) : Bool :=
  k == .identifier || keywords.any (·.2 == k)

namespace Lexing

/-- A token is spelled by its own text, and a keyword also by any other word of its kind. -/
def Spelling (t : Token) (text : String) : Prop :=
  text = t.text ∨ t.kind ≠ .identifier ∧ WordOf text t.kind

/-- The text is a layout of the tokens: they follow each other in it, with white space and comments
around and between them, and two words do not touch. The flag tells whether the text comes right
after a word. -/
inductive Layout : Bool → List Token → List Char → Prop
  | nil {afterWord : Bool} {gap : List Char} : Gap gap [] → Layout afterWord [] gap
  | cons {afterWord : Bool} {t : Token} {ts : List Token} {gap rest : List Char} {text : String} :
      Gap gap (text.toList ++ rest) → Spelling t text →
      (afterWord = true → t.kind.isWord = true → gap ≠ []) → Layout t.kind.isWord ts rest →
      Layout afterWord (t :: ts) (gap ++ (text.toList ++ rest))

variable {kind : Kind} {text : String} {gap piece rest : List Char} {t : Token}
  {ts : List Token}

/-! ### Where a word ends -/

theorem WordKind.isWord (h : WordKind text kind) : kind.isWord = true := by
  unfold Kind.isWord
  rw [Bool.or_eq_true, List.any_eq_true]
  rcases h with hmem | ⟨rfl, -⟩
  · exact .inr ⟨_, hmem, beq_self_eq_true _⟩
  · exact .inl rfl

theorem Blank.wordEnds {blank : List Char} (h : Blank blank rest) : WordEnds blank := by
  cases h with
  | space hspace =>
    rintro _ ⟨⟩
    exact Text.isWordChar_of_isSpace hspace
  | comment hcomment =>
    cases hcomment with
    | hash | slashes =>
      rintro _ ⟨⟩
      decide

theorem Gap.wordEnds (h : Gap gap rest) (hrest : gap = [] → WordEnds rest) :
    WordEnds (gap ++ rest) := by
  cases h with
  | nil => exact hrest rfl
  | cons hblank =>
    obtain ⟨c, cs, hcs⟩ := List.exists_cons_of_ne_nil hblank.ne_nil
    have hends := hblank.wordEnds
    rw [hcs] at hends ⊢
    exact hends

theorem wordEnds_of_mark (h : (text, kind) ∈ marks) (rest : List Char) :
    WordEnds (text.toList ++ rest) := by
  have hmarks : ∀ entry ∈ marks, Separates entry.1 := by decide
  have hends := (hmarks _ h).wordEnds (String.ofList rest)
  rwa [String.toList_append, String.toList_ofList] at hends

/-! ### The tokens of a layout -/

theorem Spelling.lexeme (h : Spelling t text) (ht : Lexeme t.kind t.text [])
    (hends : t.kind.isWord = true → WordEnds rest) : Lexeme t.kind text rest := by
  rcases h with rfl | ⟨-, hword, hkind⟩
  · cases ht with
    | word hword hkind => exact .word hword hkind (hends hkind.isWord)
    | mark hmark => exact .mark hmark
  · have hkind := wordKind_iff.mpr hkind
    exact .word hword hkind (hends hkind.isWord)

theorem Layout.wordEnds (h : Layout true ts piece) (hts : ∀ t ∈ ts, Lexeme t.kind t.text []) :
    WordEnds piece := by
  cases h with
  | nil hgap =>
    rw [← List.append_nil piece]
    exact hgap.wordEnds fun _ => wordEnds_empty
  | @cons _ t ts gap rest text hgap hspelling hapart _ =>
    refine hgap.wordEnds fun hnil => ?_
    -- Two words do not touch, so without a gap the next token is a mark.
    have hmark : t.kind.isWord = false := by
      by_contra hword
      exact hapart rfl (by simpa using hword) hnil
    have hlexeme : Lexeme t.kind text [] :=
      hspelling.lexeme (hts t List.mem_cons_self) fun hword => by simp [hmark] at hword
    cases hlexeme with
    | word _ hkind => simp [hkind.isWord] at hmark
    | mark hmem => exact wordEnds_of_mark hmem rest

theorem Gap.scan (h : Gap gap rest) (before : List Char) : Scan before gap rest [] := by
  induction h generalizing before with
  | nil => exact .nil _ _
  | cons hblank _ ih => exact .blank hblank (ih _)

/-- A layout reads as tokens of the same sense. -/
theorem Layout.exists_scan {afterWord : Bool} (h : Layout afterWord ts piece)
    (hts : ∀ t ∈ ts, Lexeme t.kind t.text []) (before : List Char) :
    ∃ us, Scan before piece [] us ∧ List.Forall₂ Token.SameSense ts us := by
  induction h generalizing before with
  | nil hgap => exact ⟨[], hgap.scan before, .nil⟩
  | @cons _ t ts gap rest text hgap hspelling _ hlayout ih =>
    have hrest : ∀ u ∈ ts, Lexeme u.kind u.text [] := fun u hu => hts u (List.mem_cons_of_mem _ hu)
    obtain ⟨us, hscan, hsense⟩ := ih hrest (before ++ gap ++ text.toList)
    have hends : t.kind.isWord = true → WordEnds (rest ++ []) := by
      intro hword
      rw [hword] at hlayout
      rw [List.append_nil]
      exact hlayout.wordEnds hrest
    have hlexeme := hspelling.lexeme (hts t List.mem_cons_self) hends
    have htoken : Token.SameSense t ⟨t.kind, text, .past (before ++ gap)⟩ := by
      refine ⟨rfl, fun hidentifier => ?_⟩
      rcases hspelling with rfl | ⟨hkeyword, -⟩
      · rfl
      · exact absurd hidentifier hkeyword
    have hgapScan : Scan before gap ((text.toList ++ rest) ++ []) [] := by
      rw [List.append_nil]
      exact hgap.scan before
    exact ⟨_, hgapScan.append (.token hlexeme hscan), .cons htoken hsense⟩

theorem exists_tokenize_of_layout {source source' : String} {tokens : Tokens}
    (h : tokenize source = .ok tokens) (hlayout : Layout false tokens.front source'.toList) :
    ∃ tokens', tokenize source' = .ok tokens' ∧
      List.Forall₂ Token.SameSense tokens.front tokens'.front ∧
      Token.SameSense tokens.last tokens'.last ∧
      (∀ t ∈ tokens.front, t.kind ≠ .ending) ∧ ∀ t ∈ tokens'.front, t.kind ≠ .ending := by
  obtain ⟨hscan, -⟩ := tokenize_eq_ok_iff.mp h
  obtain ⟨us, hscan', hsense⟩ := hlayout.exists_scan hscan.lexeme []
  refine ⟨_, tokenize_of_scan hscan', hsense, ⟨tokens.last_kind, fun hkind => ?_⟩,
    hscan.kind_ne_ending, hscan'.kind_ne_ending⟩
  rw [tokens.last_kind] at hkind
  cases hkind

end Lexing

namespace Protocol

open Lexing

theorem parse_of_tokenize {source : String} {tokens : Tokens} (h : tokenize source = .ok tokens) :
    parse source = (ofTokens tokens).mapError ParseError.diagnostic := by
  unfold parse
  rw [h]
  dsimp only
  cases ofTokens tokens with
  | ok p => rfl
  | error e => rfl

theorem exists_alike_of_layout {source source' : String} {tokens : Tokens}
    (h : tokenize source = .ok tokens) (hlayout : Layout false tokens.front source'.toList) :
    ∃ tokens', tokenize source' = .ok tokens' ∧
      List.Forall₂ Token.SameSense tokens.toList tokens'.toList ∧
      (Stream.ofTokens tokens).Alike .sense (Stream.ofTokens tokens') := by
  obtain ⟨tokens', h', hfront, hlast, hinner, hinner'⟩ := exists_tokenize_of_layout h hlayout
  refine ⟨tokens', h', List.rel_append hfront (.cons hlast .nil), ?_⟩
  exact Tokens.Splits.alike ⟨rfl, hinner, tokens.last_kind⟩ ⟨rfl, hinner', tokens'.last_kind⟩ hfront
    hlast

/-- Layout and the spelling of keywords are irrelevant. A layout of the tokens of a text has tokens
of the same kinds and identifiers. Parsing gives the same protocol, or a complaint in the same words
about the token of the same index. -/
theorem parse_layout {source source' : String} {tokens : Tokens}
    (h : tokenize source = .ok tokens) (hlayout : Layout false tokens.front source'.toList) :
    ∃ tokens', tokenize source' = .ok tokens' ∧
      List.Forall₂ Token.SameSense tokens.toList tokens'.toList ∧
      ((∃ p, parse source = .ok p ∧ parse source' = .ok p) ∨
        ∃ (i : Nat) (x y : Token) (detail : String),
          tokens.toList[i]? = some x ∧ tokens'.toList[i]? = some y ∧
          parse source = .error (.grammatical detail (some x)) ∧
          parse source' = .error (.grammatical detail (some y))) := by
  obtain ⟨tokens', h', hsense, halike⟩ := exists_alike_of_layout h hlayout
  refine ⟨tokens', h', hsense, ?_⟩
  rw [parse_of_tokenize h, parse_of_tokenize h']
  rcases ofTokens_alike halike with ⟨p, hp, hp'⟩ | ⟨e, e', he, hp, hp'⟩
  · exact .inl ⟨p, by rw [hp]; rfl, by rw [hp']; rfl⟩
  · refine .inr ⟨e.index, e.found, e'.found, e.expected.detail, found_of_error hp, ?_, ?_, ?_⟩
    · rw [he.index]
      exact found_of_error hp'
    · rw [hp]
      rfl
    · rw [hp', he.expected]
      rfl

def plainSource : String :=
  "roles:A shared key Vrfy"

/-- The first letter of the last word but one is the sign of the unit kelvin. -/
def wideSource : String :=
  "Roles:A#\nSHARED\t\u212aEY verify//"

def plainTokens : Tokens :=
  ⟨[⟨.rolesWord, "roles", ⟨1, 1⟩⟩, ⟨.colon, ":", ⟨1, 6⟩⟩, ⟨.identifier, "A", ⟨1, 7⟩⟩,
    ⟨.sharedWord, "shared", ⟨1, 9⟩⟩, ⟨.keyWord, "key", ⟨1, 16⟩⟩, ⟨.vrfyWord, "Vrfy", ⟨1, 20⟩⟩],
    ⟨.ending, "", ⟨1, 24⟩⟩, .refl Kind.ending⟩

theorem wideSource_layout : Layout false plainTokens.front wideSource.toList := by
  have hspace {c : Char} (h : Text.isSpace c = true) (rest : List Char) : Gap [c] rest :=
    .cons (.space h) (.nil rest)
  have hline (rest : List Char) : Gap ['#', '\n'] rest :=
    @Gap.cons ['#'] ['\n'] rest (.comment (.hash List.not_mem_nil) (by rintro _ ⟨⟩; rfl))
      (hspace (by decide) rest)
  have hlast : Gap ['/', '/'] [] :=
    @Gap.cons ['/', '/'] [] [] (.comment (.slashes List.not_mem_nil) nofun) (.nil [])
  have htext : wideSource.toList = [] ++ ("Roles".toList ++ ([] ++ (":".toList ++ ([] ++
      ("A".toList ++ (['#', '\n'] ++ ("SHARED".toList ++ (['\t'] ++ ("\u212aEY".toList ++
        ([' '] ++ ("verify".toList ++ ['/', '/']))))))))))) := by decide
  rw [htext]
  exact .cons (.nil _) (.inr (by decide)) (by decide) <|
    .cons (.nil _) (.inl rfl) (by decide) <|
    .cons (.nil _) (.inl rfl) (by decide) <|
    .cons (hline _) (.inr (by decide)) (by decide) <|
    .cons (hspace (by decide) _) (.inr (by decide +kernel)) (by decide) <|
    .cons (hspace (by decide) _) (.inr (by decide)) (by decide) (.nil hlast)

theorem parse_layout_wide :
    tokenize plainSource = .ok plainTokens ∧ Layout false plainTokens.front wideSource.toList ∧
      ∃ tokens', tokenize wideSource = .ok tokens' ∧
        List.Forall₂ Token.SameSense plainTokens.toList tokens'.toList ∧
        ∃ (i : Nat) (y : Token), tokens'.toList[i]? = some y ∧
          parse wideSource =
            .error (.grammatical "Expected key name after 'shared key'." (some y)) := by
  have htokens : tokenize plainSource = .ok plainTokens := by decide +kernel
  have hparse : parse plainSource = .error (.grammatical "Expected key name after 'shared key'."
      (some ⟨.vrfyWord, "Vrfy", ⟨1, 20⟩⟩)) := by decide +kernel
  obtain ⟨tokens', htokens', hsense, houtcome⟩ := parse_layout htokens wideSource_layout
  refine ⟨htokens, wideSource_layout, tokens', htokens', hsense, ?_⟩
  rw [hparse] at houtcome
  rcases houtcome with ⟨p, hp, -⟩ | ⟨i, x, y, detail, -, hy, hx, hwide⟩
  · cases hp
  · cases hx
    exact ⟨i, y, hy, hwide⟩

end Protocol

end Wiretap
