import Mathlib.Data.List.Forall2
import Wiretap.Proofs.Lexing.Scan

/-! Nothing of a text is lost on the way to its tokens. Every token but the end mark fills a span of
the text, the spans follow each other without overlap, and all that lies outside them is white
space and comments. -/

namespace Wiretap.Lexing

/-- A stretch of a text, from the offset `start` up to the offset `stop`. -/
structure Span where
  start : Nat
  stop : Nat
deriving DecidableEq, Repr

/-- White space and comments, in front of `rest`. -/
inductive Gap : List Char → List Char → Prop
  | nil (rest : List Char) : Gap [] rest
  | cons {blank gap rest : List Char} :
      Blank blank (gap ++ rest) → Gap gap rest → Gap (blank ++ gap) rest

theorem Gap.concat {gap blank rest : List Char} (h : Gap gap (blank ++ rest))
    (hblank : Blank blank rest) : Gap (gap ++ blank) rest := by
  generalize htail : blank ++ rest = tail at h
  induction h with
  | nil =>
    have hlast : Gap (blank ++ []) rest := .cons (by rwa [List.nil_append]) (.nil rest)
    rwa [List.append_nil] at hlast
  | cons hfirst _ ih =>
    subst htail
    rw [List.append_assoc]
    exact .cons (by rwa [List.append_assoc]) (ih rfl)

/-- The token stands in a span of the text: its text is what the span holds, its position is that of
the first character, and its kind is that of the lexeme in front of what follows. -/
structure Fills (text : List Char) (t : Token) (s : Span) : Prop where
  order : s.start < s.stop
  bound : s.stop ≤ text.length
  holds : text.extract s.start s.stop = t.text.toList
  position : t.position = .past (text.take s.start)
  lexeme : Lexeme t.kind t.text (text.drop s.stop)

/-- One span lies before another, with only white space and comments between them. -/
structure Precedes (text : List Char) (a b : Span) : Prop where
  order : a.stop ≤ b.start
  gap : Gap (text.extract a.stop b.start) (text.drop b.start)

theorem Lexeme.kind_ne_ending {kind : Kind} {text : String} {rest : List Char}
    (h : Lexeme kind text rest) : kind ≠ .ending := by
  cases h with
  | word _ hkind =>
    have hkeywords : ∀ entry ∈ Kind.keywords, entry.2 ≠ .ending := by decide
    rcases hkind with hkind | ⟨rfl, -⟩
    · exact hkeywords _ hkind
    · decide
  | mark hmark =>
    have hmarks : ∀ entry ∈ marks, entry.2 ≠ .ending := by decide
    exact hmarks _ hmark

theorem Scan.kind_ne_ending {before piece rest : List Char} {ts : List Token}
    (h : Scan before piece rest ts) : ∀ t ∈ ts, t.kind ≠ .ending :=
  fun t ht => (h.lexeme t ht).kind_ne_ending

theorem fills_of_lexeme (before : List Char) {kind : Kind} {text : String} {rest : List Char}
    (h : Lexeme kind text rest) :
    Fills (before ++ (text.toList ++ rest)) ⟨kind, text, .past before⟩
      ⟨before.length, before.length + text.toList.length⟩ where
  order := by
    have hpos : 0 < text.toList.length := List.length_pos_iff.mpr h.ne_nil
    dsimp only
    omega
  bound := by
    simp only [List.length_append]
    omega
  holds := by simp
  position := by simp
  lexeme := by simpa [← List.drop_drop] using h

theorem precedes_of_gap {front gap rest : List Char} (h : Gap gap rest) {a b : Span}
    (ha : a.stop = front.length) (hb : b.start = (front ++ gap).length) :
    Precedes (front ++ (gap ++ rest)) a b := by
  rw [List.length_append] at hb
  have hlength : b.start - a.stop = gap.length := by omega
  have hrest : (front ++ (gap ++ rest)).drop b.start = rest := by
    rw [hb, ← List.drop_drop, List.drop_left, List.drop_left]
  refine ⟨by omega, ?_⟩
  rw [hrest, List.extract_eq_take_drop, hlength, ha, List.drop_left, List.take_left]
  exact h

/-- The tokens of a stretch of text fill spans one after the other. The stretch comes after the
text `front` of the tokens before it and the part `gap` of a gap that has been read already. -/
theorem Scan.exists_spans {before piece rest : List Char} {ts : List Token}
    (h : Scan before piece rest ts) (front gap : List Char) (hbefore : before = front ++ gap)
    (hgap : Gap gap (piece ++ rest)) (first last : Span) (hfirst : first.stop = front.length)
    (hlast : last.start = (before ++ piece).length) :
    ∃ spans : List Span,
      List.Forall₂ (Fills (before ++ (piece ++ rest))) ts spans ∧
      (first :: (spans ++ [last])).IsChain (Precedes (before ++ (piece ++ rest))) := by
  induction h generalizing front gap first with
  | nil before rest =>
    subst hbefore
    refine ⟨[], .nil, .cons_cons ?_ (.singleton _)⟩
    rw [List.append_assoc]
    exact precedes_of_gap hgap hfirst (by simpa using hlast)
  | @blank before blank piece rest ts hblank _ ih =>
    subst hbefore
    rw [List.append_assoc] at hgap
    have hspans := ih front (gap ++ blank) (List.append_assoc ..) (hgap.concat hblank) first hfirst
      (by rw [hlast, List.append_assoc _ blank])
    simpa only [List.append_assoc] using hspans
  | @token before piece rest text kind ts hlexeme _ ih =>
    obtain ⟨spans, hfills, hchain⟩ := ih (before ++ text.toList) [] (List.append_nil _).symm
      (.nil _) ⟨before.length, before.length + text.toList.length⟩ (List.length_append ..).symm
      (by rw [hlast, List.append_assoc])
    simp only [List.append_assoc] at hfills hchain ⊢
    refine ⟨_ :: spans, .cons (fills_of_lexeme before hlexeme) hfills, .cons_cons ?_ hchain⟩
    subst hbefore
    rw [List.append_assoc] at hgap ⊢
    exact precedes_of_gap hgap hfirst rfl

/-- The tokens of a text, the end mark apart, fill spans of it that follow each other, with white
space and comments around and between them. The only end mark stands just past the last
character. -/
theorem tokenize_lossless {source : String} {tokens : Tokens} (h : tokenize source = .ok tokens) :
    (∃ spans : List Span,
      List.Forall₂ (Fills source.toList) tokens.front spans ∧
      (⟨0, 0⟩ :: (spans ++ [⟨source.toList.length, source.toList.length⟩])).IsChain
        (Precedes source.toList)) ∧
      (∀ t ∈ tokens.front, t.kind ≠ .ending) ∧
      tokens.last = ⟨.ending, "", .past source.toList⟩ := by
  obtain ⟨hscan, hlast⟩ := tokenize_eq_ok_iff.mp h
  refine ⟨?_, hscan.kind_ne_ending, hlast⟩
  have hspans := hscan.exists_spans [] [] rfl (.nil _) ⟨0, 0⟩
    ⟨source.toList.length, source.toList.length⟩ rfl rfl
  simpa only [List.nil_append, List.append_nil] using hspans

/-- A letter beyond ASCII, a keyword in capitals, marks inside a comment, and a comment at the
end. -/
def commentedSource : String :=
  "Ünal->B:ENC // (x)\n  || #"

theorem tokenize_lossless_commented :
    ∃ tokens, tokenize commentedSource = .ok tokens ∧
      tokens.toList = [⟨.identifier, "Ünal", ⟨1, 1⟩⟩, ⟨.arrow, "->", ⟨1, 5⟩⟩,
        ⟨.identifier, "B", ⟨1, 7⟩⟩, ⟨.colon, ":", ⟨1, 8⟩⟩, ⟨.encWord, "ENC", ⟨1, 9⟩⟩,
        ⟨.join, "||", ⟨2, 3⟩⟩, ⟨.ending, "", ⟨2, 7⟩⟩] ∧
      ∃ spans : List Span,
        List.Forall₂ (Fills commentedSource.toList) tokens.front spans ∧
        (⟨0, 0⟩ :: (spans ++ [⟨25, 25⟩])).IsChain (Precedes commentedSource.toList) := by
  have htokens : (tokenize commentedSource).map Tokens.toList = .ok
      [⟨.identifier, "Ünal", ⟨1, 1⟩⟩, ⟨.arrow, "->", ⟨1, 5⟩⟩, ⟨.identifier, "B", ⟨1, 7⟩⟩,
        ⟨.colon, ":", ⟨1, 8⟩⟩, ⟨.encWord, "ENC", ⟨1, 9⟩⟩, ⟨.join, "||", ⟨2, 3⟩⟩,
        ⟨.ending, "", ⟨2, 7⟩⟩] := by decide +kernel
  cases hread : tokenize commentedSource with
  | error e =>
    rw [hread] at htokens
    cases htokens
  | ok tokens =>
    rw [hread] at htokens
    exact ⟨tokens, rfl, Except.ok.inj htokens, (tokenize_lossless hread).1⟩

end Wiretap.Lexing
