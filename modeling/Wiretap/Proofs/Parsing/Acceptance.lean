import Wiretap.Proofs.Parsing.Completeness
import Wiretap.Proofs.Parsing.Likeness

/-! What the parser accepts. It returns a protocol exactly if the tokens in front of the first end
mark spell it, and it never looks past that mark. -/

namespace Wiretap

open Grammar

theorem Stream.consumed_ofTokens (tokens : Tokens) : (ofTokens tokens).consumed = 0 := by
  unfold ofTokens
  split <;> rfl

/-- The tokens are `w` up to the first end mark `stop`, and `rest` after it. -/
structure Tokens.Splits (tokens : Tokens) (w : List Token) (stop : Token) (rest : List Token) :
    Prop where
  toList : tokens.toList = w ++ stop :: rest
  inner : ∀ t ∈ w, t.kind ≠ .ending
  stop_kind : stop.kind = .ending

namespace Tokens

variable {tokens : Tokens} {w rest : List Token} {stop : Token}

theorem splits_stream (tokens : Tokens) :
    tokens.Splits (Stream.ofTokens tokens).ahead (Stream.ofTokens tokens).stop
      (Stream.ofTokens tokens).beyond where
  toList := by
    have hfront := List.takeWhile_append_dropWhile (p := Stream.isInner) (l := tokens.front)
    unfold Stream.ofTokens Tokens.toList
    split
    · rename_i hrest
      rw [hrest, List.append_nil] at hfront
      exact congrArg (· ++ [tokens.last]) hfront.symm
    · rename_i stop beyond hrest
      rw [hrest] at hfront
      calc
        tokens.front ++ [tokens.last]
          = (tokens.front.takeWhile Stream.isInner ++ stop :: beyond) ++ [tokens.last] := by
            rw [hfront]
        _ = tokens.front.takeWhile Stream.isInner ++ stop :: (beyond ++ [tokens.last]) := by
            simp
  inner := (Stream.ofTokens tokens).ahead_kind
  stop_kind := (Stream.ofTokens tokens).stop_kind

theorem Splits.takeWhile_isInner (h : tokens.Splits w stop rest) :
    tokens.toList.takeWhile Stream.isInner = w := by
  have hinner : ∀ t ∈ w, Stream.isInner t = true := by simpa [Stream.isInner] using h.inner
  rw [h.toList, List.takeWhile_append_of_pos hinner]
  simp [Stream.isInner, h.stop_kind]

theorem Splits.unique {w' rest' : List Token} {stop' : Token} (h : tokens.Splits w stop rest)
    (h' : tokens.Splits w' stop' rest') : w = w' ∧ stop = stop' := by
  have hahead : w = w' := h.takeWhile_isInner.symm.trans h'.takeWhile_isInner
  have htail : stop :: rest = stop' :: rest' :=
    List.append_cancel_left (h.toList.symm.trans (hahead ▸ h'.toList))
  exact ⟨hahead, (List.cons_eq_cons.mp htail).1⟩

theorem Splits.alike {R : Likeness} {tokens' : Tokens} {w' rest' : List Token} {stop' : Token}
    (h : tokens.Splits w stop rest) (h' : tokens'.Splits w' stop' rest')
    (hw : List.Forall₂ R.rel w w') (hstop : R.rel stop stop') :
    (Stream.ofTokens tokens).Alike R (Stream.ofTokens tokens') := by
  obtain ⟨rfl, rfl⟩ := h.unique tokens.splits_stream
  obtain ⟨rfl, rfl⟩ := h'.unique tokens'.splits_stream
  exact ⟨by rw [Stream.consumed_ofTokens, Stream.consumed_ofTokens], hw, hstop⟩

/-- What stands after the first end mark has no say. -/
theorem Splits.ofTokens_eq {tokens' : Tokens} {rest' : List Token} (h : tokens.Splits w stop rest)
    (h' : tokens'.Splits w stop rest') : Protocol.ofTokens tokens = Protocol.ofTokens tokens' := by
  have hw : List.Forall₂ Likeness.equal.rel w w := List.forall₂_same.mpr fun _ _ => rfl
  rcases Protocol.ofTokens_alike (h.alike h' hw rfl) with ⟨p, hp, hp'⟩ | ⟨e, e', he, hp, hp'⟩
  · rw [hp, hp']
  · rw [hp, hp', he.eq]

theorem Splits.ofTokens_eq_ok_iff (h : tokens.Splits w stop rest) (p : Protocol) :
    Protocol.ofTokens tokens = .ok p ↔ Sentence w p := by
  have hahead := (tokens.splits_stream.unique h).1
  rw [← hahead]
  unfold Protocol.ofTokens
  constructor
  · intro hp
    split at hp
    · rename_i hresult
      cases hp
      exact Rule.protocol_sound hresult
    · cases hp
  · intro hp
    obtain ⟨t, hresult⟩ := Rule.protocol_complete hp
    rw [hresult]

end Tokens

namespace Protocol

/-- The parser accepts exactly the sentences of the grammar. The tokens up to the first end mark
decide what it returns, and those after it have no say, not even in a complaint. -/
theorem ofTokens_eq_ok_iff_sentence (tokens : Tokens) :
    (∃ w stop rest, tokens.Splits w stop rest) ∧
      ∀ w stop rest, tokens.Splits w stop rest →
        (∀ p, ofTokens tokens = .ok p ↔ Sentence w p) ∧
        (∀ p q, Sentence w p → Sentence w q → p = q) ∧
        ((¬ ∃ p, Sentence w p) → ∃ e, ofTokens tokens = .error e) ∧
        ∀ (tokens' : Tokens) rest', tokens'.Splits w stop rest' →
          ofTokens tokens' = ofTokens tokens := by
  refine ⟨⟨_, _, _, tokens.splits_stream⟩, fun w stop rest h => ?_⟩
  have haccepts := h.ofTokens_eq_ok_iff
  refine ⟨haccepts, fun p q hp hq => ?_, fun hnone => ?_, fun tokens' rest' h' => ?_⟩
  · have := (haccepts p).mpr hp
    rw [(haccepts q).mpr hq] at this
    cases this
    rfl
  · cases hresult : ofTokens tokens with
    | ok p => exact absurd ⟨p, (haccepts p).mp hresult⟩ hnone
    | error e => exact ⟨e, rfl⟩
  · exact h'.ofTokens_eq h

/-- A message with a name and one without, and no mark between them. -/
def exchangeWords : List Token :=
  [(.rolesWord, "roles"), (.colon, ":"), (.identifier, "A"), (.comma, ","), (.identifier, "B"),
   (.nonceWord, "nonce"), (.identifier, "n"), (.colon, ":"), (.identifier, "A"),
   (.identifier, "A"), (.arrow, "->"), (.identifier, "B"), (.colon, ":"), (.identifier, "m"),
   (.equals, "="), (.encWord, "Enc"), (.leftParen, "("), (.identifier, "k"), (.comma, ","),
   (.identifier, "n"), (.rightParen, ")"), (.join, "||"), (.identifier, "x"), (.join, "||"),
   (.identifier, "y"), (.identifier, "B"), (.arrow, "->"), (.identifier, "A"), (.colon, ":"),
   (.identifier, "n")].map fun (kind, text) => ⟨kind, text, ⟨1, 1⟩⟩

/-- After the end mark stands an equals sign, which is not read. -/
def exchangeTokens : Tokens :=
  ⟨exchangeWords ++ [⟨.ending, "", ⟨1, 1⟩⟩, ⟨.equals, "=", ⟨1, 1⟩⟩], ⟨.ending, "", ⟨1, 1⟩⟩, rfl⟩

theorem ofTokens_eq_ok_iff_sentence_exchange :
    exchangeTokens.Splits exchangeWords ⟨.ending, "", ⟨1, 1⟩⟩
      [⟨.equals, "=", ⟨1, 1⟩⟩, ⟨.ending, "", ⟨1, 1⟩⟩] ∧
    Sentence exchangeWords {
      roles := ["A", "B"]
      keys := []
      nonces := [⟨"n", "A"⟩]
      messages := [
        ⟨"A", "B", .assign "m"
          (.concat (.concat (.enc "k" (.ident "n")) (.ident "x")) (.ident "y"))⟩,
        ⟨"B", "A", .ident "n"⟩] } := by
  have hsplits : exchangeTokens.Splits exchangeWords ⟨.ending, "", ⟨1, 1⟩⟩
      [⟨.equals, "=", ⟨1, 1⟩⟩, ⟨.ending, "", ⟨1, 1⟩⟩] := ⟨rfl, by decide, rfl⟩
  exact ⟨hsplits, (((ofTokens_eq_ok_iff_sentence exchangeTokens).2 _ _ _ hsplits).1 _).mp rfl⟩

end Protocol

end Wiretap
