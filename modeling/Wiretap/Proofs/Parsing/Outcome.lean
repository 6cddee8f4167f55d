import Wiretap.Proofs.Parsing.Completeness
import Wiretap.Proofs.Parsing.Productions

/-! What a rule knows about the sentences that start with the tokens read so far, and what its
outcome is to be. A rule is run where these tokens are viable and where it is known how sentences go
on after them, as far as the next token shows. It passes over a phrase and leaves such knowledge
about what follows the phrase, or its complaint is about the first token that no sentence has at
this place. This goes from rules to sequences and repetitions of them. -/

namespace Wiretap

open Computability Grammar Productions

namespace Stream

variable {s t u : Stream} {ts us : List Token} {x : Token}

theorem Passes.tokens_eq (h : s.Passes ts u) (h' : s.Passes us u) : ts = us :=
  List.append_cancel_right (h.ahead.symm.trans h'.ahead)

theorem Passes.length_le (h : s.Passes ts t) : t.ahead.length ≤ s.ahead.length := by
  rw [h.ahead, List.length_append]
  omega

theorem Passes.length_lt (h : s.Passes (x :: ts) t) : t.ahead.length < s.ahead.length := by
  rw [h.ahead, List.length_append, List.length_cons]
  omega

end Stream

/-- The tokens that were read are viable, and the sentences that start with them and with the next
token are those that go on with `F`. -/
inductive Expects (start s : Stream) (F : Language Token) : Prop
  | intro {before : List Token} : start.Passes before s → Viable before →
      (∀ w, before ++ s.peek :: w ∈ sentence ↔ s.peek :: w ∈ F) → Expects start s F

/-- The complaint is about a token that makes what was read no start of a sentence, or it is about
the key of an encryption. -/
inductive Blamed (start : Stream) : ParseError → Prop
  | token {ts : List Token} {t : Stream} {expected : Expectation} :
      start.Passes ts t → Viable ts → ¬Viable (ts ++ [t.peek]) →
      Blamed start ⟨expected, t.peek, t.consumed⟩
  | key {ts ks : List Token} {word opening : Token} {t u : Stream} :
      start.Passes (ts ++ [word, opening]) t → word.kind = .encWord → opening.kind = .leftParen →
      t.Passes ks u → ks ∈ expr → ks ∉ token .identifier → u.peek.kind ≠ .join →
      Viable (ts ++ word :: opening :: ks) →
      Blamed start ⟨.encKey, t.peek, t.consumed⟩

namespace Expects

variable {start s t : Stream} {F G : Language Token}

theorem congr (h : Expects start s F) (hG : ∀ w, s.peek :: w ∈ F ↔ s.peek :: w ∈ G) :
    Expects start s G := by
  obtain ⟨hpass, hviable, hnext⟩ := h
  exact ⟨hpass, hviable, fun w => (hnext w).trans (hG w)⟩

theorem blamed (h : Expects start s F) (hF : ∀ w, s.peek :: w ∉ F) (expected : Expectation) :
    Blamed start ⟨expected, s.peek, s.consumed⟩ := by
  obtain ⟨hpass, hviable, hnext⟩ := h
  refine .token hpass hviable ?_
  rintro ⟨us, hus⟩
  rw [List.append_assoc] at hus
  exact hF us ((hnext us).mp hus)

theorem advance (h : Expects start s F) (hkind : s.peek.kind ≠ .ending) (hG : Occurs G)
    (hnext : ∀ w, s.peek :: w ∈ F ↔ w ∈ G) : Expects start s.advance G := by
  obtain @⟨before, hpass, -, hsentence⟩ := h
  have hafter (w : List Token) : (before ++ [s.peek]) ++ w ∈ sentence ↔ w ∈ G := by
    rw [List.append_assoc]
    exact (hsentence w).trans (hnext w)
  obtain ⟨v, hv⟩ := hG
  exact ⟨hpass.trans (Stream.passes_advance hkind), ⟨v, (hafter v).mpr hv⟩, fun w => hafter _⟩

end Expects

namespace Rule

variable {α β : Type} {n : Nat} {start s t u : Stream} {F G H : Language Token}
  {N N' P : Kind → Prop}

/-- A rule for phrases from `G` that are followed by words from `F` reads such a phrase, and then
`F` is expected, or its complaint points to the right token. -/
def Outcome (start s : Stream) (G F : Language Token) :
    EStateM.Result ParseError Stream α → Prop
  | .ok _ t => ∃ ts ∈ G, s.Passes ts t ∧ Expects start t F
  | .error e _ => Blamed start e

/-- The rule does this wherever less than `n` tokens are left and what follows does not start with
a token of a kind in `N`. -/
def Locates (n : Nat) (r : Rule α) (G : Language Token) (N : Kind → Prop) : Prop :=
  ∀ ⦃start s F⦄, s.ahead.length < n → Occurs F → Avoids F N → Expects start s (G * F) →
    Outcome start s G F (r s)

theorem Outcome.after {ts : List Token} {x : EStateM.Result ParseError Stream α}
    (h : Outcome start t H F x) (hts : ts ∈ G) (hpass : s.Passes ts t) :
    Outcome start s (G * H) F x := by
  cases x with
  | ok a u =>
    obtain ⟨us, hus, hpass', hu⟩ := h
    exact ⟨ts ++ us, Language.append_mem_mul hts hus, hpass.trans hpass', hu⟩
  | error e u => exact h

theorem Outcome.mono {x : EStateM.Result ParseError Stream α} (h : Outcome start s G F x)
    (hG : G ≤ H) : Outcome start s H F x := by
  cases x with
  | ok a t =>
    obtain ⟨ts, hts, hrest⟩ := h
    exact ⟨ts, hG hts, hrest⟩
  | error e t => exact h

theorem Outcome.bind {r : Rule α} {f : α → Rule β} {F' : Language Token}
    (hr : Outcome start s G F' (r s))
    (hf : ∀ ts a t, r s = .ok a t → ts ∈ G → s.Passes ts t → Expects start t F' →
      Outcome start s H F (f a t)) : Outcome start s H F ((r >>= f) s) := by
  change Outcome start s H F (EStateM.bind r f s)
  unfold EStateM.bind
  cases hresult : r s with
  | ok a t =>
    rw [hresult] at hr
    obtain ⟨ts, hts, hpass, ht⟩ := hr
    exact hf ts a t hresult hts hpass ht
  | error e t =>
    rw [hresult] at hr
    exact hr

theorem bind_eq_error {r : Rule α} {f : α → Rule β} {e : ParseError} :
    (r >>= f) s = .error e u ↔ r s = .error e u ∨ ∃ a t, r s = .ok a t ∧ f a t = .error e u := by
  change EStateM.bind r f s = _ ↔ _
  unfold EStateM.bind
  cases r s with
  | ok a t => simp
  | error e' t => simp

theorem Outcome.of_bind_eq_error {r : Rule α} {f : α → Rule β} {e : ParseError}
    (hr : Outcome start s G F (r s)) (h : (r >>= f) s = .error e u) :
    Blamed start e ∨ ∃ a t, Expects start t F ∧ f a t = .error e u := by
  rcases bind_eq_error.mp h with h | ⟨a, t, ht, h⟩
  · rw [h] at hr
    exact .inl hr
  · rw [ht] at hr
    obtain ⟨_, _, _, hexpects⟩ := hr
    exact .inr ⟨a, t, hexpects, h⟩

theorem bind_eq_of_ok {r : Rule α} {f : α → Rule β} {a : α} (h : r s = .ok a t) :
    (r >>= f) s = f a t := by
  change EStateM.bind r f s = _
  unfold EStateM.bind
  rw [h]

theorem Locates.mono {r : Rule α} (h : r.Locates n G N) (hN : ∀ k, N k → N' k) :
    r.Locates n G N' :=
  fun _ _ _ hs hF havoids => h hs hF fun x w hw hx => havoids x w hw (hN _ hx)

theorem Locates.bind {r : Rule α} {f : α → Rule β} (hr : r.Locates n G N') (hH : Occurs H)
    (hN : ∀ F, Avoids F N → Avoids (H * F) N') (hf : ∀ a, (f a).Locates n H N) :
    (r >>= f).Locates n (G * H) N := by
  intro start s F hs hF havoids h
  rw [mul_assoc] at h
  refine (hr hs (occurs_mul.mpr ⟨hH, hF⟩) (hN F havoids) h).bind fun ts a t _ hts hpass ht => ?_
  exact (hf a (Nat.lt_of_le_of_lt hpass.length_le hs) hF havoids ht).after hts hpass

/-- The same after a rule that goes with whatever follows. -/
theorem Locates.seq {r : Rule α} {f : α → Rule β} (hr : r.Locates n G fun _ => False)
    (hH : Occurs H) (hf : ∀ a, (f a).Locates n H N) : (r >>= f).Locates n (G * H) N :=
  hr.bind hH (fun _ _ => avoids_false _) hf

/-- The same after a rule that must not be followed by `k'`, in front of a phrase that starts with
another kind of token. -/
theorem Locates.upTo {r : Rule α} {f : α → Rule β} {k k' : Kind} (hr : r.Locates n G (· = k'))
    (hH : Occurs H) (hstarts : Starts H (· = k)) (hk : k ≠ k') (hf : ∀ a, (f a).Locates n H N) :
    (r >>= f).Locates n (G * H) N :=
  hr.bind hH (fun F _ => (hstarts.mul F).avoids (by rintro _ rfl; exact hk)) hf

theorem locates_pure (a : α) : (pure a : Rule α).Locates n 1 N := by
  intro start s F _ _ _ h
  rw [one_mul] at h
  exact ⟨[], Language.nil_mem_one, .refl s, h⟩

theorem Locates.map {r : Rule α} (hr : r.Locates n G N) (f : α → β) :
    (do return f (← r) : Rule β).Locates n G N := by
  rw [← mul_one G]
  refine hr.bind ⟨[], Language.nil_mem_one⟩ (fun F hF => ?_) fun a => locates_pure (f a)
  rwa [one_mul]

theorem locates_consume {k : Kind} (hk : k ≠ .ending) (expected : Expectation) :
    (consume k expected).Locates n (token k) N := by
  intro start s F _ hF _ h
  unfold consume
  split
  · rename_i hkind
    simp only [beq_iff_eq] at hkind
    have hinner : s.peek.kind ≠ .ending := hkind ▸ hk
    refine ⟨[s.peek], ⟨s.peek, hkind, rfl⟩, Stream.passes_advance hinner, ?_⟩
    exact h.advance hinner hF fun w => by simp [hkind]
  · rename_i hkind
    simp only [beq_iff_eq] at hkind
    exact h.blamed (fun w hw => hkind (cons_mem_token_mul.mp hw).1) expected

theorem locates_name (expected : Expectation) :
    (name expected).Locates n (token .identifier) N :=
  (locates_consume (by decide) expected).map _

/-! ### Repetitions -/

/-- The rule reads a phrase if the next token is of a kind in `P`, which is how all phrases start,
and finds nothing otherwise. -/
structure Offers (n : Nat) (item : Rule (Option α)) (G : Language Token) (P N : Kind → Prop) :
    Prop where
  starts : Starts G P
  skips : item.Skips (¬P ·)
  finds : ∀ ⦃start s F⦄, s.ahead.length < n → Occurs F → Avoids F N → P s.peek.kind →
    Expects start s (G * F) → (∀ t, item s ≠ .ok none t) ∧ Outcome start s G F (item s)

theorem return_some_ne_none {r : Rule α} (f : α → β) :
    (do return some (f (← r)) : Rule (Option β)) s ≠ .ok none t := by
  intro h
  obtain ⟨a, u, -, h⟩ := bind_eq_ok.mp h
  cases (pure_eq_ok.mp h).1

theorem Offers.manyUpTo {item : Rule (Option α)} (h : item.Offers n G P N)
    (hPN : ∀ k, P k → ¬N k) (hs : s.ahead.length < n) (hF : Occurs F) (hP : Avoids F P)
    (hN : Avoids F N) (hexpects : Expects start s (G∗ * F)) (limit : Nat) (found : List α)
    (hlimit : s.ahead.length < limit) :
    Outcome start s G∗ F (manyUpTo item limit found s) := by
  induction limit generalizing s found with
  | zero => exact absurd hlimit (Nat.not_lt_zero _)
  | succ limit ih =>
    unfold Rule.manyUpTo
    by_cases hpeek : P s.peek.kind
    · -- What follows the repetition cannot start like this, so there is one more phrase.
      have hexpects : Expects start s (G * (G∗ * F)) := hexpects.congr fun w =>
        mem_kstar_mul.trans (or_iff_right fun hw => hP _ w hw hpeek)
      obtain ⟨hsome, hfound⟩ := h.finds hs (occurs_mul.mpr ⟨occurs_kstar G, hF⟩)
        (.kstar_mul h.starts hPN hN) hpeek hexpects
      split
      · rename_i hnone
        exact absurd hnone (hsome _)
      · rename_i a t hresult
        rw [hresult] at hfound
        obtain ⟨ts, hts, hpass, ht⟩ := hfound
        -- A phrase takes at least one token, so the limit is not reached.
        obtain ⟨x, us, rfl, -⟩ := h.starts ts hts
        have hlength := hpass.length_lt
        have hrest := ih (by omega) ht (a :: found) (by omega)
        exact (hrest.after hts hpass).mono mul_kstar_le_kstar
      · rename_i hresult
        rw [hresult] at hfound
        exact hfound
    · rw [h.skips hpeek]
      refine ⟨[], Language.nil_mem_kstar G, .refl s, hexpects.congr fun w => ?_⟩
      refine mem_kstar_mul.trans (or_iff_left fun hw => ?_)
      exact (h.starts.mul _).avoids (N := (¬P ·)) (fun _ => not_not_intro) _ w hw hpeek

theorem Offers.many {item : Rule (Option α)} (h : item.Offers n G P N)
    (hPN : ∀ k, P k → ¬N k) : (many item).Locates n G∗ fun k => P k ∨ N k :=
  fun _ _ _ hs hF havoids hexpects =>
    h.manyUpTo hPN hs hF (fun x w hw hx => havoids x w hw (.inl hx))
      (fun x w hw hx => havoids x w hw (.inr hx)) hexpects _ [] (Nat.lt_succ_self _)

theorem Outcome.afterWord {x : EStateM.Result ParseError Stream α}
    (h : Outcome start s.advance G F x) (hinner : s.peek.kind ≠ .ending)
    (hH : ∀ F w, s.peek :: w ∈ H * F ↔ w ∈ G * F) : Outcome start s H F x := by
  refine (h.after (G := {[s.peek]}) rfl (Stream.passes_advance hinner)).mono ?_
  rintro _ ⟨_, rfl, ts, hts, rfl⟩
  have hmem := (hH 1 ts).mpr (by rwa [mul_one])
  rwa [mul_one] at hmem

/-- After a word the rule reads the rest of a phrase that starts with this word. -/
theorem Locates.afterWord {r : Rule α} {k : Kind} (hr : r.Locates n G N) (hk : k ≠ .ending)
    (hG : Occurs G) (hs : s.ahead.length < n + 1) (hF : Occurs F) (hN : Avoids F N)
    (hword : s.peek.kind = k) (hH : ∀ F w, s.peek :: w ∈ H * F ↔ w ∈ G * F)
    (h : Expects start s (H * F)) : Outcome start s H F (r s.advance) := by
  have hinner : s.peek.kind ≠ .ending := hword ▸ hk
  have hlength := (Stream.passes_advance hinner).length_lt
  have hnext := h.advance hinner (occurs_mul.mpr ⟨hG, hF⟩) (hH F)
  exact (hr (by omega) hF hN hnext).afterWord hinner hH

theorem after_offers {mark : Kind} (hmark : mark ≠ .ending) {item : Rule α} (hG : Occurs G)
    (hitem : item.Locates n G N) :
    (after mark item).Offers n (token mark * G) (· = mark) N where
  starts := starts_token_mul mark G
  skips := after_skips
  finds start s F hs hF hN hpeek h := by
    unfold after
    rw [accept_bind_eq, if_pos hpeek]
    refine ⟨fun t => return_some_ne_none id, ?_⟩
    refine (hitem.map some).afterWord hmark hG (Nat.lt_succ_of_lt hs) hF hN hpeek (fun F w => ?_) h
    rw [mul_assoc]
    simp [hpeek]

theorem locates_many_after {mark : Kind} (hmark : mark ≠ .ending) {item : Rule α} (hG : Occurs G)
    (hitem : item.Locates n G fun _ => False) :
    (many (after mark item)).Locates n (token mark * G)∗ (· = mark) :=
  ((after_offers hmark hG hitem).many fun _ _ => id).mono (by simp)

end Rule

end Wiretap
