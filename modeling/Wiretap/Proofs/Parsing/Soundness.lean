import Wiretap.Proofs.Grammar
import Wiretap.Source.Grammar

/-! Soundness of the parser against the grammar. A rule is sound if the tokens that it passes over
spell what it returns. -/

namespace Wiretap

open Grammar

/-- `t` is the stream `s` past the tokens `ts`. -/
structure Stream.Passes (s : Stream) (ts : List Token) (t : Stream) : Prop where
  ahead : s.ahead = ts ++ t.ahead
  stop : t.stop = s.stop
  beyond : t.beyond = s.beyond
  consumed : t.consumed = s.consumed + ts.length

namespace Stream

variable {s t u : Stream} {ts us : List Token} {x : Token}

theorem eq_of_fields (hconsumed : s.consumed = t.consumed) (hahead : s.ahead = t.ahead)
    (hstop : s.stop = t.stop) (hbeyond : s.beyond = t.beyond) : s = t := by
  cases s
  cases t
  simp_all

theorem Passes.refl (s : Stream) : s.Passes [] s :=
  ⟨rfl, rfl, rfl, rfl⟩

theorem Passes.trans (h : s.Passes ts t) (h' : t.Passes us u) : s.Passes (ts ++ us) u where
  ahead := by rw [h.ahead, h'.ahead, List.append_assoc]
  stop := h'.stop.trans h.stop
  beyond := h'.beyond.trans h.beyond
  consumed := by rw [h'.consumed, h.consumed, List.length_append, Nat.add_assoc]

theorem Passes.cons (h : s.Passes [x] t) (h' : t.Passes us u) : s.Passes (x :: us) u :=
  h.trans h'

theorem Passes.unique (h : s.Passes ts t) (h' : s.Passes ts u) : t = u := by
  apply eq_of_fields
  · rw [h.consumed, h'.consumed]
  · exact List.append_cancel_left (h.ahead.symm.trans h'.ahead)
  · rw [h.stop, h'.stop]
  · rw [h.beyond, h'.beyond]

theorem Passes.split (h : s.Passes (ts ++ us) u) : ∃ t, s.Passes ts t ∧ t.Passes us u := by
  have hahead : s.ahead = ts ++ (us ++ u.ahead) := by rw [h.ahead, List.append_assoc]
  have hkind : ∀ t ∈ us ++ u.ahead, t.kind ≠ .ending := fun t ht =>
    s.ahead_kind t (hahead ▸ List.mem_append_right _ ht)
  refine ⟨⟨s.consumed + ts.length, us ++ u.ahead, s.stop, s.beyond, hkind, s.stop_kind⟩,
    ⟨hahead, rfl, rfl, rfl⟩, rfl, h.stop, h.beyond, ?_⟩
  rw [h.consumed, List.length_append, Nat.add_assoc]

theorem exists_passes_all (s : Stream) : ∃ t, s.Passes s.ahead t ∧ t.ahead = [] :=
  ⟨⟨s.consumed + s.ahead.length, [], s.stop, s.beyond, by simp, s.stop_kind⟩,
    ⟨(List.append_nil _).symm, rfl, rfl, rfl⟩, rfl⟩

theorem peek_of_ahead {rest : List Token} (h : s.ahead = x :: rest) : s.peek = x := by
  simp [peek, h]

theorem peek_kind_of_nil (h : s.ahead = []) : s.peek.kind = .ending := by
  simp [peek, h, s.stop_kind]

/-- The next token is an end mark only if no other token is left. -/
theorem ahead_eq_nil (h : s.peek.kind = .ending) : s.ahead = [] := by
  cases hahead : s.ahead with
  | nil => rfl
  | cons x rest =>
    rw [peek_of_ahead hahead] at h
    exact absurd h (s.ahead_kind x (by simp [hahead]))

theorem passes_advance (h : s.peek.kind ≠ .ending) : s.Passes [s.peek] s.advance := by
  cases hahead : s.ahead with
  | nil => exact absurd (peek_kind_of_nil hahead) h
  | cons x rest =>
    obtain ⟨consumed, ahead, stop, beyond, hkind, hstop⟩ := s
    subst hahead
    exact ⟨rfl, rfl, rfl, rfl⟩

theorem Passes.uncons (h : s.Passes (x :: ts) u) : ∃ t, s.Passes [x] t ∧ t.Passes ts u :=
  Passes.split (show s.Passes ([x] ++ ts) u from h)

theorem Passes.peek (h : s.Passes (x :: ts) u) : s.peek = x :=
  peek_of_ahead h.ahead

theorem Passes.advance (h : s.Passes (x :: ts) u) : s.advance.Passes ts u := by
  obtain ⟨t, hx, hrest⟩ := h.uncons
  have hkind : s.peek.kind ≠ .ending := by
    rw [h.peek]
    exact s.ahead_kind x (by simp [h.ahead])
  have hadvance := passes_advance hkind
  rw [h.peek] at hadvance
  rw [hadvance.unique hx]
  exact hrest

end Stream

namespace Rule

variable {α β : Type} {s t u : Stream}

theorem bind_eq_ok {r : Rule α} {f : α → Rule β} {b : β} :
    (r >>= f) s = .ok b u ↔ ∃ a t, r s = .ok a t ∧ f a t = .ok b u := by
  change EStateM.bind r f s = _ ↔ _
  unfold EStateM.bind
  cases r s with
  | ok a t =>
    refine ⟨fun h => ⟨a, t, rfl, h⟩, ?_⟩
    rintro ⟨_, _, h, hf⟩
    cases h
    exact hf
  | error => simp

theorem pure_eq_ok {a b : α} : (pure a : Rule α) s = .ok b t ↔ a = b ∧ s = t := by
  change EStateM.Result.ok a s = .ok b t ↔ _
  simp

theorem consume_eq_ok {k : Kind} {expected : Expectation} {x : Token} (hk : k ≠ .ending) :
    consume k expected s = .ok x t ↔ x.kind = k ∧ s.Passes [x] t := by
  unfold consume
  constructor
  · intro h
    split at h
    · rename_i hkind
      simp only [beq_iff_eq] at hkind
      cases h
      exact ⟨hkind, Stream.passes_advance (hkind ▸ hk)⟩
    · cases h
  · rintro ⟨hx, h⟩
    have hadvance := Stream.passes_advance (s := s) (by rw [h.peek, hx]; exact hk)
    rw [h.peek] at hadvance ⊢
    rw [if_pos (by simp [hx]), hadvance.unique h]

theorem name_eq_ok {expected : Expectation} {name : String} :
    Rule.name expected s = .ok name t ↔ ∃ ts, s.Passes ts t ∧ Name ts name := by
  unfold Rule.name
  simp only [bind_eq_ok, pure_eq_ok, consume_eq_ok (k := .identifier) (by decide)]
  constructor
  · rintro ⟨x, _, ⟨hx, h⟩, rfl, rfl⟩
    exact ⟨[x], h, .intro hx⟩
  · rintro ⟨_, h, ⟨hx⟩⟩
    exact ⟨_, t, ⟨hx, h⟩, rfl, rfl⟩

theorem accept_of_kind {k : Kind} (h : s.peek.kind = k) : accept k s = .ok true s.advance := by
  simp [accept, h]

theorem accept_of_kind_ne {k : Kind} (h : s.peek.kind ≠ k) : accept k s = .ok false s := by
  simp [accept, h]

/-- What follows a test for the next token, by the outcome of the test. -/
theorem accept_bind_eq {k : Kind} {f : Bool → Rule β} :
    (accept k >>= f) s = if s.peek.kind = k then f true s.advance else f false s := by
  change EStateM.bind (accept k) f s = _
  unfold EStateM.bind
  by_cases h : s.peek.kind = k
  · rw [accept_of_kind h, if_pos h]
  · rw [accept_of_kind_ne h, if_neg h]

theorem check_bind_eq {k : Kind} {f : Bool → Rule β} :
    (check k >>= f) s = f (s.peek.kind == k) s :=
  rfl

/-- The tokens that the rule passes over spell what it returns. -/
def Sound (r : Rule α) (G : List Token → α → Prop) : Prop :=
  ∀ ⦃s a t⦄, r s = .ok a t → ∃ ts, s.Passes ts t ∧ G ts a

/-- A phrase that may be missing. -/
def Optional (G : List Token → α → Prop) (ts : List Token) : Option α → Prop
  | none => ts = []
  | some a => G ts a

theorem manyUpTo_sound {item : Rule (Option α)} {G : List Token → α → Prop}
    (hitem : item.Sound (Optional G)) (limit : Nat) (found : List α) {as : List α}
    (h : manyUpTo item limit found s = .ok as t) :
    ∃ ts bs, s.Passes ts t ∧ Many G ts bs ∧ as = found.reverse ++ bs := by
  induction limit generalizing found s with
  | zero =>
    cases h
    exact ⟨[], [], .refl _, .nil, by simp⟩
  | succ limit ih =>
    unfold manyUpTo at h
    split at h
    · rename_i hnone
      cases h
      obtain ⟨ts, hpass, rfl⟩ := hitem hnone
      exact ⟨[], [], hpass, .nil, by simp⟩
    · rename_i a u hsome
      obtain ⟨ts, hpass, hG⟩ := hitem hsome
      obtain ⟨us, bs, hrest, hmany, rfl⟩ := ih (a :: found) h
      exact ⟨ts ++ us, a :: bs, hpass.trans hrest, .cons hG hmany, by simp⟩
    · cases h

theorem many_sound {item : Rule (Option α)} {G : List Token → α → Prop}
    (hitem : item.Sound (Optional G)) : (many item).Sound (Many G) := by
  intro s as t h
  obtain ⟨ts, bs, hpass, hmany, rfl⟩ := manyUpTo_sound hitem _ [] h
  exact ⟨ts, hpass, hmany⟩

/-- An item after a mark, if the mark is there. -/
def after (mark : Kind) (item : Rule α) : Rule (Option α) := do
  if ← accept mark then return some (← item) else return none

theorem after_sound {mark : Kind} (hmark : mark ≠ .ending) {item : Rule α}
    {G : List Token → α → Prop} (hitem : item.Sound G) :
    (after mark item).Sound (Optional (After mark G)) := by
  intro s o t h
  unfold after at h
  rw [accept_bind_eq] at h
  split at h
  · rename_i hkind
    obtain ⟨a, u, ha, h⟩ := bind_eq_ok.mp h
    obtain ⟨rfl, rfl⟩ := pure_eq_ok.mp h
    obtain ⟨ts, hpass, hG⟩ := hitem ha
    exact ⟨_, (Stream.passes_advance (hkind ▸ hmark)).cons hpass, .intro hkind hG⟩
  · obtain ⟨rfl, rfl⟩ := pure_eq_ok.mp h
    exact ⟨[], .refl _, rfl⟩

theorem name_sound (expected : Expectation) : (name expected).Sound Name :=
  fun _ _ _ h => name_eq_ok.mp h

theorem names_sound (first next : Expectation) : (names first next).Sound Names := by
  intro s ns t h
  obtain ⟨head, u, hhead, h⟩ := bind_eq_ok.mp h
  obtain ⟨rest, v, hrest, h⟩ := bind_eq_ok.mp h
  obtain ⟨rfl, rfl⟩ := pure_eq_ok.mp h
  obtain ⟨ts, hpass, hname⟩ := name_sound first hhead
  obtain ⟨us, hpass', hmany⟩ := many_sound (after_sound (by decide) (name_sound next)) hrest
  exact ⟨_, hpass.trans hpass', .intro hname hmany⟩

theorem consume_sound {k : Kind} {expected : Expectation} (hk : k ≠ .ending) {x : Token}
    (h : consume k expected s = .ok x t) : x.kind = k ∧ s.Passes [x] t :=
  (consume_eq_ok hk).mp h

theorem rolesDecl_sound : rolesDecl.Sound RolesDecl := by
  intro s names t h
  obtain ⟨word, u, hword, h⟩ := bind_eq_ok.mp h
  obtain ⟨colon, v, hcolon, h⟩ := bind_eq_ok.mp h
  obtain ⟨hword, pword⟩ := consume_sound (by decide) hword
  obtain ⟨hcolon, pcolon⟩ := consume_sound (by decide) hcolon
  obtain ⟨ts, hpass, hnames⟩ := names_sound _ _ h
  exact ⟨_, pword.cons (pcolon.cons hpass), .intro hword hcolon hnames⟩

theorem keyDecl_sound (form : KeyForm) :
    (keyDecl form).Sound (KeyTail form.kind form.many) := by
  intro s d t h
  obtain ⟨word, s₁, hword, h⟩ := bind_eq_ok.mp h
  obtain ⟨key, s₂, hkey, h⟩ := bind_eq_ok.mp h
  obtain ⟨colon, s₃, hcolon, h⟩ := bind_eq_ok.mp h
  obtain ⟨hword, pword⟩ := consume_sound (by decide) hword
  obtain ⟨_, pkey, ⟨hident⟩⟩ := name_sound _ hkey
  obtain ⟨hcolon, pcolon⟩ := consume_sound (by decide) hcolon
  split at h
  · rename_i hmany
    obtain ⟨owners, s₄, howners, h⟩ := bind_eq_ok.mp h
    obtain ⟨rfl, rfl⟩ := pure_eq_ok.mp h
    obtain ⟨ts, hpass, hnames⟩ := names_sound _ _ howners
    exact ⟨_, pword.cons (pkey.cons (pcolon.cons hpass)),
      .intro hword hident hcolon (hmany ▸ .several hnames)⟩
  · rename_i hmany
    obtain ⟨owner, s₄, howner, h⟩ := bind_eq_ok.mp h
    obtain ⟨ts, hpass, hname⟩ := name_sound _ howner
    rw [check_bind_eq] at h
    split at h
    · cases h
    · obtain ⟨rfl, rfl⟩ := pure_eq_ok.mp h
      exact ⟨_, pword.cons (pkey.cons (pcolon.cons hpass)),
        .intro hword hident hcolon (Bool.eq_false_iff.mpr hmany ▸ .single hname)⟩

theorem nonceDecl_sound :
    nonceDecl.Sound fun ts d => ∀ word : Token, word.kind = .nonceWord →
      Decl (word :: ts) (.inr d) := by
  intro s d t h
  obtain ⟨nonce, s₁, hnonce, h⟩ := bind_eq_ok.mp h
  obtain ⟨colon, s₂, hcolon, h⟩ := bind_eq_ok.mp h
  obtain ⟨owner, s₃, howner, h⟩ := bind_eq_ok.mp h
  obtain ⟨rfl, rfl⟩ := pure_eq_ok.mp h
  obtain ⟨_, pnonce, ⟨hident⟩⟩ := name_sound _ hnonce
  obtain ⟨hcolon, pcolon⟩ := consume_sound (by decide) hcolon
  obtain ⟨_, powner, ⟨hident'⟩⟩ := name_sound _ howner
  exact ⟨_, pnonce.cons (pcolon.cons powner), fun _ hword => .nonce hword hident hcolon hident'⟩

/-- A declaration of a key after the word for its kind. -/
theorem keyDecl_some_sound {form : KeyForm} {o : Option (KeyDecl ⊕ NonceDecl)}
    (hword : s.peek.kind ≠ .ending)
    (hdecl : ∀ ts d, KeyTail form.kind form.many ts d → Decl (s.peek :: ts) (.inl d))
    (h : (do return some (.inl (← keyDecl form)) : Rule (Option (KeyDecl ⊕ NonceDecl)))
      s.advance = .ok o t) : ∃ ts, s.Passes ts t ∧ Optional Decl ts o := by
  obtain ⟨d, u, hd, h⟩ := bind_eq_ok.mp h
  obtain ⟨rfl, rfl⟩ := pure_eq_ok.mp h
  obtain ⟨ts, hpass, htail⟩ := keyDecl_sound _ hd
  exact ⟨_, (Stream.passes_advance hword).cons hpass, hdecl ts d htail⟩

theorem decl?_sound : decl?.Sound (Optional Decl) := by
  intro s o t h
  unfold decl? at h
  simp only [accept_bind_eq, if_true, Bool.false_eq_true, if_false] at h
  split at h
  · rename_i hword
    exact keyDecl_some_sound (by simp [hword]) (fun _ _ => .sharedKey hword) h
  split at h
  · rename_i hword
    exact keyDecl_some_sound (by simp [hword]) (fun _ _ => .privateKey hword) h
  split at h
  · rename_i hword
    exact keyDecl_some_sound (by simp [hword]) (fun _ _ => .publicKey hword) h
  split at h
  · rename_i hword
    obtain ⟨d, u, hd, h⟩ := bind_eq_ok.mp h
    obtain ⟨rfl, rfl⟩ := pure_eq_ok.mp h
    obtain ⟨ts, hpass, htail⟩ := nonceDecl_sound hd
    exact ⟨_, (Stream.passes_advance (by simp [hword])).cons hpass, htail _ hword⟩
  · obtain ⟨rfl, rfl⟩ := pure_eq_ok.mp h
    exact ⟨[], .refl _, rfl⟩

/-- The arguments of a constructor, for a word of kind `k` in front of them. -/
def Arguments (k : Kind) (ts : List Token) (n : Node) : Prop :=
  ∀ word : Token, word.kind = k → Spells .operand (word :: ts) n

theorem enc_sound {expr : Rule Node} (hexpr : expr.Sound (Spells .expr)) :
    (enc expr).Sound (Arguments .encWord) := by
  intro s n t h
  obtain ⟨opening, s₁, hopening, h⟩ := bind_eq_ok.mp h
  obtain ⟨badKey, s₂, hbad, h⟩ := bind_eq_ok.mp h
  cases hbad
  obtain ⟨key, s₃, hkey, h⟩ := bind_eq_ok.mp h
  split at h
  · obtain ⟨comma, s₄, hcomma, h⟩ := bind_eq_ok.mp h
    obtain ⟨m, s₅, hm, h⟩ := bind_eq_ok.mp h
    obtain ⟨closing, s₆, hclosing, h⟩ := bind_eq_ok.mp h
    obtain ⟨rfl, rfl⟩ := pure_eq_ok.mp h
    obtain ⟨hopening, popening⟩ := consume_sound (by decide) hopening
    obtain ⟨_, pkey, hspells⟩ := hexpr hkey
    obtain ⟨x, hident, rfl, rfl⟩ := hspells.ident_inv
    obtain ⟨hcomma, pcomma⟩ := consume_sound (by decide) hcomma
    obtain ⟨ts, pm, hm⟩ := hexpr hm
    obtain ⟨hclosing, pclosing⟩ := consume_sound (by decide) hclosing
    exact ⟨_, popening.cons (pkey.cons (pcomma.cons (pm.trans pclosing))),
      fun _ hword => .enc hword hopening hident hcomma hm hclosing⟩
  · cases h

/-- The arguments of a constructor with a key and a message. -/
def keyed (construct : Construct) (keyExpected commaExpected : Expectation)
    (make : String → Node → Node) (expr : Rule Node) : Rule Node := do
  let _ ← consume .leftParen (.opening construct)
  let key ← name keyExpected
  let _ ← consume .comma commaExpected
  let message ← expr
  let _ ← consume .rightParen (.closing construct)
  return make key message

theorem mac_eq_keyed (expr : Rule Node) : mac expr = keyed .mac .macKey .macComma .mac expr :=
  rfl

theorem sign_eq_keyed (expr : Rule Node) :
    sign expr = keyed .sign .signKey .signComma .sign expr :=
  rfl

/-- The production of a constructor with a key and a message. -/
def Keyed (k : Kind) (make : String → Node → Node) : Prop :=
  ∀ ⦃word opening key comma closing : Token⦄ ⦃ts : List Token⦄ ⦃m : Node⦄,
    word.kind = k → opening.kind = .leftParen → key.kind = .identifier → comma.kind = .comma →
    Spells .expr ts m → closing.kind = .rightParen →
    Spells .operand (word :: opening :: key :: comma :: (ts ++ [closing])) (make key.text m)

theorem keyed_sound {construct : Construct} {keyExpected commaExpected : Expectation} {k : Kind}
    {make : String → Node → Node} (hmake : Keyed k make) {expr : Rule Node}
    (hexpr : expr.Sound (Spells .expr)) :
    (keyed construct keyExpected commaExpected make expr).Sound (Arguments k) := by
  intro s n t h
  obtain ⟨opening, s₁, hopening, h⟩ := bind_eq_ok.mp h
  obtain ⟨key, s₂, hkey, h⟩ := bind_eq_ok.mp h
  obtain ⟨comma, s₃, hcomma, h⟩ := bind_eq_ok.mp h
  obtain ⟨m, s₄, hm, h⟩ := bind_eq_ok.mp h
  obtain ⟨closing, s₅, hclosing, h⟩ := bind_eq_ok.mp h
  obtain ⟨rfl, rfl⟩ := pure_eq_ok.mp h
  obtain ⟨hopening, popening⟩ := consume_sound (by decide) hopening
  obtain ⟨_, pkey, ⟨hident⟩⟩ := name_sound _ hkey
  obtain ⟨hcomma, pcomma⟩ := consume_sound (by decide) hcomma
  obtain ⟨ts, pm, hm⟩ := hexpr hm
  obtain ⟨hclosing, pclosing⟩ := consume_sound (by decide) hclosing
  exact ⟨_, popening.cons (pkey.cons (pcomma.cons (pm.trans pclosing))),
    fun _ hword => hmake hword hopening hident hcomma hm hclosing⟩

theorem verify_sound {expr : Rule Node} (hexpr : expr.Sound (Spells .expr)) :
    (verify expr).Sound (Arguments .vrfyWord) := by
  intro s n t h
  obtain ⟨opening, s₁, hopening, h⟩ := bind_eq_ok.mp h
  obtain ⟨key, s₂, hkey, h⟩ := bind_eq_ok.mp h
  obtain ⟨comma, s₃, hcomma, h⟩ := bind_eq_ok.mp h
  obtain ⟨m, s₄, hm, h⟩ := bind_eq_ok.mp h
  obtain ⟨comma', s₅, hcomma', h⟩ := bind_eq_ok.mp h
  obtain ⟨signature, s₆, hsignature, h⟩ := bind_eq_ok.mp h
  obtain ⟨closing, s₇, hclosing, h⟩ := bind_eq_ok.mp h
  obtain ⟨rfl, rfl⟩ := pure_eq_ok.mp h
  obtain ⟨hopening, popening⟩ := consume_sound (by decide) hopening
  obtain ⟨_, pkey, ⟨hident⟩⟩ := name_sound _ hkey
  obtain ⟨hcomma, pcomma⟩ := consume_sound (by decide) hcomma
  obtain ⟨ts, pm, hm⟩ := hexpr hm
  obtain ⟨hcomma', pcomma'⟩ := consume_sound (by decide) hcomma'
  obtain ⟨us, psignature, hsignature⟩ := hexpr hsignature
  obtain ⟨hclosing, pclosing⟩ := consume_sound (by decide) hclosing
  exact ⟨_, popening.cons (pkey.cons (pcomma.cons
      (pm.trans (pcomma'.cons (psignature.trans pclosing))))),
    fun _ hword => .verify hword hopening hident hcomma hm hcomma' hsignature hclosing⟩

theorem hash_sound {expr : Rule Node} (hexpr : expr.Sound (Spells .expr)) :
    (hash expr).Sound (Arguments .hashWord) := by
  intro s n t h
  obtain ⟨opening, s₁, hopening, h⟩ := bind_eq_ok.mp h
  obtain ⟨m, s₂, hm, h⟩ := bind_eq_ok.mp h
  obtain ⟨closing, s₃, hclosing, h⟩ := bind_eq_ok.mp h
  obtain ⟨rfl, rfl⟩ := pure_eq_ok.mp h
  obtain ⟨hopening, popening⟩ := consume_sound (by decide) hopening
  obtain ⟨ts, pm, hm⟩ := hexpr hm
  obtain ⟨hclosing, pclosing⟩ := consume_sound (by decide) hclosing
  exact ⟨_, popening.cons (pm.trans pclosing),
    fun _ hword => .hash hword hopening hm hclosing⟩

/-- The word of a constructor with its arguments. -/
theorem Sound.afterWord {k : Kind} {r : Rule Node} (hr : r.Sound (Arguments k)) {n : Node}
    (hk : k ≠ .ending) (hword : s.peek.kind = k) (h : r s.advance = .ok n t) :
    ∃ ts, s.Passes ts t ∧ Spells .operand ts n := by
  obtain ⟨ts, hpass, harguments⟩ := hr h
  exact ⟨_, (Stream.passes_advance (hword ▸ hk)).cons hpass, harguments _ hword⟩

theorem operand_sound {expr : Rule Node} (hexpr : expr.Sound (Spells .expr)) :
    (operand expr).Sound (Spells .operand) := by
  intro s n t h
  unfold operand at h
  simp only [accept_bind_eq, check_bind_eq, if_true, Bool.false_eq_true, if_false, mac_eq_keyed,
    sign_eq_keyed] at h
  split at h
  · rename_i hword
    exact (enc_sound hexpr).afterWord (by decide) hword h
  split at h
  · rename_i hword
    exact (keyed_sound @Spells.mac hexpr).afterWord (by decide) hword h
  split at h
  · rename_i hword
    exact (keyed_sound @Spells.sign hexpr).afterWord (by decide) hword h
  split at h
  · rename_i hword
    exact (verify_sound hexpr).afterWord (by decide) hword h
  split at h
  · rename_i hword
    exact (hash_sound hexpr).afterWord (by decide) hword h
  split at h
  · obtain ⟨x, u, hx, h⟩ := bind_eq_ok.mp h
    obtain ⟨rfl, rfl⟩ := pure_eq_ok.mp h
    obtain ⟨_, hpass, ⟨hident⟩⟩ := name_sound _ hx
    exact ⟨_, hpass, .ident hident⟩
  · cases h

theorem joined_sound {item : Rule Node} (hitem : item.Sound (Spells .operand)) :
    (joined item).Sound (Spells .expr) := by
  intro s n t h
  obtain ⟨first, u, hfirst, h⟩ := bind_eq_ok.mp h
  obtain ⟨rest, v, hrest, h⟩ := bind_eq_ok.mp h
  obtain ⟨rfl, rfl⟩ := pure_eq_ok.mp h
  obtain ⟨ts, hpass, hfirst⟩ := hitem hfirst
  obtain ⟨us, hpass', hmany⟩ := many_sound (after_sound (by decide) hitem) hrest
  exact ⟨_, hpass.trans hpass', (Spells.operand hfirst).foldl hmany⟩

theorem exprWithin_sound (depth : Nat) : (exprWithin depth).Sound (Spells .expr) := by
  induction depth with
  | zero =>
    intro s n t h
    cases h
  | succ depth ih => exact joined_sound (operand_sound ih)

theorem expr_sound : expr.Sound (Spells .expr) :=
  fun _ _ _ h => exprWithin_sound _ h

theorem stmt_sound : stmt.Sound Stmt := by
  intro s n t h
  obtain ⟨isName, s₁, hcheck, h⟩ := bind_eq_ok.mp h
  cases hcheck
  obtain ⟨isAssigned, s₂, hcheck, h⟩ := bind_eq_ok.mp h
  cases hcheck
  split at h
  · obtain ⟨target, s₃, htarget, h⟩ := bind_eq_ok.mp h
    obtain ⟨equals, s₄, hequals, h⟩ := bind_eq_ok.mp h
    obtain ⟨value, s₅, hvalue, h⟩ := bind_eq_ok.mp h
    obtain ⟨rfl, rfl⟩ := pure_eq_ok.mp h
    obtain ⟨_, ptarget, ⟨hident⟩⟩ := name_sound _ htarget
    obtain ⟨hequals, pequals⟩ := consume_sound (by decide) hequals
    obtain ⟨ts, pvalue, hvalue⟩ := expr_sound hvalue
    exact ⟨_, ptarget.cons (pequals.cons pvalue), .assign hident hequals hvalue⟩
  · obtain ⟨ts, hpass, hexpr⟩ := expr_sound h
    exact ⟨ts, hpass, .expr hexpr⟩

theorem message_sound : message.Sound Msg := by
  intro s m t h
  obtain ⟨sender, s₁, hsender, h⟩ := bind_eq_ok.mp h
  obtain ⟨arrow, s₂, harrow, h⟩ := bind_eq_ok.mp h
  obtain ⟨receiver, s₃, hreceiver, h⟩ := bind_eq_ok.mp h
  obtain ⟨colon, s₄, hcolon, h⟩ := bind_eq_ok.mp h
  obtain ⟨body, s₅, hbody, h⟩ := bind_eq_ok.mp h
  obtain ⟨rfl, rfl⟩ := pure_eq_ok.mp h
  obtain ⟨_, psender, ⟨hident⟩⟩ := name_sound _ hsender
  obtain ⟨harrow, parrow⟩ := consume_sound (by decide) harrow
  obtain ⟨_, preceiver, ⟨hident'⟩⟩ := name_sound _ hreceiver
  obtain ⟨hcolon, pcolon⟩ := consume_sound (by decide) hcolon
  obtain ⟨ts, pbody, hbody⟩ := stmt_sound hbody
  exact ⟨_, psender.cons (parrow.cons (preceiver.cons (pcolon.cons pbody))),
    .intro hident harrow hident' hcolon hbody⟩

theorem message?_sound : message?.Sound (Optional Msg) := by
  intro s o t h
  unfold message? at h
  rw [check_bind_eq] at h
  split at h
  · obtain ⟨m, u, hm, h⟩ := bind_eq_ok.mp h
    obtain ⟨rfl, rfl⟩ := pure_eq_ok.mp h
    exact message_sound hm
  · obtain ⟨rfl, rfl⟩ := pure_eq_ok.mp h
    exact ⟨[], .refl _, rfl⟩

/-- The parser accepts only sentences, and reads them up to the end mark. -/
theorem protocol_sound {p : Protocol} (h : protocol s = .ok p t) : Sentence s.ahead p := by
  obtain ⟨roles, s₁, hroles, h⟩ := bind_eq_ok.mp h
  obtain ⟨decls, s₂, hdecls, h⟩ := bind_eq_ok.mp h
  obtain ⟨messages, s₃, hmessages, h⟩ := bind_eq_ok.mp h
  obtain ⟨next, s₄, hnext, h⟩ := bind_eq_ok.mp h
  cases hnext
  obtain ⟨ts, proles, hroles⟩ := rolesDecl_sound hroles
  obtain ⟨us, pdecls, hdecls⟩ := many_sound decl?_sound hdecls
  obtain ⟨vs, pmessages, hmessages⟩ := many_sound message?_sound hmessages
  split at h
  · cases h
  · obtain ⟨ending, s₅, hending, h⟩ := bind_eq_ok.mp h
    obtain ⟨rfl, rfl⟩ := pure_eq_ok.mp h
    have hnil : s₃.ahead = [] := by
      unfold consume at hending
      split at hending
      · rename_i hkind
        exact Stream.ahead_eq_nil (by simpa using hkind)
      · cases hending
    have hahead := (proles.trans (pdecls.trans pmessages)).ahead
    rw [hnil, List.append_nil] at hahead
    rw [hahead]
    exact .intro hroles hdecls hmessages

end Rule

namespace Protocol

theorem isStatement_of_ofTokens {tokens : Tokens} {p : Protocol} (h : ofTokens tokens = .ok p) :
    ∀ m ∈ p.messages, m.body.IsStatement := by
  unfold ofTokens at h
  split at h
  · rename_i hresult
    cases h
    exact (Rule.protocol_sound hresult).isStatement
  · cases h

/-- Every message of a parsed protocol carries a statement. -/
theorem isStatement_of_parse {source : String} {p : Protocol} (h : parse source = .ok p) :
    ∀ m ∈ p.messages, m.body.IsStatement := by
  unfold parse at h
  split at h
  · cases h
  · split at h
    · cases h
    · rename_i hp
      cases h
      exact isStatement_of_ofTokens hp

end Protocol

end Wiretap
