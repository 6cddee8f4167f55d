import Wiretap.Knowledge.Exposure

/-! What statements give away, told by their shape. A statement is an expression, or an expression
with a name for it. The trees that an expression shows are itself and, as long as these are
concatenations, their operands. An observer sees the shown trees that are not ciphertexts, keeps
the ciphertexts among them for later, and learns the shown trees that are not concatenations when
the expression is found in a ciphertext. -/

namespace Wiretap

namespace Node

/-- Trees of names, concatenations and cryptographic constructors. -/
inductive IsExpr : Node → Prop
  | ident (x : String) : IsExpr (.ident x)
  | concat {l r : Node} : IsExpr l → IsExpr r → IsExpr (.concat l r)
  | enc (k : String) {m : Node} : IsExpr m → IsExpr (.enc k m)
  | mac (k : String) {m : Node} : IsExpr m → IsExpr (.mac k m)
  | hash {m : Node} : IsExpr m → IsExpr (.hash m)
  | sign (k : String) {m : Node} : IsExpr m → IsExpr (.sign k m)
  | verify (k : String) {m s : Node} : IsExpr m → IsExpr s → IsExpr (.verify k m s)

/-- Expressions, and expressions with a name for them. -/
inductive IsStatement : Node → Prop
  | expr {n : Node} : IsExpr n → IsStatement n
  | assign (t : String) {v : Node} : IsExpr v → IsStatement (.assign t v)

/-- Whether a tree is an expression, as a computation. -/
def isExpr : Node → Bool
  | .ident _ => true
  | .concat l r => l.isExpr && r.isExpr
  | .enc _ m => m.isExpr
  | .mac _ m => m.isExpr
  | .hash m => m.isExpr
  | .sign _ m => m.isExpr
  | .verify _ m s => m.isExpr && s.isExpr
  | _ => false

theorem isExpr_iff {n : Node} : n.isExpr = true ↔ n.IsExpr := by
  constructor
  · fun_induction isExpr n with
    | case1 x => exact fun _ => .ident x
    | case2 l r ihl ihr =>
      intro h
      obtain ⟨hl, hr⟩ := Bool.and_eq_true _ _ |>.mp h
      exact .concat (ihl hl) (ihr hr)
    | case3 k m ih => exact fun h => .enc k (ih h)
    | case4 k m ih => exact fun h => .mac k (ih h)
    | case5 m ih => exact fun h => .hash (ih h)
    | case6 k m ih => exact fun h => .sign k (ih h)
    | case7 k m s ihm ihs =>
      intro h
      obtain ⟨hm, hs⟩ := Bool.and_eq_true _ _ |>.mp h
      exact .verify k (ihm hm) (ihs hs)
    | case8 => exact fun h => nomatch h
  · intro h
    induction h with
    | ident => rfl
    | concat _ _ ihl ihr => simp [isExpr, ihl, ihr]
    | enc _ _ ih => exact ih
    | mac _ _ ih => exact ih
    | hash _ ih => exact ih
    | sign _ _ ih => exact ih
    | verify _ _ _ ihm ihs => simp [isExpr, ihm, ihs]

instance (n : Node) : Decidable n.IsExpr :=
  decidable_of_iff _ isExpr_iff

/-- The expression of a statement. -/
def value : Node → Node
  | .assign _ v => v
  | n => n

theorem IsExpr.value {n : Node} (h : n.IsExpr) : n.value = n := by
  cases h <;> rfl

theorem isStatement_iff {n : Node} : n.IsStatement ↔ n.value.IsExpr := by
  constructor
  · intro h
    cases h with
    | expr h => exact h.value.symm ▸ h
    | assign _ h => exact h
  · intro h
    unfold Node.value at h
    split at h
    · exact .assign _ h
    · exact .expr h

instance (n : Node) : Decidable n.IsStatement :=
  decidable_of_iff _ isStatement_iff.symm

/-- `n.Shows x`: `x` is `n`, or an operand of the concatenations at the top of `n`. -/
inductive Shows : Node → Node → Prop
  | self (n : Node) : Shows n n
  | left {l r x : Node} : Shows l x → Shows (.concat l r) x
  | right {l r x : Node} : Shows r x → Shows (.concat l r) x

/-- Whether a tree is a concatenation. -/
def isConcat : Node → Bool
  | .concat _ _ => true
  | _ => false

theorem isConcat_eq_false {n : Node} (h : ∀ l r, n = .concat l r → False) : n.isConcat = false := by
  cases n with
  | concat l r => exact (h l r rfl).elim
  | _ => rfl

/-- Whether a tree is a ciphertext. -/
def isEnc : Node → Bool
  | .enc _ _ => true
  | _ => false

/-- `n.Leaf x`: `x` is a leaf of the concatenations at the top of `n`. -/
def Leaf (n x : Node) : Prop :=
  n.Shows x ∧ x.isConcat = false

theorem shows_concat {l r x : Node} :
    (concat l r).Shows x ↔ x = concat l r ∨ l.Shows x ∨ r.Shows x := by
  constructor
  · intro h
    cases h with
    | self => exact .inl rfl
    | left h => exact .inr (.inl h)
    | right h => exact .inr (.inr h)
  · rintro (rfl | h | h)
    · exact .self _
    · exact .left h
    · exact .right h

theorem shows_of_not_concat {n x : Node} (hn : n.isConcat = false) : n.Shows x ↔ x = n := by
  constructor
  · intro h
    cases h with
    | self => rfl
    | left => cases hn
    | right => cases hn
  · rintro rfl
    exact .self _

theorem Shows.isExpr {n x : Node} (h : n.Shows x) (hn : n.IsExpr) : x.IsExpr := by
  induction h with
  | self => exact hn
  | left _ ih =>
    cases hn with
    | concat hl _ => exact ih hl
  | right _ ih =>
    cases hn with
    | concat _ hr => exact ih hr

/-- The model's list of leaves has exactly the leaves. -/
theorem mem_spine {n x : Node} : x ∈ n.spine ↔ n.Leaf x := by
  fun_induction spine n with
  | case1 l r ihl ihr =>
    rw [List.mem_append, ihl, ihr]
    constructor
    · rintro (⟨h, hx⟩ | ⟨h, hx⟩)
      · exact ⟨.left h, hx⟩
      · exact ⟨.right h, hx⟩
    · rintro ⟨h, hx⟩
      rcases shows_concat.mp h with rfl | h | h
      · cases hx
      · exact .inl ⟨h, hx⟩
      · exact .inr ⟨h, hx⟩
  | case2 n hn =>
    have hc := isConcat_eq_false hn
    rw [List.mem_singleton, Leaf, shows_of_not_concat hc]
    exact ⟨fun h => ⟨h, h ▸ hc⟩, fun h => h.1⟩

theorem IsExpr.isLabelled {n : Node} (h : n.IsExpr) : n.isLabelled = true := by
  induction h with
  | ident => rfl
  | concat _ _ ihl ihr => simp [Node.isLabelled, ihl, ihr]
  | enc _ _ ih => exact ih
  | mac _ _ ih => exact ih
  | hash _ ih => exact ih
  | sign _ _ ih => exact ih
  | verify _ _ _ ihm ihs => simp [Node.isLabelled, ihm, ihs]

theorem IsExpr.isProtocolFree {n : Node} (h : n.IsExpr) : n.isProtocolFree = true := by
  induction h with
  | ident => rfl
  | concat _ _ ihl ihr => simp [Node.isProtocolFree, ihl, ihr]
  | enc _ _ ih => exact ih
  | mac _ _ ih => exact ih
  | hash _ ih => exact ih
  | sign _ _ ih => exact ih
  | verify _ _ _ ihm ihs => simp [Node.isProtocolFree, ihm, ihs]

theorem IsExpr.label {n : Node} (h : n.IsExpr) : n.label = .ok n.text := by
  simp [Node.label, h.isLabelled]

/-! ### The wire -/

/-- What `w` has to hold for an observer of `n`: the texts of the shown trees that are no
ciphertexts, and the shown ciphertexts. -/
structure SeenAs (n : Node) (w : Wire) : Prop where
  visible : ∀ t, t ∈ w.visible ↔ ∃ x, n.Shows x ∧ x.isEnc = false ∧ x.text = t
  ciphertexts : ∀ c : Ciphertext, c ∈ w.ciphertexts ↔ n.Shows (.enc c.key c.plaintext)

theorem seenAs_whole {n : Node} (hc : n.isConcat = false) (he : n.isEnc = false) :
    n.SeenAs ⟨[n.text], []⟩ where
  visible t := by
    simp only [List.mem_singleton, shows_of_not_concat hc, exists_eq_left, he, true_and]
    exact eq_comm
  ciphertexts c := by
    rw [shows_of_not_concat hc]
    refine ⟨fun h => absurd h List.not_mem_nil, ?_⟩
    rintro rfl
    cases he

theorem seenAs_enc (k : String) (m : Node) : (enc k m).SeenAs ⟨[], [⟨k, m⟩]⟩ where
  visible t := by
    refine ⟨fun h => absurd h List.not_mem_nil, ?_⟩
    rintro ⟨x, hx, he, -⟩
    obtain rfl := (shows_of_not_concat rfl).mp hx
    cases he
  ciphertexts c := by
    rw [List.mem_singleton, shows_of_not_concat rfl, enc.injEq]
    exact Ciphertext.mk.injEq .. ▸ Iff.rfl

theorem SeenAs.concat {l r : Node} {v w : Wire} (hl : l.SeenAs v) (hr : r.SeenAs w) :
    (concat l r).SeenAs
      ⟨(concat l r).text :: (v.visible ++ w.visible), v.ciphertexts ++ w.ciphertexts⟩ where
  visible t := by
    simp only [List.mem_cons, List.mem_append, hl.visible, hr.visible, shows_concat, or_and_right,
      exists_or, exists_eq_left, isEnc, true_and]
    rw [eq_comm]
  ciphertexts c := by
    simp [hl.ciphertexts, hr.ciphertexts, shows_concat]

/-- An expression is seen on the wire as its shape says. -/
theorem IsExpr.wire {n : Node} (h : n.IsExpr) : ∃ w, n.wire = .ok w ∧ n.SeenAs w := by
  induction h with
  | ident x => exact ⟨_, rfl, seenAs_whole rfl rfl⟩
  | @concat l r hl hr ihl ihr =>
    obtain ⟨v, hv, sl⟩ := ihl
    obtain ⟨w, hw, sr⟩ := ihr
    refine ⟨_, ?_, sl.concat sr⟩
    simp only [Node.wire, (hl.concat hr).label, hv, hw]
    rfl
  | @enc k m hm _ =>
    refine ⟨_, ?_, seenAs_enc k m⟩
    simp only [Node.wire, hm.isProtocolFree, if_true]
  | mac k hm _ =>
    refine ⟨_, ?_, seenAs_whole rfl rfl⟩
    simp only [Node.wire, (hm.mac k).label]
    rfl
  | hash hm _ =>
    refine ⟨_, ?_, seenAs_whole rfl rfl⟩
    simp only [Node.wire, hm.hash.label]
    rfl
  | sign k hm _ =>
    refine ⟨_, ?_, seenAs_whole rfl rfl⟩
    simp only [Node.wire, (hm.sign k).label]
    rfl
  | verify k hm hs _ _ =>
    refine ⟨_, ?_, seenAs_whole rfl rfl⟩
    simp only [Node.wire, (hm.verify k hs).label]
    rfl

/-! ### The author -/

/-- The author of an expression has to hold the names that stand anywhere in it. -/
theorem IsExpr.author {n : Node} (h : n.IsExpr) :
    ∃ ts, n.author = .ok ts ∧
      ∀ depth x, x ∈ ts ↔ .ident x ∈ (n.outline depth).map (·.2) := by
  induction h with
  | ident x => exact ⟨[x], rfl, fun _ y => by simp [outline]⟩
  | concat hl hr ihl ihr =>
    obtain ⟨ls, el, ml⟩ := ihl
    obtain ⟨rs, er, mr⟩ := ihr
    refine ⟨ls ++ rs, by simp only [Node.author, el, er]; rfl, fun depth y => ?_⟩
    rw [List.mem_append, ml (depth + 1), mr (depth + 1)]
    simp [outline]
  | enc k hm ih =>
    obtain ⟨ts, e, mem⟩ := ih
    refine ⟨k :: ts, by simp only [Node.author, e]; rfl, fun depth y => ?_⟩
    rw [List.mem_cons, mem (depth + 1)]
    simp [outline]
  | mac k hm ih =>
    obtain ⟨ts, e, mem⟩ := ih
    refine ⟨k :: ts, by simp only [Node.author, e]; rfl, fun depth y => ?_⟩
    rw [List.mem_cons, mem (depth + 1)]
    simp [outline]
  | hash hm ih =>
    obtain ⟨ts, e, mem⟩ := ih
    refine ⟨ts, e, fun depth y => ?_⟩
    rw [mem (depth + 1)]
    simp [outline]
  | sign k hm ih =>
    obtain ⟨ts, e, mem⟩ := ih
    refine ⟨k :: ts, by simp only [Node.author, e]; rfl, fun depth y => ?_⟩
    rw [List.mem_cons, mem (depth + 1)]
    simp [outline]
  | verify k hm hs ihm ihs =>
    obtain ⟨ms, em, mm⟩ := ihm
    obtain ⟨ss, es, mems⟩ := ihs
    refine ⟨k :: (ms ++ ss), by simp only [Node.author, em, es]; rfl, fun depth y => ?_⟩
    rw [List.mem_cons, List.mem_append, mm (depth + 1), mems (depth + 1)]
    simp [outline]

/-! ### The plaintext -/

theorem Leaf.content {n x : Node} (h : n.Leaf x) (hn : n.IsExpr) : x.content = .ok x.text := by
  obtain ⟨hs, hc⟩ := h
  have hx := hs.isExpr hn
  have hl := hx.label
  cases hx with
  | concat => cases hc
  | ident => rfl
  | enc => exact hl
  | mac => exact hl
  | hash => exact hl
  | sign => exact hl
  | verify => exact hl

end Node

/-- Leaves with a content are all learned, and something is new unless all were known. -/
theorem learnLeaves_spec {xs : List Node} (h : ∀ x ∈ xs, x.content = .ok x.text) (known : Terms) :
    (learnLeaves known xs).fault = none ∧
      (∀ t, t ∈ (learnLeaves known xs).known ↔ t ∈ known ∨ ∃ x ∈ xs, x.text = t) ∧
      ((learnLeaves known xs).isNew = false ↔ ∀ x ∈ xs, x.text ∈ known) := by
  induction xs generalizing known with
  | nil => simp [learnLeaves]
  | cons x xs ih =>
    have hx := h x List.mem_cons_self
    have hxs : ∀ y ∈ xs, y.content = .ok y.text := fun y hy => h y (List.mem_cons_of_mem _ hy)
    simp only [learnLeaves, hx]
    split
    · rename_i hmem
      obtain ⟨hf, hk, hn⟩ := ih hxs known
      refine ⟨hf, fun t => ?_, ?_⟩
      · simp only [hk, List.mem_cons, exists_eq_or_imp]
        grind
      · rw [hn, List.forall_mem_cons]
        exact ⟨fun h => ⟨hmem, h⟩, fun h => h.2⟩
    · rename_i hmem
      obtain ⟨hf, hk, -⟩ := ih hxs (known.insert x.text)
      refine ⟨hf, fun t => ?_, ?_⟩
      · simp only [hk, List.mem_cons, exists_eq_or_imp, Terms.mem_insert]
        grind
      · simp only [Bool.true_eq_false, false_iff]
        exact fun hall => hmem (hall x List.mem_cons_self)

/-- An expression found in a ciphertext is learned leaf by leaf. -/
theorem Node.IsExpr.unwrap {n : Node} (h : n.IsExpr) (known : Terms) :
    (n.unwrap known).fault = none ∧
      (∀ t, t ∈ (n.unwrap known).known ↔ t ∈ known ∨ ∃ x, n.Leaf x ∧ x.text = t) ∧
      ((n.unwrap known).isNew = false ↔ ∀ x, n.Leaf x → x.text ∈ known) := by
  have spec := learnLeaves_spec (fun x hx => (mem_spine.mp hx).content h) known
  simpa only [mem_spine, Node.unwrap] using spec

/-! ### Messages -/

namespace Node

/-- The terms that a statement puts on the wire in the clear: the name that it gives, and the
texts of the trees that its expression shows, ciphertexts apart. -/
def Reveals (n : Node) (t : String) : Prop :=
  (∃ v, n = .assign t v) ∨ ∃ x, n.value.Shows x ∧ x.isEnc = false ∧ x.text = t

/-- The names that stand anywhere in a tree. -/
def Mentions (n : Node) (x : String) : Prop :=
  .ident x ∈ n.preorder

theorem IsExpr.not_assign {t : String} {v : Node} : ¬(assign t v).IsExpr :=
  fun h => nomatch h

end Node

/-- A message with a statement for its body gives away what the statement reveals, the ciphertexts
that its expression shows and, from the sender, the names in it. -/
theorem Message.exposure_spec {m : Message} (h : m.body.IsStatement) :
    ∃ e, m.exposure = .ok e ∧ (∀ t, t ∈ e.visible ↔ m.body.Reveals t) ∧
      (∀ c : Ciphertext, c ∈ e.ciphertexts ↔ m.body.value.Shows (.enc c.key c.plaintext)) ∧
      ∀ x, x ∈ e.built ↔ m.body.Mentions x := by
  obtain ⟨sender, receiver, body⟩ := m
  cases h with
  | expr h =>
    obtain ⟨w, hw, seen⟩ := h.wire
    obtain ⟨ts, hts, mem⟩ := h.author
    refine ⟨⟨w, ts⟩, by simp only [Message.exposure, hw, hts]; rfl, fun t => ?_, fun c => ?_,
      mem 0⟩
    · have hne : ¬∃ v, body = .assign t v := by
        rintro ⟨v, rfl⟩
        exact Node.IsExpr.not_assign h
      simp only [Node.Reveals, hne, false_or, h.value, seen.visible]
    · rw [h.value, seen.ciphertexts]
  | @assign target v h =>
    obtain ⟨w, hw, seen⟩ := h.wire
    obtain ⟨ts, hts, mem⟩ := h.author
    refine ⟨⟨⟨target :: w.visible, w.ciphertexts⟩, target :: ts⟩,
      by simp only [Message.exposure, Node.wire, Node.author, hw, hts]; rfl, fun t => ?_,
      seen.ciphertexts, fun x => ?_⟩
    · simp only [Node.Reveals, Node.value, List.mem_cons, seen.visible, Node.assign.injEq,
        exists_and_left, exists_eq', and_true]
      rw [eq_comm]
    · rw [List.mem_cons, mem 1]
      simp [Node.Mentions, Node.preorder, Node.outline]

end Wiretap
