import Wiretap.Knowledge.State
import Wiretap.Proofs.Places
import Wiretap.Proofs.Success

/-! A message is observed as a whole or not at all. What a body gives away is collected in two walks
over its tree, one for the wire and one for its author, and labels are made on the way. The first
walk stops at ciphertexts, a label fails only at a blank, and only the second walk comes to every
node; together they refuse exactly the trees in which a node without a meaning can be reached. A
refused message stops the observation in the state that the messages before it led to. -/

namespace Wiretap

namespace Node

/-- Names, concatenations, constructors and assignments. -/
def hasMeaning : Node → Bool
  | .ident _ | .concat .. | .enc .. | .mac .. | .hash .. | .sign .. | .verify .. | .assign .. => true
  | _ => false

/-- `n.Reaches x`: `x` is `n`, or stands below it with nothing but nodes that have a meaning on the
way. -/
inductive Reaches : Node → Node → Prop
  | self (n : Node) : Reaches n n
  | child {n child x : Node} :
      n.hasMeaning = true → child ∈ n.children → Reaches child x → Reaches n x

/-- Whatever is reached has a meaning. -/
def Meaningful (n : Node) : Prop :=
  ∀ x, n.Reaches x → x.hasMeaning = true

theorem meaningful_iff {n : Node} :
    n.Meaningful ↔ n.hasMeaning = true ∧ ∀ child ∈ n.children, child.Meaningful := by
  constructor
  · intro h
    have hn := h n (.self n)
    exact ⟨hn, fun child hchild x hx => h x (.child hn hchild hx)⟩
  · rintro ⟨hn, hchildren⟩ x hx
    cases hx with
    | self => exact hn
    | child _ hchild hx => exact hchildren _ hchild x hx

theorem not_meaningful_iff {n : Node} :
    ¬n.Meaningful ↔ ∃ x, n.Reaches x ∧ x.hasMeaning = false := by
  simp [Meaningful]

theorem meaningful_ident (x : String) : (ident x).Meaningful :=
  meaningful_iff.mpr ⟨rfl, by simp [children]⟩

@[elab_as_elim]
theorem Meaningful.of_children {motive : Node → Prop}
    (step : ∀ n, n.Meaningful → n.hasMeaning = true → (∀ child ∈ n.children, motive child) →
      motive n)
    {n : Node} (h : n.Meaningful) : motive n := by
  induction n using Node.of_children with
  | h n ih =>
    obtain ⟨hn, hchildren⟩ := meaningful_iff.mp h
    exact step n h hn fun child hchild => ih child hchild (hchildren child hchild)

theorem Meaningful.isLabelled {n : Node} (h : n.Meaningful) : n.isLabelled = true := by
  refine Meaningful.of_children (fun n _ hn hchildren => ?_) h
  cases n <;> simp_all [hasMeaning, children, Node.isLabelled]

theorem Meaningful.isProtocolFree {n : Node} (h : n.Meaningful) : n.isProtocolFree = true := by
  refine Meaningful.of_children (fun n _ hn hchildren => ?_) h
  cases n <;> simp_all [hasMeaning, children, Node.isProtocolFree]

theorem Meaningful.label {n : Node} (h : n.Meaningful) : n.label = .ok n.text := by
  simp [Node.label, h.isLabelled]

/-! ### The two walks -/

/-- The walk for the author comes to every node that can be reached. -/
theorem exists_author_iff {n : Node} : (∃ ts, n.author = .ok ts) ↔ n.Meaningful := by
  induction n using Node.of_children with
  | h n ih =>
    rw [meaningful_iff]
    cases n <;> simp_all [hasMeaning, children, author, bind_eq_ok_iff, meaningful_ident, pure,
      Except.pure]

theorem Meaningful.exists_wire {n : Node} (h : n.Meaningful) : ∃ w, n.wire = .ok w := by
  refine Meaningful.of_children (fun n h hn hchildren => ?_) h
  -- The walk does not enter a ciphertext, but refuses one around a protocol.
  have hlabel := h.label
  have hfree := h.isProtocolFree
  cases n <;> simp_all [hasMeaning, children, wire, Node.isProtocolFree, bind_eq_ok_iff, pure,
    Except.pure]

end Node

/-- A message is refused exactly if its body is, and which of the walks refuses it is no matter: the
wire has no complaint about a body that the author can write. -/
theorem Message.exists_exposure_iff {m : Message} :
    (∃ e, m.exposure = .ok e) ↔ m.body.Meaningful := by
  simp only [exposure, bind_eq_ok_iff]
  constructor
  · rintro ⟨_, w, -, ts, hts, -⟩
    exact Node.exists_author_iff.mp ⟨ts, hts⟩
  · intro h
    obtain ⟨w, hw⟩ := h.exists_wire
    obtain ⟨ts, hts⟩ := Node.exists_author_iff.mpr h
    exact ⟨_, w, hw, ts, hts, rfl⟩

/-! ### Runs over messages -/

namespace Knowledge

theorem observeFrom_append {index : Nat} {k : Knowledge} {front : List Message}
    (h : (k.observeFrom index front).fault = none) (rest : List Message) :
    k.observeFrom index (front ++ rest) =
      { (k.observeFrom index front).state.observeFrom (index + front.length) rest with
        events := (k.observeFrom index front).events ++
          ((k.observeFrom index front).state.observeFrom (index + front.length) rest).events } := by
  induction front generalizing index k with
  | nil => rfl
  | cons m front ih =>
    unfold observeFrom at h
    rw [List.cons_append]
    simp only [observeFrom]
    cases hm : m.exposure with
    | error f =>
      rw [hm] at h
      cases h
    | ok e =>
      rw [hm] at h
      dsimp only at h ⊢
      rw [ih h, List.length_cons, Nat.add_right_comm, Nat.add_assoc, List.append_assoc]

theorem fault_observeFrom (index : Nat) (k : Knowledge) (messages : List Message) :
    (k.observeFrom index messages).fault = none ↔ ∀ m ∈ messages, m.body.Meaningful := by
  induction messages generalizing index k with
  | nil => simp [observeFrom]
  | cons m messages ih =>
    rw [List.forall_mem_cons, ← Message.exists_exposure_iff]
    unfold observeFrom
    cases hm : m.exposure with
    | error f => simp
    | ok e => simp [ih]

/-- The observation of messages stops with a fault exactly if a node without a meaning can be reached
in one of them. It then leaves what the observation of the messages before the first such message
leaves, and nothing of that message. -/
theorem observeAll_atomic (k : Knowledge) (p : Protocol) :
    ((k.observeAll p).fault ≠ none ↔
      ∃ m ∈ p.messages, ∃ x, m.body.Reaches x ∧ x.hasMeaning = false) ∧
    ∀ front m rest, p.messages = front ++ m :: rest →
      (∀ m' ∈ front, ∀ x, m'.body.Reaches x → x.hasMeaning = true) →
      (∃ x, m.body.Reaches x ∧ x.hasMeaning = false) →
      (k.observeAll { p with messages := front }).fault = none ∧
        ∃ f, k.observeAll p = { k.observeAll { p with messages := front } with fault := some f } := by
  refine ⟨?_, fun front m rest hmessages hfront hm => ?_⟩
  · rw [observeAll, Ne, fault_observeFrom]
    simp [Node.not_meaningful_iff]
  · have hdone : (k.observeFrom 1 front).fault = none := (fault_observeFrom ..).mpr hfront
    obtain ⟨f, hf⟩ : ∃ f, m.exposure = .error f := by
      cases he : m.exposure with
      | error f => exact ⟨f, rfl⟩
      | ok e => exact absurd (Message.exists_exposure_iff.mp ⟨e, he⟩) (Node.not_meaningful_iff.mpr hm)
    refine ⟨hdone, f, ?_⟩
    unfold observeAll
    rw [hmessages, observeFrom_append hdone]
    simp [observeFrom, hf]

def soundMessage : Message :=
  ⟨"A", "B", .concat (.ident "n") (.enc "k" (.ident "m"))⟩

/-- A declaration of roles inside a message authentication code. It has a label, so the wire shows
all of this body, and only its author stumbles over the declaration. -/
def strayMessage : Message :=
  ⟨"B", "A", .concat (.ident "x") (.mac "k" (.roles ["A"]))⟩

def strayProtocol : Protocol where
  roles := ["A", "B"]
  messages := [soundMessage, strayMessage, ⟨"A", "B", .ident "y"⟩]

theorem observeAll_atomic_stray :
    (∀ m ∈ [soundMessage], ∀ x, m.body.Reaches x → x.hasMeaning = true) ∧
    (∃ x, strayMessage.body.Reaches x ∧ x.hasMeaning = false) ∧
    (∃ w, strayMessage.body.wire = .ok w ∧ "x" ∈ w.visible) ∧
    ((seed strayProtocol).observeAll strayProtocol).fault ≠ none ∧
    (((seed strayProtocol).observeAll strayProtocol).state.snapshot.map fun entry =>
      (entry.1, entry.2.toList)) =
        [("A", ["(n || Enc(k, m))", "k", "m", "n"]), ("B", ["(n || Enc(k, m))", "n"]),
         ("Adversary", ["(n || Enc(k, m))", "n"])] := by
  have hsound : ∀ m ∈ [soundMessage], ∀ x, m.body.Reaches x → x.hasMeaning = true :=
    List.forall_mem_singleton.mpr (Message.exists_exposure_iff.mp ⟨_, rfl⟩)
  have hstray : ∃ x, strayMessage.body.Reaches x ∧ x.hasMeaning = false :=
    ⟨.roles ["A"], .child rfl (.tail _ (.head _)) (.child rfl (.tail _ (.head _)) (.self _)), rfl⟩
  obtain ⟨hfault, hfirst⟩ := observeAll_atomic (seed strayProtocol) strayProtocol
  obtain ⟨-, f, hstops⟩ := hfirst [soundMessage] strayMessage _ rfl hsound hstray
  refine ⟨hsound, hstray, ⟨_, rfl, by decide⟩, hfault.mpr ⟨strayMessage, by decide, hstray⟩, ?_⟩
  rw [hstops]
  dsimp only
  decide

end Knowledge

end Wiretap
