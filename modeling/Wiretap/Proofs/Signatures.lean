import Wiretap.Proofs.Places
import Wiretap.Signatures

/-! What the signature warnings say. A signature is created where a tree has an assignment of one to
a name, and it is verified where a tree has a verification with its name, however deep. The warnings
are about the places that create or verify what is nowhere verified or created: every such
verification has one, in the order of the places, and after them every such name has one, for the
first place that creates it. -/

namespace Wiretap

namespace Node

/-- A signature gets the name `t` at a place of the tree. -/
def CreatesAt (n : Node) (place : List Nat) (t : String) : Prop :=
  ∃ k m, n.at? place = some (.assign t (.sign k m))

theorem created?_eq_some_iff {n : Node} {t : String} :
    n.created? = some t ↔ ∃ k m, n = .assign t (.sign k m) := by
  unfold created?
  split
  · simp [eq_comm]
  · rename_i hother
    simpa using fun k m => hother t k m

theorem created_inOrder (n : Node) : InOrder n.CreatesAt (n.preorder.filterMap (·.created?)) := by
  refine (n.preorder_inOrder.filterMap (·.created?)).congr fun place t => ?_
  simp [created?_eq_some_iff, CreatesAt, ← exists_and_left]

end Node

namespace Protocol

variable {p : Protocol}

/-- A signature gets a name at a place of the messages: the name, with the number and the parties of
the message. -/
def CreatesAt (p : Protocol) : List Nat → String × String → Prop :=
  Below (p.messages.zipIdx 1) fun (m, index) place c =>
    m.body.CreatesAt place c.1 ∧ c.2 = m.context index

/-- A creation, and no earlier place creates a signature with the same name. -/
def FirstCreatesAt (p : Protocol) (place : List Nat) (c : String × String) : Prop :=
  p.CreatesAt place c ∧ ∀ earlier < place, ∀ d, p.CreatesAt earlier d → d.1 ≠ c.1

theorem creations_inOrder (p : Protocol) : InOrder p.CreatesAt p.creations := by
  refine InOrder.below fun (m, index) _ => ?_
  have h := m.body.created_inOrder.filterMap fun t => some (t, m.context index)
  rw [List.filterMap_eq_map'] at h
  refine h.congr fun place c => ⟨?_, fun hc => ⟨c.1, hc.1, by rw [← hc.2]⟩⟩
  rintro ⟨t, ht, heq⟩
  cases heq
  exact ⟨ht, rfl⟩

theorem created_inOrder (p : Protocol) : InOrder p.FirstCreatesAt p.created :=
  p.creations_inOrder.firsts (·.1)

end Protocol

end Wiretap
