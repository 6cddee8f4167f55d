import Mathlib.Computability.Language
import Mathlib.Order.FixedPoints
import Mathlib.Order.CompletePartialOrder
import Wiretap.Source.Token

/-! The productions of the language as sets of lists of tokens, with any expression for the key of
`Enc`. Expressions nest, so they are the least solution of their production. A list of tokens is
viable if some sentence starts with it. -/

namespace Wiretap.Productions

open Computability

/-- A token of kind `k`. -/
def token (k : Kind) : Language Token :=
  {w | ∃ t : Token, t.kind = k ∧ w = [t]}

def names : Language Token :=
  token .identifier * (token .comma * token .identifier)∗

def rolesDecl : Language Token :=
  token .rolesWord * token .colon * names

def decl : Language Token :=
  (token .sharedWord + token .privateWord) * token .keyWord * token .identifier * token .colon *
      names +
    token .publicWord * token .keyWord * token .identifier * token .colon * token .identifier +
    token .nonceWord * token .identifier * token .colon * token .identifier

/-- Operands with expressions from `E` inside them. -/
def operandOf (E : Language Token) : Language Token :=
  token .encWord * token .leftParen * E * token .comma * E * token .rightParen +
    token .macWord * token .leftParen * token .identifier * token .comma * E * token .rightParen +
    token .signWord * token .leftParen * token .identifier * token .comma * E * token .rightParen +
    token .vrfyWord * token .leftParen * token .identifier * token .comma * E * token .comma * E *
      token .rightParen +
    token .hashWord * token .leftParen * E * token .rightParen +
    token .identifier

def exprOf (E : Language Token) : Language Token :=
  operandOf E * (token .join * operandOf E)∗

theorem exprOf_mono : Monotone exprOf := by
  intro E E' h
  unfold exprOf operandOf
  gcongr

def expr : Language Token :=
  OrderHom.lfp ⟨exprOf, exprOf_mono⟩

def operand : Language Token :=
  operandOf expr

theorem expr_eq : expr = operand * (token .join * operand)∗ :=
  (OrderHom.map_lfp ⟨exprOf, exprOf_mono⟩).symm

def stmt : Language Token :=
  token .identifier * token .equals * expr + expr

def message : Language Token :=
  token .identifier * token .arrow * token .identifier * token .colon * stmt

def sentence : Language Token :=
  rolesDecl * decl∗ * message∗ * token .ending

def Viable (ts : List Token) : Prop :=
  ∃ us, ts ++ us ∈ sentence

/-! ### First tokens -/

section

variable {L M : Language Token} {k : Kind} {P N : Kind → Prop} {x : Token} {w : List Token}

@[simp] theorem cons_mem_token : x :: w ∈ token k ↔ x.kind = k ∧ w = [] := by
  constructor
  · rintro ⟨t, ht, heq⟩
    cases heq
    exact ⟨ht, rfl⟩
  · rintro ⟨hx, rfl⟩
    exact ⟨x, hx, rfl⟩

@[simp] theorem cons_mem_token_mul : x :: w ∈ token k * L ↔ x.kind = k ∧ w ∈ L := by
  rw [Language.mem_mul]
  constructor
  · rintro ⟨_, ⟨t, ht, rfl⟩, v, hv, heq⟩
    cases heq
    exact ⟨ht, hv⟩
  · rintro ⟨hx, hw⟩
    exact ⟨[x], ⟨x, hx, rfl⟩, w, hw, rfl⟩

/-- A repetition is over, or it goes on with one of its phrases. -/
theorem mem_kstar_mul : w ∈ L∗ * M ↔ w ∈ M ∨ w ∈ L * (L∗ * M) := by
  have hunfold : L∗ * M = M + L * (L∗ * M) := by
    calc
      L∗ * M = (1 + L * L∗) * M := by rw [Language.one_add_self_mul_kstar_eq_kstar]
      _ = M + L * (L∗ * M) := by rw [add_mul, one_mul, mul_assoc]
  exact (Set.ext_iff.mp hunfold w).trans (Language.mem_add M _ w)

/-- Every word starts with a token of a kind in `P`. -/
def Starts (L : Language Token) (P : Kind → Prop) : Prop :=
  ∀ w ∈ L, ∃ x v, w = x :: v ∧ P x.kind

/-- No word starts with a token of a kind in `N`. -/
def Avoids (L : Language Token) (N : Kind → Prop) : Prop :=
  ∀ x w, x :: w ∈ L → ¬N x.kind

theorem avoids_false (L : Language Token) : Avoids L fun _ => False :=
  fun _ _ _ => id

theorem starts_token (k : Kind) : Starts (token k) (· = k) := by
  rintro _ ⟨t, ht, rfl⟩
  exact ⟨t, [], rfl, ht⟩

theorem Starts.mul (h : Starts L P) (M : Language Token) : Starts (L * M) P := by
  rintro _ ⟨u, hu, v, -, rfl⟩
  obtain ⟨x, u, rfl, hx⟩ := h u hu
  exact ⟨x, u ++ v, rfl, hx⟩

theorem starts_token_mul (k : Kind) (L : Language Token) : Starts (token k * L) (· = k) :=
  (starts_token k).mul L

theorem Starts.mono (h : Starts L P) (hP : ∀ k, P k → N k) : Starts L N := by
  intro w hw
  obtain ⟨x, v, hxv, hx⟩ := h w hw
  exact ⟨x, v, hxv, hP _ hx⟩

theorem Starts.add (hL : Starts L P) (hM : Starts M P) : Starts (L + M) P := by
  rintro w (hw | hw)
  · exact hL w hw
  · exact hM w hw

theorem Starts.avoids (h : Starts L P) (hP : ∀ k, P k → ¬N k) : Avoids L N := by
  intro x w hw
  obtain ⟨_, _, heq, hx⟩ := h _ hw
  cases heq
  exact hP _ hx

theorem Avoids.kstar_mul (h : Starts L P) (hP : ∀ k, P k → ¬N k) (hM : Avoids M N) :
    Avoids (L∗ * M) N := by
  intro x w hw
  rcases mem_kstar_mul.mp hw with hw | hw
  · exact hM x w hw
  · exact (h.mul _).avoids hP x w hw

def Occurs (L : Language Token) : Prop :=
  ∃ w, w ∈ L

@[simp] theorem occurs_token (k : Kind) : Occurs (token k) :=
  ⟨[⟨k, "", ⟨1, 1⟩⟩], _, rfl, rfl⟩

@[simp] theorem occurs_kstar (L : Language Token) : Occurs L∗ :=
  ⟨[], Language.nil_mem_kstar L⟩

@[simp] theorem occurs_mul : Occurs (L * M) ↔ Occurs L ∧ Occurs M := by
  constructor
  · rintro ⟨_, u, hu, v, hv, rfl⟩
    exact ⟨⟨u, hu⟩, ⟨v, hv⟩⟩
  · rintro ⟨⟨u, hu⟩, ⟨v, hv⟩⟩
    exact ⟨u ++ v, Language.append_mem_mul hu hv⟩

theorem Occurs.add_right (h : Occurs M) (L : Language Token) : Occurs (L + M) := by
  obtain ⟨w, hw⟩ := h
  exact ⟨w, .inr hw⟩

end

@[simp] theorem occurs_names : Occurs names := by
  simp [names]

@[simp] theorem occurs_operand : Occurs operand :=
  (occurs_token .identifier).add_right _

@[simp] theorem occurs_expr : Occurs expr := by
  simp [expr_eq]

@[simp] theorem occurs_stmt : Occurs stmt :=
  occurs_expr.add_right _

@[simp] theorem occurs_sentence : Occurs sentence := by
  simp [sentence, rolesDecl]

/-! ### What follows a first token -/

/-- The owners of a key: any number of them, or exactly one. -/
def owners : Bool → Language Token
  | true => names
  | false => token .identifier

@[simp] theorem occurs_owners (many : Bool) : Occurs (owners many) := by
  cases many with
  | true => exact occurs_names
  | false => exact occurs_token _

def keyTail (many : Bool) : Language Token :=
  token .keyWord * (token .identifier * (token .colon * owners many))

/-- How declarations go on after a token of each kind. -/
def declTail : Kind → Language Token
  | .sharedWord | .privateWord => keyTail true
  | .publicWord => keyTail false
  | .nonceWord => token .identifier * (token .colon * token .identifier)
  | _ => 0

/-- How operands go on after a token of each kind. -/
def operandTail : Kind → Language Token
  | .encWord => token .leftParen * (expr * (token .comma * (expr * token .rightParen)))
  | .macWord | .signWord =>
    token .leftParen * (token .identifier * (token .comma * (expr * token .rightParen)))
  | .vrfyWord =>
    token .leftParen * (token .identifier * (token .comma *
      (expr * (token .comma * (expr * token .rightParen)))))
  | .hashWord => token .leftParen * (expr * token .rightParen)
  | .identifier => 1
  | _ => 0

section

variable {F : Language Token} {x : Token} {w : List Token}

theorem cons_mem_decl_mul : x :: w ∈ decl * F ↔ w ∈ declTail x.kind * F := by
  simp only [decl, add_mul, mul_assoc, Language.mem_add, cons_mem_token_mul]
  cases x.kind <;> simp [declTail, keyTail, owners, mul_assoc]

theorem cons_mem_operand_mul : x :: w ∈ operand * F ↔ w ∈ operandTail x.kind * F := by
  simp only [operand, operandOf, add_mul, mul_assoc, Language.mem_add, cons_mem_token_mul]
  cases x.kind <;> simp [operandTail, mul_assoc]

/-- A statement that starts with an identifier has a name, or this identifier is its first
operand. -/
theorem cons_mem_stmt_mul (hx : x.kind = .identifier) : x :: w ∈ stmt * F ↔
    w ∈ token .equals * (expr * F) ∨ w ∈ (token .join * operand)∗ * F := by
  rw [stmt, add_mul, Language.mem_add, expr_eq]
  simp [mul_assoc, cons_mem_operand_mul, hx, operandTail]

end

theorem starts_message : Starts message (· = .identifier) := by
  simp only [message, mul_assoc]
  exact starts_token_mul _ _

end Wiretap.Productions
