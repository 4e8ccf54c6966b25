import Lity.Instruction

/-!
**Expression trees, patterns, and their interpretations.**

The optimizer's expressions and the rule list's patterns have the same shape: constants
(`PUSH`), instructions applied to operands, and leaves.  The leaves of an expression are opaque
values — stack slots, results of instructions the catalog does not know — and the leaves of a
pattern are the placeholders `A`, `B`, `C` (constants only) and `X`, `Y` (anything).  Both are
`Lity.Tree`, over a different type of leaves.

Everything the development computes *from* a tree is a bottom-up interpretation
(`Lity.Tree.interpret`): its value on the machine, its value under overflow-checked arithmetic,
its size and the termination weights.  Instantiating a pattern is `Lity.Tree.bind`, and
`Lity.Tree.interpret_bind` says once for all of them that interpreting an instance is
interpreting the pattern with the placeholders valued by their instances.

Main definitions:

* `Lity.Tree`, `Lity.Expr`, `Lity.Placeholder`, `Lity.Pattern`;
* `Lity.Interp`, `Lity.Tree.interpret`, `Lity.Tree.bind`, `Lity.Tree.leaves`;
* `Lity.Env`, `Lity.eval` — the machine environment (opaque values and the 160-bit values of
  the address-producing opcodes) and the reference value of an expression.

Main results:

* `Lity.Tree.interpret_bind`, `Lity.Tree.bind_bind`, `Lity.Tree.bind_congr`,
  `Lity.Tree.leaves_bind`.
-/

set_option autoImplicit false

namespace Lity

/-- A tree of instructions over leaves of type `α`: an expression when the leaves are opaque
values, a pattern when they are placeholders.  The operand count is fixed by the instruction. -/
inductive Tree (α : Type) where
  | leaf (a : α)
  | push (w : Word)
  | op0 (i : Instruction 0)
  | op1 (i : Instruction 1) (a : Tree α)
  | op2 (i : Instruction 2) (a b : Tree α)
  | op3 (i : Instruction 3) (a b c : Tree α)
  deriving DecidableEq, Repr

/-- An expression: opaque values are numbered leaves. -/
abbrev Expr := Tree ℕ

/-- The match placeholders: `A`, `B` and `C` stand for constants, `X` and `Y` for arbitrary
expressions. -/
inductive Placeholder where
  | A | B | C | X | Y
  deriving DecidableEq, Repr

/-- `A`, `B` and `C` are `Pattern(Push)`: they only match constants. -/
def Placeholder.isConstant : Placeholder → Bool
  | .A | .B | .C => true
  | .X | .Y => false

/-- A pattern: a tree whose leaves are placeholders. -/
abbrev Pattern := Tree Placeholder

/-- Is the tree a constant? -/
def Tree.isPush {α : Type} : Tree α → Bool
  | .push _ => true
  | _ => false

/-! ### Interpretations -/

/-- What each kind of node contributes to an interpretation of a tree, bottom-up. -/
structure Interp (β : Type) where
  push : Word → β
  op0 : Instruction 0 → β
  op1 : Instruction 1 → β → β
  op2 : Instruction 2 → β → β → β
  op3 : Instruction 3 → β → β → β → β

namespace Tree

variable {α β γ : Type}

/-- Interpret a tree, with the leaves valued by `v`. -/
def interpret (I : Interp β) (v : α → β) : Tree α → β
  | leaf a => v a
  | push w => I.push w
  | op0 i => I.op0 i
  | op1 i a => I.op1 i (a.interpret I v)
  | op2 i a b => I.op2 i (a.interpret I v) (b.interpret I v)
  | op3 i a b c => I.op3 i (a.interpret I v) (b.interpret I v) (c.interpret I v)

/-- Substitute a tree for every leaf: instantiating a pattern with the matched expressions. -/
def bind (σ : α → Tree γ) : Tree α → Tree γ
  | leaf a => σ a
  | push w => push w
  | op0 i => op0 i
  | op1 i a => op1 i (a.bind σ)
  | op2 i a b => op2 i (a.bind σ) (b.bind σ)
  | op3 i a b c => op3 i (a.bind σ) (b.bind σ) (c.bind σ)

/-- The leaves, left to right. -/
def leaves : Tree α → List α
  | leaf a => [a]
  | push _ | op0 _ => []
  | op1 _ a => a.leaves
  | op2 _ a b => a.leaves ++ b.leaves
  | op3 _ a b c => a.leaves ++ b.leaves ++ c.leaves

/-- Interpreting an instance is interpreting the pattern with each leaf valued by its
instance. -/
theorem interpret_bind (I : Interp β) (v : γ → β) (σ : α → Tree γ) (t : Tree α) :
    (t.bind σ).interpret I v = t.interpret I (fun a => (σ a).interpret I v) := by
  induction t with
  | leaf a => rfl
  | push w => rfl
  | op0 i => rfl
  | op1 i a iha => simp only [bind, interpret, iha]
  | op2 i a b iha ihb => simp only [bind, interpret, iha, ihb]
  | op3 i a b c iha ihb ihc => simp only [bind, interpret, iha, ihb, ihc]

/-- Instantiating twice is instantiating once with the composed substitution. -/
theorem bind_bind {δ : Type} (σ : α → Tree γ) (τ : γ → Tree δ) (t : Tree α) :
    (t.bind σ).bind τ = t.bind fun a => (σ a).bind τ := by
  induction t with
  | leaf a => rfl
  | push w => rfl
  | op0 i => rfl
  | op1 i a iha => simp only [bind, iha]
  | op2 i a b iha ihb => simp only [bind, iha, ihb]
  | op3 i a b c iha ihb ihc => simp only [bind, iha, ihb, ihc]

/-- An instance depends only on what is substituted for the leaves that occur. -/
theorem bind_congr {σ τ : α → Tree γ} (t : Tree α) (h : ∀ a ∈ t.leaves, σ a = τ a) :
    t.bind σ = t.bind τ := by
  induction t with
  | leaf a => exact h a (List.mem_singleton_self a)
  | push w => rfl
  | op0 i => rfl
  | op1 i a iha => simp only [bind, iha (by simpa [leaves] using h)]
  | op2 i a b iha ihb =>
      simp only [leaves, List.mem_append] at h
      simp only [bind, iha fun x hx => h x (.inl hx), ihb fun x hx => h x (.inr hx)]
  | op3 i a b c iha ihb ihc =>
      simp only [leaves, List.mem_append, or_assoc] at h
      simp only [bind, iha fun x hx => h x (.inl hx), ihb fun x hx => h x (.inr (.inl hx)),
        ihc fun x hx => h x (.inr (.inr hx))]

theorem leaves_bind (σ : α → Tree γ) (t : Tree α) :
    (t.bind σ).leaves = t.leaves.flatMap fun a => (σ a).leaves := by
  induction t with
  | leaf a => simp [bind, leaves]
  | push w => rfl
  | op0 i => rfl
  | op1 i a iha => simp only [bind, leaves, iha]
  | op2 i a b iha ihb => simp only [bind, leaves, iha, ihb, List.flatMap_append]
  | op3 i a b c iha ihb ihc => simp only [bind, leaves, iha, ihb, ihc, List.flatMap_append]

end Tree

/-! ### The machine -/

/-- The environment an expression is evaluated in: the values of its opaque leaves, and what
the address-producing opcodes push.  Addresses are 160 bits wide, so those values are below
`2 ^ 160`. -/
structure Env where
  value : ℕ → Word
  address : Instruction 0 → Word
  address_lt : ∀ i, (address i).toNat < 2 ^ 160

/-- An environment with the given opaque values, whose address-producing opcodes push `0`. -/
def Env.ofValues (value : ℕ → Word) : Env := ⟨value, fun _ => 0, fun _ => Nat.two_pow_pos 160⟩

/-- The reference semantics as an interpretation. -/
def Env.interp (env : Env) : Interp Word :=
  ⟨id, env.address, Instruction.evalUnary, Instruction.evalBinary, Instruction.evalTernary⟩

/-- The value of an expression. -/
def eval (env : Env) (e : Expr) : Word := e.interpret env.interp env.value

end Lity
