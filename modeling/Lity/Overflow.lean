import Lity.Soundness

/-!
**`SADD`, `SSUB` and `SMUL` read as overflow-checked opcodes.**

The reference semantics gives the `S`-prefixed arithmetic the wrapping meaning of `ADD`, `SUB`
and `MUL`.  Read instead as checked opcodes, each fails when the exact result of its operands,
taken as unsigned numbers, leaves `[0, 2 ^ 256)`, and a failing operand makes the whole
expression fail (`Lity.evalChecked`).  A checked evaluation that succeeds agrees with the
reference one (`Lity.evalChecked_eq_some`), so, as rewriting keeps the reference value, it never
changes a value that both sides compute; what it can change is *whether* they compute one.

It does, in both directions.  The catalog folds `SADD(2 ^ 256 - 1, 1)` with the wrapping sum of
the two constants, so a failing expression becomes the constant `0`
(`Lity.simplify_removes_overflow_failure`); and it rewrites `SMUL(X, 2 ^ 256 - 1)` to
`SSUB(0, X)`, which fails for `X = 1` where the product did not
(`Lity.simplify_introduces_underflow_failure`).

Main definitions:

* `Lity.checkedBinary`, `Lity.Env.checkedInterp`, `Lity.evalChecked`.

Main results:

* `Lity.evalChecked_eq_some` — the checked reading refines the reference semantics;
* `Lity.evalChecked_eq_of_rewrites` — rewriting never changes a value that both sides compute;
* `Lity.simplify_removes_overflow_failure`, `Lity.simplify_introduces_underflow_failure`.
-/

set_option autoImplicit false

namespace Lity

/-- The overflow-checked reading of the binary opcodes, which the spec's wrapping semantics of
the `S`-prefixed opcodes does not give them: `SADD`, `SSUB` and `SMUL` fail when the exact result
of their unsigned operands is not a word; every other opcode computes its reference value. -/
def checkedBinary : Instruction 2 → Word → Word → Option Word
  | .SADD, a, b => if a.toNat + b.toNat < 2 ^ 256 then some (a + b) else none
  | .SSUB, a, b => if b.toNat ≤ a.toNat then some (a - b) else none
  | .SMUL, a, b => if a.toNat * b.toNat < 2 ^ 256 then some (a * b) else none
  | i, a, b => some (Instruction.evalBinary i a b)

/-- Evaluation under the overflow-checked reading, in which a failure propagates upwards. -/
def Env.checkedInterp (env : Env) : Interp (Option Word) where
  push w := some w
  op0 i := some (env.address i)
  op1 i a := a.map (Instruction.evalUnary i)
  op2 i a b := a.bind fun x => b.bind fun y => checkedBinary i x y
  op3 i a b c := a.bind fun x => b.bind fun y => c.map fun z => Instruction.evalTernary i x y z

/-- The checked value of an expression, or `none` when some checked opcode in it fails. -/
def evalChecked (env : Env) (e : Expr) : Option Word :=
  e.interpret env.checkedInterp fun n => some (env.value n)

theorem checkedBinary_eq_some {i : Instruction 2} {a b w : Word}
    (h : checkedBinary i a b = some w) : Instruction.evalBinary i a b = w := by
  cases i <;> simp only [checkedBinary, Option.ite_none_right_eq_some, Option.some.injEq] at h <;>
    first | exact h | exact h.2

/-- **A checked evaluation that succeeds computes the reference value.** -/
theorem evalChecked_eq_some (env : Env) {e : Expr} :
    ∀ {w : Word}, evalChecked env e = some w → eval env e = w := by
  induction e with
  | leaf n => intro w h; exact Option.some.inj h
  | push v => intro w h; exact Option.some.inj h
  | op0 i => intro w h; exact Option.some.inj h
  | op1 i a iha =>
      intro w h
      obtain ⟨x, hx, rfl⟩ := Option.map_eq_some'.1 h
      exact congrArg _ (iha hx)
  | op2 i a b iha ihb =>
      intro w h
      obtain ⟨x, hx, y, hy, h⟩ : ∃ x, evalChecked env a = some x ∧ ∃ y,
          evalChecked env b = some y ∧ checkedBinary i x y = some w := by
        simpa [evalChecked, Tree.interpret, Env.checkedInterp, Option.bind_eq_some] using h
      simp only [eval, Tree.interpret, Env.interp_op2] at iha ihb ⊢
      rw [iha hx, ihb hy, checkedBinary_eq_some h]
  | op3 i a b c iha ihb ihc =>
      intro w h
      obtain ⟨x, hx, y, hy, z, hz, rfl⟩ : ∃ x, evalChecked env a = some x ∧ ∃ y,
          evalChecked env b = some y ∧ ∃ z, evalChecked env c = some z ∧
            Instruction.evalTernary i x y z = w := by
        simpa [evalChecked, Tree.interpret, Env.checkedInterp, Option.bind_eq_some] using h
      simp only [eval, Tree.interpret, Env.interp_op3] at iha ihb ihc ⊢
      rw [iha hx, ihb hy, ihc hz]

/-- Rewriting never changes a value: where the expression before and the expression after a
run of rewrites both evaluate without failure, they evaluate to the same word. -/
theorem evalChecked_eq_of_rewrites (env : Env) {e e' : Expr} (h : Rewrites e e') {w w' : Word}
    (hw : evalChecked env e = some w) (hw' : evalChecked env e' = some w') : w' = w := by
  rw [← evalChecked_eq_some env hw, ← evalChecked_eq_some env hw']
  clear hw hw'
  induction h with
  | refl => rfl
  | tail _ hstep ih => exact (eval_rewriteStep hstep env).trans ih

/-- `SSUB(SADD(x, 3), 5)` is rewritten to `SSUB(x, 2)`; with `x = 7` both evaluate to `5`. -/
theorem evalChecked_eq_of_rewrites_sinking :
    Rewrites (.op2 .SSUB (.op2 .SADD (.leaf 0) (.push 3)) (.push 5)) (.op2 .SSUB (.leaf 0) (.push 2)) ∧
      evalChecked (.ofValues fun _ => 7)
        (.op2 .SSUB (.op2 .SADD (.leaf 0) (.push 3)) (.push 5)) = some 5 ∧
      evalChecked (.ofValues fun _ => 7)
        (.op2 .SSUB (.leaf 0) (.push 2)) = some 5 ∧ (5 : Word) = 5 := by
  have h : Rewrites (.op2 .SSUB (.op2 .SADD (.leaf 0) (.push 3)) (.push 5))
      (.op2 .SSUB (.leaf 0) (.push 2)) := .single (.root (by decide))
  exact ⟨h, by decide, by decide,
    evalChecked_eq_of_rewrites (.ofValues fun _ => 7) h (by decide) (by decide)⟩

/-- **Folding removes an overflow failure.**  `SADD(2 ^ 256 - 1, 1)` fails under the checked
reading, and the catalog folds it to the constant `0`. -/
theorem simplify_removes_overflow_failure (env : Env) :
    simplify (.op2 .SADD (.push (-1)) (.push 1)) = some (.push 0) ∧
      evalChecked env (.op2 .SADD (.push (-1)) (.push 1)) = none ∧
      evalChecked env (.push 0) = some 0 :=
  ⟨by decide, rfl, rfl⟩

/-- **A rewrite introduces an underflow failure.**  With `X = 1`, `SMUL(X, 2 ^ 256 - 1)`
evaluates to `2 ^ 256 - 1`, and the catalog rewrites it to `SSUB(0, X)`, which fails. -/
theorem simplify_introduces_underflow_failure :
    simplify (.op2 .SMUL (.leaf 0) (.push (-1))) = some (.op2 .SSUB (.push 0) (.leaf 0)) ∧
      evalChecked (.ofValues fun _ => 1)
        (.op2 .SMUL (.leaf 0) (.push (-1))) = some (-1) ∧
      evalChecked (.ofValues fun _ => 1)
        (.op2 .SSUB (.push 0) (.leaf 0)) = none :=
  ⟨by decide, by decide, by decide⟩

end Lity
