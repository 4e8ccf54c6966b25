import Lity.Soundness
import Lity.Termination

/-!
**Constant folding: what one rewrite does to an opcode applied to constants.**

The catalog opens with one folding rule per opcode (`arithmeticOnConstants`), so an opcode
whose operands are all constants is always rewritten, and by a folding rule: no earlier rule can
take it, and every folding rule builds a constant.  Soundness (`Lity.eval_simplify`) then fixes
which constant it is, the reference value of the opcode.  A constant itself is never rewritten:
it is the cheapest expression, and every rewrite lowers the cost of `Lity.cost`.

Main results:

* `Lity.simplify_eq_push_eval` — a folding rule that matches decides the rewrite;
* `Lity.simplify_fold` — **an opcode applied to constants is rewritten to the constant of its
  reference value, for every opcode of every arity and all operands, and that constant is not
  rewritten again**.
-/

set_option autoImplicit false

namespace Lity

/-- Every folding rule builds a constant, whatever constants it matched. -/
theorem action_eq_push_of_mem_arithmeticOnConstants :
    ∀ r ∈ arithmeticOnConstants, ∀ a b c, ∃ w, r.action a b c = .push w := by
  simp only [arithmeticOnConstants, List.forall_mem_cons, List.mem_nil_iff, false_implies,
    implies_true, and_true]
  and_intros <;> exact fun _ _ _ => ⟨_, rfl⟩

/-- When a folding rule matches `e`, the first match lies among the folding rules, and the
rewrite is the constant of the value of `e`. -/
theorem simplify_eq_push_eval {e : Expr} {r : SimplificationRule} (hr : r ∈ arithmeticOnConstants)
    (hm : (Pattern.matches r.pattern e .empty).isSome) :
    simplify e = some (.push (eval (.ofValues fun _ => 0) e)) := by
  obtain ⟨e', he'⟩ : ∃ e', simplifyWith arithmeticOnConstants e = some e' :=
    Option.ne_none_iff_exists'.1 fun h => by
      simp [matches_eq_none_of_simplifyWith_eq_none h hr] at hm
  have hs : simplify e = some e' :=
    simplifyWith_append_of_some (simplifyWith_append_of_some (simplifyWith_append_of_some
      (simplifyWith_append_of_some he')))
  obtain ⟨r', hr', m, -, rfl⟩ := exists_of_simplifyWith he'
  obtain ⟨w, hw⟩ := action_eq_push_of_mem_arithmeticOnConstants r' hr' (m.d .A) (m.d .B) (m.d .C)
  rw [SimplificationRule.apply, hw] at hs
  rw [hs, ← eval_simplify hs]
  rfl

/-- A constant is never rewritten: nothing costs less. -/
theorem simplify_push (w : Word) : simplify (.push w) = none := by
  cases h : simplify (.push w) with
  | none => rfl
  | some e' =>
      have hlt : CostLt (cost e') (1, 0, 1) := costLt_of_simplify h
      have h₁ := one_le_size e'
      have h₂ := one_le_weight e'
      simp only [costLt_iff] at hlt
      omega

/-- **Folding**: an opcode applied to constants is rewritten to the constant of its reference
value, and that constant is not rewritten again. -/
theorem simplify_fold (i₁ : Instruction 1) (i₂ : Instruction 2) (i₃ : Instruction 3)
    (a b c : Word) :
    simplify (.op1 i₁ (.push a)) = some (.push (Instruction.evalUnary i₁ a)) ∧
      simplify (.op2 i₂ (.push a) (.push b)) = some (.push (Instruction.evalBinary i₂ a b)) ∧
      simplify (.op3 i₃ (.push a) (.push b) (.push c)) =
        some (.push (Instruction.evalTernary i₃ a b c)) ∧
      simplify (.push a) = none := by
  obtain ⟨r₁, hr₁, hp₁⟩ : ∃ r ∈ arithmeticOnConstants, r.pattern = .op1 i₁ (.leaf .A) := by
    cases i₁ <;> decide
  obtain ⟨r₂, hr₂, hp₂⟩ :
      ∃ r ∈ arithmeticOnConstants, r.pattern = .op2 i₂ (.leaf .A) (.leaf .B) := by
    cases i₂ <;> decide
  obtain ⟨r₃, hr₃, hp₃⟩ :
      ∃ r ∈ arithmeticOnConstants, r.pattern = .op3 i₃ (.leaf .A) (.leaf .B) (.leaf .C) := by
    cases i₃ <;> decide
  refine ⟨simplify_eq_push_eval hr₁ ?_, simplify_eq_push_eval hr₂ ?_,
    simplify_eq_push_eval hr₃ ?_, simplify_push a⟩ <;>
  simp [hp₁, hp₂, hp₃, Pattern.matches, Binding.bindGroup, Binding.empty, Placeholder.isConstant,
    Tree.isPush]

end Lity
