import Mathlib.Data.Prod.Lex
import Mathlib.Tactic.Linarith
import Mathlib.Tactic.Ring
import Lity.Rewriter

/-!
**Rewriting with the catalog terminates.**

Every rewrite, at any position, makes the *cost* of the expression smaller (`Lity.cost`): the
number of nodes, then the number of `MUL`, `SMUL` and `MOD` nodes, then a weight, compared
lexicographically.  Most rules remove nodes.  `MUL(X, -1) → SUB(0, X)` and the `MOD`-to-`AND`
rules keep the size and remove a multiplication or a `MOD`.  The rules that float a constant
outwards, `(X op A) op Y → (X op Y) op A` and the moves across subtractions, keep both counts;
they lower the weight, which charges a binary node the weight of its right operand once for
every unit of weight of its left operand plus one.

Two of those rules lower the weight only when `Y` is not a constant.  There the order of the
catalog matters: each comes right after the rule with `B` in place of `Y`, which rewrites every
expression whose `Y` would be a constant, so first-match search never reaches them then
(`Lity.not_isPush_of_matches_eq_none`).  Without this, `(X + 1) + 2` and `(X + 2) + 1` would
rewrite into each other forever.

Main definitions:

* `Lity.costInterp`, `Lity.cost`, `Lity.CostLt` — the measure and its order;
* `Lity.RuleDecreases` — a rule lowers the cost of what it matches.

Main results:

* `Lity.costLt_of_rewriteStep` — every rewrite lowers the cost;
* `Lity.wellFounded_rewriteStep` — rewriting is well founded;
* `Lity.not_forall_rewriteStep` — **every sequence of rewrites is finite**;
* `Lity.exists_rewrites_normal` — every expression rewrites to one no rule applies to.
-/

set_option autoImplicit false

namespace Lity

/-! ### The measure -/

/-- A cost: size, number of `MUL`/`SMUL`/`MOD` nodes, weight. -/
abbrev Cost := ℕ × ℕ × ℕ

/-- The binary opcodes counted by the second component of the cost. -/
def Instruction.heavy : Instruction 2 → ℕ
  | .MUL | .SMUL | .MOD => 1
  | _ => 0

/-- The cost of each kind of node.  A binary node weighs its right operand's weight times its
left operand's weight plus one, so that a constant (weight `1`) moved from the inside of a left
operand to the outside is a decrease. -/
def costInterp : Interp Cost where
  push _ := (1, 0, 1)
  op0 _ := (1, 0, 2)
  op1 _ a := (a.1 + 1, a.2.1, a.2.2 + 1)
  op2 i a b := (a.1 + b.1 + 1, a.2.1 + b.2.1 + i.heavy, b.2.2 * (a.2.2 + 1))
  op3 _ a b c := (a.1 + b.1 + c.1 + 1, a.2.1 + b.2.1 + c.2.1, a.2.2 + b.2.2 + c.2.2)

@[simp] theorem costInterp_push (w : Word) : costInterp.push w = (1, 0, 1) := rfl

@[simp] theorem costInterp_op0 (i : Instruction 0) : costInterp.op0 i = (1, 0, 2) := rfl

@[simp] theorem costInterp_op1 (i : Instruction 1) (a : Cost) :
    costInterp.op1 i a = (a.1 + 1, a.2.1, a.2.2 + 1) := rfl

@[simp] theorem costInterp_op2 (i : Instruction 2) (a b : Cost) :
    costInterp.op2 i a b = (a.1 + b.1 + 1, a.2.1 + b.2.1 + i.heavy, b.2.2 * (a.2.2 + 1)) := rfl

@[simp] theorem costInterp_op3 (i : Instruction 3) (a b c : Cost) :
    costInterp.op3 i a b c =
      (a.1 + b.1 + c.1 + 1, a.2.1 + b.2.1 + c.2.1, a.2.2 + b.2.2 + c.2.2) := rfl

/-- The cost of an expression; an opaque leaf costs what an address opcode costs. -/
def cost (e : Expr) : Cost := e.interpret costInterp fun _ => (1, 0, 2)

/-- The lexicographic order on costs. -/
def CostLt (x y : Cost) : Prop := Prod.Lex (· < ·) (Prod.Lex (· < ·) (· < ·)) x y

theorem wellFounded_costLt : WellFounded CostLt :=
  WellFounded.prod_lex wellFounded_lt (WellFounded.prod_lex wellFounded_lt wellFounded_lt)

theorem costLt_iff {x y : Cost} :
    CostLt x y ↔ x.1 < y.1 ∨ x.1 = y.1 ∧ (x.2.1 < y.2.1 ∨ x.2.1 = y.2.1 ∧ x.2.2 < y.2.2) := by
  simp only [CostLt, Prod.lex_def]

theorem one_le_size (e : Expr) : 1 ≤ (cost e).1 := by
  cases e <;> simp only [cost, Tree.interpret, costInterp] <;> omega

/-- Equal sizes and counts: the weight decides. -/
theorem costLt_of_weight_lt {x y : Cost} (h₁ : x.1 = y.1) (h₂ : x.2.1 = y.2.1)
    (h₃ : x.2.2 < y.2.2) : CostLt x y :=
  costLt_iff.2 (.inr ⟨h₁, .inr ⟨h₂, h₃⟩⟩)

/-- Only a constant has weight `1`. -/
theorem one_le_weight (e : Expr) : 1 ≤ (cost e).2.2 := by
  induction e with
  | leaf n => exact Nat.le_succ 1
  | push w => exact le_rfl
  | op0 i => exact Nat.le_succ 1
  | op1 i a iha => exact Nat.le_add_left 1 _
  | op2 i a b iha ihb => exact Nat.mul_pos ihb (Nat.succ_pos _)
  | op3 i a b c iha ihb ihc => exact le_add_left ihc

theorem two_le_weight {e : Expr} (h : e.isPush = false) : 2 ≤ (cost e).2.2 := by
  cases e with
  | leaf n => exact le_rfl
  | push w => cases h
  | op0 i => exact le_rfl
  | op1 i a => exact Nat.succ_le_succ (one_le_weight a)
  | op2 i a b => exact Nat.mul_le_mul (one_le_weight b) (Nat.succ_le_succ (one_le_weight a))
  | op3 i a b c =>
      have := one_le_weight a
      have := one_le_weight b
      have := one_le_weight c
      show 2 ≤ (cost a).2.2 + (cost b).2.2 + (cost c).2.2
      omega

/-! ### The cost of a node grows with the cost of each operand -/

section Monotone

variable {a a' b b' c c' : Cost}

theorem costLt_op1 (i : Instruction 1) (h : CostLt a' a) :
    CostLt (costInterp.op1 i a') (costInterp.op1 i a) := by
  simp only [costInterp, costLt_iff] at h ⊢
  omega

theorem costLt_op2_left (i : Instruction 2) (hb : 1 ≤ b.2.2) (h : CostLt a' a) :
    CostLt (costInterp.op2 i a' b) (costInterp.op2 i a b) := by
  simp only [costInterp, costLt_iff] at h ⊢
  rcases h with h | ⟨h₁, h | ⟨h₂, h₃⟩⟩
  · exact .inl (by omega)
  · exact .inr ⟨by omega, .inl (by omega)⟩
  · exact .inr ⟨by omega, .inr ⟨by omega, Nat.mul_lt_mul_of_pos_left (by omega) hb⟩⟩

theorem costLt_op2_right (i : Instruction 2) (h : CostLt b' b) :
    CostLt (costInterp.op2 i a b') (costInterp.op2 i a b) := by
  simp only [costInterp, costLt_iff] at h ⊢
  rcases h with h | ⟨h₁, h | ⟨h₂, h₃⟩⟩
  · exact .inl (by omega)
  · exact .inr ⟨by omega, .inl (by omega)⟩
  · exact .inr ⟨by omega, .inr ⟨by omega, Nat.mul_lt_mul_of_pos_right h₃ (Nat.succ_pos _)⟩⟩

theorem costLt_op3_left (i : Instruction 3) (h : CostLt a' a) :
    CostLt (costInterp.op3 i a' b c) (costInterp.op3 i a b c) := by
  simp only [costInterp, costLt_iff] at h ⊢
  omega

theorem costLt_op3_mid (i : Instruction 3) (h : CostLt b' b) :
    CostLt (costInterp.op3 i a b' c) (costInterp.op3 i a b c) := by
  simp only [costInterp, costLt_iff] at h ⊢
  omega

theorem costLt_op3_right (i : Instruction 3) (h : CostLt c' c) :
    CostLt (costInterp.op3 i a b c') (costInterp.op3 i a b c) := by
  simp only [costInterp, costLt_iff] at h ⊢
  omega

end Monotone

/-! ### Rules that lower the cost -/

/-- The rule's replacement costs less than its pattern, whatever the matched constants, for
every cost of the placeholders allowed by `Q`: a constant placeholder costs what a `PUSH`
costs, and every placeholder has size and weight at least `1`. -/
def RuleDecreases (Q : (Placeholder → Cost) → Prop) (r : SimplificationRule) : Prop :=
  ∀ (a b c : Word) (μ : Placeholder → Cost), (∀ h, h.isConstant → μ h = (1, 0, 1)) →
    (∀ h, 1 ≤ (μ h).1 ∧ 1 ≤ (μ h).2.2) → Q μ →
    CostLt ((r.action a b c).interpret costInterp μ) (r.pattern.interpret costInterp μ)

/-- A rule that lowers the cost for the costs of what it matched rewrites to something
cheaper. -/
theorem costLt_apply_of_matches {Q : (Placeholder → Cost) → Prop} {r : SimplificationRule}
    (hr : RuleDecreases Q r) {e : Expr} {m : Binding}
    (hm : Pattern.matches r.pattern e .empty = some m) (hQ : Q fun h => cost (m.get h)) :
    CostLt (cost (r.apply m)) (cost e) := by
  have hc := Pattern.matches_constantsPushed Binding.constantsPushed_empty hm
  have h := hr (m.d .A) (m.d .B) (m.d .C) (fun h => cost (m.get h))
    (fun h hh => by simp only [Binding.get_of_isConstant hc hh]; rfl)
    (fun h => ⟨one_le_size _, one_le_weight _⟩) hQ
  rw [← Pattern.bind_of_matches hm]
  unfold cost SimplificationRule.apply
  rwa [Tree.interpret_bind, Tree.interpret_bind]

/-- `P e e'`: the rewrite `e ↦ e'` lowers the cost. -/
def Decrease (e e' : Expr) : Prop := CostLt (cost e') (cost e)

theorem decrease_apply_of_matches {r : SimplificationRule}
    (hr : RuleDecreases (fun _ => True) r) {e : Expr} {m : Binding}
    (hm : Pattern.matches r.pattern e .empty = some m) : Decrease e (r.apply m) :=
  costLt_apply_of_matches hr hm trivial

theorem preserves_of_ruleDecreases {Q : Expr → Prop} {l : List SimplificationRule}
    (h : ∀ r ∈ l, RuleDecreases (fun _ => True) r) : Preserves Q Decrease l :=
  Preserves.of_forall fun r hr _ _ _ hm => decrease_apply_of_matches (h r hr) hm

/-! ### The guard: a rule right after its constant variant -/

/-- Replace the placeholder `Y` by `B`: from a rule's pattern, the pattern of the rule before
it that treats a constant `Y` first. -/
def yToB (h : Placeholder) : Pattern := if h = .Y then .leaf .B else .leaf h

/-- If the variant of `p` with `B` in place of `Y` does not match `e`, then whatever `p` binds
`Y` to in `e` is not a constant. -/
theorem not_isPush_of_matches_eq_none {p : Pattern} (hB : .B ∉ p.leaves) {e : Expr}
    {m : Binding} (hm : Pattern.matches p e .empty = some m)
    (hq : Pattern.matches (p.bind yToB) e .empty = none) : (m.get .Y).isPush = false := by
  have hc := Pattern.matches_constantsPushed Binding.constantsPushed_empty hm
  by_contra hpush
  simp only [Bool.not_eq_false] at hpush
  let σ : Placeholder → Expr := fun h => if h = .B then m.get .Y else m.get h
  have hσ : ∀ h, h.isConstant → (σ h).isPush := fun h hh => by
    by_cases hb : h = .B
    · simpa [σ, hb] using hpush
    · simp only [σ, hb, if_false, Binding.get_of_isConstant hc hh, Tree.isPush]
  have hbind : (p.bind yToB).bind σ = e := by
    rw [Tree.bind_bind, ← Pattern.bind_of_matches hm]
    refine Tree.bind_congr p fun h hh => ?_
    by_cases hY : h = .Y
    · subst hY
      rfl
    · have hb : h ≠ .B := fun hb => hB (hb ▸ hh)
      simp only [yToB, hY, if_false, Tree.bind, σ, hb]
  obtain ⟨m', hm', -⟩ := @Pattern.matches_complete σ hσ (p.bind yToB) .empty
    (fun _ _ he => by cases he)
  rw [hbind, hq] at hm'
  cases hm'

/-- A rule that lowers the cost when `Y` is not a constant lowers it on every expression it
rewrites right after its constant variant failed to match. -/
theorem costLt_apply_of_guard {r₀ r : SimplificationRule} (hp : r₀.pattern = r.pattern.bind yToB)
    (hB : .B ∉ r.pattern.leaves) (hr : RuleDecreases (fun μ => 2 ≤ (μ .Y).2.2) r) {e : Expr}
    {m : Binding} (h₀ : Pattern.matches r₀.pattern e .empty = none)
    (hm : Pattern.matches r.pattern e .empty = some m) : Decrease e (r.apply m) :=
  costLt_apply_of_matches hr hm (two_le_weight (not_isPush_of_matches_eq_none hB hm (hp ▸ h₀)))

/-! ### The catalog lowers the cost -/

section Rules

variable {a b c : Word} {μ : Placeholder → Cost}

theorem arithmeticOnConstants_decreases :
    ∀ r ∈ arithmeticOnConstants, RuleDecreases (fun _ => True) r := by
  simp only [arithmeticOnConstants, List.forall_mem_cons, List.mem_nil_iff, false_implies,
    implies_true, and_true]
  and_intros <;> intro a b c μ hc hw _ <;> have := hw .X <;> have := hw .Y <;>
    simp only [Tree.interpret, costInterp_push, costInterp_op0, costInterp_op1,
      costInterp_op2, costInterp_op3, hc .A rfl, hc .B rfl, hc .C rfl, costLt_iff, true_and] <;>
    omega

theorem invariantsInvolvingKnownConstants_decreases :
    ∀ r ∈ invariantsInvolvingKnownConstants, RuleDecreases (fun _ => True) r := by
  simp only [invariantsInvolvingKnownConstants, List.forall_mem_cons, List.mem_nil_iff,
    false_implies, implies_true, and_true]
  and_intros <;> intro a b c μ _ hw _ <;> have := hw .X <;> have := hw .Y <;>
    simp only [Tree.interpret, costInterp_push, costInterp_op0, costInterp_op1,
      costInterp_op2, costInterp_op3, Instruction.heavy, costLt_iff, true_and] <;> omega

theorem operationsInvolvingAnExpressionAndItself_decreases :
    ∀ r ∈ operationsInvolvingAnExpressionAndItself, RuleDecreases (fun _ => True) r := by
  simp only [operationsInvolvingAnExpressionAndItself, List.forall_mem_cons, List.mem_nil_iff,
    false_implies, implies_true, and_true]
  and_intros <;> intro a b c μ _ hw _ <;> have := hw .X <;> have := hw .Y <;>
    simp only [Tree.interpret, costInterp_push, costInterp_op0, costInterp_op1,
      costInterp_op2, costInterp_op3, costLt_iff, true_and] <;> omega

theorem logicalInstructionCombinations_decreases :
    ∀ r ∈ logicalInstructionCombinations, RuleDecreases (fun _ => True) r := by
  simp only [logicalInstructionCombinations, List.forall_mem_cons, List.mem_nil_iff,
    false_implies, implies_true, and_true]
  and_intros <;> intro a b c μ _ hw _ <;> have := hw .X <;> have := hw .Y <;>
    simp only [Tree.interpret, costInterp_push, costInterp_op0, costInterp_op1,
      costInterp_op2, costInterp_op3, costLt_iff, true_and] <;> omega

/-- `MOD(X, 2 ^ i) → AND(X, 2 ^ i - 1)` keeps the size and removes a `MOD`. -/
theorem modToAndRules_decreases : ∀ r ∈ modToAndRules, RuleDecreases (fun _ => True) r := by
  simp only [modToAndRules, List.forall_mem_map, List.mem_range]
  intro i _ a b c μ _ hw _
  have := hw .X
  simp only [Tree.interpret, costInterp_push, costInterp_op0, costInterp_op1,
      costInterp_op2, costInterp_op3, Instruction.heavy, costLt_iff, true_and]
  omega

theorem addressMaskRules_decreases : ∀ r ∈ addressMaskRules, RuleDecreases (fun _ => True) r := by
  simp only [addressMaskRules, List.forall_mem_flatMap, List.forall_mem_cons, List.mem_nil_iff,
    false_implies, implies_true, and_true]
  and_intros <;> intro a b c μ _ hw _ <;> have := hw .X <;> have := hw .Y <;>
    simp only [Tree.interpret, costInterp_push, costInterp_op0, costInterp_op1,
      costInterp_op2, costInterp_op3, costLt_iff, true_and] <;> omega

theorem booleanDoubleNegationRules_decreases :
    ∀ r ∈ booleanDoubleNegationRules, RuleDecreases (fun _ => True) r := by
  simp only [booleanDoubleNegationRules, List.forall_mem_map]
  intro op _ a b c μ _ hw _
  have := hw .X
  have := hw .Y
  simp only [Tree.interpret, costInterp_push, costInterp_op0, costInterp_op1,
      costInterp_op2, costInterp_op3, costLt_iff, true_and]
  omega

theorem isZeroRules_decreases : ∀ r ∈ isZeroRules, RuleDecreases (fun _ => True) r := by
  simp only [isZeroRules, List.forall_mem_cons, List.mem_nil_iff, false_implies, implies_true,
    and_true]
  and_intros <;> intro a b c μ _ hw _ <;> have := hw .X <;> have := hw .Y <;>
    simp only [Tree.interpret, costInterp_push, costInterp_op0, costInterp_op1,
      costInterp_op2, costInterp_op3, costLt_iff, true_and] <;> omega

end Rules

/-- Every rule of the first part lowers the cost, whatever came before it. -/
theorem simplificationRuleListPart1_decreases :
    ∀ r ∈ simplificationRuleListPart1, RuleDecreases (fun _ => True) r := by
  intro r hr
  simp only [simplificationRuleListPart1, List.mem_append] at hr
  rcases hr with ((h | h) | h) | h
  exacts [arithmeticOnConstants_decreases r h, invariantsInvolvingKnownConstants_decreases r h,
    operationsInvolvingAnExpressionAndItself_decreases r h,
    logicalInstructionCombinations_decreases r h]

theorem simplificationRuleListPart1_decrease :
    Preserves (fun _ => True) Decrease simplificationRuleListPart1 :=
  preserves_of_ruleDecreases simplificationRuleListPart1_decreases

/-- Reassociation lowers the cost: a constant moves out of a left operand, or two constants
become one.  `(X op A) op Y → (X op Y) op A` needs `Y` not to be a constant, which the rule
before it guarantees. -/
theorem associativeRules_decrease (op : Instruction 2) (fn : Word → Word → Word) :
    Preserves (fun _ => True) Decrease (associativeRules op fn) := by
  refine Preserves.flatMap _ operandOrders fun xa hxa => ?_
  simp only [operandOrders, List.mem_cons, List.mem_nil_iff, or_false] at hxa
  rcases hxa with rfl | rfl <;>
  · refine Preserves.cons (fun e m _ hm => decrease_apply_of_matches ?_ hm)
      (Preserves.cons (fun e m hq hm =>
        costLt_apply_of_guard rfl (by simp [Tree.leaves]) ?_ hq.2 hm)
        (preserves_of_ruleDecreases ?_))
    · intro a b c μ hc hw _
      have := hw .X
      simp only [Tree.interpret, costInterp_push, costInterp_op2, hc .A rfl, hc .B rfl, costLt_iff,
        true_and]
      omega
    · intro a b c μ hc hw hY
      refine costLt_of_weight_lt ?_ ?_ ?_ <;>
        simp only [Tree.interpret, costInterp_push, costInterp_op2, hc .A rfl]
      · omega
      · omega
      · nlinarith only [hY, (hw .X).2]
    · simp only [List.forall_mem_cons, List.mem_nil_iff, false_implies, implies_true, and_true]
      constructor <;> intro a b c μ hc hw _
      · have := hw .X
        simp only [Tree.interpret, costInterp_push, costInterp_op2, hc .A rfl, hc .B rfl,
          costLt_iff, true_and]
        omega
      · refine costLt_of_weight_lt ?_ ?_ ?_ <;>
          simp only [Tree.interpret, costInterp_push, costInterp_op2, hc .A rfl]
        · omega
        · omega
        · nlinarith only [(hw .X).2, (hw .Y).2]

/-- The constant sinking builds two nodes, whichever branch it takes. -/
theorem size_interpret_sinkConstant (add sub : Instruction 2) (a b : Word) (μ : Placeholder → Cost) :
    ((sinkConstant add sub a b).interpret costInterp μ).1 = (μ .X).1 + 2 := by
  unfold sinkConstant
  split <;> simp only [Tree.interpret, costInterp]

/-- The moves across additions and subtractions lower the cost.  `(X + A) - Y` and
`(A + X) - Y` need `Y` not to be a constant, which the rules `(X + A) - B` and `(A + X) - B`
of the first block guarantee.  The move `X - (Y + A) → (X - Y) - A` turns an addition into a
subtraction, so neither may be counted. -/
theorem addSubRules_decrease (add sub : Instruction 2) (hadd : add.heavy = 0)
    (hsub : sub.heavy = 0) :
    Preserves (fun _ => True) Decrease (addSubRules add sub) := by
  refine Preserves.append (preserves_of_ruleDecreases ?_) ?_
  · simp only [operandOrders, List.flatMap_cons, List.flatMap_nil, List.append_nil,
      List.cons_append, List.nil_append, List.forall_mem_cons, List.mem_nil_iff, false_implies,
      implies_true, and_true]
    and_intros <;> intro a b c μ hc hw _ <;> have := hw .X <;> have := hw .Y <;>
      simp only [Tree.interpret, costInterp_push, costInterp_op0, costInterp_op1,
      costInterp_op2, costInterp_op3, hc .A rfl, hc .B rfl, size_interpret_sinkConstant,
        costLt_iff, true_and] <;> omega
  · refine Preserves.of_forall fun r hr e m hq hm => ?_
    simp only [List.mem_cons, List.mem_nil_iff, or_false] at hr
    rcases hr with rfl | rfl | rfl | rfl
    · refine costLt_apply_of_guard rfl (by simp [Tree.leaves]) ?_
        (matches_eq_none_of_simplifyWith_eq_none hq.2 (List.mem_append_left _
          (List.mem_flatMap.2 ⟨(.leaf .X, .leaf .A), List.mem_cons_self _ _,
            List.mem_cons_self _ _⟩))) hm
      intro a b c μ hc hw hY
      refine costLt_of_weight_lt ?_ ?_ ?_ <;> simp only [Tree.interpret, costInterp_push,
        costInterp_op2, hc .A rfl]
      · omega
      · omega
      · nlinarith only [hY, (hw .X).2]
    · refine costLt_apply_of_guard rfl (by simp [Tree.leaves]) ?_
        (matches_eq_none_of_simplifyWith_eq_none hq.2 (List.mem_append_left _
          (List.mem_flatMap.2 ⟨(.leaf .A, .leaf .X), List.mem_cons_of_mem _ (List.mem_cons_self _ _),
            List.mem_cons_self _ _⟩))) hm
      intro a b c μ hc hw hY
      refine costLt_of_weight_lt ?_ ?_ ?_ <;> simp only [Tree.interpret, costInterp_push,
        costInterp_op2, hc .A rfl]
      · omega
      · omega
      · nlinarith only [hY, (hw .X).2]
    all_goals
      refine decrease_apply_of_matches (fun a b c μ hc hw _ => ?_) hm
      refine costLt_of_weight_lt ?_ ?_ ?_ <;> simp only [Tree.interpret, costInterp_push,
        costInterp_op2, hc .A rfl]
      · omega
      · omega
      · nlinarith only [(hw .X).2, (hw .Y).2]

theorem simplificationRuleListPart2_decrease :
    Preserves (fun _ => True) Decrease simplificationRuleListPart2 := by
  have hassoc : Preserves (fun _ => True) Decrease
      (associativeOperations.flatMap fun opFun => associativeRules opFun.1 opFun.2) :=
    Preserves.flatMap _ _ fun opFun _ => associativeRules_decrease opFun.1 opFun.2
  have haddSub : Preserves (fun _ => True) Decrease
      (addSubOperations.flatMap fun addSub => addSubRules addSub.1 addSub.2) := by
    refine Preserves.flatMap _ _ fun addSub h => ?_
    simp only [addSubOperations, List.mem_cons, List.mem_nil_iff, or_false] at h
    rcases h with rfl | rfl <;> exact addSubRules_decrease _ _ rfl rfl
  have hfirst : Preserves (fun _ => True) Decrease
      (modToAndRules ++ addressMaskRules ++ booleanDoubleNegationRules ++ isZeroRules) := by
    refine preserves_of_ruleDecreases fun r hr => ?_
    simp only [List.mem_append] at hr
    rcases hr with ((h | h) | h) | h
    exacts [modToAndRules_decreases r h, addressMaskRules_decreases r h,
      booleanDoubleNegationRules_decreases r h, isZeroRules_decreases r h]
  exact (hfirst.append (hassoc.mono fun _ _ => trivial)).append (haddSub.mono fun _ _ => trivial)

/-- **One first-match rewrite at the root lowers the cost.** -/
theorem costLt_of_simplify {e e' : Expr} (h : simplify e = some e') : CostLt (cost e') (cost e) :=
  (simplificationRuleListPart1_decrease.append
    (simplificationRuleListPart2_decrease.mono fun _ _ => trivial)) e e' trivial h

/-- **Every rewrite lowers the cost**: at the root by the catalog, inside an operand because a
node's cost grows with each operand's. -/
theorem costLt_of_rewriteStep {e e' : Expr} (h : RewriteStep e e') : CostLt (cost e') (cost e) := by
  induction h with
  | root h => exact costLt_of_simplify h
  | op1 i _ ih => exact costLt_op1 i ih
  | op2L i b _ ih => exact costLt_op2_left i (one_le_weight b) ih
  | op2R i a _ ih => exact costLt_op2_right i ih
  | op3L i b c _ ih => exact costLt_op3_left i ih
  | op3M i a c _ ih => exact costLt_op3_mid i ih
  | op3R i a b _ ih => exact costLt_op3_right i ih

/-- Rewriting is well founded: there is no infinite chain of rewrites. -/
theorem wellFounded_rewriteStep : WellFounded fun e' e => RewriteStep e e' :=
  Subrelation.wf (fun h => costLt_of_rewriteStep h) (InvImage.wf cost wellFounded_costLt)

/-- **Every sequence of rewrites is finite**: no sequence of expressions rewrites each one into
the next forever, whatever positions the rewrites are at. -/
theorem not_forall_rewriteStep (f : ℕ → Expr) : ¬ ∀ n, RewriteStep (f n) (f (n + 1)) := by
  intro hf
  have key : ∀ x, ∀ n, f n ≠ x := by
    intro x
    induction x using wellFounded_rewriteStep.induction with
    | _ x ih => exact fun n hn => ih (f (n + 1)) (hn ▸ hf n) (n + 1) rfl
  exact key (f 0) 0 rfl

/-- Rewriting as long as some rule applies somewhere ends: every expression rewrites to one that
no rule rewrites at any position. -/
theorem exists_rewrites_normal (e : Expr) :
    ∃ e', Rewrites e e' ∧ ∀ e'', ¬ RewriteStep e' e'' := by
  induction e using wellFounded_rewriteStep.induction with
  | _ e ih =>
      by_cases h : ∃ e₁, RewriteStep e e₁
      · obtain ⟨e₁, he₁⟩ := h
        obtain ⟨e', he', hn⟩ := ih e₁ he₁
        exact ⟨e', Relation.ReflTransGen.head he₁ he', hn⟩
      · exact ⟨e, .refl, fun e'' he'' => h ⟨e'', he''⟩⟩

end Lity
