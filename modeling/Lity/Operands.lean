import Lity.RuleList

/-!
**Which arbitrary operands a rule keeps.**

The source's comment on `simplificationRuleList` asks that a rule never change the order of
evaluation of arbitrary operations, and each rule carries a flag (its third field) that says
whether it may discard an arbitrary operand.  This module checks the flag against what the
rule builds.

The arbitrary operands of a pattern are its `X` and `Y` leaves, left to right
(`Lity.Pattern.operands`); the constants `A`, `B`, `C` are not among them.  A rule respects its
flag (`Lity.FlagRespected`) when, for every value of the matched constants — so in both branches
of a rule that tests them — a rule with the flag unset builds exactly the operands of its
pattern, in order, and a rule with the flag set builds a proper subsequence of them.

Main definitions:

* `Lity.Pattern.operands`, `Lity.FlagRespected`.

Main results:

* `Lity.simplificationRuleList_flagRespected` — **every rule of the catalog respects its
  flag**: no rule without the flag drops, duplicates or reorders an arbitrary operand, and every
  rule with it drops at least one and keeps the order of the rest.
-/

set_option autoImplicit false

namespace Lity

/-- The arbitrary operands a pattern mentions: its `X` and `Y` leaves, left to right. -/
def Pattern.operands (p : Pattern) : List Placeholder := p.leaves.filter fun h => !h.isConstant

/-- The rule's flag says what its replacement does to the arbitrary operands, whatever the
matched constants are. -/
def FlagRespected (r : SimplificationRule) : Prop :=
  ∀ a b c : Word,
    (r.removesNonConstants = false → (r.action a b c).operands = r.pattern.operands) ∧
    (r.removesNonConstants = true → (r.action a b c).operands.Sublist r.pattern.operands ∧
      (r.action a b c).operands.length < r.pattern.operands.length)

/-- The constant sinking builds `X` and a constant in either branch. -/
theorem leaves_sinkConstant (add sub : Instruction 2) (a b : Word) :
    (sinkConstant add sub a b).leaves = [.X] := by
  unfold sinkConstant
  split <;> rfl

/-! ### `simplificationRuleListPart1` -/

/-- Constant folding reads and builds no arbitrary operand. -/
theorem arithmeticOnConstants_flagRespected : ∀ r ∈ arithmeticOnConstants, FlagRespected r := by
  simp only [arithmeticOnConstants, List.forall_mem_cons, List.mem_nil_iff, false_implies,
    implies_true, and_true]
  and_intros <;> exact fun _ _ _ => ⟨fun _ => rfl, fun h => nomatch h⟩

theorem invariantsInvolvingKnownConstants_flagRespected :
    ∀ r ∈ invariantsInvolvingKnownConstants, FlagRespected r := by
  simp only [invariantsInvolvingKnownConstants, List.forall_mem_cons, List.mem_nil_iff,
    false_implies, implies_true, and_true]
  and_intros <;> intro a b c <;>
    simp only [Pattern.operands, Tree.leaves, List.filter_cons, List.filter_nil,
      Placeholder.isConstant] <;> decide

theorem operationsInvolvingAnExpressionAndItself_flagRespected :
    ∀ r ∈ operationsInvolvingAnExpressionAndItself, FlagRespected r := by
  simp only [operationsInvolvingAnExpressionAndItself, List.forall_mem_cons, List.mem_nil_iff,
    false_implies, implies_true, and_true]
  and_intros <;> intro a b c <;>
    simp only [Pattern.operands, Tree.leaves, List.filter_cons, List.filter_nil,
      Placeholder.isConstant] <;> decide

theorem logicalInstructionCombinations_flagRespected :
    ∀ r ∈ logicalInstructionCombinations, FlagRespected r := by
  simp only [logicalInstructionCombinations, List.forall_mem_cons, List.mem_nil_iff,
    false_implies, implies_true, and_true]
  and_intros <;> intro a b c <;>
    simp only [Pattern.operands, Tree.leaves, List.filter_cons, List.filter_nil,
      Placeholder.isConstant] <;> decide

/-! ### `simplificationRuleListPart2` -/

theorem modToAndRules_flagRespected : ∀ r ∈ modToAndRules, FlagRespected r := by
  simp only [modToAndRules, List.forall_mem_map, List.mem_range]
  exact fun _ _ _ _ _ => ⟨fun _ => rfl, fun h => nomatch h⟩

theorem addressMaskRules_flagRespected : ∀ r ∈ addressMaskRules, FlagRespected r := by
  simp only [addressMaskRules, List.forall_mem_flatMap, List.forall_mem_cons, List.mem_nil_iff,
    false_implies, implies_true, and_true]
  and_intros <;> exact fun _ _ _ => ⟨fun _ => rfl, fun h => nomatch h⟩

theorem booleanDoubleNegationRules_flagRespected :
    ∀ r ∈ booleanDoubleNegationRules, FlagRespected r := by
  simp only [booleanDoubleNegationRules, List.forall_mem_map]
  exact fun _ _ _ _ _ => ⟨fun _ => rfl, fun h => nomatch h⟩

theorem isZeroRules_flagRespected : ∀ r ∈ isZeroRules, FlagRespected r := by
  simp only [isZeroRules, List.forall_mem_cons, List.mem_nil_iff, false_implies, implies_true,
    and_true]
  and_intros <;> exact fun _ _ _ => ⟨fun _ => rfl, fun h => nomatch h⟩

/-- Reassociation moves constants and keeps the arbitrary operands in their order, for every
opcode and combiner. -/
theorem associativeRules_flagRespected (op : Instruction 2) (fn : Word → Word → Word) :
    ∀ r ∈ associativeRules op fn, FlagRespected r := by
  simp only [associativeRules, operandOrders, List.flatMap_cons, List.flatMap_nil,
    List.append_nil, List.cons_append, List.nil_append, List.forall_mem_cons, List.mem_nil_iff,
    false_implies, implies_true, and_true]
  and_intros <;> exact fun _ _ _ => ⟨fun _ => rfl, fun h => nomatch h⟩

/-- The moves across additions and subtractions keep the arbitrary operands in their order, in
both branches of the constant sinking. -/
theorem addSubRules_flagRespected (add sub : Instruction 2) :
    ∀ r ∈ addSubRules add sub, FlagRespected r := by
  simp only [addSubRules, operandOrders, List.flatMap_cons, List.flatMap_nil, List.append_nil,
    List.cons_append, List.nil_append, List.forall_mem_cons, List.mem_nil_iff, false_implies,
    implies_true, and_true]
  and_intros <;> intro a b c <;>
    simp only [Pattern.operands, leaves_sinkConstant, Tree.leaves, List.filter_cons,
      List.filter_nil, Placeholder.isConstant] <;> decide

theorem simplificationRuleListPart2_flagRespected :
    ∀ r ∈ simplificationRuleListPart2, FlagRespected r := by
  simp only [simplificationRuleListPart2, List.mem_append, List.mem_flatMap]
  rintro r (((((h | h) | h) | h) | ⟨opFun, -, h⟩) | ⟨addSub, -, h⟩)
  exacts [modToAndRules_flagRespected r h, addressMaskRules_flagRespected r h,
    booleanDoubleNegationRules_flagRespected r h, isZeroRules_flagRespected r h,
    associativeRules_flagRespected _ _ r h, addSubRules_flagRespected _ _ r h]

/-! ### The rules without the flag -/

/-- Constant folding never discards anything. -/
theorem arithmeticOnConstants_removesNonConstants :
    ∀ r ∈ arithmeticOnConstants, r.removesNonConstants = false := by
  simp only [arithmeticOnConstants, List.forall_mem_cons, List.mem_nil_iff, false_implies,
    implies_true, and_true]

/-- No rule of the second part discards anything. -/
theorem simplificationRuleListPart2_removesNonConstants :
    ∀ r ∈ simplificationRuleListPart2, r.removesNonConstants = false := by
  simp only [simplificationRuleListPart2, List.forall_mem_append, List.forall_mem_flatMap,
    modToAndRules, addressMaskRules, booleanDoubleNegationRules, isZeroRules, associativeRules,
    addSubRules, operandOrders, List.forall_mem_map, List.forall_mem_cons, List.mem_nil_iff,
    false_implies, implies_true, and_true, List.flatMap_cons, List.flatMap_nil, List.append_nil,
    List.cons_append, List.nil_append, and_self]

/-! ### The whole catalog -/

/-- **Every rule of the catalog respects its flag**, for every value of the matched
constants. -/
theorem simplificationRuleList_flagRespected :
    ∀ r ∈ simplificationRuleList, FlagRespected r := by
  simp only [simplificationRuleList, simplificationRuleListPart1, List.mem_append]
  rintro r ((((h | h) | h) | h) | h)
  exacts [arithmeticOnConstants_flagRespected r h,
    invariantsInvolvingKnownConstants_flagRespected r h,
    operationsInvolvingAnExpressionAndItself_flagRespected r h,
    logicalInstructionCombinations_flagRespected r h, simplificationRuleListPart2_flagRespected r h]

/-- `AND(X, X) → X` is flagged, and drops one of the two copies of `X`. -/
theorem flagRespected_and_self :
    ∃ r ∈ simplificationRuleList, r.pattern = .op2 .AND (.leaf .X) (.leaf .X) ∧
      r.removesNonConstants = true ∧ FlagRespected r :=
  let r : SimplificationRule := ⟨.op2 .AND (.leaf .X) (.leaf .X), fun _ _ _ => .leaf .X, true⟩
  have hr : r ∈ simplificationRuleList := List.mem_append_left _
    (List.mem_append_left _ (List.mem_append_right _ (List.mem_cons_self _ _)))
  ⟨r, hr, rfl, rfl, simplificationRuleList_flagRespected r hr⟩

end Lity
