import Mathlib.Tactic.Ring
import Lity.Rewriter

/-!
**The catalog preserves the value of an expression.**

A rule is *sound* (`Lity.RuleSound`) when its replacement, with every placeholder valued by a
word, evaluates to what its pattern evaluates to under the same valuation.  Matching binds the
constant placeholders to `PUSH`es of the very words the action receives, so a sound rule
rewrites every expression it matches into one of the same value
(`Lity.eval_apply_of_matches`).

The folding lambdas of `arithmeticOnConstants` are written against the source's own helpers
(`divWorkaround`, `u2s`, `s2u`, `boost::multiprecision::powm`, shifts of an `unsigned`, the
`SIGNEXTEND` mask); the lemmas `Lity.fold_DIV` to `Lity.fold_SHR` say that each computes the
reference semantics of its opcode, for every pair of operands.

Every rule of the catalog is sound but one: the second `MULMOD(A, B, C)` rule returns `A * B`.
It sits right after the first `MULMOD(A, B, C)` rule, so first-match search never reaches it
(`Lity.simplify_eq_simplifyWith_eraseIdx`), and the rewriter with the rest of the catalog is
sound at every position and along every run.

Main definitions:

* `Lity.RuleSound`.

Main results:

* `Lity.eval_apply_of_matches` — a sound rule preserves the value of what it matches;
* `Lity.simplificationRuleList_eraseIdx_sound` — every rule but the shadowed `MULMOD` rule is
  sound;
* `Lity.mulmod_rules_disagree` — the shadowed rule, taken on its own, changes a value;
* `Lity.simplify_eq_simplifyWith_eraseIdx` — the shadowed rule never fires;
* `Lity.eval_eq_of_rewrites` — **rewriting preserves values**: any number of first-match
  rewrites, at any positions, leave the value of an expression unchanged.
-/

set_option autoImplicit false

namespace Lity

/-! ### Sound rules -/

@[simp] theorem Env.interp_push (env : Env) (w : Word) : env.interp.push w = w := rfl

@[simp] theorem Env.interp_op0 (env : Env) (i : Instruction 0) :
    env.interp.op0 i = env.address i := rfl

@[simp] theorem Env.interp_op1 (env : Env) (i : Instruction 1) (a : Word) :
    env.interp.op1 i a = Instruction.evalUnary i a := rfl

@[simp] theorem Env.interp_op2 (env : Env) (i : Instruction 2) (a b : Word) :
    env.interp.op2 i a b = Instruction.evalBinary i a b := rfl

@[simp] theorem Env.interp_op3 (env : Env) (i : Instruction 3) (a b c : Word) :
    env.interp.op3 i a b c = Instruction.evalTernary i a b c := rfl

/-- The rule's replacement and its pattern have the same value for every value of the
placeholders, the constants `A`, `B`, `C` passed to the action included. -/
def RuleSound (r : SimplificationRule) : Prop :=
  ∀ (env : Env) (v : Placeholder → Word),
    (r.action (v .A) (v .B) (v .C)).interpret env.interp v = r.pattern.interpret env.interp v

/-- A sound rule rewrites whatever it matches into an expression of the same value. -/
theorem eval_apply_of_matches {r : SimplificationRule} (hr : RuleSound r) {e : Expr}
    {m : Binding} (hm : Pattern.matches r.pattern e .empty = some m) (env : Env) :
    eval env (r.apply m) = eval env e := by
  have hc := Pattern.matches_constantsPushed Binding.constantsPushed_empty hm
  let v : Placeholder → Word := fun h => eval env (m.get h)
  have hv : ∀ h : Placeholder, h.isConstant → m.d h = v h := fun h hh => by
    simp only [v, Binding.get_of_isConstant hc hh]; rfl
  calc eval env (r.apply m)
      = (r.action (m.d .A) (m.d .B) (m.d .C)).interpret env.interp v :=
        Tree.interpret_bind _ _ _ _
    _ = (r.action (v .A) (v .B) (v .C)).interpret env.interp v := by
        rw [hv .A rfl, hv .B rfl, hv .C rfl]
    _ = eval env (r.pattern.bind m.get) := (hr env v).trans (Tree.interpret_bind _ _ _ _).symm
    _ = eval env e := by rw [Pattern.bind_of_matches hm]

/-! ### The folding lambdas compute the opcodes -/

theorem unsigned_of_lt {w : Word} (h : w.toNat < 2 ^ 32) : unsigned w = w.toNat :=
  Nat.mod_eq_of_lt h

theorem toNat_one_shiftLeft {i : ℕ} (hi : i < 256) : ((1 : Word) <<< i).toNat = 2 ^ i := by
  rw [BitVec.toNat_shiftLeft, show (1 : Word).toNat = 1 from rfl, Nat.one_shiftLeft,
    Nat.mod_eq_of_lt (Nat.pow_lt_pow_right (by decide) hi)]

theorem toNat_one_shiftLeft_sub_one {i : ℕ} (hi : i < 256) :
    ((1 : Word) <<< i - 1).toNat = 2 ^ i - 1 := by
  have := Nat.two_pow_pos i
  have := Nat.pow_lt_pow_right (by decide : 1 < 2) hi
  rw [BitVec.toNat_sub, toNat_one_shiftLeft hi, show (1 : Word).toNat = 1 from rfl]
  omega

/-- The `SIGNEXTEND` mask `(1 << t) - 1` has exactly the bits below `t`. -/
theorem getLsbD_one_shiftLeft_sub_one {t : ℕ} (ht : t < 256) (i : ℕ) :
    ((1 : Word) <<< t - 1).getLsbD i = decide (i < t) := by
  rw [BitVec.getLsbD, toNat_one_shiftLeft_sub_one ht, Nat.testBit_two_pow_sub_one]

theorem fold_DIV (a b : Word) :
    (if b = 0 then 0 else divWorkaround a b) = Instruction.evalBinary .DIV a b := by
  split <;> simp_all [divWorkaround_eq_udiv, BitVec.udiv_zero]

theorem fold_SDIV (a b : Word) :
    (if b = 0 then 0 else s2u (divWorkaround (u2s a) (u2s b))) =
      Instruction.evalBinary .SDIV a b := by
  split <;> simp_all [s2u_divWorkaround, BitVec.sdiv_zero]

theorem fold_MOD (a b : Word) :
    (if b = 0 then 0 else modWorkaround a b) = Instruction.evalBinary .MOD a b := by
  simp only [modWorkaround_eq_umod, Instruction.evalBinary]

theorem fold_SMOD (a b : Word) :
    (if b = 0 then 0 else s2u (modWorkaround (u2s a) (u2s b))) =
      Instruction.evalBinary .SMOD a b := by
  simp only [s2u_modWorkaround, Instruction.evalBinary]

theorem fold_SLT (a b : Word) :
    (if u2s a < u2s b then 1 else 0) = Instruction.evalBinary .SLT a b := by
  simp [Instruction.bit, BitVec.slt, u2s_eq_toInt]

theorem fold_SGT (a b : Word) :
    (if u2s a > u2s b then 1 else 0) = Instruction.evalBinary .SGT a b := by
  simp [Instruction.bit, BitVec.slt, u2s_eq_toInt]

theorem fold_BYTE (a b : Word) :
    (if a ≥ 32 then 0 else (b >>> unsigned (8 * (31 - a))) &&& 0xff) =
      Instruction.evalBinary .BYTE a b := by
  simp only [Instruction.evalBinary]
  by_cases h : a.toNat < 32
  · have hle : ¬ a ≥ 32 := by simp [BitVec.le_def]; omega
    have hu : unsigned (8 * (31 - a)) = 8 * (31 - a.toNat) := by
      rw [unsigned_of_lt] <;> simp [BitVec.toNat_mul, BitVec.toNat_sub] <;> omega
    rw [if_neg hle, if_pos h, hu]
    ext i
    simp [BitVec.getLsbD_ofNat, Nat.testBit_two_pow_sub_one]
    rw [show (255 : ℕ) = 2 ^ 8 - 1 from rfl, Nat.testBit_two_pow_sub_one, Bool.and_comm]
  · have hle : a ≥ 32 := by simp [BitVec.le_def]; omega
    rw [if_pos hle, if_neg h]

/-- The source's `SIGNEXTEND` folding tests bit `8 * (a + 1) - 1` and fills the bits above it
with a mask; this is sign extension from `a + 1` bytes. -/
theorem fold_SIGNEXTEND (a b : Word) :
    (if a ≥ 31 then b else
      let testBit := (unsigned a * 8 + 7) % 2 ^ 32
      let mask : Word := ((1 : Word) <<< testBit) - 1
      if b.getLsbD testBit then b ||| ~~~mask else b &&& mask) =
      Instruction.evalBinary .SIGNEXTEND a b := by
  simp only [Instruction.evalBinary]
  by_cases h : a.toNat < 31
  · have hle : ¬ a ≥ 31 := by simp [BitVec.le_def]; omega
    have ht : (unsigned a * 8 + 7) % 2 ^ 32 = 8 * (a.toNat + 1) - 1 := by
      rw [unsigned_of_lt (by omega)]; omega
    rw [if_neg hle, if_pos h, ht]
    clear ht hle
    generalize a.toNat = k at h
    have htk : 8 * (k + 1) - 1 < 256 := by omega
    ext i
    have hi := i.isLt
    simp only [BitVec.getLsbD_signExtend, BitVec.getLsbD_setWidth, BitVec.msb_eq_getLsbD_last,
      apply_ite (fun x : Word => x.getLsbD i), BitVec.getLsbD_or, BitVec.getLsbD_and,
      BitVec.getLsbD_not, getLsbD_one_shiftLeft_sub_one htk]
    rcases Nat.lt_trichotomy i (8 * (k + 1) - 1) with hit | hit | hit
    · simp [hit, hi, show (i : ℕ) < 8 * (k + 1) by omega, Bool.and_comm]
    · cases hb : b.getLsbD (8 * (k + 1) - 1) <;> simp [hit, hb, htk]
    · simp [hi, show ¬ (i : ℕ) < 8 * (k + 1) by omega, show ¬ (i : ℕ) < 8 * (k + 1) - 1 by omega]
  · have hle : a ≥ 31 := by simp [BitVec.le_def]; omega
    rw [if_pos hle, if_neg h]

theorem fold_SHL (a b : Word) :
    (if a > 255 then 0 else BitVec.ofNat 256 (b.toNat <<< unsigned a)) =
      Instruction.evalBinary .SHL a b := by
  simp only [Instruction.evalBinary]
  apply BitVec.eq_of_toNat_eq
  split
  · rename_i h
    obtain ⟨k, hk⟩ : ∃ k, a.toNat = 256 + k := ⟨a.toNat - 256, by simp [BitVec.lt_def] at h; omega⟩
    rw [BitVec.toNat_shiftLeft, Nat.shiftLeft_eq, hk, Nat.pow_add, Nat.mul_left_comm,
      Nat.mul_mod_right]
    rfl
  · rename_i h
    rw [unsigned_of_lt (by simp [BitVec.lt_def] at h; omega), BitVec.toNat_ofNat,
      BitVec.toNat_shiftLeft]

theorem fold_SHR (a b : Word) :
    (if a > 255 then 0 else b >>> unsigned a) = Instruction.evalBinary .SHR a b := by
  simp only [Instruction.evalBinary]
  split
  · rename_i h
    have h256 : 256 ≤ a.toNat := by simp [BitVec.lt_def] at h; omega
    apply BitVec.eq_of_toNat_eq
    rw [BitVec.toNat_ushiftRight, Nat.shiftRight_eq_div_pow, Nat.div_eq_of_lt
      (lt_of_lt_of_le b.isLt (Nat.pow_le_pow_right (by decide) h256))]
    rfl
  · rename_i h
    rw [unsigned_of_lt (by simp [BitVec.lt_def] at h; omega)]

/-! ### `simplificationRuleListPart1` -/

/-- Constant folding is sound, once the shadowed second `MULMOD` rule (index 24) is left out.
The other foldings are the opcode itself, or one of the lemmas above. -/
theorem arithmeticOnConstants_eraseIdx_sound :
    ∀ r ∈ arithmeticOnConstants.eraseIdx 24, RuleSound r := by
  simp only [arithmeticOnConstants, List.eraseIdx_cons_succ, List.eraseIdx_cons_zero,
    List.forall_mem_cons, List.mem_nil_iff, false_implies, implies_true, and_true]
  exact ⟨fun _ _ => rfl, fun _ _ => rfl, fun _ _ => rfl, fun _ _ => rfl, fun _ _ => rfl,
    fun _ _ => rfl, fun _ _ => fold_DIV _ _, fun _ _ => fold_SDIV _ _, fun _ _ => fold_MOD _ _,
    fun _ _ => fold_SMOD _ _, fun _ _ => powm_toNat _ _, fun _ _ => rfl, fun _ _ => rfl,
    fun _ _ => rfl, fun _ _ => fold_SLT _ _, fun _ _ => fold_SGT _ _, fun _ _ => rfl,
    fun _ _ => rfl, fun _ _ => rfl, fun _ _ => rfl, fun _ _ => rfl, fun _ _ => fold_BYTE _ _,
    fun _ _ => rfl, fun _ _ => rfl, fun _ _ => fold_SIGNEXTEND _ _, fun _ _ => fold_SHL _ _,
    fun _ _ => fold_SHR _ _⟩

theorem invariantsInvolvingKnownConstants_sound :
    ∀ r ∈ invariantsInvolvingKnownConstants, RuleSound r := by
  simp only [invariantsInvolvingKnownConstants, List.forall_mem_cons, List.mem_nil_iff,
    false_implies, implies_true, and_true]
  and_intros <;> intro env v <;>
    simp [Tree.interpret, Instruction.bit, eq_comm, -BitVec.reduceNeg, -BitVec.reduceNot,
      -BitVec.reduceAllOnes]

theorem operationsInvolvingAnExpressionAndItself_sound :
    ∀ r ∈ operationsInvolvingAnExpressionAndItself, RuleSound r := by
  simp only [operationsInvolvingAnExpressionAndItself, List.forall_mem_cons, List.mem_nil_iff,
    false_implies, implies_true, and_true]
  and_intros <;> intro env v <;> simp [Tree.interpret, Instruction.bit, BitVec.slt]

/-- The logical combinations are identities of Boolean algebra, checked bit by bit. -/
theorem logicalInstructionCombinations_sound :
    ∀ r ∈ logicalInstructionCombinations, RuleSound r := by
  simp only [logicalInstructionCombinations, List.forall_mem_cons, List.mem_nil_iff,
    false_implies, implies_true, and_true]
  and_intros <;> intro env v <;> ext i <;>
    simp only [Tree.interpret, Env.interp_push, Env.interp_op1, Env.interp_op2,
      Instruction.evalBinary, Instruction.evalUnary, BitVec.getLsbD_and, BitVec.getLsbD_or,
      BitVec.getLsbD_xor, BitVec.getLsbD_not, BitVec.getLsbD_zero, Fin.is_lt, decide_True,
      Bool.true_and] <;>
    cases (v .X).getLsbD i <;> cases (v .Y).getLsbD i <;> simp

theorem simplificationRuleListPart1_eraseIdx_sound :
    ∀ r ∈ simplificationRuleListPart1.eraseIdx 24, RuleSound r := by
  rw [simplificationRuleListPart1, List.append_assoc, List.append_assoc,
    List.eraseIdx_append_of_lt_length (by decide)]
  simp only [List.mem_append]
  rintro r (h | h | h | h)
  exacts [arithmeticOnConstants_eraseIdx_sound r h, invariantsInvolvingKnownConstants_sound r h,
    operationsInvolvingAnExpressionAndItself_sound r h, logicalInstructionCombinations_sound r h]

/-! ### `simplificationRuleListPart2` -/

theorem modToAndRules_sound : ∀ r ∈ modToAndRules, RuleSound r := by
  simp only [modToAndRules, List.mem_map, List.mem_range]
  rintro _ ⟨i, hi, rfl⟩ env v
  have hne : (1 : Word) <<< i ≠ 0 := fun h => by
    have h2 := toNat_one_shiftLeft hi
    rw [h] at h2
    exact (Nat.two_pow_pos i).ne h2
  simp only [Tree.interpret, Env.interp_op2, Env.interp_push, Instruction.evalBinary, hne,
    if_false]
  apply BitVec.eq_of_toNat_eq
  rw [BitVec.toNat_and, BitVec.toNat_umod, toNat_one_shiftLeft_sub_one hi,
    toNat_one_shiftLeft hi, Nat.and_pow_two_sub_one_eq_mod]

/-- Masking an address with `2 ^ 160 - 1` is the identity: addresses have 160 bits. -/
theorem addressMaskRules_sound : ∀ r ∈ addressMaskRules, RuleSound r := by
  have hmask : ∀ w : Word, w.toNat < 2 ^ 160 → w &&& ((1 : Word) <<< 160 - 1) = w := by
    intro w hw
    apply BitVec.eq_of_toNat_eq
    rw [BitVec.toNat_and, toNat_one_shiftLeft_sub_one (by decide),
      Nat.and_pow_two_sub_one_eq_mod, Nat.mod_eq_of_lt hw]
  simp only [addressMaskRules, List.mem_flatMap, List.mem_cons, List.mem_nil_iff, or_false]
  rintro _ ⟨op, -, rfl | rfl⟩ env v <;>
    simp only [Tree.interpret, Env.interp_op2, Env.interp_op0, Env.interp_push,
      Instruction.evalBinary]
  · exact (hmask _ (env.address_lt op)).symm
  · rw [BitVec.and_comm]
    exact (hmask _ (env.address_lt op)).symm

/-- `ISZERO` twice is the identity on a comparison result. -/
theorem bit_eq_zero_eq_zero (p : Prop) [Decidable p] :
    Instruction.bit (Instruction.bit (Instruction.bit p = 0) = 0) = Instruction.bit p := by
  by_cases hp : p <;> simp [Instruction.bit, hp]

theorem xor_eq_zero_iff_eq (x y : Word) : x ^^^ y = 0 ↔ x = y := by
  constructor
  · intro h
    calc x = x ^^^ y ^^^ y := by rw [BitVec.xor_assoc, BitVec.xor_self, BitVec.xor_zero]
      _ = y := by rw [h]; simp
  · rintro rfl
    exact BitVec.xor_self

theorem booleanDoubleNegationRules_sound : ∀ r ∈ booleanDoubleNegationRules, RuleSound r := by
  simp only [booleanDoubleNegationRules, List.forall_mem_map, List.forall_mem_cons,
    List.mem_nil_iff, false_implies, implies_true, and_true]
  and_intros <;> intro env v <;>
    simp only [Tree.interpret, Env.interp_op1, Env.interp_op2, Instruction.evalUnary,
      Instruction.evalBinary, bit_eq_zero_eq_zero]

theorem isZeroRules_sound : ∀ r ∈ isZeroRules, RuleSound r := by
  simp only [isZeroRules, List.forall_mem_cons, List.mem_nil_iff, false_implies, implies_true,
    and_true]
  and_intros <;> intro env v <;>
    simp only [Tree.interpret, Env.interp_op1, Env.interp_op2, Instruction.evalUnary,
      Instruction.evalBinary, bit_eq_zero_eq_zero, xor_eq_zero_iff_eq]

/-- Reassociation is sound for any opcode whose combiner computes it and is commutative and
associative. -/
theorem associativeRules_sound (op : Instruction 2) (fn : Word → Word → Word)
    (hfn : ∀ a b, Instruction.evalBinary op a b = fn a b)
    (hcomm : ∀ a b, fn a b = fn b a) (hassoc : ∀ a b c, fn (fn a b) c = fn a (fn b c)) :
    ∀ r ∈ associativeRules op fn, RuleSound r := by
  haveI : Std.Commutative fn := ⟨hcomm⟩
  haveI : Std.Associative fn := ⟨hassoc⟩
  simp only [associativeRules, operandOrders, List.flatMap_cons, List.flatMap_nil,
    List.append_nil, List.cons_append, List.nil_append, List.forall_mem_cons, List.mem_nil_iff,
    false_implies, implies_true, and_true]
  and_intros <;> intro env v <;>
    simp only [Tree.interpret, Env.interp_op2, Env.interp_push, hfn] <;> ac_rfl

theorem associativeOperations_sound :
    ∀ opFun ∈ associativeOperations, ∀ r ∈ associativeRules opFun.1 opFun.2, RuleSound r := by
  simp only [associativeOperations, List.forall_mem_cons, List.mem_nil_iff, false_implies,
    implies_true, and_true]
  exact ⟨associativeRules_sound _ _ (fun _ _ => rfl) add_comm add_assoc,
    associativeRules_sound _ _ (fun _ _ => rfl) add_comm add_assoc,
    associativeRules_sound _ _ (fun _ _ => rfl) mul_comm mul_assoc,
    associativeRules_sound _ _ (fun _ _ => rfl) mul_comm mul_assoc,
    associativeRules_sound _ _ (fun _ _ => rfl) BitVec.and_comm BitVec.and_assoc,
    associativeRules_sound _ _ (fun _ _ => rfl) BitVec.or_comm BitVec.or_assoc,
    associativeRules_sound _ _ (fun _ _ => rfl) BitVec.xor_comm BitVec.xor_assoc⟩

section AddSub

variable (add sub : Instruction 2) (hadd : ∀ a b, Instruction.evalBinary add a b = a + b)
  (hsub : ∀ a b, Instruction.evalBinary sub a b = a - b)
include hadd hsub

/-- Both branches of the constant sinking add `a - b`; the branch only keeps the pushed
constant unwrapped. -/
theorem interpret_sinkConstant (env : Env) (v : Placeholder → Word) (a b : Word) :
    (sinkConstant add sub a b).interpret env.interp v = v .X + (a - b) := by
  unfold sinkConstant
  split
  · simp only [Tree.interpret, Env.interp_op2, Env.interp_push, hsub]
    ring
  · simp only [Tree.interpret, Env.interp_op2, Env.interp_push, hadd]

theorem addSubRules_sound : ∀ r ∈ addSubRules add sub, RuleSound r := by
  simp only [addSubRules, operandOrders, List.flatMap_cons, List.flatMap_nil, List.append_nil,
    List.cons_append, List.nil_append, List.forall_mem_cons, List.mem_nil_iff, false_implies,
    implies_true, and_true]
  and_intros <;> intro env v <;>
    simp only [Tree.interpret, Env.interp_op2, Env.interp_push, hadd, hsub,
      interpret_sinkConstant add sub hadd hsub] <;> ring

end AddSub

theorem simplificationRuleListPart2_sound : ∀ r ∈ simplificationRuleListPart2, RuleSound r := by
  simp only [simplificationRuleListPart2, List.mem_append, List.mem_flatMap]
  rintro r (((((h | h) | h) | h) | ⟨opFun, hop, h⟩) | ⟨addSub, has, h⟩)
  · exact modToAndRules_sound r h
  · exact addressMaskRules_sound r h
  · exact booleanDoubleNegationRules_sound r h
  · exact isZeroRules_sound r h
  · exact associativeOperations_sound opFun hop r h
  · simp only [addSubOperations, List.mem_cons, List.mem_nil_iff, or_false] at has
    rcases has with rfl | rfl
    exacts [addSubRules_sound .ADD .SUB (fun _ _ => rfl) (fun _ _ => rfl) r h,
      addSubRules_sound .SADD .SSUB (fun _ _ => rfl) (fun _ _ => rfl) r h]

/-! ### The whole catalog -/

/-- **Every rule of the catalog but the second `MULMOD(A, B, C)` rule is sound.** -/
theorem simplificationRuleList_eraseIdx_sound :
    ∀ r ∈ simplificationRuleList.eraseIdx 24, RuleSound r := by
  rw [simplificationRuleList, List.eraseIdx_append_of_lt_length (by decide)]
  simp only [List.mem_append]
  rintro r (h | h)
  exacts [simplificationRuleListPart1_eraseIdx_sound r h, simplificationRuleListPart2_sound r h]

theorem mem_of_mem_arithmeticOnConstants {r : SimplificationRule}
    (h : r ∈ arithmeticOnConstants) : r ∈ simplificationRuleList := by
  simp [simplificationRuleList, simplificationRuleListPart1, h]

theorem simplificationRuleList_getElem? {i : ℕ} (hi : i < arithmeticOnConstants.length) :
    simplificationRuleList[i]? = arithmeticOnConstants[i]? := by
  rw [simplificationRuleList, simplificationRuleListPart1, List.append_assoc, List.append_assoc,
    List.append_assoc, List.getElem?_append_left hi]

/-- **The catalog's rules do not all agree.**  Both `MULMOD(A, B, C)` rules match
`MULMOD(2, 3, 5)`; the first folds it to its value `1`, the second to `6`. -/
theorem mulmod_rules_disagree (env : Env) :
    ∃ r₁ ∈ simplificationRuleList, ∃ r₂ ∈ simplificationRuleList, ∃ m₁ m₂,
      Pattern.matches r₁.pattern (.op3 .MULMOD (.push 2) (.push 3) (.push 5)) .empty = some m₁ ∧
      Pattern.matches r₂.pattern (.op3 .MULMOD (.push 2) (.push 3) (.push 5)) .empty = some m₂ ∧
      eval env (r₁.apply m₁) = eval env (.op3 .MULMOD (.push 2) (.push 3) (.push 5)) ∧
      eval env (r₂.apply m₂) ≠ eval env (.op3 .MULMOD (.push 2) (.push 3) (.push 5)) :=
  ⟨_, mem_of_mem_arithmeticOnConstants (List.getElem_mem (show 23 < _ by decide)), _,
    mem_of_mem_arithmeticOnConstants (List.getElem_mem (show 24 < _ by decide)), _, _, rfl, rfl,
    rfl, by simp [eval, SimplificationRule.apply, arithmeticOnConstants, Tree.bind,
      Tree.interpret, Binding.get, Binding.d]⟩

/-- **The shadowed rule never fires**: its pattern is the pattern of the rule before it. -/
theorem simplify_eq_simplifyWith_eraseIdx :
    simplify = simplifyWith (simplificationRuleList.eraseIdx 24) :=
  (simplifyWith_eraseIdx_succ simplificationRuleList 23 (by
    rw [simplificationRuleList_getElem? (by decide), simplificationRuleList_getElem? (by decide)]
    rfl)).symm

theorem eval_simplify {e e' : Expr} (h : simplify e = some e') (env : Env) :
    eval env e' = eval env e := by
  rw [simplify_eq_simplifyWith_eraseIdx] at h
  obtain ⟨r, hr, m, hm, rfl⟩ := exists_of_simplifyWith h
  exact eval_apply_of_matches (simplificationRuleList_eraseIdx_sound r hr) hm env

/-- A rewrite at any position preserves the value: evaluation is compositional. -/
theorem eval_rewriteStep {e e' : Expr} (h : RewriteStep e e') (env : Env) :
    eval env e' = eval env e := by
  induction h with
  | root h => exact eval_simplify h env
  | op1 i _ ih => simp only [eval, Tree.interpret] at ih ⊢; rw [ih]
  | op2L i b _ ih => simp only [eval, Tree.interpret] at ih ⊢; rw [ih]
  | op2R i a _ ih => simp only [eval, Tree.interpret] at ih ⊢; rw [ih]
  | op3L i b c _ ih => simp only [eval, Tree.interpret] at ih ⊢; rw [ih]
  | op3M i a c _ ih => simp only [eval, Tree.interpret] at ih ⊢; rw [ih]
  | op3R i a b _ ih => simp only [eval, Tree.interpret] at ih ⊢; rw [ih]

/-- **Rewriting preserves values**: after any finite sequence of first-match rewrites at any
positions, the expression has the value it had. -/
theorem eval_eq_of_rewrites (env : Env) {e e' : Expr} (h : Rewrites e e') :
    eval env e' = eval env e := by
  induction h with
  | refl => rfl
  | tail _ hstep ih => exact (eval_rewriteStep hstep env).trans ih

/-- `(x + 3) + 5` is rewritten to `x + 8`, which has its value. -/
theorem eval_eq_of_rewrites_reassociate :
    Rewrites (.op2 .ADD (.op2 .ADD (.leaf 0) (.push 3)) (.push 5)) (.op2 .ADD (.leaf 0) (.push 8)) ∧
      eval (.ofValues fun _ => 7) (.op2 .ADD (.leaf 0) (.push 8)) =
        eval (.ofValues fun _ => 7)
          (.op2 .ADD (.op2 .ADD (.leaf 0) (.push 3)) (.push 5)) := by
  have h : Rewrites (.op2 .ADD (.op2 .ADD (.leaf 0) (.push 3)) (.push 5))
      (.op2 .ADD (.leaf 0) (.push 8)) := .single (.root (by decide))
  exact ⟨h, eval_eq_of_rewrites _ h⟩

end Lity
