import Lity.Matcher

/-!
**The catalog of simplification rules (`libevmasm/RuleList.h`).**

A rule is a pattern, an action and a flag.  The action is the source's closure: it reads the
constants the placeholders `A`, `B`, `C` matched (`A.d()`, `B.d()`, `C.d()`, its three
arguments here) and returns a pattern, in which a placeholder stands for what it matched.
`Lity.SimplificationRule.apply` instantiates that pattern, as `ExpressionTemplate` does.

The rules are transcribed in the source's order.  `simplificationRuleListPart1` is one vector
literal in the source, split here at its comment lines; `simplificationRuleListPart2` is built
by loops, which become `List.map` and `List.flatMap` over the same ranges and opcode lists.
The source takes the placeholders as parameters of the list; here they are the fixed leaves
`A`, `B`, `C`, `X`, `Y` of `Lity.Pattern`.

Main definitions:

* `Lity.SimplificationRule`, `Lity.SimplificationRule.apply`;
* `Lity.simplificationRuleListPart1`, with its sections `Lity.arithmeticOnConstants`,
  `Lity.invariantsInvolvingKnownConstants`, `Lity.operationsInvolvingAnExpressionAndItself`,
  `Lity.logicalInstructionCombinations`;
* `Lity.simplificationRuleListPart2`, with its loops `Lity.modToAndRules`,
  `Lity.addressMaskRules`, `Lity.booleanDoubleNegationRules`, `Lity.associativeRules`,
  `Lity.addSubRules`;
* `Lity.simplificationRuleList`.
-/

set_option autoImplicit false

namespace Lity

/-- `SimplificationRule`: the pattern to detect, the action building the replacement from the
matched constants `A.d()`, `B.d()`, `C.d()`, and whether the rule may discard operands that are
not constants (its third field, the spec's `removable`). -/
structure SimplificationRule where
  pattern : Pattern
  action : Word → Word → Word → Pattern
  removesNonConstants : Bool

/-- The replacement a rule builds for a match: the action's pattern with every placeholder
replaced by what it matched. -/
def SimplificationRule.apply (r : SimplificationRule) (m : Binding) : Expr :=
  (r.action (m.d .A) (m.d .B) (m.d .C)).bind m.get

instance : Coe Placeholder Pattern := ⟨Tree.leaf⟩

/-- `unsigned(...)`: the C++ conversion of a word to a 32-bit `unsigned`. -/
def unsigned (w : Word) : ℕ := w.toNat % 2 ^ 32

open Placeholder

/-! ### `simplificationRuleListPart1` -/

/-- `// arithmetic on constants`. -/
def arithmeticOnConstants : List SimplificationRule := [
  ⟨.op2 .ADD A B, fun a b _ => .push (a + b), false⟩,
  ⟨.op2 .SADD A B, fun a b _ => .push (a + b), false⟩,
  ⟨.op2 .MUL A B, fun a b _ => .push (a * b), false⟩,
  ⟨.op2 .SMUL A B, fun a b _ => .push (a * b), false⟩,
  ⟨.op2 .SUB A B, fun a b _ => .push (a - b), false⟩,
  ⟨.op2 .SSUB A B, fun a b _ => .push (a - b), false⟩,
  ⟨.op2 .DIV A B, fun a b _ => .push (if b = 0 then 0 else divWorkaround a b), false⟩,
  ⟨.op2 .SDIV A B, fun a b _ =>
    .push (if b = 0 then 0 else s2u (divWorkaround (u2s a) (u2s b))), false⟩,
  ⟨.op2 .MOD A B, fun a b _ => .push (if b = 0 then 0 else modWorkaround a b), false⟩,
  ⟨.op2 .SMOD A B, fun a b _ =>
    .push (if b = 0 then 0 else s2u (modWorkaround (u2s a) (u2s b))), false⟩,
  ⟨.op2 .EXP A B, fun a b _ => .push (BitVec.ofInt 256 (powm a.toNat b.toNat (2 ^ 256))), false⟩,
  ⟨.op1 .NOT A, fun a _ _ => .push (~~~a), false⟩,
  ⟨.op2 .LT A B, fun a b _ => .push (if a < b then 1 else 0), false⟩,
  ⟨.op2 .GT A B, fun a b _ => .push (if a > b then 1 else 0), false⟩,
  ⟨.op2 .SLT A B, fun a b _ => .push (if u2s a < u2s b then 1 else 0), false⟩,
  ⟨.op2 .SGT A B, fun a b _ => .push (if u2s a > u2s b then 1 else 0), false⟩,
  ⟨.op2 .EQ A B, fun a b _ => .push (if a = b then 1 else 0), false⟩,
  ⟨.op1 .ISZERO A, fun a _ _ => .push (if a = 0 then 1 else 0), false⟩,
  ⟨.op2 .AND A B, fun a b _ => .push (a &&& b), false⟩,
  ⟨.op2 .OR A B, fun a b _ => .push (a ||| b), false⟩,
  ⟨.op2 .XOR A B, fun a b _ => .push (a ^^^ b), false⟩,
  ⟨.op2 .BYTE A B, fun a b _ =>
    .push (if a ≥ 32 then 0 else (b >>> unsigned (8 * (31 - a))) &&& 0xff), false⟩,
  ⟨.op3 .ADDMOD A B C, fun a b c =>
    .push (if c = 0 then 0 else BitVec.ofNat 256 ((a.toNat + b.toNat) % c.toNat)), false⟩,
  ⟨.op3 .MULMOD A B C, fun a b c =>
    .push (if c = 0 then 0 else BitVec.ofNat 256 (a.toNat * b.toNat % c.toNat)), false⟩,
  ⟨.op3 .MULMOD A B C, fun a b _ => .push (a * b), false⟩,
  ⟨.op2 .SIGNEXTEND A B, fun a b _ => .push <|
    if a ≥ 31 then b else
      let testBit := (unsigned a * 8 + 7) % 2 ^ 32
      let mask : Word := ((1 : Word) <<< testBit) - 1
      if b.getLsbD testBit then b ||| ~~~mask else b &&& mask, false⟩,
  ⟨.op2 .SHL A B, fun a b _ =>
    .push (if a > 255 then 0 else BitVec.ofNat 256 (b.toNat <<< unsigned a)), false⟩,
  ⟨.op2 .SHR A B, fun a b _ => .push (if a > 255 then 0 else b >>> unsigned a), false⟩]

/-- `// invariants involving known constants`. -/
def invariantsInvolvingKnownConstants : List SimplificationRule := [
  ⟨.op2 .ADD X (.push 0), fun _ _ _ => X, false⟩,
  ⟨.op2 .ADD (.push 0) X, fun _ _ _ => X, false⟩,
  ⟨.op2 .SADD X (.push 0), fun _ _ _ => X, false⟩,
  ⟨.op2 .SADD (.push 0) X, fun _ _ _ => X, false⟩,
  ⟨.op2 .SUB X (.push 0), fun _ _ _ => X, false⟩,
  ⟨.op2 .SSUB X (.push 0), fun _ _ _ => X, false⟩,
  ⟨.op2 .MUL X (.push 0), fun _ _ _ => .push 0, true⟩,
  ⟨.op2 .MUL (.push 0) X, fun _ _ _ => .push 0, true⟩,
  ⟨.op2 .MUL X (.push 1), fun _ _ _ => X, false⟩,
  ⟨.op2 .MUL (.push 1) X, fun _ _ _ => X, false⟩,
  ⟨.op2 .MUL X (.push (-1)), fun _ _ _ => .op2 .SUB (.push 0) X, false⟩,
  ⟨.op2 .MUL (.push (-1)) X, fun _ _ _ => .op2 .SUB (.push 0) X, false⟩,
  ⟨.op2 .SMUL X (.push 0), fun _ _ _ => .push 0, true⟩,
  ⟨.op2 .SMUL (.push 0) X, fun _ _ _ => .push 0, true⟩,
  ⟨.op2 .SMUL X (.push 1), fun _ _ _ => X, false⟩,
  ⟨.op2 .SMUL (.push 1) X, fun _ _ _ => X, false⟩,
  ⟨.op2 .SMUL X (.push (-1)), fun _ _ _ => .op2 .SSUB (.push 0) X, false⟩,
  ⟨.op2 .SMUL (.push (-1)) X, fun _ _ _ => .op2 .SSUB (.push 0) X, false⟩,
  ⟨.op2 .DIV X (.push 0), fun _ _ _ => .push 0, true⟩,
  ⟨.op2 .DIV (.push 0) X, fun _ _ _ => .push 0, true⟩,
  ⟨.op2 .DIV X (.push 1), fun _ _ _ => X, false⟩,
  ⟨.op2 .SDIV X (.push 0), fun _ _ _ => .push 0, true⟩,
  ⟨.op2 .SDIV (.push 0) X, fun _ _ _ => .push 0, true⟩,
  ⟨.op2 .SDIV X (.push 1), fun _ _ _ => X, false⟩,
  ⟨.op2 .AND X (.push (~~~0)), fun _ _ _ => X, false⟩,
  ⟨.op2 .AND (.push (~~~0)) X, fun _ _ _ => X, false⟩,
  ⟨.op2 .AND X (.push 0), fun _ _ _ => .push 0, true⟩,
  ⟨.op2 .AND (.push 0) X, fun _ _ _ => .push 0, true⟩,
  ⟨.op2 .OR X (.push 0), fun _ _ _ => X, false⟩,
  ⟨.op2 .OR (.push 0) X, fun _ _ _ => X, false⟩,
  ⟨.op2 .OR X (.push (~~~0)), fun _ _ _ => .push (~~~0), true⟩,
  ⟨.op2 .OR (.push (~~~0)) X, fun _ _ _ => .push (~~~0), true⟩,
  ⟨.op2 .XOR X (.push 0), fun _ _ _ => X, false⟩,
  ⟨.op2 .XOR (.push 0) X, fun _ _ _ => X, false⟩,
  ⟨.op2 .MOD X (.push 0), fun _ _ _ => .push 0, true⟩,
  ⟨.op2 .MOD (.push 0) X, fun _ _ _ => .push 0, true⟩,
  ⟨.op2 .EQ X (.push 0), fun _ _ _ => .op1 .ISZERO X, false⟩,
  ⟨.op2 .EQ (.push 0) X, fun _ _ _ => .op1 .ISZERO X, false⟩]

/-- `// operations involving an expression and itself`. -/
def operationsInvolvingAnExpressionAndItself : List SimplificationRule := [
  ⟨.op2 .AND X X, fun _ _ _ => X, true⟩,
  ⟨.op2 .OR X X, fun _ _ _ => X, true⟩,
  ⟨.op2 .XOR X X, fun _ _ _ => .push 0, true⟩,
  ⟨.op2 .SUB X X, fun _ _ _ => .push 0, true⟩,
  ⟨.op2 .SSUB X X, fun _ _ _ => .push 0, true⟩,
  ⟨.op2 .EQ X X, fun _ _ _ => .push 1, true⟩,
  ⟨.op2 .LT X X, fun _ _ _ => .push 0, true⟩,
  ⟨.op2 .SLT X X, fun _ _ _ => .push 0, true⟩,
  ⟨.op2 .GT X X, fun _ _ _ => .push 0, true⟩,
  ⟨.op2 .SGT X X, fun _ _ _ => .push 0, true⟩,
  ⟨.op2 .MOD X X, fun _ _ _ => .push 0, true⟩]

/-- `// logical instruction combinations`. -/
def logicalInstructionCombinations : List SimplificationRule := [
  ⟨.op1 .NOT (.op1 .NOT X), fun _ _ _ => X, false⟩,
  ⟨.op2 .XOR X (.op2 .XOR X Y), fun _ _ _ => Y, true⟩,
  ⟨.op2 .XOR X (.op2 .XOR Y X), fun _ _ _ => Y, true⟩,
  ⟨.op2 .XOR (.op2 .XOR X Y) X, fun _ _ _ => Y, true⟩,
  ⟨.op2 .XOR (.op2 .XOR Y X) X, fun _ _ _ => Y, true⟩,
  ⟨.op2 .OR X (.op2 .AND X Y), fun _ _ _ => X, true⟩,
  ⟨.op2 .OR X (.op2 .AND Y X), fun _ _ _ => X, true⟩,
  ⟨.op2 .OR (.op2 .AND X Y) X, fun _ _ _ => X, true⟩,
  ⟨.op2 .OR (.op2 .AND Y X) X, fun _ _ _ => X, true⟩,
  ⟨.op2 .AND X (.op2 .OR X Y), fun _ _ _ => X, true⟩,
  ⟨.op2 .AND X (.op2 .OR Y X), fun _ _ _ => X, true⟩,
  ⟨.op2 .AND (.op2 .OR X Y) X, fun _ _ _ => X, true⟩,
  ⟨.op2 .AND (.op2 .OR Y X) X, fun _ _ _ => X, true⟩,
  ⟨.op2 .AND X (.op1 .NOT X), fun _ _ _ => .push 0, true⟩,
  ⟨.op2 .AND (.op1 .NOT X) X, fun _ _ _ => .push 0, true⟩,
  ⟨.op2 .OR X (.op1 .NOT X), fun _ _ _ => .push (~~~0), true⟩,
  ⟨.op2 .OR (.op1 .NOT X) X, fun _ _ _ => .push (~~~0), true⟩]

/-- `simplificationRuleListPart1`. -/
def simplificationRuleListPart1 : List SimplificationRule :=
  arithmeticOnConstants ++ invariantsInvolvingKnownConstants ++
    operationsInvolvingAnExpressionAndItself ++ logicalInstructionCombinations

/-! ### `simplificationRuleListPart2` -/

/-- `// Replace MOD X, <power-of-two> with AND X, <power-of-two> - 1`, for `i < 256`. -/
def modToAndRules : List SimplificationRule :=
  (List.range 256).map fun i =>
    let value : Word := (1 : Word) <<< i
    ⟨.op2 .MOD X (.push value), fun _ _ _ => .op2 .AND X (.push (value - 1)), false⟩

/-- `AND` of an address-producing opcode with the 160-bit mask, on either side. -/
def addressMaskRules : List SimplificationRule :=
  [Instruction.ADDRESS, .CALLER, .ORIGIN, .COINBASE].flatMap fun op =>
    let mask : Word := ((1 : Word) <<< 160) - 1
    [⟨.op2 .AND (.op0 op) (.push mask), fun _ _ _ => .op0 op, false⟩,
     ⟨.op2 .AND (.push mask) (.op0 op), fun _ _ _ => .op0 op, false⟩]

/-- `// Double negation of opcodes with boolean result`. -/
def booleanDoubleNegationRules : List SimplificationRule :=
  [Instruction.EQ, .LT, .SLT, .GT, .SGT].map fun op =>
    ⟨.op1 .ISZERO (.op1 .ISZERO (.op2 op X Y)), fun _ _ _ => .op2 op X Y, false⟩

/-- The two rules pushed after the double negations: `ISZERO(ISZERO(ISZERO X))` and
`ISZERO(XOR X Y)`. -/
def isZeroRules : List SimplificationRule := [
  ⟨.op1 .ISZERO (.op1 .ISZERO (.op1 .ISZERO X)), fun _ _ _ => .op1 .ISZERO X, false⟩,
  ⟨.op1 .ISZERO (.op2 .XOR X Y), fun _ _ _ => .op2 .EQ X Y, false⟩]

/-- The operand orders the loops over `xa` go through: `(X, A)` and `(A, X)`. -/
def operandOrders : List (Pattern × Pattern) := [(X, A), (A, X)]

/-- `// Associative operations` for one opcode and its combiner `fun`: moving constants to the
outside, the rules for constants before those for non-constants. -/
def associativeRules (op : Instruction 2) (fn : Word → Word → Word) :
    List SimplificationRule :=
  operandOrders.flatMap fun xa => [
    -- (X+A)+B -> X+(A+B)
    ⟨.op2 op (.op2 op xa.1 xa.2) B, fun a b _ => .op2 op X (.push (fn a b)), false⟩,
    -- (X+A)+Y -> (X+Y)+A
    ⟨.op2 op (.op2 op xa.1 xa.2) Y, fun _ _ _ => .op2 op (.op2 op X Y) A, false⟩,
    -- B+(X+A) -> X+(A+B)
    ⟨.op2 op B (.op2 op xa.1 xa.2), fun a b _ => .op2 op X (.push (fn a b)), false⟩,
    -- Y+(X+A) -> (Y+X)+A
    ⟨.op2 op Y (.op2 op xa.1 xa.2), fun _ _ _ => .op2 op (.op2 op Y X) A, false⟩]

/-- The opcodes of the associative loop with their combiners (`std::plus`, `std::multiplies`,
`std::bit_and`, `std::bit_or`, `std::bit_xor` on `u256`). -/
def associativeOperations : List (Instruction 2 × (Word → Word → Word)) :=
  [(.ADD, (· + ·)), (.SADD, (· + ·)), (.MUL, (· * ·)), (.SMUL, (· * ·)),
    (.AND, (· &&& ·)), (.OR, (· ||| ·)), (.XOR, (· ^^^ ·))]

/-- `(X + A) - B -> X + (A - B), X - (B - A)`: the branch keeps the constant unwrapped. -/
def sinkConstant (add sub : Instruction 2) (a b : Word) : Pattern :=
  if a < b then .op2 sub X (.push (b - a)) else .op2 add X (.push (a - b))

/-- The rules combining an addition and a subtraction with constants, for one pair `add`,
`sub`. -/
def addSubRules (add sub : Instruction 2) : List SimplificationRule :=
  (operandOrders.flatMap fun xa => [
    -- (X + A) - B -> X + (A - B), X - (B - A)
    ⟨.op2 sub (.op2 add xa.1 xa.2) B, fun a b _ => sinkConstant add sub a b, false⟩,
    -- B - (X + A) -> (B - A) - X
    ⟨.op2 sub B (.op2 add xa.1 xa.2), fun a b _ => .op2 sub (.push (b - a)) X, false⟩]) ++ [
    -- (X - A) + B -> X + (B - A), X - (A - B)
    ⟨.op2 add (.op2 sub X A) B, fun a b _ => sinkConstant add sub b a, false⟩,
    -- B + (X - A) -> X + (B - A), X - (A - B)
    ⟨.op2 add B (.op2 sub X A), fun a b _ => sinkConstant add sub b a, false⟩,
    -- (X - A) - B -> X - (A + B)
    ⟨.op2 sub (.op2 sub X A) B, fun a b _ => .op2 sub X (.push (a + b)), false⟩,
    -- (A - X) - B -> (A - B) - X
    ⟨.op2 sub (.op2 sub A X) B, fun a b _ => .op2 sub (.push (a - b)) X, false⟩] ++ [
    -- (X + A) - Y -> (X - Y) + A
    ⟨.op2 sub (.op2 add X A) Y, fun _ _ _ => .op2 add (.op2 sub X Y) A, false⟩,
    -- (A + X) - Y -> (X - Y) + A
    ⟨.op2 sub (.op2 add A X) Y, fun _ _ _ => .op2 add (.op2 sub X Y) A, false⟩,
    -- X - (Y + A) -> (X - Y) - A
    ⟨.op2 sub X (.op2 add Y A), fun _ _ _ => .op2 sub (.op2 sub X Y) A, false⟩,
    -- X - (A + Y) -> (X - Y) - A
    ⟨.op2 sub X (.op2 add A Y), fun _ _ _ => .op2 sub (.op2 sub X Y) A, false⟩]

/-- The pairs of the addition/subtraction loop. -/
def addSubOperations : List (Instruction 2 × Instruction 2) := [(.ADD, .SUB), (.SADD, .SSUB)]

/-- `simplificationRuleListPart2`. -/
def simplificationRuleListPart2 : List SimplificationRule :=
  modToAndRules ++ addressMaskRules ++ booleanDoubleNegationRules ++ isZeroRules ++
    associativeOperations.flatMap (fun opFun => associativeRules opFun.1 opFun.2) ++
    addSubOperations.flatMap (fun addSub => addSubRules addSub.1 addSub.2)

/-- `simplificationRuleList`: the whole catalog, in order. -/
def simplificationRuleList : List SimplificationRule :=
  simplificationRuleListPart1 ++ simplificationRuleListPart2

end Lity
