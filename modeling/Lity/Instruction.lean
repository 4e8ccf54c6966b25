import Lity.Word

/-!
**The instructions the simplification rules mention, and what they compute.**

`Instruction` is indexed by the number of operands, so that an expression tree whose
instruction and operand count disagree — the malformed input the spec reports as a fatal
assertion — cannot be built.  The `S`-prefixed arithmetic of this fork (`SADD`, `SSUB`,
`SMUL`) computes what `ADD`, `SUB` and `MUL` compute; only the removability of their operands
differs, and that is the concern of the driver, not of a value.

The semantics below is the reference one, written against the EVM definitions and the
operations of `BitVec 256`, *not* against the lambdas of the rule list: words modulo
`2 ^ 256`; `DIV`, `SDIV`, `MOD`, `SMOD`, `ADDMOD` and `MULMOD` give `0` on a zero divisor;
`SDIV` and `SMOD` round toward zero on the two's-complement reading; `ADDMOD` and `MULMOD`
reduce the full-width sum or product; `EXP`, `BYTE`, `SIGNEXTEND`, `SHL` and `SHR` follow the
EVM definitions at the Byzantium level that the spec enumerates (§4.1).

Main definitions:

* `Lity.Instruction` — the opcodes, by arity;
* `Lity.Instruction.evalUnary`, `Lity.Instruction.evalBinary`,
  `Lity.Instruction.evalTernary` — the reference semantics.
-/

set_option autoImplicit false

namespace Lity

/-- The opcodes of the catalog, indexed by their number of operands.  The nullary ones are the
address-producing opcodes, whose value comes from the environment. -/
inductive Instruction : ℕ → Type where
  | ADDRESS : Instruction 0
  | CALLER : Instruction 0
  | ORIGIN : Instruction 0
  | COINBASE : Instruction 0
  | NOT : Instruction 1
  | ISZERO : Instruction 1
  | ADD : Instruction 2
  | SADD : Instruction 2
  | MUL : Instruction 2
  | SMUL : Instruction 2
  | SUB : Instruction 2
  | SSUB : Instruction 2
  | DIV : Instruction 2
  | SDIV : Instruction 2
  | MOD : Instruction 2
  | SMOD : Instruction 2
  | EXP : Instruction 2
  | LT : Instruction 2
  | GT : Instruction 2
  | SLT : Instruction 2
  | SGT : Instruction 2
  | EQ : Instruction 2
  | AND : Instruction 2
  | OR : Instruction 2
  | XOR : Instruction 2
  | BYTE : Instruction 2
  | SIGNEXTEND : Instruction 2
  | SHL : Instruction 2
  | SHR : Instruction 2
  | ADDMOD : Instruction 3
  | MULMOD : Instruction 3
  deriving DecidableEq, Repr

namespace Instruction

/-- A comparison result: the word `1` or the word `0`. -/
def bit (p : Prop) [Decidable p] : Word := if p then 1 else 0

/-- The reference semantics of the unary opcodes. -/
@[simp] def evalUnary : Instruction 1 → Word → Word
  | NOT, a => ~~~a
  | ISZERO, a => bit (a = 0)

/-- The reference semantics of the binary opcodes, operands in stack order (`SHL shift value`,
`BYTE index value`, `SIGNEXTEND bytes value`). -/
@[simp] def evalBinary : Instruction 2 → Word → Word → Word
  | ADD, a, b | SADD, a, b => a + b
  | MUL, a, b | SMUL, a, b => a * b
  | SUB, a, b | SSUB, a, b => a - b
  | DIV, a, b => a / b
  | SDIV, a, b => a.sdiv b
  | MOD, a, b => if b = 0 then 0 else a % b
  | SMOD, a, b => if b = 0 then 0 else a.srem b
  | EXP, a, b => a ^ b.toNat
  | LT, a, b => bit (a < b)
  | GT, a, b => bit (b < a)
  | SLT, a, b => bit (a.slt b)
  | SGT, a, b => bit (b.slt a)
  | EQ, a, b => bit (a = b)
  | AND, a, b => a &&& b
  | OR, a, b => a ||| b
  | XOR, a, b => a ^^^ b
  | BYTE, i, x => if i.toNat < 32 then (x.extractLsb' (8 * (31 - i.toNat)) 8).setWidth 256 else 0
  | SIGNEXTEND, k, x =>
      if k.toNat < 31 then (x.setWidth (8 * (k.toNat + 1))).signExtend 256 else x
  | SHL, s, x => x <<< s.toNat
  | SHR, s, x => x >>> s.toNat

/-- The reference semantics of the ternary opcodes: the sum or product is reduced at full
width. -/
@[simp] def evalTernary : Instruction 3 → Word → Word → Word → Word
  | ADDMOD, a, b, n => if n = 0 then 0 else BitVec.ofNat 256 ((a.toNat + b.toNat) % n.toNat)
  | MULMOD, a, b, n => if n = 0 then 0 else BitVec.ofNat 256 (a.toNat * b.toNat % n.toNat)

end Instruction

end Lity
