import Mathlib.Data.BitVec

/-!
**Words, and the integer conversions the rule lambdas perform.**

The folding lambdas of `libevmasm/RuleList.h` compute on `u256`, convert to `bigint` for
division, remainder and exponentiation, and read words as signed through `u2s`/`s2u`.  This
module models those conversions as the source spells them, and connects each to the
corresponding operation on `BitVec 256`, which is what the reference semantics
(`Lity.Semantics`) is written in.

Main definitions:

* `Lity.Word` — `u256`;
* `Lity.ViaBigint`, `Lity.divWorkaround`, `Lity.modWorkaround` — the workaround templates
  of the rule list, instantiated at `u256` and at `s256` (represented by its integer value);
* `Lity.u2s`, `Lity.s2u`, `Lity.powm` — the helpers of `libdevcore` and boost that the
  lambdas call; their code is not part of the sources, so they are modelled from the spec.

Main results:

* `Lity.u2s_eq_toInt`, `Lity.s2u_eq_ofInt` — the signed readings are `BitVec.toInt` and
  `BitVec.ofInt`;
* `Lity.divWorkaround_eq_udiv`, `Lity.modWorkaround_eq_umod` — on `u256` the workarounds are
  unsigned division and remainder;
* `Lity.s2u_divWorkaround`, `Lity.s2u_modWorkaround` — **the `SDIV` and `SMOD` lambdas
  compute `BitVec.sdiv` and `BitVec.srem`**, for every pair of words, the divisor `0` and
  `SDIV(-2^255, -1)` included;
* `Lity.powm_toNat` — the `EXP` lambda computes the power in the ring of words.
-/

set_option autoImplicit false

namespace Lity

/-- `u256`, the machine word. -/
abbrev Word := BitVec 256

/-! ### Conversions through `bigint` -/

/-- The integer types the workaround templates are instantiated at, with their conversions to
and from `bigint` (here `ℤ`).  Converting back truncates to 256 bits: modulo `2 ^ 256` for
`u256`, on the magnitude for the sign-magnitude `s256`. -/
class ViaBigint (S : Type) where
  toBigint : S → ℤ
  ofBigint : ℤ → S

instance : ViaBigint Word := ⟨fun a => a.toNat, BitVec.ofInt 256⟩

/-- `s256` is represented by its integer value. -/
instance : ViaBigint ℤ := ⟨id, fun x => x.tmod (2 ^ 256)⟩

/-- `divWorkaround`: the quotient computed on `bigint`, which rounds toward zero. -/
def divWorkaround {S : Type} [ViaBigint S] (a b : S) : S :=
  ViaBigint.ofBigint ((ViaBigint.toBigint a).tdiv (ViaBigint.toBigint b))

/-- `modWorkaround`: the remainder computed on `bigint`, which takes the sign of the dividend. -/
def modWorkaround {S : Type} [ViaBigint S] (a b : S) : S :=
  ViaBigint.ofBigint ((ViaBigint.toBigint a).tmod (ViaBigint.toBigint b))

/-- Modelled from the spec: `u2s` (the spec's `as_signed`), the two's-complement reading of a
word as an `s256`: a word with bit 255 set stands for `u - 2 ^ 256`. -/
def u2s (u : Word) : ℤ :=
  if u.getLsbD 255 then -((2 ^ 256 - u.toNat : ℕ) : ℤ) else u.toNat

/-- Modelled from the spec: `s2u` (the spec's `from_signed`), storing an `s256` as a word: a
negative value `s` is stored as `2 ^ 256 + s`. -/
def s2u (s : ℤ) : Word :=
  if 0 ≤ s then BitVec.ofInt 256 s else BitVec.ofInt 256 (2 ^ 256 + s)

/-- Modelled from the spec: `boost::multiprecision::powm`, modular exponentiation on
`bigint`. -/
def powm (a p m : ℤ) : ℤ := a ^ p.toNat % m

/-! ### The signed readings -/

theorem u2s_eq_toInt (u : Word) : u2s u = u.toInt := by
  have hm : u.getLsbD 255 = u.msb := (BitVec.msb_eq_getLsbD_last u).symm
  have hlt := u.isLt
  rw [u2s, hm, BitVec.toInt_eq_toNat_cond]
  cases h : u.msb
  · simp [BitVec.msb_eq_false_iff_two_mul_lt.1 h]
  · have := BitVec.msb_eq_true_iff_two_mul_ge.1 h
    rw [if_pos rfl, if_neg (by omega)]
    omega

theorem s2u_eq_ofInt (s : ℤ) : s2u s = BitVec.ofInt 256 s := by
  unfold s2u
  split
  · rfl
  · apply BitVec.eq_of_toNat_eq
    simp [BitVec.toNat_ofInt, Int.add_emod_self_left]

/-- Truncating the magnitude does not change the word an integer is stored as. -/
theorem ofInt_tmod (x : ℤ) : BitVec.ofInt 256 (x.tmod (2 ^ 256)) = BitVec.ofInt 256 x := by
  apply BitVec.eq_of_toNat_eq
  simp only [BitVec.toNat_ofInt, Int.tmod_def]
  omega

/-- A word with its top bit set reads as minus its two's-complement negation. -/
theorem toInt_of_msb (a : Word) (h : a.msb = true) : a.toInt = -(((-a).toNat : ℕ) : ℤ) := by
  have := BitVec.msb_eq_true_iff_two_mul_ge.1 h
  have hlt := a.isLt
  rw [BitVec.toInt_eq_toNat_cond, if_neg (by omega), BitVec.toNat_neg]
  omega

theorem toInt_of_not_msb (a : Word) (h : a.msb = false) : a.toInt = a.toNat := by
  rw [BitVec.toInt_eq_toNat_cond, if_pos (BitVec.msb_eq_false_iff_two_mul_lt.1 h)]

theorem ofInt_neg_natCast (k : ℕ) : BitVec.ofInt 256 (-(k : ℤ)) = -(BitVec.ofNat 256 k) := by
  apply BitVec.eq_of_toNat_eq
  simp only [BitVec.toNat_ofInt, BitVec.toNat_neg, BitVec.toNat_ofNat]
  omega

theorem tmod_neg_natCast (m n : ℕ) : (-(m : ℤ)).tmod n = -((m % n : ℕ) : ℤ) := by
  cases m <;> rfl

/-! ### Division and remainder -/

theorem udiv_eq_ofNat (x y : Word) : x.udiv y = BitVec.ofNat 256 (x.toNat / y.toNat) := by
  apply BitVec.eq_of_toNat_eq
  rw [BitVec.toNat_ofNat, Nat.mod_eq_of_lt (lt_of_le_of_lt (Nat.div_le_self _ _) x.isLt)]
  exact BitVec.toNat_udiv

theorem umod_eq_ofNat (x y : Word) : x.umod y = BitVec.ofNat 256 (x.toNat % y.toNat) := by
  apply BitVec.eq_of_toNat_eq
  rw [BitVec.toNat_ofNat, Nat.mod_eq_of_lt (lt_of_le_of_lt (Nat.mod_le _ _) x.isLt)]
  exact BitVec.toNat_umod

theorem divWorkaround_eq_udiv (a b : Word) : divWorkaround a b = a / b := by
  simp only [divWorkaround, ViaBigint.ofBigint, ViaBigint.toBigint, ← Int.ofNat_tdiv,
    BitVec.ofInt_natCast]
  exact (udiv_eq_ofNat a b).symm

theorem modWorkaround_eq_umod (a b : Word) : modWorkaround a b = a % b := by
  simp only [modWorkaround, ViaBigint.ofBigint, ViaBigint.toBigint, ← Int.ofNat_tmod,
    BitVec.ofInt_natCast]
  exact (umod_eq_ofNat a b).symm

/-- **The `SDIV` lambda is signed division rounding toward zero.** -/
theorem s2u_divWorkaround (a b : Word) : s2u (divWorkaround (u2s a) (u2s b)) = a.sdiv b := by
  simp only [s2u_eq_ofInt, u2s_eq_toInt, divWorkaround, ViaBigint.ofBigint, ViaBigint.toBigint,
    id, ofInt_tmod, BitVec.sdiv]
  cases ha : a.msb <;> cases hb : b.msb <;>
    simp only [toInt_of_msb, toInt_of_not_msb, ha, hb, Int.tdiv_neg, Int.neg_tdiv,
      Int.neg_neg, ← Int.ofNat_tdiv, ofInt_neg_natCast, BitVec.ofInt_natCast, udiv_eq_ofNat,
      BitVec.neg_eq]

/-- **The `SMOD` lambda is the remainder of signed division rounding toward zero.** -/
theorem s2u_modWorkaround (a b : Word) : s2u (modWorkaround (u2s a) (u2s b)) = a.srem b := by
  simp only [s2u_eq_ofInt, u2s_eq_toInt, modWorkaround, ViaBigint.ofBigint, ViaBigint.toBigint,
    id, ofInt_tmod, BitVec.srem]
  cases ha : a.msb <;> cases hb : b.msb <;>
    simp only [toInt_of_msb, toInt_of_not_msb, ha, hb, Int.tmod_neg, tmod_neg_natCast,
      ← Int.ofNat_tmod, ofInt_neg_natCast, BitVec.ofInt_natCast, umod_eq_ofNat, BitVec.neg_eq]

/-! ### Exponentiation -/

theorem toNat_pow (a : Word) (n : ℕ) : (a ^ n).toNat = a.toNat ^ n % 2 ^ 256 := by
  induction n with
  | zero => rfl
  | succ n ih => rw [pow_succ, BitVec.toNat_mul, ih, Nat.mod_mul_mod, ← Nat.pow_succ]

/-- The `EXP` lambda, `u256(powm(bigint(A), bigint(B), 2 ^ 256))`, is the power in the ring of
words. -/
theorem powm_toNat (a b : Word) :
    BitVec.ofInt 256 (powm a.toNat b.toNat (2 ^ 256)) = a ^ b.toNat := by
  have hcast : ((a.toNat : ℤ) ^ b.toNat % 2 ^ 256) = ((a.toNat ^ b.toNat % 2 ^ 256 : ℕ) : ℤ) := by
    push_cast; rfl
  rw [powm, Int.toNat_ofNat, hcast, BitVec.ofInt_natCast]
  apply BitVec.eq_of_toNat_eq
  rw [toNat_pow, BitVec.toNat_ofNat, Nat.mod_mod]

end Lity
