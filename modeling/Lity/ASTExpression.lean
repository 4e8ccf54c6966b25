import Mathlib.Data.List.Basic

/-!
**Expression nodes of the AST: `replaceChild` and the address literals.**

The expression nodes that can be rewritten in place have a `replaceChild(oldExp, newExp)`
method, which compares each of its child pointers with `oldExp` and replaces the ones that are
equal.  The methods are one pattern repeated (`Lity.replaceIfEqual`), with two exceptions:
`NewExpression::replaceChild` does nothing, as a `new` expression has no child expression, and
`FunctionCall::replaceChild` replaces the called expression but never looks at the arguments.
Children are node ids here, as pointer identity is node identity (`Lity.IDDispenser.run_construct`),
and a null pointer is `none`.

* `Lity.ExpressionNode.children_replaceChild` — every node but a call replaces its children
  equal to `oldExp` and keeps the others;
* `Lity.ExpressionNode.mem_children_replaceChild` — **after `replaceChild(oldExp, newExp)` with
  `newExp` another expression, `oldExp` is still a child exactly when the node is a function call
  that has it among its arguments**.

A number literal written in hexadecimal that is about as long as an address, 40 hexadecimal
digits after `0x`, "looks like an address" (`Literal::looksLikeAddress`), and
`Literal::getChecksummedAddress` pads its digits with zeros to 40 for the checksum, or gives up
when there are more than 40.  Underscores, which separate digits, are removed first.

* `Lity.Literal.getChecksummedAddress_of_looksLikeAddress` — **a literal that looks like an
  address has 39, 40 or 41 digits; with 39 or 40 the checksum is computed on exactly 40, the
  digits with zeros before them, and with 41 the result is the empty string**.
-/

set_option autoImplicit false

namespace Lity

/-! ### `replaceChild` -/

/-- `if (m_child.get() == oldExp) m_child = newExp;`, the assignment the `replaceChild` methods
make to each child pointer they look at. -/
def replaceIfEqual (oldExp newExp child : Option ℕ) : Option ℕ :=
  if child = oldExp then newExp else child

/-- The expression nodes with a `replaceChild` method, with their child expressions by id. -/
inductive ExpressionNode where
  | fieldExpression (expression : Option ℕ)
  | conditional (condition trueExpression falseExpression : Option ℕ)
  | assignment (leftHandSide rightHandSide : Option ℕ)
  | tupleExpression (components : List (Option ℕ))
  | unaryOperation (subExpression : Option ℕ)
  | binaryOperation (left right : Option ℕ)
  | functionCall (expression : Option ℕ) (arguments : List (Option ℕ))
  | newExpression
  | memberAccess (expression : Option ℕ)
  | indexAccess (base index : Option ℕ)
  deriving DecidableEq, Repr

namespace ExpressionNode

/-- The child expressions of a node, in the order of its fields. -/
def children : ExpressionNode → List (Option ℕ)
  | fieldExpression expression => [expression]
  | conditional condition trueExpression falseExpression =>
      [condition, trueExpression, falseExpression]
  | assignment leftHandSide rightHandSide => [leftHandSide, rightHandSide]
  | tupleExpression components => components
  | unaryOperation subExpression => [subExpression]
  | binaryOperation left right => [left, right]
  | functionCall expression arguments => expression :: arguments
  | newExpression => []
  | memberAccess expression => [expression]
  | indexAccess base index => [base, index]

/-- The `replaceChild` methods of `FieldExpression`, `Conditional`, `Assignment`,
`TupleExpression`, `UnaryOperation`, `BinaryOperation`, `FunctionCall`, `NewExpression`,
`MemberAccess` and `IndexAccess`. -/
def replaceChild (oldExp newExp : Option ℕ) : ExpressionNode → ExpressionNode
  | fieldExpression expression => fieldExpression (replaceIfEqual oldExp newExp expression)
  | conditional condition trueExpression falseExpression =>
      conditional (replaceIfEqual oldExp newExp condition)
        (replaceIfEqual oldExp newExp trueExpression) (replaceIfEqual oldExp newExp falseExpression)
  | assignment leftHandSide rightHandSide =>
      assignment (replaceIfEqual oldExp newExp leftHandSide)
        (replaceIfEqual oldExp newExp rightHandSide)
  | tupleExpression components => tupleExpression (components.map (replaceIfEqual oldExp newExp))
  | unaryOperation subExpression => unaryOperation (replaceIfEqual oldExp newExp subExpression)
  | binaryOperation left right =>
      binaryOperation (replaceIfEqual oldExp newExp left) (replaceIfEqual oldExp newExp right)
  | functionCall expression arguments =>
      functionCall (replaceIfEqual oldExp newExp expression) arguments
  | newExpression => newExpression
  | memberAccess expression => memberAccess (replaceIfEqual oldExp newExp expression)
  | indexAccess base index =>
      indexAccess (replaceIfEqual oldExp newExp base) (replaceIfEqual oldExp newExp index)

/-- Every method but the call's replaces each child equal to `oldExp` and keeps the others. -/
theorem children_replaceChild (oldExp newExp : Option ℕ) (n : ExpressionNode)
    (hn : ∀ expression arguments, n ≠ functionCall expression arguments) :
    (n.replaceChild oldExp newExp).children = n.children.map (replaceIfEqual oldExp newExp) := by
  cases n with
  | functionCall expression arguments => exact absurd rfl (hn expression arguments)
  | _ => rfl

/-- A call replaces its called expression and keeps its arguments. -/
theorem children_replaceChild_functionCall (oldExp newExp expression : Option ℕ)
    (arguments : List (Option ℕ)) :
    ((functionCall expression arguments).replaceChild oldExp newExp).children =
      replaceIfEqual oldExp newExp expression :: arguments := rfl

theorem replaceIfEqual_ne {oldExp newExp : Option ℕ} (hne : newExp ≠ oldExp) (c : Option ℕ) :
    replaceIfEqual oldExp newExp c ≠ oldExp := by
  unfold replaceIfEqual
  split <;> assumption

theorem not_mem_map_replaceIfEqual {oldExp newExp : Option ℕ} (hne : newExp ≠ oldExp)
    (l : List (Option ℕ)) : oldExp ∉ l.map (replaceIfEqual oldExp newExp) := by
  simp only [List.mem_map, not_exists, not_and]
  exact fun c _ => replaceIfEqual_ne hne c

/-- **After `replaceChild(oldExp, newExp)`, with `newExp` another expression, `oldExp` is still a
child exactly when the node is a function call with `oldExp` among its arguments**: the other
methods replace every occurrence, and the call's never looks at its arguments. -/
theorem mem_children_replaceChild (oldExp newExp : Option ℕ) (hne : newExp ≠ oldExp)
    (n : ExpressionNode) :
    oldExp ∈ (n.replaceChild oldExp newExp).children ↔
      ∃ expression arguments, n = functionCall expression arguments ∧ oldExp ∈ arguments := by
  by_cases hn : ∃ expression arguments, n = functionCall expression arguments
  · obtain ⟨expression, arguments, rfl⟩ := hn
    rw [children_replaceChild_functionCall, List.mem_cons]
    simp only [functionCall.injEq]
    constructor
    · rintro (h | h)
      · exact absurd h.symm (replaceIfEqual_ne hne expression)
      · exact ⟨_, _, ⟨rfl, rfl⟩, h⟩
    · rintro ⟨_, _, ⟨rfl, rfl⟩, h⟩
      exact .inr h
  · push_neg at hn
    rw [children_replaceChild oldExp newExp n hn]
    exact iff_of_false (not_mem_map_replaceIfEqual hne _) fun ⟨e, a, h, _⟩ => hn e a h

/-- A call `f(x)` in which `x` is replaced keeps `x` as its argument. -/
theorem mem_children_replaceChild_call :
    some 2 ≠ some 1 ∧
      (some 1 ∈ ((functionCall (some 0) [some 1]).replaceChild (some 1) (some 2)).children ↔
        ∃ expression arguments, functionCall (some 0) [some 1] = functionCall expression arguments ∧
          some 1 ∈ arguments) :=
  ⟨by decide, mem_children_replaceChild (some 1) (some 2) (by decide) _⟩

end ExpressionNode

/-! ### Address literals -/

/-- A literal's `token()`: a number, or another token. -/
inductive Token where
  | Number
  | other
  deriving DecidableEq, Repr

/-- A literal's `subDenomination()`: none, or a unit such as `ether` or `days`. -/
inductive SubDenomination where
  | None
  | other
  deriving DecidableEq, Repr

/-- A literal: its token, its text `value()`, and its unit. -/
structure Literal where
  token : Token
  value : List Char
  subDenomination : SubDenomination
  deriving DecidableEq, Repr

namespace Literal

variable (l : Literal)

/-- `valueWithoutUnderscores`: `boost::erase_all_copy(value(), "_")`. -/
def valueWithoutUnderscores : List Char := l.value.filter (· ≠ '_')

/-- `isHexNumber`: a number whose text starts with `0x`. -/
def isHexNumber : Bool := l.token = .Number && ['0', 'x'].isPrefixOf l.value

/-- `looksLikeAddress`: a hexadecimal number without unit whose text without underscores has
41 to 43 characters. -/
def looksLikeAddress : Bool :=
  l.subDenomination = .None && l.isHexNumber &&
    decide ((((l.valueWithoutUnderscores.length : ℤ) - 42).natAbs) ≤ 1)

/-- `passesAddressChecksum`, given `dev::passesAddressChecksum`. -/
def passesAddressChecksum (passes : List Char → Bool → Bool) : Except String Bool :=
  if l.isHexNumber then .ok (passes l.valueWithoutUnderscores true) else .error "Expected hex number"

/-- `getChecksummedAddress`, given `dev::getChecksummedAddress`: the digits after `0x` (`substr(2)`),
nothing when there are more than 40 of them, and otherwise the checksum of the digits padded on
the left with zeros to 40. -/
def getChecksummedAddress (checksum : List Char → List Char) : Except String (List Char) :=
  if !l.isHexNumber then .error "Expected hex number"
  else
    let address := l.valueWithoutUnderscores.drop 2
    if address.length > 40 then .ok []
    else .ok (checksum (List.replicate (40 - address.length) '0' ++ address))

variable {l}

/-- The text of a hexadecimal number keeps its `0x` when the underscores are removed, so
`substr(2)` drops exactly that prefix. -/
theorem valueWithoutUnderscores_of_isHexNumber (h : l.isHexNumber = true) :
    l.valueWithoutUnderscores = '0' :: 'x' :: (l.value.drop 2).filter (· ≠ '_') := by
  obtain ⟨-, hp⟩ := Bool.and_eq_true_iff.1 h
  obtain ⟨rest, hrest⟩ := List.isPrefixOf_iff_prefix.1 hp
  rw [valueWithoutUnderscores, ← hrest]
  rfl

/-- **A literal that looks like an address has 39, 40 or 41 digits after `0x`.  With 39 or 40 the
checksum is computed on exactly 40, the digits with zeros before them; with 41 the result is the
empty string.** -/
theorem getChecksummedAddress_of_looksLikeAddress (checksum : List Char → List Char)
    (h : l.looksLikeAddress = true) :
    let address := (l.value.drop 2).filter (· ≠ '_')
    (address.length = 41 ∧ l.getChecksummedAddress checksum = .ok []) ∨
      ((address.length = 39 ∨ address.length = 40) ∧
        (List.replicate (40 - address.length) '0' ++ address).length = 40 ∧
        l.getChecksummedAddress checksum =
          .ok (checksum (List.replicate (40 - address.length) '0' ++ address))) := by
  intro address
  have ha : (l.value.drop 2).filter (· ≠ '_') = address := rfl
  simp only [looksLikeAddress, Bool.and_eq_true, decide_eq_true_eq] at h
  obtain ⟨⟨-, hhex⟩, hlen⟩ := h
  have hv := valueWithoutUnderscores_of_isHexNumber hhex
  have hdrop : l.valueWithoutUnderscores.drop 2 = address := by rw [hv]; rfl
  rw [hv, List.length_cons, List.length_cons, ha] at hlen
  have hrange : 39 ≤ address.length ∧ address.length ≤ 41 := by omega
  simp only [getChecksummedAddress, hhex, Bool.not_true, hdrop]
  by_cases h41 : address.length = 41
  · exact .inl ⟨h41, by simp [h41]⟩
  · refine .inr ⟨by omega, by simp only [List.length_append, List.length_replicate]; omega, ?_⟩
    simp [show ¬ address.length > 40 by omega]

/-- `0x` followed by 41 digits looks like an address and has no checksummed form. -/
theorem getChecksummedAddress_of_looksLikeAddress_long :
    (⟨.Number, '0' :: 'x' :: List.replicate 41 'a', .None⟩ : Literal).looksLikeAddress = true ∧
      let address := ((⟨.Number, '0' :: 'x' :: List.replicate 41 'a', .None⟩ : Literal).value.drop 2).filter
        (· ≠ '_')
      (address.length = 41 ∧
          (⟨.Number, '0' :: 'x' :: List.replicate 41 'a', .None⟩ : Literal).getChecksummedAddress id =
            .ok []) ∨
        ((address.length = 39 ∨ address.length = 40) ∧
          (List.replicate (40 - address.length) '0' ++ address).length = 40 ∧
          (⟨.Number, '0' :: 'x' :: List.replicate 41 'a', .None⟩ : Literal).getChecksummedAddress id =
            .ok (id (List.replicate (40 - address.length) '0' ++ address))) :=
  ⟨by decide, getChecksummedAddress_of_looksLikeAddress id (by decide)⟩

end Literal

end Lity
