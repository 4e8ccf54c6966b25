import Mathlib.Data.Finset.Basic
import Mathlib.Data.Nat.ModEq

/-!
**The declarations of the AST, their node ids, and where a variable may live
(`ASTNode::ASTNode`, `ASTNode::resetID`, the predicates of `VariableDeclaration` and
`VariableDeclaration::allowedDataLocations`).**

Every AST node takes the next id of a static counter when it is constructed, and
`ASTNode::resetID` sets the counter back.  The counter is a `size_t`, whose width depends on the
target (`RuleList.h` names an emscripten build, where it has 32 bits), so the width is a
parameter.  Between two resets the ids are distinct as long as the counter does not wrap around
(`Lity.IDDispenser.run_construct`, `Lity.IDDispenser.nodup_run_replicate_construct`), and the
model uses a node's id for its identity where the code compares pointers: a variable declaration
is a parameter of its scope when its id is among the scope's parameters, and a function type
records the id of the declaration it was built from.

The predicates of `VariableDeclaration` look at the declaration's scope through
`dynamic_cast`s; the scope is modelled by what those casts find, with the parameter lists and the
visibility that the predicates read (`Lity.Scope`).  `allowedDataLocations` decides from them
which data locations a variable may be declared with.  What the answer always satisfies is
`Lity.VariableDeclaration.AllowedLocations`; in particular a state variable is never allowed
memory, so the function's second branch, for a constant state variable in memory, is dead: the
first branch already answers for every state variable.

The header `AST.h` is not among the sources: the fields of the records below are what the
modelled functions read of it, taken as given.

Main definitions:

* `Lity.IDDispenser`, `Lity.IDDispenser.run`;
* `Lity.Visibility`, `Lity.Location`, `Lity.Scope`, `Lity.Declaration`,
  `Lity.VariableDeclaration`, `Lity.FunctionDefinition`, `Lity.EventDefinition`,
  `Lity.ContractDefinition`;
* `Lity.VariableDeclaration.allowedDataLocations` and the predicates it calls;
* `Lity.VariableDeclaration.AllowedLocations` — what an allowed set of locations satisfies.

Main results:

* `Lity.IDDispenser.run_construct` — the nodes constructed after a reset get the ids
  `1, 2, …, n`;
* `Lity.IDDispenser.nodup_run_replicate_construct` — without a reset, the ids are distinct for
  exactly `2 ^ w` constructions in a row;
* `Lity.VariableDeclaration.allowedDataLocations_allowedLocations` — **the allowed locations
  are never empty, an unspecified location is allowed alone, calldata only for the parameters
  of external callables, and memory or storage only for local variables**; and the function
  fails exactly when the type name is missing or unresolved.
-/

set_option autoImplicit false

namespace Lity

/-! ### Node ids -/

/-- The static `IDDispenser`: the last id it handed out. -/
structure IDDispenser where
  id : ℕ
  deriving DecidableEq, Repr

namespace IDDispenser

variable (w : ℕ)

/-- `IDDispenser::next`: `++id`, on a `size_t` of `w` bits. -/
def next (d : IDDispenser) : ℕ × IDDispenser :=
  ((d.id + 1) % 2 ^ w, ⟨(d.id + 1) % 2 ^ w⟩)

/-- What happens to the counter: a node is constructed (`ASTNode::ASTNode`), or
`ASTNode::resetID` is called. -/
inductive Event where
  | construct
  | resetID
  deriving DecidableEq, Repr

/-- One event: the id the constructed node receives, if a node is constructed, and the counter
after it. -/
def step (d : IDDispenser) : Event → Option ℕ × IDDispenser
  | .construct => (((d.next w).1 : Option ℕ), (d.next w).2)
  | .resetID => (none, ⟨0⟩)

/-- A run of events: the ids handed out, in order, and the counter at the end. -/
def run : IDDispenser → List Event → List ℕ × IDDispenser
  | d, [] => ([], d)
  | d, ev :: evs =>
      ((step w d ev).1.toList ++ (run (step w d ev).2 evs).1, (run (step w d ev).2 evs).2)

variable {w}

/-- **Constructing `n` nodes hands out the next `n` ids**, as long as the counter does not wrap
around. -/
theorem run_replicate_construct (n : ℕ) :
    ∀ d : IDDispenser, d.id + n < 2 ^ w →
      run w d (List.replicate n .construct) = ((List.range n).map (d.id + · + 1), ⟨d.id + n⟩) := by
  induction n with
  | zero => intro d _; rfl
  | succ n ih =>
      intro d hd
      have hnext : (d.id + 1) % 2 ^ w = d.id + 1 := Nat.mod_eq_of_lt (by omega)
      rw [List.replicate_succ, run, step, next, hnext, ih ⟨d.id + 1⟩ (by simp only; omega),
        List.range_succ_eq_map]
      simp only [Option.toList_some, List.map_cons, List.map_map, Prod.mk.injEq,
        IDDispenser.mk.injEq]
      refine ⟨?_, by omega⟩
      simp only [List.singleton_append, List.cons.injEq, Function.comp_def, true_and]
      exact List.map_congr_left fun k _ => by omega

/-- **After a reset, the nodes constructed get the ids `1, …, n`**, which are distinct. -/
theorem run_construct (w : ℕ) (d : IDDispenser) (n : ℕ) (hn : n < 2 ^ w) :
    (run w d (.resetID :: List.replicate n .construct)).1 = (List.range n).map (· + 1) ∧
      ((run w d (.resetID :: List.replicate n .construct)).1).Nodup := by
  have h := run_replicate_construct n ⟨0⟩ (by simpa using hn)
  have hrun : (run w d (.resetID :: List.replicate n .construct)).1 =
      (List.range n).map (· + 1) := by
    simp only [run, step, Option.toList_none, List.nil_append, h, zero_add]
  exact ⟨hrun, hrun ▸ (List.nodup_range n).map fun _ _ => Nat.succ.inj⟩

/-- Three nodes constructed after a reset get the ids `1`, `2`, `3`, also with a 32-bit
counter. -/
theorem run_construct_three :
    (3 : ℕ) < 2 ^ 32 ∧
      (run 32 ⟨5⟩ (.resetID :: List.replicate 3 .construct)).1 = (List.range 3).map (· + 1) ∧
        ((run 32 ⟨5⟩ (.resetID :: List.replicate 3 .construct)).1).Nodup :=
  ⟨by decide, run_construct 32 ⟨5⟩ 3 (by decide)⟩

/-- Constructing `n` nodes from any state hands out the next `n` values of the `w`-bit
counter. -/
theorem run_replicate_construct_mod (n : ℕ) :
    ∀ d : IDDispenser, (run w d (List.replicate n .construct)).1 =
      (List.range n).map fun k => (d.id + k + 1) % 2 ^ w := by
  induction n with
  | zero => intro d; rfl
  | succ n ih =>
      intro d
      rw [List.replicate_succ, run, step, next, ih, List.range_succ_eq_map]
      simp only [Option.toList_some, List.singleton_append, List.map_cons, List.map_map,
        Function.comp_def, List.cons.injEq, true_and, add_assoc, Nat.mod_add_mod]
      exact List.map_congr_left fun k _ => congrArg (· % 2 ^ w) (by omega)

/-- **Without a reset, the dispenser hands out distinct ids for exactly `2 ^ w` constructions in a
row**, from any state: the `size_t` counter wraps around, and `2 ^ w` constructions later it
hands out the first id again. -/
theorem nodup_run_replicate_construct (w : ℕ) (d : IDDispenser) (n : ℕ) :
    (run w d (List.replicate n .construct)).1.Nodup ↔ n ≤ 2 ^ w := by
  have hw := Nat.two_pow_pos w
  rw [run_replicate_construct_mod]
  constructor
  · intro h
    by_contra hn
    have := List.inj_on_of_nodup_map h (List.mem_range.2 (show 0 < n by omega))
      (List.mem_range.2 (show 2 ^ w < n by omega))
      (by rw [add_zero, add_right_comm, Nat.add_mod_right])
    omega
  · intro hn
    exact (List.nodup_range n).map_on fun k hk k' hk' h => by
      rw [List.mem_range] at hk hk'
      have h' : k ≡ k' [MOD 2 ^ w] :=
        Nat.ModEq.add_left_cancel' (d.id + 1) (by simpa only [add_right_comm _ _ 1] using h)
      rwa [Nat.ModEq, Nat.mod_eq_of_lt (by omega), Nat.mod_eq_of_lt (by omega)] at h'

end IDDispenser

/-! ### Declarations -/

/-- `Declaration::Visibility`, in its declaration order, which `<=` compares. -/
inductive Visibility where
  | Default
  | Private
  | Internal
  | Public
  | External
  deriving DecidableEq, Repr

instance : LE Visibility := ⟨fun a b => a.toCtorIdx ≤ b.toCtorIdx⟩

instance (a b : Visibility) : Decidable (a ≤ b) :=
  inferInstanceAs (Decidable (a.toCtorIdx ≤ b.toCtorIdx))

/-- `VariableDeclaration::Location`. -/
inductive Location where
  | Unspecified
  | Storage
  | Memory
  | CallData
  deriving DecidableEq, Repr

/-- What the data locations read of a resolved type: a mapping, a reference type, or another
type. -/
inductive TypeKind where
  | mapping
  | reference
  | value
  deriving DecidableEq, Repr

/-- A variable's `typeName()`, with its resolved type `annotation().type`, if there is one. -/
structure TypeName where
  type : Option TypeKind
  deriving DecidableEq, Repr

/-- The kind of a `CallableDeclaration`; of a function, whether its contract is a library. -/
inductive CallableKind where
  | functionDefinition (isLibrary : Bool)
  | modifierDefinition
  | eventDefinition
  deriving DecidableEq, Repr

/-- A variable declaration's `scope()`, as the `dynamic_cast`s of its predicates see it.  The
parameter lists hold node ids. -/
inductive Scope where
  /-- A `FunctionTypeName`: `parameterTypes()`, `returnParameterTypes()`, `visibility()`. -/
  | functionTypeName (parameterTypes returnParameterTypes : List ℕ) (visibility : Visibility)
  /-- A `CallableDeclaration`: `parameters()`, the parameters of `returnParameterList()` when
  there is one, `visibility()`. -/
  | callable (kind : CallableKind) (parameters : List ℕ) (returnParameters : Option (List ℕ))
      (visibility : Visibility)
  | block
  | forStatement
  /-- Any other scope: a contract, a struct, a source unit. -/
  | other
  deriving DecidableEq, Repr

/-- A function type, as far as the interface reads it: the id of the declaration it was built
from (`declaration()`), whether `interfaceFunctionType()` is not null, and
`externalSignature()`. -/
structure FunctionType where
  declaration : ℕ
  hasInterfaceFunctionType : Bool
  externalSignature : String
  deriving DecidableEq, Repr

/-- What a member's `Declaration` base tells the loops modelled here: its node id (`id()`),
`name()` and `isVisibleInDerivedContracts()`. -/
structure Declaration where
  id : ℕ
  name : String
  isVisibleInDerivedContracts : Bool
  deriving DecidableEq, Repr

/-- A function definition, with the function type `FunctionType(*f, false, false)`, which is
built from it. -/
structure FunctionDefinition extends Declaration where
  isConstructor : Bool
  isFallback : Bool
  isPublic : Bool
  isPartOfExternalInterface : Bool
  functionType : FunctionType
  functionType_declaration : functionType.declaration = id
  deriving DecidableEq, Repr

/-- A variable declaration: its scope, whether it is a state variable and a constant, its type
name, and, for the interface of its contract, whether it is part of it and its accessor's
function type `FunctionType(*v)`, which is built from it. -/
structure VariableDeclaration extends Declaration where
  scope : Scope
  isStateVariable : Bool
  isConstant : Bool
  typeName : Option TypeName
  isPartOfExternalInterface : Bool
  functionType : FunctionType
  functionType_declaration : functionType.declaration = id
  deriving DecidableEq, Repr

/-- A struct definition, of which the loops read the declaration only. -/
structure StructDefinition extends Declaration
  deriving DecidableEq, Repr

/-- An enum definition, of which the loops read the declaration only. -/
structure EnumDefinition extends Declaration
  deriving DecidableEq, Repr

/-- An event, with its internal function type `functionType(true)`, which is built from it. -/
structure EventDefinition extends Declaration where
  functionType : FunctionType
  functionType_declaration : functionType.declaration = id
  deriving DecidableEq, Repr

/-- A contract's own members, in the order of its nodes; its linearization
(`annotation().linearizedBaseContracts`), the contract itself and then its bases, most derived
first, is a list of contracts passed alongside. -/
structure ContractDefinition where
  definedFunctions : List FunctionDefinition
  stateVariables : List VariableDeclaration
  definedStructs : List StructDefinition
  definedEnums : List EnumDefinition
  events : List EventDefinition
  deriving DecidableEq, Repr

/-! ### Variable declarations -/

namespace VariableDeclaration

variable (v : VariableDeclaration)

/-- `isLocalVariable`: the scope is a function type name, a callable, a block or a `for`
statement. -/
def isLocalVariable : Bool :=
  match v.scope with
  | .functionTypeName .. | .callable .. | .block | .forStatement => true
  | .other => false

/-- `isReturnParameter`: the declaration is among the return parameters of its scope. -/
def isReturnParameter : Bool :=
  let returnParameters : Option (List ℕ) :=
    match v.scope with
    | .functionTypeName _ returnParameterTypes _ => some returnParameterTypes
    | .callable _ _ returnParameters _ => returnParameters
    | _ => none
  match returnParameters with
  | some ps => decide (v.id ∈ ps)
  | none => false

/-- `isCallableParameter`: a return parameter, or among the parameters of its scope. -/
def isCallableParameter : Bool :=
  if v.isReturnParameter then true
  else
    let parameters : Option (List ℕ) :=
      match v.scope with
      | .functionTypeName parameterTypes _ _ => some parameterTypes
      | .callable _ parameters _ _ => some parameters
      | _ => none
    match parameters with
    | some ps => decide (v.id ∈ ps)
    | none => false

/-- `isLocalOrReturn`. -/
def isLocalOrReturn : Bool := v.isReturnParameter || (v.isLocalVariable && !v.isCallableParameter)

/-- `isExternalCallableParameter`: a parameter, not a return parameter, of an external
callable. -/
def isExternalCallableParameter : Bool :=
  if !v.isCallableParameter then false
  else
    match v.scope with
    | .callable _ _ _ visibility => if visibility = .External then !v.isReturnParameter else false
    | _ => false

/-- `isInternalCallableParameter`: a parameter of an internal function type, or of a callable
at most internal. -/
def isInternalCallableParameter : Bool :=
  if !v.isCallableParameter then false
  else
    match v.scope with
    | .functionTypeName _ _ visibility => visibility = .Internal
    | .callable _ _ _ visibility => visibility ≤ .Internal
    | _ => false

/-- `isLibraryFunctionParameter`: a parameter of a function of a library. -/
def isLibraryFunctionParameter : Bool :=
  if !v.isCallableParameter then false
  else
    match v.scope with
    | .callable (.functionDefinition isLibrary) _ _ _ => isLibrary
    | _ => false

/-- `isEventParameter`: the scope is an event. -/
def isEventParameter : Bool :=
  match v.scope with
  | .callable .eventDefinition _ _ _ => true
  | _ => false

/-- `isLValue`: the parameters of external callables and constants are read-only. -/
def isLValue : Bool := !v.isExternalCallableParameter && !v.isConstant

/-- The two assertions on the type name, `solAssert(typeName(), "")` and
`solAssert(typeName()->annotation().type, ...)`, and the type they then read. -/
def annotatedType : Except String TypeKind :=
  match v.typeName with
  | none => .error ""
  | some typeName =>
      match typeName.type with
      | none => .error "Can only be called after reference resolution"
      | some type => .ok type

/-- `hasReferenceOrMappingType`. -/
def hasReferenceOrMappingType : Except String Bool := do
  let type ← v.annotatedType
  return type = .mapping || type = .reference

/-- `allowedDataLocations`. -/
def allowedDataLocations : Except String (Finset Location) := do
  if !(← v.hasReferenceOrMappingType) || v.isStateVariable || v.isEventParameter then
    return {.Unspecified}
  else if v.isStateVariable && v.isConstant then
    return {.Memory}
  else if v.isExternalCallableParameter then
    let locations : Finset Location := {.CallData}
    return if v.isLibraryFunctionParameter then insert .Storage locations else locations
  else if v.isCallableParameter then
    let locations : Finset Location := {.Memory}
    return if v.isInternalCallableParameter || v.isLibraryFunctionParameter then
      insert .Storage locations else locations
  else if v.isLocalVariable then
    let type ← v.annotatedType
    return if type = .mapping then {.Storage} else {.Memory, .Storage}
  else
    return {.Unspecified}

/-- A parameter of a callable declaration or function type is a local variable. -/
theorem isLocalVariable_of_isCallableParameter (h : v.isCallableParameter = true) :
    v.isLocalVariable = true := by
  rcases hs : v.scope <;> simp_all [isCallableParameter, isReturnParameter, isLocalVariable]

theorem isCallableParameter_of_isExternalCallableParameter
    (h : v.isExternalCallableParameter = true) : v.isCallableParameter = true := by
  by_contra hc
  simp [isExternalCallableParameter, hc] at h

/-- What the set of locations allowed for `v` satisfies: it is not empty, an unspecified
location comes alone, calldata is for the parameters of external callables, and memory and
storage are for local variables only, never for state variables or event parameters. -/
structure AllowedLocations (L : Finset Location) : Prop where
  nonempty : L.Nonempty
  unspecified : Location.Unspecified ∈ L → L = {Location.Unspecified}
  callData : Location.CallData ∈ L → v.isExternalCallableParameter = true
  memoryOrStorage : Location.Memory ∈ L ∨ Location.Storage ∈ L →
    v.isLocalVariable = true ∧ v.isStateVariable = false ∧ v.isEventParameter = false

theorem allowedLocations_unspecified : AllowedLocations v {Location.Unspecified} :=
  ⟨Finset.singleton_nonempty _, fun _ => rfl, by simp, by simp⟩

/-- A set of locations without `Unspecified`, and with calldata only for an external
parameter, is allowed for a local variable that is no state variable or event parameter. -/
theorem allowedLocations_of_isLocalVariable (hl : v.isLocalVariable = true)
    (hs : v.isStateVariable = false) (he : v.isEventParameter = false) {L : Finset Location}
    (hne : L.Nonempty) (hU : Location.Unspecified ∉ L)
    (hC : Location.CallData ∈ L → v.isExternalCallableParameter = true) :
    AllowedLocations v L :=
  ⟨hne, fun h => absurd h hU, hC, fun _ => ⟨hl, hs, he⟩⟩

/-- **The allowed locations satisfy `AllowedLocations`, and the function fails exactly when,
and with the message with which, the type name is missing or unresolved**: the assertions of
the local-variable branch never fail. -/
theorem allowedDataLocations_allowedLocations :
    (∀ L, v.allowedDataLocations = .ok L → AllowedLocations v L) ∧
      ∀ msg, v.allowedDataLocations = .error msg ↔ v.annotatedType = .error msg := by
  rcases ht : v.annotatedType with msg | type
  · simp [allowedDataLocations, hasReferenceOrMappingType, ht, bind, Except.bind]
  have key : ∃ L, v.allowedDataLocations = .ok L ∧ AllowedLocations v L := by
    simp only [allowedDataLocations, hasReferenceOrMappingType, ht, bind, Except.bind, pure,
      Except.pure]
    split
    · exact ⟨_, rfl, allowedLocations_unspecified v⟩
    rename_i h₁
    obtain ⟨⟨-, hs⟩, he⟩ : (_ ∧ v.isStateVariable = false) ∧ v.isEventParameter = false := by
      simpa [not_or] using h₁
    split
    · simp_all
    split
    · rename_i h₃
      have hl := isLocalVariable_of_isCallableParameter v
        (isCallableParameter_of_isExternalCallableParameter v h₃)
      exact ⟨_, rfl, allowedLocations_of_isLocalVariable v hl hs he (by split <;> decide)
        (by split <;> decide) fun _ => h₃⟩
    split
    · rename_i h₄
      exact ⟨_, rfl, allowedLocations_of_isLocalVariable v
        (isLocalVariable_of_isCallableParameter v h₄) hs he (by split <;> decide)
        (by split <;> decide) fun h => absurd h (by split <;> decide)⟩
    split
    · rename_i h₅
      exact ⟨_, rfl, allowedLocations_of_isLocalVariable v h₅ hs he (by split <;> decide)
        (by split <;> decide) fun h => absurd h (by split <;> decide)⟩
    · exact ⟨_, rfl, allowedLocations_unspecified v⟩
  obtain ⟨L, hL, hA⟩ := key
  rw [hL]
  exact ⟨fun L' hL' => Except.ok.inj hL' ▸ hA, fun msg => by simp⟩

end VariableDeclaration

end Lity
