import Lity.AST
import Lity.Word

/-!
**The members and the external interface of a contract (`ContractDefinition::interfaceFunctionList`,
`interfaceEvents`, `interfaceFunctions`, `inheritableMembers`).**

A contract's interface is collected along its linearization, most derived contract first.  For
functions, each contract contributes its defined functions and then its state variables that
are part of the external interface, as function types; a type without an interface function
type is skipped, and each external signature is kept the first time it is seen, with the first
four bytes of its Keccak-256 hash.  Events are collected the same way by signature.  The map
`interfaceFunctions` is built from the list, and asserts that no two signatures share a hash.
The members a derived contract inherits are collected the same way by name, over the contract's
own functions, state variables, structs, enums and events, skipping those not visible in
derived contracts.

The function types, the Keccak-256 hash and `FixedHash` are not part of the sources modelled
here: a function type is the id of the declaration it was built from, its external signature and
whether it has an interface function type, and the hash is a parameter; of a member's
declaration the loops read its id, its name and whether it is visible in derived contracts.  The
ids make the kept candidate observable: of a function the derived contract overrides, the list
holds the derived contract's own.  All these loops keep what `Lity.addIfUnseen` keeps, once the
skipped elements are filtered out (`Lity.foldl_eq_foldl_filter`); what that is, is said by
`Lity.firstOccurrences`, which follows the specification: the elements whose signature no
earlier element has (`Lity.find?_of_mem_firstOccurrences`), one per signature
(`Lity.nodup_map_firstOccurrences`, `Lity.mem_map_firstOccurrences`), in order
(`Lity.firstOccurrences_sublist`).

Main definitions:

* `Lity.ContractDefinition.interfaceFunctionList`, `Lity.ContractDefinition.interfaceEvents`,
  `Lity.ContractDefinition.interfaceFunctions`, `Lity.ContractDefinition.inheritableMembers`,
  `Lity.ContractDefinition.constructor`, `Lity.ContractDefinition.fallbackFunction`,
  `Lity.ContractDefinition.rules`;
* `Lity.firstOccurrences` — the specification of the loops.

Main results:

* `Lity.interfaceFunctionList_interfaceEvents_eq` — **the interface keeps, for each external
  signature, the first candidate that has it, in linearization order**, with the hash of the
  signature;
* `Lity.interfaceFunctions_isOk_iff` — the hash-collision assertion fails exactly when two kept
  signatures share their first four hash bytes;
* `Lity.inheritableMembers_eq` — the inheritable members are the first visible member of each
  name.
-/

set_option autoImplicit false

namespace Lity

/-! ### Keeping first occurrences -/

section FirstOccurrences

variable {α β : Type} (sig : α → String)

/-- Modelled from the spec: the elements of `l` whose signature no earlier element has, in
order. -/
def firstOccurrences : List α → List α
  | [] => []
  | x :: xs => x :: firstOccurrences (xs.filter fun y => sig y ≠ sig x)
termination_by l => l.length
decreasing_by exact Nat.lt_succ_of_le (List.length_filter_le _ _)

/-- The loop body shared by `interfaceEvents` and `interfaceFunctionList`: an element whose
signature is not in `signaturesSeen` is recorded and emitted. -/
def addIfUnseen (emit : α → β) (acc : Finset String × List β) (x : α) :
    Finset String × List β :=
  if sig x ∈ acc.1 then acc else (insert (sig x) acc.1, acc.2 ++ [emit x])

variable {sig}

theorem firstOccurrences_cons (x : α) (xs : List α) :
    firstOccurrences sig (x :: xs) = x :: firstOccurrences sig (xs.filter fun y => sig y ≠ sig x) := by
  rw [firstOccurrences]

/-- **The loop keeps first occurrences**: run from a set of seen signatures, it emits the first
occurrences among the elements whose signature was not seen yet. -/
theorem foldl_addIfUnseen (emit : α → β) (l : List α) (seen : Finset String) (out : List β) :
    (l.foldl (addIfUnseen sig emit) (seen, out)).2 =
      out ++ (firstOccurrences sig (l.filter fun y => sig y ∉ seen)).map emit := by
  induction l generalizing seen out with
  | nil => simp [firstOccurrences]
  | cons x xs ih =>
      by_cases hx : sig x ∈ seen
      · rw [List.foldl_cons, addIfUnseen, if_pos hx, ih, List.filter_cons_of_neg (by simpa using hx)]
      · rw [List.foldl_cons, addIfUnseen, if_neg hx, ih, List.filter_cons_of_pos (by simpa using hx),
          firstOccurrences_cons, List.map_cons, List.append_assoc, List.singleton_append,
          List.filter_filter]
        refine congrArg (fun l => out ++ emit x :: (firstOccurrences sig l).map emit)
          (List.filter_congr fun y _ => ?_)
        simp only [Finset.mem_insert, not_or, Bool.decide_and, ne_eq]

theorem firstOccurrences_sublist : ∀ l : List α, (firstOccurrences sig l).Sublist l
  | [] => by simp [firstOccurrences]
  | x :: xs => by
      rw [firstOccurrences_cons]
      exact ((firstOccurrences_sublist _).trans (List.filter_sublist xs)).cons₂ x
termination_by l => l.length
decreasing_by exact Nat.lt_succ_of_le (List.length_filter_le _ _)

/-- No signature is kept twice. -/
theorem nodup_map_firstOccurrences : ∀ l : List α, ((firstOccurrences sig l).map sig).Nodup
  | [] => by simp [firstOccurrences]
  | x :: xs => by
      rw [firstOccurrences_cons, List.map_cons, List.nodup_cons]
      refine ⟨fun h => ?_, nodup_map_firstOccurrences _⟩
      obtain ⟨y, hy, hxy⟩ := List.mem_map.1 h
      have hy' := (List.mem_filter.1 ((firstOccurrences_sublist _).subset hy)).2
      simp [hxy] at hy'
termination_by l => l.length
decreasing_by exact Nat.lt_succ_of_le (List.length_filter_le _ _)

/-- Every signature is kept. -/
theorem mem_map_firstOccurrences (s : String) :
    ∀ l : List α, s ∈ (firstOccurrences sig l).map sig ↔ ∃ y ∈ l, sig y = s
  | [] => by simp [firstOccurrences]
  | x :: xs => by
      rw [firstOccurrences_cons, List.map_cons, List.mem_cons, mem_map_firstOccurrences s]
      constructor
      · rintro (rfl | ⟨y, hy, rfl⟩)
        exacts [⟨x, List.mem_cons_self _ _, rfl⟩, ⟨y, List.mem_cons_of_mem _ (List.mem_filter.1 hy).1, rfl⟩]
      · rintro ⟨y, hy, rfl⟩
        by_cases hyx : sig y = sig x
        · exact .inl hyx
        · rcases List.mem_cons.1 hy with rfl | hy
          · exact absurd rfl hyx
          · exact .inr ⟨y, List.mem_filter.2 ⟨hy, by simpa using hyx⟩, rfl⟩
termination_by l => l.length
decreasing_by exact Nat.lt_succ_of_le (List.length_filter_le _ _)

/-- Each kept element is the first element with its signature. -/
theorem find?_of_mem_firstOccurrences :
    ∀ (l : List α) {x : α}, x ∈ firstOccurrences sig l → l.find? (fun y => sig y = sig x) = some x
  | [], _, h => by simp [firstOccurrences] at h
  | z :: zs, x, h => by
      rw [firstOccurrences_cons, List.mem_cons] at h
      rcases h with rfl | h
      · simp
      · have hx := (firstOccurrences_sublist _).subset h
        have hzx : sig z ≠ sig x := fun e => by simpa [e] using (List.mem_filter.1 hx).2
        rw [List.find?_cons_of_neg _ (by simpa using hzx), ← find?_of_mem_firstOccurrences _ h,
          List.find?_filter]
        congr 1
        funext a
        by_cases ha : sig a = sig x
        · simp [ha, Ne.symm hzx]
        · simp [ha]
termination_by l => l.length
decreasing_by exact Nat.lt_succ_of_le (List.length_filter_le _ _)

end FirstOccurrences

/-! ### Contracts -/

/-- `FixedHash<4>(keccak256(s))`: the first four bytes of the hash, the most significant
ones. -/
def selector (keccak256 : String → Word) (s : String) : BitVec 32 :=
  (keccak256 s).extractLsb' 224 32

section HashMap

variable {γ : Type}

/-- One `std::map::insert`: an entry whose key is present is dropped. -/
def insertIfAbsent (m : List (BitVec 32 × γ)) (kv : BitVec 32 × γ) : List (BitVec 32 × γ) :=
  if kv.1 ∈ m.map Prod.fst then m else m ++ [kv]

theorem length_foldl_insertIfAbsent_le (l m : List (BitVec 32 × γ)) :
    (l.foldl insertIfAbsent m).length ≤ m.length + l.length := by
  induction l generalizing m with
  | nil => exact le_rfl
  | cons kv rest ih =>
      rw [List.foldl_cons, insertIfAbsent]
      split
      · exact (ih m).trans (by simp)
      · exact (ih _).trans (by simp; omega)

/-- Building the map loses no entry exactly when no two entries share a key. -/
theorem length_foldl_insertIfAbsent (l m : List (BitVec 32 × γ)) (hm : (m.map Prod.fst).Nodup) :
    (l.foldl insertIfAbsent m).length = m.length + l.length ↔ ((m ++ l).map Prod.fst).Nodup := by
  induction l generalizing m with
  | nil => simpa using hm
  | cons kv rest ih =>
      rw [List.foldl_cons, insertIfAbsent]
      split
      · rename_i hk
        have := length_foldl_insertIfAbsent_le rest m
        simp only [List.length_cons, List.map_append, List.map_cons, List.nodup_append,
          List.nodup_cons, List.disjoint_cons_right]
        constructor
        · intro h
          omega
        · exact fun h => absurd hk h.2.2.1
      · rename_i hk
        have hm' : ((m ++ [kv]).map Prod.fst).Nodup := by
          simpa [List.nodup_append, hm] using hk
        have e : m.length + (kv :: rest).length = (m ++ [kv]).length + rest.length := by
          simp only [List.length_cons, List.length_append, List.length_nil]
          omega
        rw [e, ih _ hm', List.append_assoc, List.singleton_append]

end HashMap

/-- A rule of a contract's body, for the rule engine, with its `salience()`. -/
structure Rule where
  id : ℕ
  salience : ℤ
  deriving DecidableEq, Repr

/-- A node of a contract's body, as `filteredNodes<Rule>` sees it: a rule, or another node. -/
inductive ContractSubNode where
  | rule (r : Rule)
  | other
  deriving DecidableEq, Repr

namespace ContractDefinition

/-- The vector `functions` of one contract: its defined functions, then its state variables,
that are part of the external interface. -/
def interfaceCandidates (c : ContractDefinition) : List FunctionType :=
  (c.definedFunctions.filter (·.isPartOfExternalInterface)).map (·.functionType) ++
    (c.stateVariables.filter (·.isPartOfExternalInterface)).map (·.functionType)

/-- `ContractDefinition::constructor`: the first defined function that is a constructor. -/
def constructor (c : ContractDefinition) : Option FunctionDefinition :=
  c.definedFunctions.find? (·.isConstructor)

/-- `ContractDefinition::constructorIsPublic`: there is no constructor, or it is public. -/
def constructorIsPublic (c : ContractDefinition) : Bool :=
  match c.constructor with
  | none => true
  | some f => f.isPublic

/-- `ContractDefinition::fallbackFunction`: the first fallback function along the
linearization, most derived contract first. -/
def fallbackFunction (linearizedBaseContracts : List ContractDefinition) :
    Option FunctionDefinition :=
  linearizedBaseContracts.findSome? fun contract => contract.definedFunctions.find? (·.isFallback)

/-- `ContractDefinition::interfaceEvents`: events by signature along the linearization. -/
def interfaceEvents (linearizedBaseContracts : List ContractDefinition) :
    List EventDefinition :=
  (linearizedBaseContracts.foldl (fun acc contract =>
      contract.events.foldl (addIfUnseen (·.functionType.externalSignature) id) acc)
    (∅, [])).2

/-- One iteration over `functions`: a type without an interface function type is skipped, and
does not mark its signature as seen. -/
def interfaceFunctionStep (keccak256 : String → Word)
    (acc : Finset String × List (BitVec 32 × FunctionType)) (fn : FunctionType) :
    Finset String × List (BitVec 32 × FunctionType) :=
  if fn.hasInterfaceFunctionType then
    addIfUnseen (·.externalSignature) (fun f => (selector keccak256 f.externalSignature, f)) acc fn
  else acc

/-- `ContractDefinition::interfaceFunctionList`. -/
def interfaceFunctionList (keccak256 : String → Word)
    (linearizedBaseContracts : List ContractDefinition) : List (BitVec 32 × FunctionType) :=
  (linearizedBaseContracts.foldl (fun acc contract =>
      contract.interfaceCandidates.foldl (interfaceFunctionStep keccak256) acc) (∅, [])).2

/-- `ContractDefinition::interfaceFunctions`: the list as a map from hash to function type, in
which a repeated hash keeps its first entry (`std::map::insert`); the assertion fails when that
loses an entry. -/
def interfaceFunctions (keccak256 : String → Word)
    (linearizedBaseContracts : List ContractDefinition) :
    Except String (List (BitVec 32 × FunctionType)) :=
  let exportedFunctionList := interfaceFunctionList keccak256 linearizedBaseContracts
  let exportedFunctions := exportedFunctionList.foldl insertIfAbsent []
  if exportedFunctionList.length = exportedFunctions.length then .ok exportedFunctions
  else .error "Hash collision at Function Definition Hash calculation"

/-- The lambda `addInheritableMember` of `inheritableMembers`: a declaration whose name was not
seen and that is visible in derived contracts is recorded and kept. -/
def addInheritableMember (acc : Finset String × List Declaration) (decl : Declaration) :
    Finset String × List Declaration :=
  if decl.name ∉ acc.1 ∧ decl.isVisibleInDerivedContracts = true then
    (insert decl.name acc.1, acc.2 ++ [decl])
  else acc

/-- `ContractDefinition::inheritableMembers`: the loops over the defined functions, the state
variables, the structs, the enums and the events, in that order. -/
def inheritableMembers (c : ContractDefinition) : List Declaration :=
  let acc := c.definedFunctions.foldl (fun acc f => addInheritableMember acc f.toDeclaration) (∅, [])
  let acc := c.stateVariables.foldl (fun acc v => addInheritableMember acc v.toDeclaration) acc
  let acc := c.definedStructs.foldl (fun acc s => addInheritableMember acc s.toDeclaration) acc
  let acc := c.definedEnums.foldl (fun acc e => addInheritableMember acc e.toDeclaration) acc
  (c.events.foldl (fun acc e => addInheritableMember acc e.toDeclaration) acc).2

/-- `ContractDefinition::rules`: the rules among the contract's sub-nodes
(`filteredNodes<Rule>`), sorted by decreasing salience.  `std::sort` leaves the order of rules of
equal salience unspecified; the model keeps them in the order of the nodes. -/
def rules (subNodes : List ContractSubNode) : List Rule :=
  (subNodes.filterMap fun | .rule r => some r | .other => none).mergeSort
    fun a b => decide (b.salience ≤ a.salience)

/-- What any `std::sort` guarantees of `rules`: they are the rule sub-nodes, each once, with
salience decreasing along the list. -/
theorem rules_perm_sorted (subNodes : List ContractSubNode) :
    (rules subNodes).Perm (subNodes.filterMap fun | .rule r => some r | .other => none) ∧
      (rules subNodes).Pairwise fun a b => b.salience ≤ a.salience := by
  refine ⟨List.mergeSort_perm _ _, ?_⟩
  have h := @List.sorted_mergeSort Rule (fun a b => decide (b.salience ≤ a.salience))
    (fun a b c hab hbc => by simp only [decide_eq_true_eq] at *; omega)
    (fun a b => by simp only [Bool.or_eq_true, decide_eq_true_eq]; omega)
    (subNodes.filterMap fun | .rule r => some r | .other => none)
  exact h.imp fun hab => by simpa using hab

end ContractDefinition

/-- The nested loops over the linearization and each contract's members are one loop over all
members in turn. -/
theorem foldl_foldl_eq_foldl_flatMap {γ δ : Type} (f : δ → γ → δ) (g : ContractDefinition → List γ)
    (l : List ContractDefinition) (init : δ) :
    l.foldl (fun acc contract => (g contract).foldl f acc) init = (l.flatMap g).foldl f init := by
  induction l generalizing init with
  | nil => rfl
  | cons c cs ih => simp only [List.foldl_cons, List.flatMap_cons, List.foldl_append, ih]

/-- A loop body that leaves the accumulator alone on the elements failing `p` runs the loop over
the other elements only: skipped elements mark nothing as seen. -/
theorem foldl_eq_foldl_filter {γ δ : Type} (p : γ → Bool) (f g : δ → γ → δ)
    (h : ∀ acc x, f acc x = if p x then g acc x else acc) (l : List γ) (init : δ) :
    l.foldl f init = (l.filter p).foldl g init := by
  induction l generalizing init with
  | nil => rfl
  | cons x xs ih => by_cases hx : p x <;> simp [h, hx, ih, List.filter_cons]

/-- **The interface keeps, for each external signature, the first candidate that has it.**
Candidates are taken along the linearization, each contract's defined functions that are part
of the external interface before its state variables that are, as the function types built from
them, leaving out those without an interface function type; each kept type comes with the first
four bytes of the hash of its signature, its most significant ones.  Events are kept the same
way, the first event of each signature. -/
theorem interfaceFunctionList_interfaceEvents_eq (keccak256 : String → Word)
    (linearizedBaseContracts : List ContractDefinition) :
    ContractDefinition.interfaceFunctionList keccak256 linearizedBaseContracts =
        (firstOccurrences (·.externalSignature)
          ((linearizedBaseContracts.flatMap fun c =>
              (c.definedFunctions.filter (·.isPartOfExternalInterface)).map (·.functionType) ++
                (c.stateVariables.filter (·.isPartOfExternalInterface)).map (·.functionType)).filter
            (·.hasInterfaceFunctionType))).map
          (fun f => ((keccak256 f.externalSignature).extractLsb' 224 32, f)) ∧
      ContractDefinition.interfaceEvents linearizedBaseContracts =
        firstOccurrences (·.functionType.externalSignature)
          (linearizedBaseContracts.flatMap (·.events)) := by
  constructor
  · rw [ContractDefinition.interfaceFunctionList, foldl_foldl_eq_foldl_flatMap,
      foldl_eq_foldl_filter _ (ContractDefinition.interfaceFunctionStep keccak256) _
        fun _ _ => rfl, foldl_addIfUnseen, List.nil_append]
    simp only [Finset.not_mem_empty, not_false_eq_true, decide_True, List.filter_true]
    rfl
  · rw [ContractDefinition.interfaceEvents, foldl_foldl_eq_foldl_flatMap, foldl_addIfUnseen,
      List.nil_append, List.map_id]
    simp

/-- A function `f()` that a contract (declaration `2`) overrides from its base (declaration `1`):
the list keeps the derived contract's own. -/
example : (ContractDefinition.interfaceFunctionList (fun _ => 0)
    [⟨[⟨⟨2, "f", true⟩, false, false, true, true, ⟨2, true, "f()"⟩, rfl⟩], [], [], [], []⟩,
      ⟨[⟨⟨1, "f", true⟩, false, false, true, true, ⟨1, true, "f()"⟩, rfl⟩], [], [], [], []⟩]).map
      (·.2.declaration) = [2] := by
  decide

/-- **The hash-collision assertion fails exactly when two kept signatures have the same first
four hash bytes.** -/
theorem interfaceFunctions_isOk_iff (keccak256 : String → Word)
    (linearizedBaseContracts : List ContractDefinition) :
    (ContractDefinition.interfaceFunctions keccak256 linearizedBaseContracts).isOk ↔
      ((ContractDefinition.interfaceFunctionList keccak256 linearizedBaseContracts).map
        Prod.fst).Nodup := by
  have h := length_foldl_insertIfAbsent
    (ContractDefinition.interfaceFunctionList keccak256 linearizedBaseContracts) [] List.nodup_nil
  simp only [List.length_nil, Nat.zero_add, List.nil_append] at h
  rw [← h, ContractDefinition.interfaceFunctions]
  split <;> rename_i hc
  · simpa [Except.isOk, Except.toBool] using hc.symm
  · simpa [Except.isOk, Except.toBool] using fun h' => hc h'.symm

/-- **The inheritable members are the first member of each name among those visible in derived
contracts**, taking the functions, then the state variables, structs, enums and events; a
member not visible in derived contracts does not hide a later one of its name. -/
theorem inheritableMembers_eq (c : ContractDefinition) :
    c.inheritableMembers = firstOccurrences (·.name)
      ((c.definedFunctions.map (·.toDeclaration) ++ c.stateVariables.map (·.toDeclaration) ++
          c.definedStructs.map (·.toDeclaration) ++ c.definedEnums.map (·.toDeclaration) ++
          c.events.map (·.toDeclaration)).filter (·.isVisibleInDerivedContracts)) := by
  have step : ∀ acc decl, ContractDefinition.addInheritableMember acc decl =
      if decl.isVisibleInDerivedContracts then addIfUnseen (·.name) id acc decl else acc := by
    intro acc decl
    unfold ContractDefinition.addInheritableMember addIfUnseen
    by_cases hv : decl.isVisibleInDerivedContracts <;> by_cases hs : decl.name ∈ acc.1 <;>
      simp [hv, hs]
  simp only [ContractDefinition.inheritableMembers, ← List.foldl_map, ← List.foldl_append]
  rw [foldl_eq_foldl_filter _ _ _ step, foldl_addIfUnseen, List.nil_append, List.map_id]
  simp

/-- A function `g` (declaration `1`) not visible in derived contracts does not hide the state
variable `g` (declaration `2`) after it. -/
example : (ContractDefinition.inheritableMembers
    ⟨[⟨⟨1, "g", false⟩, false, false, false, false, ⟨1, false, "g()"⟩, rfl⟩],
      [⟨⟨2, "g", true⟩, .other, true, false, none, false, ⟨2, false, ""⟩, rfl⟩], [], [], []⟩).map
      (·.id) = [2] := by
  decide

end Lity
