import Mathlib.Logic.Relation

/-!
**The source unit of a declaration (`Scopable::sourceUnit`).**

Every `Scopable` node of the AST points to its enclosing scope, set by the name resolution from
the nesting of the source: a variable to its function, a function to its contract, a contract to
its source unit.  `Scopable::sourceUnit` climbs these pointers with a `while` loop, as long as the
node it stands on is `Scopable` and has a scope, and then casts the node it stopped at to a
`SourceUnit`, a cast that throws when the node is something else.

The nodes are modelled by their ids, with what the loop's `dynamic_cast`s find at each one
(`Lity.ScopeNode`).  The scopes of a real AST are nested, so the pointers never form a cycle; a
`Lity.ScopeTree` carries that as a rank that decreases along every scope pointer, and this is
what makes the loop stop (`Lity.ScopeTree.climb`).  Since a node has at most one scope, the walk
from a node is a single chain, and the loop stops at the first node of the chain with no scope to
climb to.  A source unit is such a node, so:

* `Lity.ScopeTree.sourceUnit_spec` — **`sourceUnit` returns exactly the source unit on the scope
  chain above the node, and fails with a bad cast exactly when there is none on it**.

Main definitions:

* `Lity.ScopeNode`, `Lity.ScopeTree`, `Lity.ScopeTree.ScopeOf`;
* `Lity.ScopeTree.climb` — the loop; `Lity.ScopeTree.sourceUnit` — the function.
-/

set_option autoImplicit false

namespace Lity

/-- What the `dynamic_cast`s of `Scopable::sourceUnit` find at a node: a `Scopable` node with its
`scope()` (`none` for a null pointer), a `SourceUnit`, or another node. -/
inductive ScopeNode where
  | scopable (scope : Option ℕ)
  | sourceUnit
  | other
  deriving DecidableEq, Repr

/-- The nodes of an AST, by id, with scope pointers that never form a cycle: the scope of a node
has a smaller rank than the node. -/
structure ScopeTree where
  node : ℕ → ScopeNode
  rank : ℕ → ℕ
  rank_scope : ∀ n s, node n = .scopable (some s) → rank s < rank n

namespace ScopeTree

variable (t : ScopeTree)

/-- `s` is the scope of the `Scopable` node `n`. -/
def ScopeOf (n s : ℕ) : Prop := t.node n = .scopable (some s)

/-- The `while` loop of `Scopable::sourceUnit`: climb from `s` to its scope as long as `s` is
`Scopable` and has one. -/
def climb (s : ℕ) : ℕ :=
  match h : t.node s with
  | .scopable (some p) => climb p
  | .scopable none | .sourceUnit | .other => s
termination_by t.rank s
decreasing_by exact t.rank_scope s p h

/-- `Scopable::sourceUnit`, for a node whose `scope()` is `scope`: `solAssert(s, "")`, the loop,
and the cast of where it stopped to a `SourceUnit`. -/
def sourceUnit (scope : Option ℕ) : Except String ℕ :=
  match scope with
  | none => .error ""
  | some s => if t.node (t.climb s) = .sourceUnit then .ok (t.climb s) else .error "std::bad_cast"

variable {t}

theorem climb_of_scopeOf {s p : ℕ} (h : t.ScopeOf s p) : t.climb s = t.climb p := by
  rw [climb]
  split <;> simp_all [ScopeOf]

theorem climb_of_not_scopeOf {s : ℕ} (h : ∀ p, ¬ t.ScopeOf s p) : t.climb s = s := by
  rw [climb]
  split
  · exact absurd ‹_› (h _)
  all_goals rfl

/-- The loop stops at a node of the chain above `s` that has no scope to climb to. -/
theorem climb_spec (s : ℕ) :
    Relation.ReflTransGen t.ScopeOf s (t.climb s) ∧ ∀ p, ¬ t.ScopeOf (t.climb s) p := by
  induction s using climb.induct t with
  | case1 s p h ih =>
      rw [climb_of_scopeOf h]
      exact ⟨.head h ih.1, ih.2⟩
  | case2 s h | case3 s h | case4 s h =>
      rw [climb_of_not_scopeOf fun p hp => by simp_all [ScopeOf]]
      exact ⟨.refl, fun p hp => by simp_all [ScopeOf]⟩

/-- A node has at most one scope, so the chain above `s` has one node with no scope to climb to,
and the loop finds it. -/
theorem climb_eq_of_reflTransGen {s u : ℕ} (h : Relation.ReflTransGen t.ScopeOf s u)
    (hu : ∀ p, ¬ t.ScopeOf u p) : t.climb s = u := by
  induction h using Relation.ReflTransGen.head_induction_on with
  | refl => exact climb_of_not_scopeOf hu
  | head hsp _ ih => rw [climb_of_scopeOf hsp, ih]

theorem not_scopeOf_of_sourceUnit {u : ℕ} (hu : t.node u = .sourceUnit) (p : ℕ) :
    ¬ t.ScopeOf u p := by
  simp [ScopeOf, hu]

/-- **`Scopable::sourceUnit` returns exactly the source unit on the scope chain above the node,
and fails with a bad cast exactly when there is none on it.** -/
theorem sourceUnit_spec (s : ℕ) :
    (∀ u, t.sourceUnit (some s) = .ok u ↔
      Relation.ReflTransGen t.ScopeOf s u ∧ t.node u = .sourceUnit) ∧
    ∀ msg, t.sourceUnit (some s) = .error msg ↔
      msg = "std::bad_cast" ∧ ∀ u, Relation.ReflTransGen t.ScopeOf s u → t.node u ≠ .sourceUnit := by
  have key : ∀ u, Relation.ReflTransGen t.ScopeOf s u ∧ t.node u = .sourceUnit ↔
      t.climb s = u ∧ t.node (t.climb s) = .sourceUnit := fun u =>
    ⟨fun ⟨h₁, h₂⟩ => have h := climb_eq_of_reflTransGen h₁ (not_scopeOf_of_sourceUnit h₂)
      ⟨h, h ▸ h₂⟩, fun ⟨h₁, h₂⟩ => h₁ ▸ ⟨(climb_spec s).1, h₂⟩⟩
  have none_iff : (∀ u, Relation.ReflTransGen t.ScopeOf s u → t.node u ≠ .sourceUnit) ↔
      t.node (t.climb s) ≠ .sourceUnit :=
    ⟨fun h => h _ (climb_spec s).1, fun h u h₁ h₂ => h ((key u).1 ⟨h₁, h₂⟩).2⟩
  simp only [key, none_iff, sourceUnit]
  by_cases hsu : t.node (t.climb s) = .sourceUnit <;> simp [hsu, eq_comm]

/-- A variable (node `3`) in a function (`2`) in a contract (`1`) in the source unit `0`: the
variable's source unit is `0`. -/
theorem sourceUnit_spec_nested :
    let t : ScopeTree := ⟨fun n => if n = 0 then .sourceUnit else .scopable (some (n - 1)), id,
      fun n s h => by by_cases hn : n = 0 <;> simp_all; omega⟩
    Relation.ReflTransGen t.ScopeOf 3 0 ∧ t.node 0 = .sourceUnit ∧ t.sourceUnit (some 3) = .ok 0 := by
  intro t
  have hchain : Relation.ReflTransGen t.ScopeOf 3 0 := .head rfl (.head rfl (.head rfl .refl))
  exact ⟨hchain, rfl, ((sourceUnit_spec 3).1 0).2 ⟨hchain, rfl⟩⟩

/-- A node and its scope report the same source unit. -/
theorem sourceUnit_of_scopeOf {s p : ℕ} (h : t.ScopeOf s p) :
    t.sourceUnit (some s) = t.sourceUnit (some p) := by
  simp only [sourceUnit, climb_of_scopeOf h]

end ScopeTree

end Lity
