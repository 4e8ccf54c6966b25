import Mathlib.Data.Fintype.Card
import Mathlib.Logic.Relation

/-!
**The source units a source unit imports (`SourceUnit::referencedSourceUnits`).**

A compilation is a finite set of source units, each with its import directives in the order of
its nodes; every directive is resolved (`annotation().sourceUnit`), and the import graph may
have cycles.  `referencedSourceUnits` walks the imports with a skip list that it receives *by
value*: each iteration of the loop adds the unit it visits to its own copy and hands that copy to
the recursive call, whose own additions are lost when it returns.  So a unit can be skipped in
one branch because an ancestor in the walk is exploring it, and the walk still terminates,
because the skip list handed down grows at every call.

The walk of one loop over a list of imports with a skip list is `Lity.referencedSourceUnitsLoop`,
and it computes exactly the units reachable from the listed imports not in the skip list, by
paths that avoid the skip list (`Lity.mem_referencedSourceUnitsLoop`).  The reason is local: a
path from a later import either passes through an earlier one, and is then found below it, or
avoids it, and is then found with it added to the skip list.

Main definitions:

* `Lity.referencedSourceUnitsLoop`, `Lity.referencedSourceUnits`;
* `Lity.ImportEdge` — an import edge into a unit outside a skip list.

Main results:

* `Lity.mem_referencedSourceUnitsLoop` — the loop computes reachability avoiding the skip list;
* `Lity.mem_referencedSourceUnits` — **the recursive walk returns exactly the units reachable
  by a non-empty import path none of whose units is in the skip list**, the unit itself included
  when it lies on such a cycle;
* `Lity.mem_referencedSourceUnits_of_not_recurse` — without recursion, the direct imports not
  in the skip list.
-/

set_option autoImplicit false

namespace Lity

variable {U : Type} (imports : U → List U)

/-- An import edge `a → b` into a unit outside the skip list. -/
def ImportEdge (skipList : Finset U) (a b : U) : Prop := b ∈ imports a ∧ b ∉ skipList

variable {imports} in
theorem ImportEdge.mono {T T' : Finset U} (h : T ⊆ T') {a b : U}
    (hab : ImportEdge imports T' a b) : ImportEdge imports T a b :=
  ⟨hab.1, fun hb => hab.2 (h hb)⟩

variable [DecidableEq U]

theorem card_sdiff_insert_lt [Fintype U] {s : U} {skipList : Finset U} (h : s ∉ skipList) :
    (Finset.univ \ insert s skipList).card < (Finset.univ \ skipList).card := by
  rw [Finset.sdiff_insert]
  exact Finset.card_erase_lt_of_mem (by simpa using h)

/-- The loop of `SourceUnit::referencedSourceUnits` over the remaining import directives, with
the current copy of the skip list: a unit not yet skipped is added to the copy and to the
result, and, when recursing, so is everything the walk from it finds with the copy. -/
def referencedSourceUnitsLoop [Fintype U] (recurse : Bool) : List U → Finset U → Finset U
  | [], _ => ∅
  | s :: rest, skipList =>
      if s ∈ skipList then referencedSourceUnitsLoop recurse rest skipList
      else
        insert s ((if recurse then referencedSourceUnitsLoop recurse (imports s) (insert s skipList)
            else ∅) ∪ referencedSourceUnitsLoop recurse rest (insert s skipList))
termination_by l skipList => ((Finset.univ \ skipList).card, l.length)
decreasing_by
  all_goals simp_wf
  · exact Prod.Lex.right _ (Nat.lt_succ_self _)
  all_goals exact Prod.Lex.left _ _ (card_sdiff_insert_lt ‹_›)

/-- `SourceUnit::referencedSourceUnits`: the loop over the unit's own import directives. -/
def referencedSourceUnits [Fintype U] (u : U) (recurse : Bool) (skipList : Finset U) : Finset U :=
  referencedSourceUnitsLoop imports recurse (imports u) skipList

variable {imports}

/-- A path that avoids `T` either avoids `s` too after its start, or reaches its end from
`s`. -/
theorem reflTransGen_insert_or {T : Finset U} (s : U) {x v : U}
    (h : Relation.ReflTransGen (ImportEdge imports T) x v) :
    Relation.ReflTransGen (ImportEdge imports (insert s T)) x v ∨
      Relation.ReflTransGen (ImportEdge imports T) s v := by
  induction h with
  | refl => exact .inl .refl
  | @tail b c _ hbc ih =>
      rcases ih with ih | ih
      · by_cases hc : c = s
        · exact .inr (hc ▸ .refl)
        · exact .inl (ih.tail ⟨hbc.1, by simp [hc, hbc.2]⟩)
      · exact .inr (ih.tail hbc)

/-- A path from `s` that avoids `T` ends at `s`, or leaves `s` for good through one of its
imports. -/
theorem eq_or_exists_of_reflTransGen {T : Finset U} {s v : U}
    (h : Relation.ReflTransGen (ImportEdge imports T) s v) :
    v = s ∨ ∃ y ∈ imports s, y ∉ insert s T ∧
      Relation.ReflTransGen (ImportEdge imports (insert s T)) y v := by
  induction h with
  | refl => exact .inl rfl
  | @tail b c _ hbc ih =>
      by_cases hc : c = s
      · exact .inl hc
      · have hc' : c ∉ insert s T := by simp [hc, hbc.2]
        rcases ih with rfl | ⟨y, hy, hyT, hyb⟩
        · exact .inr ⟨c, hbc.1, hc', .refl⟩
        · exact .inr ⟨y, hy, hyT, hyb.tail ⟨hbc.1, hc'⟩⟩

variable [Fintype U]

/-- **The loop computes reachability avoiding the skip list**: a unit is found exactly when a
path avoiding the skip list leads to it from one of the listed imports outside the skip
list. -/
theorem mem_referencedSourceUnitsLoop (l : List U) (skipList : Finset U) (v : U) :
    v ∈ referencedSourceUnitsLoop imports true l skipList ↔
      ∃ x ∈ l, x ∉ skipList ∧ Relation.ReflTransGen (ImportEdge imports skipList) x v := by
  induction l, skipList using referencedSourceUnitsLoop.induct imports true with
  | case1 T => simp [referencedSourceUnitsLoop]
  | case2 s rest T hs ih =>
      rw [referencedSourceUnitsLoop, if_pos hs, ih]
      constructor
      · rintro ⟨x, hx, hxT, hxv⟩
        exact ⟨x, List.mem_cons_of_mem s hx, hxT, hxv⟩
      · rintro ⟨x, hx, hxT, hxv⟩
        rcases List.mem_cons.1 hx with rfl | hx
        exacts [absurd hs hxT, ⟨x, hx, hxT, hxv⟩]
  | case3 s rest T hs ihs ihr =>
      rw [referencedSourceUnitsLoop, if_neg hs, if_pos rfl, Finset.mem_insert, Finset.mem_union,
        ihs, ihr]
      have hmono : ∀ {a b : U}, Relation.ReflTransGen (ImportEdge imports (insert s T)) a b →
          Relation.ReflTransGen (ImportEdge imports T) a b :=
        Relation.ReflTransGen.mono fun _ _ => ImportEdge.mono (Finset.subset_insert s T)
      constructor
      · rintro (rfl | ⟨y, hy, hyT, hyv⟩ | ⟨x, hx, hxT, hxv⟩)
        · exact ⟨v, List.mem_cons_self _ _, hs, .refl⟩
        · exact ⟨s, List.mem_cons_self _ _, hs,
            .head ⟨hy, fun h => hyT (Finset.mem_insert_of_mem h)⟩ (hmono hyv)⟩
        · exact ⟨x, List.mem_cons_of_mem s hx, fun h => hxT (Finset.mem_insert_of_mem h),
            hmono hxv⟩
      · rintro ⟨x, hx, hxT, hxv⟩
        rcases List.mem_cons.1 hx with rfl | hx
        · exact (eq_or_exists_of_reflTransGen hxv).imp id .inl
        · rcases reflTransGen_insert_or s hxv with hxv' | hsv
          · by_cases hxs : x = s
            · exact (eq_or_exists_of_reflTransGen (hxs ▸ hxv)).imp id .inl
            · exact .inr (.inr ⟨x, hx, by simp [hxs, hxT], hxv'⟩)
          · exact (eq_or_exists_of_reflTransGen hsv).imp id .inl

/-- **`referencedSourceUnits(true, S)` returns exactly the units reachable from `u` by a
non-empty import path whose units, after `u`, are all outside `S`.** -/
theorem mem_referencedSourceUnits (u : U) (skipList : Finset U) (v : U) :
    v ∈ referencedSourceUnits imports u true skipList ↔
      Relation.TransGen (ImportEdge imports skipList) u v := by
  rw [referencedSourceUnits, mem_referencedSourceUnitsLoop, Relation.TransGen.head'_iff]
  exact ⟨fun ⟨x, hx, hxT, hxv⟩ => ⟨x, ⟨hx, hxT⟩, hxv⟩, fun ⟨x, hx, hxv⟩ => ⟨x, hx.1, hx.2, hxv⟩⟩

/-- Without recursion, the walk returns the direct imports not in the skip list. -/
theorem mem_referencedSourceUnits_of_not_recurse (u : U) (skipList : Finset U) (v : U) :
    v ∈ referencedSourceUnits imports u false skipList ↔ v ∈ imports u ∧ v ∉ skipList := by
  rw [referencedSourceUnits]
  induction imports u, skipList using referencedSourceUnitsLoop.induct imports false with
  | case1 T => simp [referencedSourceUnitsLoop]
  | case2 s rest T hs ih =>
      rw [referencedSourceUnitsLoop, if_pos hs, ih]
      constructor
      · exact fun ⟨h₁, h₂⟩ => ⟨List.mem_cons_of_mem s h₁, h₂⟩
      · rintro ⟨h₁, h₂⟩
        rcases List.mem_cons.1 h₁ with rfl | h₁
        exacts [absurd hs h₂, ⟨h₁, h₂⟩]
  | case3 s rest T hs _ ihr =>
      simp only [referencedSourceUnitsLoop, if_neg hs, Bool.false_eq_true, if_false,
        Finset.empty_union, Finset.mem_insert, ihr, List.mem_cons]
      by_cases hv : v = s
      · simp [hv, hs]
      · simp [hv]

end Lity
