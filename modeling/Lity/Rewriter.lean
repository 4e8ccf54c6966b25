import Mathlib.Logic.Relation
import Lity.RuleList

/-!
**First-match rewriting, and how to reason about it block by block.**

The rewriter tries the rules in list order and applies the first one whose pattern matches,
with the match groups reset before each rule; it looks at the expression it is given and not
into its operands.  The rewriter's code is not among the sources: the search follows the spec's
algorithm (§4.4), leaving out the check of flagged rules, which `Lity.simplifyGuarded` adds.  A driver applies it at positions of its
choosing until nothing changes.  `Lity.RewriteStep` is one such rewrite at any position: the
rewriter at the root, or a rewrite inside one operand.

First match is what makes the catalog correct and terminating at all: some rules are only
right, or only decreasing, because the rule before them did not match.  `Lity.Preserves`
packages this.  A property of every rewrite a block of rules performs may assume that the
expression satisfies a condition `Q`; appending a block may assume in addition that no rule of
the earlier blocks matched (`Lity.Preserves.append`, `Lity.Preserves.cons`).

Main definitions:

* `Lity.findFirstMatch`, `Lity.simplifyWith`, `Lity.simplify`;
* `Lity.Preserves`;
* `Lity.RewriteStep`, `Lity.Rewrites`.

Main results:

* `Lity.Preserves.of_forall`, `Lity.Preserves.cons`, `Lity.Preserves.append`,
  `Lity.Preserves.flatMap` — the block calculus;
* `Lity.simplifyWith_eraseIdx_succ` — a rule whose pattern repeats the pattern of the rule
  before it never fires, so deleting it changes nothing.
-/

set_option autoImplicit false

namespace Lity

/-! ### First match -/

/-- Modelled from the spec: §4.4, the first rule whose pattern matches `e`, with its
bindings. -/
def findFirstMatch (e : Expr) : List SimplificationRule → Option (SimplificationRule × Binding)
  | [] => none
  | r :: rs =>
      match Pattern.matches r.pattern e .empty with
      | some m => some (r, m)
      | none => findFirstMatch e rs

/-- Modelled from the spec: §4.4, rewrite `e` at the root with the first rule of `rules` that
matches, if there is one. -/
def simplifyWith (rules : List SimplificationRule) (e : Expr) : Option Expr :=
  (findFirstMatch e rules).map fun rm => rm.1.apply rm.2

/-- One rewrite at the root with the catalog. -/
def simplify (e : Expr) : Option Expr := simplifyWith simplificationRuleList e

section FirstMatch

variable {r : SimplificationRule} {rs l₁ l₂ : List SimplificationRule} {e e' : Expr}

@[simp] theorem simplifyWith_nil : simplifyWith [] e = none := rfl

theorem simplifyWith_cons :
    simplifyWith (r :: rs) e =
      match Pattern.matches r.pattern e .empty with
      | some m => some (r.apply m)
      | none => simplifyWith rs e := by
  simp only [simplifyWith, findFirstMatch]
  split <;> rfl

theorem simplifyWith_cons_of_matches {m : Binding}
    (h : Pattern.matches r.pattern e .empty = some m) :
    simplifyWith (r :: rs) e = some (r.apply m) := by
  rw [simplifyWith_cons, h]

theorem simplifyWith_cons_of_not_matches (h : Pattern.matches r.pattern e .empty = none) :
    simplifyWith (r :: rs) e = simplifyWith rs e := by
  rw [simplifyWith_cons, h]

theorem simplifyWith_append_of_some (h : simplifyWith l₁ e = some e') :
    simplifyWith (l₁ ++ l₂) e = some e' := by
  induction l₁ with
  | nil => cases h
  | cons r rs ih =>
      cases hm : Pattern.matches r.pattern e .empty with
      | some m => rw [List.cons_append, simplifyWith_cons_of_matches hm]; rwa [simplifyWith_cons_of_matches hm] at h
      | none =>
          rw [List.cons_append, simplifyWith_cons_of_not_matches hm]
          exact ih (by rwa [simplifyWith_cons_of_not_matches hm] at h)

theorem simplifyWith_append_of_none (h : simplifyWith l₁ e = none) :
    simplifyWith (l₁ ++ l₂) e = simplifyWith l₂ e := by
  induction l₁ with
  | nil => rfl
  | cons r rs ih =>
      cases hm : Pattern.matches r.pattern e .empty with
      | some m => rw [simplifyWith_cons_of_matches hm] at h; cases h
      | none =>
          rw [List.cons_append, simplifyWith_cons_of_not_matches hm]
          exact ih (by rwa [simplifyWith_cons_of_not_matches hm] at h)

/-- A rewrite comes from some rule of the list that matched. -/
theorem exists_of_simplifyWith (h : simplifyWith rs e = some e') :
    ∃ r ∈ rs, ∃ m, Pattern.matches r.pattern e .empty = some m ∧ e' = r.apply m := by
  induction rs with
  | nil => cases h
  | cons r rs ih =>
      cases hm : Pattern.matches r.pattern e .empty with
      | some m =>
          rw [simplifyWith_cons_of_matches hm] at h
          exact ⟨r, List.mem_cons_self _ _, m, hm, (Option.some.inj h).symm⟩
      | none =>
          rw [simplifyWith_cons_of_not_matches hm] at h
          obtain ⟨r', hr', m, hm', rfl⟩ := ih h
          exact ⟨r', List.mem_cons_of_mem _ hr', m, hm', rfl⟩

/-- When no rule of a list rewrites `e`, no rule of it matches `e`. -/
theorem matches_eq_none_of_simplifyWith_eq_none (h : simplifyWith rs e = none) (hr : r ∈ rs) :
    Pattern.matches r.pattern e .empty = none := by
  induction rs with
  | nil => cases hr
  | cons r' rs ih =>
      cases hm : Pattern.matches r'.pattern e .empty with
      | some m => rw [simplifyWith_cons_of_matches hm] at h; cases h
      | none =>
          rw [simplifyWith_cons_of_not_matches hm] at h
          rcases List.mem_cons.1 hr with rfl | hr
          exacts [hm, ih h hr]

/-- A rule whose pattern repeats the pattern of the rule before it never fires: deleting it
changes no rewrite. -/
theorem simplifyWith_eraseIdx_succ :
    ∀ (l : List SimplificationRule) (i : ℕ),
      (l[i + 1]?).map SimplificationRule.pattern = (l[i]?).map SimplificationRule.pattern →
      simplifyWith (l.eraseIdx (i + 1)) = simplifyWith l := by
  intro l i
  induction i generalizing l with
  | zero =>
      intro h
      match l, h with
      | [], _ => rfl
      | [_], _ => rfl
      | r₀ :: r₁ :: rest, h =>
          simp only [List.getElem?_cons_succ, List.getElem?_cons_zero, Option.map_some',
            Option.some.injEq] at h
          funext e
          simp only [List.eraseIdx_cons_succ, List.eraseIdx_cons_zero]
          cases hm : Pattern.matches r₀.pattern e .empty with
          | some m => rw [simplifyWith_cons_of_matches hm, simplifyWith_cons_of_matches hm]
          | none =>
              rw [simplifyWith_cons_of_not_matches hm, simplifyWith_cons_of_not_matches hm,
                simplifyWith_cons_of_not_matches (h ▸ hm)]
  | succ i ih =>
      intro h
      match l, h with
      | [], _ => rfl
      | r :: rest, h =>
          funext e
          simp only [List.getElem?_cons_succ] at h
          rw [List.eraseIdx_cons_succ, simplifyWith_cons, simplifyWith_cons, ih rest h]

end FirstMatch

/-! ### Reasoning block by block -/

/-- `P e e'` holds for every rewrite `e ↦ e'` that first-match search over `rules` performs on
an expression `e` satisfying `Q`. -/
def Preserves (Q : Expr → Prop) (P : Expr → Expr → Prop) (rules : List SimplificationRule) :
    Prop :=
  ∀ e e', Q e → simplifyWith rules e = some e' → P e e'

namespace Preserves

variable {Q Q' : Expr → Prop} {P : Expr → Expr → Prop} {r : SimplificationRule}
  {l l₁ l₂ : List SimplificationRule}

theorem nil : Preserves Q P [] := fun _ _ _ h => by cases h

theorem mono (hQ : ∀ e, Q' e → Q e) (h : Preserves Q P l) : Preserves Q' P l :=
  fun e e' hq he => h e e' (hQ e hq) he

/-- A block all of whose rules are good, whatever came before them. -/
theorem of_forall
    (h : ∀ r ∈ l, ∀ e m, Q e → Pattern.matches r.pattern e .empty = some m → P e (r.apply m)) :
    Preserves Q P l := by
  intro e e' hq he
  obtain ⟨r, hr, m, hm, rfl⟩ := exists_of_simplifyWith he
  exact h r hr e m hq hm

/-- The rules after `r` may assume that `r` did not match. -/
theorem cons
    (h₁ : ∀ e m, Q e → Pattern.matches r.pattern e .empty = some m → P e (r.apply m))
    (h₂ : Preserves (fun e => Q e ∧ Pattern.matches r.pattern e .empty = none) P l) :
    Preserves Q P (r :: l) := by
  intro e e' hq he
  cases hm : Pattern.matches r.pattern e .empty with
  | some m =>
      rw [simplifyWith_cons_of_matches hm] at he
      exact Option.some.inj he ▸ h₁ e m hq hm
  | none => exact h₂ e e' ⟨hq, hm⟩ (by rwa [simplifyWith_cons_of_not_matches hm] at he)

/-- The second block may assume that no rule of the first matched. -/
theorem append (h₁ : Preserves Q P l₁)
    (h₂ : Preserves (fun e => Q e ∧ simplifyWith l₁ e = none) P l₂) :
    Preserves Q P (l₁ ++ l₂) := by
  intro e e' hq he
  cases h : simplifyWith l₁ e with
  | some e₁ => rw [simplifyWith_append_of_some h] at he; exact Option.some.inj he ▸ h₁ e e₁ hq h
  | none => exact h₂ e e' ⟨hq, h⟩ (by rwa [simplifyWith_append_of_none h] at he)

/-- Concatenated blocks, each good on its own. -/
theorem flatMap {ι : Type} (f : ι → List SimplificationRule) :
    ∀ xs : List ι, (∀ x ∈ xs, Preserves Q P (f x)) → Preserves Q P (xs.flatMap f)
  | [], _ => nil
  | x :: xs, h =>
      append (h x (List.mem_cons_self _ _))
        (mono (fun _ h => h.1) (flatMap f xs fun y hy => h y (List.mem_cons_of_mem _ hy)))

end Preserves

/-! ### Rewriting anywhere -/

/-- One rewrite at some position: the catalog's first matching rule applied to a subtree. -/
inductive RewriteStep : Expr → Expr → Prop where
  | root {e e' : Expr} : simplify e = some e' → RewriteStep e e'
  | op1 (i : Instruction 1) {a a' : Expr} : RewriteStep a a' → RewriteStep (.op1 i a) (.op1 i a')
  | op2L (i : Instruction 2) {a a' : Expr} (b : Expr) :
      RewriteStep a a' → RewriteStep (.op2 i a b) (.op2 i a' b)
  | op2R (i : Instruction 2) (a : Expr) {b b' : Expr} :
      RewriteStep b b' → RewriteStep (.op2 i a b) (.op2 i a b')
  | op3L (i : Instruction 3) {a a' : Expr} (b c : Expr) :
      RewriteStep a a' → RewriteStep (.op3 i a b c) (.op3 i a' b c)
  | op3M (i : Instruction 3) (a : Expr) {b b' : Expr} (c : Expr) :
      RewriteStep b b' → RewriteStep (.op3 i a b c) (.op3 i a b' c)
  | op3R (i : Instruction 3) (a b : Expr) {c c' : Expr} :
      RewriteStep c c' → RewriteStep (.op3 i a b c) (.op3 i a b c')

/-- Finitely many rewrites, at any positions, in any order. -/
abbrev Rewrites : Expr → Expr → Prop := Relation.ReflTransGen RewriteStep

end Lity
