import Lity.EvaluationOrder
import Lity.Soundness
import Lity.Termination

/-!
**The driver: rewriting bottom-up until a pass changes nothing.**

The rewriter looks at the expression it is given and not into its operands; the caller walks the
expression bottom-up and repeats until a pass changes nothing (the spec, §4.4).  The driver is
not among the sources, and it is modelled here from that description, on top of the guarded
rewriter `Lity.simplifyGuarded`: one pass (`Lity.pass`) rewrites the operands of a node first
and then tries the rewriter once on the node they make, and `Lity.optimize` repeats passes.

`Lity.optimize` is a function: it stops on every expression, because every pass that changes
the expression is a non-empty run of guarded rewrites, and each lowers the cost (`Lity.cost`).
A guarded rewrite applies a rule that first match may not reach, after skipped flagged rules;
it still lowers the cost, because the rules that lower it only when the rule before them did not
match, the reassociations and moves with a non-constant `Y`, follow rules without the flag, which
are never skipped.  When it stops, a further pass changes nothing, and that means that the
guarded rewriter applies at no position at all: a rewrite the pass missed at some node would have
made the pass change something there.

Main definitions:

* `Lity.Tree.size` — the number of nodes;
* `Lity.rewriteRoot`, `Lity.pass`, `Lity.optimize` — the driver.

Main results:

* `Lity.size_le_of_rewrites` — **no run of rewrites makes an expression larger**;
* `Lity.optimize_spec` — **the driver returns, for every expression, an expression that the
  guarded rewriter rewrites at no position, reached from it by a run of guarded rewrites, with
  its value in every environment and its leaves with side effects in the same order**.
-/

set_option autoImplicit false

namespace Lity

/-! ### Size -/

/-- The number of nodes of a tree. -/
def Tree.size {α : Type} : Tree α → ℕ
  | .leaf _ | .push _ | .op0 _ => 1
  | .op1 _ a => a.size + 1
  | .op2 _ a b => a.size + b.size + 1
  | .op3 _ a b c => a.size + b.size + c.size + 1

/-- The first component of the cost is the size. -/
theorem cost_fst (e : Expr) : (cost e).1 = e.size := by
  induction e <;> simp_all [cost, Tree.interpret, costInterp, Tree.size]

theorem size_le_of_rewriteStep {e e' : Expr} (h : RewriteStep e e') : e'.size ≤ e.size := by
  have := costLt_iff.1 (costLt_of_rewriteStep h)
  rw [cost_fst, cost_fst] at this
  omega

/-- **No run of rewrites makes an expression larger**: every rule of the catalog, applied
first-match at any position, keeps or lowers the number of nodes. -/
theorem size_le_of_rewrites {e e' : Expr} (h : Rewrites e e') : e'.size ≤ e.size := by
  induction h with
  | refl => exact le_rfl
  | tail _ hstep ih => exact (size_le_of_rewriteStep hstep).trans ih

/-- `(x + 3) + 5` is rewritten to `x + 8`, one node smaller. -/
theorem size_le_of_rewrites_reassociate :
    Rewrites (.op2 .ADD (.op2 .ADD (.leaf 0) (.push 3)) (.push 5)) (.op2 .ADD (.leaf 0) (.push 8)) ∧
      (Tree.op2 .ADD (.leaf 0) (.push 8) : Expr).size ≤
        (Tree.op2 .ADD (.op2 .ADD (.leaf 0) (.push 3)) (.push 5) : Expr).size :=
  have h : Rewrites (.op2 .ADD (.op2 .ADD (.leaf 0) (.push 3)) (.push 5))
      (.op2 .ADD (.leaf 0) (.push 8)) := .single (.root (by decide))
  ⟨h, size_le_of_rewrites h⟩

/-! ### Runs of guarded rewrites -/

theorem costLt_irrefl (x : Cost) : ¬ CostLt x x := by
  rw [costLt_iff]
  omega

theorem CostLt.trans {x y z : Cost} (h₁ : CostLt x y) (h₂ : CostLt y z) : CostLt x z := by
  rw [costLt_iff] at *
  omega

section Guarded

variable {safe : ℕ → Bool}

/-- **A guarded rewrite at the root lowers the cost.**  The first part of the catalog lowers it
whatever came before; the second has no flagged rule, so the guarded search over it is the
first-match search, which lowers it. -/
theorem costLt_of_simplifyGuarded {e e' : Expr} (h : simplifyGuarded safe e = some e') :
    CostLt (cost e') (cost e) := by
  obtain ⟨r, m, hf, rfl⟩ := simplifyGuarded_eq_some.1 h
  rw [simplificationRuleList, findFirstSafeMatch_append,
    findFirstSafeMatch_of_unflagged simplificationRuleListPart2_removesNonConstants] at hf
  rcases Option.or_eq_some.1 hf with hf | ⟨-, hf⟩
  · obtain ⟨hr, hm, -⟩ := findFirstSafeMatch_eq_some hf
    exact decrease_apply_of_matches (simplificationRuleListPart1_decreases r hr) hm
  · exact simplificationRuleListPart2_decrease e _ trivial (by simp [simplifyWith, hf])

theorem costLt_of_guardedStep {e e' : Expr} (h : GuardedStep safe e e') :
    CostLt (cost e') (cost e) := by
  induction h with
  | root h => exact costLt_of_simplifyGuarded h
  | op1 i _ ih => exact costLt_op1 i ih
  | op2L i b _ ih => exact costLt_op2_left i (one_le_weight b) ih
  | op2R i a _ ih => exact costLt_op2_right i ih
  | op3L i b c _ ih => exact costLt_op3_left i ih
  | op3M i a c _ ih => exact costLt_op3_mid i ih
  | op3R i a b _ ih => exact costLt_op3_right i ih

/-- A run that changes the expression lowers its cost. -/
theorem eq_or_costLt_of_guardedRewrites {e e' : Expr} (h : GuardedRewrites safe e e') :
    e' = e ∨ CostLt (cost e') (cost e) := by
  induction h with
  | refl => exact .inl rfl
  | tail _ hstep ih =>
      have hlt := costLt_of_guardedStep hstep
      rcases ih with rfl | ih
      exacts [.inr hlt, .inr (hlt.trans ih)]

theorem GuardedRewrites.op1 (i : Instruction 1) {a a' : Expr} (h : GuardedRewrites safe a a') :
    GuardedRewrites safe (.op1 i a) (.op1 i a') :=
  h.lift _ fun _ _ => GuardedStep.op1 i

theorem GuardedRewrites.op2 (i : Instruction 2) {a a' b b' : Expr} (ha : GuardedRewrites safe a a')
    (hb : GuardedRewrites safe b b') : GuardedRewrites safe (.op2 i a b) (.op2 i a' b') :=
  (ha.lift (fun x => Tree.op2 i x b) fun _ _ => GuardedStep.op2L i b).trans
    (hb.lift (Tree.op2 i a') fun _ _ => GuardedStep.op2R i a')

theorem GuardedRewrites.op3 (i : Instruction 3) {a a' b b' c c' : Expr}
    (ha : GuardedRewrites safe a a') (hb : GuardedRewrites safe b b')
    (hc : GuardedRewrites safe c c') : GuardedRewrites safe (.op3 i a b c) (.op3 i a' b' c') :=
  ((ha.lift (fun x => Tree.op3 i x b c) fun _ _ => GuardedStep.op3L i b c).trans
    (hb.lift (fun x => Tree.op3 i a' x c) fun _ _ => GuardedStep.op3M i a' c)).trans
      (hc.lift (Tree.op3 i a' b') fun _ _ => GuardedStep.op3R i a' b')

/-! ### One pass -/

variable (safe)

/-- The rewriter tried once at the root: its result, or the expression when it does not
apply. -/
def rewriteRoot (e : Expr) : Expr := (simplifyGuarded safe e).getD e

/-- Modelled from the spec: §4.4, "the caller is responsible for bottom-up traversal".  One pass
of the driver, which rewrites the operands of a node and then tries the rewriter on the node they
make. -/
def pass : Expr → Expr
  | .leaf n => rewriteRoot safe (.leaf n)
  | .push w => rewriteRoot safe (.push w)
  | .op0 i => rewriteRoot safe (.op0 i)
  | .op1 i a => rewriteRoot safe (.op1 i (pass a))
  | .op2 i a b => rewriteRoot safe (.op2 i (pass a) (pass b))
  | .op3 i a b c => rewriteRoot safe (.op3 i (pass a) (pass b) (pass c))

variable {safe}

theorem guardedRewrites_rewriteRoot (e : Expr) : GuardedRewrites safe e (rewriteRoot safe e) := by
  rw [rewriteRoot]
  cases h : simplifyGuarded safe e with
  | none => exact .refl
  | some e' => exact .single (.root h)

theorem guardedRewrites_pass (e : Expr) : GuardedRewrites safe e (pass safe e) := by
  induction e with
  | leaf n => exact guardedRewrites_rewriteRoot _
  | push w => exact guardedRewrites_rewriteRoot _
  | op0 i => exact guardedRewrites_rewriteRoot _
  | op1 i a iha => exact (iha.op1 i).trans (guardedRewrites_rewriteRoot _)
  | op2 i a b iha ihb => exact (iha.op2 i ihb).trans (guardedRewrites_rewriteRoot _)
  | op3 i a b c iha ihb ihc => exact (iha.op3 i ihb ihc).trans (guardedRewrites_rewriteRoot _)

/-- If trying the rewriter at the root of `t`, which `e` rewrites to, gives back `e`, then the
rewriter did not apply: `t` is `e`, and the rewriter does not apply to `e`. -/
theorem eq_of_rewriteRoot_eq {e t : Expr} (hrun : GuardedRewrites safe e t)
    (h : rewriteRoot safe t = e) : t = e ∧ simplifyGuarded safe e = none := by
  rw [rewriteRoot] at h
  cases ht : simplifyGuarded safe t with
  | some t' =>
      rw [ht, Option.getD_some] at h
      subst h
      have hlt := costLt_of_simplifyGuarded ht
      rcases eq_or_costLt_of_guardedRewrites hrun with rfl | hle
      exacts [absurd hlt (costLt_irrefl _), absurd (hlt.trans hle) (costLt_irrefl _)]
  | none =>
      rw [ht, Option.getD_none] at h
      exact ⟨h, h ▸ ht⟩

/-- **A pass that changes nothing leaves nothing to rewrite**: then the guarded rewriter applies at
no position. -/
theorem not_guardedStep_of_pass_eq {e : Expr} (h : pass safe e = e) (e' : Expr) :
    ¬ GuardedStep safe e e' := by
  induction e generalizing e' with
  | leaf n | push w | op0 i =>
      have hn := (eq_of_rewriteRoot_eq .refl h).2
      intro hs
      cases hs with
      | root hs => simp [hn] at hs
  | op1 i a iha =>
      obtain ⟨ht, hn⟩ := eq_of_rewriteRoot_eq ((guardedRewrites_pass a).op1 i) h
      injection ht with _ ha
      intro hs
      cases hs with
      | root hs => simp [hn] at hs
      | op1 i hs => exact iha ha _ hs
  | op2 i a b iha ihb =>
      obtain ⟨ht, hn⟩ := eq_of_rewriteRoot_eq ((guardedRewrites_pass a).op2 i (guardedRewrites_pass b)) h
      injection ht with _ ha hb
      intro hs
      cases hs with
      | root hs => simp [hn] at hs
      | op2L i b hs => exact iha ha _ hs
      | op2R i a hs => exact ihb hb _ hs
  | op3 i a b c iha ihb ihc =>
      obtain ⟨ht, hn⟩ := eq_of_rewriteRoot_eq
        ((guardedRewrites_pass a).op3 i (guardedRewrites_pass b) (guardedRewrites_pass c)) h
      injection ht with _ ha hb hc
      intro hs
      cases hs with
      | root hs => simp [hn] at hs
      | op3L i b c hs => exact iha ha _ hs
      | op3M i a c hs => exact ihb hb _ hs
      | op3R i a b hs => exact ihc hc _ hs

/-! ### The fixed point -/

variable (safe)

/-- Modelled from the spec: §4.4, "the driver repeats rewriting bottom-up until a pass changes
nothing".  A pass that changes the expression lowers its cost, so the loop stops. -/
def optimize (e : Expr) : Expr :=
  if h : pass safe e = e then e else optimize (pass safe e)
termination_by cost e
decreasing_by
  exact (eq_or_costLt_of_guardedRewrites (guardedRewrites_pass e)).resolve_left h

/-- **The driver is correct**: it stops on every expression, with an expression that the guarded
rewriter rewrites at no position, reached by a run of guarded rewrites, with the value of the
expression it started from in every environment, and with its leaves that may have side effects
in the same number and order. -/
theorem optimize_spec (e : Expr) :
    GuardedRewrites safe e (optimize safe e) ∧ (∀ e', ¬ GuardedStep safe (optimize safe e) e') ∧
      (∀ env, eval env (optimize safe e) = eval env e) ∧
        effects safe (optimize safe e) = effects safe e := by
  have key : GuardedRewrites safe e (optimize safe e) ∧ ∀ e', ¬ GuardedStep safe (optimize safe e) e' := by
    induction e using optimize.induct safe with
    | case1 e h =>
        rw [optimize, dif_pos h]
        exact ⟨.refl, not_guardedStep_of_pass_eq h⟩
    | case2 e h ih =>
        rw [optimize, dif_neg h]
        exact ⟨(guardedRewrites_pass e).trans ih.1, ih.2⟩
  exact ⟨key.1, key.2, key.1.eval_eq, key.1.effects_eq⟩

end Guarded

end Lity
