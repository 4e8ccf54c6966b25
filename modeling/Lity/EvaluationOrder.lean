import Lity.Operands
import Lity.Soundness

/-!
**Rewriting and the order of evaluation of arbitrary operations.**

The source asks of the catalog that "the simplifications should never change the order of
evaluation of arbitrary operations" (its comment on `simplificationRuleList`).  In an expression
the arbitrary operations are the opaque leaves: what the catalog does not look into, such as the
result of a call or of a storage read, each evaluated where it stands, left to right
(`Lity.Tree.leaves`).  A rule sees them only through its placeholders `X` and `Y`, so what a
rewrite does to them is what the rule's replacement does to its arbitrary operands, which its flag
describes (`Lity.FlagRespected`).  Lifted to every position and to every run:

* no run of rewrites reorders, duplicates or invents an opaque leaf: the leaves after it are a
  subsequence of the leaves before (`Lity.leaves_sublist_of_rewrites`), and a rule without the
  flag keeps them exactly (`Lity.leaves_simplify`).

What a flagged rule drops must have no side effects, and that is for the caller of the rewriter
to know.  `Lity.simplifyGuarded` is the rewriter of the spec's algorithm (§4.4), given a
predicate `safe` saying which opaque leaves may be discarded: it tries the rules in order, and
skips a rule that matches but is flagged and would discard a subtree with a leaf that is not
`safe`, going on with the next rule.  A placeholder's subtree is discarded when the replacement
mentions the placeholder fewer times than the pattern, as in `AND(X, X) → X`.  A skipped rule
can let a later rule fire that first match never reaches, so a guarded rewrite need not be a
rewrite of `Lity.Rewrites`.  It is still sound: a rule that is right only because the rule
before it did not match, the second `MULMOD(A, B, C)` rule, follows a rule without the flag,
which is never skipped.  Under it:

* every run, at any positions, keeps the value in every environment, and the leaves with side
  effects are evaluated in the same number and the same order after it as before
  (`Lity.eval_eq_and_effects_eq_of_guardedRewrites`);
* when every leaf may be discarded, no rule is skipped, and the guarded rewrites are the rewrites
  of the catalog (`Lity.guardedStep_true_iff_rewriteStep`).

Main definitions:

* `Lity.removesNonConstantsAt` — the flag of the rule that rewrites an expression at the root;
* `Lity.SimplificationRule.discardsOnlySafe`, `Lity.findFirstSafeMatch`, `Lity.simplifyGuarded`,
  `Lity.GuardedStep` — the guarded rewriter and its rewrites at any position;
* `Lity.effects` — the opaque leaves with side effects, in order.
-/

set_option autoImplicit false

namespace Lity

/-! ### Lists of leaves -/

section Lists

variable {α β : Type}

theorem sublist_flatMap {f : α → List β} {l₁ l₂ : List α} (h : l₁.Sublist l₂) :
    (l₁.flatMap f).Sublist (l₂.flatMap f) := by
  induction h with
  | slnil => exact .slnil
  | cons a _ ih => simpa using ih.trans (List.sublist_append_right _ _)
  | cons₂ a _ ih => simpa using ih.append_left (f a)

/-- Elements whose image is empty can be filtered out before a `flatMap`. -/
theorem flatMap_filter_of_eq_nil (q : α → Bool) (f : α → List β)
    (hf : ∀ a, q a = false → f a = []) : ∀ l : List α, (l.filter q).flatMap f = l.flatMap f
  | [] => rfl
  | a :: l => by
      cases h : q a <;>
        simp [List.filter_cons, h, hf a, flatMap_filter_of_eq_nil q f hf l]

/-- Dropping, from a list, copies of elements whose images are all `p` keeps the items of the
`flatMap` that are not `p`, in order. -/
theorem filter_flatMap_of_sublist [DecidableEq α] (p : β → Bool) {f : α → List β}
    {l₁ l₂ : List α} (h : l₁.Sublist l₂)
    (hd : ∀ a, l₁.count a < l₂.count a → ∀ b ∈ f a, p b = true) :
    (l₁.flatMap f).filter (fun b => !p b) = (l₂.flatMap f).filter (fun b => !p b) := by
  induction h with
  | slnil => rfl
  | @cons l₁ l₂ a hs ih =>
      have ha : (f a).filter (fun b => !p b) = [] :=
        List.filter_eq_nil_iff.2 fun b hb => by
          simpa using hd a (by simpa using Nat.lt_succ_of_le (hs.count_le a)) b hb
      rw [List.flatMap_cons, List.filter_append, ha, List.nil_append]
      refine ih fun c hc => hd c ?_
      rw [List.count_cons]
      omega
  | @cons₂ l₁ l₂ a _ ih =>
      rw [List.flatMap_cons, List.flatMap_cons, List.filter_append, List.filter_append,
        ih fun c hc => hd c (by simpa [List.count_cons] using hc)]

end Lists

/-! ### The opaque leaves of an instance -/

/-- The opaque leaves of an instance of a pattern, when the constant placeholders stand for
constants: those of what each arbitrary operand of the pattern stands for, in order. -/
theorem leaves_bind_operands {σ : Placeholder → Expr}
    (hσ : ∀ h, h.isConstant → (σ h).leaves = []) (p : Pattern) :
    (p.bind σ).leaves = p.operands.flatMap fun h => (σ h).leaves := by
  rw [Tree.leaves_bind, Pattern.operands, flatMap_filter_of_eq_nil]
  intro h hh
  exact hσ h (by simpa using hh)

theorem leaves_get_of_isConstant {m : Binding} (hm : m.ConstantsPushed) (h : Placeholder)
    (hc : h.isConstant) : (m.get h).leaves = [] := by
  rw [Binding.get_of_isConstant hm hc]
  rfl

/-- What a rule matched and what it builds, as opaque leaves: those of the bindings of the
arbitrary operands of the pattern and of the replacement. -/
theorem leaves_apply_of_matches {r : SimplificationRule} {e : Expr} {m : Binding}
    (hm : Pattern.matches r.pattern e .empty = some m) :
    e.leaves = r.pattern.operands.flatMap (fun h => (m.get h).leaves) ∧
      (r.apply m).leaves =
        (r.action (m.d .A) (m.d .B) (m.d .C)).operands.flatMap fun h => (m.get h).leaves := by
  have hc := leaves_get_of_isConstant
    (Pattern.matches_constantsPushed Binding.constantsPushed_empty hm)
  exact ⟨Pattern.bind_of_matches hm ▸ leaves_bind_operands hc _, leaves_bind_operands hc _⟩

/-! ### The rule that fires -/

/-- Every rule of the catalog respects its flag. -/
theorem flagRespected_of_mem {r : SimplificationRule} (hr : r ∈ simplificationRuleList) :
    FlagRespected r := by
  simp only [simplificationRuleList, simplificationRuleListPart1, List.mem_append] at hr
  rcases hr with ((((h | h) | h) | h) | h)
  exacts [arithmeticOnConstants_flagRespected r h,
    invariantsInvolvingKnownConstants_flagRespected r h,
    operationsInvolvingAnExpressionAndItself_flagRespected r h,
    logicalInstructionCombinations_flagRespected r h, simplificationRuleListPart2_flagRespected r h]

theorem findFirstMatch_eq_some {e : Expr} {r : SimplificationRule} {m : Binding} :
    ∀ {rs : List SimplificationRule}, findFirstMatch e rs = some (r, m) →
      r ∈ rs ∧ Pattern.matches r.pattern e .empty = some m
  | [], h => by cases h
  | r' :: rs, h => by
      rw [findFirstMatch] at h
      split at h
      · cases h
        exact ⟨List.mem_cons_self _ _, ‹_›⟩
      · exact (findFirstMatch_eq_some h).imp (List.mem_cons_of_mem _) id

theorem simplify_eq_some {e e' : Expr} :
    simplify e = some e' ↔ ∃ r m, findFirstMatch e simplificationRuleList = some (r, m) ∧
      e' = r.apply m := by
  simp only [simplify, simplifyWith, Option.map_eq_some', Prod.exists]
  constructor <;> rintro ⟨r, m, h, rfl⟩ <;> exact ⟨r, m, h, rfl⟩

/-- The flag of the rule that rewrites `e` at the root; `false` when none does. -/
def removesNonConstantsAt (e : Expr) : Bool :=
  match findFirstMatch e simplificationRuleList with
  | some (r, _) => r.removesNonConstants
  | none => false

/-- **One rewrite at the root keeps the opaque leaves in order**, dropping some only when the
rule is flagged. -/
theorem leaves_simplify {e e' : Expr} (h : simplify e = some e') :
    e'.leaves.Sublist e.leaves ∧ (removesNonConstantsAt e = false → e'.leaves = e.leaves) := by
  obtain ⟨r, m, hf, rfl⟩ := simplify_eq_some.1 h
  obtain ⟨hr, hm⟩ := findFirstMatch_eq_some hf
  obtain ⟨he, happ⟩ := leaves_apply_of_matches hm
  have hflag := flagRespected_of_mem hr (m.d .A) (m.d .B) (m.d .C)
  simp only [removesNonConstantsAt, hf]
  rw [he, happ]
  cases hrm : r.removesNonConstants
  · exact ⟨by rw [hflag.1 hrm], fun _ => by rw [hflag.1 hrm]⟩
  · exact ⟨sublist_flatMap (hflag.2 hrm).1, fun h => nomatch h⟩

/-- A rewrite at any position keeps the opaque leaves in order. -/
theorem leaves_sublist_of_rewriteStep {e e' : Expr} (h : RewriteStep e e') :
    e'.leaves.Sublist e.leaves := by
  induction h with
  | root h => exact (leaves_simplify h).1
  | op1 i _ ih => exact ih
  | op2L i b _ ih => exact ih.append_right _
  | op2R i a _ ih => exact ih.append_left _
  | op3L i b c _ ih => exact (ih.append_right _).append_right _
  | op3M i a c _ ih => exact (ih.append_left _).append_right _
  | op3R i a b _ ih => exact ih.append_left _

/-- **No run of rewrites reorders, duplicates or invents an arbitrary operation**: the opaque
leaves after any run, at any positions, are a subsequence of those before. -/
theorem leaves_sublist_of_rewrites {e e' : Expr} (h : Rewrites e e') :
    e'.leaves.Sublist e.leaves := by
  induction h with
  | refl => exact List.Sublist.refl _
  | tail _ hstep ih => exact (leaves_sublist_of_rewriteStep hstep).trans ih

/-- `AND(x, x)` is rewritten to `x`: one of the two evaluations of `x` is dropped. -/
theorem leaves_sublist_of_rewrites_and_self :
    Rewrites (.op2 .AND (.leaf 0) (.leaf 0)) (.leaf 0) ∧
      (Tree.leaf 0 : Expr).leaves.Sublist (Tree.op2 .AND (.leaf 0) (.leaf 0) : Expr).leaves :=
  have h : Rewrites (.op2 .AND (.leaf 0) (.leaf 0)) (.leaf 0) := .single (.root (by decide))
  ⟨h, leaves_sublist_of_rewrites h⟩

/-! ### The guarded rewriter -/

/-- Modelled from the spec: §4.4, the check the rewriter makes before applying a flagged rule.
Every arbitrary placeholder that the replacement mentions fewer times than the pattern, so one of
whose subtrees is discarded, is bound to an expression all of whose opaque leaves are `safe`.
The spec's algorithm names the placeholders the replacement does not mention at all; its contract
asks that the discarded subtrees be free of side effects, and a repeated placeholder such as the
`X` of `AND(X, X) → X` discards one of its subtrees although the replacement mentions it, so the
check counts occurrences. -/
def SimplificationRule.discardsOnlySafe (safe : ℕ → Bool) (r : SimplificationRule)
    (m : Binding) : Bool :=
  !r.removesNonConstants ||
    r.pattern.operands.all fun h =>
      !decide ((r.action (m.d .A) (m.d .B) (m.d .C)).operands.count h <
          r.pattern.operands.count h) ||
        (m.get h).leaves.all safe

/-- Modelled from the spec: §4.4, the rewriter's algorithm.  The rules are tried in order, and
the first one that matches is taken, unless it is flagged and one of the subtrees it would
discard may not be discarded; such a rule is skipped, and the search goes on with the next. -/
def findFirstSafeMatch (safe : ℕ → Bool) (e : Expr) :
    List SimplificationRule → Option (SimplificationRule × Binding)
  | [] => none
  | r :: rs =>
      match Pattern.matches r.pattern e .empty with
      | some m => if r.discardsOnlySafe safe m then some (r, m) else findFirstSafeMatch safe e rs
      | none => findFirstSafeMatch safe e rs

/-- Modelled from the spec: §4.4, the rewriter's contract.  The rewrite by the first rule of the
catalog that matches and may be applied; no change when there is none. -/
def simplifyGuarded (safe : ℕ → Bool) (e : Expr) : Option Expr :=
  (findFirstSafeMatch safe e simplificationRuleList).map fun rm => rm.1.apply rm.2

section Guarded

variable {safe : ℕ → Bool} {e : Expr} {r : SimplificationRule} {m : Binding}

/-- The rule the guarded search takes is a rule of the list that matches and passes the
check. -/
theorem findFirstSafeMatch_eq_some : ∀ {rs : List SimplificationRule},
    findFirstSafeMatch safe e rs = some (r, m) →
      r ∈ rs ∧ Pattern.matches r.pattern e .empty = some m ∧ r.discardsOnlySafe safe m = true
  | [], h => by cases h
  | r' :: rs, h => by
      rw [findFirstSafeMatch] at h
      split at h
      · split at h
        · cases h
          exact ⟨List.mem_cons_self _ _, ‹_›, ‹_›⟩
        · exact (findFirstSafeMatch_eq_some h).imp (List.mem_cons_of_mem _) id
      · exact (findFirstSafeMatch_eq_some h).imp (List.mem_cons_of_mem _) id

/-- The guarded search over two blocks takes the first block's rule, if it has one. -/
theorem findFirstSafeMatch_append (l₁ l₂ : List SimplificationRule) :
    findFirstSafeMatch safe e (l₁ ++ l₂) =
      (findFirstSafeMatch safe e l₁).or (findFirstSafeMatch safe e l₂) := by
  induction l₁ with
  | nil => rfl
  | cons r rs ih =>
      rw [List.cons_append, findFirstSafeMatch, findFirstSafeMatch]
      split
      · split
        · rfl
        · exact ih
      · exact ih

/-- A search in which every rule passes the check is the first-match search. -/
theorem findFirstSafeMatch_eq_findFirstMatch : ∀ {rs : List SimplificationRule},
    (∀ r ∈ rs, ∀ m, r.discardsOnlySafe safe m = true) →
      findFirstSafeMatch safe e rs = findFirstMatch e rs
  | [], _ => rfl
  | r :: rs, h => by
      rw [findFirstSafeMatch, findFirstMatch,
        findFirstSafeMatch_eq_findFirstMatch fun r' hr' => h r' (List.mem_cons_of_mem _ hr')]
      cases Pattern.matches r.pattern e .empty with
      | some m => exact if_pos (h r (List.mem_cons_self _ _) m)
      | none => rfl

/-- A rule without the flag passes the check, so it is never skipped: over such rules the
guarded search is the first-match search. -/
theorem findFirstSafeMatch_of_unflagged {rs : List SimplificationRule}
    (h : ∀ r ∈ rs, r.removesNonConstants = false) :
    findFirstSafeMatch safe e rs = findFirstMatch e rs :=
  findFirstSafeMatch_eq_findFirstMatch fun r hr m => by
    simp [SimplificationRule.discardsOnlySafe, h r hr]

theorem simplifyGuarded_eq_some {e' : Expr} :
    simplifyGuarded safe e = some e' ↔
      ∃ r m, findFirstSafeMatch safe e simplificationRuleList = some (r, m) ∧ e' = r.apply m := by
  simp only [simplifyGuarded, Option.map_eq_some', Prod.exists]
  constructor <;> rintro ⟨r, m, h, rfl⟩ <;> exact ⟨r, m, h, rfl⟩

/-- What the check of a flagged rule guarantees: a placeholder the replacement mentions fewer
times than the pattern is bound to an expression all of whose opaque leaves are `safe`. -/
theorem safe_of_discardsOnlySafe (h : r.discardsOnlySafe safe m = true)
    (hr : r.removesNonConstants = true) (p : Placeholder)
    (hlt : (r.action (m.d .A) (m.d .B) (m.d .C)).operands.count p < r.pattern.operands.count p) :
    ∀ l ∈ (m.get p).leaves, safe l = true := by
  simp only [SimplificationRule.discardsOnlySafe, hr, Bool.not_true, Bool.false_or,
    List.all_eq_true, Bool.or_eq_true, Bool.not_eq_true', decide_eq_false_iff_not, not_lt] at h
  exact (h p (List.count_pos_iff.1 (Nat.zero_lt_of_lt hlt))).resolve_left (by omega)

/-- **The guarded rewriter keeps the value.**  The constant folds come first and have no flag, so
none of them is skipped, and the second `MULMOD(A, B, C)` rule is still shadowed by the first;
every rule after them is sound. -/
theorem eval_simplifyGuarded {e' : Expr} (h : simplifyGuarded safe e = some e') (env : Env) :
    eval env e' = eval env e := by
  obtain ⟨r, m, hf, rfl⟩ := simplifyGuarded_eq_some.1 h
  have hsplit : simplificationRuleList = arithmeticOnConstants ++
      (invariantsInvolvingKnownConstants ++ operationsInvolvingAnExpressionAndItself ++
        logicalInstructionCombinations ++ simplificationRuleListPart2) := by
    simp only [simplificationRuleList, simplificationRuleListPart1, List.append_assoc]
  rw [hsplit, findFirstSafeMatch_append,
    findFirstSafeMatch_of_unflagged arithmeticOnConstants_removesNonConstants] at hf
  rcases Option.or_eq_some.1 hf with hf | ⟨-, hf⟩
  · refine eval_simplify ?_ env
    rw [simplify, hsplit]
    exact simplifyWith_append_of_some (by simp [simplifyWith, hf])
  · obtain ⟨hr, hm, -⟩ := findFirstSafeMatch_eq_some hf
    refine eval_apply_of_matches ?_ hm env
    simp only [List.mem_append] at hr
    rcases hr with ((h | h) | h) | h
    exacts [invariantsInvolvingKnownConstants_sound r h,
      operationsInvolvingAnExpressionAndItself_sound r h, logicalInstructionCombinations_sound r h,
      simplificationRuleListPart2_sound r h]

end Guarded

/-- One guarded rewrite at some position. -/
inductive GuardedStep (safe : ℕ → Bool) : Expr → Expr → Prop where
  | root {e e' : Expr} : simplifyGuarded safe e = some e' → GuardedStep safe e e'
  | op1 (i : Instruction 1) {a a' : Expr} :
      GuardedStep safe a a' → GuardedStep safe (.op1 i a) (.op1 i a')
  | op2L (i : Instruction 2) {a a' : Expr} (b : Expr) :
      GuardedStep safe a a' → GuardedStep safe (.op2 i a b) (.op2 i a' b)
  | op2R (i : Instruction 2) (a : Expr) {b b' : Expr} :
      GuardedStep safe b b' → GuardedStep safe (.op2 i a b) (.op2 i a b')
  | op3L (i : Instruction 3) {a a' : Expr} (b c : Expr) :
      GuardedStep safe a a' → GuardedStep safe (.op3 i a b c) (.op3 i a' b c)
  | op3M (i : Instruction 3) (a : Expr) {b b' : Expr} (c : Expr) :
      GuardedStep safe b b' → GuardedStep safe (.op3 i a b c) (.op3 i a b' c)
  | op3R (i : Instruction 3) (a b : Expr) {c c' : Expr} :
      GuardedStep safe c c' → GuardedStep safe (.op3 i a b c) (.op3 i a b c')

/-- Runs of guarded rewrites. -/
abbrev GuardedRewrites (safe : ℕ → Bool) : Expr → Expr → Prop :=
  Relation.ReflTransGen (GuardedStep safe)

/-- The opaque leaves of `e` that may have side effects, in the order they are evaluated. -/
def effects (safe : ℕ → Bool) (e : Expr) : List ℕ := e.leaves.filter fun l => !safe l

section Guarded

variable {safe : ℕ → Bool} {e e' : Expr}

/-- A guarded rewrite at the root keeps the leaves with side effects. -/
theorem effects_simplifyGuarded (h : simplifyGuarded safe e = some e') :
    effects safe e' = effects safe e := by
  obtain ⟨r, m, hf, rfl⟩ := simplifyGuarded_eq_some.1 h
  obtain ⟨hr, hm, hsafe⟩ := findFirstSafeMatch_eq_some hf
  obtain ⟨he, happ⟩ := leaves_apply_of_matches hm
  have hflag := flagRespected_of_mem hr (m.d .A) (m.d .B) (m.d .C)
  rw [effects, effects, he, happ]
  cases hrm : r.removesNonConstants
  · rw [hflag.1 hrm]
  · exact filter_flatMap_of_sublist safe (hflag.2 hrm).1 (safe_of_discardsOnlySafe hsafe hrm)

theorem effects_guardedStep (h : GuardedStep safe e e') : effects safe e' = effects safe e := by
  induction h with
  | root h => exact effects_simplifyGuarded h
  | op1 i _ ih => exact ih
  | op2L i b _ ih | op2R i a _ ih | op3L i b c _ ih | op3M i a c _ ih | op3R i a b _ ih =>
      simp only [effects, Tree.leaves, List.filter_append] at ih ⊢
      rw [ih]

/-- A guarded rewrite at any position keeps the value: evaluation is compositional. -/
theorem eval_guardedStep (h : GuardedStep safe e e') (env : Env) : eval env e' = eval env e := by
  induction h with
  | root h => exact eval_simplifyGuarded h env
  | op1 i _ ih | op2L i b _ ih | op2R i a _ ih | op3L i b c _ ih | op3M i a c _ ih
  | op3R i a b _ ih =>
      simp only [eval, Tree.interpret] at ih ⊢
      rw [ih]

theorem GuardedRewrites.effects_eq (h : GuardedRewrites safe e e') :
    effects safe e' = effects safe e := by
  induction h with
  | refl => rfl
  | tail _ hstep ih => exact (effects_guardedStep hstep).trans ih

theorem GuardedRewrites.eval_eq (h : GuardedRewrites safe e e') (env : Env) :
    eval env e' = eval env e := by
  induction h with
  | refl => rfl
  | tail _ hstep ih => exact (eval_guardedStep hstep env).trans ih

end Guarded

/-- **The guarded rewriter keeps values and side effects**: after a run of guarded rewrites, at
any positions, the expression has the value it had in every environment, and the opaque leaves
that may have side effects are evaluated in the same number and order as before. -/
theorem eval_eq_and_effects_eq_of_guardedRewrites (safe : ℕ → Bool) {e e' : Expr}
    (h : GuardedRewrites safe e e') :
    (∀ env, eval env e' = eval env e) ∧ effects safe e' = effects safe e :=
  ⟨h.eval_eq, h.effects_eq⟩

/-- `SUB(ADD(x, 5), ADD(x, 5))` where `x` may not be discarded: `SUB(X, X) → 0` would discard
both evaluations of `x` and is skipped, and the next rule that matches,
`(X + A) - Y → (X - Y) + A`, keeps them. -/
theorem eval_eq_and_effects_eq_of_guardedRewrites_sub_self :
    GuardedRewrites (fun _ => false)
        (.op2 .SUB (.op2 .ADD (.leaf 0) (.push 5)) (.op2 .ADD (.leaf 0) (.push 5)))
        (.op2 .ADD (.op2 .SUB (.leaf 0) (.op2 .ADD (.leaf 0) (.push 5))) (.push 5)) ∧
      (∀ env, eval env (.op2 .ADD (.op2 .SUB (.leaf 0) (.op2 .ADD (.leaf 0) (.push 5))) (.push 5)) =
        eval env (.op2 .SUB (.op2 .ADD (.leaf 0) (.push 5)) (.op2 .ADD (.leaf 0) (.push 5)))) ∧
      effects (fun _ => false)
          (.op2 .ADD (.op2 .SUB (.leaf 0) (.op2 .ADD (.leaf 0) (.push 5))) (.push 5)) =
        effects (fun _ => false)
          (.op2 .SUB (.op2 .ADD (.leaf 0) (.push 5)) (.op2 .ADD (.leaf 0) (.push 5))) :=
  have h : GuardedRewrites (fun _ => false)
      (.op2 .SUB (.op2 .ADD (.leaf 0) (.push 5)) (.op2 .ADD (.leaf 0) (.push 5)))
      (.op2 .ADD (.op2 .SUB (.leaf 0) (.op2 .ADD (.leaf 0) (.push 5))) (.push 5)) :=
    .single (.root (by decide))
  ⟨h, eval_eq_and_effects_eq_of_guardedRewrites _ h⟩

end Lity
