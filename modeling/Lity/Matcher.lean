import Lity.Expression

/-!
**Matching a pattern against an expression.**

The matcher walks the pattern and the expression together.  A constant must be the same
constant and an instruction the same instruction, with the operands matched left to right.  A
placeholder first checks its kind (`A`, `B`, `C` only match constants) and then its match
group: the first occurrence binds the expression, a later one must meet a structurally equal
expression.  The matcher's code is not among the sources; `Lity.Pattern.matches` follows the
spec's description of it (§4.2), which is also what the rule list's patterns assume.

The contract of the spec is that a successful match produces a binding that, substituted into
the pattern, reproduces the expression.  Both directions hold:

* `Lity.Pattern.matches_sound` — a match reproduces the expression, and later bindings only
  extend earlier ones;
* `Lity.Pattern.matches_complete` — every instance of a pattern, with constants for the
  constant placeholders, is matched;
* `Lity.Pattern.matches_constantsPushed` — the constant placeholders are only ever bound to
  constants, so `Binding.d` reads the constant they matched (`Lity.Binding.get_of_isConstant`);
* `Lity.Pattern.matches_isSome_iff` — together: a pattern matches exactly its instances.
-/

set_option autoImplicit false

namespace Lity

/-- Modelled from the spec: §4.2, the match groups, the expression each placeholder is bound
to. -/
abbrev Binding := Placeholder → Option Expr

namespace Binding

/-- No placeholder bound: the state at the start of each rule (`resetMatchGroups`). -/
def empty : Binding := fun _ => none

/-- The expression a placeholder was bound to; an unbound one reads as the constant `0`. -/
def get (m : Binding) (h : Placeholder) : Expr := (m h).getD (.push 0)

/-- Modelled from the spec: the constant a placeholder was bound to (the rules' `A.d()`). -/
def d (m : Binding) (h : Placeholder) : Word :=
  match m.get h with
  | .push w => w
  | _ => 0

/-- Bind a placeholder, or check that it is already bound to the same expression. -/
def bindGroup (m : Binding) (h : Placeholder) (e : Expr) : Option Binding :=
  match m h with
  | none => some (Function.update m h (some e))
  | some e₀ => if e₀ = e then some m else none

/-- `m'` keeps every binding of `m`. -/
def Extends (m m' : Binding) : Prop := ∀ h e, m h = some e → m' h = some e

/-- The constant placeholders are bound to constants only. -/
def ConstantsPushed (m : Binding) : Prop := ∀ h, h.isConstant → ∀ e, m h = some e → e.isPush

theorem Extends.trans {m₁ m₂ m₃ : Binding} (h₁ : m₁.Extends m₂) (h₂ : m₂.Extends m₃) :
    m₁.Extends m₃ := fun h e he => h₂ h e (h₁ h e he)

theorem get_of_eq {m : Binding} {h : Placeholder} {e : Expr} (he : m h = some e) :
    m.get h = e := by
  simp [get, he]

theorem constantsPushed_empty : empty.ConstantsPushed := fun _ _ _ he => by cases he

/-- A constant placeholder reads as the constant `Binding.d` returns. -/
theorem get_of_isConstant {m : Binding} (hm : m.ConstantsPushed) {h : Placeholder}
    (hc : h.isConstant) : m.get h = .push (m.d h) := by
  cases hh : m h with
  | none => simp [d, get, hh]
  | some e =>
      have := hm h hc e hh
      cases e <;> simp_all [d, get, Tree.isPush]

end Binding

/-- Modelled from the spec: §4.2, match `p` against `e`, extending the bindings `m`. -/
def Pattern.matches : Pattern → Expr → Binding → Option Binding
  | .leaf h, e, m => if h.isConstant && !e.isPush then none else m.bindGroup h e
  | .push w, .push v, m => if w = v then some m else none
  | .op0 i, .op0 j, m => if i = j then some m else none
  | .op1 i p, .op1 j e, m => if i = j then Pattern.matches p e m else none
  | .op2 i p q, .op2 j e f, m =>
      if i = j then (Pattern.matches p e m).bind (Pattern.matches q f) else none
  | .op3 i p q r, .op3 j e f g, m =>
      if i = j then
        ((Pattern.matches p e m).bind (Pattern.matches q f)).bind (Pattern.matches r g)
      else none
  | _, _, _ => none

namespace Pattern

open Binding

/-! ### What a successful match is made of -/

theorem bindGroup_eq_some {m m' : Binding} {h : Placeholder} {e : Expr} :
    m.bindGroup h e = some m' ↔
      m h = none ∧ m' = Function.update m h (some e) ∨ m h = some e ∧ m' = m := by
  unfold bindGroup
  split <;> rename_i hh <;> simp [hh, eq_comm]

theorem matches_leaf_eq_some {h : Placeholder} {e : Expr} {m₀ m : Binding} :
    Pattern.matches (.leaf h) e m₀ = some m ↔
      (h.isConstant = true → e.isPush = true) ∧ m₀.bindGroup h e = some m := by
  simp only [Pattern.matches]
  split <;> simp_all

theorem matches_push_eq_some {w : Word} {e : Expr} {m₀ m : Binding} :
    Pattern.matches (.push w) e m₀ = some m ↔ e = .push w ∧ m = m₀ := by
  cases e <;> simp [Pattern.matches, eq_comm]

theorem matches_op0_eq_some {i : Instruction 0} {e : Expr} {m₀ m : Binding} :
    Pattern.matches (.op0 i) e m₀ = some m ↔ e = .op0 i ∧ m = m₀ := by
  cases e <;> simp [Pattern.matches, eq_comm]

theorem matches_op1_eq_some {i : Instruction 1} {p : Pattern} {e : Expr} {m₀ m : Binding} :
    Pattern.matches (.op1 i p) e m₀ = some m ↔
      ∃ a, e = .op1 i a ∧ Pattern.matches p a m₀ = some m := by
  refine ⟨fun h => ?_, fun ⟨a, he, h⟩ => by simp [he, Pattern.matches, h]⟩
  cases e <;> simp only [Pattern.matches, Option.ite_none_right_eq_some, reduceCtorEq] at h
  obtain ⟨rfl, h⟩ := h
  exact ⟨_, rfl, h⟩

theorem matches_op2_eq_some {i : Instruction 2} {p q : Pattern} {e : Expr} {m₀ m : Binding} :
    Pattern.matches (.op2 i p q) e m₀ = some m ↔ ∃ a b m₁, e = .op2 i a b ∧
      Pattern.matches p a m₀ = some m₁ ∧ Pattern.matches q b m₁ = some m := by
  refine ⟨fun h => ?_, fun ⟨a, b, m₁, he, hp, hq⟩ => by simp [he, Pattern.matches, hp, hq]⟩
  cases e <;> simp only [Pattern.matches, Option.ite_none_right_eq_some, reduceCtorEq,
    Option.bind_eq_some] at h
  obtain ⟨rfl, m₁, hp, hq⟩ := h
  exact ⟨_, _, m₁, rfl, hp, hq⟩

theorem matches_op3_eq_some {i : Instruction 3} {p q r : Pattern} {e : Expr} {m₀ m : Binding} :
    Pattern.matches (.op3 i p q r) e m₀ = some m ↔ ∃ a b c m₁ m₂, e = .op3 i a b c ∧
      Pattern.matches p a m₀ = some m₁ ∧ Pattern.matches q b m₁ = some m₂ ∧
        Pattern.matches r c m₂ = some m := by
  refine ⟨fun h => ?_, fun ⟨a, b, c, m₁, m₂, he, hp, hq, hr⟩ => by
    simp [he, Pattern.matches, hp, hq, hr]⟩
  cases e <;> simp only [Pattern.matches, Option.ite_none_right_eq_some, reduceCtorEq,
    Option.bind_eq_some] at h
  obtain ⟨rfl, m₂, ⟨m₁, hp, hq⟩, hr⟩ := h
  exact ⟨_, _, _, m₁, m₂, rfl, hp, hq, hr⟩

/-! ### Soundness -/

theorem matches_leaf_sound {h : Placeholder} {e : Expr} {m₀ m : Binding}
    (hm : Pattern.matches (.leaf h) e m₀ = some m) :
    m₀.Extends m ∧ m h = some e := by
  rcases bindGroup_eq_some.1 (matches_leaf_eq_some.1 hm).2 with ⟨hnone, rfl⟩ | ⟨hsome, rfl⟩
  · refine ⟨fun h' e' he' => ?_, by simp⟩
    have : h' ≠ h := by rintro rfl; simp_all
    simpa [Function.update_noteq this] using he'
  · exact ⟨fun _ _ he => he, hsome⟩

/-- **Soundness of the matcher**: a successful match only extends the bindings it started from,
and substituting any extension of its result into the pattern gives back the expression. -/
theorem matches_sound {p : Pattern} :
    ∀ {e : Expr} {m₀ m : Binding}, Pattern.matches p e m₀ = some m →
      m₀.Extends m ∧ ∀ m', m.Extends m' → p.bind m'.get = e := by
  induction p with
  | leaf h =>
      intro e m₀ m hm
      obtain ⟨hext, he⟩ := matches_leaf_sound hm
      exact ⟨hext, fun m' hm' => get_of_eq (hm' h e he)⟩
  | push w =>
      intro e m₀ m hm
      obtain ⟨rfl, rfl⟩ := matches_push_eq_some.1 hm
      exact ⟨fun _ _ h => h, fun _ _ => rfl⟩
  | op0 i =>
      intro e m₀ m hm
      obtain ⟨rfl, rfl⟩ := matches_op0_eq_some.1 hm
      exact ⟨fun _ _ h => h, fun _ _ => rfl⟩
  | op1 i p ih =>
      intro e m₀ m hm
      obtain ⟨a, rfl, hp⟩ := matches_op1_eq_some.1 hm
      obtain ⟨hext, hb⟩ := ih hp
      exact ⟨hext, fun m' hm' => by rw [Tree.bind, hb m' hm']⟩
  | op2 i p q ihp ihq =>
      intro e m₀ m hm
      obtain ⟨a, b, m₁, rfl, hp, hq⟩ := matches_op2_eq_some.1 hm
      obtain ⟨hext₁, hb₁⟩ := ihp hp
      obtain ⟨hext₂, hb₂⟩ := ihq hq
      exact ⟨hext₁.trans hext₂, fun m' hm' => by
        rw [Tree.bind, hb₁ m' (hext₂.trans hm'), hb₂ m' hm']⟩
  | op3 i p q r ihp ihq ihr =>
      intro e m₀ m hm
      obtain ⟨a, b, c, m₁, m₂, rfl, hp, hq, hr⟩ := matches_op3_eq_some.1 hm
      obtain ⟨hext₁, hb₁⟩ := ihp hp
      obtain ⟨hext₂, hb₂⟩ := ihq hq
      obtain ⟨hext₃, hb₃⟩ := ihr hr
      exact ⟨hext₁.trans (hext₂.trans hext₃), fun m' hm' => by
        rw [Tree.bind, hb₁ m' (hext₂.trans (hext₃.trans hm')), hb₂ m' (hext₃.trans hm'),
          hb₃ m' hm']⟩

/-- A match from the empty binding reproduces the expression from its own result. -/
theorem bind_of_matches {p : Pattern} {e : Expr} {m : Binding}
    (hm : Pattern.matches p e empty = some m) : p.bind m.get = e :=
  (matches_sound hm).2 m fun _ _ h => h

/-- **The matcher binds constant placeholders to constants only.** -/
theorem matches_constantsPushed {p : Pattern} :
    ∀ {e : Expr} {m₀ m : Binding}, m₀.ConstantsPushed → Pattern.matches p e m₀ = some m →
      m.ConstantsPushed := by
  induction p with
  | leaf h =>
      intro e m₀ m h₀ hm
      obtain ⟨hk, hb⟩ := matches_leaf_eq_some.1 hm
      rcases bindGroup_eq_some.1 hb with ⟨-, rfl⟩ | ⟨-, rfl⟩
      · intro h' hc e' he'
        by_cases hh : h' = h
        · subst hh
          simp only [Function.update_same, Option.some.injEq] at he'
          exact he' ▸ hk hc
        · exact h₀ h' hc e' (by simpa [Function.update_noteq hh] using he')
      · exact h₀
  | push w => intro e m₀ m h₀ hm; exact (matches_push_eq_some.1 hm).2 ▸ h₀
  | op0 i => intro e m₀ m h₀ hm; exact (matches_op0_eq_some.1 hm).2 ▸ h₀
  | op1 i p ih =>
      intro e m₀ m h₀ hm
      obtain ⟨a, -, hp⟩ := matches_op1_eq_some.1 hm
      exact ih h₀ hp
  | op2 i p q ihp ihq =>
      intro e m₀ m h₀ hm
      obtain ⟨a, b, m₁, -, hp, hq⟩ := matches_op2_eq_some.1 hm
      exact ihq (ihp h₀ hp) hq
  | op3 i p q r ihp ihq ihr =>
      intro e m₀ m h₀ hm
      obtain ⟨a, b, c, m₁, m₂, -, hp, hq, hr⟩ := matches_op3_eq_some.1 hm
      exact ihr (ihq (ihp h₀ hp) hq) hr

/-! ### Completeness -/

/-- **Completeness of the matcher**: an instance of a pattern, with constants for the constant
placeholders, is matched from any binding that agrees with the instance. -/
theorem matches_complete (σ : Placeholder → Expr) (hσ : ∀ h, h.isConstant → (σ h).isPush)
    (p : Pattern) : ∀ {m₀ : Binding}, (∀ h e, m₀ h = some e → σ h = e) →
      ∃ m, Pattern.matches p (p.bind σ) m₀ = some m ∧ ∀ h e, m h = some e → σ h = e := by
  induction p with
  | leaf h =>
      intro m₀ h₀
      have hk : h.isConstant = true → (σ h).isPush = true := hσ h
      cases hh : m₀ h with
      | none =>
          refine ⟨Function.update m₀ h (some (σ h)),
            matches_leaf_eq_some.2 ⟨hk, bindGroup_eq_some.2 (.inl ⟨hh, rfl⟩)⟩, fun h' e he => ?_⟩
          by_cases hh' : h' = h
          · subst hh'; simpa using he
          · exact h₀ h' e (by simpa [Function.update_noteq hh'] using he)
      | some e₀ =>
          obtain rfl := h₀ h e₀ hh
          exact ⟨m₀, matches_leaf_eq_some.2 ⟨hk, bindGroup_eq_some.2 (.inr ⟨hh, rfl⟩)⟩, h₀⟩
  | push w => intro m₀ h₀; exact ⟨m₀, matches_push_eq_some.2 ⟨rfl, rfl⟩, h₀⟩
  | op0 i => intro m₀ h₀; exact ⟨m₀, matches_op0_eq_some.2 ⟨rfl, rfl⟩, h₀⟩
  | op1 i p ih =>
      intro m₀ h₀
      obtain ⟨m, hm, hc⟩ := ih h₀
      exact ⟨m, matches_op1_eq_some.2 ⟨_, rfl, hm⟩, hc⟩
  | op2 i p q ihp ihq =>
      intro m₀ h₀
      obtain ⟨m₁, hm₁, hc₁⟩ := ihp h₀
      obtain ⟨m₂, hm₂, hc₂⟩ := ihq hc₁
      exact ⟨m₂, matches_op2_eq_some.2 ⟨_, _, m₁, rfl, hm₁, hm₂⟩, hc₂⟩
  | op3 i p q r ihp ihq ihr =>
      intro m₀ h₀
      obtain ⟨m₁, hm₁, hc₁⟩ := ihp h₀
      obtain ⟨m₂, hm₂, hc₂⟩ := ihq hc₁
      obtain ⟨m₃, hm₃, hc₃⟩ := ihr hc₂
      exact ⟨m₃, matches_op3_eq_some.2 ⟨_, _, _, m₁, m₂, rfl, hm₁, hm₂, hm₃⟩, hc₃⟩

/-- **The matcher accepts exactly the instances of a pattern**: the expressions obtained by
putting one expression in place of every occurrence of each placeholder, a constant for `A`,
`B` and `C`.  A repeated placeholder thus needs structurally equal operands. -/
theorem matches_isSome_iff (p : Pattern) (e : Expr) :
    (Pattern.matches p e empty).isSome ↔
      ∃ σ : Placeholder → Expr, (∀ h, h.isConstant → (σ h).isPush) ∧ p.bind σ = e := by
  constructor
  · intro hm
    obtain ⟨m, hm⟩ := Option.isSome_iff_exists.1 hm
    refine ⟨m.get, fun h hc => ?_, bind_of_matches hm⟩
    rw [get_of_isConstant (matches_constantsPushed constantsPushed_empty hm) hc]
    rfl
  · rintro ⟨σ, hσ, rfl⟩
    obtain ⟨m, hm, -⟩ := @matches_complete σ hσ p empty fun _ _ he => by cases he
    simp [hm]

end Pattern

end Lity
