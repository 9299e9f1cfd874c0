import Presence.Proofs.Expression.CanonicalText
import Presence.Proofs.Formula.Walk

/-!
# Depth of what is parsed

Every operator at the root takes one level of the parser and makes the formula one level deeper.
Brackets take a level, too, but leave the formula as it is.  So the formula has as many levels as
the tokens at most, if each identifier stands for a leaf (`ReadsAs.height_lt`).

A comparison with `!=` is one identifier that stands for two levels, an atom and its negation.
This is the only way to get a formula with one level more than the tokens
(`Grammar.OfDialect.depth_of_parse`).
-/

namespace Presence

/-- The identifier compares a symbol with a value by `!=`. -/
def Tristate.IsInequality (text : String) : Prop :=
  ∃ symbol value, cutAt? ['!', '='] (text.toList.filter fun c => !isBlank c) = some (symbol, value)

/-- One of the identifiers of the text is a tristate comparison with `!=`. -/
def Grammar.HasInequality (g : Grammar) (text : String) : Prop :=
  ∃ stem tokens name, g = Tristate.grammar stem ∧ g.tokens text = .ok tokens ∧
    Token.identifier name ∈ tokens ∧ Tristate.IsInequality name

variable {g : Grammar} {f : Formula} {text : String}

/-! ## Identifiers -/

theorem Formula.height_of_nesting_eq_zero (h : f.nesting = 0) : f.height = 1 := by
  cases f with
  | constant | atom => rfl
  | negation | conjunction | disjunction => simp [nesting] at h

theorem Plain.height_of_identifier (h : identifier text = .ok f) : f.height = 1 :=
  Formula.height_of_nesting_eq_zero (leaf_of_identifier h).2

theorem Definedness.height_of_identifier (h : identifier text = .ok f) : f.height = 1 := by
  rw [identifier] at h
  split at h
  · cases h
    rfl
  · exact Plain.height_of_identifier h

namespace Tristate

variable {stem : String}

/-- Only a comparison with `!=` means a formula of two levels. -/
theorem Atom.height_meaning (stem : String) (a : Atom) :
    (a.meaning stem).height = 1 ∨ (a.meaning stem).height = 2 ∧
      ∃ symbol value, cutAt? ['!', '='] a.text = some (symbol, value) := by
  cases a with
  | symbol | constant | truth => exact Or.inl rfl
  | comparison name valid equal value =>
      cases equal with
      | true => exact Or.inl rfl
      | false => exact Or.inr ⟨rfl, _, _, cutAt?_mark_append valid (by decide) value.text⟩

theorem height_of_identifier (h : identifier stem text = .ok f) :
    f.height = 1 ∨ f.height = 2 ∧ IsInequality text := by
  obtain ⟨a, htext, rfl⟩ := identifier_eq_ok_iff.1 h
  rw [IsInequality, ← htext]
  exact a.height_meaning stem

end Tristate

namespace Grammar.OfDialect

theorem height_of_identifier (hg : g.OfDialect) (h : g.identifier text = .ok f) :
    f.height = 1 ∨
      f.height = 2 ∧ (∃ stem, g = Tristate.grammar stem) ∧ Tristate.IsInequality text := by
  cases hg with
  | plain => exact Or.inl (Plain.height_of_identifier h)
  | tristate stem =>
      exact (Tristate.height_of_identifier h).imp_right fun ⟨htwo, hne⟩ => ⟨htwo, ⟨stem, rfl⟩, hne⟩
  | definedness => exact Or.inl (Definedness.height_of_identifier h)

end Grammar.OfDialect

/-! ## Expressions -/

/-- With identifiers of `size` levels, a formula has at most that many levels beside those of
its tokens, of which the innermost is an identifier. -/
theorem ReadsAs.height_lt {levels : Nat} {tokens : List Token} (h : ReadsAs g levels tokens f)
    (hg : g.OfDialect) (size : Nat)
    (hsize : ∀ name, Token.identifier name ∈ tokens → ∀ x, g.identifier name = .ok x →
      x.height ≤ size) : f.height < levels + size := by
  have hlevels := h.measure_add_le hg Formula.height 1 size (fun _ => Nat.le_refl _)
    (fun _ _ => Nat.le_refl _) (fun _ _ => Nat.le_refl _) hsize
  rwa [Nat.one_mul] at hlevels

/-- A formula that was parsed is at most two levels deeper than the limit, and only one level
unless the text has a comparison with `!=`. -/
theorem Grammar.OfDialect.depth_of_parse (hg : g.OfDialect) {maxDepth : Nat}
    (h : Parser.parse ⟨g, maxDepth⟩ text = .ok f) :
    f.depth ≤ maxDepth + 2 ∧ (f.depth = maxDepth + 2 → g.HasInequality text) := by
  obtain ⟨tokens, htokens, hreads⟩ := Parser.exists_readsAs_of_parse h
  have hheight : ∀ size, (∀ name, Token.identifier name ∈ tokens →
      ∀ x, g.identifier name = .ok x → x.height ≤ size) → f.height < maxDepth + 1 + size :=
    hreads.height_lt hg
  rw [Formula.depth_eq_height]
  constructor
  · have := hheight 2 fun name _ x hx => by
      rcases hg.height_of_identifier hx with h | ⟨h, _⟩ <;> omega
    omega
  · intro hdepth
    by_contra hnone
    have := hheight 1 fun name hname x hx => by
      rcases hg.height_of_identifier hx with h | ⟨_, ⟨stem, hstem⟩, hne⟩
      · omega
      · exact absurd ⟨stem, tokens, name, hstem, htokens, hname, hne⟩ hnone
    omega

end Presence
