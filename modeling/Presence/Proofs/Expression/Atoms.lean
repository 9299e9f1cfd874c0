import Presence.Expression.Dialect.Tristate
import Presence.Proofs.Expression.CanonicalTokens

/-!
# Atoms of tristate expressions

An identifier of a tristate expression is a symbol, a truth value or a comparison
(`Tristate.Atom`).  Each has one text without blanks and one meaning, and an identifier has
a meaning exactly if it is the text of an atom with blanks put in anywhere
(`Tristate.identifier_eq_ok_iff`).

A comparison is cut at its operator.  The operator `==` is looked for first, and the text
of a comparison with `!=` holds none because neither a symbol nor a value holds an equals
sign.
-/

namespace Presence

namespace Tristate

/-! ## Comparisons -/

/-- A value that a symbol is compared with. -/
inductive Value where
  /-- Built in. -/
  | y
  /-- Built in, written out. -/
  | yes
  /-- Built as a module. -/
  | m
  deriving DecidableEq, Repr

namespace Value

/-- How the value is written. -/
def text : Value → List Char
  | y => "\"y\"".toList
  | yes => "\"yes\"".toList
  | m => "\"m\"".toList

/-- What comparisons with the value put behind the symbol. -/
def suffix : Value → String
  | y | yes => ""
  | m => "_MODULE"

theorem exists_text_eq_cons (value : Value) : ∃ rest, value.text = '"' :: rest := by
  cases value <;> exact ⟨_, rfl⟩

theorem not_mem_text (value : Value) : '=' ∉ value.text := by
  cases value <;> decide

end Value

/-- The operator of a comparison, `==` or else `!=`. -/
def mark : (equal : Bool) → List Char
  | true => ['=', '=']
  | false => ['!', '=']

theorem comparison?_eq_some_iff {stem : String} {symbol value : List Char} {f : Formula} :
    comparison? stem symbol value = some f ↔
      isSymbol symbol = true ∧ ∃ v : Value, v.text = value ∧
        .atom (stem ++ String.ofList symbol ++ v.suffix) = f := by
  constructor
  · intro h
    rw [comparison?] at h
    split_ifs at h with hsymbol hyes hm
    · rw [Bool.not_eq_true, Bool.not_eq_false'] at hsymbol
      refine ⟨hsymbol, ?_⟩
      rcases hyes with rfl | rfl
      · exact ⟨.y, rfl, by simpa [Value.suffix] using h⟩
      · exact ⟨.yes, rfl, by simpa [Value.suffix] using h⟩
    · rw [Bool.not_eq_true, Bool.not_eq_false'] at hsymbol
      subst hm
      exact ⟨hsymbol, .m, rfl, Option.some.inj h⟩
  · rintro ⟨hsymbol, v, rfl, rfl⟩
    rw [comparison?, hsymbol, Bool.not_true, if_neg Bool.false_ne_true]
    have hy : Value.y.text = "\"y\"".toList := rfl
    have hyes : Value.yes.text = "\"yes\"".toList := rfl
    cases v with
    | y => rw [if_pos (Or.inl hy), Value.suffix, String.append_empty]
    | yes => rw [if_pos (Or.inr hyes), Value.suffix, String.append_empty]
    | m => rfl

/-! ## Cutting at an operator -/

section

variable {c : Char} {mark text left right : List Char}

theorem eq_of_cutAt? (h : cutAt? mark text = some (left, right)) :
    text = left ++ (mark ++ right) := by
  induction text generalizing left with
  | nil => cases h
  | cons c rest ih =>
      rw [cutAt?] at h
      split at h
      next hprefix =>
        cases h
        exact (List.prefix_iff_eq_append.1 (List.isPrefixOf_iff_prefix.1 hprefix)).symm
      next =>
        obtain ⟨⟨l, r⟩, hcut, heq⟩ := Option.map_eq_some_iff.1 h
        cases heq
        rw [ih hcut, List.cons_append]

/-- A mark is not looked for where its first character does not occur. -/
theorem cutAt?_append (h : c ∉ left) (text : List Char) :
    cutAt? (c :: mark) (left ++ text) =
      (cutAt? (c :: mark) text).map fun (l, r) => (left ++ l, r) := by
  induction left with
  | nil => exact Option.map_id'.symm
  | cons d left ih =>
      obtain ⟨hne, hleft⟩ := not_or.1 (mt List.mem_cons.2 h)
      rw [List.cons_append, cutAt?, List.isPrefixOf, beq_eq_false_iff_ne.2 hne, Bool.false_and,
        ih hleft, if_neg Bool.false_ne_true, Option.map_map]
      rfl

theorem cutAt?_eq_none (h : c ∉ text) : cutAt? (c :: mark) text = none := by
  rw [← List.append_nil text, cutAt?_append h]
  rfl

theorem cutAt?_mark (right : List Char) :
    cutAt? (c :: mark) (c :: mark ++ right) = some ([], right) := by
  have hprefix : (c :: mark).isPrefixOf (c :: (mark ++ right)) = true :=
    List.isPrefixOf_iff_prefix.2 (List.prefix_append _ _)
  rw [List.cons_append, cutAt?, hprefix, if_pos rfl, List.length_cons, List.drop_succ_cons,
    List.drop_left]

end

/-! ## Atoms -/

/-- An identifier of a tristate expression. -/
inductive Atom where
  /-- A symbol that is no truth value. -/
  | symbol (name : String) (valid : IsSymbolName name)
  /-- A truth value, written `1` or `0`. -/
  | constant (b : Bool)
  /-- The truth value that is written `[TRUE]`. -/
  | truth
  /-- A symbol compared with a value, by `==` or else by `!=`. -/
  | comparison (name : String) (valid : isSymbol name.toList = true) (equal : Bool) (value : Value)

namespace Atom

/-- The text of an atom without blanks. -/
def text : Atom → List Char
  | symbol name _ => name.toList
  | constant b => [if b then '1' else '0']
  | truth => "[TRUE]".toList
  | comparison name _ equal value => name.toList ++ (mark equal ++ value.text)

theorem text_comparison {name : String} {valid : isSymbol name.toList = true} {equal : Bool}
    {value : Value} :
    (comparison name valid equal value).text = name.toList ++ (mark equal ++ value.text) := rfl

/-- The formula that an atom stands for. -/
def meaning (stem : String) : Atom → Formula
  | symbol name _ => .atom name
  | constant b => .constant b
  | truth => .constant true
  | comparison name _ true value => .atom (stem ++ name ++ value.suffix)
  | comparison name _ false value => .negation (.atom (stem ++ name ++ value.suffix))

end Atom

variable {stem : String} {f : Formula}

/-! ## Meaning of texts without blanks -/

section

variable {text symbol value : List Char}

/-- What is cut at an operator is none of the truth values. -/
theorem ne_digit_of_cutAt? {mark : List Char} (hmark : 2 ≤ mark.length)
    (h : cutAt? mark text = some (symbol, value)) (c : Char) : text ≠ [c] := by
  intro hc
  have hlength : [c].length = symbol.length + (mark.length + value.length) := by
    rw [← hc, eq_of_cutAt? h, List.length_append, List.length_append]
  rw [List.length_singleton] at hlength
  omega

theorem compact?_of_equality (hbracket : (text.contains '[' || text.contains ']') = false)
    (hcut : cutAt? ['=', '='] text = some (symbol, value)) :
    compact? stem text = comparison? stem symbol value := by
  have hdigit := ne_digit_of_cutAt? (Nat.le_refl _) hcut
  simp only [compact?, hbracket, hdigit, hcut, Bool.false_eq_true, ↓reduceIte]

theorem compact?_of_inequality (hbracket : (text.contains '[' || text.contains ']') = false)
    (hnone : cutAt? ['=', '='] text = none) (hcut : cutAt? ['!', '='] text = some (symbol, value)) :
    compact? stem text = (comparison? stem symbol value).map .negation := by
  have hdigit := ne_digit_of_cutAt? (Nat.le_refl _) hcut
  simp only [compact?, hbracket, hdigit, hnone, hcut, Bool.false_eq_true, ↓reduceIte]

end

section

variable {symbol : List Char} (valid : isSymbol symbol = true) (equal : Bool) (value : Value)

include valid

theorem cutAt?_mark_append {c : Char} {mark : List Char} (hc : isSymbolChar c = false)
    (right : List Char) :
    cutAt? (c :: mark) (symbol ++ (c :: mark ++ right)) = some (symbol, right) := by
  rw [cutAt?_append (not_mem_of_isSymbol valid hc), cutAt?_mark, Option.map_some]
  simp only [List.append_nil]

/-- A comparison with `!=` holds one equals sign, and the quote of the value comes next. -/
theorem cutAt?_inequality : cutAt? ['=', '='] (symbol ++ (mark false ++ value.text)) = none := by
  have hleft : '=' ∉ symbol ++ ['!'] := by
    simpa using not_mem_of_isSymbol valid (c := '=') (by decide)
  have hright : cutAt? ['=', '='] ('=' :: value.text) = none := by
    obtain ⟨rest, hvalue⟩ := value.exists_text_eq_cons
    rw [cutAt?, cutAt?_eq_none value.not_mem_text, hvalue]
    rfl
  have hsplit : symbol ++ (mark false ++ value.text) = symbol ++ ['!'] ++ '=' :: value.text := by
    rw [List.append_assoc]
    rfl
  rw [hsplit, cutAt?_append hleft, hright]
  rfl

theorem contains_bracket_eq_false :
    ((symbol ++ (mark equal ++ value.text)).contains '[' ||
      (symbol ++ (mark equal ++ value.text)).contains ']') = false := by
  have hopening : '[' ∉ mark equal ++ value.text := by cases equal <;> cases value <;> decide
  have hclosing : ']' ∉ mark equal ++ value.text := by cases equal <;> cases value <;> decide
  have habsent : ∀ c : Char, isSymbolChar c = false → c ∉ mark equal ++ value.text →
      (symbol ++ (mark equal ++ value.text)).contains c = false := by
    intro c hc hrest
    rw [← Bool.not_eq_true, List.contains_iff_mem, List.mem_append]
    exact not_or.2 ⟨not_mem_of_isSymbol valid hc, hrest⟩
  rw [habsent '[' (by decide) hopening, habsent ']' (by decide) hclosing]
  rfl

end

theorem compact?_symbol {name : String} (h : IsSymbolName name) :
    compact? stem name.toList = some (.atom name) := by
  have habsent : ∀ c : Char, isSymbolChar c = false → c ∉ name.toList := fun _ =>
    not_mem_of_isSymbol h.1
  have hone : name.toList ≠ ['1'] := fun hl => h.2.1 (String.toList_inj.1 hl)
  have hzero : name.toList ≠ ['0'] := fun hl => h.2.2 (String.toList_inj.1 hl)
  simp [compact?, habsent '[' (by decide), habsent ']' (by decide), hone, hzero,
    cutAt?_eq_none (habsent '=' (by decide)), cutAt?_eq_none (habsent '!' (by decide)), h.1]

theorem compact?_comparison {name : String} (valid : isSymbol name.toList = true) (equal : Bool)
    (value : Value) :
    compact? stem (name.toList ++ (mark equal ++ value.text)) =
      some ((Atom.comparison name valid equal value).meaning stem) := by
  have hbracket := contains_bracket_eq_false valid equal value
  have hcomparison : comparison? stem name.toList value.text =
      some (.atom (stem ++ name ++ value.suffix)) := by
    refine comparison?_eq_some_iff.2 ⟨valid, value, rfl, ?_⟩
    rw [String.ofList_toList]
  cases equal with
  | true =>
      have hcut : cutAt? ['=', '='] (name.toList ++ (mark true ++ value.text)) = some (_, _) :=
        cutAt?_mark_append valid (by decide) value.text
      rw [compact?_of_equality hbracket hcut, hcomparison]
      rfl
  | false =>
      have hcut : cutAt? ['!', '='] (name.toList ++ (mark false ++ value.text)) = some (_, _) :=
        cutAt?_mark_append valid (by decide) value.text
      rw [compact?_of_inequality hbracket (cutAt?_inequality valid value) hcut, hcomparison]
      rfl

theorem compact?_text (stem : String) (a : Atom) :
    compact? stem a.text = some (a.meaning stem) := by
  cases a with
  | symbol name valid => exact compact?_symbol valid
  | constant b => cases b <;> rfl
  | truth => rfl
  | comparison name valid equal value => exact compact?_comparison valid equal value

theorem exists_atom_of_comparison? {symbol value : List Char} (equal : Bool)
    (h : comparison? stem symbol value = some f) :
    ∃ a : Atom, a.text = symbol ++ (mark equal ++ value) ∧
      a.meaning stem = if equal then f else .negation f := by
  obtain ⟨hsymbol, v, rfl, rfl⟩ := comparison?_eq_some_iff.1 h
  rw [← String.toList_ofList (l := symbol)] at hsymbol
  refine ⟨.comparison (String.ofList symbol) hsymbol equal v, ?_, ?_⟩
  · rw [Atom.text_comparison, String.toList_ofList]
  · cases equal <;> rfl

theorem exists_atom_of_isSymbol {text : List Char} (hsymbol : isSymbol text = true)
    (hone : text ≠ ['1']) (hzero : text ≠ ['0']) (h : some (.atom (String.ofList text)) = some f) :
    ∃ a : Atom, a.text = text ∧ a.meaning stem = f := by
  have htext : (String.ofList text).toList = text := String.toList_ofList
  have hname : IsSymbolName (String.ofList text) := by
    refine ⟨htext.symm ▸ hsymbol, fun heq => hone ?_, fun heq => hzero ?_⟩
    · exact htext.symm.trans (congrArg String.toList heq)
    · exact htext.symm.trans (congrArg String.toList heq)
  exact ⟨.symbol _ hname, htext, Option.some.inj h⟩

/-- A text without blanks has a meaning exactly if it is the text of an atom. -/
theorem compact?_eq_some_iff {text : List Char} :
    compact? stem text = some f ↔ ∃ a : Atom, a.text = text ∧ a.meaning stem = f := by
  constructor
  · intro h
    rw [compact?] at h
    split at h
    · split at h
      next htruth => exact ⟨.truth, htruth.symm, Option.some.inj h⟩
      next => cases h
    split at h
    next hone => exact ⟨.constant true, hone.symm, Option.some.inj h⟩
    next hone =>
      split at h
      next hzero => exact ⟨.constant false, hzero.symm, Option.some.inj h⟩
      next hzero =>
        split at h
        next symbol value hcut =>
          rw [eq_of_cutAt? hcut]
          exact exists_atom_of_comparison? true h
        next =>
          split at h
          next symbol value hcut =>
            obtain ⟨x, hx, rfl⟩ := Option.map_eq_some_iff.1 h
            rw [eq_of_cutAt? hcut]
            exact exists_atom_of_comparison? false hx
          next =>
            split at h
            next hsymbol => exact exists_atom_of_isSymbol hsymbol hone hzero h
            next => cases h
  · rintro ⟨a, rfl, rfl⟩
    exact compact?_text stem a

/-- An identifier has a meaning exactly if it is the text of an atom with blanks put in. -/
theorem identifier_eq_ok_iff {text : String} :
    identifier stem text = .ok f ↔
      ∃ a : Atom, a.text = text.toList.filter (fun c => !isBlank c) ∧ a.meaning stem = f := by
  rw [← compact?_eq_some_iff, identifier]
  cases compact? stem (text.toList.filter fun c => !isBlank c) with
  | none => exact ⟨nofun, nofun⟩
  | some x => rw [Except.ok.injEq, Option.some.injEq]

end Tristate

end Presence
