import Presence.Proofs.Expression.CanonicalText

/-!
# Canonical texts of what was parsed

A formula that was parsed has a canonical text, and the same grammar reads that text again.
What comes out differs from the formula only at atoms that are named `1` or `0`, because
their canonical texts are those of the truth values (`Formula.readBack`).

* In tristate expressions no atom has such a name if a symbol is put before compared
  symbols.  So the formula itself is read back, and one level more than twice those of the
  first text are enough (`Tristate.parse_render_of_stem`).
* In tests of definedness an atom has such a name exactly if a call tests `1` or `0`
  (`Definedness.parse_render_readBack`).  A bare `1` or `0` is a truth value, but the
  argument of a call is not looked at.
-/

namespace Presence

/-! ## What a canonical text is read as -/

namespace Formula

variable {f : Formula}

/-- The formula with truth values for its atoms of the names `1` and `0`. -/
def readBack : Formula → Formula
  | constant b => constant b
  | atom name =>
      if name = "1" then constant true else if name = "0" then constant false else atom name
  | negation f => negation f.readBack
  | conjunction l r => conjunction l.readBack r.readBack
  | disjunction l r => disjunction l.readBack r.readBack

theorem readBack_atom_cases (name : String) :
    ((name = "1" ∨ name = "0") ∧ ∃ b, (atom name).readBack = constant b ∧
        (constant b).render = name) ∨
      ((name ≠ "1" ∧ name ≠ "0") ∧ (atom name).readBack = atom name) := by
  rw [readBack]
  by_cases hone : name = "1"
  · exact Or.inl ⟨Or.inl hone, true, if_pos hone, hone.symm⟩
  · rw [if_neg hone]
    by_cases hzero : name = "0"
    · exact Or.inl ⟨Or.inr hzero, false, if_pos hzero, hzero.symm⟩
    · exact Or.inr ⟨⟨hone, hzero⟩, if_neg hzero⟩

theorem render_readBack (f : Formula) : f.readBack.render = f.render := by
  induction f with
  | constant b => rfl
  | atom name =>
      rcases readBack_atom_cases name with ⟨_, b, hread, hrender⟩ | ⟨_, hread⟩
      · rw [hread, hrender, render]
      · rw [hread]
  | negation f ih => rw [readBack, render, render, ih]
  | conjunction l r ihl ihr => rw [readBack, render, render, ihl, ihr]
  | disjunction l r ihl ihr => rw [readBack, render, render, ihl, ihr]

theorem nesting_readBack (f : Formula) : f.readBack.nesting = f.nesting := by
  induction f with
  | constant b => rfl
  | atom name =>
      rcases readBack_atom_cases name with ⟨_, b, hread, _⟩ | ⟨_, hread⟩
      · rw [hread, nesting, nesting]
      · rw [hread]
  | negation f ih => rw [readBack, nesting, nesting, ih]
  | conjunction l r ihl ihr => rw [readBack, nesting, nesting, ihl, ihr]
  | disjunction l r ihl ihr => rw [readBack, nesting, nesting, ihl, ihr]

/-- Truth values are put in exactly where an atom has the name of one. -/
theorem readBack_eq_self_iff : f.readBack = f ↔ ∀ name ∈ f.atoms, name ≠ "1" ∧ name ≠ "0" := by
  induction f with
  | constant b => exact ⟨fun _ => List.forall_mem_nil _, fun _ => rfl⟩
  | atom name =>
      rw [atoms, List.forall_mem_singleton]
      rcases readBack_atom_cases name with ⟨hname, b, hread, _⟩ | ⟨hname, hread⟩
      · rw [hread]
        constructor
        · intro heq
          cases heq
        · intro h
          exact absurd hname (not_or.2 h)
      · exact ⟨fun _ => hname, fun _ => hread⟩
  | negation f ih => rw [readBack, negation.injEq, ih, atoms]
  | conjunction l r ihl ihr =>
      rw [readBack, conjunction.injEq, ihl, ihr, atoms, List.forall_mem_append]
  | disjunction l r ihl ihr =>
      rw [readBack, disjunction.injEq, ihl, ihr, atoms, List.forall_mem_append]

theorem hasSymbolNames_readBack (hf : ∀ name ∈ f.atoms, isSymbol name.toList = true) :
    f.readBack.HasSymbolNames := by
  induction f with
  | constant b => exact List.forall_mem_nil _
  | atom name =>
      rcases readBack_atom_cases name with ⟨_, b, hread, _⟩ | ⟨hname, hread⟩
      · rw [hread]
        exact List.forall_mem_nil _
      · rw [hread, hasSymbolNames_atom]
        exact ⟨hf name List.mem_cons_self, hname⟩
  | negation f ih => exact ih hf
  | conjunction l r ihl ihr =>
      obtain ⟨hl, hr⟩ := List.forall_mem_append.1 hf
      exact hasSymbolNames_conjunction.2 ⟨ihl hl, ihr hr⟩
  | disjunction l r ihl ihr =>
      obtain ⟨hl, hr⟩ := List.forall_mem_append.1 hf
      exact hasSymbolNames_disjunction.2 ⟨ihl hl, ihr hr⟩

end Formula

variable {f : Formula} {maxDepth : Nat} {text : String}

/-- Every dialect reads a canonical text as the formula with truth values put in. -/
theorem Grammar.OfDialect.parse_render_eq_readBack {g : Grammar} (hg : g.OfDialect)
    (hf : ∀ name ∈ f.atoms, isSymbol name.toList = true) (limit : Nat) :
    Parser.parse ⟨g, limit⟩ f.render =
      if f.nesting ≤ limit then .ok f.readBack else .error (.tooDeep limit) := by
  rw [← f.render_readBack, ← f.nesting_readBack]
  split
  next h => exact hg.parse_render (Formula.hasSymbolNames_readBack hf) h
  next h =>
    exact hg.parse_render_tooDeep (Formula.hasSymbolNames_readBack hf) (Nat.lt_of_not_le h)

/-! ## Tristate expressions -/

namespace Tristate

variable {stem : String}

theorem isSymbol_append {xs ys : List Char} (hx : isSymbol xs = true)
    (hy : ∀ c ∈ ys, isSymbolChar c = true) : isSymbol (xs ++ ys) = true := by
  have hchars := List.forall_mem_append.2 ⟨isSymbolChar_of_isSymbol hx, hy⟩
  have hempty := List.append_ne_nil_of_left_ne_nil (ne_nil_of_isSymbol hx) ys
  rw [isSymbol, Bool.and_eq_true_iff]
  exact ⟨by simpa using hempty, List.all_eq_true.2 hchars⟩

/-- A symbol put before a symbol makes a symbol of at least two characters. -/
theorem isSymbolName_comparison (hstem : isSymbol stem.toList = true) {name : String}
    (hname : isSymbol name.toList = true) (value : Value) :
    IsSymbolName (stem ++ name ++ value.suffix) := by
  have hsuffix : value.suffix.toList.all isSymbolChar = true := by cases value <;> decide
  have htext : (stem ++ name ++ value.suffix).toList =
      stem.toList ++ name.toList ++ value.suffix.toList := by
    rw [String.toList_append, String.toList_append]
  have hlength : 2 ≤ (stem ++ name ++ value.suffix).toList.length := by
    have := List.length_pos_of_ne_nil (ne_nil_of_isSymbol hstem)
    have := List.length_pos_of_ne_nil (ne_nil_of_isSymbol hname)
    rw [htext, List.length_append, List.length_append]
    omega
  refine ⟨?_, fun hone => ?_, fun hzero => ?_⟩
  · rw [htext]
    exact isSymbol_append (isSymbol_append hstem (isSymbolChar_of_isSymbol hname))
      (List.all_eq_true.1 hsuffix)
  · rw [hone] at hlength
    exact absurd hlength (by decide)
  · rw [hzero] at hlength
    exact absurd hlength (by decide)

namespace Atom

theorem hasSymbolNames_meaning (hstem : isSymbol stem.toList = true) (a : Atom) :
    (a.meaning stem).HasSymbolNames := by
  cases a with
  | symbol name valid => exact Formula.hasSymbolNames_atom.2 valid
  | constant | truth => exact List.forall_mem_nil _
  | comparison name valid equal value =>
      have hname := Formula.hasSymbolNames_atom.2 (isSymbolName_comparison hstem valid value)
      cases equal with
      | true => exact hname
      | false => exact hname

theorem nesting_meaning_le (stem : String) (a : Atom) : (a.meaning stem).nesting ≤ 1 := by
  cases a with
  | symbol | constant | truth => exact Nat.zero_le 1
  | comparison name valid equal value =>
      cases equal with
      | true => exact Nat.zero_le 1
      | false => exact Nat.le_refl 1

end Atom

/-- With a symbol before compared symbols all names are symbols, and the canonical text is read
back within one level more than twice those of the text. -/
theorem parse_render_of_stem (hstem : isSymbol stem.toList = true)
    (h : Parser.parse ⟨grammar stem, maxDepth⟩ text = .ok f) :
    f.HasSymbolNames ∧
      ∀ limit, 2 * maxDepth + 1 ≤ limit → Parser.parse ⟨grammar stem, limit⟩ f.render = .ok f := by
  have hg : (grammar stem).OfDialect := .tristate stem
  obtain ⟨tokens, _, hreads⟩ := Parser.exists_readsAs_of_parse h
  have hnames : f.HasSymbolNames := by
    intro name hname
    obtain ⟨text, x, _, hx, hmem⟩ := (hreads.mem_atoms_iff hg).1 hname
    obtain ⟨a, _, rfl⟩ := identifier_eq_ok_iff.1 hx
    exact a.hasSymbolNames_meaning hstem name hmem
  have hnesting : f.nesting + 2 ≤ 2 * (maxDepth + 1) + 1 := by
    refine hreads.nesting_add_two_le hg 1 fun text _ x hx => ?_
    obtain ⟨a, _, rfl⟩ := identifier_eq_ok_iff.1 hx
    exact a.nesting_meaning_le stem
  exact ⟨hnames, fun limit hlimit => hg.parse_render hnames (by omega)⟩

theorem parse_render_of_stem_example :
    isSymbol "X_".toList = true ∧
      Parser.parse ⟨grammar "X_", 1⟩ "1 != \"m\" && A" =
        .ok (.conjunction (.negation (.atom "X_1_MODULE")) (.atom "A")) ∧
      Parser.parse ⟨grammar "X_", 3⟩ "(!X_1_MODULE && A)" =
        .ok (.conjunction (.negation (.atom "X_1_MODULE")) (.atom "A")) := by
  have hstem : isSymbol "X_".toList = true := by decide
  have h : Parser.parse ⟨grammar "X_", 1⟩ "1 != \"m\" && A" =
      .ok (.conjunction (.negation (.atom "X_1_MODULE")) (.atom "A")) := by rfl
  exact ⟨hstem, h, (parse_render_of_stem hstem h).2 3 (Nat.le_refl 3)⟩

end Tristate

/-! ## Tests of definedness -/

theorem Plain.isSymbol_of_identifier (h : Plain.identifier text = .ok f) :
    isSymbol text.toList = true := by
  rcases cases_of_identifier h with ⟨b, rfl, -⟩ | ⟨hname, -⟩
  · cases b <;> decide
  · exact hname.1

namespace Definedness

/-- The text of a call. -/
def callText (call : String) (argument : List Char) : List Char :=
  call.toList ++ '(' :: (argument ++ [')'])

theorem callText_eq (call : String) (argument : List Char) :
    callText call argument = (call.toList ++ ['(']) ++ (argument ++ [')']) := by
  rw [callText, List.append_assoc, List.singleton_append]

theorem argument?_eq_some_iff {call : String} {text argument : List Char} :
    argument? call text = some argument ↔ text = callText call argument := by
  rw [callText_eq]
  constructor
  · intro h
    rw [argument?] at h
    split at h
    next hcall =>
      obtain ⟨hstart, hlast⟩ := Bool.and_eq_true_iff.1 hcall
      have hinner := List.dropLast_append_getLast? ')' (Option.mem_def.2 (beq_iff_eq.1 hlast))
      rw [Option.some.inj h] at hinner
      rw [hinner, List.prefix_iff_eq_append.1 (List.isPrefixOf_iff_prefix.1 hstart)]
    next => cases h
  · rintro rfl
    have hstart := List.isPrefixOf_iff_prefix.2
      (List.prefix_append (call.toList ++ ['(']) (argument ++ [')']))
    have hlast : (argument ++ [')']).getLast? == some ')' := by
      rw [List.getLast?_concat, beq_self_eq_true]
    rw [argument?, List.drop_left, hstart, hlast, Bool.and_self, if_pos rfl, List.dropLast_concat]

/-- A call of a symbol is a call of no other. -/
theorem callText_inj {call call' : String} {symbol symbol' : List Char} (hcall : call ∈ calls)
    (hsymbol : isSymbol symbol = true) (h : callText call symbol = callText call' symbol') :
    symbol = symbol' := by
  have hname : ∀ name ∈ calls, '(' ∉ name.toList := by decide
  have hargument : '(' ∉ symbol ++ [')'] := by
    simpa using not_mem_of_isSymbol hsymbol (c := '(') (by decide)
  obtain ⟨_, _, hrest⟩ := (List.append_cons_inj_of_notMem (hname call hcall) hargument).1 h
  exact List.append_cancel_right hrest

/-- The symbol of a call is tested, and nothing else is. -/
theorem tested?_eq_some_iff {text symbol : List Char} :
    tested? text = some symbol ↔
      isSymbol symbol = true ∧ ∃ call ∈ calls, text = callText call symbol := by
  have hcalls : ∀ {symbol : List Char}, tested? text = some symbol →
      isSymbol symbol = true ∧ ∃ call ∈ calls, text = callText call symbol := by
    intro symbol h
    obtain ⟨call, hcall, hfilter⟩ := List.exists_of_findSome?_eq_some h
    obtain ⟨hargument, hsymbol⟩ := Option.filter_eq_some_iff.1 hfilter
    exact ⟨hsymbol, call, hcall, argument?_eq_some_iff.1 hargument⟩
  refine ⟨hcalls, ?_⟩
  rintro ⟨hsymbol, call, hcall, htext⟩
  cases h : tested? text with
  | none =>
      have hnone := List.findSome?_eq_none_iff.1 h call hcall
      rw [argument?_eq_some_iff.2 htext, Option.filter_some, if_pos hsymbol] at hnone
      cases hnone
  | some symbol' =>
      obtain ⟨_, call', _, htext'⟩ := hcalls h
      rw [callText_inj hcall hsymbol (htext.symm.trans htext')]

/-- An identifier is a call of a symbol, or else it is as in plain expressions. -/
theorem identifier_eq_ok_iff {text : String} :
    identifier text = .ok f ↔
      (∃ call ∈ calls, ∃ symbol, isSymbol symbol = true ∧ text.toList = callText call symbol ∧
        .atom (String.ofList symbol) = f) ∨ Plain.identifier text = .ok f := by
  rw [identifier]
  constructor
  · intro h
    split at h
    next symbol htested =>
      obtain ⟨hsymbol, call, hcall, htext⟩ := tested?_eq_some_iff.1 htested
      exact Or.inl ⟨call, hcall, symbol, hsymbol, htext, Except.ok.inj h⟩
    next => exact Or.inr h
  · rintro (⟨call, hcall, symbol, hsymbol, htext, rfl⟩ | h)
    · rw [tested?_eq_some_iff.2 ⟨hsymbol, call, hcall, htext⟩]
    -- A plain identifier holds no bracket, so it is no call.
    · have hbracket : '(' ∉ text.toList :=
        not_mem_of_isSymbol (Plain.isSymbol_of_identifier h) (by decide)
      cases htested : tested? text.toList with
      | none => exact h
      | some symbol =>
          obtain ⟨_, call, _, htext⟩ := tested?_eq_some_iff.1 htested
          exact absurd (htext ▸ List.mem_append_right _ List.mem_cons_self) hbracket

/-- The text of a call that tests a truth value. -/
def IsTruthCall (text : String) : Prop :=
  ∃ call ∈ calls, ∃ digit ∈ ['1', '0'], text.toList = callText call [digit]

/-- One of the identifiers of the text is a call that tests a truth value. -/
def HasTruthCall (text : String) : Prop :=
  ∃ tokens name, grammar.tokens text = .ok tokens ∧ Token.identifier name ∈ tokens ∧
    IsTruthCall name

theorem isSymbol_of_mem_atoms (h : identifier text = .ok f) :
    ∀ name ∈ f.atoms, isSymbol name.toList = true := by
  rcases identifier_eq_ok_iff.1 h with ⟨_, _, symbol, hsymbol, _, rfl⟩ | hplain
  · rw [Formula.atoms, List.forall_mem_singleton, String.toList_ofList]
    exact hsymbol
  · exact fun name hname => ((Plain.leaf_of_identifier hplain).1 name hname).1

theorem identifier_of_isTruthCall (h : IsTruthCall text) :
    ∃ name, (name = "1" ∨ name = "0") ∧ identifier text = .ok (.atom name) := by
  obtain ⟨call, hcall, digit, hdigit, htext⟩ := h
  obtain ⟨hsymbol, hname⟩ : isSymbol [digit] = true ∧
      (String.ofList [digit] = "1" ∨ String.ofList [digit] = "0") := by
    rcases List.mem_pair.1 hdigit with rfl | rfl <;> decide
  refine ⟨_, hname, identifier_eq_ok_iff.2 (Or.inl ?_)⟩
  exact ⟨call, hcall, [digit], hsymbol, htext, rfl⟩

/-- Only a call that tests a truth value makes an atom of its name. -/
theorem isTruthCall_of_mem_atoms (h : identifier text = .ok f) {name : String}
    (hmem : name ∈ f.atoms) (hname : name = "1" ∨ name = "0") : IsTruthCall text := by
  rcases identifier_eq_ok_iff.1 h with ⟨call, hcall, symbol, _, htext, rfl⟩ | hplain
  · obtain rfl : name = String.ofList symbol := List.mem_singleton.1 hmem
    refine ⟨call, hcall, ?_⟩
    rcases hname with hone | hzero
    · obtain rfl : symbol = ['1'] := String.toList_ofList.symm.trans (congrArg String.toList hone)
      exact ⟨'1', by decide, htext⟩
    · obtain rfl : symbol = ['0'] := String.toList_ofList.symm.trans (congrArg String.toList hzero)
      exact ⟨'0', by decide, htext⟩
  · obtain ⟨_, hone, hzero⟩ := (Plain.leaf_of_identifier hplain).1 name hmem
    exact absurd hname (not_or.2 ⟨hone, hzero⟩)

theorem readBack_eq_self_iff_of_readsAs {levels : Nat} {tokens : List Token}
    (htokens : grammar.tokens text = .ok tokens) (h : ReadsAs grammar levels tokens f) :
    f.readBack = f ↔ ¬HasTruthCall text := by
  rw [Formula.readBack_eq_self_iff]
  constructor
  · rintro hnames ⟨tokens', identifier, htokens', hmem, hcall⟩
    obtain rfl : tokens = tokens' := Except.ok.inj (htokens.symm.trans htokens')
    obtain ⟨name, hname, hmeaning⟩ := identifier_of_isTruthCall hcall
    have hatom := (h.mem_atoms_iff .definedness).2
      ⟨identifier, _, hmem, hmeaning, List.mem_cons_self⟩
    exact absurd hname (not_or.2 (hnames name hatom))
  · intro hcalls name hname
    obtain ⟨identifier, x, hmem, hmeaning, hatom⟩ := (h.mem_atoms_iff .definedness).1 hname
    refine not_or.1 fun hdigit => hcalls ⟨tokens, identifier, htokens, hmem, ?_⟩
    exact isTruthCall_of_mem_atoms hmeaning hatom hdigit

/-- The canonical text of what was parsed is read within twice the limit, and within fewer levels
it is too deep or read alike.  It is read as the formula itself exactly if no call tests a truth
value. -/
theorem parse_render_readBack (h : Parser.parse ⟨grammar, maxDepth⟩ text = .ok f) :
    (∀ limit, Parser.parse ⟨grammar, limit⟩ f.render =
      if f.nesting ≤ limit then .ok f.readBack else .error (.tooDeep limit)) ∧
    f.nesting ≤ 2 * maxDepth ∧ (f.readBack = f ↔ ¬HasTruthCall text) := by
  obtain ⟨tokens, htokens, hreads⟩ := Parser.exists_readsAs_of_parse h
  have hsymbols : ∀ name ∈ f.atoms, isSymbol name.toList = true := by
    intro name hname
    obtain ⟨identifier, x, _, hmeaning, hatom⟩ := (hreads.mem_atoms_iff .definedness).1 hname
    exact isSymbol_of_mem_atoms hmeaning name hatom
  have hnesting : f.nesting + 2 ≤ 2 * (maxDepth + 1) := by
    refine hreads.nesting_add_two_le .definedness 0 fun identifier _ x hx => ?_
    rcases identifier_eq_ok_iff.1 hx with ⟨_, _, _, _, _, rfl⟩ | hplain
    · exact Nat.le_refl 0
    · exact Nat.le_of_eq (Plain.leaf_of_identifier hplain).2
  exact ⟨Grammar.OfDialect.definedness.parse_render_eq_readBack hsymbols, by omega,
    readBack_eq_self_iff_of_readsAs htokens hreads⟩

theorem parse_render_readBack_example :
    Parser.parse ⟨grammar, 2⟩ "!defined(A) && definedEx(0)" =
        .ok (.conjunction (.negation (.atom "A")) (.atom "0")) ∧
      Parser.parse ⟨grammar, 4⟩ "(!A && 0)" =
        .ok (.conjunction (.negation (.atom "A")) (.constant false)) ∧
      HasTruthCall "!defined(A) && definedEx(0)" := by
  have h : Parser.parse ⟨grammar, 2⟩ "!defined(A) && definedEx(0)" =
      .ok (.conjunction (.negation (.atom "A")) (.atom "0")) := by rfl
  obtain ⟨hread, _, hiff⟩ := parse_render_readBack h
  exact ⟨h, hread 4, not_not.1 fun hcall => absurd (hiff.2 hcall) (by decide)⟩

/-- A call of `1` makes an atom, but its canonical text is a truth value within every limit. -/
theorem parse_render_truthCall_fails :
    ¬∀ (maxDepth : Nat) (text : String) (f : Formula),
      Parser.parse ⟨grammar, maxDepth⟩ text = .ok f →
        ∃ enough, ∀ limit, enough ≤ limit → Parser.parse ⟨grammar, limit⟩ f.render = .ok f := by
  intro h
  have haccepted : Parser.parse ⟨grammar, 0⟩ "defined(1)" = .ok (.atom "1") := by rfl
  obtain ⟨enough, hagain⟩ := h 0 "defined(1)" _ haccepted
  have hread : Parser.parse ⟨grammar, enough⟩ (Formula.atom "1").render = .ok (.constant true) := by
    rfl
  rw [hagain enough (Nat.le_refl _)] at hread
  cases hread

end Definedness

end Presence
