import Presence.Proofs.Expression.CanonicalText
import Presence.Proofs.Expression.Lexemes
import Presence.Proofs.Expression.Pieces

/-!
# Equals signs of tristate expressions

An equals sign of a text that was parsed belongs to the operator of a comparison.  The two
characters of `!=` always stand side by side, because an exclamation mark with anything else
behind it is a negation.  The two of `==` need not: blanks next to an equals sign are part
of the identifier, and they are taken out before the operator is looked for.  So `A = = "y"`
is parsed like `A == "y"` (`Tristate.isPaired_fails`).

Every other equals sign is refused: one that is not next to its partner is parted from
another equals sign by blanks only (`Tristate.isSpread_iff_of_parse`).

The proof looks at an equals sign in the text of an atom, where it has one of two
neighbourhoods (`Tristate.Atom.neighbours`), and puts the blanks back.
-/

namespace Presence.Tristate

/-- The character at the place makes a pair with an equals sign or an exclamation mark next
to it. -/
def IsPaired (p : Place) : Prop :=
  p.before.head? = some '=' ∨ p.before.head? = some '!' ∨ p.after.head? = some '='

/-- On one side of the place, blanks and then an equals sign come next. -/
def IsSpread (p : Place) : Prop :=
  (p.before.head? ≠ some '=' ∧ nearest? p.before = some '=') ∨
    (p.after.head? ≠ some '=' ∧ nearest? p.after = some '=')

instance (p : Place) : Decidable (IsPaired p) := inferInstanceAs (Decidable (_ ∨ _ ∨ _))

instance (p : Place) : Decidable (IsSpread p) := inferInstanceAs (Decidable (_ ∧ _ ∨ _ ∧ _))

/-! ## In the text of an atom -/

section

variable {name value left right : List Char} (hname : '=' ∉ name) (hvalue : '=' ∉ value)

include hname hvalue

/-- An equals sign around `==` is one of the two. -/
theorem cases_of_equality (h : name ++ '=' :: '=' :: value = left ++ '=' :: right) :
    left = name ∧ right = '=' :: value ∨ left = name ++ ['='] ∧ right = value := by
  rcases List.append_eq_append_iff.1 h with ⟨between, rfl, hrest⟩ | ⟨between, rfl, hrest⟩
  · rcases List.cons_eq_append_iff.1 hrest with ⟨rfl, heq⟩ | ⟨more, rfl, hmore⟩
    · exact Or.inl ⟨List.append_nil name, (List.cons.inj heq).2⟩
    · rcases List.cons_eq_append_iff.1 hmore with ⟨rfl, heq⟩ | ⟨most, rfl, hmost⟩
      · exact Or.inr ⟨rfl, (List.cons.inj heq).2⟩
      · exact absurd (hmost ▸ List.mem_append_right _ List.mem_cons_self) hvalue
  · rcases List.cons_eq_append_iff.1 hrest with ⟨rfl, heq⟩ | ⟨between, rfl, _⟩
    · exact Or.inl ⟨(List.append_nil left).symm, ((List.cons.inj heq).2).symm⟩
    · exact absurd (List.mem_append_right _ List.mem_cons_self) hname

/-- An equals sign around `!=` is its second character. -/
theorem eq_of_inequality (h : name ++ '!' :: '=' :: value = left ++ '=' :: right) :
    left = name ++ ['!'] ∧ right = value := by
  have hsplit : (name ++ ['!']) ++ '=' :: value = left ++ '=' :: right := by
    rw [← h, List.append_assoc, List.singleton_append]
  have hmark : '=' ∉ name ++ ['!'] := by simpa using hname
  obtain ⟨hleft, _, hright⟩ := (List.append_cons_inj_of_notMem hmark hvalue).1 hsplit
  exact ⟨hleft.symm, hright.symm⟩

end

/-- An equals sign in an atom is the first of `==`, or else the last of an operator. -/
theorem Atom.neighbours (a : Atom) {left right : List Char} (h : a.text = left ++ '=' :: right) :
    (∃ c, left.getLast? = some c ∧ isSymbolChar c = true) ∧ right.head? = some '=' ∨
      (left.getLast? = some '=' ∨ left.getLast? = some '!') ∧ right.head? = some '"' := by
  have hmem : '=' ∈ a.text := h ▸ List.mem_append_right _ List.mem_cons_self
  cases a with
  | symbol name valid => exact absurd hmem (not_mem_of_isSymbol valid.1 (by decide))
  | constant b => cases b <;> exact absurd hmem (by decide)
  | truth => exact absurd hmem (by decide)
  | comparison name valid equal value =>
      have hname : '=' ∉ name.toList := not_mem_of_isSymbol valid (by decide)
      have hquote : value.text.head? = some '"' := by
        obtain ⟨rest, hvalue⟩ := value.exists_text_eq_cons
        rw [hvalue, List.head?_cons]
      cases equal with
      | true =>
          rcases cases_of_equality hname value.not_mem_text h with ⟨rfl, rfl⟩ | ⟨rfl, rfl⟩
          · refine Or.inl ⟨⟨_, List.getLast?_eq_some_getLast (ne_nil_of_isSymbol valid), ?_⟩, rfl⟩
            exact isSymbolChar_of_isSymbol valid _ (List.getLast_mem _)
          · exact Or.inr ⟨Or.inl List.getLast?_concat, hquote⟩
      | false =>
          obtain ⟨rfl, rfl⟩ := eq_of_inequality hname value.not_mem_text h
          exact Or.inr ⟨Or.inr List.getLast?_concat, hquote⟩

/-! ## In a text -/

variable {stem : String} {before after left right : List Char}

/-- In an identifier an equals sign comes right after an exclamation mark, if that is the nearest
character before it that is no blank. -/
theorem head?_of_nearest?_mark
    (hletters : (grammar stem).AllLetters before after (left ++ '=' :: right))
    (h : nearest? left.reverse = some '!') : left.reverse.head? = some '!' := by
  rw [nearest?_eq] at h
  obtain ⟨rest, hfilter⟩ := List.head?_eq_some_iff.1 h
  obtain ⟨gap, rest, hleft, hgap, _, _⟩ := List.filter_eq_cons_iff.1 hfilter
  have hsplit : left ++ '=' :: right = rest.reverse ++ '!' :: (gap.reverse ++ '=' :: right) := by
    rw [← left.reverse_reverse, hleft]
    simp
  rw [hsplit] at hletters
  have hnext : (gap.reverse ++ '=' :: right ++ after).head? = some '=' := by
    by_contra hnot
    have hpiece := hletters.piece?
    rw [piece?_not stem hnot] at hpiece
    cases hpiece
  cases hreverse : gap.reverse with
  | nil => rw [hleft, List.reverse_eq_nil_iff.1 hreverse, List.nil_append, List.head?_cons]
  | cons c gap' =>
      rw [hreverse] at hnext
      obtain rfl : c = '=' := Option.some.inj hnext
      have hblank := hgap '=' (List.mem_reverse.1 (hreverse ▸ List.mem_cons_self))
      exact absurd rfl hblank

/-- The neighbours of an equals sign in an identifier that has a meaning. -/
theorem neighbours_of_identifier {f : Formula}
    (hletters : (grammar stem).AllLetters before after (left ++ '=' :: right))
    (h : identifier stem (String.ofList (left ++ '=' :: right)) = .ok f) :
    (∃ c, nearest? (left.reverse ++ before) = some c ∧ isSymbolChar c = true) ∧
        nearest? (right ++ after) = some '=' ∨
      (nearest? (left.reverse ++ before) = some '=' ∨
          (left.reverse ++ before).head? = some '!') ∧ nearest? (right ++ after) = some '"' := by
  obtain ⟨a, htext, _⟩ := identifier_eq_ok_iff.1 h
  rw [String.toList_ofList, List.filter_append, List.filter_cons_of_pos rfl] at htext
  have hbefore : ∀ {c}, (left.filter fun c => !isBlank c).getLast? = some c →
      nearest? left.reverse = some c := (nearest?_reverse left).trans
  have hafter : ∀ {c}, (right.filter fun c => !isBlank c).head? = some c →
      nearest? (right ++ after) = some c := by
    intro c hc
    exact nearest?_append ((nearest?_eq right).trans hc) after
  rcases a.neighbours htext with ⟨⟨c, hleft, hc⟩, hright⟩ | ⟨hleft | hleft, hright⟩
  · exact Or.inl ⟨⟨c, nearest?_append (hbefore hleft) before, hc⟩, hafter hright⟩
  · exact Or.inr ⟨Or.inl (nearest?_append (hbefore hleft) before), hafter hright⟩
  · have hhead := head?_of_nearest?_mark hletters (hbefore hleft)
    rw [List.head?_append, hhead, Option.some_or]
    exact Or.inr ⟨Or.inr rfl, hafter hright⟩

/-- With such neighbours an equals sign is parted from its partner exactly if it is not next to
it. -/
theorem isSpread_iff_of_neighbours {p : Place}
    (h : (∃ c, nearest? p.before = some c ∧ isSymbolChar c = true) ∧ nearest? p.after = some '=' ∨
      (nearest? p.before = some '=' ∨ p.before.head? = some '!') ∧ nearest? p.after = some '"') :
    IsSpread p ↔ ¬IsPaired p := by
  have hequals : ∀ {side : List Char}, side.head? = some '=' → nearest? side = some '=' :=
    fun hside => nearest?_of_head? hside rfl
  have hmark : p.before.head? = some '!' → nearest? p.before = some '!' :=
    fun hside => nearest?_of_head? hside rfl
  rcases h with ⟨⟨c, hbefore, hc⟩, hafter⟩ | ⟨hbefore | hbefore, hafter⟩
  · have hne : nearest? p.before ≠ some '=' ∧ nearest? p.before ≠ some '!' := by
      rw [hbefore]
      constructor
      · rintro ⟨rfl⟩
        cases hc
      · rintro ⟨rfl⟩
        cases hc
    simp [IsSpread, IsPaired, hne, hafter, mt hequals hne.1, mt hmark hne.2]
  · have hne : p.before.head? ≠ some '!' := fun h => by
      rw [hmark h] at hbefore
      cases hbefore
    have hquote : p.after.head? ≠ some '=' := fun h => by
      rw [hequals h] at hafter
      cases hafter
    simp [IsSpread, IsPaired, hbefore, hafter, hne, hquote]
  · have hquote : p.after.head? ≠ some '=' := fun h => by
      rw [hequals h] at hafter
      cases hafter
    simp [IsSpread, IsPaired, hbefore, hafter, hmark hbefore]

/-- In a text that was parsed, an equals sign is parted from another one by blanks exactly if
it is not next to the other character of its operator. -/
theorem isSpread_iff_of_parse {maxDepth : Nat} {text : String} {f : Formula}
    (h : Parser.parse ⟨grammar stem, maxDepth⟩ text = .ok f) :
    ∀ p ∈ Place.list text, p.here = '=' → (IsSpread p ↔ ¬IsPaired p) := by
  obtain ⟨tokens, htokens, hreads⟩ := Parser.exists_readsAs_of_parse h
  have hpiece : ∀ p : Place, p.here = '=' → (grammar stem).piece? p = some (.letter '=') := by
    rintro ⟨before, c, after⟩ rfl
    exact piece?_letter stem (Or.inr List.mem_cons_self)
  refine (Grammar.tokens_eq_ok_iff.1 htokens).forall_mem ?_ ?_ ?_
  · intro p piece hp hletter hhere
    rw [hpiece p hhere] at hp
    exact absurd ⟨'=', (Option.some.inj hp).symm⟩ hletter
  · intro q p op hq hmem hhere
    obtain ⟨hop, hwritten⟩ := operator?_eq_some (Grammar.operator?_of_piece? hq)
    have hsymbol := Place.mem_symbol_of_startsWith hwritten hmem
    rw [hhere] at hsymbol
    rcases hop with rfl | rfl | rfl <;> exact absurd hsymbol (by decide)
  · rintro before left right after c hletters hmem rfl
    obtain ⟨x, hx⟩ := hreads.exists_identifier _ hmem
    exact isSpread_iff_of_neighbours (neighbours_of_identifier hletters hx)

theorem isSpread_iff_of_parse_example :
    Parser.parse ⟨grammar, 1⟩ "A!=\"m\"&&B =\t= \"y\"" =
        .ok (.conjunction (.negation (.atom "CONFIG_A_MODULE")) (.atom "CONFIG_B")) ∧
      ¬IsSpread ⟨['!', 'A'], '=', "\"m\"&&B =\t= \"y\"".toList⟩ ∧
      IsSpread ⟨" B&&\"m\"=!A".toList, '=', "\t= \"y\"".toList⟩ := by
  have h : Parser.parse ⟨grammar, 1⟩ "A!=\"m\"&&B =\t= \"y\"" =
      .ok (.conjunction (.negation (.atom "CONFIG_A_MODULE")) (.atom "CONFIG_B")) := by rfl
  have hmark : ⟨['!', 'A'], '=', "\"m\"&&B =\t= \"y\"".toList⟩ ∈
      Place.list "A!=\"m\"&&B =\t= \"y\"" := by decide
  have hequals : ⟨" B&&\"m\"=!A".toList, '=', "\t= \"y\"".toList⟩ ∈
      Place.list "A!=\"m\"&&B =\t= \"y\"" := by decide
  refine ⟨h, fun hspread => ?_, ?_⟩
  · exact absurd ((isSpread_iff_of_parse h _ hmark rfl).1 hspread) (by decide)
  · exact (isSpread_iff_of_parse h _ hequals rfl).2 (by decide)

/-- Not every equals sign of a text that was parsed is next to its partner. -/
theorem isPaired_fails :
    ¬∀ (stem : String) (maxDepth : Nat) (text : String) (f : Formula),
      Parser.parse ⟨grammar stem, maxDepth⟩ text = .ok f →
        ∀ p ∈ Place.list text, p.here = '=' → IsPaired p := by
  intro h
  have haccepted : Parser.parse ⟨grammar, 0⟩ "A = = \"y\"" = .ok (.atom "CONFIG_A") := by rfl
  have hfirst : ⟨[' ', 'A'], '=', " = \"y\"".toList⟩ ∈ Place.list "A = = \"y\"" := by decide
  exact absurd (h defaultStem 0 _ _ haccepted _ hfirst rfl) (by decide)

end Presence.Tristate
