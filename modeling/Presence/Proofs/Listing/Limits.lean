import Presence.Proofs.Expression.Depth
import Presence.Proofs.Listing.Pruning

/-!
# Limits of parsers and of conversions

A parser and a conversion with the same limit do not accept the same formulas.  What the parser
accepts is at most one level too deep for the conversion, and it is so only if a comparison with
`!=` stands at the innermost level.  A conversion with a higher limit accepts all that the
parser does, and so no condition of a listing of the parser stops the pruning
(`Grammar.OfDialect.converts_parsed`).  The engines of the checks may still stop it.
-/

namespace Presence

variable {p : Parser} {f : Formula} {e : Entry}

/-! ## Conditions of listings -/

namespace Listing

theorem parse_of_condition {file text : String} (h : (condition p file text).result = some f) :
    p.parse text = .ok f := by
  rw [condition] at h
  split at h
  · cases h
  · split at h
    next hparse =>
      cases h
      exact hparse
    next => cases h

theorem exists_parse_of_line {number : Nat} {line : String}
    (h : (entryOfLine p number line).result = some e) (hf : e.condition = some f) :
    ∃ text, p.parse text = .ok f := by
  simp only [entryOfLine] at h
  split at h
  · cases h
  · split at h
    · cases h
    · cases h
      exact ⟨_, parse_of_condition hf⟩

/-- The conditions of a listing were parsed. -/
theorem exists_parse_of_entriesFrom {number : Nat} {lines : List (List UInt8)}
    {entries : List Entry} (h : (entriesFrom p number lines).result = .ok entries) (he : e ∈ entries)
    (hf : e.condition = some f) : ∃ text, p.parse text = .ok f := by
  induction lines generalizing number entries with
  | nil =>
      cases h
      cases he
  | cons line lines ih =>
      simp only [entriesFrom] at h
      split at h
      · cases h
      · cases hrest : (entriesFrom p (number + 1) lines).result with
        | error cause =>
            simp only [hrest] at h
            cases h
        | ok rest =>
            simp only [hrest] at h
            cases h
            rcases List.mem_append.1 he with he | he
            · exact exists_parse_of_line (Option.mem_toList.1 he) hf
            · exact ih hrest he

theorem exists_parse_of_read {bytes : List UInt8} {entries : List Entry}
    (h : (read p bytes).result = .ok entries) (he : e ∈ entries) (hf : e.condition = some f) :
    ∃ text, p.parse text = .ok f := by
  simp only [read] at h
  split at h
  next => cases h
  next hfound =>
    cases h
    exact exists_parse_of_entriesFrom hfound he hf

end Listing

/-! ## Limits -/

/-- The condition of the file comes from a text with a comparison by `!=` and has two levels more
than the limit of the parser. -/
def Entry.ExceedsByInequality (g : Grammar) (maxDepth : Nat) (e : Entry) : Prop :=
  ∃ f text, e.condition = some f ∧ Parser.parse ⟨g, maxDepth⟩ text = .ok f ∧
    g.HasInequality text ∧ f.depth = maxDepth + 2

namespace Grammar.OfDialect

variable {g : Grammar} {maxDepth limit : Nat} {text : String} {bytes : List UInt8}
  {entries : List Entry} {engines : Nat → Engine} {c : Checker} {policy : Policy}
  {cause : CheckError}

theorem exists_ofFormula_of_parse (hg : g.OfDialect)
    (h : Parser.parse ⟨g, maxDepth⟩ text = .ok f) (strategy : Strategy) (table : Option NameTable)
    (hlimit : maxDepth < limit) :
    ∃ form, ClauseForm.ofFormula strategy limit table f = .ok form := by
  have := (hg.depth_of_parse h).1
  exact ClauseForm.exists_ofFormula strategy table (by omega)

theorem ofFormula_eq_error_iff_of_parse (hg : g.OfDialect)
    (h : Parser.parse ⟨g, maxDepth⟩ text = .ok f) {strategy : Strategy} {table : Option NameTable}
    {cause : ConstraintError} :
    ClauseForm.ofFormula strategy maxDepth table f = .error cause ↔
      f.depth = maxDepth + 2 ∧ cause = .tooDeep maxDepth := by
  have := (hg.depth_of_parse h).1
  rw [ClauseForm.ofFormula_eq_error_iff]
  refine and_congr_left fun _ => ?_
  omega

/-- Within the limit of the parser or a higher one, only conditions with an inequality are too
deep, and only within the same limit. -/
theorem isTooDeep_iff_of_read (hg : g.OfDialect)
    (hread : (Listing.read ⟨g, maxDepth⟩ bytes).result = .ok entries) (he : e ∈ entries)
    (hlimit : maxDepth ≤ limit) :
    e.IsTooDeep limit ↔ limit = maxDepth ∧ e.ExceedsByInequality g maxDepth := by
  constructor
  · rintro ⟨f, hf, hlt⟩
    obtain ⟨text, htext⟩ := Listing.exists_parse_of_read hread he hf
    obtain ⟨hdepth, hinequality⟩ := hg.depth_of_parse htext
    have htwo : f.depth = maxDepth + 2 := by omega
    exact ⟨by omega, f, text, hf, htext, hinequality htwo, htwo⟩
  · rintro ⟨rfl, f, text, hf, _, _, hdepth⟩
    exact ⟨f, hf, by omega⟩

/-- What stops the pruning besides the engines is the first such condition. -/
theorem prune_eq_error_iff_of_read (hg : g.OfDialect)
    (hread : (Listing.read ⟨g, maxDepth⟩ bytes).result = .ok entries)
    (hlimit : maxDepth ≤ c.config.maxDepth) (hcause : cause.isOfEngine = false) :
    (Listing.prune engines c policy entries).result = .error cause ↔
      c.config.maxDepth = maxDepth ∧ cause = .constraint (.tooDeep maxDepth) ∧
      ∃ before e after, entries = before ++ e :: after ∧
        (∃ pruned, (Listing.prune engines c policy before).result = .ok pruned) ∧
        e.ExceedsByInequality g maxDepth := by
  rw [Listing.prune_eq_error_iff]
  constructor
  · rintro ⟨before, e, after, rfl, hpruned, hfault⟩
    obtain ⟨hdeep, rfl⟩ := (Listing.contradicting_eq_error_iff hcause).1 hfault
    have he : e ∈ before ++ e :: after := List.mem_append_right _ List.mem_cons_self
    obtain ⟨hsame, hexceeds⟩ := (hg.isTooDeep_iff_of_read hread he hlimit).1 hdeep
    rw [hsame]
    exact ⟨rfl, rfl, before, e, after, rfl, hpruned, hexceeds⟩
  · rintro ⟨hsame, rfl, before, e, after, rfl, hpruned, hexceeds⟩
    have he : e ∈ before ++ e :: after := List.mem_append_right _ List.mem_cons_self
    have hdeep := (hg.isTooDeep_iff_of_read hread he hlimit).2 ⟨hsame, hexceeds⟩
    refine ⟨before, e, after, rfl, hpruned, (Listing.contradicting_eq_error_iff hcause).2 ?_⟩
    exact ⟨hdeep, by rw [hsame]⟩

theorem exists_prune_of_read (hg : g.OfDialect)
    (hread : (Listing.read ⟨g, maxDepth⟩ bytes).result = .ok entries)
    (htimeout : c.config.timeout = 0) (hanswers : ∀ n, (engines n).Answers)
    (hlimit : maxDepth < c.config.maxDepth) :
    ∃ pruned, (Listing.prune engines c policy entries).result = .ok pruned := by
  cases hresult : (Listing.prune engines c policy entries).result with
  | ok pruned => exact ⟨pruned, rfl⟩
  | error cause =>
      obtain ⟨⟨e, he, hdeep⟩, _⟩ :=
        (Listing.prune_eq_error_iff_of_answers hanswers htimeout).1 hresult
      have := ((hg.isTooDeep_iff_of_read hread he (by omega)).1 hdeep).1
      omega

theorem prune_eq_error_iff_of_read_of_answers (hg : g.OfDialect)
    (hread : (Listing.read ⟨g, maxDepth⟩ bytes).result = .ok entries)
    (htimeout : c.config.timeout = 0) (hanswers : ∀ n, (engines n).Answers)
    (hlimit : c.config.maxDepth = maxDepth) :
    (Listing.prune engines c policy entries).result = .error cause ↔
      (∃ e ∈ entries, e.ExceedsByInequality g maxDepth) ∧
        cause = .constraint (.tooDeep maxDepth) := by
  rw [Listing.prune_eq_error_iff_of_answers hanswers htimeout, hlimit]
  refine and_congr_left fun _ => exists_congr fun e => and_congr_right fun he => ?_
  rw [hg.isTooDeep_iff_of_read hread he (Nat.le_refl _), and_iff_right rfl]

/-- What a parser accepts can be converted with any higher limit.  With the same limit exactly
those formulas are too deep that have two levels more than it, and only comparisons with `!=` make
them so.  So what stops the pruning of a listing of the parser, besides faults of the engines, is
the first condition with such a formula, and only with the same limit.  With engines that always
answer and without a time limit nothing else stops it. -/
theorem converts_parsed (hg : g.OfDialect) (maxDepth : Nat) :
    (∀ text f, Parser.parse ⟨g, maxDepth⟩ text = .ok f →
      f.depth ≤ maxDepth + 2 ∧ (f.depth = maxDepth + 2 → g.HasInequality text) ∧
      (∀ strategy limit table, maxDepth < limit →
        ∃ form, ClauseForm.ofFormula strategy limit table f = .ok form) ∧
      ∀ strategy table cause, ClauseForm.ofFormula strategy maxDepth table f = .error cause ↔
        f.depth = maxDepth + 2 ∧ cause = .tooDeep maxDepth) ∧
    ∀ bytes entries, (Listing.read ⟨g, maxDepth⟩ bytes).result = .ok entries →
      ∀ (engines : Nat → Engine) (c : Checker) (policy : Policy),
      (maxDepth ≤ c.config.maxDepth → ∀ cause : CheckError, cause.isOfEngine = false →
        ((Listing.prune engines c policy entries).result = .error cause ↔
          c.config.maxDepth = maxDepth ∧ cause = .constraint (.tooDeep maxDepth) ∧
          ∃ before e after, entries = before ++ e :: after ∧
            (∃ pruned, (Listing.prune engines c policy before).result = .ok pruned) ∧
            e.ExceedsByInequality g maxDepth)) ∧
      (c.config.timeout = 0 → (∀ n, (engines n).Answers) →
        (maxDepth < c.config.maxDepth →
          ∃ pruned, (Listing.prune engines c policy entries).result = .ok pruned) ∧
        (c.config.maxDepth = maxDepth → ∀ cause,
          (Listing.prune engines c policy entries).result = .error cause ↔
            (∃ e ∈ entries, e.ExceedsByInequality g maxDepth) ∧
              cause = .constraint (.tooDeep maxDepth))) := by
  constructor
  · intro text f h
    obtain ⟨hdepth, hinequality⟩ := hg.depth_of_parse h
    refine ⟨hdepth, hinequality, fun strategy limit table hlimit => ?_,
      fun strategy table cause => ?_⟩
    · exact hg.exists_ofFormula_of_parse h strategy table hlimit
    · exact hg.ofFormula_eq_error_iff_of_parse h
  · intro bytes entries hread engines c policy
    refine ⟨fun hlimit cause hcause => ?_, fun htimeout hanswers => ⟨?_, fun hlimit cause => ?_⟩⟩
    · exact hg.prune_eq_error_iff_of_read hread hlimit hcause
    · exact hg.exists_prune_of_read hread htimeout hanswers
    · exact hg.prune_eq_error_iff_of_read_of_answers hread htimeout hanswers hlimit

/-- The formula of `B && A != "y"`. -/
def unequalExample : Formula := .conjunction (.atom "B") (.negation (.atom "CONFIG_A"))

theorem converts_parsed_example :
    (Tristate.grammar "CONFIG_").OfDialect ∧
      Parser.parse ⟨Tristate.grammar "CONFIG_", 1⟩ "B && A != \"y\"" = .ok unequalExample ∧
      ClauseForm.ofFormula .replacing 1 none unequalExample = .error (.tooDeep 1) ∧
      (∃ form, ClauseForm.ofFormula .replacing 2 none unequalExample = .ok form) ∧
      (Listing.read ⟨Tristate.grammar "CONFIG_", 1⟩ "b.c: B && A != \"y\"".toUTF8.toList).result =
        .ok [⟨"b.c", some unequalExample⟩] ∧
      ∃ pruned, (Listing.prune (fun _ => Search.engine) ⟨{}, { maxDepth := 2 }⟩ .openWorld
        [⟨"b.c", some unequalExample⟩]).result = .ok pruned := by
  have hg : (Tristate.grammar "CONFIG_").OfDialect := .tristate "CONFIG_"
  have hparse : Parser.parse ⟨Tristate.grammar "CONFIG_", 1⟩ "B && A != \"y\"" =
      .ok unequalExample := by rfl
  have hread : (Listing.read ⟨Tristate.grammar "CONFIG_", 1⟩
      "b.c: B && A != \"y\"".toUTF8.toList).result = .ok [⟨"b.c", some unequalExample⟩] := by
    decide +kernel
  obtain ⟨hformulas, hlistings⟩ := hg.converts_parsed 1
  obtain ⟨_, _, hhigher, hsame⟩ := hformulas _ _ hparse
  have hpruned := (hlistings _ _ hread (fun _ => Search.engine) ⟨{}, { maxDepth := 2 }⟩
    .openWorld).2 rfl fun _ => Search.engine_answersCorrectly.answers
  refine ⟨hg, hparse, (hsame .replacing none _).2 ⟨?_, rfl⟩, hhigher .replacing 2 none (by decide),
    hread, hpruned.1 (by decide)⟩
  exact Formula.depth_eq_height _

/-- With the same limit a conversion may refuse what the parser accepted. -/
theorem converts_parsed_same_limit_fails :
    ¬∀ g : Grammar, g.OfDialect → ∀ (maxDepth : Nat) (text : String) (f : Formula),
      Parser.parse ⟨g, maxDepth⟩ text = .ok f → ∀ strategy table,
        ClauseForm.ofFormula strategy maxDepth table f ≠ .error (.tooDeep maxDepth) := by
  intro h
  have hparse : Parser.parse ⟨Tristate.grammar "CONFIG_", 0⟩ "A != \"y\"" =
      .ok (.negation (.atom "CONFIG_A")) := by rfl
  refine h _ (.tristate "CONFIG_") 0 _ _ hparse .replacing none ?_
  refine ClauseForm.ofFormula_eq_error_iff.2 ⟨?_, rfl⟩
  rw [Formula.depth_eq_height]
  decide

end Grammar.OfDialect

end Presence
