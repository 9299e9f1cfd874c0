import Presence.Expression.Parser
import Presence.Proofs.Expression.CanonicalText
import Presence.Proofs.Formula.Walk
import Mathlib.Data.List.DropRight

/-!
# Histories of interners

Several parsers can share one interner, which also hands out tickets for single names and is
cleared now and then.  All that is one row of events, in which a ticket is handed out for a name or
all names are forgotten (`Request.events`).  A parse hands out a ticket for each name at the place
where it meets it, also if it fails later (`parseInterning_eq`), and the atoms of the formula that
it returns are these names (`names_of_parse`).

Tickets of different names differ at any time, and each is below the next one to hand out
(`Orderly`).  As a clear does not set back the next ticket, all tickets after it are above all
before it.  So two tickets are the same exactly if they are for the same name without a clear
between them (`handed_eq_handed_iff`).
-/

namespace Presence

namespace Interner

/-- What happens to an interner. -/
inductive Event where
  /-- A ticket is handed out for a name. -/
  | hand (name : String)
  /-- All names are forgotten. -/
  | clear
  deriving DecidableEq, Repr

/-- The name that a ticket is handed out for. -/
def Event.name? : Event → Option String
  | hand name => some name
  | clear => none

/-- The interner after an event. -/
def after (i : Interner) : Event → Interner
  | .hand name => i.intern name
  | .clear => i.clear

/-- The interner after several events. -/
def run (i : Interner) (events : List Event) : Interner := events.foldl after i

/-- The ticket that is handed out for a name. -/
def handed (i : Interner) (name : String) : Option Nat := (i.intern name).ticket? name

variable {i : Interner} {name m n : String} {k low : Nat} {events between : List Event} {e : Event}

/-! ## Tickets -/

theorem ticket?_empty (n : String) : ({} : Interner).ticket? n = none :=
  Std.TreeMap.getElem?_emptyc

theorem ticket?_clear (i : Interner) (n : String) : i.clear.ticket? n = none :=
  Std.TreeMap.getElem?_emptyc

theorem intern_of_ticket? (h : i.ticket? name = some k) : i.intern name = i := by
  rw [intern, h]

theorem intern_of_new (h : i.ticket? name = none) :
    i.intern name = { tickets := i.tickets.insert name i.next, next := i.next + 1 } := by
  rw [intern, h]

/-- Only the name gets a ticket, and if it has none that is the next one. -/
theorem ticket?_intern (i : Interner) (name n : String) :
    (i.intern name).ticket? n =
      if n = name then some ((i.ticket? name).getD i.next) else i.ticket? n := by
  cases hname : i.ticket? name with
  | some k =>
      rw [intern_of_ticket? hname, Option.getD_some]
      split
      next h => rw [h, hname]
      next => rfl
  | none =>
      rw [intern_of_new hname]
      simp only [ticket?, Std.TreeMap.getElem?_insert, Std.LawfulEqCmp.compare_eq_iff_eq,
        eq_comm (a := name), Option.getD_none]

theorem next_le_next_after (i : Interner) (e : Event) : i.next ≤ (i.after e).next := by
  cases e with
  | hand name =>
      rw [after]
      cases hname : i.ticket? name with
      | some k => rw [intern_of_ticket? hname]
      | none =>
          rw [intern_of_new hname]
          exact Nat.le_succ _
  | clear => exact Nat.le_refl _

theorem next_le_next_run (i : Interner) (events : List Event) : i.next ≤ (i.run events).next := by
  induction events generalizing i with
  | nil => exact Nat.le_refl _
  | cons e events ih => exact Nat.le_trans (next_le_next_after i e) (ih (i.after e))

theorem run_append (i : Interner) (before after : List Event) :
    i.run (before ++ after) = (i.run before).run after :=
  List.foldl_append

/-- A name keeps its ticket when tickets are handed out. -/
theorem ticket?_intern_of_ticket? (h : i.ticket? n = some k) (name : String) :
    (i.intern name).ticket? n = some k := by
  rw [ticket?_intern]
  split
  next heq => rw [← heq, h, Option.getD_some]
  next => exact h

/-- It keeps its ticket until the interner is cleared. -/
theorem ticket?_run_of_ticket? (h : i.ticket? n = some k) (hclear : Event.clear ∉ events) :
    (i.run events).ticket? n = some k := by
  induction events generalizing i with
  | nil => exact h
  | cons e events ih =>
      rw [List.mem_cons, not_or] at hclear
      refine ih ?_ hclear.2
      cases e with
      | hand name => exact ticket?_intern_of_ticket? h name
      | clear => exact absurd rfl hclear.1

theorem exists_handed (i : Interner) (name : String) : ∃ k, i.handed name = some k := by
  rw [handed, ticket?_intern, if_pos rfl]
  exact ⟨_, rfl⟩

/-- Tickets are at least `low` and below the next one, and no two names have the same. -/
structure Orderly (low : Nat) (i : Interner) : Prop where
  /-- The next ticket is not below `low` either. -/
  low_le_next : low ≤ i.next
  /-- Tickets are in this range. -/
  range : ∀ n k, i.ticket? n = some k → low ≤ k ∧ k < i.next
  /-- Different names have different tickets. -/
  inj : ∀ m n k, i.ticket? m = some k → i.ticket? n = some k → m = n

namespace Orderly

theorem of_no_tickets (h : ∀ n, i.ticket? n = none) : Orderly i.next i where
  low_le_next := Nat.le_refl _
  range := by
    intro n k hk
    rw [h] at hk
    cases hk
  inj := by
    intro m n k hk
    rw [h] at hk
    cases hk

theorem empty : Orderly 0 {} := of_no_tickets ticket?_empty

/-- After a clear all tickets are new. -/
theorem clear (i : Interner) : Orderly i.next i.clear := of_no_tickets (ticket?_clear i)

theorem weaken (h : Orderly k i) (hle : low ≤ k) : Orderly low i where
  low_le_next := Nat.le_trans hle h.low_le_next
  range := fun n j hj => ⟨Nat.le_trans hle (h.range n j hj).1, (h.range n j hj).2⟩
  inj := h.inj

/-- The next ticket is not in use. -/
theorem intern (h : Orderly low i) (name : String) : Orderly low (i.intern name) := by
  cases hname : i.ticket? name with
  | some k =>
      rw [intern_of_ticket? hname]
      exact h
  | none =>
      have hticket : ∀ n, (i.intern name).ticket? n =
          if n = name then some i.next else i.ticket? n := by
        intro n
        rw [ticket?_intern, hname, Option.getD_none]
      have hnext : (i.intern name).next = i.next + 1 := by rw [intern_of_new hname]
      have hnew : ∀ n, i.ticket? n ≠ some i.next := fun n hn => Nat.lt_irrefl _ (h.range n _ hn).2
      refine ⟨Nat.le_trans h.low_le_next (next_le_next_after i (.hand name)), ?_, ?_⟩
      · intro n k hk
        rw [hticket] at hk
        rw [hnext]
        split at hk
        next =>
          cases hk
          exact ⟨h.low_le_next, Nat.lt_succ_self _⟩
        next =>
          obtain ⟨hlow, hlt⟩ := h.range n k hk
          exact ⟨hlow, Nat.lt_succ_of_lt hlt⟩
      · intro m n k hm hn
        rw [hticket] at hm hn
        split at hm <;> split at hn
        next hm' hn' => rw [hm', hn']
        next =>
          cases hm
          exact absurd hn (hnew n)
        next =>
          cases hn
          exact absurd hm (hnew m)
        next => exact h.inj m n k hm hn

theorem after (h : Orderly low i) (e : Event) : Orderly low (i.after e) := by
  cases e with
  | hand name => exact h.intern name
  | clear => exact (Orderly.clear i).weaken h.low_le_next

theorem run (h : Orderly low i) (events : List Event) : Orderly low (i.run events) := by
  induction events generalizing i with
  | nil => exact h
  | cons e events ih => exact ih (h.after e)

end Orderly

/-- A ticket is handed out again exactly for the same name, as long as the interner is not
cleared. -/
theorem handed_eq_handed_iff (h : Orderly low i) :
    i.handed m = ((i.intern m).run between).handed n ↔ m = n ∧ Event.clear ∉ between := by
  obtain ⟨k, hk⟩ := exists_handed i m
  have hafter := h.intern m
  by_cases hclear : Event.clear ∈ between
  · refine iff_of_false (fun heq => ?_) fun h => h.2 hclear
    obtain ⟨first, last, rfl⟩ := List.append_of_mem hclear
    rw [run_append] at heq
    -- The ticket was given before the clear, and all since then are above the next one by then.
    have hlt : k < ((i.intern m).run first).next :=
      Nat.lt_of_lt_of_le (hafter.range m k hk).2 (next_le_next_run _ first)
    have hlate := ((Orderly.clear ((i.intern m).run first)).run last).intern n
    exact Nat.not_le_of_lt hlt (hlate.range n k (heq.symm.trans hk)).1
  · rw [and_iff_left hclear, hk]
    have hkept : (((i.intern m).run between).intern n).ticket? m = some k :=
      ticket?_intern_of_ticket? (ticket?_run_of_ticket? hk hclear) n
    constructor
    · intro heq
      exact ((hafter.run between).intern n).inj m n k hkept heq.symm
    · rintro rfl
      exact hkept.symm

/-! ## Sizes -/

/-- The names for which tickets were handed out since the last clear. -/
def sinceClear (events : List Event) : List String :=
  (events.rtakeWhile (· ≠ .clear)).filterMap Event.name?

theorem sinceClear_hand (events : List Event) (name : String) :
    sinceClear (events ++ [.hand name]) = sinceClear events ++ [name] := by
  rw [sinceClear, List.rtakeWhile_concat_pos _ _ _ (by simp), List.filterMap_append]
  rfl

theorem sinceClear_clear (events : List Event) : sinceClear (events ++ [.clear]) = [] := by
  rw [sinceClear, List.rtakeWhile_concat_neg _ _ _ (by simp)]
  rfl

/-- The names with a ticket are those handed out since the last clear. -/
theorem isSome_ticket?_run_iff (events : List Event) (n : String) :
    ((({} : Interner).run events).ticket? n).isSome = true ↔ n ∈ sinceClear events := by
  induction events using List.reverseRecOn with
  | nil =>
      rw [run, List.foldl_nil, ticket?_empty]
      simp [sinceClear]
  | append_singleton events e ih =>
      rw [run_append, run, List.foldl_cons, List.foldl_nil]
      cases e with
      | hand name =>
          rw [after, ticket?_intern, sinceClear_hand, List.mem_append, List.mem_singleton, ← ih]
          split
          next h => simp [h]
          next h => simp [h]
      | clear =>
          rw [after, ticket?_clear, sinceClear_clear]
          simp

/-- The size is the number of different names since the last clear. -/
theorem size_run (events : List Event) :
    (({} : Interner).run events).size = (sinceClear events).eraseDups.length := by
  have hperm : (({} : Interner).run events).tickets.keys.Perm (sinceClear events).eraseDups := by
    refine (List.perm_ext_iff_of_nodup Std.TreeMap.nodup_keys (Formula.nodup_eraseDups _)).2 ?_
    intro n
    rw [Std.TreeMap.mem_keys, Std.TreeMap.mem_iff_isSome_getElem?, List.mem_eraseDups,
      ← isSome_ticket?_run_iff]
    rfl
  rw [size, ← Std.TreeMap.length_keys, hperm.length_eq]

/-! ## Parses -/

end Interner

open Interner

theorem Interner.internAll_append (i : Interner) (names more : List String) :
    i.internAll (names ++ more) = (i.internAll names).internAll more :=
  List.foldl_append

/-- The names up to the first fault are interned in order. -/
theorem Outline.interpretInterning_eq (g : Grammar) (o : Outline) (i : Interner) :
    o.interpretInterning g i = (i.internAll (o.interpret g).1, (o.interpret g).2) := by
  induction o generalizing i with
  | identifier text =>
      rw [interpretInterning, interpret]
      cases g.identifier text with
      | ok f => rfl
      | error cause => rfl
  | unary op operand ih =>
      rw [interpretInterning, interpret, ih]
      rcases operand.interpret g with ⟨names, cause | f⟩
      · rfl
      · rfl
  | binary op left right ihl ihr =>
      rw [interpretInterning, interpret, ihl]
      rcases left.interpret g with ⟨names, cause | l⟩
      · rfl
      · simp only [ihr]
        rcases right.interpret g with ⟨more, cause | r⟩
        · simp only [internAll_append]
        · simp only [internAll_append]
  | fault cause => rfl

theorem Parser.parseInterning_eq (p : Parser) (i : Interner) (text : String) :
    p.parseInterning i text = p.parsePassingOn i text := by
  rw [parseInterning, read, parsePassingOn]
  cases p.grammar.tokens text with
  | error cause => rfl
  | ok tokens =>
      simp only [readTokens]
      rw [Outline.interpretInterning_eq]

/-- Where operators have their usual meaning, these names are the atoms of the formula. -/
theorem Outline.names_of_interpret {g : Grammar} {o : Outline} {names : List String} {f : Formula}
    (hunary : g.unary = Operator.applyUnary) (hbinary : g.binary = Operator.applyBinary)
    (h : o.interpret g = (names, .ok f)) : names = f.atoms := by
  induction o generalizing names f with
  | identifier text =>
      rw [interpret] at h
      split at h
      next =>
        cases h
        rfl
      next => cases h
  | unary op operand ih =>
      rw [interpret, hunary] at h
      split at h
      next operandNames x hoperand =>
        obtain ⟨rfl, hmeaning⟩ := Prod.mk.inj h
        rw [Operator.eq_of_applyUnary hmeaning, Formula.atoms]
        exact ih hoperand
      next => cases h
  | binary op left right ihl ihr =>
      rw [interpret, hbinary] at h
      split at h
      next => cases h
      next leftNames l hleft =>
        split at h
        next rightNames r hright =>
          obtain ⟨rfl, hmeaning⟩ := Prod.mk.inj h
          rw [ihl hleft, ihr hright]
          rcases Operator.eq_of_applyBinary hmeaning with rfl | rfl
          · rfl
          · rfl
        next => cases h
  | fault cause => cases h

theorem Parser.names_of_parse {p : Parser} {text : String} {f : Formula}
    (hunary : p.grammar.unary = Operator.applyUnary)
    (hbinary : p.grammar.binary = Operator.applyBinary) (h : p.parse text = .ok f) :
    (p.read text).1 = f.atoms := by
  rw [parse] at h
  rw [read] at h ⊢
  split at h
  next => cases h
  next tokens htokens => exact Outline.names_of_interpret hunary hbinary (Prod.ext rfl h)

/-! ## Requests -/

namespace Interner

/-- What an interner is asked for. -/
inductive Request where
  /-- A parser reads a text and interns its names. -/
  | parse (p : Parser) (text : String)
  /-- A name is interned. -/
  | intern (name : String)
  /-- All names are forgotten. -/
  | clear

/-- What happens on a request, name by name. -/
def Request.events : Request → List Event
  | parse p text => (p.read text).1.map .hand
  | intern name => [.hand name]
  | clear => [.clear]

/-- The interner after a request. -/
def perform (i : Interner) : Request → Interner
  | .parse p text => (p.parseInterning i text).1
  | .intern name => i.intern name
  | .clear => i.clear

/-- The interner after several requests. -/
def performAll (i : Interner) (requests : List Request) : Interner := requests.foldl perform i

theorem perform_eq_run (i : Interner) (r : Request) : i.perform r = i.run r.events := by
  cases r with
  | parse p text =>
      rw [perform, Parser.parseInterning, Request.events, run, List.foldl_map]
      rfl
  | intern name => rfl
  | clear => rfl

theorem performAll_eq_run (i : Interner) (requests : List Request) :
    i.performAll requests = i.run (requests.flatMap Request.events) := by
  induction requests generalizing i with
  | nil => rfl
  | cons r requests ih =>
      rw [List.flatMap_cons, run_append, ← perform_eq_run]
      exact ih (i.perform r)

/-- Whatever an interner was asked for, tickets are handed out as names are met, by parses that
succeed or fail as well.  Two of them are the same exactly if they are for the same name and no
clear came between.  A name keeps its ticket until the next clear, and the size is the number of
different names since the last one. -/
theorem tickets_performAll (requests : List Request) :
    (∀ (p : Parser) (i : Interner) (text : String),
      p.parseInterning i text = p.parsePassingOn i text) ∧
    (∀ (p : Parser) (text : String) (f : Formula), p.grammar.unary = Operator.applyUnary →
      p.grammar.binary = Operator.applyBinary → p.parse text = .ok f →
      (Request.parse p text).events = f.atoms.map .hand) ∧
    (∀ before m between n after,
      requests.flatMap Request.events = before ++ .hand m :: (between ++ .hand n :: after) →
      ((({} : Interner).run before).handed m =
          (({} : Interner).run (before ++ .hand m :: between)).handed n ↔
        m = n ∧ Event.clear ∉ between)) ∧
    (∀ before n after, requests.flatMap Request.events = before ++ .hand n :: after →
      Event.clear ∉ after → ∃ k, (({} : Interner).run before).handed n = some k ∧
        (({} : Interner).performAll requests).ticket? n = some k) ∧
    (({} : Interner).performAll requests).size =
      (sinceClear (requests.flatMap Request.events)).eraseDups.length := by
  rw [performAll_eq_run]
  refine ⟨Parser.parseInterning_eq, ?_, ?_, ?_, size_run _⟩
  · intro p text f hunary hbinary hparse
    rw [Request.events, Parser.names_of_parse hunary hbinary hparse]
  · intro before m between n after _
    rw [run_append]
    exact handed_eq_handed_iff (Orderly.empty.run before)
  · intro before n after hevents hclear
    obtain ⟨k, hk⟩ := exists_handed (({} : Interner).run before) n
    have hrun : ({} : Interner).run (before ++ .hand n :: after) =
        ((({} : Interner).run before).intern n).run after := run_append _ before _
    rw [hevents, hrun]
    exact ⟨k, hk, ticket?_run_of_ticket? hk hclear⟩

/-- The names of `A && B`, then a clear and a text that is no expression behind `B`, then `A`. -/
def requestsExample : List Request :=
  [.parse ⟨Plain.grammar, 1000⟩ "A && B", .clear, .parse ⟨Plain.grammar, 1000⟩ "B && C D",
    .intern "A"]

/-- The name `B` gets another ticket after the clear, and it counts although its parse fails. -/
theorem tickets_performAll_example :
    (({} : Interner).run [.hand "A"]).handed "B" ≠
      (({} : Interner).run [.hand "A", .hand "B", .clear]).handed "B" ∧
    (∃ k, (({} : Interner).run [.hand "A", .hand "B", .clear]).handed "B" = some k ∧
      (({} : Interner).performAll requestsExample).ticket? "B" = some k) ∧
    (({} : Interner).performAll requestsExample).size = 2 := by
  have hevents : requestsExample.flatMap Request.events =
      [.hand "A", .hand "B", .clear, .hand "B", .hand "A"] := by decide +kernel
  obtain ⟨-, -, hsame, hkept, hsize⟩ := tickets_performAll requestsExample
  refine ⟨fun heq => ?_, ?_, ?_⟩
  · exact ((hsame [.hand "A"] "B" [.clear] "B" [.hand "A"] hevents).1 heq).2 (by decide)
  · exact hkept [.hand "A", .hand "B", .clear] "B" [.hand "A"] hevents (by decide)
  · rw [hsize, hevents]
    decide +kernel

end Interner

end Presence
