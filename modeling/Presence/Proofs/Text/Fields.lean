import Presence.Text.Blank
import Presence.Text.Count
import Mathlib.Data.List.DropRight

/-!
# Written numbers and fields

The decimal digits of a number build it up from left to right (`foldl_toDigits`), so the
text of a number reads as its count (`Count.read?_toString`).  A word without blanks is the
first field of every text in which a blank follows it (`fields_append_blank`).  Trimming changes
exactly the texts that end in a blank (`trimEnd_eq_self`, `getLast?_trimEnd`).
-/

namespace Presence

/-! ## Decimal digits -/

/-- If the first digit gives its own value, and each further digit takes the value `v` to
`v * 10 + d`, then the digits of a number give the number. -/
theorem foldl_toDigits {α : Type} {f : α → Char → α} {a : α} (g : Nat → α) {n : Nat}
    (hfirst : ∀ d < 10, d ≤ n → f a (Nat.digitChar d) = g d)
    (hnext : ∀ v, ∀ d < 10, v * 10 + d ≤ n → f (g v) (Nat.digitChar d) = g (v * 10 + d)) :
    (Nat.toDigits 10 n).foldl f a = g n := by
  -- The induction is on the number, since `Nat.toDigits` takes off the last digit.
  induction n using Nat.strongRecOn with
  | ind n ih =>
      rw [Nat.toDigits_eq_if (by decide)]
      split
      next hlt => rw [List.foldl_cons, List.foldl_nil, hfirst n hlt (Nat.le_refl n)]
      next hge =>
        have hinit := ih (n / 10) (by omega) (fun d hd hle => hfirst d hd (by omega))
          (fun v d hd hle => hnext v d hd (by omega))
        have hlast := hnext (n / 10) (n % 10) (by omega) (by omega)
        rw [List.foldl_append, hinit, List.foldl_cons, List.foldl_nil, hlast]
        congr 1
        omega

theorem toList_toString (n : Nat) : (toString n).toList = Nat.toDigits 10 n := by
  rw [Nat.toString_eq_repr, Nat.toList_repr]

namespace Count

theorem isDigit_of_mem_toString {n : Nat} {c : Char} (hc : c ∈ (toString n).toList) :
    isDigit c = true := by
  rw [toList_toString] at hc
  exact Nat.isDigit_of_mem_toDigits (by decide) (by decide) hc

theorem digitValue_digitChar : ∀ d < 10, digitValue (Nat.digitChar d) = d := by decide

theorem ofDigits_toString (n : Nat) : ofDigits (toString n).toList = n := by
  rw [toList_toString]
  refine foldl_toDigits id (fun d hd _ => ?_) fun v d hd _ => ?_
  · rw [digitValue_digitChar d hd, Nat.zero_mul, Nat.zero_add, id]
  · rw [digitValue_digitChar d hd, id, id]

theorem toList_toString_ne_nil (n : Nat) : (toString n).toList ≠ [] := by
  rw [toList_toString]
  exact Nat.toDigits_ne_nil

theorem unsigned?_toString {n : Nat} (h : n ≤ largest) :
    unsigned? (toString n).toList = some n := by
  have hdigits : (toString n).toList.all isDigit = true :=
    List.all_eq_true.2 fun _ => isDigit_of_mem_toString
  have hempty : (toString n).toList.isEmpty = false := by
    rw [List.isEmpty_eq_false_iff]
    exact toList_toString_ne_nil n
  rw [unsigned?, ofDigits_toString, hdigits, hempty, decide_eq_true h]
  rfl

/-- The text of a count reads as the count. -/
theorem read?_toString {n : Nat} (h : n ≤ largest) : read? (toString n).toList = some n := by
  unfold read?
  split
  next digits htext =>
    have hplus : isDigit '+' = true :=
      isDigit_of_mem_toString (htext ▸ List.mem_cons_self)
    exact absurd hplus (by decide)
  next => exact unsigned?_toString h

/-- The codes of the digits are consecutive. -/
theorem isDigit_iff {c : Char} : isDigit c = true ↔ 48 ≤ c.toNat ∧ c.toNat ≤ 57 := by
  simp [isDigit, Char.le_def, UInt32.le_iff_toNat_le]

theorem isBlankChar_of_isDigit {c : Char} (h : isDigit c = true) : isBlankChar c = false := by
  have hle := isDigit_iff.1 h
  simp [isBlankChar, blankRanges]
  omega

theorem any_isBlankChar_toString (n : Nat) : (toString n).toList.any isBlankChar = false := by
  rw [List.any_eq_false]
  intro c hc
  rw [isBlankChar_of_isDigit (isDigit_of_mem_toString hc)]
  exact Bool.false_ne_true

end Count

/-! ## Fields -/

variable {word rest : List Char}

theorem fieldsFrom_append (hword : word.any isBlankChar = false) (run : List Char) :
    fieldsFrom run (word ++ rest) = fieldsFrom (word.reverse ++ run) rest := by
  induction word generalizing run with
  | nil => rfl
  | cons c word ih =>
      rw [List.any_cons, Bool.or_eq_false_iff] at hword
      obtain ⟨hc, hword⟩ := hword
      rw [List.cons_append, fieldsFrom, hc, if_neg Bool.false_ne_true, ih hword,
        List.reverse_cons, List.append_assoc, List.singleton_append]

theorem fieldOf_reverse (h : word ≠ []) : fieldOf word.reverse = [word] := by
  unfold fieldOf
  split
  next hnil => exact absurd (List.reverse_eq_nil_iff.1 hnil) h
  next => rw [List.reverse_reverse]

/-- A word ends at a blank. -/
theorem fields_append_blank (h : word ≠ []) (hword : word.any isBlankChar = false)
    {blank : Char} (hblank : isBlankChar blank = true) :
    fields (word ++ blank :: rest) = word :: fields rest := by
  rw [fields, fieldsFrom_append hword, List.append_nil, fieldsFrom, if_pos hblank,
    fieldOf_reverse h]
  rfl

theorem fields_word (h : word ≠ []) (hword : word.any isBlankChar = false) :
    fields word = [word] := by
  have hrun : fieldsFrom [] (word ++ []) = fieldsFrom (word.reverse ++ []) [] :=
    fieldsFrom_append hword []
  rw [List.append_nil, List.append_nil] at hrun
  rw [fields, hrun, fieldsFrom, fieldOf_reverse h]

variable {pad : List Char}

/-- Blanks before the first field are skipped. -/
theorem fields_padding (hpad : ∀ c ∈ pad, isBlankChar c = true) :
    fields (pad ++ rest) = fields rest := by
  induction pad with
  | nil => rfl
  | cons c pad ih =>
      obtain ⟨hc, hpad⟩ := List.forall_mem_cons.1 hpad
      rw [List.cons_append, fields, fieldsFrom, if_pos hc]
      exact ih hpad

/-- Several blanks after a word are like one. -/
theorem fields_append_padding (h : word ≠ []) (hword : word.any isBlankChar = false)
    (hpad : ∀ c ∈ pad, isBlankChar c = true) (hne : pad ≠ []) :
    fields (word ++ (pad ++ rest)) = word :: fields rest := by
  cases pad with
  | nil => exact absurd rfl hne
  | cons c pad =>
      obtain ⟨hc, hpad⟩ := List.forall_mem_cons.1 hpad
      rw [List.cons_append, fields_append_blank h hword hc, fields_padding hpad]

/-- Blanks after the last field are skipped. -/
theorem fields_word_padding (h : word ≠ []) (hword : word.any isBlankChar = false)
    (hpad : ∀ c ∈ pad, isBlankChar c = true) : fields (word ++ pad) = [word] := by
  by_cases hne : pad = []
  · rw [hne, List.append_nil, fields_word h hword]
  · have hfields : fields (word ++ (pad ++ [])) = word :: fields [] :=
      fields_append_padding h hword hpad hne
    rwa [List.append_nil] at hfields

/-- A text that does not end in a blank is not trimmed. -/
theorem trimEnd_eq_self (h : word.getLast?.any isBlankChar = false) : trimEnd word = word := by
  refine List.rdropWhile_eq_self_iff.2 fun hne => ?_
  rw [List.getLast?_eq_some_getLast hne, Option.any_some] at h
  rw [h]
  exact Bool.false_ne_true

/-- Nothing but characters of the text is left when it is trimmed. -/
theorem mem_of_mem_trimEnd {c : Char} (h : c ∈ trimEnd word) : c ∈ word :=
  (List.rdropWhile_prefix isBlankChar word).subset h

/-- A trimmed text does not end in a blank. -/
theorem getLast?_trimEnd (word : List Char) :
    (trimEnd word).getLast?.any isBlankChar = false := by
  by_cases hnil : trimEnd word = []
  · rw [hnil]
    rfl
  · rw [List.getLast?_eq_some_getLast hnil, Option.any_some]
    exact Bool.eq_false_iff.2 (List.rdropWhile_last_not isBlankChar word hnil)

end Presence
