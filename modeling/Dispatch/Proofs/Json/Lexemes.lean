import Dispatch.Json.Lexeme
import Dispatch.Proofs.Decimal.Digits
/-!
# What the smallest parts are read as

The grammar of gaps, quoted texts and numbers, and what their readers make of a text that starts
with one of them. A number is read as far as it goes, so that something has to follow which cannot
belong to it: the end of the text, a gap, or one of the marks that stand after a value.
-/

namespace Dispatch.Json

open Decimal

variable {text rest : List Char}

/-! ## Gaps -/

/-- Whether a text consists of gaps. -/
def Gaps (text : List Char) : Prop := ∀ c ∈ text, isGap c = true

theorem gaps_nil : Gaps [] := by simp [Gaps]

theorem dropGaps_append (h : Gaps text) (rest : List Char) :
    dropGaps (text ++ rest) = dropGaps rest := by
  induction text with
  | nil => rfl
  | cons c text ih =>
      obtain ⟨hc, htext⟩ := List.forall_mem_cons.1 h
      simpa [dropGaps, hc] using ih htext

theorem dropGaps_cons {c : Char} (h : isGap c = false) (rest : List Char) :
    dropGaps (c :: rest) = c :: rest := by
  simp [dropGaps, h]

/-- Gaps before a mark are dropped. -/
theorem dropGaps_append_cons {gaps : List Char} {c : Char} (hgaps : Gaps gaps) (h : isGap c = false)
    (rest : List Char) : dropGaps (gaps ++ c :: rest) = c :: rest := by
  rw [dropGaps_append hgaps, dropGaps_cons h]

theorem dropGaps_eq_nil (h : Gaps text) : dropGaps text = [] := by
  rw [← List.append_nil text, dropGaps_append h]
  rfl

/-! ## What can follow a value -/

/-- Whether a character can stand right after a value. -/
def isStop (c : Char) : Bool := isGap c || c = ',' || c = ']' || c = '\x7d'

/-- Whether a value that stands before a text is over there. -/
def Stops (rest : List Char) : Prop := ∀ c ∈ rest.head?, isStop c = true

@[simp] theorem stops_nil : Stops [] := by simp [Stops]

@[simp] theorem stops_cons {c : Char} : Stops (c :: rest) ↔ isStop c = true := by simp [Stops]

/-- Gaps stop a value, and so does a mark behind them. -/
theorem stops_append {gaps : List Char} (hgaps : Gaps gaps) (h : Stops rest) :
    Stops (gaps ++ rest) := by
  cases gaps with
  | nil => exact h
  | cons c gaps => simp [isStop, hgaps c List.mem_cons_self]

theorem isStop_cases {c : Char} (h : isStop c = true) :
    c = ' ' ∨ c = '\n' ∨ c = '\t' ∨ c = '\r' ∨ c = ',' ∨ c = ']' ∨ c = '\x7d' := by
  simpa [isStop, isGap, or_assoc] using h

theorem Stops.noDigit (h : Stops rest) : NoDigit rest := by
  intro c hc
  rcases isStop_cases (h c hc) with rfl | rfl | rfl | rfl | rfl | rfl | rfl <;> rfl

/-- What stops a value does not go on with a number. -/
theorem Stops.head_ne {c : Char} (h : Stops (c :: rest)) :
    c ≠ '-' ∧ c ≠ '+' ∧ c ≠ '.' ∧ c ≠ 'e' ∧ c ≠ 'E' := by
  rcases isStop_cases (stops_cons.1 h) with rfl | rfl | rfl | rfl | rfl | rfl | rfl <;> decide

/-! ## Quoted texts -/

/-- Whether the characters between two quotes stand for a text: each for itself, if it is neither a
quote, a backslash nor a control, or else in one of the three ways of writing it after a backslash.
-/
inductive Spells : List Char → List Char → Prop where
  | nil : Spells [] []
  | plain {t s : List Char} {c : Char} (hquote : c ≠ '"') (hslash : c ≠ '\\') (hcontrol : 32 ≤ c.toNat)
      (h : Spells t s) : Spells (c :: t) (c :: s)
  | short {t s : List Char} {e d : Char} (he : unescape? e = some d) (h : Spells t s) :
      Spells ('\\' :: e :: t) (d :: s)
  | unit {t s : List Char} {h₁ h₂ h₃ h₄ : Char} {unit : Nat}
      (hunit : hexUnit? h₁ h₂ h₃ h₄ = some unit) (hopens : opensPair unit = false)
      (hcloses : closesPair unit = false) (h : Spells t s) :
      Spells ('\\' :: 'u' :: h₁ :: h₂ :: h₃ :: h₄ :: t) (Char.ofNat unit :: s)
  | pair {t s : List Char} {h₁ h₂ h₃ h₄ l₁ l₂ l₃ l₄ : Char} {first second : Nat}
      (hfirst : hexUnit? h₁ h₂ h₃ h₄ = some first) (hopens : opensPair first = true)
      (hsecond : hexUnit? l₁ l₂ l₃ l₄ = some second) (hcloses : closesPair second = true)
      (h : Spells t s) :
      Spells ('\\' :: 'u' :: h₁ :: h₂ :: h₃ :: h₄ :: '\\' :: 'u' :: l₁ :: l₂ :: l₃ :: l₄ :: t)
        (pairChar first second :: s)

/-- A quoted text is read as what it stands for. -/
theorem Spells.readQuoted_eq {t s : List Char} (h : Spells t s) (rest : List Char) :
    readQuoted none (t ++ '"' :: rest) = some (s, rest) := by
  induction h with
  | nil =>
      rw [List.nil_append, readQuoted.eq_def]
      simp
  | plain hquote hslash hcontrol _ ih =>
      rw [List.cons_append, readQuoted.eq_def]
      simp [hquote, hslash, Nat.not_lt.2 hcontrol, ih, consChar]
  | @short t s e d he _ ih =>
      have hne : e ≠ 'u' := fun heq => by simp [heq, unescape?] at he
      rw [List.cons_append, readQuoted.eq_def]
      simp [hne, he, ih, consChar]
  | unit hunit hopens hcloses _ ih =>
      rw [List.cons_append, readQuoted.eq_def]
      simp [hunit, hopens, hcloses, ih, consChar]
  | @pair t s h₁ h₂ h₃ h₄ l₁ l₂ l₃ l₄ first second hfirst hopens hsecond hcloses _ ih =>
      have hlast : readQuoted (some first) ('\\' :: 'u' :: l₁ :: l₂ :: l₃ :: l₄ :: (t ++ '"' :: rest)) =
          some (pairChar first second :: s, rest) := by
        rw [readQuoted.eq_def]
        simp [hsecond, hcloses, ih, consChar]
      rw [List.cons_append, readQuoted.eq_def]
      simpa [hfirst, hopens] using hlast

/-- A text in which nothing has to be escaped spells itself. -/
theorem spells_self {s : List Char} (h : ∀ c ∈ s, c ≠ '"' ∧ c ≠ '\\' ∧ 32 ≤ c.toNat) : Spells s s := by
  induction s with
  | nil => exact .nil
  | cons c s ih =>
      obtain ⟨⟨hquote, hslash, hcontrol⟩, hrest⟩ := List.forall_mem_cons.1 h
      exact .plain hquote hslash hcontrol (ih hrest)

/-- Whether characters can stand between two quotes. Pairs of units are not looked at. -/
inductive Quotable : List Char → Prop where
  | nil : Quotable []
  | plain {t : List Char} {c : Char} (hquote : c ≠ '"') (hslash : c ≠ '\\') (hcontrol : 32 ≤ c.toNat)
      (h : Quotable t) : Quotable (c :: t)
  | short {t : List Char} {e : Char} (he : (unescape? e).isSome) (h : Quotable t) :
      Quotable ('\\' :: e :: t)
  | unit {t : List Char} {h₁ h₂ h₃ h₄ : Char} (hunit : (hexUnit? h₁ h₂ h₃ h₄).isSome)
      (h : Quotable t) : Quotable ('\\' :: 'u' :: h₁ :: h₂ :: h₃ :: h₄ :: t)

/-- What spells a text can stand between two quotes. -/
theorem Spells.quotable {t s : List Char} (h : Spells t s) : Quotable t := by
  induction h with
  | nil => exact .nil
  | plain hquote hslash hcontrol _ ih => exact .plain hquote hslash hcontrol ih
  | short he _ ih => exact .short (by simp [he]) ih
  | unit hunit _ _ _ ih => exact .unit (by simp [hunit]) ih
  | pair hfirst _ hsecond _ _ ih => exact .unit (by simp [hfirst]) (.unit (by simp [hsecond]) ih)

theorem skipQuoted_plain {c : Char} (hquote : c ≠ '"') (hslash : c ≠ '\\') (hcontrol : 32 ≤ c.toNat) :
    skipQuoted (c :: text) = skipQuoted text := by
  rw [skipQuoted.eq_def]
  simp [hquote, hslash, Nat.not_lt.2 hcontrol]

theorem skipQuoted_short {e : Char} (he : (unescape? e).isSome) :
    skipQuoted ('\\' :: e :: text) = skipQuoted text := by
  have hne : e ≠ 'u' := fun heq => by simp [heq, unescape?] at he
  rw [skipQuoted.eq_def]
  simp [hne, he]

theorem skipQuoted_unit {h₁ h₂ h₃ h₄ : Char} (hunit : (hexUnit? h₁ h₂ h₃ h₄).isSome) :
    skipQuoted ('\\' :: 'u' :: h₁ :: h₂ :: h₃ :: h₄ :: text) = skipQuoted text := by
  rw [skipQuoted.eq_def]
  simp [hunit]

theorem skipQuoted_end : skipQuoted ('"' :: rest) = some rest := by
  rw [skipQuoted.eq_def]
  simp

theorem Quotable.skipQuoted_eq {t : List Char} (h : Quotable t) (rest : List Char) :
    skipQuoted (t ++ '"' :: rest) = some rest := by
  induction h with
  | nil => exact skipQuoted_end
  | plain hquote hslash hcontrol _ ih =>
      rw [List.cons_append, skipQuoted_plain hquote hslash hcontrol, ih]
  | short he _ ih => rw [List.cons_append, List.cons_append, skipQuoted_short he, ih]
  | unit hunit _ ih => simpa only [List.cons_append, skipQuoted_unit hunit] using ih

/-- What is read as a quoted text can be skipped as one. -/
theorem skipQuoted_of_readQuoted {opened : Option Nat} {s : List Char}
    (h : readQuoted opened text = some (s, rest)) : skipQuoted text = some rest := by
  have hcons : ∀ {c read s}, consChar c read = some (s, rest) → ∃ t, read = some (t, rest) := by
    intro c read s h
    obtain ⟨⟨t, more⟩, hread, heq⟩ := Option.map_eq_some_iff.1 h
    obtain ⟨-, rfl⟩ := Prod.mk.inj heq
    exact ⟨t, hread⟩
  fun_induction readQuoted opened text generalizing s with
  | case4 h₁ h₂ h₃ h₄ text first unit hunit _ ih | case8 h₁ h₂ h₃ h₄ text unit hunit _ _ ih =>
      obtain ⟨t, hread⟩ := hcons h
      rw [skipQuoted_unit (by simp [hunit]), ih hread]
  | case6 h₁ h₂ h₃ h₄ text unit hunit _ ih => rw [skipQuoted_unit (by simp [hunit]), ih h]
  | case10 e text _ d he ih =>
      obtain ⟨t, hread⟩ := hcons h
      rw [skipQuoted_short (by simp [he]), ih hread]
  | case13 =>
      simp only [Option.some.injEq, Prod.mk.injEq] at h
      rw [skipQuoted_end, h.2]
  | case15 c text hslash hquote hcontrol ih =>
      obtain ⟨t, hread⟩ := hcons h
      rw [skipQuoted_plain hquote hslash (Nat.not_lt.1 hcontrol), ih hread]
  -- in all other cases nothing is read
  | _ => contradiction

/-! ## Numbers -/

/-- Whether digits make up the whole part of a number: no zero stands before another digit. -/
structure IsWhole (digits : List Char) : Prop where
  ne_nil : digits ≠ []
  isDigit : ∀ c ∈ digits, c.isDigit = true
  no_leading_zero : ∀ c rest, digits ≠ '0' :: c :: rest

namespace Number

/-- What comes of a whole part does not depend on the text behind it. -/
theorem readWhole?_append (text : List Char) (h : NoDigit rest) :
    readWhole? (text ++ rest) = (readWhole? text).map fun (digits, more) => (digits, more ++ rest) := by
  obtain ⟨htake, hdrop⟩ := span_append text h
  unfold readWhole?
  rw [htake, hdrop]
  split <;> rfl

theorem readWhole?_of_isWhole {digits : List Char} (hwhole : IsWhole digits) (h : NoDigit rest) :
    readWhole? (digits ++ rest) = some (digits, rest) := by
  obtain ⟨htake, hdrop⟩ := span_digits hwhole.isDigit h
  unfold readWhole?
  rw [htake, hdrop]
  split
  · exact absurd rfl hwhole.ne_nil
  · exact absurd rfl (hwhole.no_leading_zero _ _)
  · rfl

theorem exponentDigits?_append (negative : Bool) (text : List Char) (h : NoDigit rest) :
    exponentDigits? negative (text ++ rest) =
      (exponentDigits? negative text).map fun (negative, e, more) => (negative, e, more ++ rest) := by
  obtain ⟨htake, hdrop⟩ := span_append text h
  unfold exponentDigits?
  rw [htake, hdrop]
  split <;> rfl

theorem readExponent?_append (text : List Char) (h : Stops rest) :
    readExponent? (text ++ rest) =
      (readExponent? text).map fun (negative, e, more) => (negative, e, more ++ rest) := by
  have hunsigned := exponentDigits?_append false text h.noDigit
  unfold readExponent?
  cases text with
  | nil =>
      cases rest with
      | nil => rfl
      | cons c rest =>
          obtain ⟨hminus, hplus, -⟩ := h.head_ne
          simpa [hminus, hplus] using hunsigned
  | cons c text =>
      by_cases hminus : c = '-'
      · subst hminus
        exact exponentDigits?_append true text h.noDigit
      · by_cases hplus : c = '+'
        · subst hplus
          exact exponentDigits?_append false text h.noDigit
        · simpa [hminus, hplus] using hunsigned

theorem readScaled?_append (n : Nat) (places : Int) (text : List Char) (h : Stops rest) :
    readScaled? n places (text ++ rest) =
      (readScaled? n places text).map fun (x, more) => (x, more ++ rest) := by
  unfold readScaled?
  cases text with
  | nil =>
      cases rest with
      | nil => simp [Function.comp_def]
      | cons c rest =>
          obtain ⟨-, -, -, he, hE⟩ := h.head_ne
          simp [he, hE, Function.comp_def]
  | cons c text =>
      by_cases hmark : c = 'e' ∨ c = 'E'
      · have happend := readExponent?_append text h
        rcases hmark with rfl | rfl <;>
        · simp only [List.cons_append, happend]
          cases readExponent? text with
          | none => rfl
          | some read =>
              simp only [Option.map_some]
              split
              · split <;> rfl
              · rw [Option.map_map]
                rfl
      · obtain ⟨he, hE⟩ := not_or.1 hmark
        simp [he, hE, Function.comp_def]

theorem readBehind?_append (negative : Bool) (digits text : List Char) (h : Stops rest) :
    readBehind? negative digits (text ++ rest) =
      (readBehind? negative digits text).map fun (x, more) => (x, more ++ rest) := by
  unfold readBehind?
  cases text with
  | nil =>
      cases rest with
      | nil => simp [Function.comp_def]
      | cons c rest =>
          obtain ⟨-, -, hpoint, he, hE⟩ := h.head_ne
          simp [hpoint, he, hE, Function.comp_def]
  | cons c text =>
      by_cases hpoint : c = '.'
      · subst hpoint
        obtain ⟨htake, hdrop⟩ := span_append text h.noDigit
        simp only [List.cons_append, htake, hdrop]
        split
        · rfl
        · rw [readScaled?_append _ _ _ h, Option.map_map, Option.map_map]
          rfl
      · by_cases hmark : c = 'e' ∨ c = 'E'
        · have happend := fun n places => readScaled?_append n places (c :: text) h
          rcases hmark with rfl | rfl <;>
          · simp only [happend, Option.map_map]
            rfl
        · obtain ⟨he, hE⟩ := not_or.1 hmark
          simp [hpoint, he, hE, Function.comp_def]

theorem readUnsigned?_append (negative : Bool) (text : List Char) (h : Stops rest) :
    readUnsigned? negative (text ++ rest) =
      (readUnsigned? negative text).map fun (x, more) => (x, more ++ rest) := by
  unfold readUnsigned?
  rw [readWhole?_append text h.noDigit]
  cases readWhole? text with
  | none => rfl
  | some read => exact readBehind?_append negative read.1 read.2 h

/-- A number is read as it is where nothing follows, whatever follows that cannot belong to it. -/
theorem read?_append (text : List Char) (h : Stops rest) :
    read? (text ++ rest) = (read? text).map fun (x, more) => (x, more ++ rest) := by
  have hunsigned := readUnsigned?_append false text h
  unfold read?
  cases text with
  | nil =>
      cases rest with
      | nil => rfl
      | cons c rest =>
          have hminus := h.head_ne.1
          simpa [hminus] using hunsigned
  | cons c text =>
      by_cases hminus : c = '-'
      · subst hminus
        exact readUnsigned?_append true text h
      · simpa [hminus] using hunsigned

/-! ## The grammar of numbers -/

/-- Whether a text is nothing or a point with digits behind it. -/
def IsFraction (text : List Char) : Prop :=
  text = [] ∨ ∃ digits, digits ≠ [] ∧ (∀ c ∈ digits, c.isDigit = true) ∧ text = '.' :: digits

/-- Whether a text is nothing or an exponent of ten. -/
def IsExponent (text : List Char) : Prop :=
  text = [] ∨ ∃ mark ∈ ['e', 'E'], ∃ sign ∈ [[], ['-'], ['+']], ∃ digits, digits ≠ [] ∧
    (∀ c ∈ digits, c.isDigit = true) ∧ text = mark :: (sign ++ digits)

/-- Whether a text is a number by the grammar, in range or not. -/
def IsNumber (text : List Char) : Prop :=
  ∃ sign ∈ [[], ['-']], ∃ whole fraction exponent, IsWhole whole ∧ IsFraction fraction ∧
    IsExponent exponent ∧ text = sign ++ whole ++ fraction ++ exponent

theorem exponentDigits?_digits (negative : Bool) {digits : List Char} (hnil : digits ≠ [])
    (hdigits : ∀ c ∈ digits, c.isDigit = true) (h : NoDigit rest) :
    exponentDigits? negative (digits ++ rest) =
      some (negative, Decimal.digitsValue digits, rest) := by
  obtain ⟨htake, hdrop⟩ := span_digits hdigits h
  unfold exponentDigits?
  rw [htake, hdrop]
  split
  · contradiction
  · rfl

theorem skipExponent?_eq {exponent : List Char} (h : IsExponent exponent) (hrest : Stops rest) :
    skipExponent? (exponent ++ rest) = some rest := by
  rcases h with rfl | ⟨mark, hmark, sign, hsign, digits, hnil, hdigits, rfl⟩
  · cases rest with
    | nil => rfl
    | cons c rest =>
        obtain ⟨-, -, -, he, hE⟩ := hrest.head_ne
        simp [skipExponent?, he, hE]
  · have hread : ∃ negative, readExponent? (sign ++ digits ++ rest) =
        some (negative, Decimal.digitsValue digits, rest) := by
      have hvalue := fun negative => exponentDigits?_digits negative hnil hdigits hrest.noDigit
      simp only [List.mem_cons, List.not_mem_nil, or_false] at hsign
      rcases hsign with rfl | rfl | rfl
      · refine ⟨false, ?_⟩
        obtain ⟨d, digits, rfl⟩ := List.exists_cons_of_ne_nil hnil
        have hd := hdigits d List.mem_cons_self
        have hminus : d ≠ '-' := fun heq => by simp [heq] at hd
        have hplus : d ≠ '+' := fun heq => by simp [heq] at hd
        simpa [readExponent?, hminus, hplus] using hvalue false
      · exact ⟨true, hvalue true⟩
      · exact ⟨false, hvalue false⟩
    obtain ⟨negative, hread⟩ := hread
    simp only [List.mem_cons, List.not_mem_nil, or_false] at hmark
    rcases hmark with rfl | rfl <;>
    · simp only [List.cons_append, skipExponent?, hread]
      rfl

theorem skipFraction?_eq {fraction : List Char} (h : IsFraction fraction) (hdigit : NoDigit rest)
    (hpoint : ∀ c ∈ rest.head?, c ≠ '.') : skipFraction? (fraction ++ rest) = some rest := by
  rcases h with rfl | ⟨digits, hnil, hdigits, rfl⟩
  · cases rest with
    | nil => rfl
    | cons c rest => simp [skipFraction?, hpoint c rfl]
  · obtain ⟨htake, hdrop⟩ := span_digits hdigits hdigit
    simp [skipFraction?, htake, hdrop, hnil]

/-- What an exponent starts with cannot belong to the digits before it. -/
theorem head?_exponent {exponent : List Char} (h : IsExponent exponent) (hrest : Stops rest) :
    ∀ c ∈ (exponent ++ rest).head?, c.isDigit = false ∧ c ≠ '.' := by
  intro c hc
  rcases h with rfl | ⟨mark, hmark, sign, -, digits, -, -, rfl⟩
  · obtain ⟨tail, rfl⟩ := List.head?_eq_some_iff.1 hc
    exact ⟨hrest.noDigit c rfl, hrest.head_ne.2.2.1⟩
  · obtain rfl := Option.some.inj hc
    simp only [List.mem_cons, List.not_mem_nil, or_false] at hmark
    rcases hmark with rfl | rfl <;> decide

theorem noDigit_fraction {fraction : List Char} (h : IsFraction fraction) (hrest : NoDigit rest) :
    NoDigit (fraction ++ rest) := by
  rcases h with rfl | ⟨digits, -, -, rfl⟩
  · exact hrest
  · intro c hc
    obtain rfl := Option.some.inj hc
    rfl

/-- A number is skipped by its grammar alone. -/
theorem skip?_eq {number : List Char} (h : IsNumber number) (hrest : Stops rest) :
    skip? (number ++ rest) = some rest := by
  obtain ⟨sign, hsign, whole, fraction, exponent, hwhole, hfraction, hexponent, rfl⟩ := h
  have hhead := head?_exponent hexponent hrest
  have hdigit : NoDigit (exponent ++ rest) := fun c hc => (hhead c hc).1
  have hbody : readWhole? (whole ++ (fraction ++ (exponent ++ rest))) =
      some (whole, fraction ++ (exponent ++ rest)) :=
    readWhole?_of_isWhole hwhole (noDigit_fraction hfraction hdigit)
  have hfractions := skipFraction?_eq hfraction hdigit fun c hc => (hhead c hc).2
  have hskips : (skipFraction? (fraction ++ (exponent ++ rest))).bind skipExponent? = some rest := by
    rw [hfractions, Option.bind_some, skipExponent?_eq hexponent hrest]
  unfold skip?
  simp only [List.mem_cons, List.not_mem_nil, or_false] at hsign
  rcases hsign with rfl | rfl
  · obtain ⟨d, digits, rfl⟩ := List.exists_cons_of_ne_nil hwhole.ne_nil
    have hd := hwhole.isDigit d List.mem_cons_self
    have hminus : d ≠ '-' := fun heq => by simp [heq] at hd
    simp only [List.append_assoc, List.nil_append, List.cons_append] at hbody ⊢
    simp [hminus, hbody, hskips]
  · simp only [List.append_assoc, List.cons_append, List.nil_append, hbody]
    exact hskips

/-- Whether a number can start with a character. -/
def StartsNumber (c : Char) : Prop := c = '-' ∨ c.isDigit = true

/-- What starts a number starts nothing else. -/
theorem StartsNumber.ne {c : Char} (h : StartsNumber c) : isGap c = false ∧ c ≠ '"' ∧ c ≠ '[' ∧
    c ≠ ']' ∧ c ≠ '\x7b' ∧ c ≠ 'n' ∧ c ≠ 't' ∧ c ≠ 'f' := by
  have hne : ∀ d : Char, d ≠ '-' → d.isDigit = false → c ≠ d := by
    rintro d hminus hdigit rfl
    rcases h with rfl | h
    · exact hminus rfl
    · simp [h] at hdigit
  refine ⟨?_, hne _ (by decide) rfl, hne _ (by decide) rfl, hne _ (by decide) rfl,
    hne _ (by decide) rfl, hne _ (by decide) rfl, hne _ (by decide) rfl, hne _ (by decide) rfl⟩
  simp [isGap, hne ' ' (by decide) rfl, hne '\n' (by decide) rfl, hne '\t' (by decide) rfl,
    hne '\r' (by decide) rfl]

/-- A number starts with a digit or with its sign. -/
theorem head?_isNumber {number : List Char} (h : IsNumber number) :
    ∃ c tail, number = c :: tail ∧ StartsNumber c := by
  obtain ⟨sign, hsign, whole, fraction, exponent, hwhole, -, -, rfl⟩ := h
  obtain ⟨d, digits, rfl⟩ := List.exists_cons_of_ne_nil hwhole.ne_nil
  simp only [List.mem_cons, List.not_mem_nil, or_false] at hsign
  rcases hsign with rfl | rfl
  · exact ⟨d, _, rfl, .inr (hwhole.isDigit d List.mem_cons_self)⟩
  · exact ⟨'-', _, rfl, .inl rfl⟩

/-! ## Integers -/

theorem takeDigits_eq {n : Nat} {digits : List Char} (h : valueFrom n digits < significandBound) :
    takeDigits n digits = (valueFrom n digits, []) := by
  induction digits generalizing n with
  | nil => rfl
  | cons c digits ih =>
      have hfits : 10 * n + (c.toNat - '0'.toNat) < significandBound :=
        Nat.lt_of_le_of_lt (le_valueFrom _ digits) h
      rw [takeDigits, if_pos hfits]
      exact ih h

/-- A run of digits that 64 bits can hold is read as its value. -/
theorem read?_isWhole {digits : List Char} (hwhole : IsWhole digits)
    (hvalue : Decimal.digitsValue digits < significandBound) :
    read? digits = some (.integer (Decimal.digitsValue digits), []) := by
  have hdigits : takeDigits 0 digits = (Decimal.digitsValue digits, []) := takeDigits_eq hvalue
  have hread : readWhole? digits = some (digits, []) := by
    have hnothing : NoDigit [] := by simp [NoDigit]
    simpa using readWhole?_of_isWhole hwhole hnothing
  obtain ⟨d, tail, rfl⟩ := List.exists_cons_of_ne_nil hwhole.ne_nil
  have hd := hwhole.isDigit d List.mem_cons_self
  have hminus : d ≠ '-' := fun heq => by simp [heq] at hd
  simp [read?, hminus, readUnsigned?, hread, readBehind?, hdigits, whole?]

end Number

end Dispatch.Json
