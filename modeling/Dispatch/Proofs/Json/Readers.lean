import Dispatch.Json.Reader
import Dispatch.Proofs.Json.Lexemes
/-!
# What readers make of values

For each kind of value that settings have: which texts stand for it, and that its reader gives it
wherever such a text stands, with gaps before it and something behind it that stops it.
-/

namespace Dispatch.Json

variable {α β : Type} {v rest : List Char}

namespace Reader

/-- Whether a reader gives a value wherever a text stands, and leaves what is behind the text. -/
def Gives (read : Reader α) (v : List Char) (a : α) : Prop :=
  ∀ g rest, Gaps g → Stops rest → read (g ++ v ++ rest) = .ok (a, rest)

theorem Gives.unique {read : Reader α} {a b : α} (ha : read.Gives v a) (hb : read.Gives v b) :
    a = b := by
  have hboth := (ha [] [] gaps_nil stops_nil).symm.trans (hb [] [] gaps_nil stops_nil)
  simpa using hboth

theorem Gives.map {read : Reader α} {a : α} (h : read.Gives v a) (f : α → β) :
    (read.map f).Gives v (f a) := by
  intro g rest hg hrest
  rw [Reader.map, h g rest hg hrest]

end Reader

/-! ## Numbers -/

/-- Whether a text is a number below a bound: an integer without a sign. -/
structure IsNatural (bound : Nat) (v : List Char) (n : Nat) : Prop where
  isWhole : IsWhole v
  value_eq : Decimal.digitsValue v = n
  lt_bound : n < bound

/-- The floating point number that stands for a number of a text. -/
def Number.toFloat : Number → Float
  | integer n =>
    let x := n.natAbs.toUInt64.toFloat
    if n < 0 then -x else x
  | floating x => x

/-- Whether a text is a number that can be read as a floating point number. -/
def IsFloat (v : List Char) (x : Float) : Prop :=
  ∃ number, Number.read? v = some (number, []) ∧ number.toFloat = x

/-- What can be read as a number starts with a digit or with a sign. -/
theorem Number.head?_read? {number : Number} (h : Number.read? v = some (number, rest)) :
    ∃ c tail, v = c :: tail ∧ StartsNumber c := by
  cases v with
  | nil => contradiction
  | cons c tail =>
      refine ⟨c, tail, rfl, ?_⟩
      by_cases hminus : c = '-'
      · exact .inl hminus
      · right
        cases hc : c.isDigit with
        | true => rfl
        | false =>
            -- a number has a digit before its point
            simp [read?, hminus, readUnsigned?, readWhole?, hc] at h

theorem isNatural_zero {bound : Nat} (h : 0 < bound) : IsNatural bound ['0'] 0 where
  isWhole := ⟨by simp, by simp, by simp⟩
  value_eq := rfl
  lt_bound := h

namespace Reader

theorem startsNumber_of {c : Char} (h : Number.StartsNumber c) (text : List Char) :
    startsNumber (c :: text) = true := by
  simpa [startsNumber, Number.StartsNumber] using h

theorem gives_natural {bound n : Nat} (h : IsNatural bound v n)
    (hbound : bound ≤ Number.significandBound) (word : String) : (natural word bound).Gives v n := by
  intro g rest hg hrest
  obtain ⟨hwhole, rfl, hlt⟩ := h
  have hread := Number.read?_isWhole hwhole (Nat.lt_of_lt_of_le hlt hbound)
  have happend := Number.read?_append v hrest
  obtain ⟨c, tail, rfl, hc⟩ := Number.head?_read? hread
  rw [hread] at happend
  unfold natural
  rw [List.append_assoc, dropGaps_append hg, List.cons_append, dropGaps_cons hc.ne.1]
  rw [List.cons_append] at happend
  simp only [startsNumber_of hc, happend, if_true, Option.map_some, List.nil_append]
  rw [if_pos ⟨Int.natCast_nonneg _, by exact_mod_cast hlt⟩, Int.toNat_natCast]

theorem gives_float {x : Float} (h : IsFloat v x) : float.Gives v x := by
  intro g rest hg hrest
  obtain ⟨number, hread, rfl⟩ := h
  have happend := Number.read?_append v hrest
  obtain ⟨c, tail, rfl, hc⟩ := Number.head?_read? hread
  rw [hread] at happend
  unfold float
  rw [List.append_assoc, dropGaps_append hg, List.cons_append, dropGaps_cons hc.ne.1]
  rw [List.cons_append] at happend
  simp only [startsNumber_of hc, happend, if_true, Option.map_some, List.nil_append]
  cases number <;> rfl

end Reader

/-! ## Truth values and names -/

/-- Whether a text is a truth value. -/
def IsBoolean (v : List Char) : Bool → Prop
  | true => v = ['t', 'r', 'u', 'e']
  | false => v = ['f', 'a', 'l', 's', 'e']

/-- Whether a text is a name out of a choice: the quoted name, or a map from it to nothing. -/
inductive IsName (name : String) : List Char → Prop where
  | quoted {k : List Char} (hk : Spells k name.toList) : IsName name ('"' :: (k ++ ['"']))
  | map {g₁ k g₂ g₃ g₄ : List Char} (h₁ : Gaps g₁) (h₂ : Gaps g₂) (h₃ : Gaps g₃) (h₄ : Gaps g₄)
      (hk : Spells k name.toList) :
      IsName name ('\x7b' :: (g₁ ++ '"' :: (k ++ '"' :: (g₂ ++ ':' :: (g₃ ++
        'n' :: 'u' :: 'l' :: 'l' :: (g₄ ++ ['\x7d']))))))

namespace Reader

theorem gives_boolean {b : Bool} (h : IsBoolean v b) : boolean.Gives v b := by
  intro g rest hg hrest
  unfold boolean
  rw [List.append_assoc, dropGaps_append hg]
  cases b <;>
  · obtain rfl := h
    rw [List.cons_append, dropGaps_cons (by decide)]
    rfl

theorem colon_append {g : List Char} (hg : Gaps g) (rest : List Char) :
    colon (g ++ ':' :: rest) = .ok rest := by
  rw [colon, dropGaps_append_cons hg (by decide)]
  rfl

theorem gives_variant {known : List (String × α)} {name : String} {a : α}
    (hname : known.lookup name = some a) (h : IsName name v) : (variant known).Gives v a := by
  intro g rest hg hrest
  have hnamed : named known (String.ofList name.toList) = .ok a := by
    rw [String.ofList_toList, named, hname]
  unfold variant
  rw [List.append_assoc, dropGaps_append hg]
  cases h with
  | quoted hk =>
      rw [List.cons_append, List.append_assoc, dropGaps_cons (by decide)]
      simp only [List.singleton_append, hk.readQuoted_eq, wellFormed, bind, Except.bind, hnamed]
      rfl
  | @map g₁ k g₂ g₃ g₄ h₁ h₂ h₃ h₄ hk =>
      have hquoted : ∀ more, quoted "variant identifier" (g₁ ++ '"' :: (k ++ '"' :: more)) =
          .ok (String.ofList name.toList, more) := fun more => by
        rw [quoted, dropGaps_append_cons h₁ (by decide)]
        simp only [hk.readQuoted_eq]
        rfl
      have hunit : ∀ more, unit (g₃ ++ 'n' :: 'u' :: 'l' :: 'l' :: more) = .ok ((), more) :=
        fun more => by
          rw [unit, dropGaps_append_cons h₃ (by decide)]
          rfl
      simp only [List.cons_append, List.append_assoc, List.nil_append]
      rw [dropGaps_cons (by decide)]
      simp only [hquoted, bind, Except.bind, hnamed, colon_append h₂, hunit,
        dropGaps_append_cons h₄ (by decide : isGap '\x7d' = false)]
      rfl

end Reader

end Dispatch.Json
