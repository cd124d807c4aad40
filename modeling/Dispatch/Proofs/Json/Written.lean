import Dispatch.Json.Value
import Dispatch.Proofs.Json.Records
/-!
# What is written can be read

The text of a value follows the grammar of what readers take: digits have no zero in front, a quoted
text spells the text that it was made of, whatever characters that has, and a map lists its members.
So each value is read again where it was written, and a record is read again if its fields are: they
are written in order, each of them once, and so none is missing.
-/

namespace Dispatch.Json

variable {α σ : Type}

/-! ## Digits -/

theorem digitsValue_toDigits (n : Nat) : Decimal.digitsValue (Nat.toDigits 10 n) = n := by
  rw [Decimal.digitsValue, ← Nat.ofDigitChars_eq_foldl, Nat.ofDigitChars_ten_toDigits]

theorem head?_toDigits {n : Nat} (hn : 0 < n) : (Nat.toDigits 10 n).head? ≠ some '0' := by
  induction n using Nat.strongRecOn with
  | ind n ih =>
      by_cases hlt : n < 10
      · rw [Nat.toDigits_of_lt_base hlt]
        simpa [Nat.digitChar_eq_zero] using Nat.ne_of_gt hn
      · -- the digits of a tenth of the number come first
        have htenth := ih (n / 10) (by omega) (by omega)
        rw [Nat.toDigits_of_base_le (by decide) (by omega), List.head?_append]
        cases hdigits : (Nat.toDigits 10 (n / 10)).head? with
        | none => exact absurd (List.head?_eq_none_iff.1 hdigits) Nat.toDigits_ne_nil
        | some c => simpa [hdigits] using htenth

theorem isWhole_toDigits (n : Nat) : IsWhole (Nat.toDigits 10 n) where
  ne_nil := Nat.toDigits_ne_nil
  isDigit _ hc := Nat.isDigit_of_mem_toDigits (by decide) (by decide) hc
  no_leading_zero c rest heq := by
    rcases Nat.eq_zero_or_pos n with rfl | hn
    · simp at heq
    · exact head?_toDigits hn (by rw [heq]; rfl)

theorem isNatural_toDigits {bound n : Nat} (h : n < bound) : IsNatural bound (Nat.toDigits 10 n) n :=
  ⟨isWhole_toDigits n, digitsValue_toDigits n, h⟩

/-! ## Quoted texts -/

/-- The two digits of a control. -/
theorem hexUnit?_control :
    ∀ n < 32, hexUnit? '0' '0' (if n < 16 then '0' else '1') (Nat.digitChar (n % 16)) = some n := by
  decide

/-- A character is spelled as it is written, whichever it is. -/
theorem spells_escape (c : Char) {t s : List Char} (h : Spells t s) :
    Spells (escape c ++ t) (c :: s) := by
  unfold escape
  split
  case h_8 hquote hslash _ _ _ _ _ =>
    split
    · rename_i hcontrol
      have hunit := hexUnit?_control c.toNat hcontrol
      have hopens : opensPair c.toNat = false := by
        simp only [opensPair, Bool.and_eq_false_iff, decide_eq_false_iff_not]
        omega
      have hcloses : closesPair c.toNat = false := by
        simp only [closesPair, Bool.and_eq_false_iff, decide_eq_false_iff_not]
        omega
      simpa using Spells.unit hunit hopens hcloses h
    · exact .plain hquote hslash (by omega) h
  all_goals exact .short rfl h

theorem spells_flatMap_escape (s : List Char) : Spells (s.flatMap escape) s := by
  induction s with
  | nil => exact .nil
  | cons c s ih =>
      rw [List.flatMap_cons]
      exact spells_escape c ih

theorem quote_append (s : String) (rest : List Char) :
    quote s ++ rest = '"' :: (s.toList.flatMap escape ++ '"' :: rest) := by
  simp [quote]

theorem isName_chars (name : String) : IsName name (Value.str name).chars := by
  rw [Value.chars, ← List.append_nil (quote name), quote_append]
  exact .quoted (spells_flatMap_escape name.toList)

/-! ## Maps -/

/-- The members of a map with their texts. -/
def written (members : List (String × Value)) : List Member := members.map fun m => (m.1, m.2.chars)

theorem isMembers_memberChars (m : String × Value) (members : List (String × Value)) :
    ∃ t, Value.memberChars (m :: members) = t ++ ['\x7d'] ∧ IsMembers (written (m :: members)) t := by
  induction members generalizing m with
  | nil =>
      have hlast : IsMembers [(m.1, m.2.chars)] _ :=
        .last gaps_nil gaps_nil gaps_nil gaps_nil (spells_flatMap_escape m.1.toList)
      refine ⟨_, ?_, hlast⟩
      simp [Value.memberChars, quote]
  | cons next members ih =>
      obtain ⟨t, htext, hmembers⟩ := ih next
      have hcons : IsMembers ((m.1, m.2.chars) :: written (next :: members)) _ :=
        .cons gaps_nil gaps_nil gaps_nil gaps_nil (spells_flatMap_escape m.1.toList) hmembers
      refine ⟨_, ?_, hcons⟩
      simp [Value.memberChars, quote, htext]

/-- The text of a map is a map with its members. -/
theorem isObject_chars (members : List (String × Value)) :
    IsObject (written members) (Value.obj members).chars := by
  cases members with
  | nil => exact .empty gaps_nil
  | cons m members =>
      obtain ⟨t, htext, hmembers⟩ := isMembers_memberChars m members
      rw [Value.chars, htext]
      exact .members hmembers

/-! ## Single values -/

namespace Reader

theorem gives_int {bound n : Nat} (h : n < bound) (hbound : bound ≤ Number.significandBound)
    (word : String) : (natural word bound).Gives (Value.int n).chars n :=
  gives_natural (isNatural_toDigits h) hbound word

theorem gives_nat128 {n : Nat} (h : n < 1 <<< 128) : nat128.Gives (Value.int n).chars n := by
  intro g rest hg hrest
  have hdigits : ∃ c tail, Nat.toDigits 10 n = c :: tail ∧ c.isDigit = true := by
    obtain ⟨c, tail, heq⟩ := List.exists_cons_of_ne_nil (Nat.toDigits_ne_nil (n := n) (b := 10))
    exact ⟨c, tail, heq, (isWhole_toDigits n).isDigit c (by simp [heq])⟩
  obtain ⟨c, tail, heq, hc⟩ := hdigits
  have hgap : isGap c = false := (Number.StartsNumber.ne (.inr hc)).1
  have hwhole := Number.readWhole?_of_isWhole (isWhole_toDigits n) hrest.noDigit
  change nat128 (g ++ Nat.toDigits 10 n ++ rest) = _
  unfold nat128
  rw [List.append_assoc, dropGaps_append hg, heq, List.cons_append, dropGaps_cons hgap,
    ← List.cons_append, ← heq, hwhole]
  simp only [digitsValue_toDigits, if_pos h]

theorem gives_bool (b : Bool) : boolean.Gives (Value.bool b).chars b :=
  gives_boolean (by cases b <;> rfl)

theorem gives_str (s : String) : string.Gives (Value.str s).chars s := by
  intro g rest hg _
  change quoted "a string" (g ++ quote s ++ rest) = _
  unfold quoted
  rw [List.append_assoc, quote_append, dropGaps_append_cons hg (by decide)]
  simp only [(spells_flatMap_escape s.toList).readQuoted_eq, wellFormed, Except.map,
    String.ofList_toList]

/-- One of the known names is read as what it is the name of. -/
theorem gives_name {known : List (String × α)} {name : String} {a : α}
    (hname : known.lookup name = some a) : (variant known).Gives (Value.str name).chars a :=
  gives_variant hname (isName_chars name)

theorem gives_null (read : Reader α) : (optional read).Gives Value.null.chars none := by
  intro g rest hg _
  unfold optional
  rw [List.append_assoc, dropGaps_append hg]
  rfl

/-- What may be missing is read if it is there. -/
theorem gives_optional {read : Reader α} {c : Char} {v : List Char} {a : α}
    (hgap : isGap c = false) (hnull : c ≠ 'n') (h : read.Gives (c :: v) a) :
    (optional read).Gives (c :: v) (some a) := by
  intro g rest hg hrest
  have hread : read (c :: (v ++ rest)) = .ok (a, rest) := h [] rest gaps_nil hrest
  unfold optional
  rw [List.append_assoc, dropGaps_append hg, List.cons_append, dropGaps_cons hgap]
  simp [hnull, Reader.map, hread]

/-- What a reader gives wherever a text stands, it gives of the whole text. -/
theorem Gives.readAll_eq {read : Reader α} {v : List Char} {a : α} (h : read.Gives v a) :
    readAll read (String.ofList v) = .ok a := by
  have hread : read v = .ok (a, []) := by simpa using h [] [] gaps_nil stops_nil
  rw [readAll, String.toList_ofList, hread]
  rfl

end Reader

/-! ## Records -/

/-- Whether fields are read from members, one from the other in order, and what they make of a
record. -/
inductive Writes : List (Field σ) → σ → List (String × Value) → σ → Prop where
  | nil {s : σ} : Writes [] s [] s
  | cons {fields : List (Field σ)} {members : List (String × Value)} {s c : σ} {f : Field σ}
      {v : Value} {set : σ → σ} (hgives : f.read.Gives v.chars set)
      (h : Writes fields (set s) members c) : Writes (f :: fields) s ((f.name, v) :: members) c

theorem Writes.of {fields : List (Field σ)} {members : List (String × Value)} {s c : σ}
    {name : String} {read : Reader α} {set : α → σ → σ} {v : Value} {a : α}
    (hgives : read.Gives v.chars a) (h : Writes fields (set a s) members c) :
    Writes (.of name read set :: fields) s ((name, v) :: members) c :=
  .cons (f := .of name read set) (hgives.map set) h

theorem Writes.map_fst {fields : List (Field σ)} {members : List (String × Value)} {s c : σ}
    (h : Writes fields s members c) : members.map Prod.fst = fields.map (·.name) := by
  induction h with
  | nil => rfl
  | cons _ _ ih => rw [List.map_cons, List.map_cons, ih]

theorem Writes.fills {form : RecordForm σ} {fields : List (Field σ)}
    {members : List (String × Value)} {s c : σ} {seen : List String} (h : Writes fields s members c)
    (hfind : ∀ f ∈ fields, form.fields.find? (·.name = f.name) = some f)
    (hnodup : (fields.map (·.name)).Nodup) (hseen : ∀ f ∈ fields, f.name ∉ seen) :
    form.Fills Reader.Gives s seen (written members) c := by
  induction h generalizing seen with
  | nil => exact .nil
  | @cons fields members s c f v set hgives _ ih =>
      obtain ⟨hf, hfields⟩ := List.forall_mem_cons.1 hfind
      obtain ⟨hnew, hmore⟩ := List.forall_mem_cons.1 hseen
      obtain ⟨hname, hnodup⟩ := List.nodup_cons.1 hnodup
      refine .known hf hnew hgives (ih hfields hnodup fun f' hf' => ?_)
      rw [List.mem_cons, not_or]
      exact ⟨fun heq => hname (List.mem_map.2 ⟨f', hf', heq⟩), hmore f' hf'⟩

/-- A record is read from its members, if each field is read from its own. -/
theorem gives_of_writes {form : RecordForm σ} {members : List (String × Value)} {c : σ}
    (hnodup : (form.fields.map (·.name)).Nodup) (h : Writes form.fields form.start members c) :
    form.read.Gives (Value.obj members).chars c := by
  have hnames : (written members).map Prod.fst = form.fields.map (·.name) := by
    rw [written, List.map_map]
    exact h.map_fst
  refine RecordForm.gives_of_fills (fun f hf => .inr (.inr ?_)) (isObject_chars members)
    (h.fills (fun f hf => find?_of_nodup_map hnodup hf) hnodup (by simp))
  rw [hnames]
  exact List.mem_map_of_mem hf

end Dispatch.Json
