import Dispatch.Json.Skip
import Dispatch.Proofs.Json.Lexemes
/-!
# Values that are skipped

The grammar of all values, as it is followed where a value is skipped. The parts of a sequence and
those of a map are told apart by an index, so that there is one induction over all of them; each
constructor is one way in which the reader can go. A value is skipped whatever lies in it, and
nothing behind it is.
-/

namespace Dispatch.Json

variable {text rest : List Char}

/-- What of a text the grammar is about. -/
inductive Part where
  /-- One value, without the gaps around it. -/
  | value
  /-- The items of a sequence up to its end, at least one. -/
  | items
  /-- The members of a map up to its end, at least one. -/
  | members

/-- Whether a text is such a part by the grammar. -/
inductive Grammar : Part → List Char → Prop where
  | null : Grammar .value ['n', 'u', 'l', 'l']
  | true : Grammar .value ['t', 'r', 'u', 'e']
  | false : Grammar .value ['f', 'a', 'l', 's', 'e']
  | number {t : List Char} (h : Number.IsNumber t) : Grammar .value t
  | quoted {t : List Char} (h : Quotable t) : Grammar .value ('"' :: (t ++ ['"']))
  | emptySequence {g : List Char} (hg : Gaps g) : Grammar .value ('[' :: (g ++ [']']))
  | sequence {t : List Char} (h : Grammar .items t) : Grammar .value ('[' :: (t ++ [']']))
  | emptyMap {g : List Char} (hg : Gaps g) : Grammar .value ('\x7b' :: (g ++ ['\x7d']))
  | map {t : List Char} (h : Grammar .members t) : Grammar .value ('\x7b' :: (t ++ ['\x7d']))
  | lastItem {g₁ v g₂ : List Char} (h₁ : Gaps g₁) (h₂ : Gaps g₂) (hv : Grammar .value v) :
      Grammar .items (g₁ ++ v ++ g₂)
  | item {g₁ v g₂ t : List Char} (h₁ : Gaps g₁) (h₂ : Gaps g₂) (hv : Grammar .value v)
      (h : Grammar .items t) : Grammar .items (g₁ ++ v ++ g₂ ++ ',' :: t)
  | lastMember {g₁ k g₂ g₃ v g₄ : List Char} (h₁ : Gaps g₁) (h₂ : Gaps g₂) (h₃ : Gaps g₃)
      (h₄ : Gaps g₄) (hk : Quotable k) (hv : Grammar .value v) :
      Grammar .members (g₁ ++ '"' :: (k ++ '"' :: (g₂ ++ ':' :: (g₃ ++ v ++ g₄))))
  | member {g₁ k g₂ g₃ v g₄ t : List Char} (h₁ : Gaps g₁) (h₂ : Gaps g₂) (h₃ : Gaps g₃)
      (h₄ : Gaps g₄) (hk : Quotable k) (hv : Grammar .value v) (h : Grammar .members t) :
      Grammar .members (g₁ ++ '"' :: (k ++ '"' :: (g₂ ++ ':' :: (g₃ ++ v ++ g₄ ++ ',' :: t))))

/-- What is left of a text behind a part, where `depth` bounds how far the parts lie in one another.
-/
def skipPart (depth : Nat) : Part → List Char → List Char → Prop
  | .value, t, rest => skipValue depth (t ++ rest) = some rest
  | .items, t, rest => skipItems depth (t ++ ']' :: rest) = some rest
  | .members, t, rest => skipMembers depth (t ++ '\x7d' :: rest) = some rest

/-- A depth that is enough for a part of a length. -/
def depthOf (length : Nat) : Part → Nat
  | .value => 2 * length
  | .items => 2 * length + 1
  | .members => 2 * length + 1

theorem dropGaps_dropGaps (text : List Char) : dropGaps (dropGaps text) = dropGaps text := by
  induction text with
  | nil => rfl
  | cons c text ih => cases hc : isGap c <;> simp_all [dropGaps]

theorem skipValue_dropGaps (depth : Nat) (text : List Char) :
    skipValue depth (dropGaps text) = skipValue depth text := by
  cases depth with
  | zero => rfl
  | succ depth => rw [skipValue, skipValue, dropGaps_dropGaps]

theorem skipItems_dropGaps (depth : Nat) (text : List Char) :
    skipItems depth (dropGaps text) = skipItems depth text := by
  cases depth with
  | zero => rfl
  | succ depth => rw [skipItems, skipItems, skipValue_dropGaps]

theorem skipMembers_dropGaps (depth : Nat) (text : List Char) :
    skipMembers depth (dropGaps text) = skipMembers depth text := by
  cases depth with
  | zero => rfl
  | succ depth => rw [skipMembers, skipMembers, dropGaps_dropGaps]

/-- Gaps before a value are skipped with it. -/
theorem skipValue_gaps {g : List Char} (hg : Gaps g) (depth : Nat) (text : List Char) :
    skipValue depth (g ++ text) = skipValue depth text := by
  rw [← skipValue_dropGaps, dropGaps_append hg, skipValue_dropGaps]

/-! ## One step of the reader -/

/-- Where a number starts, a number is skipped. -/
theorem skipValue_startsNumber {c : Char} {tail : List Char}
    (hc : Number.StartsNumber c) (htext : dropGaps text = c :: tail) (depth : Nat) :
    skipValue (depth + 1) text = Number.skip? (c :: tail) := by
  obtain ⟨-, hquote, hbracket, -, hbrace, hn, ht, hf⟩ := hc.ne
  have hnumber : (c = '-' || c.isDigit) = Bool.true := by simpa [Number.StartsNumber] using hc
  rw [skipValue, htext]
  simp [hn, ht, hf, hnumber]

theorem skipValue_number {t : List Char} (h : Number.IsNumber t) (hrest : Stops rest)
    (depth : Nat) : skipValue (depth + 1) (t ++ rest) = some rest := by
  obtain ⟨c, tail, rfl, hc⟩ := Number.head?_isNumber h
  rw [List.cons_append, skipValue_startsNumber hc (dropGaps_cons hc.ne.1 (tail ++ rest))]
  exact Number.skip?_eq h hrest

theorem skipValue_quoted {t : List Char} (h : Quotable t) (rest : List Char) (depth : Nat) :
    skipValue (depth + 1) ('"' :: (t ++ ['"']) ++ rest) = some rest := by
  rw [List.cons_append, List.append_assoc]
  exact h.skipQuoted_eq rest

theorem skipValue_emptySequence {g : List Char} (hg : Gaps g) (rest : List Char) (depth : Nat) :
    skipValue (depth + 1) ('[' :: (g ++ [']']) ++ rest) = some rest := by
  rw [List.cons_append, List.append_assoc, skipValue, dropGaps_cons (by decide)]
  simp only [List.singleton_append, dropGaps_append_cons hg (by decide : isGap ']' = Bool.false)]

theorem skipValue_emptyMap {g : List Char} (hg : Gaps g) (rest : List Char) (depth : Nat) :
    skipValue (depth + 1) ('\x7b' :: (g ++ ['\x7d']) ++ rest) = some rest := by
  rw [List.cons_append, List.append_assoc, skipValue, dropGaps_cons (by decide)]
  simp only [List.singleton_append, dropGaps_append_cons hg (by decide : isGap '\x7d' = Bool.false)]

theorem skipItems_eq_some {depth : Nat} : skipItems (depth + 1) text = some rest ↔
    ∃ more, skipValue depth text = some more ∧
      ((∃ next, dropGaps more = ',' :: next ∧ skipItems depth next = some rest) ∨
        dropGaps more = ']' :: rest) := by
  rw [skipItems]
  cases skipValue depth text with
  | none => simp
  | some more =>
      simp only [Option.some.injEq, exists_eq_left']
      split <;> simp_all

theorem skipMembers_eq_some {depth : Nat} : skipMembers (depth + 1) text = some rest ↔
    ∃ name behind value more, dropGaps text = '"' :: name ∧ skipQuoted name = some behind ∧
      dropGaps behind = ':' :: value ∧ skipValue depth value = some more ∧
      ((∃ next, dropGaps more = ',' :: next ∧ skipMembers depth next = some rest) ∨
        dropGaps more = '\x7d' :: rest) := by
  rw [skipMembers]
  constructor
  · intro h
    split at h
    case h_2 => contradiction
    rename_i name hname
    split at h
    case h_2 => contradiction
    rename_i value hvalue
    obtain ⟨behind, hbehind, hcolon⟩ := Option.map_eq_some_iff.1 hvalue
    split at h
    case h_1 => contradiction
    rename_i more hmore
    refine ⟨name, behind, value, more, hname, hbehind, hcolon, hmore, ?_⟩
    split at h
    · exact .inl ⟨_, by assumption, h⟩
    · exact .inr (by simp_all)
    · contradiction
  · rintro ⟨name, behind, value, more, hname, hbehind, hcolon, hmore, hend⟩
    simp only [hname, hbehind, Option.map_some, hcolon, hmore]
    rcases hend with ⟨next, hnext, h⟩ | hend
    · simp only [hnext, h]
    · simp only [hend]

theorem skipValue_items {depth : Nat} {inner : List Char}
    (htext : dropGaps text = '[' :: inner) (h : skipItems depth inner = some rest) :
    skipValue (depth + 1) text = some rest := by
  have hends : ∀ more, dropGaps inner ≠ ']' :: more := by
    intro more hinner
    obtain ⟨depth, rfl⟩ : ∃ d, depth = d + 1 := Nat.exists_eq_succ_of_ne_zero fun heq => by
      simp [heq, skipItems] at h
    obtain ⟨left, hvalue, -⟩ := skipItems_eq_some.1 h
    cases depth with
    | zero => contradiction
    | succ depth => simp [skipValue, hinner] at hvalue
  rw [skipValue, htext]
  simpa only [hends, skipItems_dropGaps] using h

theorem skipValue_members {depth : Nat} {inner : List Char}
    (htext : dropGaps text = '\x7b' :: inner) (h : skipMembers depth inner = some rest) :
    skipValue (depth + 1) text = some rest := by
  obtain ⟨name, hname⟩ : ∃ name, dropGaps inner = '"' :: name := by
    cases depth with
    | zero => contradiction
    | succ depth =>
        obtain ⟨name, -, -, -, hname, -⟩ := skipMembers_eq_some.1 h
        exact ⟨name, hname⟩
  rw [← skipMembers_dropGaps, hname] at h
  rw [skipValue, htext]
  simpa [hname] using h

/-! ## Items and members -/

section Parts

variable {depth : Nat} {g₁ k g₂ g₃ v g₄ t : List Char}

theorem skipItems_last (h₁ : Gaps g₁) (h₂ : Gaps g₂)
    (hvalue : ∀ rest, Stops rest → skipValue depth (v ++ rest) = some rest) (rest : List Char) :
    skipItems (depth + 1) (g₁ ++ v ++ g₂ ++ ']' :: rest) = some rest := by
  have hskipped := hvalue (g₂ ++ ']' :: rest) (stops_append h₂ (stops_cons.2 (by decide)))
  rw [List.append_assoc, List.append_assoc]
  exact skipItems_eq_some.2 ⟨_, by rw [skipValue_gaps h₁, hskipped],
    .inr (dropGaps_append_cons h₂ (by decide) _)⟩

theorem skipItems_item (h₁ : Gaps g₁) (h₂ : Gaps g₂)
    (hvalue : ∀ rest, Stops rest → skipValue depth (v ++ rest) = some rest)
    (hitems : skipItems depth (t ++ ']' :: rest) = some rest) :
    skipItems (depth + 1) (g₁ ++ v ++ g₂ ++ ',' :: t ++ ']' :: rest) = some rest := by
  have hskipped := hvalue (g₂ ++ ',' :: (t ++ ']' :: rest))
    (stops_append h₂ (stops_cons.2 (by decide)))
  rw [List.append_assoc, List.append_assoc, List.append_assoc, List.cons_append]
  exact skipItems_eq_some.2 ⟨_, by rw [skipValue_gaps h₁, hskipped],
    .inl ⟨_, dropGaps_append_cons h₂ (by decide) _, hitems⟩⟩

theorem skipMembers_last (h₁ : Gaps g₁) (h₂ : Gaps g₂) (h₃ : Gaps g₃) (h₄ : Gaps g₄)
    (hk : Quotable k) (hvalue : ∀ rest, Stops rest → skipValue depth (v ++ rest) = some rest)
    (rest : List Char) :
    skipMembers (depth + 1) (g₁ ++ '"' :: (k ++ '"' :: (g₂ ++ ':' :: (g₃ ++ v ++ g₄))) ++
      '\x7d' :: rest) = some rest := by
  have hskipped := hvalue (g₄ ++ '\x7d' :: rest) (stops_append h₄ (stops_cons.2 (by decide)))
  simp only [List.append_assoc, List.cons_append]
  exact skipMembers_eq_some.2 ⟨_, _, _, _, dropGaps_append_cons h₁ (by decide) _,
    hk.skipQuoted_eq _, dropGaps_append_cons h₂ (by decide) _,
    by rw [skipValue_gaps h₃, hskipped], .inr (dropGaps_append_cons h₄ (by decide) _)⟩

theorem skipMembers_member (h₁ : Gaps g₁) (h₂ : Gaps g₂) (h₃ : Gaps g₃) (h₄ : Gaps g₄)
    (hk : Quotable k) (hvalue : ∀ rest, Stops rest → skipValue depth (v ++ rest) = some rest)
    (hmembers : skipMembers depth (t ++ '\x7d' :: rest) = some rest) :
    skipMembers (depth + 1) (g₁ ++ '"' :: (k ++ '"' :: (g₂ ++ ':' :: (g₃ ++ v ++ g₄ ++ ',' :: t))) ++
      '\x7d' :: rest) = some rest := by
  have hskipped := hvalue (g₄ ++ ',' :: (t ++ '\x7d' :: rest))
    (stops_append h₄ (stops_cons.2 (by decide)))
  simp only [List.append_assoc, List.cons_append]
  exact skipMembers_eq_some.2 ⟨_, _, _, _, dropGaps_append_cons h₁ (by decide) _,
    hk.skipQuoted_eq _, dropGaps_append_cons h₂ (by decide) _,
    by rw [skipValue_gaps h₃, hskipped],
    .inl ⟨_, dropGaps_append_cons h₄ (by decide) _, hmembers⟩⟩

end Parts

/-! ## All parts -/

/-- Every part is skipped, and what follows it is left. -/
theorem Grammar.skipPart {part : Part} {t : List Char} (h : Grammar part t) {depth : Nat}
    (hdepth : depthOf t.length part ≤ depth) {rest : List Char} (hrest : part = .value → Stops rest) :
    skipPart depth part t rest := by
  -- one depth more than the parts of a value need is enough for the value
  induction h generalizing depth rest with
  | null | true | false =>
      cases depth with
      | zero => contradiction
      | succ depth => rfl
  | number h =>
      obtain ⟨c, tail, rfl, -⟩ := Number.head?_isNumber h
      cases depth with
      | zero => contradiction
      | succ depth => exact skipValue_number h (hrest rfl) depth
  | quoted h =>
      cases depth with
      | zero => contradiction
      | succ depth => exact skipValue_quoted h rest depth
  | emptySequence hg =>
      cases depth with
      | zero => contradiction
      | succ depth => exact skipValue_emptySequence hg rest depth
  | emptyMap hg =>
      cases depth with
      | zero => contradiction
      | succ depth => exact skipValue_emptyMap hg rest depth
  | @sequence t h ih =>
      cases depth with
      | zero => contradiction
      | succ depth =>
          have hitems : skipItems depth (t ++ ']' :: rest) = some rest :=
            ih (by simp [depthOf] at hdepth ⊢; omega) (by simp)
          show skipValue (depth + 1) ('[' :: (t ++ [']']) ++ rest) = some rest
          exact skipValue_items (dropGaps_cons (by decide) _) (by simpa using hitems)
  | @map t h ih =>
      cases depth with
      | zero => contradiction
      | succ depth =>
          have hmembers : skipMembers depth (t ++ '\x7d' :: rest) = some rest :=
            ih (by simp [depthOf] at hdepth ⊢; omega) (by simp)
          show skipValue (depth + 1) ('\x7b' :: (t ++ ['\x7d']) ++ rest) = some rest
          exact skipValue_members (dropGaps_cons (by decide) _) (by simpa using hmembers)
  | lastItem h₁ h₂ hv ihv =>
      cases depth with
      | zero => contradiction
      | succ depth =>
          exact skipItems_last h₁ h₂
            (fun rest hrest => ihv (by simp [depthOf] at hdepth ⊢; omega) fun _ => hrest) rest
  | item h₁ h₂ hv h ihv ih =>
      cases depth with
      | zero => contradiction
      | succ depth =>
          exact skipItems_item h₁ h₂
            (fun rest hrest => ihv (by simp [depthOf] at hdepth ⊢; omega) fun _ => hrest)
            (ih (by simp [depthOf] at hdepth ⊢; omega) (by simp))
  | lastMember h₁ h₂ h₃ h₄ hk hv ihv =>
      cases depth with
      | zero => contradiction
      | succ depth =>
          exact skipMembers_last h₁ h₂ h₃ h₄ hk
            (fun rest hrest => ihv (by simp [depthOf] at hdepth ⊢; omega) fun _ => hrest) rest
  | member h₁ h₂ h₃ h₄ hk hv h ihv ih =>
      cases depth with
      | zero => contradiction
      | succ depth =>
          exact skipMembers_member h₁ h₂ h₃ h₄ hk
            (fun rest hrest => ihv (by simp [depthOf] at hdepth ⊢; omega) fun _ => hrest)
            (ih (by simp [depthOf] at hdepth ⊢; omega) (by simp))

/-- A value is skipped wherever it stands. -/
theorem skip?_append {g v rest : List Char} (hg : Gaps g) (hv : Grammar .value v)
    (hrest : Stops rest) : skip? (g ++ v ++ rest) = some rest := by
  rw [skip?, List.append_assoc, skipValue_gaps hg]
  exact hv.skipPart (by simp [depthOf]; omega) fun _ => hrest

end Dispatch.Json
