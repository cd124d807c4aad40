import Dispatch.Json.Record
import Dispatch.Proofs.Json.Skipping
/-!
# What readers take

Whatever a reader gets from the front of a text, it gets from one value of the grammar: what it
leaves is what is left where that value is skipped. So no reader takes less than a value or runs
into what follows it, also where it is handed a value of another kind than it looks for.
-/

namespace Dispatch.Json

variable {α β σ : Type} {text rest : List Char}

/-! ## Skipping with more depth -/

/-- What is skipped at all is skipped in the same way with more depth. -/
theorem skip_succ (depth : Nat) :
    (∀ {text rest}, skipValue depth text = some rest → skipValue (depth + 1) text = some rest) ∧
    (∀ {text rest}, skipItems depth text = some rest → skipItems (depth + 1) text = some rest) ∧
    (∀ {text rest}, skipMembers depth text = some rest →
      skipMembers (depth + 1) text = some rest) := by
  induction depth with
  | zero => exact ⟨by simp [skipValue], by simp [skipItems], by simp [skipMembers]⟩
  | succ depth ih =>
      -- values, items and members lie in one another, so all three go through the induction together
      obtain ⟨hvalue, hitems, hmembers⟩ := ih
      refine ⟨fun {text rest} h => ?_, fun h => ?_, fun h => ?_⟩
      · rw [skipValue] at h ⊢
        grind
      · obtain ⟨more, hmore, hend⟩ := skipItems_eq_some.1 h
        refine skipItems_eq_some.2 ⟨more, hvalue hmore, hend.imp_left ?_⟩
        rintro ⟨next, hnext, h⟩
        exact ⟨next, hnext, hitems h⟩
      · obtain ⟨name, behind, value, more, hname, hbehind, hcolon, hmore, hend⟩ :=
          skipMembers_eq_some.1 h
        refine skipMembers_eq_some.2 ⟨name, behind, value, more, hname, hbehind, hcolon, hvalue hmore,
          hend.imp_left ?_⟩
        rintro ⟨next, hnext, h⟩
        exact ⟨next, hnext, hmembers h⟩

theorem skipValue_mono {depth depth' : Nat} (hdepth : depth ≤ depth')
    (h : skipValue depth text = some rest) : skipValue depth' text = some rest := by
  induction hdepth with
  | refl => exact h
  | step _ ih => exact (skip_succ _).1 ih

theorem skipItems_mono {depth depth' : Nat} (hdepth : depth ≤ depth')
    (h : skipItems depth text = some rest) : skipItems depth' text = some rest := by
  induction hdepth with
  | refl => exact h
  | step _ ih => exact (skip_succ _).2.1 ih

theorem skipMembers_mono {depth depth' : Nat} (hdepth : depth ≤ depth')
    (h : skipMembers depth text = some rest) : skipMembers depth' text = some rest := by
  induction hdepth with
  | refl => exact h
  | step _ ih => exact (skip_succ _).2.2 ih

namespace Number

theorem skipExponent?_of_readScaled? {n : Nat} {places : Int} {x : Float}
    (h : readScaled? n places text = some (x, rest)) : skipExponent? text = some rest := by
  unfold readScaled? at h
  split at h
  case h_3 =>
    obtain ⟨y, -, heq⟩ := Option.map_eq_some_iff.1 h
    simp_all [skipExponent?]
  all_goals
    split at h
    · contradiction
    · rename_i hread
      rw [skipExponent?, hread, Option.map_some]
      split at h
      · split at h
        · simp_all
        · contradiction
      · obtain ⟨y, -, heq⟩ := Option.map_eq_some_iff.1 h
        simp_all

theorem skip?_of_readBehind? {negative : Bool} {digits : List Char} {x : Number}
    (h : readBehind? negative digits text = some (x, rest)) :
    (skipFraction? text).bind skipExponent? = some rest := by
  unfold readBehind? at h
  simp only at h
  split at h
  case h_1 =>
    split at h
    · contradiction
    · rename_i hfraction
      obtain ⟨⟨y, left⟩, hread, heq⟩ := Option.map_eq_some_iff.1 h
      obtain ⟨-, rfl⟩ := Prod.mk.inj heq
      rw [skipFraction?, if_neg (by simpa using hfraction), Option.bind_some]
      exact skipExponent?_of_readScaled? hread
  case h_4 =>
    obtain ⟨y, -, heq⟩ := Option.map_eq_some_iff.1 h
    obtain ⟨-, rfl⟩ := Prod.mk.inj heq
    simp_all [skipFraction?, skipExponent?]
  all_goals
    obtain ⟨⟨y, left⟩, hread, heq⟩ := Option.map_eq_some_iff.1 h
    obtain ⟨-, rfl⟩ := Prod.mk.inj heq
    simpa [skipFraction?] using skipExponent?_of_readScaled? hread

/-- What is read as a number can be skipped as one. -/
theorem skip?_of_read? {x : Number} (h : read? text = some (x, rest)) : skip? text = some rest := by
  have hunsigned : ∀ {negative more}, readUnsigned? negative more = some (x, rest) →
      ∃ read, readWhole? more = some read ∧ (skipFraction? read.2).bind skipExponent? = some rest := by
    intro negative more h
    unfold readUnsigned? at h
    split at h
    · contradiction
    · exact ⟨_, by assumption, skip?_of_readBehind? h⟩
  unfold read? at h
  unfold skip?
  split at h
  · obtain ⟨read, hwhole, hskip⟩ := hunsigned h
    simpa only [hwhole] using hskip
  · obtain ⟨read, hwhole, hskip⟩ := hunsigned h
    simpa only [hwhole] using hskip

end Number

/-! ## Readers of single values -/

/-- What two steps give together, each of them gives. -/
theorem bind_eq_ok {x : Except Flaw α} {f : α → Except Flaw β} {b : β} :
    x >>= f = .ok b ↔ ∃ a, x = .ok a ∧ f a = .ok b := by
  cases x <;> simp [bind, Except.bind]

theorem wellFormed_eq_ok {x : Option α} {a : α} : wellFormed x = .ok a ↔ x = some a := by
  cases x <;> simp [wellFormed]

namespace Reader

/-- Whether a reader takes values of the grammar: it leaves what is left where such a value is
skipped. -/
def TakesValue (read : Reader α) : Prop :=
  ∀ text a rest, read text = .ok (a, rest) → ∃ depth, skipValue depth text = some rest

/-- What a reader takes from a value and a text behind it is the value. -/
theorem TakesValue.rest_eq {read : Reader α} (h : read.TakesValue) {g v more : List Char} {a : α}
    (hg : Gaps g) (hv : Grammar .value v) (hmore : Stops more)
    (hread : read (g ++ v ++ more) = .ok (a, rest)) : rest = more := by
  obtain ⟨depth, hskip⟩ := h _ _ _ hread
  -- what is skipped does not depend on the depth, so the two rests are the same
  have hvalue := skip?_append hg hv hmore
  rw [skip?] at hvalue
  have hboth := (skipValue_mono (Nat.le_max_left depth _) hskip).symm.trans
    (skipValue_mono (Nat.le_max_right depth _) hvalue)
  simpa using hboth

theorem TakesValue.map {read : Reader α} (h : read.TakesValue) (f : α → β) :
    (read.map f).TakesValue := by
  intro text b rest hread
  unfold Reader.map at hread
  split at hread
  · obtain ⟨-, rfl⟩ : _ ∧ _ = rest := by simpa using hread
    exact h _ _ _ (by assumption)
  · contradiction

/-- What is read as a number where one starts is skipped there. -/
theorem skipValue_of_read? {number : Number} (hstarts : startsNumber (dropGaps text) = true)
    (hread : Number.read? (dropGaps text) = some (number, rest)) :
    skipValue 1 text = some rest := by
  cases htext : dropGaps text with
  | nil => simp [htext, startsNumber] at hstarts
  | cons c tail =>
      rw [htext] at hread hstarts
      rw [skipValue_startsNumber (by simpa [startsNumber, Number.StartsNumber] using hstarts) htext]
      exact Number.skip?_of_read? hread

theorem takesValue_natural (word : String) (bound : Nat) : (natural word bound).TakesValue := by
  intro text n rest h
  unfold natural at h
  simp only at h
  split at h
  case isFalse => contradiction
  rename_i hstarts
  split at h
  · contradiction
  · contradiction
  · rename_i hread
    split at h
    · obtain ⟨-, rfl⟩ : _ ∧ _ = rest := by simpa using h
      exact ⟨1, skipValue_of_read? hstarts hread⟩
    · contradiction

theorem takesValue_float : float.TakesValue := by
  intro text x rest h
  unfold float at h
  simp only at h
  split at h
  case isFalse => contradiction
  rename_i hstarts
  split at h
  · contradiction
  · rename_i hread
    obtain ⟨-, rfl⟩ : _ ∧ _ = rest := by simpa using h
    exact ⟨1, skipValue_of_read? hstarts hread⟩
  · rename_i hread
    obtain ⟨-, rfl⟩ : _ ∧ _ = rest := by simpa using h
    exact ⟨1, skipValue_of_read? hstarts hread⟩

/-- What was read after the first letter of a word is the rest of the word. -/
theorem afterWord?_of_wellFormed {word : List Char} {a b : α}
    (h : (wellFormed (afterWord? word text)).map (fun more => (a, more)) = .ok (b, rest)) :
    afterWord? word text = some rest := by
  cases hword : afterWord? word text with
  | none => simp [hword, wellFormed, Except.map] at h
  | some more => simp_all [wellFormed, Except.map]

theorem takesValue_boolean : boolean.TakesValue := by
  intro text b rest h
  unfold boolean at h
  split at h
  · rename_i htext
    exact ⟨1, by simpa [skipValue, htext] using afterWord?_of_wellFormed h⟩
  · rename_i htext
    exact ⟨1, by simpa [skipValue, htext] using afterWord?_of_wellFormed h⟩
  · contradiction

theorem quoted_eq_ok {word s : String} (h : quoted word text = .ok (s, rest)) :
    ∃ more, dropGaps text = '"' :: more ∧ skipQuoted more = some rest := by
  unfold quoted at h
  split at h
  · rename_i more htext
    cases hquoted : readQuoted none more with
    | none => simp [hquoted, wellFormed, Except.map] at h
    | some read =>
        obtain ⟨-, rfl⟩ : _ ∧ read.2 = rest := by simpa [hquoted, wellFormed, Except.map] using h
        exact ⟨more, htext, skipQuoted_of_readQuoted hquoted⟩
  · contradiction

theorem colon_eq_ok (h : colon text = .ok rest) : dropGaps text = ':' :: rest := by
  unfold colon at h
  split at h
  · simp_all
  · contradiction

theorem takesValue_unit : unit.TakesValue := by
  intro text u rest h
  unfold unit at h
  split at h
  · rename_i htext
    exact ⟨1, by simpa [skipValue, htext] using afterWord?_of_wellFormed h⟩
  · contradiction

theorem takesValue_variant (known : List (String × α)) : (variant known).TakesValue := by
  intro text a rest h
  unfold variant at h
  split at h
  · rename_i htext
    simp only [bind_eq_ok, wellFormed_eq_ok] at h
    obtain ⟨⟨s, more⟩, hquoted, a, -, heq⟩ := h
    obtain ⟨-, rfl⟩ : _ ∧ more = rest := by simpa [pure, Except.pure] using heq
    exact ⟨1, by simpa [skipValue, htext] using skipQuoted_of_readQuoted hquoted⟩
  · rename_i htext
    simp only [bind_eq_ok] at h
    obtain ⟨⟨s, behind⟩, hquoted, a, -, value, hcolon, ⟨⟨⟩, more⟩, hunit, heq⟩ := h
    obtain ⟨name, hname, hskip⟩ := quoted_eq_ok hquoted
    obtain ⟨depth, hvalue⟩ := takesValue_unit _ _ _ hunit
    simp only at heq
    split at heq
    · rename_i hend
      obtain ⟨-, rfl⟩ : _ ∧ _ = rest := by simpa [pure, Except.pure] using heq
      exact ⟨depth + 2, skipValue_members htext
        (skipMembers_eq_some.2 ⟨_, _, _, _, hname, hskip, colon_eq_ok hcolon, hvalue, .inr hend⟩)⟩
    · contradiction
  · contradiction

end Reader

/-! ## Readers of records -/

namespace RecordForm

variable {form : RecordForm σ} {s c : σ}

theorem eq_of_complete {seen : List String}
    (h : ((form.complete seen).map fun () => (s, text)) = .ok (c, rest)) : s = c ∧ text = rest := by
  cases hcomplete : form.complete seen with
  | error flaw => simp [hcomplete, Except.map] at h
  | ok u => simp_all [Except.map]

/-- Behind an item of a sequence, the items that are left are skipped as far as they are read. -/
theorem skipItems_of_readItems {fields : List (Field σ)} (hfields : ∀ f ∈ fields, f.read.TakesValue)
    {index : Nat} (hindex : index ≠ 0) (h : form.readItems fields index s text = .ok (c, rest)) :
    ∃ depth, (∃ next, dropGaps text = ',' :: next ∧ skipItems depth next = some rest) ∨
      dropGaps text = ']' :: rest := by
  induction fields generalizing index s text with
  | nil =>
      unfold readItems at h
      split at h
      · rename_i hend
        obtain ⟨-, rfl⟩ : _ ∧ _ = rest := by simpa using h
        exact ⟨0, .inr hend⟩
      · contradiction
  | cons f fields ih =>
      obtain ⟨hf, hfields⟩ := List.forall_mem_cons.1 hfields
      unfold readItems at h
      cases htext : dropGaps text with
      | nil => simp [htext] at h
      | cons mark tail =>
          simp only [htext] at h
          split at h
          · rename_i hend
            split at h
            · obtain ⟨-, rfl⟩ : _ ∧ tail = rest := by simpa using h
              exact ⟨0, .inr (by rw [hend])⟩
            · contradiction
          · split at h
            · contradiction
            · -- behind an item there is a comma before the next one
              rename_i hcomma
              obtain rfl : mark = ',' :=
                Decidable.byContradiction fun hne => hcomma ⟨hindex, hne⟩
              obtain ⟨⟨set, more⟩, hread, hmore⟩ := bind_eq_ok.1 h
              obtain ⟨depth, hskip⟩ := hf _ _ _ hread
              obtain ⟨depth', hend⟩ := ih hfields (Nat.succ_ne_zero index) hmore
              refine ⟨max depth depth' + 1, .inl ⟨tail, rfl, skipItems_eq_some.2
                ⟨more, skipValue_mono (Nat.le_max_left _ _) hskip, hend.imp_left ?_⟩⟩⟩
              rintro ⟨next, hnext, hitems⟩
              exact ⟨next, hnext, skipItems_mono (Nat.le_max_right _ _) hitems⟩

/-- A sequence is skipped as far as its items are read. -/
theorem skipped_of_readItems {fields : List (Field σ)} (hfields : ∀ f ∈ fields, f.read.TakesValue)
    (h : form.readItems fields 0 s text = .ok (c, rest)) :
    ∃ depth, ∀ {outer}, dropGaps outer = '[' :: text → skipValue depth outer = some rest := by
  have hempty : dropGaps text = ']' :: rest →
      ∃ depth, ∀ {outer}, dropGaps outer = '[' :: text → skipValue depth outer = some rest :=
    fun hend => ⟨1, fun houter => by simp [skipValue, houter, hend]⟩
  cases fields with
  | nil =>
      unfold readItems at h
      split at h
      · rename_i hend
        obtain ⟨-, rfl⟩ : _ ∧ _ = rest := by simpa using h
        exact hempty hend
      · contradiction
  | cons f fields =>
      obtain ⟨hf, hfields⟩ := List.forall_mem_cons.1 hfields
      unfold readItems at h
      cases htext : dropGaps text with
      | nil => simp [htext] at h
      | cons mark tail =>
          simp only [htext] at h
          split at h
          · rename_i hend
            split at h
            · obtain ⟨-, rfl⟩ : _ ∧ tail = rest := by simpa using h
              exact hempty (by rw [htext, hend])
            · contradiction
          · simp only [ne_eq, not_true_eq_false, false_and, if_false, if_true] at h
            obtain ⟨⟨set, more⟩, hread, hmore⟩ := bind_eq_ok.1 h
            obtain ⟨depth, hskip⟩ := hf _ _ _ hread
            obtain ⟨depth', hend⟩ := skipItems_of_readItems hfields (Nat.succ_ne_zero 0) hmore
            rw [← htext, skipValue_dropGaps] at hskip
            refine ⟨max depth depth' + 1 + 1, fun houter => skipValue_items houter
              (skipItems_eq_some.2 ⟨more, skipValue_mono (Nat.le_max_left _ _) hskip,
                hend.imp_left ?_⟩)⟩
            rintro ⟨next, hnext, hitems⟩
            exact ⟨next, hnext, skipItems_mono (Nat.le_max_right _ _) hitems⟩

theorem skipped_of_readMember (hfields : ∀ f ∈ form.fields, f.read.TakesValue) {s' : σ}
    {seen seen' : List String} (h : form.readMember s seen text = .ok (s', seen', rest)) :
    ∃ name behind value depth, dropGaps text = '"' :: name ∧ skipQuoted name = some behind ∧
      dropGaps behind = ':' :: value ∧ skipValue depth value = some rest := by
  unfold readMember at h
  split at h
  case h_2 => contradiction
  rename_i name htext
  split at h
  · contradiction
  · rename_i key behind hquoted
    have hskip := skipQuoted_of_readQuoted hquoted
    simp only at h
    split at h
    · rename_i f hfind
      split at h
      · contradiction
      · obtain ⟨value, hcolon, ⟨set, more⟩, hread, heq⟩ := by simpa only [bind_eq_ok] using h
        obtain ⟨depth, hvalue⟩ := hfields f (List.mem_of_find?_eq_some hfind) _ _ _ hread
        obtain ⟨-, -, rfl⟩ : _ ∧ _ ∧ more = rest := by simpa [pure, Except.pure] using heq
        exact ⟨name, behind, value, depth, htext, hskip, Reader.colon_eq_ok hcolon, hvalue⟩
    · obtain ⟨value, hcolon, more, hvalue, heq⟩ := by
        simpa only [bind_eq_ok, wellFormed_eq_ok] using h
      obtain ⟨-, -, rfl⟩ : _ ∧ _ ∧ more = rest := by simpa [pure, Except.pure] using heq
      exact ⟨name, behind, value, _, htext, hskip, Reader.colon_eq_ok hcolon, hvalue⟩

theorem skipMembers_of_readMembers (hfields : ∀ f ∈ form.fields, f.read.TakesValue)
    {seen : List String} {count : Nat} (h : form.readMembers count s seen text = .ok (c, rest)) :
    ∃ depth, skipMembers depth text = some rest := by
  induction count generalizing s seen text with
  | zero => contradiction
  | succ count ih =>
      unfold readMembers at h
      split at h
      · contradiction
      · rename_i s' seen' more hmember
        obtain ⟨name, behind, value, depth, htext, hskip, hcolon, hvalue⟩ :=
          skipped_of_readMember hfields hmember
        split at h
        · rename_i next hnext
          obtain ⟨depth', hmembers⟩ := ih h
          exact ⟨max depth depth' + 1, skipMembers_eq_some.2 ⟨name, behind, value, more, htext, hskip,
            hcolon, skipValue_mono (Nat.le_max_left _ _) hvalue,
            .inl ⟨next, hnext, skipMembers_mono (Nat.le_max_right _ _) hmembers⟩⟩⟩
        · rename_i left hend
          obtain ⟨-, rfl⟩ := eq_of_complete h
          exact ⟨depth + 1, skipMembers_eq_some.2
            ⟨name, behind, value, more, htext, hskip, hcolon, hvalue, .inr hend⟩⟩
        · contradiction

/-- A record is read from a map or from a sequence, if its fields are read from values. -/
theorem takesValue_read (hfields : ∀ f ∈ form.fields, f.read.TakesValue) : form.read.TakesValue := by
  intro text c rest h
  unfold read at h
  split at h
  · rename_i inner htext
    obtain ⟨depth, hskip⟩ := skipped_of_readItems hfields h
    exact ⟨depth, hskip htext⟩
  · rename_i inner htext
    split at h
    · rename_i more hinner
      obtain ⟨-, rfl⟩ := eq_of_complete h
      exact ⟨1, by simp [skipValue, htext, hinner]⟩
    · obtain ⟨depth, hmembers⟩ := skipMembers_of_readMembers hfields h
      rw [skipMembers_dropGaps] at hmembers
      exact ⟨depth + 1, skipValue_members htext hmembers⟩
  · contradiction

end RecordForm

end Dispatch.Json
