import Dispatch.Proofs.Json.Taking
import Dispatch.Proofs.Json.Written
/-!
# Stored floating point numbers

A floating point number that is read from its own text is read in the same way wherever that text
stands in a larger one: there is no gap in the text, so nothing of it can be left over.
-/

namespace Dispatch

namespace Json

variable {text rest : List Char}

/-! ## What is left of a number -/

namespace Number

theorem skipExponent?_suffix (h : skipExponent? text = some rest) : rest <:+ text := by
  have hdigits : ∀ {negative read}, ∀ more, exponentDigits? negative more = some read →
      read.2.2 <:+ more := by
    intro negative read more h
    unfold exponentDigits? at h
    split at h
    · contradiction
    · obtain rfl := Option.some.inj h
      exact List.dropWhile_suffix _
  have hmark : ∀ {mark tail read}, readExponent? tail = some read → read.2.2 <:+ mark :: tail := by
    intro mark tail read hread
    refine List.IsSuffix.trans ?_ (List.suffix_cons mark tail)
    unfold readExponent? at hread
    split at hread
    · exact (hdigits _ hread).trans (List.suffix_cons _ _)
    · exact (hdigits _ hread).trans (List.suffix_cons _ _)
    · exact hdigits _ hread
  unfold skipExponent? at h
  split at h
  · obtain ⟨read, hread, rfl⟩ := Option.map_eq_some_iff.1 h
    exact hmark hread
  · obtain ⟨read, hread, rfl⟩ := Option.map_eq_some_iff.1 h
    exact hmark hread
  · exact Option.some.inj h ▸ List.suffix_rfl

theorem skipFraction?_suffix (h : skipFraction? text = some rest) : rest <:+ text := by
  unfold skipFraction? at h
  split at h
  · split at h
    · contradiction
    · obtain rfl := Option.some.inj h
      exact (List.dropWhile_suffix _).trans (List.suffix_cons _ _)
  · exact Option.some.inj h ▸ List.suffix_rfl

theorem readWhole?_suffix {digits : List Char} (h : readWhole? text = some (digits, rest)) :
    rest <:+ text := by
  unfold readWhole? at h
  split at h
  · contradiction
  · contradiction
  · obtain ⟨-, rfl⟩ := Prod.mk.inj (Option.some.inj h)
    exact List.dropWhile_suffix _

/-- What is left behind a number is the end of the text. -/
theorem skip?_suffix (h : skip? text = some rest) : rest <:+ text := by
  have hbody : ∀ {body digits behind}, readWhole? body = some (digits, behind) →
      (skipFraction? behind).bind skipExponent? = some rest → rest <:+ body := by
    intro body digits behind hwhole h
    obtain ⟨more, hfraction, hexponent⟩ := Option.bind_eq_some_iff.1 h
    exact (skipExponent?_suffix hexponent).trans
      ((skipFraction?_suffix hfraction).trans (readWhole?_suffix hwhole))
  unfold skip? at h
  simp only at h
  split at h
  · contradiction
  · rename_i hwhole
    split at hwhole
    · exact (hbody hwhole h).trans (List.suffix_cons _ _)
    · exact hbody hwhole h

end Number

/-! ## Texts without gaps -/

/-- Whether there is no gap in a text. -/
def Ungapped (text : List Char) : Prop := ∀ c ∈ text, isGap c = false

instance (text : List Char) : Decidable (Ungapped text) :=
  List.decidableBAll (fun c => isGap c = false) text

theorem Ungapped.append {text more : List Char} (h : Ungapped text) (hmore : Ungapped more) :
    Ungapped (text ++ more) := fun c hc =>
  (List.mem_append.1 hc).elim (h c) (hmore c)

theorem Ungapped.dropGaps_eq {text : List Char} (h : Ungapped text) : dropGaps text = text := by
  cases text with
  | nil => rfl
  | cons c text => exact dropGaps_cons (h c List.mem_cons_self) text

theorem ungapped_digits {digits : List Char} (h : ∀ c ∈ digits, c.isDigit = true) :
    Ungapped digits := fun c hc => (Number.StartsNumber.ne (.inr (h c hc))).1

end Json

namespace Decimal.Layout

open Json

theorem ungapped_toDigits (n : Nat) : Ungapped (Nat.toDigits 10 n) :=
  ungapped_digits (isWhole_toDigits n).isDigit

theorem ungapped_zeros (n : Nat) : Ungapped (List.replicate n '0') := by
  intro c hc
  rw [List.eq_of_mem_replicate hc]
  rfl

theorem ungapped_exponentText (layout : Layout) (e : Int) :
    Ungapped (layout.exponentText e).toList := by
  simp only [exponentText, String.toList_append, String.toList_ofList]
  refine (Ungapped.append (by decide) ?_).append ((ungapped_zeros _).append (ungapped_toDigits _))
  split_ifs <;> decide

theorem ungapped_scaledText (layout : Layout) (d : Scaled) :
    Ungapped (layout.scaledText d).toList := by
  have hdigits := ungapped_toDigits d.digits
  have hpoint : Ungapped ".".toList := by decide
  unfold scaledText
  simp only
  split_ifs
  · simp only [String.toList_append, String.toList_ofList]
    exact (hdigits.append (ungapped_zeros _)).append (by decide)
  · simp only [List.splitAt_eq, String.toList_append, String.toList_ofList]
    exact (Ungapped.append (fun c hc => hdigits c (List.mem_of_mem_take hc)) hpoint).append
      fun c hc => hdigits c (List.mem_of_mem_drop hc)
  · simp only [String.toList_append, String.toList_ofList]
    exact Ungapped.append (by decide) ((ungapped_zeros _).append hdigits)
  · have hexponent := ungapped_exponentText layout
    cases htext : Nat.toDigits 10 d.digits with
    | nil => simp [Ungapped]
    | cons c rest =>
        rw [htext] at hdigits
        have hc : Ungapped [c] := by simpa [Ungapped] using hdigits c List.mem_cons_self
        have hrest : Ungapped rest := fun c' hc' => hdigits c' (List.mem_cons_of_mem _ hc')
        cases rest <;> simp only [String.toList_append, String.toList_ofList]
        · exact hc.append (hexponent _)
        · exact ((hc.append hpoint).append hrest).append (hexponent _)

/-- There is no gap in the text of a floating point number. -/
theorem ungapped_text (layout : Layout) (x : Float) : Ungapped (layout.text x).toList := by
  have hsign : Ungapped (if x.toBits >>> 63 = 1 then "-" else "").toList := by
    split <;> decide
  unfold text
  split
  · decide
  · simp only
    split
    · rw [String.toList_append]
      exact hsign.append (by decide)
    · split
      · rw [String.toList_append]
        exact hsign.append (by decide)
      · rw [String.toList_append]
        exact hsign.append (ungapped_scaledText layout _)

end Decimal.Layout

namespace Json.Reader

theorem float_eq_ok {text rest : List Char} {x : Float} (h : float text = .ok (x, rest)) :
    ∃ number, Number.read? (dropGaps text) = some (number, rest) ∧ number.toFloat = x := by
  unfold float at h
  simp only at h
  split at h
  case isFalse => contradiction
  split at h
  · contradiction
  · rename_i hread
    obtain ⟨rfl, rfl⟩ := Prod.mk.inj (Except.ok.inj h)
    exact ⟨_, hread, rfl⟩
  · rename_i hread
    obtain ⟨rfl, rfl⟩ := Prod.mk.inj (Except.ok.inj h)
    exact ⟨_, hread, rfl⟩

/-- Where a floating point number is read from the whole text of one, it is read from that text
anywhere. -/
theorem gives_float_text {layout : Decimal.Layout} {x y : Float}
    (h : readAll float (layout.text x) = .ok y) : float.Gives (layout.text x).toList y := by
  have hungapped := Decimal.Layout.ungapped_text layout x
  unfold readAll at h
  split at h
  · contradiction
  · rename_i z rest hread
    split at h
    · rename_i hempty
      obtain rfl := Except.ok.inj h
      obtain ⟨number, hnumber, hvalue⟩ := float_eq_ok hread
      have hsuffix := (Number.skip?_suffix (Number.skip?_of_read? hnumber)).subset
      rw [hungapped.dropGaps_eq] at hnumber hsuffix
      have hrest : rest = [] := by
        rw [← Ungapped.dropGaps_eq fun c hc => hungapped c (hsuffix hc)]
        simpa using hempty
      exact gives_float ⟨number, by rw [hnumber, hrest], hvalue⟩
    · contradiction

end Json.Reader

end Dispatch
