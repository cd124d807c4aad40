import Dispatch.Json.Record
import Dispatch.Proofs.Json.Readers
import Dispatch.Proofs.Json.Taking
import Mathlib.Data.List.Nodup
/-!
# What a map is read as

The text of a map, with gaps anywhere between its parts and names written in any way, and what the
reader of a record makes of it. The members are gone through in order: one of an unknown name is
skipped, one of a known name is read into the record, and one of a name that was there before is
refused. This walk over the members is all that is left of the text, so that statements about
records are about lists of members.
-/

namespace Dispatch.Json

variable {σ : Type}

/-- Of distinct names, each is found where it stands. -/
theorem find?_of_nodup_map {β : Type*} {name : β → String} {items : List β} {item : β}
    (hnodup : (items.map name).Nodup) (hitem : item ∈ items) :
    items.find? (name · = name item) = some item := by
  cases hfind : items.find? (name · = name item) with
  | none =>
      have hne := List.find?_eq_none.1 hfind item hitem
      simp at hne
  | some other =>
      have hname : name other = name item := by simpa using List.find?_some hfind
      rw [List.inj_on_of_nodup_map hnodup (List.mem_of_find?_eq_some hfind) hitem hname]

/-- A member of a map: its name, and the text of its value. -/
abbrev Member := String × List Char

/-- Whether a text lists members of a map, at least one of them. -/
inductive IsMembers : List Member → List Char → Prop where
  | last {name : String} {g₁ k g₂ g₃ v g₄ : List Char} (h₁ : Gaps g₁) (h₂ : Gaps g₂) (h₃ : Gaps g₃)
      (h₄ : Gaps g₄) (hk : Spells k name.toList) :
      IsMembers [(name, v)] (g₁ ++ '"' :: (k ++ '"' :: (g₂ ++ ':' :: (g₃ ++ v ++ g₄))))
  | cons {name : String} {g₁ k g₂ g₃ v g₄ t : List Char} {ms : List Member} (h₁ : Gaps g₁)
      (h₂ : Gaps g₂) (h₃ : Gaps g₃) (h₄ : Gaps g₄) (hk : Spells k name.toList) (h : IsMembers ms t) :
      IsMembers ((name, v) :: ms)
        (g₁ ++ '"' :: (k ++ '"' :: (g₂ ++ ':' :: (g₃ ++ v ++ g₄ ++ ',' :: t))))

/-- Whether a text is a map with these members. -/
inductive IsObject : List Member → List Char → Prop where
  | empty {g : List Char} (hg : Gaps g) : IsObject [] ('\x7b' :: (g ++ ['\x7d']))
  | members {ms : List Member} {t : List Char} (h : IsMembers ms t) :
      IsObject ms ('\x7b' :: (t ++ ['\x7d']))

theorem IsMembers.length_le {ms : List Member} {t : List Char} (h : IsMembers ms t) :
    ms.length ≤ t.length := by
  induction h with
  | last =>
      simp only [List.length_cons, List.length_nil, List.length_append]
      omega
  | cons _ _ _ _ _ _ ih =>
      simp only [List.length_cons, List.length_append]
      omega

/-- The members start with a quote, behind gaps, and each of them takes up some of the text. -/
theorem IsMembers.head {ms : List Member} {t : List Char} (h : IsMembers ms t) (rest : List Char) :
    ∃ tail, dropGaps (t ++ rest) = '"' :: tail ∧ ms.length ≤ tail.length := by
  cases h with
  | last h₁ _ _ _ _ =>
      rw [List.append_assoc, dropGaps_append h₁]
      refine ⟨_, rfl, ?_⟩
      simp only [List.append_eq, List.length_cons, List.length_nil, List.length_append]
      omega
  | cons h₁ _ _ _ _ h =>
      have hrest := h.length_le
      rw [List.append_assoc, dropGaps_append h₁]
      refine ⟨_, rfl, ?_⟩
      simp only [List.append_eq, List.length_cons, List.length_append]
      omega

theorem IsMembers.grammar {ms : List Member} {t : List Char} (h : IsMembers ms t)
    (hvalues : ∀ m ∈ ms, Grammar .value m.2) : Grammar .members t := by
  induction h with
  | last h₁ h₂ h₃ h₄ hk => exact .lastMember h₁ h₂ h₃ h₄ hk.quotable (hvalues _ List.mem_cons_self)
  | cons h₁ h₂ h₃ h₄ hk _ ih =>
      obtain ⟨hv, hvalues⟩ := List.forall_mem_cons.1 hvalues
      exact .member h₁ h₂ h₃ h₄ hk.quotable hv (ih hvalues)

/-- A map of values is a value. -/
theorem IsObject.grammar {ms : List Member} {v : List Char} (h : IsObject ms v)
    (hvalues : ∀ m ∈ ms, Grammar .value m.2) : Grammar .value v := by
  cases h with
  | empty hg => exact .emptyMap hg
  | members h => exact .map (h.grammar hvalues)

/-- Whether a text is a map with these members, with gaps around it. -/
def IsDocument (ms : List Member) (text : String) : Prop :=
  ∃ g v g', Gaps g ∧ Gaps g' ∧ IsObject ms v ∧ text.toList = g ++ v ++ g'

/-- Whether a reader got a value from a text, wherever that stood. -/
def Reader.Takes {α : Type} (read : Reader α) (v : List Char) (a : α) : Prop :=
  ∃ g rest left, Gaps g ∧ Stops rest ∧ read (g ++ v ++ rest) = .ok (a, left)

namespace RecordForm

variable {form : RecordForm σ}

/-! ## One member -/

/-- What comes of a member depends on its name, and then on the text behind its colon. -/
theorem readMember_eq {name : String} {g₁ k g₂ : List Char} (h₁ : Gaps g₁) (h₂ : Gaps g₂)
    (hk : Spells k name.toList) (s : σ) (seen : List String) (text : List Char) :
    form.readMember s seen (g₁ ++ '"' :: (k ++ '"' :: (g₂ ++ ':' :: text))) =
      match form.fields.find? (·.name = name) with
      | some f =>
        if seen.contains name then .error (.mismatch (.duplicateField name))
        else (f.read text).map fun (set, rest) => (set s, name :: seen, rest)
      | none => (wellFormed (skip? text)).map fun rest => (s, seen, rest) := by
  unfold readMember
  rw [dropGaps_append_cons h₁ (by decide)]
  simp only [hk.readQuoted_eq, String.ofList_toList, Reader.colon_append h₂, bind, Except.bind, pure,
    Except.pure]
  cases form.fields.find? (·.name = name) with
  | none => cases skip? text <;> rfl
  | some f =>
      simp only
      split
      · rfl
      · cases f.read text <;> rfl

theorem readMembers_dropGaps (count : Nat) (s : σ) (seen : List String) (text : List Char) :
    form.readMembers count s seen (dropGaps text) = form.readMembers count s seen text := by
  cases count with
  | zero => rfl
  | succ count => rw [readMembers, readMembers, readMember, readMember, dropGaps_dropGaps]

/-! ## All members -/

/-- Whether members fill a record that is filled so far, where members of some names were there
before: each of a known name is the first one of that name and changes the record as its reader
says, and any other is a value that is skipped. What it means that a reader reads a text is left
open. -/
inductive Fills (reads : Reader (σ → σ) → List Char → (σ → σ) → Prop) (form : RecordForm σ) :
    σ → List String → List Member → σ → Prop where
  | nil {s : σ} {seen : List String} : Fills reads form s seen [] s
  | known {s c : σ} {seen : List String} {name : String} {v : List Char} {ms : List Member}
      {f : Field σ} {set : σ → σ} (hfind : form.fields.find? (·.name = name) = some f)
      (hnew : name ∉ seen) (hreads : reads f.read v set)
      (h : Fills reads form (set s) (name :: seen) ms c) : Fills reads form s seen ((name, v) :: ms) c
  | unknown {s c : σ} {seen : List String} {name : String} {v : List Char} {ms : List Member}
      (hfind : form.fields.find? (·.name = name) = none) (hv : Grammar .value v)
      (h : Fills reads form s seen ms c) : Fills reads form s seen ((name, v) :: ms) c

/-- Whether the fields that a map has to have are all among some names. -/
def Covers (form : RecordForm σ) (names : List String) : Prop :=
  ∀ f ∈ form.fields, form.isLenient = true ∨ f.isOptional = true ∨ f.name ∈ names

theorem covers_of_isLenient (h : form.isLenient = true) (names : List String) : form.Covers names :=
  fun _ _ => .inl h

theorem complete_of_covers {seen : List String} (h : form.Covers seen) :
    form.complete seen = .ok () := by
  have hnone : form.fields.find? (fun f => !(form.isLenient || f.isOptional ||
      seen.contains f.name)) = none :=
    List.find?_eq_none.2 fun f hf => by
      rcases h f hf with h | h | h <;> simp [h]
  rw [complete, hnone]

section Member

variable {name : String} {g₁ k g₂ g₃ v g₄ : List Char} {mark : Char} {s c : σ} {seen : List String}
  {ms : List Member}

/-- A member that fills the record is read, and what is behind it is left; no field is missing that
was not missing before. -/
theorem readMember_of_fills (h₁ : Gaps g₁) (h₂ : Gaps g₂) (h₃ : Gaps g₃) (h₄ : Gaps g₄)
    (hk : Spells k name.toList) (hmark : isStop mark = true) (more : List Char)
    (h : form.Fills Reader.Gives s seen ((name, v) :: ms) c) :
    ∃ s' seen', form.Fills Reader.Gives s' seen' ms c ∧ (∀ names,
      form.Covers (seen ++ name :: names) → form.Covers (seen' ++ names)) ∧ form.readMember s seen
      (g₁ ++ '"' :: (k ++ '"' :: (g₂ ++ ':' :: (g₃ ++ v ++ g₄ ++ mark :: more)))) =
        .ok (s', seen', g₄ ++ mark :: more) := by
  have hstops : Stops (g₄ ++ mark :: more) := stops_append h₄ (by simpa using hmark)
  rw [readMember_eq h₁ h₂ hk, List.append_assoc (g₃ ++ v)]
  cases h with
  | known hfind hnew hgives h =>
      refine ⟨_, _, h, fun names hcovers f hf => ?_, ?_⟩
      · simpa [or_left_comm] using hcovers f hf
      · simp only [hfind, List.contains_iff_mem, if_neg hnew]
        rw [hgives g₃ _ h₃ hstops]
        rfl
  | unknown hfind hv h =>
      refine ⟨_, _, h, fun names hcovers f hf => ?_, ?_⟩
      · have hname : f.name ≠ name := by simpa using List.find?_eq_none.1 hfind f hf
        simpa [hname] using hcovers f hf
      · simp only [hfind]
        rw [skip?_append h₃ hv hstops]
        rfl

/-- A member that is read fills the record, and what is behind it is left. -/
theorem fills_of_readMember (hfields : ∀ f ∈ form.fields, f.read.TakesValue) (h₁ : Gaps g₁)
    (h₂ : Gaps g₂) (h₃ : Gaps g₃) (h₄ : Gaps g₄) (hk : Spells k name.toList)
    (hv : Grammar .value v) (hmark : isStop mark = true) {more left : List Char} {s' : σ}
    {seen' : List String} (hread : form.readMember s seen
      (g₁ ++ '"' :: (k ++ '"' :: (g₂ ++ ':' :: (g₃ ++ v ++ g₄ ++ mark :: more)))) =
        .ok (s', seen', left)) :
    left = g₄ ++ mark :: more ∧ (form.Fills Reader.Takes s' seen' ms c →
      form.Fills Reader.Takes s seen ((name, v) :: ms) c) := by
  have hstops : Stops (g₄ ++ mark :: more) := stops_append h₄ (by simpa using hmark)
  rw [readMember_eq h₁ h₂ hk, List.append_assoc (g₃ ++ v)] at hread
  split at hread
  · rename_i f hfind
    split at hread
    · contradiction
    · rename_i hnew
      cases hvalue : f.read (g₃ ++ v ++ (g₄ ++ mark :: more)) with
      | error flaw =>
          rw [hvalue] at hread
          contradiction
      | ok read =>
          -- the reader has taken the value and nothing more, so the members behind it are still there
          obtain ⟨set, rest⟩ := read
          obtain rfl := (hfields f (List.mem_of_find?_eq_some hfind)).rest_eq h₃ hv hstops hvalue
          rw [hvalue] at hread
          obtain ⟨rfl, rfl, rfl⟩ : set s = s' ∧ name :: seen = seen' ∧ g₄ ++ mark :: more = left := by
            simpa [Except.map] using hread
          exact ⟨rfl, .known hfind (by simpa using hnew) ⟨_, _, _, h₃, hstops, hvalue⟩⟩
  · rename_i hfind
    rw [skip?_append h₃ hv hstops] at hread
    obtain ⟨rfl, rfl, rfl⟩ : s = s' ∧ seen = seen' ∧ g₄ ++ mark :: more = left := by
      simpa [wellFormed, Except.map] using hread
    exact ⟨rfl, .unknown hfind hv⟩

end Member

/-- Members that fill a record are read, if they are all that it has to have. -/
theorem readMembers_of_fills {ms : List Member} {t : List Char} (h : IsMembers ms t) {s c : σ}
    {seen : List String} (hcovers : form.Covers (seen ++ ms.map Prod.fst))
    (hfills : form.Fills Reader.Gives s seen ms c) {count : Nat} (hcount : ms.length ≤ count)
    (rest : List Char) : form.readMembers count s seen (t ++ '\x7d' :: rest) = .ok (c, rest) := by
  induction h generalizing s seen count with
  | last h₁ h₂ h₃ h₄ hk =>
      obtain ⟨count, rfl⟩ := Nat.exists_eq_add_of_le' hcount
      obtain ⟨s', seen', hdone, hseen, hread⟩ :=
        readMember_of_fills h₁ h₂ h₃ h₄ hk (by decide : isStop '\x7d' = true) rest hfills
      have hcomplete : form.complete seen' = .ok () :=
        complete_of_covers (by simpa using hseen [] hcovers)
      cases hdone
      simp only [List.append_assoc, List.cons_append, List.length_singleton] at hread ⊢
      simp only [readMembers, hread, dropGaps_append_cons h₄ (by decide : isGap '\x7d' = false),
        hcomplete, Except.map]
  | @cons name g₁ k g₂ g₃ v g₄ t ms h₁ h₂ h₃ h₄ hk h ih =>
      obtain ⟨count, rfl⟩ : ∃ n, count = n + 1 :=
        Nat.exists_eq_add_of_le' (Nat.le_of_add_left_le hcount)
      obtain ⟨s', seen', hmore, hseen, hread⟩ := readMember_of_fills h₁ h₂ h₃ h₄ hk
        (by decide : isStop ',' = true) (t ++ '\x7d' :: rest) hfills
      simp only [List.append_assoc, List.cons_append] at hread ⊢
      simp only [readMembers, hread, dropGaps_append_cons h₄ (by decide : isGap ',' = false)]
      exact ih (hseen _ hcovers) hmore (Nat.le_of_succ_le_succ hcount)

/-- Members that are read fill the record, and what is behind them is left. -/
theorem fills_of_readMembers (hfields : ∀ f ∈ form.fields, f.read.TakesValue) {ms : List Member}
    {t : List Char} (h : IsMembers ms t) (hvalues : ∀ m ∈ ms, Grammar .value m.2) {s c : σ}
    {seen : List String} {count : Nat} {rest left : List Char}
    (hread : form.readMembers count s seen (t ++ '\x7d' :: rest) = .ok (c, left)) :
    left = rest ∧ form.Fills Reader.Takes s seen ms c := by
  induction h generalizing s seen count with
  | last h₁ h₂ h₃ h₄ hk =>
      have hv := hvalues _ List.mem_cons_self
      cases count with
      | zero => contradiction
      | succ count =>
          simp only [List.append_assoc, List.cons_append] at hread
          unfold readMembers at hread
          split at hread
          · contradiction
          · rename_i s' seen' more hmember
            obtain ⟨rfl, hfills⟩ := fills_of_readMember hfields h₁ h₂ h₃ h₄ hk hv
              (by decide : isStop '\x7d' = true) (by simpa only [List.append_assoc] using hmember)
            simp only [dropGaps_append_cons h₄ (by decide : isGap '\x7d' = false)] at hread
            obtain ⟨rfl, rfl⟩ := eq_of_complete hread
            exact ⟨rfl, hfills .nil⟩
  | cons h₁ h₂ h₃ h₄ hk h ih =>
      obtain ⟨hv, hvalues⟩ := List.forall_mem_cons.1 hvalues
      cases count with
      | zero => contradiction
      | succ count =>
          simp only [List.append_assoc, List.cons_append] at hread
          unfold readMembers at hread
          split at hread
          · contradiction
          · rename_i s' seen' more hmember
            obtain ⟨rfl, hfills⟩ := fills_of_readMember hfields h₁ h₂ h₃ h₄ hk hv
              (by decide : isStop ',' = true) (by simpa only [List.append_assoc] using hmember)
            simp only [dropGaps_append_cons h₄ (by decide : isGap ',' = false)] at hread
            obtain ⟨rfl, hmore⟩ := ih hvalues hread
            exact ⟨rfl, hfills hmore⟩

/-! ## The whole map -/

theorem read_empty {g g' : List Char} (hg : Gaps g) (hg' : Gaps g') (rest : List Char) :
    form.read (g ++ '\x7b' :: (g' ++ ['\x7d']) ++ rest) =
      (form.complete []).map fun () => (form.start, rest) := by
  unfold read
  rw [List.append_assoc, dropGaps_append hg, List.cons_append, List.append_assoc,
    dropGaps_cons (by decide)]
  simp only [List.singleton_append, dropGaps_append_cons hg' (by decide : isGap '\x7d' = false)]

theorem read_members {ms : List Member} {g t : List Char} (hg : Gaps g) (h : IsMembers ms t)
    (rest : List Char) : ∃ count, ms.length ≤ count ∧
      form.read (g ++ '\x7b' :: (t ++ ['\x7d']) ++ rest) =
        form.readMembers count form.start [] (t ++ '\x7d' :: rest) := by
  -- the length of the text bounds the number of members
  obtain ⟨tail, htail, hlength⟩ := h.head ('\x7d' :: rest)
  refine ⟨('"' :: tail).length + 1, by rw [List.length_cons]; omega, ?_⟩
  unfold read
  rw [List.append_assoc, dropGaps_append hg, List.cons_append, List.append_assoc,
    dropGaps_cons (by decide), List.singleton_append, ← readMembers_dropGaps]
  simp [htail]

/-- A map whose members fill the record that is there at the start is read as what they make of it,
if they are all that it has to have. -/
theorem gives_of_fills {ms : List Member} (hcovers : form.Covers (ms.map Prod.fst)) {v : List Char}
    (h : IsObject ms v) {c : σ} (hfills : form.Fills Reader.Gives form.start [] ms c) :
    form.read.Gives v c := by
  intro g rest hg _
  cases h with
  | empty hg' =>
      cases hfills
      rw [read_empty hg hg', complete_of_covers (by simpa using hcovers)]
      rfl
  | members h =>
      obtain ⟨count, hcount, hread⟩ := read_members hg h rest
      rw [hread, readMembers_of_fills h hcovers hfills hcount]

/-- What is read from a map is what its members make of the record that is there at the start. -/
theorem fills_of_takes (hfields : ∀ f ∈ form.fields, f.read.TakesValue) {ms : List Member}
    {v : List Char} (h : IsObject ms v) (hvalues : ∀ m ∈ ms, Grammar .value m.2) {c : σ}
    (htakes : form.read.Takes v c) : form.Fills Reader.Takes form.start [] ms c := by
  obtain ⟨g, rest, left, hg, -, hread⟩ := htakes
  cases h with
  | empty hg' =>
      rw [read_empty hg hg'] at hread
      obtain ⟨rfl, -⟩ := eq_of_complete hread
      exact .nil
  | members h =>
      obtain ⟨count, -, heq⟩ := read_members hg h rest
      rw [heq] at hread
      exact (fills_of_readMembers hfields h hvalues hread).2

end RecordForm

end Dispatch.Json
