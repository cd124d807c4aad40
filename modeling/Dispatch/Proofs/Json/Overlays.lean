import Dispatch.Proofs.Json.Records
import Mathlib.Data.List.Forall2
/-!
# Records with defaults

What it means that a map is laid over a record: every field that is listed has the value that its
text stands for, and every other field stays as it is. A list of `FieldSpec`s says this of a record
without saying how it is read. If the form of the record implements these, then a map of texts that
fit, none of whose names is there twice, is read as the one record that it lays over the start, in
whatever order its members stand and whatever unknown ones are among them; and a map with a name
twice is never read.
-/

namespace Dispatch.Json

variable {σ τ : Type}

/-- What a field of a record is for, apart from how it is read. -/
structure FieldSpec (σ : Type) where
  name : String
  Value : Type
  /-- Whether a text stands for a value of the field. -/
  Stands : List Char → Value → Prop
  /-- Whether the name of a field is there twice within a text. -/
  Repeats : List Char → Prop
  get : σ → Value

/-- Whether all members have texts that fit: those of fields stand for values, and others are values
of the grammar. -/
def Fits (specs : List (FieldSpec σ)) (ms : List Member) : Prop :=
  ∀ m ∈ ms, match specs.find? (·.name = m.1) with
    | some spec => ∃ a, spec.Stands m.2 a
    | none => Grammar .value m.2

/-- Whether no name of a field is there twice. -/
def Distinct (specs : List (FieldSpec σ)) (ms : List Member) : Prop :=
  ∀ spec ∈ specs, (ms.map Prod.fst).count spec.name ≤ 1

/-- Whether a record is another one with exactly the listed fields replaced. -/
def Overlays (specs : List (FieldSpec σ)) (start : σ) (ms : List Member) (c : σ) : Prop :=
  ∀ spec ∈ specs, match ms.lookup spec.name with
    | some v => spec.Stands v (spec.get c)
    | none => spec.get c = spec.get start

/-- Whether members say the same of every field: both leave it out, or both have texts that stand
for one value, which may be written in different ways. -/
def SaysSame (specs : List (FieldSpec σ)) (ms ms' : List Member) : Prop :=
  ∀ spec ∈ specs, match ms.lookup spec.name, ms'.lookup spec.name with
    | some v, some v' => ∃ a, spec.Stands v a ∧ spec.Stands v' a
    | none, none => True
    | _, _ => False

/-- Whether the name of a field is there twice, among the members or within the text of one. -/
def RepeatsName (specs : List (FieldSpec σ)) (ms : List Member) : Prop :=
  ∃ spec ∈ specs, 2 ≤ (ms.map Prod.fst).count spec.name ∨ ∃ v, (spec.name, v) ∈ ms ∧ spec.Repeats v

/-- The members that are fields. -/
def known (specs : List (FieldSpec σ)) (ms : List Member) : List Member :=
  ms.filter fun m => specs.any (·.name = m.1)

namespace FieldSpec

/-- A field whose texts have no names in them. -/
def of {α : Type} (name : String) (Stands : List Char → α → Prop) (get : σ → α) : FieldSpec σ where
  name := name
  Value := α
  Stands := Stands
  Repeats _ := False
  get := get

/-- A field that holds a record: its text is a map that is laid over `start`. -/
def record (name : String) (specs : List (FieldSpec τ)) (start : τ) (get : σ → τ) : FieldSpec σ where
  name := name
  Value := τ
  Stands v c := ∃ ms, IsObject ms v ∧ Fits specs ms ∧ Distinct specs ms ∧ Overlays specs start ms c
  Repeats v := ∃ ms, IsObject ms v ∧ (∀ m ∈ ms, Grammar .value m.2) ∧ RepeatsName specs ms
  get := get

end FieldSpec

/-! ## The order of members -/

section Order

variable {specs : List (FieldSpec σ)} {ms ms' : List Member}

theorem count_known {spec : FieldSpec σ} (hspec : spec ∈ specs) :
    ((known specs ms).map Prod.fst).count spec.name = (ms.map Prod.fst).count spec.name := by
  rw [known, List.count_eq_countP, List.count_eq_countP, List.countP_map, List.countP_map,
    List.countP_filter]
  refine List.countP_congr fun m _ => ?_
  simp only [Function.comp_apply, Bool.and_eq_true, beq_iff_eq, List.any_eq_true, decide_eq_true_eq,
    and_iff_left_iff_imp]
  exact fun hname => ⟨spec, hspec, hname.symm⟩

theorem mem_known {spec : FieldSpec σ} (hspec : spec ∈ specs) {v : List Char} :
    (spec.name, v) ∈ known specs ms ↔ (spec.name, v) ∈ ms := by
  simp only [known, List.mem_filter, List.any_eq_true, decide_eq_true_eq, and_iff_left_iff_imp]
  exact fun _ => ⟨spec, hspec, rfl⟩

/-- Of a name that is there at most once, the text that is found is the one that is there. -/
theorem lookup_eq_some_iff {name : String} (hcount : (ms.map Prod.fst).count name ≤ 1)
    {v : List Char} : ms.lookup name = some v ↔ (name, v) ∈ ms := by
  induction ms with
  | nil => simp
  | cons m ms ih =>
      obtain ⟨other, w⟩ := m
      by_cases hname : name = other
      · subst hname
        have hnot : name ∉ ms.map Prod.fst := List.count_eq_zero.1 (by simpa using hcount)
        have hmem : (name, v) ∉ ms := fun h => hnot (List.mem_map_of_mem h)
        simp [hmem, eq_comm]
      · rw [List.lookup_cons, beq_false_of_ne hname]
        simpa [hname] using ih (by simpa [List.count_cons, Ne.symm hname] using hcount)

theorem Distinct.of_perm (h : Distinct specs ms) (hperm : (known specs ms).Perm (known specs ms')) :
    Distinct specs ms' := by
  intro spec hspec
  rw [← count_known hspec, ← (hperm.map Prod.fst).count_eq, count_known hspec]
  exact h spec hspec

/-- What members lay over a record depends neither on their order nor on those that are no fields.
-/
theorem Overlays.of_perm (hdistinct : Distinct specs ms) {s c : σ} (h : Overlays specs s ms c)
    (hperm : (known specs ms).Perm (known specs ms')) : Overlays specs s ms' c := by
  intro spec hspec
  have hlookup : ms'.lookup spec.name = ms.lookup spec.name := by
    refine Option.ext fun v => ?_
    rw [lookup_eq_some_iff (hdistinct.of_perm hperm spec hspec),
      lookup_eq_some_iff (hdistinct spec hspec), ← mem_known hspec, ← hperm.mem_iff, mem_known hspec]
  rw [hlookup]
  exact h spec hspec

end Order

/-! ## Forms that implement fields -/

/-- Whether a field is read and set as its description says. -/
structure Implements (specs : List (FieldSpec σ)) (spec : FieldSpec σ) (field : Field σ) : Prop where
  name_eq : field.name = spec.name
  gives : ∀ v a, spec.Stands v a → ∃ set, field.read.Gives v set ∧ ∀ s, spec.get (set s) = a ∧
    ∀ other ∈ specs, other.name ≠ spec.name → other.get (set s) = other.get s
  takesValue : field.read.TakesValue
  refuses : ∀ v set, spec.Repeats v → ¬ field.read.Takes v set

/-- Whether a form reads records as the descriptions of all their fields say. -/
structure Describes (specs : List (FieldSpec σ)) (form : RecordForm σ) : Prop where
  isLenient : form.isLenient = true
  nodup : (specs.map (·.name)).Nodup
  implements : List.Forall₂ (Implements specs) specs form.fields
  ext : ∀ a b, (∀ spec ∈ specs, spec.get a = spec.get b) → a = b

theorem Reader.Takes.of_map {α β : Type} {read : Reader α} {f : α → β} {v : List Char} {b : β}
    (h : (read.map f).Takes v b) : ∃ a, read.Takes v a := by
  obtain ⟨g, rest, left, hg, hrest, hread⟩ := h
  unfold Reader.map at hread
  split at hread
  · rename_i a more ha
    exact ⟨a, g, rest, more, hg, hrest, ha⟩
  · contradiction

/-- A field with a reader of its texts and a way to set it, which changes no other field. -/
theorem implements_of {specs : List (FieldSpec σ)} (spec : FieldSpec σ) {read : Reader spec.Value}
    {set : spec.Value → σ → σ} (hgives : ∀ v a, spec.Stands v a → read.Gives v a)
    (hget : ∀ a s, spec.get (set a s) = a)
    (hframe : ∀ a s, ∀ other ∈ specs, other.name ≠ spec.name → other.get (set a s) = other.get s)
    (htakes : read.TakesValue) (hrefuses : ∀ v a, spec.Repeats v → ¬ read.Takes v a) :
    Implements specs spec (.of spec.name read set) where
  name_eq := rfl
  gives v a h := ⟨set a, (hgives v a h).map set, fun s => ⟨hget a s, hframe a s⟩⟩
  takesValue := htakes.map set
  refuses v _ hrepeats h := by
    obtain ⟨a, ha⟩ := h.of_map
    exact hrefuses v a hrepeats ha

section Scalar

variable {specs : List (FieldSpec σ)} {name : String}

theorem implements_natural {word : String} {bound : Nat} {get : σ → Nat} {set : Nat → σ → σ}
    (hbound : bound ≤ Number.significandBound) (hget : ∀ a s, get (set a s) = a)
    (hframe : ∀ a s, ∀ other ∈ specs, other.name ≠ name → other.get (set a s) = other.get s) :
    Implements specs (.of name (IsNatural bound) get) (.of name (.natural word bound) set) :=
  implements_of (.of name (IsNatural bound) get) (fun _ _ h => Reader.gives_natural h hbound word) hget
    hframe (Reader.takesValue_natural word bound) fun _ _ h => h.elim

theorem implements_float {get : σ → Float} {set : Float → σ → σ} (hget : ∀ a s, get (set a s) = a)
    (hframe : ∀ a s, ∀ other ∈ specs, other.name ≠ name → other.get (set a s) = other.get s) :
    Implements specs (.of name IsFloat get) (.of name .float set) :=
  implements_of (.of name IsFloat get) (fun _ _ h => Reader.gives_float h) hget hframe
    Reader.takesValue_float fun _ _ h => h.elim

theorem implements_boolean {get : σ → Bool} {set : Bool → σ → σ} (hget : ∀ a s, get (set a s) = a)
    (hframe : ∀ a s, ∀ other ∈ specs, other.name ≠ name → other.get (set a s) = other.get s) :
    Implements specs (.of name IsBoolean get) (.of name .boolean set) :=
  implements_of (.of name IsBoolean get) (fun _ _ h => Reader.gives_boolean h) hget hframe
    Reader.takesValue_boolean fun _ _ h => h.elim

/-- A field whose texts are the names of a choice. -/
theorem implements_variant {α : Type} {text : α → String} {choices : List (String × α)}
    {get : σ → α} {set : α → σ → σ} (hchoices : ∀ a, choices.lookup (text a) = some a)
    (hget : ∀ a s, get (set a s) = a)
    (hframe : ∀ a s, ∀ other ∈ specs, other.name ≠ name → other.get (set a s) = other.get s) :
    Implements specs (.of name (fun v a => IsName (text a) v) get)
      (.of name (.variant choices) set) :=
  implements_of (.of name (fun v a => IsName (text a) v) get)
    (fun _ a h => Reader.gives_variant (hchoices a) h) hget hframe
    (Reader.takesValue_variant choices) fun _ _ h => h.elim

end Scalar

namespace Describes

variable {specs : List (FieldSpec σ)} {form : RecordForm σ}

theorem find?_of_forall₂ {specs' : List (FieldSpec σ)} {fields : List (Field σ)}
    (h : List.Forall₂ (Implements specs) specs' fields) (name : String) :
    (specs'.find? (·.name = name) = none ∧ fields.find? (·.name = name) = none) ∨
      ∃ spec field, specs'.find? (·.name = name) = some spec ∧
        fields.find? (·.name = name) = some field ∧ Implements specs spec field := by
  induction h with
  | nil => exact .inl ⟨rfl, rfl⟩
  | @cons spec field specs' fields himpl _ ih =>
      by_cases hname : spec.name = name
      · exact .inr ⟨spec, field, by simp [hname], by simp [himpl.name_eq, hname], himpl⟩
      · simpa [hname, himpl.name_eq] using ih

/-- A name is that of a description and of its field, or of neither. -/
theorem find? (h : Describes specs form) (name : String) :
    (specs.find? (·.name = name) = none ∧ form.fields.find? (·.name = name) = none) ∨
      ∃ spec field, specs.find? (·.name = name) = some spec ∧
        form.fields.find? (·.name = name) = some field ∧ Implements specs spec field :=
  find?_of_forall₂ h.implements name

theorem eq_of_name_eq (h : Describes specs form) {spec other : FieldSpec σ} (hspec : spec ∈ specs)
    (hother : other ∈ specs) (hname : other.name = spec.name) : other = spec :=
  List.inj_on_of_nodup_map h.nodup hother hspec hname

theorem find?_name (h : Describes specs form) {spec : FieldSpec σ} (hspec : spec ∈ specs) :
    specs.find? (·.name = spec.name) = some spec := find?_of_nodup_map h.nodup hspec

theorem field_of_mem (h : Describes specs form) {spec : FieldSpec σ} (hspec : spec ∈ specs) :
    ∃ field, form.fields.find? (·.name = spec.name) = some field ∧ Implements specs spec field := by
  rcases h.find? spec.name with ⟨hnone, -⟩ | ⟨spec', field, hfind, hfield, himpl⟩
  · simp [h.find?_name hspec] at hnone
  · obtain rfl : spec = spec' := by simpa [h.find?_name hspec] using hfind
    exact ⟨field, hfield, himpl⟩

theorem takesValue (h : Describes specs form) : ∀ f ∈ form.fields, f.read.TakesValue := by
  have hall : ∀ {specs' fields}, List.Forall₂ (Implements specs) specs' fields →
      ∀ f ∈ fields, f.read.TakesValue := by
    intro specs' fields h
    induction h with
    | nil => simp
    | cons himpl _ ih => exact List.forall_mem_cons.2 ⟨himpl.takesValue, ih⟩
  exact hall h.implements

/-- A text of a field stands for one value. -/
theorem stands_unique (h : Describes specs form) {spec : FieldSpec σ} (hspec : spec ∈ specs) (s : σ)
    {v : List Char} {a b : spec.Value} (ha : spec.Stands v a) (hb : spec.Stands v b) : a = b := by
  obtain ⟨field, -, himpl⟩ := h.field_of_mem hspec
  -- one reader gives both values from the one text
  obtain ⟨set, hset, hget⟩ := himpl.gives v a ha
  obtain ⟨set', hset', hget'⟩ := himpl.gives v b hb
  obtain rfl := hset.unique hset'
  exact (hget s).1.symm.trans (hget' s).1

/-- Members lay one record over the start. -/
theorem overlays_unique (h : Describes specs form) {ms : List Member} {s c c' : σ}
    (hc : Overlays specs s ms c) (hc' : Overlays specs s ms c') : c = c' := by
  refine h.ext c c' fun spec hspec => ?_
  have hleft := hc spec hspec
  have hright := hc' spec hspec
  cases hlookup : ms.lookup spec.name with
  | none =>
      rw [hlookup] at hleft hright
      exact hleft.trans hright.symm
  | some v =>
      rw [hlookup] at hleft hright
      exact h.stands_unique hspec s hleft hright

/-- What members lay over a record depends only on what they say of its fields. -/
theorem overlays_of_saysSame (h : Describes specs form) {ms ms' : List Member} {s c : σ}
    (hsame : SaysSame specs ms ms') (hc : Overlays specs s ms c) : Overlays specs s ms' c := by
  intro spec hspec
  have hboth := hsame spec hspec
  have hover := hc spec hspec
  cases hv : ms.lookup spec.name with
  | none =>
      cases hv' : ms'.lookup spec.name with
      | none => simpa only [hv] using hover
      | some v' => simp [hv, hv'] at hboth
  | some v =>
      cases hv' : ms'.lookup spec.name with
      | none => simp [hv, hv'] at hboth
      | some v' =>
          rw [hv, hv'] at hboth
          rw [hv] at hover
          obtain ⟨a, ha, ha'⟩ := hboth
          rwa [h.stands_unique hspec s hover ha]

/-! ## Members that fit -/

/-- What lies over a record in which one field was set lies, with that member, over the record
before. -/
theorem overlays_cons (h : Describes specs form) {spec : FieldSpec σ} (hspec : spec ∈ specs)
    {ms : List Member} {v : List Char} {s s' c : σ} (hcount : (ms.map Prod.fst).count spec.name = 0)
    (hstands : spec.Stands v (spec.get s'))
    (hframe : ∀ other ∈ specs, other.name ≠ spec.name → other.get s' = other.get s)
    (hc : Overlays specs s' ms c) : Overlays specs s ((spec.name, v) :: ms) c := by
  intro other hother
  have hover := hc other hother
  by_cases hname : other.name = spec.name
  · obtain rfl := h.eq_of_name_eq hspec hother hname
    -- the field is not set again, so it keeps what it was set to
    have hnot := List.count_eq_zero.1 hcount
    have hlookup : ms.lookup other.name = none := by
      refine List.lookup_eq_none_iff.2 fun m hm => bne_iff_ne.2 fun heq => hnot ?_
      exact heq ▸ List.mem_map_of_mem hm
    rw [hlookup] at hover
    simp only at hover
    rw [List.lookup_cons_self]
    simpa only [hover] using hstands
  · rw [List.lookup_cons, beq_false_of_ne hname]
    cases hlookup : ms.lookup other.name with
    | some v => simpa only [hlookup] using hover
    | none =>
        rw [hlookup] at hover
        exact hover.trans (hframe other hother hname)

theorem fills_of_fits (h : Describes specs form) {ms : List Member} (hfits : Fits specs ms) {s : σ}
    {seen : List String}
    (hdistinct : ∀ spec ∈ specs, seen.count spec.name + (ms.map Prod.fst).count spec.name ≤ 1) :
    ∃ c, form.Fills Reader.Gives s seen ms c ∧ Overlays specs s ms c := by
  -- over the members; a name was seen or is still to come, at most once in all
  induction ms generalizing s seen with
  | nil => exact ⟨s, .nil, fun _ _ => rfl⟩
  | cons m ms ih =>
      obtain ⟨name, v⟩ := m
      obtain ⟨hfit, hmore⟩ := List.forall_mem_cons.1 hfits
      rcases h.find? name with ⟨hnone, hfield⟩ | ⟨spec, field, hfind, hfield, himpl⟩
      · simp only [hnone] at hfit
        have hname : ∀ spec ∈ specs, spec.name ≠ name := by simpa using hnone
        obtain ⟨c, hfills, hc⟩ := @ih hmore s seen fun spec hspec => by
          simpa [(hname spec hspec).symm] using hdistinct spec hspec
        refine ⟨c, .unknown hfield hfit hfills, fun spec hspec => ?_⟩
        rw [List.lookup_cons, beq_false_of_ne (hname spec hspec)]
        exact hc spec hspec
      · simp only [hfind] at hfit
        obtain rfl : spec.name = name := by simpa using List.find?_some hfind
        have hspec := List.mem_of_find?_eq_some hfind
        have hcount := hdistinct spec hspec
        simp only [List.map_cons, List.count_cons_self] at hcount
        obtain ⟨a, ha⟩ := hfit
        obtain ⟨set, hgives, hset⟩ := himpl.gives v a ha
        obtain ⟨c, hfills, hc⟩ := @ih hmore (set s) (spec.name :: seen) fun other hother => by
          have := hdistinct other hother
          simp only [List.map_cons, List.count_cons] at this ⊢
          omega
        refine ⟨c, .known hfield (List.count_eq_zero.1 (by omega)) hgives hfills, ?_⟩
        refine h.overlays_cons hspec (by omega) ?_ (hset s).2 hc
        rwa [(hset s).1]

/-- A map of members that fit, none of them twice, is read as the record that it lays over the
start. -/
theorem gives_overlay (h : Describes specs form) {ms : List Member} {v : List Char}
    (hv : IsObject ms v) (hfits : Fits specs ms) (hdistinct : Distinct specs ms) :
    ∃ c, Overlays specs form.start ms c ∧ form.read.Gives v c := by
  have hfills : ∃ c, form.Fills Reader.Gives form.start [] ms c ∧ Overlays specs form.start ms c :=
    h.fills_of_fits hfits fun spec hspec => by simpa using hdistinct spec hspec
  obtain ⟨c, hfills, hc⟩ := hfills
  exact ⟨c, hc, RecordForm.gives_of_fills (RecordForm.covers_of_isLenient h.isLenient _) hv hfills⟩

/-! ## Members with a name twice -/

theorem count_of_fills {reads : Reader (σ → σ) → List Char → (σ → σ) → Prop} {s c : σ}
    {seen : List String} {ms : List Member} (h : form.Fills reads s seen ms c) {name : String}
    {field : Field σ} (hfield : form.fields.find? (·.name = name) = some field)
    (hseen : seen.count name ≤ 1) : seen.count name + (ms.map Prod.fst).count name ≤ 1 := by
  induction h with
  | nil => simpa using hseen
  | @known s c seen other v ms f set hfind hnew hreads h ih =>
      by_cases hname : other = name
      · subst hname
        have hnone := List.count_eq_zero.2 hnew
        have := ih (by simp [hnone])
        simp only [List.count_cons_self, List.map_cons] at this ⊢
        omega
      · have := ih (by simpa [List.count_cons, hname] using hseen)
        simpa [List.count_cons, hname] using this
  | @unknown s c seen other v ms hfind hv h ih =>
      have hname : other ≠ name := by
        rintro rfl
        simp [hfind] at hfield
      simpa [List.count_cons, hname] using ih hseen

theorem reads_of_fills {reads : Reader (σ → σ) → List Char → (σ → σ) → Prop} {s c : σ}
    {seen : List String} {ms : List Member} (h : form.Fills reads s seen ms c) {name : String}
    {v : List Char} (hmem : (name, v) ∈ ms) {field : Field σ}
    (hfield : form.fields.find? (·.name = name) = some field) : ∃ set, reads field.read v set := by
  induction h with
  | nil => contradiction
  | known hfind hnew hreads h ih =>
      rcases List.mem_cons.1 hmem with heq | hmem
      · obtain ⟨rfl, rfl⟩ := Prod.mk.inj heq
        obtain rfl : field = _ := by simpa [hfind] using hfield.symm
        exact ⟨_, hreads⟩
      · exact ih hmem
  | unknown hfind hv h ih =>
      rcases List.mem_cons.1 hmem with heq | hmem
      · obtain ⟨rfl, rfl⟩ := Prod.mk.inj heq
        simp [hfind] at hfield
      · exact ih hmem

/-- Nothing is read from a map in which the name of a field is there twice. -/
theorem not_takes (h : Describes specs form) {ms : List Member} {v : List Char}
    (hv : IsObject ms v) (hvalues : ∀ m ∈ ms, Grammar .value m.2) (hrepeats : RepeatsName specs ms)
    (c : σ) : ¬ form.read.Takes v c := by
  intro htakes
  have hfills := RecordForm.fills_of_takes h.takesValue hv hvalues htakes
  obtain ⟨spec, hspec, hrepeats⟩ := hrepeats
  obtain ⟨field, hfield, himpl⟩ := h.field_of_mem hspec
  rcases hrepeats with hcount | ⟨v, hmem, hwithin⟩
  · have := count_of_fills hfills hfield (by simp)
    simp only [List.count_nil] at this
    omega
  · obtain ⟨set, hset⟩ := reads_of_fills hfills hmem hfield
    exact himpl.refuses v set hwithin hset

/-! ## Whole documents -/

variable {ms : List Member} {text : String}

theorem stops_of_gaps {g : List Char} (hg : Gaps g) : Stops g := by
  simpa using stops_append hg stops_nil

/-- A document of members that fit, none of them twice, is read as the record that it lays over the
start. -/
theorem readAll_overlay (h : Describes specs form) (hms : IsDocument ms text) (hfits : Fits specs ms)
    (hdistinct : Distinct specs ms) :
    ∃ c, Overlays specs form.start ms c ∧ Reader.readAll form.read text = .ok c := by
  obtain ⟨g, v, g', hg, hg', hv, htext⟩ := hms
  obtain ⟨c, hc, hgives⟩ := h.gives_overlay hv hfits hdistinct
  refine ⟨c, hc, ?_⟩
  rw [Reader.readAll, htext, hgives g g' hg (stops_of_gaps hg')]
  simp [dropGaps_eq_nil hg']

/-- A document with a name twice is refused. -/
theorem readAll_repeats (h : Describes specs form) (hms : IsDocument ms text)
    (hvalues : ∀ m ∈ ms, Grammar .value m.2) (hrepeats : RepeatsName specs ms) :
    ∃ flaw, Reader.readAll form.read text = .error flaw := by
  obtain ⟨g, v, g', hg, hg', hv, htext⟩ := hms
  cases hread : form.read (g ++ v ++ g') with
  | error flaw => exact ⟨flaw, by rw [Reader.readAll, htext, hread]⟩
  | ok read =>
      obtain ⟨c, left⟩ := read
      exact absurd ⟨g, g', left, hg, stops_of_gaps hg', hread⟩ (h.not_takes hv hvalues hrepeats c)

end Describes

/-- A field that holds a record, with the form of the record as its reader. -/
theorem implements_record {specs : List (FieldSpec σ)} {inner : List (FieldSpec τ)}
    {form : RecordForm τ} (h : Describes inner form) {name : String} {get : σ → τ}
    {set : τ → σ → σ} (hget : ∀ a s, get (set a s) = a)
    (hframe : ∀ a s, ∀ other ∈ specs, other.name ≠ name → other.get (set a s) = other.get s) :
    Implements specs (.record name inner form.start get) (.of name form.read set) := by
  refine implements_of (.record name inner form.start get) ?_ hget hframe ?_ ?_
  · rintro v c ⟨ms, hv, hfits, hdistinct, hc⟩
    obtain ⟨c', hc', hgives⟩ := h.gives_overlay hv hfits hdistinct
    rwa [h.overlays_unique hc hc']
  · exact RecordForm.takesValue_read h.takesValue
  · rintro v c ⟨ms, hv, hvalues, hrepeats⟩
    exact h.not_takes hv hvalues hrepeats c

end Dispatch.Json
