import Dispatch.Proofs.Config.Environment
import Mathlib.Data.List.Nodup
/-!
# White space around the texts of variables

Two environments whose texts differ by white space at their ends only. Numbers are read alike in both.
A switch and the name of the strategy are compared with words as they stand, so that white space around
a word makes it none: the switch is off, and the name is not known. The main statement of this module
says that the environments have the same effect exactly if no variable to which the application comes
is set to one of its words in one of them and to the word between white space in the other one.
-/

namespace Dispatch

/-! ## White space and small letters -/

namespace Text

variable {c : Char} {text : List Char}

/-- White space has no small letters. -/
theorem lower_blankRanges : ∀ range ∈ blankRanges,
    ∀ n ∈ List.range' range.1 (range.2 + 1 - range.1),
      (Char.ofNat n).toLower = Char.ofNat n ∧ lowerChar (Char.ofNat n) = Char.ofNat n ∧
        Char.ofNat n ≠ 'İ' ∧ Char.ofNat n ≠ 'Σ' := by
  decide +kernel

theorem lower_of_isBlank (h : isBlank c = true) :
    c.toLower = c ∧ lowerChar c = c ∧ c ≠ 'İ' ∧ c ≠ 'Σ' := by
  simp only [isBlank, List.any_eq_true, Bool.and_eq_true, decide_eq_true_eq] at h
  obtain ⟨range, hrange, hfirst, hlast⟩ := h
  have hn : c.toNat ∈ List.range' range.1 (range.2 + 1 - range.1) := by
    rw [List.mem_range'_1]
    omega
  simpa using lower_blankRanges range hrange c.toNat hn

/-- White space is still there in the lower case of a text. -/
theorem mem_lowerFrom (before : Bool) (h : isBlank c = true) (hc : c ∈ text) :
    c ∈ lowerFrom before text := by
  induction text generalizing before with
  | nil => contradiction
  | cons d text ih =>
      rw [lowerFrom, List.mem_append]
      rcases List.mem_cons.1 hc with rfl | hc
      · obtain ⟨-, hsmall, hdotted, hsigma⟩ := lower_of_isBlank h
        exact .inl (by simp [hdotted, hsigma, hsmall])
      · exact .inr (ih _ hc)

theorem trimBlank_eq_self (h : ∀ c ∈ text, isBlank c = false) : trimBlank text = text := by
  have hdrop : ∀ {t : List Char}, (∀ c ∈ t, isBlank c = false) → t.dropWhile isBlank = t := by
    intro t ht
    cases t with
    | nil => rfl
    | cons c t => simp [ht c List.mem_cons_self]
  rw [trimBlank, hdrop h, hdrop (by simpa using h), List.reverse_reverse]

end Text

/-! ## Words of variables -/

namespace Variable

/-- Whether a text is one of the words that a variable is compared with, in any case of its letters. A
variable that is read as a number has no words. -/
def IsWord (text : String) : Variable → Prop
  | workStealing | adaptive => text.toLower = "true" ∨ text = "1"
  | initialStrategy => Text.lower text = "locked" ∨ Text.lower text = "sharded"
  | _ => False

theorem isBlank_letters : ∀ word ∈ ["true", "1", "locked", "sharded"],
    ∀ c ∈ word.toList, Text.isBlank c = false := by
  have hall : ∀ word ∈ ["true", "1", "locked", "sharded"],
      word.toList.all (!Text.isBlank ·) = true := by decide
  intro word hword c hc
  simpa using List.all_eq_true.1 (hall word hword) c hc

/-- There is no white space in a word. -/
theorem IsWord.isBlank_eq {v : Variable} {text : String} (h : v.IsWord text) :
    ∀ c ∈ text.toList, Text.isBlank c = false := by
  have hswitch : text.toLower = "true" ∨ text = "1" →
      ∀ c ∈ text.toList, Text.isBlank c = false := by
    rintro (hword | rfl) c hc
    · by_contra hblank
      rw [Bool.not_eq_false] at hblank
      have hmem : c.toLower ∈ text.toLower.toList := by
        rw [show text.toLower = text.map Char.toLower from rfl, String.toList_map]
        exact List.mem_map_of_mem hc
      rw [hword, (Text.lower_of_isBlank hblank).1] at hmem
      simp [isBlank_letters "true" (by simp) c hmem] at hblank
    · exact isBlank_letters "1" (by simp) c hc
  have hstrategy : ∀ word ∈ ["true", "1", "locked", "sharded"], Text.lower text = word →
      ∀ c ∈ text.toList, Text.isBlank c = false := by
    intro word hword hlower c hc
    by_contra hblank
    rw [Bool.not_eq_false] at hblank
    have hmem : c ∈ (Text.lower text).toList := by
      rw [Text.lower, String.toList_ofList]
      exact Text.mem_lowerFrom false hblank hc
    rw [hlower] at hmem
    simp [isBlank_letters word hword c hmem] at hblank
  cases v
  case workStealing => exact hswitch h
  case adaptive => exact hswitch h
  case initialStrategy => exact h.elim (hstrategy _ (by simp)) (hstrategy _ (by simp))
  all_goals exact h.elim

end Variable

/-! ## Two texts -/

/-- Whether two texts are the same but for white space at their ends. -/
def SameButBlanks (text text' : String) : Prop :=
  Text.trimBlank text.toList = Text.trimBlank text'.toList

instance (text text' : String) : Decidable (SameButBlanks text text') :=
  inferInstanceAs (Decidable (_ = _))

theorem SameButBlanks.symm {text text' : String} (h : SameButBlanks text text') :
    SameButBlanks text' text := Eq.symm h

namespace Variable

variable {v : Variable} {text text' : String} {c c' : EngineConfig}

/-- Two words that differ by white space only are one. -/
theorem IsWord.eq_of_sameButBlanks (h : v.IsWord text) (h' : v.IsWord text')
    (hsame : SameButBlanks text text') : text = text' := by
  rw [SameButBlanks, Text.trimBlank_eq_self h.isBlank_eq, Text.trimBlank_eq_self h'.isBlank_eq] at hsame
  exact String.toList_inj.1 hsame

theorem isNumeral_congr {bound n : Nat} (h : SameButBlanks text text') :
    IsNumeral bound text n ↔ IsNumeral bound text' n := by
  rw [IsNumeral, IsNumeral, h]

theorem isNumeral_unique {bound n n' : Nat} (hbound : 0 < bound) (h : IsNumeral bound text n)
    (h' : IsNumeral bound text n') : n = n' := by
  rw [← readNatural_eq_ok_iff hbound] at h h'
  exact Except.ok.inj (h.symm.trans h')

/-- A text can be read exactly if the other one can, unless they name strategies. -/
theorem canRead_congr (h : SameButBlanks text text')
    (hword : v = initialStrategy → (v.IsWord text ↔ v.IsWord text')) :
    v.CanRead text ↔ v.CanRead text' := by
  cases v
  case workStealing => exact Iff.rfl
  case adaptive => exact Iff.rfl
  case initialStrategy => exact hword rfl
  case degradedUtilization => rw [CanRead, CanRead, h]
  all_goals exact exists_congr fun n => isNumeral_congr h

/-- Two texts say the same of a setting, unless one of them is a word. -/
theorem Reads.same (h : SameButBlanks text text') (hword : v.IsWord text ↔ v.IsWord text')
    (hc : v.Reads text c) (hc' : v.Reads text' c') : v.Same c c' := by
  have hnumeral : ∀ {bound n n'}, 0 < bound → IsNumeral bound text n → IsNumeral bound text' n' →
      n' = n := fun hbound hn hn' => isNumeral_unique hbound ((isNumeral_congr h).2 hn') hn
  cases v
  case workStealing => exact Bool.eq_iff_iff.2 (hc'.trans (hword.symm.trans hc.symm))
  case adaptive => exact Bool.eq_iff_iff.2 (hc'.trans (hword.symm.trans hc.symm))
  case degradedUtilization =>
    rw [Reads, h] at hc
    exact Except.ok.inj (hc'.symm.trans hc)
  case initialStrategy =>
    have hisWord : initialStrategy.IsWord text := by
      rw [Reads] at hc
      rw [IsWord, hc]
      cases c.initialStrategy
      · exact .inl rfl
      · exact .inr rfl
    obtain rfl := hisWord.eq_of_sameButBlanks (hword.1 hisWord) h
    have htext : c'.initialStrategy.text = c.initialStrategy.text := hc'.symm.trans hc
    show c'.initialStrategy = c.initialStrategy
    revert htext
    cases c'.initialStrategy <;> cases c.initialStrategy <;> decide
  case failureThreshold => exact hnumeral narrowBound_pos hc hc'
  case successThreshold => exact hnumeral narrowBound_pos hc hc'
  all_goals exact hnumeral wideBound_pos hc hc'

/-! ## The application -/

/-- The place of a variable in the order in which they are applied. -/
def place (v : Variable) : Nat := all.idxOf v

/-- Whether the application comes to a variable: the texts of all variables before it can be read. -/
def Reached (env : Environment) (v : Variable) : Prop :=
  ∀ u : Variable, u.place < v.place → ∀ text, env u.name = some text → u.CanRead text

/-- Whether a variable is set to a text to which the application comes and that can be read. -/
def TakesEffect (env : Environment) (text : String) (v : Variable) : Prop :=
  v.Reached env ∧ env v.name = some text ∧ v.CanRead text

theorem place_le (v : Variable) : v.place ≤ initialStrategy.place := by
  cases v <;> decide

theorem place_inj {u : Variable} (h : u.place = v.place) : u = v :=
  (List.idxOf_inj (EngineConfig.mem_all u)).1 h

/-- The variables before one of them are those whose places are. -/
theorem mem_iff_place_lt {earlier later : List Variable} (hall : all = earlier ++ v :: later)
    (u : Variable) : u ∈ earlier ↔ u.place < v.place := by
  have hv : v ∉ earlier := fun hmem =>
    (List.nodup_append.1 (hall ▸ EngineConfig.nodup_all)).2.2 v hmem v List.mem_cons_self rfl
  have hplace : v.place = earlier.length := by
    rw [place, hall, List.idxOf_append_of_notMem hv, List.idxOf_cons_self, Nat.add_zero]
  rw [hplace, place, hall]
  by_cases hu : u ∈ earlier
  · rw [List.idxOf_append_of_mem hu]
    exact iff_of_true hu (List.idxOf_lt_length_of_mem hu)
  · rw [List.idxOf_append_of_notMem hu]
    exact iff_of_false hu (by omega)

end Variable

namespace EngineConfig

open Variable (all)

variable {env env' : Environment} {c c' : EngineConfig}

/-- Variables that take effect do so, and the settings of the others are as before. -/
structure LaidOver (env : Environment) (c c' : EngineConfig) : Prop where
  reads : ∀ v text, Variable.TakesEffect env text v → v.Reads text c'
  same : ∀ v, (∀ text, ¬Variable.TakesEffect env text v) → v.Same c c'
  sameTuning : c.SameTuning c'

theorem applyEnvironment_laidOver (env : Environment) (c : EngineConfig) :
    LaidOver env c (c.applyEnvironment env).1 := by
  rcases Variable.overrideWith_cases env Variable.implements_all nodup_all c with
    ⟨-, happlied⟩ | ⟨bad, -, hstops⟩
  · have hread := fun u : Variable => happlied.reads u (mem_all u)
    refine ⟨fun v text h => (hread v text h.2.1).2, fun v hv => ?_, happlied.sameTuning⟩
    refine happlied.same_of_unset v (mem_all v) (Option.eq_none_iff_forall_ne_some.2 ?_)
    exact fun text htext => hv text
      ⟨fun u _ t ht => (hread u t ht).1, htext, (hread v text htext).1⟩
  · obtain ⟨earlier, bad, later, hall, happlied, ⟨text, htext, hcannot⟩, -⟩ := hstops.exists_split
    have hplace := Variable.mem_iff_place_lt hall
    refine ⟨fun v t h => ?_, fun v hv => ?_, happlied.sameTuning⟩
    · obtain ⟨hreached, ht, hcan⟩ := h
      have hbad : v.place ≤ bad.place :=
        Nat.not_lt.1 fun hlt => hcannot (hreached bad hlt text htext)
      by_cases hmem : v ∈ earlier
      · exact (happlied.reads v hmem t ht).2
      · rw [hplace] at hmem
        obtain rfl := Variable.place_inj (Nat.le_antisymm hbad (Nat.not_lt.1 hmem))
        exact absurd hcan (by rwa [Option.some.inj (ht.symm.trans htext)])
    · by_cases hmem : v ∈ earlier
      · refine happlied.same_of_unset v hmem (Option.eq_none_iff_forall_ne_some.2 fun t ht => ?_)
        refine hv t ⟨fun u hu t' ht' => ?_, ht, (happlied.reads v hmem t ht).1⟩
        exact (happlied.reads u ((hplace u).2 (Nat.lt_trans hu ((hplace v).1 hmem))) t' ht').1
      · exact happlied.same_of_not_mem v hmem

theorem applyEnvironment_eq_none_iff (env : Environment) (c : EngineConfig) :
    (c.applyEnvironment env).2 = none ↔
      ∀ v : Variable, ∀ text, env v.name = some text → v.CanRead text := by
  rcases Variable.overrideWith_cases env Variable.implements_all nodup_all c with
    ⟨hnone, happlied⟩ | ⟨bad, hbad, hstops⟩
  · exact iff_of_true hnone fun v text htext => (happlied.reads v (mem_all v) text htext).1
  · obtain ⟨-, v, -, -, -, ⟨text, htext, hcannot⟩, -⟩ := hstops.exists_split
    refine iff_of_false (fun hnone => ?_) fun h => hcannot (h v text htext)
    cases hnone.symm.trans hbad

/-- When the application comes to the name of the strategy, all is well exactly if that can be read. -/
theorem applyEnvironment_eq_none_iff_canRead {text : String}
    (hreached : Variable.initialStrategy.Reached env)
    (htext : env Variable.initialStrategy.name = some text) :
    (c.applyEnvironment env).2 = none ↔ Variable.initialStrategy.CanRead text := by
  rw [applyEnvironment_eq_none_iff]
  refine ⟨fun h => h _ text htext, fun hcan v t ht => ?_⟩
  rcases Nat.lt_or_ge v.place Variable.initialStrategy.place with hlt | hge
  · exact hreached v hlt t ht
  · obtain rfl := Variable.place_inj (Nat.le_antisymm v.place_le hge)
    rwa [Option.some.inj (ht.symm.trans htext)]

/-- Each setting has a variable, or is one of those without. -/
theorem eq_of_same (h : ∀ v : Variable, v.Same c c') (htuning : c.SameTuning c') : c' = c := by
  obtain ⟨hinterval, hhigh, hlow, hthroughput, hwindows, hlen⟩ := htuning
  rcases c with ⟨_, _, _, _, _, _, _, _, ⟨_, _, _⟩, ⟨_, _, _, _, _, _, _⟩⟩
  rcases c' with ⟨_, _, _, _, _, _, _, _, ⟨_, _, _⟩, ⟨_, _, _, _, _, _, _⟩⟩
  rw [EngineConfig.mk.injEq, BreakerConfig.mk.injEq, AdaptiveConfig.mk.injEq]
  exact ⟨h .workerCount, h .maxQueueCapacity, h .threadStackSize, h .workStealing,
    h .initialStrategy, h .latencySampleCapacity, h .degradedUtilization, h .schedulerTick,
    ⟨h .failureThreshold, h .successThreshold, h .resetTimeout⟩,
    ⟨h .adaptive, hinterval, hhigh, hlow, hthroughput, hwindows, hlen⟩⟩

end EngineConfig

/-! ## Two environments -/

/-- Whether two environments set the same variables, to texts that are the same but for white space at
their ends. -/
def Environment.SameButBlanks (env env' : Environment) : Prop :=
  ∀ v : Variable, Option.Rel Dispatch.SameButBlanks (env v.name) (env' v.name)

/-- Whether two environments have the same effect on settings: they make the same of them, and if all
texts can be read in one, then in the other one too. -/
def EngineConfig.SameEffect (env env' : Environment) (c : EngineConfig) : Prop :=
  (c.applyEnvironment env).1 = (c.applyEnvironment env').1 ∧
    ((c.applyEnvironment env).2 = none ↔ (c.applyEnvironment env').2 = none)

/-- Whether the texts of a variable in two environments are one if it is a word in one of them. -/
def Variable.WordsKept (env env' : Environment) (v : Variable) : Prop :=
  ∀ text text', env v.name = some text → env' v.name = some text' →
    v.IsWord text ∨ v.IsWord text' → text = text'

/-- Whether the words of all variables to which the application comes are kept. -/
def Environment.WordsKept (env env' : Environment) : Prop :=
  ∀ v : Variable, v.Reached env → v.WordsKept env env'

variable {env env' : Environment} {c : EngineConfig} {v : Variable} {text text' : String}

/-- If words are kept, then a text is a word exactly if the other one is. -/
theorem Environment.WordsKept.isWord_congr (h : env.WordsKept env') (hv : v.Reached env)
    (ht : env v.name = some text) (ht' : env' v.name = some text') :
    v.IsWord text ↔ v.IsWord text' := by
  have heq := h v hv text text' ht ht'
  exact ⟨fun hword => heq (.inl hword) ▸ hword, fun hword => heq (.inr hword) ▸ hword⟩

namespace Environment.SameButBlanks

theorem symm (h : env.SameButBlanks env') : env'.SameButBlanks env := fun v => by
  have hrel := h v
  generalize env v.name = t, env' v.name = t' at hrel ⊢
  cases hrel with
  | some hrel => exact .some hrel.symm
  | none => exact .none

theorem exists_text (h : env.SameButBlanks env') (htext : env v.name = some text) :
    ∃ text', env' v.name = some text' ∧ Dispatch.SameButBlanks text text' := by
  have hrel := h v
  rw [htext] at hrel
  generalize env' v.name = t' at hrel ⊢
  cases hrel with
  | some hrel => exact ⟨_, rfl, hrel⟩

/-- The application comes to the same variables: only the last one may be read in one environment and
not in the other one. -/
theorem reached (h : env.SameButBlanks env') (hv : v.Reached env) : v.Reached env' := by
  intro u hu text' htext'
  obtain ⟨text, htext, hrel⟩ := h.symm.exists_text htext'
  refine (Variable.canRead_congr hrel fun hlast => ?_).2 (hv u hu text htext)
  exact absurd v.place_le (Nat.not_le.2 (hlast ▸ hu))

variable (h : env.SameButBlanks env')
include h

theorem wordsKept_symm (hkept : env.WordsKept env') : env'.WordsKept env :=
  fun v hv text text' ht ht' hword => (hkept v (h.symm.reached hv) text' text ht' ht hword.symm).symm

theorem takesEffect (hkept : env.WordsKept env') (hv : v.TakesEffect env text) :
    ∃ text', v.TakesEffect env' text' ∧ Dispatch.SameButBlanks text text' ∧
      (v.IsWord text ↔ v.IsWord text') := by
  obtain ⟨hreached, ht, hcan⟩ := hv
  obtain ⟨text', ht', hrel⟩ := h.exists_text ht
  have hword := hkept.isWord_congr hreached ht ht'
  exact ⟨text', ⟨h.reached hreached, ht', (Variable.canRead_congr hrel fun _ => hword).1 hcan⟩,
    hrel, hword⟩

/-- If words are kept, the settings become the same. -/
theorem applyEnvironment_eq (hkept : env.WordsKept env') (c : EngineConfig) :
    (c.applyEnvironment env).1 = (c.applyEnvironment env').1 := by
  have hlaid := EngineConfig.applyEnvironment_laidOver env c
  have hlaid' := EngineConfig.applyEnvironment_laidOver env' c
  refine (EngineConfig.eq_of_same (fun v => ?_) (hlaid.sameTuning.symm.trans hlaid'.sameTuning)).symm
  by_cases hv : ∃ text, v.TakesEffect env text
  · obtain ⟨text, hv⟩ := hv
    obtain ⟨text', hv', hrel, hword⟩ := h.takesEffect hkept hv
    exact Variable.Reads.same hrel hword (hlaid.reads v text hv) (hlaid'.reads v text' hv')
  · have hv' : ∀ text', ¬v.TakesEffect env' text' := fun text' hv' =>
      have ⟨text, heffect, _⟩ := h.symm.takesEffect (h.wordsKept_symm hkept) hv'
      hv ⟨text, heffect⟩
    exact (hlaid.same v (not_exists.1 hv)).symm.trans (hlaid'.same v hv')

/-- If words are kept and all texts can be read, then those of the other environment too. -/
theorem applyEnvironment_eq_none (hkept : env.WordsKept env')
    (hnone : (c.applyEnvironment env).2 = none) : (c.applyEnvironment env').2 = none := by
  rw [EngineConfig.applyEnvironment_eq_none_iff] at hnone ⊢
  intro v text' ht'
  obtain ⟨text, ht, hrel⟩ := h.symm.exists_text ht'
  refine (Variable.canRead_congr hrel fun _ => ?_).2 (hnone v text ht)
  exact (hkept.isWord_congr (fun u _ => hnone u) ht ht').symm

end Environment.SameButBlanks

namespace EngineConfig

/-- A switch to which the application comes tells by its setting whether its text is a word, and the name
of the strategy by whether all is well. -/
theorem SameEffect.isWord_congr (h : SameEffect env env' c) (hv : v.Reached env)
    (hv' : v.Reached env') (ht : env v.name = some text) (ht' : env' v.name = some text') :
    v.IsWord text ↔ v.IsWord text' := by
  have hreads := (applyEnvironment_laidOver env c).reads v text
  have hreads' := (applyEnvironment_laidOver env' c).reads v text'
  rw [← h.1] at hreads'
  cases v
  case workStealing => exact (hreads ⟨hv, ht, trivial⟩).symm.trans (hreads' ⟨hv', ht', trivial⟩)
  case adaptive => exact (hreads ⟨hv, ht, trivial⟩).symm.trans (hreads' ⟨hv', ht', trivial⟩)
  case initialStrategy =>
    exact (applyEnvironment_eq_none_iff_canRead hv ht).symm.trans
      (h.2.trans (applyEnvironment_eq_none_iff_canRead hv' ht'))
  all_goals exact Iff.rfl

/-- Environments that differ by white space around texts have the same effect, on any settings, exactly
if no variable to which the application comes is set to a word in one of them and to another text in the
other one. White space around a number never matters. -/
theorem applyEnvironment_sameButBlanks (h : env.SameButBlanks env') (c : EngineConfig) :
    SameEffect env env' c ↔ env.WordsKept env' := by
  refine ⟨fun hsame v hv text text' ht ht' hword => ?_, fun hkept => ?_⟩
  · obtain ⟨t', ht'', hrel⟩ := h.exists_text ht
    obtain rfl := Option.some.inj (ht'.symm.trans ht'')
    have hiff := hsame.isWord_congr hv (h.reached hv) ht ht'
    rcases hword with hword | hword
    · exact hword.eq_of_sameButBlanks (hiff.1 hword) hrel
    · exact (hiff.2 hword).eq_of_sameButBlanks hword hrel
  · exact ⟨h.applyEnvironment_eq hkept c, h.applyEnvironment_eq_none hkept,
      h.symm.applyEnvironment_eq_none (h.wordsKept_symm hkept)⟩

end EngineConfig

/-- The environment in which a single variable is set. -/
def Environment.single (v : Variable) (text : String) : Environment :=
  fun name => if name = v.name then some text else none

theorem Environment.sameButBlanks_single (v : Variable) (h : Dispatch.SameButBlanks text text') :
    (single v text).SameButBlanks (single v text') := fun u => by
  unfold single
  split
  · exact .some h
  · exact .none

namespace EngineConfig

open Environment (single)

theorem spacedCount_sameEffect :
    Environment.SameButBlanks (single .workerCount " 4\n") (single .workerCount "4") ∧
      SameEffect (single .workerCount " 4\n") (single .workerCount "4") {} :=
  have hsame := Environment.sameButBlanks_single .workerCount (by decide)
  ⟨hsame, (applyEnvironment_sameButBlanks hsame {}).2 fun v _ _ _ htext _ hword => by
    cases v
    case workerCount => exact absurd hword (by simp [Variable.IsWord])
    all_goals contradiction⟩

/-- White space before its word leaves a switch off, and the name of a strategy unknown. -/
theorem spacedWords_differ :
    Environment.SameButBlanks (single .workStealing "true") (single .workStealing " true") ∧
      (applyEnvironment (single .workStealing "true") {}).1.workStealing = true ∧
      (applyEnvironment (single .workStealing " true") {}).1.workStealing = false ∧
      Environment.SameButBlanks (single .initialStrategy "locked")
        (single .initialStrategy " locked") ∧
      (applyEnvironment (single .initialStrategy "locked") {}).2 = none ∧
      (applyEnvironment (single .initialStrategy " locked") {}).2 ≠ none :=
  ⟨Environment.sameButBlanks_single _ (by decide), by decide, by decide,
    Environment.sameButBlanks_single _ (by decide), by decide, by decide⟩

end EngineConfig

end Dispatch
