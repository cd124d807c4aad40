import Dispatch.Proofs.Pool.Alert
/-!
# Quiet crews

When all calls have arrived and no sleeper's time has come, the last sleeper misses nothing, since nobody
is left to see to it. So no worker idles beside work then. A pool at rest, whose waiting workers have all
had a look, is one such state.
-/

namespace Dispatch

variable {α : Type}

namespace Crew

open Pool

variable {lock : List Sleeper → Nat → Prop} {c : Crew α}

/-- All idle workers of a quiet crew sleep. -/
theorem IsQuiet.exists_sleeper (h : c.IsQuiet) {index : Nat} {w : Worker α}
    (hw : c.pool.workers[index]? = some w) (hidle : w.isIdle = true) :
    index ∈ c.sleepers.map Sleeper.index := by
  by_contra hup
  have hquiet := h.isQuiet index w hw hup
  cases w with
  | seeking | waiting => exact hquiet
  | busy run => contradiction
  | stopped => contradiction

theorem IsQuiet.idle_le (h : c.IsQuiet) : c.pool.idle ≤ c.sleepers.length := by
  rw [← List.length_map Sleeper.index]
  exact countP_le_length fun index w hw hidle => h.exists_sleeper hw hidle

/-- Beside an idle worker of a quiet crew, no task is lined up, whomever calls have reached. -/
theorem Alert.linedUp_eq_nil (h : c.Alert lock) (hquiet : c.IsQuiet)
    (hidle : ∃ w ∈ c.pool.workers, w.isIdle = true) : c.pool.queue.strategy.linedUp = [] := by
  by_contra hlined
  have hpos : 0 < c.pool.idle := List.countP_pos_iff.2 hidle
  have hle := hquiet.idle_le
  have hne : c.sleepers ≠ [] := List.length_pos_iff.1 (Nat.lt_of_lt_of_le hpos hle)
  have hlt := h.attended hlined (by simp [hquiet.calls_eq_nil]) hne
  rw [hquiet.calls_eq_nil, List.count_nil] at hlt
  omega

/-- The last sleeper of a quiet crew oversleeps nothing that is announced, since nobody else could see to
it, and all know of the tasks that they are told of. -/
theorem Alert.not_isReady (h : c.Alert lock) (hquiet : c.IsQuiet)
    (hcase : c.pool.queue.kind = .locked → KeepsQueue lock)
    (hshared : c.pool.queue.strategy.isShared = true) (hne : c.sleepers ≠ []) :
    ∀ t ∈ c.pool.queue.tasks, t.isReady c.pool.clock = false := by
  let x := c.sleepers.getLast hne
  have hnot : .all ∉ c.calls := by simp [hquiet.calls_eq_nil]
  have hlast : c.sleepers[c.sleepers.length - 1]? = some x :=
    List.getLast?_eq_getElem?.symm.trans (List.getLast?_eq_some_getLast hne)
  have hbeyond := hquiet.sleepsBeyond x (List.getLast_mem hne)
  have hlt := (h.covers hcase hnot _ x hlast hbeyond).countP_lt hshared
  have hidle := hquiet.idle_le
  have hpos : 0 < c.sleepers.length := List.length_pos_iff.2 hne
  have hbefore := before_last c.pool.queue.kind (c.sleepers.length - 1)
  rw [Nat.sub_add_cancel hpos] at hbefore
  rw [hbefore, hquiet.calls_eq_nil, List.count_nil] at hlt
  have hzero : c.pool.queue.strategy.announced.countP x.oversleeps = 0 := by omega
  have hdeferred := h.told hnot x (List.getLast_mem hne)
  rw [hquiet.inHand_eq, List.drop_zero] at hdeferred
  intro t ht
  apply Sleeper.not_isReady_of_not_oversleeps hbeyond
  rw [TaskQueue.tasks, Strategy.tasks_eq] at ht
  rcases List.mem_append.1 ht with ht | ht
  · simpa using List.countP_eq_zero.1 hzero t ht
  · exact hdeferred t ht

/-- No worker of a quiet crew idles beside work. -/
theorem Alert.noIdle (h : c.Alert lock) (hquiet : c.IsQuiet)
    (hcase : c.pool.queue.kind = .locked → KeepsQueue lock) : c.pool.NoIdle := by
  refine noIdle_of_hasNoneFor h.manned fun index w hw hidle => ?_
  obtain ⟨x, hx, rfl⟩ := List.mem_map.1 (hquiet.exists_sleeper hw hidle)
  obtain ⟨place, hplace, hget⟩ := List.mem_iff_getElem.1 hx
  have hnot : .all ∉ c.calls := by simp [hquiet.calls_eq_nil]
  have hat : c.sleepers[place]? = some x := List.getElem?_eq_some_iff.2 ⟨hplace, hget⟩
  have hbeyond := hquiet.sleepsBeyond x hx
  cases hshared : c.pool.queue.strategy.isShared with
  | true =>
      exact Strategy.hasNoneFor_of_late h.sound.strategy
        (h.not_isReady hquiet hcase hshared (List.ne_nil_of_mem hx)) x.index
  | false =>
      have hspares : c.pool.queue.strategy.Spares x := by
        refine ⟨fun hyes => ?_, fun t ht => h.told hnot x hx t ?_, fun hno => ?_⟩
        · rw [hshared] at hyes
          contradiction
        · rwa [hquiet.inHand_eq, List.drop_zero]
        · exact (h.covers hcase hnot place x hat hbeyond).homeEmpty hno
      exact hspares.hasNoneFor h.sound.strategy (h.calm (List.ne_nil_of_mem hx) hnot) hbeyond

/-- However the workers of an open pool sleep and are called, they stay alert. -/
theorem alert_of_reaches {p : Pool α} (hsound : p.queue.Sound p.clock)
    (hopen : p.queue.closed = false) (hmanned : p.Manned) (hreaches : (up p).Reaches lock c) :
    c.Alert lock := by
  refine hreaches.alert (alert_of_up hsound hmanned fun hclosed => ?_)
  rw [hopen] at hclosed
  contradiction

/-! ## Pools at rest -/

/-- Waiting workers that find no reason to stay up can fall asleep one after the other. -/
theorem reaches_asleep {p : Pool α} (places : List Nat) (sleepers : List Sleeper)
    (hnodup : (sleepers.map Sleeper.index ++ places).Nodup)
    (h : ∀ place ∈ places, p.workers[place]? = some .waiting ∧
      p.queue.strategy.isInterrupted = false ∧
      p.queue.strategy.hasWorkFor place p.clock = false) :
    Reaches lock ⟨p, sleepers, [], 0⟩
      ⟨p, sleepers ++ places.map (⟨·, p.queue.strategy.nextReadyAt⟩), [], 0⟩ := by
  induction places generalizing sleepers with
  | nil =>
      rw [List.map_nil, List.append_nil]
      exact Reaches.refl _
  | cons place rest ih =>
      obtain ⟨hwaiting, hcalm, hwork⟩ := h place List.mem_cons_self
      have hup : IsUp (⟨p, sleepers, [], 0⟩ : Crew α) place := fun hmem =>
        (List.nodup_append.1 hnodup).2.2 _ hmem _ List.mem_cons_self rfl
      have hseen : seen (⟨p, sleepers, [], 0⟩ : Crew α) = p.queue.strategy := Strategy.without_zero _
      have hstep : Step lock ⟨p, sleepers, [], 0⟩ _ :=
        .fallAsleep _ place hup hwaiting hcalm (hseen.symm ▸ hwork)
      rw [hseen] at hstep
      have hrest := ih (sleepers ++ [⟨place, p.queue.strategy.nextReadyAt⟩])
        (by rwa [List.map_append, List.append_assoc])
        fun other hother => h other (List.mem_cons_of_mem _ hother)
      rw [List.append_assoc] at hrest
      exact hstep.reaches.trans hrest

/-- The workers of a pool at rest can fall asleep so that all is quiet. -/
theorem exists_isQuiet (lock : List Sleeper → Nat → Prop) {p : Pool α} (h : p.Rested) :
    ∃ c, (up p).Reaches lock c ∧ c.IsQuiet ∧ c.pool = p := by
  let places := placesOf Worker.isWaiting p.workers
  have hplaces : ∀ index, index ∈ places ↔ p.workers[index]? = some .waiting := by
    refine fun index => mem_placesOf.trans ⟨fun ⟨w, hw, hwaiting⟩ => ?_, fun hw => ⟨_, hw, rfl⟩⟩
    cases w with
    | waiting => exact hw
    | _ => contradiction
  have hready : ∀ index ∈ places, p.workers[index]? = some .waiting ∧
      p.queue.strategy.isInterrupted = false ∧
      p.queue.strategy.hasWorkFor index p.clock = false := by
    intro index hindex
    have hwaiting := (hplaces index).1 hindex
    exact ⟨hwaiting, h.hasWorkFor_eq_false hwaiting⟩
  refine ⟨_, reaches_asleep places [] (nodup_placesOf _ _) hready,
    ⟨rfl, rfl, fun x hx => ?_, fun index w hw hup => ?_⟩, rfl⟩
  · obtain ⟨index, hindex, rfl⟩ := List.mem_map.1 (List.nil_append _ ▸ hx)
    exact Strategy.sleepsBeyond_of_hasWorkFor (hready index hindex).2.2
  · have hstill := h.stillAt index w hw
    cases w with
    | seeking => exact hstill
    | waiting =>
        refine absurd ?_ hup
        simp [hplaces, hw]
    | busy run => exact hstill
    | stopped => trivial

end Crew

end Dispatch
