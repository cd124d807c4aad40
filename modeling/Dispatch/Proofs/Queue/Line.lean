import Dispatch.Proofs.Queue.Stock
/-!
# The line at a single backlog

The ready tasks of a single backlog stand in line by urgency: the higher priority goes first, then the
earlier ready instant, then the smaller number. Each look takes the first one of the line, whoever takes
it. The line depends on what is held and on the instant only, and not on the order in which the tasks came
in, nor on the looks and promotions that were made before.
-/

namespace Dispatch

variable {β : Type} {now later : Instant}

namespace Strategy

variable {line : List (Task β)}

/-- Looks at a single backlog take the tasks at hand from the front of their line. -/
theorem pops_locked {q : Locked β} (hs : q.Sound later) (hle : now ≤ later)
    (hperm : line.Perm ((locked q).atHand now)) (hline : line.Pairwise (·.urgency < ·.urgency))
    (workers : List Nat) : (locked q).pops now workers = line.take workers.length := by
  induction workers generalizing q line with
  | nil => simp [pops]
  | cons worker rest ih =>
      have hrecord := Locked.Sound.record hs 1
      have hfirst : Task.IsFirst ((locked q).atHand now) ((locked q).tryPop worker now).2 :=
        hrecord.isFirst_attempt hle
      have hleft := Sound.atHand_tryPop (s := locked q) hs hle worker
      have hrest : ∀ line' : List (Task β),
          line'.Perm ((locked ((q.record 1).attempt now).1).atHand now) →
          line'.Pairwise (·.urgency < ·.urgency) →
          pops now rest (locked ((q.record 1).attempt now).1) = line'.take rest.length :=
        fun _ => ih (hrecord.attempt hle)
      show ((locked q).tryPop worker now).2.toList ++
        pops now rest (locked ((q.record 1).attempt now).1) = line.take (rest.length + 1)
      cases line with
      | nil =>
          have hnil := List.nil_perm.1 hperm
          rw [hfirst.eq_none_iff.2 hnil] at hleft ⊢
          rw [hnil] at hleft
          simpa using hrest [] hleft List.Pairwise.nil
      | cons t line =>
          obtain ⟨hbefore, hline⟩ := List.pairwise_cons.1 hline
          -- nobody but the first of the line is before all others
          have hfound : ((locked q).tryPop worker now).2 = some t := by
            cases hlook : ((locked q).tryPop worker now).2 with
            | none =>
                rw [hlook] at hfirst
                exact absurd (hfirst ▸ hperm) (List.not_perm_nil_cons t line ∘ List.Perm.symm)
            | some u =>
                rw [hlook] at hfirst
                rcases List.mem_cons.1 (hperm.mem_iff.2 hfirst.1) with rfl | hu
                · rfl
                · have hle := hfirst.2 t (hperm.mem_iff.1 List.mem_cons_self)
                  exact absurd (hbefore u hu) (not_lt.2 hle)
          rw [hfound] at hleft ⊢
          have hshort := (List.perm_cons t).1 (hperm.trans hleft)
          simpa using hrest line hshort hline

theorem exists_locked {s : Strategy β} (h : s.shape = none) : ∃ q, s = locked q := by
  cases s with
  | locked q => exact ⟨q, rfl⟩
  | sharded q => contradiction

/-- The tasks at hand at a single backlog have a line. -/
theorem exists_line {q : Locked β} (hs : q.Sound now)
    (hdistinct : (((locked q).atHand now).map Task.id).Nodup) :
    ∃ line : List (Task β), line.Perm ((locked q).atHand now) ∧
      line.Pairwise (·.urgency < ·.urgency) ∧
        ∀ workers, (locked q).pops now workers = line.take workers.length := by
  have hperm : (q.promote now).ready.Perm ((locked q).atHand now) := by
    have hready := Locked.promote_ready_perm q now
    rw [(Task.takeWhile_isReady hs.delayed_ordered now).1] at hready
    exact hready.trans List.perm_append_comm
  have hline := Task.pairwise_urgency_lt hs.promote.ready_ordered
    ((hperm.map Task.id).nodup_iff.2 hdistinct)
  exact ⟨_, hperm, hline, pops_locked hs (Int.le_refl now) hperm hline⟩

end Strategy

namespace Stock

variable {c : Stock β}

/-- Whether a stock hands the ready tasks out in the order of the line at an instant. -/
structure PopsInLine (now : Instant) (c : Stock β) : Prop where
  /-- A look takes the ready task that goes before all other ready ones. -/
  tryPop_eq_some : ∀ worker t, (c.strategy.tryPop worker now).2 = some t ↔
    t ∈ c.held ∧ t.readyAt ≤ now ∧ ∀ u ∈ c.held, u.readyAt ≤ now → u ≠ t → t.urgency < u.urgency
  /-- It finds nothing exactly if no task is ready. -/
  tryPop_eq_none : ∀ worker,
    (c.strategy.tryPop worker now).2 = none ↔ ∀ t ∈ c.held, now < t.readyAt
  /-- The delayed tasks that can be taken away are those that are not ready. -/
  drainDelayed_perm : (c.strategy.drainDelayed now).2.Perm (c.held.filter (now < ·.readyAt))
  /-- All that can be taken away is all that is held. -/
  drain_perm : c.strategy.drain.2.Perm c.held
  /-- Looks take the ready tasks one after the other, each of them before all that come later. -/
  pops_eq_take : ∃ line : List (Task β), line.Perm (c.held.filter (·.readyAt ≤ now)) ∧
    line.Pairwise (·.urgency < ·.urgency) ∧
      ∀ workers, c.strategy.pops now workers = line.take workers.length

/-- The numbers of the tasks that requests bring along. -/
def pushedIds (requests : List (StockRequest β)) : List Nat :=
  (requests.filterMap StockRequest.pushed?).map Task.id

theorem nodup_added {s : Strategy β} {requests : List (StockRequest β)}
    (hdistinct : (pushedIds requests).Nodup) :
    (((start s now).run requests).added.map Task.id).Nodup := by
  have hadded := (run_added (start s now) requests).map Task.id
  rw [show (start s now).added = [] from rfl, List.append_nil] at hadded
  exact hadded.nodup_iff.2 hdistinct

theorem Sound.popsInLine (hs : c.Sound) (hdistinct : (c.added.map Task.id).Nodup)
    (hlocked : c.strategy.shape = none) (hnow : c.seen ≤ now) : c.PopsInLine now := by
  have hsound := hs.strategy.mono hnow
  have hheld := hs.held_perm hdistinct
  have hids : ((c.held.filter (·.readyAt ≤ now)).map Task.id).Nodup :=
    hdistinct.sublist ((List.filter_sublist.trans List.filter_sublist).map _)
  have hready : (c.held.filter (·.readyAt ≤ now)).Perm (c.strategy.atHand now) := by
    rw [hsound.atHand_eq]
    exact hheld.filter _
  obtain ⟨q, hq⟩ := Strategy.exists_locked hlocked
  rw [hq] at hsound hready hheld
  have hfirst : ∀ worker, Task.IsFirst (c.held.filter (·.readyAt ≤ now))
      ((Strategy.locked q).tryPop worker now).2 := by
    intro worker
    have h := (Locked.Sound.record hsound 1).isFirst_attempt (Int.le_refl now)
    exact h.perm hready.symm
  constructor
  · intro worker t
    rw [hq, (hfirst worker).eq_some_iff hids]
    simp [and_assoc]
  · intro worker
    rw [hq, (hfirst worker).eq_none_iff, List.filter_eq_nil_iff]
    simp
  · rw [hq, (hsound.drainDelayed_of_le (Int.le_refl now)).2.1, hsound.late_eq]
    simp only [Task.not_isReady_eq]
    exact (hheld.filter _).symm
  · rw [hq]
    exact hheld.symm
  · obtain ⟨line, hperm, hline, hpops⟩ := Strategy.exists_line hsound (hids.perm (hready.map _))
    rw [hq]
    exact ⟨line, hperm.trans hready.symm, hline, hpops⟩

/-- However requests to a single backlog follow each other, it hands out what is ready in the order of
the line, at any instant that is not before an earlier look; and it does so in the same way as after
any other requests that leave the same tasks there. -/
theorem run_popsInLine (start : Instant) (requests : List (StockRequest β)) (now : Instant)
    (hdistinct : (pushedIds requests).Nodup)
    (hnow : ((Stock.start (.locked {}) start).run requests).seen ≤ now) :
    ((Stock.start (.locked {}) start).run requests).PopsInLine now ∧
      ∀ (start' : Instant) (requests' : List (StockRequest β)), (pushedIds requests').Nodup →
        ((Stock.start (.locked {}) start').run requests').seen ≤ now →
        ((Stock.start (.locked {}) start').run requests').held.Perm
          ((Stock.start (.locked {}) start).run requests).held →
        ∀ workers, ((Stock.start (.locked {}) start').run requests').strategy.pops now workers =
          ((Stock.start (.locked {}) start).run requests).strategy.pops now workers := by
  have hpops : ∀ (start : Instant) (requests : List (StockRequest β)), (pushedIds requests).Nodup →
      ((Stock.start (.locked {}) start).run requests).seen ≤ now →
      ((Stock.start (.locked {}) start).run requests).PopsInLine now := by
    intro start requests hdistinct hnow
    have hempty : (Strategy.locked ({} : Locked β)).Sound start :=
      Locked.sound_of_tasks_eq_nil rfl rfl
    have hserves := (sound_start hempty rfl).run requests
    exact hserves.sound.popsInLine (nodup_added hdistinct) hserves.shape_eq hnow
  refine ⟨hpops start requests hdistinct hnow, ?_⟩
  intro start' requests' hdistinct' hnow' hheld workers
  obtain ⟨line, hperm, hline, htake⟩ := (hpops start requests hdistinct hnow).pops_eq_take
  obtain ⟨line', hperm', hline', htake'⟩ := (hpops start' requests' hdistinct' hnow').pops_eq_take
  -- two lines of the same tasks are the same
  have hsame : line' = line := by
    have hlines := (hperm'.trans (hheld.filter _)).trans hperm.symm
    exact hlines.eq_of_pairwise (fun a b _ _ hab hba => absurd hab (not_lt.2 hba.le)) hline' hline
  rw [htake', htake, hsame]

/-- Requests that bring a task for later and two for now, with looks that find nothing. -/
def eagerRequests : List (StockRequest Unit) :=
  [.push ⟨4, .high, 5, ()⟩, .tryPop 0 0, .push ⟨2, .normal, 0, ()⟩, .push ⟨3, .high, 9, ()⟩,
    .promote 1 3, .drainDelayed 8, .push ⟨1, .normal, 0, ()⟩, .advance 5]

/-- Requests that bring the same tasks when all of them are ready. -/
def patientRequests : List (StockRequest Unit) :=
  [.advance 5, .push ⟨1, .normal, 0, ()⟩, .push ⟨2, .normal, 0, ()⟩, .push ⟨4, .high, 5, ()⟩]

theorem eagerRequests_popsInLine :
    (pushedIds eagerRequests).Nodup ∧
      ((start (.locked {}) 0).run eagerRequests).PopsInLine 8 ∧
        ((start (.locked {}) 0).run patientRequests).strategy.pops 8 [0, 1] =
          ((start (.locked {}) 0).run eagerRequests).strategy.pops 8 [0, 1] := by
  have hdistinct : (pushedIds eagerRequests).Nodup := by decide
  obtain ⟨hline, hsame⟩ := run_popsInLine 0 eagerRequests 8 hdistinct (by decide)
  have hheld : ((start (.locked {}) 0).run patientRequests).held.Perm
      ((start (.locked {}) 0).run eagerRequests).held := by decide
  exact ⟨hdistinct, hline, hsame 0 patientRequests (by decide) (by decide) hheld [0, 1]⟩

end Stock

end Dispatch
