import Dispatch.Proofs.Queue.Bounded
/-!
# What a look leaves that finds nothing

A worker that finds nothing leaves no task that it may take. Moreover, unless some delayed tasks have
become ready meanwhile, its look changes nothing but counts of lock operations, so that looks of
several workers that find nothing do not disturb each other.
-/

namespace Dispatch

variable {β : Type} {now : Instant}

namespace Locked

variable {q : Locked β}

/-- A promotion that leaves as many delayed tasks as there were moves none. -/
theorem promote_eq_self (h : (q.promote now).delayed.length = q.delayed.length) :
    q.promote now = q := by
  have hsplit := List.takeWhile_append_dropWhile (p := (·.isReady now)) (l := q.delayed)
  have hlength := congrArg List.length hsplit
  rw [List.length_append] at hlength
  change (q.delayed.dropWhile (·.isReady now)).length = q.delayed.length at h
  have hnil : q.delayed.takeWhile (·.isReady now) = [] :=
    List.length_eq_zero_iff.1 (by omega)
  rw [hnil, List.nil_append] at hsplit
  simp only [promote, hnil, hsplit, List.foldl_nil]

theorem attempt_fst_of_none (h : (q.attempt now).2 = none) :
    (q.attempt now).1 = q.promote now := by
  unfold attempt takeReady at h ⊢
  split at h
  · simp [*]
  · contradiction

end Locked

namespace Sharded

variable {q : Sharded β} {worker : Nat}

/-- Where nothing is due, nothing is taken out of the delayed tasks. -/
theorem takeDue_eq_self (hdue : (q.takeDue now).2 = []) : q.takeDue now = (q, []) := by
  have htake : q.delayed.takeWhile (·.isReady now) = [] := hdue
  have hdrop : q.delayed.dropWhile (·.isReady now) = q.delayed := by
    have hsplit := List.takeWhile_append_dropWhile (p := (·.isReady now)) (l := q.delayed)
    rwa [htake, List.nil_append] at hsplit
  simp only [takeDue, htake, hdrop, List.length_nil, Nat.sub_zero]

/-- A promotion with nothing due changes nothing but a count of lock operations. -/
theorem promote_eq_record (hdue : (q.takeDue now).2 = []) (worker : Nat) :
    ∃ n, q.promote worker now = q.record n := by
  unfold promote
  split
  · exact ⟨0, rfl⟩
  · split
    · have hself : (q.record 1).takeDue now = (q.record 1, []) := takeDue_eq_self hdue
      exact ⟨1, by rw [hself]; rfl⟩
    · exact ⟨0, by rw [takeDue_eq_self hdue]; rfl⟩

/-- A promotion that leaves as many delayed tasks as there were moves none. -/
theorem Sound.promote_eq_record (hs : q.Sound now)
    (h : (q.promote worker now).delayedCount = q.delayedCount) :
    ∃ n, q.promote worker now = q.record n := by
  obtain ⟨hsound, -, hdelayed, -⟩ := hs.promote worker
  have hlate : q.delayed.filter (!·.isReady now) = q.delayed := by
    refine List.Sublist.eq_of_length List.filter_sublist ?_
    rw [← hdelayed, ← hsound.delayedCount_eq, h, hs.delayedCount_eq]
  apply Sharded.promote_eq_record
  show q.delayed.takeWhile (·.isReady now) = []
  rw [(Task.takeWhile_isReady hs.delayed_ordered now).1]
  refine List.filter_eq_nil_iff.2 fun t ht => ?_
  simpa using List.filter_eq_self.1 hlate t ht

end Sharded

namespace Strategy

variable {s s' s'' : Strategy β} {worker : Nat}

/-- A strategy without its counts of lock operations and of sleeping workers. -/
def bare : Strategy β → Strategy β
  | locked q => locked { q with contention := {} }
  | sharded q => sharded { q with contention := {}, sleepers := 0 }

/-- Whether a strategy holds no task at an instant that a worker may take. -/
def HasNoneFor (worker : Nat) (now : Instant) : Strategy β → Prop
  | locked q => ∀ t ∈ q.tasks, t.isReady now = false
  | sharded q => (∀ index ∈ q.route worker, ∀ s, q.shards[index]? = some s → s.tasks = []) ∧
      ∀ t ∈ q.delayed, t.isReady now = false

@[simp] theorem bare_enter (s : Strategy β) : s.enter.bare = s.bare := by cases s <;> rfl

@[simp] theorem bare_sleep (s : Strategy β) : s.sleep.bare = s.bare := by cases s <;> rfl

@[simp] theorem bare_rouse (s : Strategy β) : s.rouse.bare = s.bare := by cases s <;> rfl

@[simp] theorem bare_withContention (c : Contention) (s : Strategy β) :
    (s.withContention c).bare = s.bare := by
  cases s <;> rfl

theorem isInterrupted_bare (s : Strategy β) : s.bare.isInterrupted = s.isInterrupted := by
  cases s <;> rfl

theorem hasNoneFor_bare (s : Strategy β) :
    s.bare.HasNoneFor worker now ↔ s.HasNoneFor worker now := by
  cases s <;> exact Iff.rfl

theorem HasNoneFor.of_bare_eq (h : s.HasNoneFor worker now) (heq : s'.bare = s.bare) :
    s'.HasNoneFor worker now :=
  (hasNoneFor_bare s').1 (heq ▸ (hasNoneFor_bare s).2 h)

theorem hasNoneFor_of_tasks_eq_nil (h : s.tasks = []) : s.HasNoneFor worker now := by
  cases s with
  | locked q =>
      intro t ht
      change t ∈ (locked q).tasks at ht
      rw [h] at ht
      contradiction
  | sharded q =>
      obtain ⟨hready, hdelayed⟩ := List.append_eq_nil_iff.1 h
      refine ⟨fun index _ s hs => ?_, by simp [hdelayed]⟩
      exact List.flatMap_eq_nil_iff.1 hready s (List.mem_of_getElem? hs)

/-- Whether a strategy comes of a look at another one that has found nothing for a worker. -/
structure Misses (worker : Nat) (now : Instant) (s s' : Strategy β) : Prop where
  hasNoneFor : s'.HasNoneFor worker now
  bare_eq : s'.delayedCount = s.delayedCount → s'.bare = s.bare

theorem misses_attempt_locked {q : Locked β} (hs : q.Sound now) (h : (q.attempt now).2 = none) :
    Misses worker now (locked q) (locked (q.attempt now).1) := by
  rw [Locked.attempt_fst_of_none h]
  refine ⟨fun t ht => ?_, fun heq => ?_⟩
  · exact hs.not_isReady_of_attempt h t ((Locked.promote_tasks q now).mem_iff.1 ht)
  · rw [Locked.promote_eq_self heq]

theorem misses_tryPop_sharded {q : Sharded β} (hs : q.Sound now)
    (h : (q.tryPop worker now).2 = none) :
    Misses worker now (sharded q) (sharded (q.tryPop worker now).1) := by
  obtain ⟨hp, -, hdelayed, -⟩ := hs.promote worker
  obtain ⟨heq, hempty⟩ := (hp.popFirst ((q.promote worker now).route worker)).2 h
  have hlate : ∀ t ∈ (q.promote worker now).delayed, t.isReady now = false := fun t ht => by
    rw [hdelayed] at ht
    simpa using (List.mem_filter.1 ht).2
  rw [show (q.tryPop worker now).1 = q.promote worker now from heq]
  refine ⟨⟨hempty, hlate⟩, fun hcount => ?_⟩
  obtain ⟨n, hrecord⟩ := hs.promote_eq_record hcount
  rw [hrecord]
  rfl

/-- Of two looks that find nothing, both change nothing but counts if no task has become ready. -/
theorem Misses.trans (h : Misses worker now s s') (h' : Misses worker now s' s'')
    (hle : s'.delayedCount ≤ s.delayedCount) (hle' : s''.delayedCount ≤ s'.delayedCount) :
    Misses worker now s s'' := by
  refine ⟨h'.hasNoneFor, fun hcount => ?_⟩
  -- between two equal counts there is no room for a third one
  have hfirst : s'.delayedCount = s.delayedCount := by omega
  have hsecond : s''.delayedCount = s'.delayedCount := by omega
  exact (h'.bare_eq hsecond).trans (h.bare_eq hfirst)

theorem Sound.misses_attempt (hs : s.Sound now) (h : (s.attempt worker now).2 = none) :
    Misses worker now s (s.attempt worker now).1 := by
  cases s with
  | locked q => exact misses_attempt_locked hs h
  | sharded q =>
      rcases attempt_sharded_cases q worker now with heq | ⟨q', hfirst, -, heq⟩
      · rw [heq] at h ⊢
        exact misses_tryPop_sharded hs h
      · have hmiss := misses_tryPop_sharded hs (congrArg Prod.snd hfirst)
        have hyields := yields_tryPop_sharded hs (Int.le_refl now) worker
        rw [hfirst] at hmiss hyields
        have hagain := yields_tryPop_sharded hyields.sound (Int.le_refl now) worker
        rw [heq] at h ⊢
        exact hmiss.trans (misses_tryPop_sharded hyields.sound h) hyields.delayedCount_le
          hagain.delayedCount_le

end Strategy

namespace TaskQueue

variable {q : TaskQueue β}

/-- A look at a queue that finds nothing changes nothing but the strategy. -/
theorem Sound.misses_took (hs : q.Sound now) {s : Strategy β}
    (hsame : Strategy.SameTasks q.strategy s) (hbare : s.bare = q.strategy.bare) {worker : Nat}
    (h : (q.took (s.attempt worker now)).2 = none) :
    Strategy.Misses worker now q.strategy (q.took (s.attempt worker now)).1.strategy ∧
      (q.took (s.attempt worker now)).1 =
        { q with strategy := (q.took (s.attempt worker now)).1.strategy } := by
  rw [took_snd] at h
  have hmisses := (hsame.sound now hs.strategy).misses_attempt h
  rw [took_strategy]
  refine ⟨⟨hmisses.hasNoneFor, fun heq => ?_⟩, ?_⟩
  · exact (hmisses.bare_eq (heq.trans hsame.delayedCount_eq.symm)).trans hbare
  · generalize s.attempt worker now = r at h
    obtain ⟨s', found⟩ := r
    cases h
    rfl

end TaskQueue

end Dispatch
