import Dispatch.Proofs.Pool.Still
/-!
# What a request does to a pool

A request is served in one go: when it is done, waits are given up only because the queue is closed,
whatever happened in between. An exchange of the strategy, which has all waits given up, ends with a
new strategy at which workers may wait again.
-/

namespace Dispatch

variable {α : Type}

namespace Pool

variable {p q : Pool α}

/-- One thing that is done to a pool before workers have their turns again. -/
inductive Act : Pool α → Pool α → Prop where
  | submitAt (p : Pool α) (readyAt : Instant) (s : Submission α) : Act p (p.submitAt readyAt s).1
  | freshToken (p : Pool α) : Act p { p with tokens := p.tokens.fresh.1 }
  | cancel (p : Pool α) (t : Token) : Act p { p with tokens := p.tokens.cancel t }
  | tellBreaker (p : Pool α) (change : Breaker → Breaker) : Act p (p.withBreaker (change p.breaker))
  | note (p : Pool α) (level : Level) (message : String) : Act p (p.note level message)
  /-- The lock operations of the queue are looked at. -/
  | sample (p : Pool α) (c : Contention) : Act p { p with queue := p.queue.withContention c }
  | switch (p : Pool α) (kind : StrategyKind) : Act p (p.switch kind).1
  | close (p : Pool α) (graceful : Bool) : Act p (p.close graceful)
  | abandon (p : Pool α) : Act p p.abandon

/-- Whether a pool comes of another one by what is done to it. -/
def Acts : Pool α → Pool α → Prop := Relation.ReflTransGen Act

theorem Acts.refl (p : Pool α) : p.Acts p := Relation.ReflTransGen.refl

theorem Acts.trans {r : Pool α} (hpq : p.Acts q) (hqr : q.Acts r) : p.Acts r :=
  Relation.ReflTransGen.trans hpq hqr

theorem Act.acts (h : Act p q) : p.Acts q := Relation.ReflTransGen.single h

/-- What is done to a pool is done in steps. -/
theorem Act.reaches (hs : p.queue.Sound p.clock) (h : Act p q) : p.Reaches q := by
  cases h with
  | submitAt readyAt s => exact (Step.submitAt p readyAt s).reaches
  | freshToken => exact (Step.freshToken p).reaches
  | cancel t => exact (Step.cancel p t).reaches
  | tellBreaker change => exact (Step.tellBreaker p change).reaches
  | note level message => exact (Step.note p level message).reaches
  | sample c => exact (Step.sample p c).reaches
  | switch kind => exact reaches_switch hs kind
  | close graceful => exact reaches_close hs graceful
  | abandon => exact reaches_abandon hs

theorem Acts.reaches (hs : p.queue.Sound p.clock) (h : p.Acts q) : p.Reaches q := by
  induction h with
  | refl => exact Reaches.refl p
  | tail _ hlast ih => exact ih.trans (hlast.reaches (ih.grows hs).sound)

/-! ## Adjustments -/

/-- Something that is done to a pool for the sake of its queue's strategy. -/
inductive Adjust : Pool α → Pool α → Prop where
  | note (p : Pool α) (level : Level) (message : String) : Adjust p (p.note level message)
  /-- The lock operations of the queue are looked at. -/
  | sample (p : Pool α) (c : Contention) : Adjust p { p with queue := p.queue.withContention c }
  | switch (p : Pool α) (kind : StrategyKind) : Adjust p (p.switch kind).1

/-- Whether a pool comes of another one by adjustments. -/
def Adjusts : Pool α → Pool α → Prop := Relation.ReflTransGen Adjust

theorem Adjust.act (h : Adjust p q) : Act p q := by
  cases h with
  | note level message => exact .note p level message
  | sample c => exact .sample p c
  | switch kind => exact .switch p kind

theorem Adjusts.acts (h : p.Adjusts q) : p.Acts q := by
  induction h with
  | refl => exact Acts.refl p
  | tail _ hlast ih => exact ih.trans hlast.act.acts

/-! ## Waits that are given up -/

theorem orderly_switch (h : p.Orderly) (kind : StrategyKind) : (p.switch kind).1.Orderly := by
  refine ⟨((reaches_switch h.sound kind).grows h.sound).sound, ?_⟩
  unfold switch
  split
  · let roused := { p with queue := p.queue.interrupt }.rouse
    have hsound : roused.queue.Sound roused.clock :=
      ((works_rouse _).carries (p := { p with queue := p.queue.interrupt })
        h.sound.interrupt.sound).sound
    intro hint
    -- the new strategy does not have its waits given up
    obtain ⟨-, -, hnew, -⟩ := hsound.refill kind
    exact absurd (hnew.symm.trans hint) (by simp)
  · exact h.closed_of_interrupted

/-- A close leaves the queue closed, if it was not closed before. -/
theorem orderly_close (h : p.Orderly) (graceful : Bool) : (p.close graceful).Orderly := by
  refine ⟨((reaches_close h.sound graceful).grows h.sound).sound, fun hint => ?_⟩
  unfold close closeQueue at hint ⊢
  split
  · rename_i haccepting
    rw [if_pos haccepting] at hint
    split
    · assumption
    · have hclosed := (works_rouse { p with queue := p.queue.shut, accepting := false }).carries
        h.sound.shut.sound |>.closed rfl
      rw [cancelRemoved_queue]
      exact (TaskQueue.clear_closed graceful).trans hclosed
  · rename_i haccepting
    rw [if_neg haccepting] at hint
    exact h.closed_of_interrupted hint

theorem Submits.isInterrupted_eq {t : Task (Job α)} (h : p.Submits t q) :
    q.queue.strategy.isInterrupted = p.queue.strategy.isInterrupted ∧
      q.queue.closed = p.queue.closed := by
  cases h with
  | refused fault breaker log => exact ⟨rfl, rfl⟩
  | accepted breaker log hpush =>
      exact ⟨TaskQueue.push_isInterrupted t, TaskQueue.push_closed t⟩

theorem Act.orderly (hact : Act p q) (h : p.Orderly) : q.Orderly := by
  have hsound := ((hact.reaches h.sound).grows h.sound).sound
  cases hact with
  | submitAt readyAt s =>
      obtain ⟨hint, hclosed⟩ := (submits_submitAt p readyAt s).isInterrupted_eq
      exact ⟨hsound, fun htrue => hclosed.trans (h.closed_of_interrupted (hint.symm.trans htrue))⟩
  | switch kind => exact orderly_switch h kind
  | close graceful => exact orderly_close h graceful
  | abandon =>
      refine ⟨hsound, ?_⟩
      unfold Pool.abandon
      split
      · exact (orderly_close h false).closed_of_interrupted
      · exact h.closed_of_interrupted
  | sample c =>
      refine ⟨hsound, fun hint => h.closed_of_interrupted ?_⟩
      rw [← hint]
      exact (Strategy.isInterrupted_withContention c p.queue.strategy).symm
  | _ => exact ⟨hsound, h.closed_of_interrupted⟩

theorem Acts.orderly (hacts : p.Acts q) (h : p.Orderly) : q.Orderly := by
  induction hacts with
  | refl => exact h
  | tail _ hlast ih => exact hlast.orderly ih

/-- What the workers have left is taken out, and nothing else is changed. -/
theorem orderly_join (h : p.Orderly) : p.join.Orderly := by
  refine ⟨((reaches_join p).grows h.sound).sound, ?_⟩
  unfold join
  split
  · exact h.closed_of_interrupted
  · simp only [cancelRemoved_queue]
    exact fun hint => h.closed_of_interrupted ((Strategy.isInterrupted_drain _).symm.trans hint)

end Pool

end Dispatch
