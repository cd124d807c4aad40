import Dispatch.Engine.Timeline
import Dispatch.Proofs.Pool.Act
/-!
# Runs of an engine

A run is a sequence of requests, in any order, with time passing in between. A pool that is driven by
hand and an engine with a coordinator serve the same requests. Whatever is asked, an engine moves on in
one of four ways only; what every step of a pool keeps is kept by each of them, and so by every run.
-/

namespace Dispatch

variable {α : Type}

/-- What can be asked of an engine. -/
inductive Request (α : Type) where
  | submit (s : Submission α)
  /-- Submits a task that gets ready at an instant. -/
  | submitAt (readyAt : Instant) (s : Submission α)
  /-- Submits a task that gets ready after a delay. -/
  | schedule (delay : Duration) (s : Submission α)
  /-- Registers a recurring task, as long as tasks are admitted. -/
  | scheduleRecurring (interval : Duration) (s : Submission α)
  /-- Registers a recurring task to be swept by hand. -/
  | register (interval : Duration) (s : Submission α)
  | cancelRecurring (id : Identifier)
  | clearRecurring
  /-- Submits the recurring tasks that are due at an instant. -/
  | sweep (now : Instant)
  | freshToken
  | cancel (t : Token)
  | switch (kind : StrategyKind)
  | tellBreaker (change : Breaker → Breaker)
  | registerCheck (name : String) (probe : List CheckCall → Probe)
  | unregisterCheck (name : String)
  | report
  | advance (d : Duration)
  | waitIdle (timeout : Option Duration)
  | await (h : Handle) (timeout : Option Duration)
  | get (h : Handle) (timeout : Option Duration)
  /-- Closes the pool and waits for its workers. -/
  | shutdownPool (graceful : Bool)
  | shutdown (graceful : Bool)
  | abandonPool
  | abandon

/-- Whether a request leaves the recurring task that is watched as it is, if one is: the task is not
cancelled, and the recurring tasks are neither cleared nor swept by hand. -/
def Request.spares (watched : Option Identifier) : Request α → Bool
  | .cancelRecurring id => watched ≠ some id
  | .clearRecurring | .sweep _ => watched.isNone
  | _ => true

theorem Request.spares_none (request : Request α) : request.spares none = true := by
  cases request <;> simp [spares]

namespace Engine

/-- Serves a request. -/
def serve (e : Engine α) : Request α → Engine α
  | .submit s => (e.submit s).1
  | .submitAt readyAt s => (e.submitAt readyAt s).1
  | .schedule delay s => (e.schedule delay s).1
  | .scheduleRecurring interval s => (e.scheduleRecurring interval s).1
  | .register interval s => { e with recurring := (e.recurring.schedule e.clock interval s).1 }
  | .cancelRecurring id => (e.cancelRecurring id).1
  | .clearRecurring => { e with recurring := e.recurring.clear }
  | .sweep now => (e.sweep now).1
  | .freshToken => e.freshToken.1
  | .cancel t => e.cancel t
  | .switch kind => (e.switch kind).1
  | .tellBreaker change => (e.tellBreaker change).1
  | .registerCheck name probe => e.registerCheck name probe
  | .unregisterCheck name => (e.unregisterCheck name).1
  | .report => e.report.1
  | .advance d => e.advance d
  | .waitIdle timeout => (e.waitIdle timeout).1
  | .await h timeout => (e.await h timeout).1
  | .get h timeout => (e.get h timeout).1
  | .shutdownPool graceful => e.shutdownPool graceful
  | .shutdown graceful => e.shutdown graceful
  | .abandonPool => e.abandonPool
  | .abandon => e.abandon

/-- Serves requests in order. -/
def run (e : Engine α) (requests : List (Request α)) : Engine α := requests.foldl serve e

/-! ## How an engine moves on -/

/-- One thing that happens to an engine. Only a jump of the clock takes time. -/
inductive Move : Engine α → Engine α → Prop where
  /-- Something is done to the pool, and then all that can be done at the present instant. -/
  | request {e e' : Engine α} (hacts : e.pool.Acts e'.pool) : Move e e'.settle
  /-- Something else than the pool is changed. -/
  | arrange {e e' : Engine α} (hpool : e'.pool = e.pool) : Move e e'
  | jump (e : Engine α) (t : Instant) : Move e (e.jump t)
  /-- What the workers have left is cancelled. -/
  | join (e : Engine α) : Move e (e.mapPool .join)

/-- Whether an engine can become another one. -/
def Comes : Engine α → Engine α → Prop := Relation.ReflTransGen Move

variable {e e' e'' : Engine α} {β : Type}

theorem Comes.refl (e : Engine α) : e.Comes e := Relation.ReflTransGen.refl

theorem Comes.trans (h : e.Comes e') (h' : e'.Comes e'') : e.Comes e'' :=
  Relation.ReflTransGen.trans h h'

theorem Move.comes (h : Move e e') : e.Comes e' := Relation.ReflTransGen.single h

/-- What every move keeps holds of all that an engine can become. -/
theorem Comes.keeps {I : Engine α → Prop} (hmove : ∀ {e e' : Engine α}, Move e e' → I e → I e')
    (h : e.Comes e') (he : I e) : I e' := by
  induction h with
  | refl => exact he
  | tail _ hlast ih => exact hmove hlast ih

/-! ## Moves beside a recurring task -/

variable {watched : Option Identifier}

/-- Whether callers have left the coordinator alone, as long as there is one, and the recurring task
that is watched, if one is. -/
structure Leaves (watched : Option Identifier) (e e' : Engine α) : Prop where
  config_eq : e'.config = e.config
  selector_eq : e'.selector = e.selector
  record_eq : e'.record = e.record
  coordinator : ∀ c ∈ e'.coordinator, c ∈ e.coordinator ∧
    ∀ id ∈ watched, ∀ entry ∈ e.recurring.entries, entry.id = id → entry ∈ e'.recurring.entries

/-- One thing that happens to an engine whose callers leave a recurring task alone. The clock does not
jump over the next wake-up. -/
inductive Pace (watched : Option Identifier) : Engine α → Engine α → Prop where
  | request {e e' : Engine α} (hacts : e.pool.Acts e'.pool) (hleaves : e.Leaves watched e') :
      Pace watched e e'.settle
  | arrange {e e' : Engine α} (hpool : e'.pool = e.pool) (hleaves : e.Leaves watched e') :
      Pace watched e e'
  | jump (e : Engine α) (t : Instant) (hwake : ∀ wake ∈ e.nextWake, t ≤ wake) :
      Pace watched e (e.jump t)
  | join (e : Engine α) : Pace watched e (e.mapPool .join)

theorem Pace.move (h : Pace watched e e') : Move e e' := by
  cases h with
  | request hacts hleaves => exact .request hacts
  | arrange hpool hleaves => exact .arrange hpool
  | jump t hwake => exact .jump e t
  | join => exact .join e

/-- Whether an engine paces to another one while a recurring task is left alone. -/
def Paces (watched : Option Identifier) : Engine α → Engine α → Prop :=
  Relation.ReflTransGen (Pace watched)

theorem Paces.trans (h : Paces watched e e') (h' : Paces watched e' e'') : Paces watched e e'' :=
  Relation.ReflTransGen.trans h h'

theorem Pace.paces (h : Pace watched e e') : Paces watched e e' := Relation.ReflTransGen.single h

theorem Paces.comes (h : Paces watched e e') : e.Comes e' := by
  induction h with
  | refl => exact Comes.refl e
  | tail _ hlast ih => exact ih.trans hlast.move.comes

/-! ## Requests -/

/-- Submitting a recurring task is submitting a task, and logging a refusal. -/
theorem acts_submitEntry (p : Pool α) (entry : RecurringEntry α) :
    p.Acts (Recurring.submitEntry p entry).1 := by
  have hsubmit := (Pool.Act.submitAt p p.clock entry.submission).acts
  unfold Recurring.submitEntry
  split
  · rename_i heq
    exact (congrArg Prod.fst heq) ▸ hsubmit
  · rename_i heq
    exact ((congrArg Prod.fst heq) ▸ hsubmit).trans (Pool.Act.note _ _ _).acts

theorem acts_submitAll (p : Pool α) (entries : List (RecurringEntry α)) :
    p.Acts (Recurring.submitAll p entries).1 := by
  induction entries generalizing p with
  | nil => exact Pool.Acts.refl p
  | cons entry rest ih => exact (acts_submitEntry p entry).trans (ih _)

/-- Changes of the pool and the health checks leave the recurring tasks alone. -/
theorem leaves_of_eq (hconfig : e'.config = e.config) (hselector : e'.selector = e.selector)
    (hrecord : e'.record = e.record) (hcoordinator : e'.coordinator = e.coordinator)
    (hentries : e'.recurring.entries = e.recurring.entries) : Leaves watched e e' :=
  ⟨hconfig, hselector, hrecord, fun _ hc => ⟨hcoordinator ▸ hc, fun _ _ _ hentry _ => hentries ▸ hentry⟩⟩

theorem paces_request (done : Engine α) (hacts : e.pool.Acts done.pool)
    (hleaves : Leaves watched e done) : Paces watched e done.settle :=
  (Pace.request hacts hleaves).paces

theorem paces_ask {β : Type} {request : Pool α → Pool α × β}
    (hacts : e.pool.Acts (request e.pool).1) : Paces watched e (e.ask request).1 :=
  paces_request { e with pool := (request e.pool).1 } hacts (leaves_of_eq rfl rfl rfl rfl rfl)

theorem paces_tell {request : Pool α → Pool α} (hacts : e.pool.Acts (request e.pool)) :
    Paces watched e (e.tell request) :=
  paces_request (e.mapPool request) hacts (leaves_of_eq rfl rfl rfl rfl rfl)

theorem paces_arrange (hpool : e'.pool = e.pool) (hleaves : Leaves watched e e') :
    Paces watched e e' :=
  (Pace.arrange hpool hleaves).paces

theorem paces_stopCoordinator (e : Engine α) : Paces watched e e.stopCoordinator :=
  paces_arrange rfl ⟨rfl, rfl, rfl, fun _ hc => by contradiction⟩

/-- A registration adds an entry behind the others. -/
theorem leaves_schedule (e : Engine α) (interval : Duration) (s : Submission α) :
    Leaves watched e { e with recurring := (e.recurring.schedule e.clock interval s).1 } := by
  refine ⟨rfl, rfl, rfl, fun c hc => ⟨hc, fun _ _ entry hentry _ => ?_⟩⟩
  unfold Recurring.schedule
  split
  · exact hentry
  · exact List.mem_append_left _ hentry

theorem paces_scheduleRecurring (e : Engine α) (interval : Duration) (s : Submission α) :
    Paces watched e (e.scheduleRecurring interval s).1 := by
  unfold scheduleRecurring
  split
  · exact paces_arrange rfl (leaves_schedule e interval s)
  · exact paces_arrange rfl (leaves_of_eq rfl rfl rfl rfl rfl)

/-- A wait never lets the clock jump over the next wake-up. -/
theorem paces_runUntil (stop : Engine α → Bool) (limit : Instant) (e : Engine α) :
    Paces watched e (e.runUntil stop limit) := by
  have hjump {e : Engine α} {t wake : Instant} (hnext : e.nextWake = some wake) (hle : t ≤ wake) :
      Pace watched e (e.jump t) :=
    .jump e t fun w hw => Option.some.inj (hnext.symm.trans hw) ▸ hle
  fun_induction runUntil stop limit e with
  | case1 e => exact .refl
  | case2 e _ hnone => exact (Pace.jump e limit fun wake hwake => by simp [hnone] at hwake).paces
  | case3 e _ t hnext hlater => exact (hjump hnext (Int.le_of_lt hlater)).paces
  | case4 e _ t hnext _ next _ ih => exact (hjump hnext (Int.le_refl t)).paces.trans ih
  | case5 e _ t hnext => exact (hjump hnext (Int.le_refl t)).paces

/-- What the jumps of the clock keep of two engines that wake up at the same instants is kept while
something is waited for that comes about in both of them at once. -/
theorem related_runUntil {R : Engine α → Engine α → Prop} {stop : Engine α → Bool}
    (hjump : ∀ {e e' : Engine α}, R e e' → ∀ t, R (e.jump t) (e'.jump t))
    (hclock : ∀ {e e' : Engine α}, R e e' → e'.clock = e.clock)
    (hwake : ∀ {e e' : Engine α}, R e e' → e'.nextWake = e.nextWake)
    (hstop : ∀ {e e' : Engine α}, R e e' → stop e' = stop e) (limit : Instant) (h : R e e') :
    R (e.runUntil stop limit) (e'.runUntil stop limit) := by
  have hleft : ∀ {e e' : Engine α}, R e e' → e'.timeLeft limit = e.timeLeft limit :=
    fun h => by unfold timeLeft; rw [hclock h]
  fun_induction Engine.runUntil stop limit e generalizing e' with
  | @case1 e hstops =>
      rw [Engine.runUntil, if_pos ((hstop h).trans hstops)]
      exact h
  | @case2 e hgoes hnone =>
      rw [Engine.runUntil, if_neg (hstop h ▸ hgoes), hwake h, hnone]
      exact hjump h limit
  | @case3 e hgoes t hnext hlimit =>
      rw [Engine.runUntil, if_neg (hstop h ▸ hgoes), hwake h, hnext]
      simp only [hlimit, if_true]
      exact hjump h limit
  | @case4 e hgoes t hnext hlimit next hlater ih =>
      have hjumped := hjump h t
      have hrun : e'.runUntil stop limit = (e'.jump t).runUntil stop limit := by
        conv_lhs => rw [Engine.runUntil]
        rw [if_neg (hstop h ▸ hgoes), hwake h, hnext]
        simp only [hlimit, if_false]
        exact if_pos (by rwa [hleft h, hleft hjumped])
      rw [hrun]
      exact ih hjumped
  | @case5 e hgoes t hnext hlimit next hstuck =>
      have hjumped := hjump h t
      rw [Engine.runUntil, if_neg (hstop h ▸ hgoes), hwake h, hnext]
      simp only [hlimit, if_false]
      rw [if_neg (by rwa [hleft h, hleft hjumped])]
      exact hjumped

theorem paces_shutdownPool (e : Engine α) (graceful : Bool) :
    Paces watched e (e.shutdownPool graceful) :=
  (paces_tell (Pool.Act.close e.pool graceful).acts).trans
    ((paces_runUntil _ _ _).trans (Pace.join _).paces)

theorem paces_serve (e : Engine α) (request : Request α) (hspares : request.spares watched = true) :
    Paces watched e (e.serve request) := by
  have habandon (e : Engine α) : Paces watched e e.abandonPool :=
    paces_tell (Pool.Act.abandon e.pool).acts
  cases request with
  | submit s => exact paces_ask (Pool.Act.submitAt e.pool _ s).acts
  | submitAt readyAt s => exact paces_ask (Pool.Act.submitAt e.pool readyAt s).acts
  | schedule delay s => exact paces_ask (Pool.Act.submitAt e.pool _ s).acts
  | scheduleRecurring interval s => exact paces_scheduleRecurring e interval s
  | register interval s => exact paces_arrange rfl (leaves_schedule e interval s)
  | cancelRecurring id =>
      refine paces_arrange rfl ⟨rfl, rfl, rfl, fun c hc => ⟨hc, fun other hother entry hentry hid => ?_⟩⟩
      -- the entry that is watched has another identifier
      have hne : other ≠ id := fun heq => by
        obtain rfl : watched = some other := hother
        simp [Request.spares, heq] at hspares
      refine List.mem_map.2 ⟨entry, hentry, if_neg ?_⟩
      exact hid ▸ hne
  | clearRecurring =>
      obtain rfl : watched = none := Option.isNone_iff_eq_none.1 hspares
      exact paces_arrange rfl ⟨rfl, rfl, rfl, fun c hc => ⟨hc, fun _ hid => by contradiction⟩⟩
  | sweep now =>
      obtain rfl : watched = none := Option.isNone_iff_eq_none.1 hspares
      have hacts : e.pool.Acts (e.submitDue now).1.pool := acts_submitAll e.pool _
      exact paces_request _ hacts ⟨rfl, rfl, rfl, fun c hc => ⟨hc, fun _ hid => by contradiction⟩⟩
  | freshToken => exact paces_ask (Pool.Act.freshToken e.pool).acts
  | cancel t => exact paces_tell (Pool.Act.cancel e.pool t).acts
  | switch kind => exact paces_ask (Pool.Act.switch e.pool kind).acts
  | tellBreaker change => exact paces_ask (Pool.Act.tellBreaker e.pool change).acts
  | registerCheck name probe => exact paces_arrange rfl (leaves_of_eq rfl rfl rfl rfl rfl)
  | unregisterCheck name => exact paces_arrange rfl (leaves_of_eq rfl rfl rfl rfl rfl)
  | report => exact paces_arrange rfl (leaves_of_eq rfl rfl rfl rfl rfl)
  | advance d => exact paces_runUntil _ _ e
  | waitIdle timeout => exact paces_runUntil _ _ e
  | await h timeout => exact paces_runUntil _ _ e
  | get h timeout => exact paces_runUntil _ _ e
  | shutdownPool graceful => exact paces_shutdownPool e graceful
  | shutdown graceful => exact (paces_stopCoordinator e).trans (paces_shutdownPool _ graceful)
  | abandonPool => exact habandon e
  | abandon => exact (paces_stopCoordinator e).trans (habandon _)

theorem comes_close (e : Engine α) (graceful : Bool) : e.Comes (e.tell (·.close graceful)) :=
  Paces.comes (paces_tell (Pool.Act.close e.pool graceful).acts : Paces none e _)

theorem comes_runUntil (stop : Engine α → Bool) (limit : Instant) (e : Engine α) :
    e.Comes (e.runUntil stop limit) :=
  Paces.comes (paces_runUntil stop limit e : Paces none e _)

/-- Serving a request is a sequence of moves. -/
theorem comes_serve (e : Engine α) (request : Request α) : e.Comes (e.serve request) :=
  (paces_serve e request request.spares_none).comes

/-- A run is a sequence of moves, whatever the requests are. -/
theorem comes_run (e : Engine α) (requests : List (Request α)) : e.Comes (e.run requests) := by
  induction requests generalizing e with
  | nil => exact Comes.refl e
  | cons request rest ih => exact (comes_serve e request).trans (ih _)

/-! ## What the coordinator does -/

/-- A sample is taken into account by the selector, and adjusts the pool. -/
theorem exists_sampleAndAdapt_eq (e : Engine α) : ∃ pool, e.pool.Adjusts pool ∧
    e.sampleAndAdapt.1 = { e with
      selector := (e.selector.sampleQueue e.pool.queue e.clock).1
      pool := pool
      record := e.record.addSample e.clock } := by
  have hsample : e.pool.Adjusts _ := Relation.ReflTransGen.single
    (Pool.Adjust.sample e.pool e.pool.queue.contention.clear)
  unfold sampleAndAdapt Selector.sampleQueue
  simp only
  split
  · exact ⟨_, hsample, rfl⟩
  · exact ⟨_, hsample.tail (Pool.Adjust.switch _ _), rfl⟩

theorem exists_sample_eq (e : Engine α) : ∃ pool, e.pool.Adjusts pool ∧
    e.sample = { e with
      selector := (e.selector.sampleQueue e.pool.queue e.clock).1
      pool := pool
      record := e.record.addSample e.clock } := by
  obtain ⟨pool, hadjusts, heq⟩ := exists_sampleAndAdapt_eq e
  unfold sample
  cases hsample : e.sampleAndAdapt with
  | mk sampled target =>
      obtain rfl : sampled = _ := (congrArg Prod.fst hsample).symm.trans heq
      cases target with
      | none => exact ⟨pool, hadjusts, rfl⟩
      | some kind => exact ⟨_, hadjusts.tail (Pool.Adjust.note pool _ _), rfl⟩

/-- What the coordinator does to the pool could be done by requests as well. -/
theorem acts_coordinate (e : Engine α) (c : Coordinator) : e.pool.Acts (e.coordinate c).pool := by
  have hsubmit : e.pool.Acts (e.submitDue e.clock).1.pool := acts_submitAll e.pool _
  refine hsubmit.trans ?_
  unfold coordinate
  simp only
  split
  · obtain ⟨_, hadjusts, heq⟩ :=
      exists_sample_eq { (e.submitDue e.clock).1 with record := e.record.addSweep e.clock }
    rw [heq]
    exact hadjusts.acts
  · exact Pool.Acts.refl _

/-- What the workers and the coordinator do at the present instant. -/
theorem settle_cases (e : Engine α) : e.settle.pool = e.pool.settle ∨
    ∃ q, e.pool.settle.Acts q ∧ e.settle.pool = q.settle := by
  unfold settle
  simp only
  split
  · exact .inl rfl
  · split
    · exact .inr ⟨_, acts_coordinate (e.mapPool .settle) _, rfl⟩
    · exact .inl rfl

/-! ## What becomes of the pool -/

/-- Whether an engine can become another one as far as its pool goes, if its queue is in order. -/
def LeadsTo (e e' : Engine α) : Prop :=
  e.pool.queue.Sound e.pool.clock → e.pool.Reaches e'.pool

theorem LeadsTo.trans (h : LeadsTo e e') (h' : LeadsTo e' e'') : LeadsTo e e'' :=
  fun hs => (h hs).trans (h' ((h hs).grows hs).sound)

theorem leadsTo_of_pool_eq (h : e'.pool = e.pool) : LeadsTo e e' :=
  fun _ => h ▸ Pool.Reaches.refl e.pool

theorem leadsTo_settle (e : Engine α) : LeadsTo e e.settle := by
  intro hs
  have hsettle := (Pool.works_settle e.pool).reaches
  rcases settle_cases e with heq | ⟨q, hacts, heq⟩
  · exact heq ▸ hsettle
  · have hcoordinate := hsettle.trans (hacts.reaches (hsettle.grows hs).sound)
    exact heq ▸ hcoordinate.trans (Pool.works_settle q).reaches

theorem leadsTo_jump (e : Engine α) (t : Instant) : LeadsTo e (e.jump t) := by
  refine LeadsTo.trans (fun _ => ?_) (leadsTo_settle _)
  exact (Pool.works_withClock (Int.le_max_left e.pool.clock t)).reaches

theorem Move.leadsTo (h : Move e e') : LeadsTo e e' := by
  cases h with
  | @request done hacts =>
      have hdone : LeadsTo e done := fun hs => hacts.reaches hs
      exact hdone.trans (leadsTo_settle done)
  | arrange hpool => exact leadsTo_of_pool_eq hpool
  | jump t => exact leadsTo_jump e t
  | join => exact fun _ => Pool.reaches_join e.pool

theorem Comes.leadsTo (h : e.Comes e') : LeadsTo e e' :=
  h.keeps (I := LeadsTo e) (fun hmove hleads => hleads.trans hmove.leadsTo)
    (leadsTo_of_pool_eq rfl)

/-- A run takes the pool through steps, whatever the requests are. -/
theorem leadsTo_run (e : Engine α) (requests : List (Request α)) : LeadsTo e (e.run requests) :=
  (comes_run e requests).leadsTo

end Engine

end Dispatch
