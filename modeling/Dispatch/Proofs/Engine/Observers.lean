import Dispatch.Proofs.Engine.Sessions
import Dispatch.Proofs.Pool.Unseen
import Dispatch.Proofs.Queue.Observed
/-!
# Handles are mere observers

Looking at handles and dropping them changes nothing else: two sessions that differ only in such uses of
the handles of some tasks are the same, but for the channels of these tasks, and callers are told the same by
all other handles.
-/

namespace Dispatch

variable {α : Type}

namespace Engine

variable {e e' e'' : Engine α} {ids : List Nat}

/-- Whether two engines are the same but for the channels of some tasks. -/
def SameBut (ids : List Nat) (e e' : Engine α) : Prop :=
  ∃ pool, e' = { e with pool := pool } ∧ e.pool.SameBut ids pool

namespace SameBut

theorem refl (ids : List Nat) (e : Engine α) : SameBut ids e e := ⟨e.pool, rfl, .refl ids e.pool⟩

theorem symm (h : SameBut ids e e') : SameBut ids e' e := by
  obtain ⟨pool, rfl, hpool⟩ := h
  exact ⟨e.pool, rfl, hpool.symm⟩

theorem trans (h : SameBut ids e e') (h' : SameBut ids e' e'') : SameBut ids e e'' := by
  obtain ⟨pool, rfl, hpool⟩ := h
  obtain ⟨pool', rfl, hpool'⟩ := h'
  exact ⟨pool', rfl, hpool.trans hpool'⟩

theorem pool (h : SameBut ids e e') : e.pool.SameBut ids e'.pool := by
  obtain ⟨pool, rfl, hpool⟩ := h
  exact hpool

theorem clock_eq (h : SameBut ids e e') : e'.clock = e.clock := by
  obtain ⟨_, rfl, c, rfl, -⟩ := h
  rfl

theorem nextWake_eq (h : SameBut ids e e') : e'.nextWake = e.nextWake := by
  obtain ⟨_, rfl, c, rfl, -⟩ := h
  rfl

theorem mapPool (h : SameBut ids e e') {change : Pool α → Pool α}
    (hchange : ∀ {p q : Pool α}, p.SameBut ids q → (change p).SameBut ids (change q)) :
    SameBut ids (e.mapPool change) (e'.mapPool change) := by
  obtain ⟨pool, rfl, hpool⟩ := h
  exact ⟨_, rfl, hchange hpool⟩

/-! ## The coordinator -/

theorem submitDue (h : SameBut ids e e') (now : Instant) :
    SameBut ids (e.submitDue now).1 (e'.submitDue now).1 := by
  obtain ⟨_, rfl, hpool⟩ := h
  have hall := hpool.submitAll ((e.recurring.entries.filter (!·.cancelled)).filter (·.isDue now))
  obtain ⟨c, rfl, -⟩ := hpool
  exact ⟨_, rfl, hall.1⟩

theorem sampleAndAdapt (h : SameBut ids e e') :
    SameBut ids e.sampleAndAdapt.1 e'.sampleAndAdapt.1 ∧
      e'.sampleAndAdapt.2 = e.sampleAndAdapt.2 := by
  obtain ⟨_, rfl, c, rfl, hc⟩ := h
  unfold Engine.sampleAndAdapt
  simp only [clock]
  generalize e.selector.sampleQueue e.pool.queue e.pool.clock = sampled
  obtain ⟨selector, queue, target⟩ := sampled
  have hsampled : { e.pool with queue := queue }.SameBut ids
      { e.pool with queue := queue, channels := c } := ⟨c, rfl, hc⟩
  cases target with
  | none => exact ⟨⟨_, rfl, hsampled⟩, rfl⟩
  | some kind =>
      obtain ⟨hswitched, hmoved⟩ := hsampled.switch kind
      exact ⟨⟨_, rfl, hswitched⟩, congrArg (Option.map fun _ => kind) hmoved⟩

theorem sample (h : SameBut ids e e') : SameBut ids e.sample e'.sample := by
  obtain ⟨hsampled, htarget⟩ := h.sampleAndAdapt
  unfold Engine.sample
  generalize e.sampleAndAdapt = done at hsampled htarget
  generalize e'.sampleAndAdapt = done' at hsampled htarget
  obtain ⟨sampled, target⟩ := done
  obtain ⟨sampled', target'⟩ := done'
  obtain rfl : target' = target := htarget
  cases target' with
  | none => exact hsampled
  | some kind => exact hsampled.mapPool fun h => h.note _ _

/-- The next wake-up depends on the settings and the clock only. -/
theorem withCoordinator (h : SameBut ids e e') {nextSample nextSample' : Instant}
    (hnext : nextSample' = nextSample) :
    SameBut ids
      { e with
        coordinator := some ⟨Coordinator.nextWake e.config e.clock nextSample, nextSample⟩ }
      { e' with
        coordinator := some ⟨Coordinator.nextWake e'.config e'.clock nextSample', nextSample'⟩ } := by
  subst hnext
  obtain ⟨_, rfl, c, rfl, hc⟩ := h
  exact ⟨_, rfl, c, rfl, hc⟩

theorem noteSweep (h : SameBut ids e e') (now : Instant) :
    SameBut ids { (e.submitDue now).1 with record := e.record.addSweep now }
      { (e'.submitDue now).1 with record := e'.record.addSweep now } := by
  have hdue := h.submitDue now
  have hrecord : e'.record = e.record := by
    obtain ⟨_, rfl, -⟩ := h
    rfl
  rw [hrecord]
  generalize (e.submitDue now).1 = due at hdue
  generalize (e'.submitDue now).1 = due' at hdue
  obtain ⟨pool, rfl, hpool⟩ := hdue
  exact ⟨pool, rfl, hpool⟩

theorem coordinate (h : SameBut ids e e') (c : Coordinator) :
    SameBut ids (e.coordinate c) (e'.coordinate c) := by
  have hswept := h.noteSweep e.clock
  unfold Engine.coordinate
  rw [h.clock_eq]
  generalize ({ (e.submitDue e.clock).1 with record := e.record.addSweep e.clock } : Engine α) =
    swept at hswept ⊢
  generalize ({ (e'.submitDue e.clock).1 with record := e'.record.addSweep e.clock } : Engine α) =
    swept' at hswept ⊢
  have hdue : (swept'.config.adaptive.enabled && c.nextSample ≤ swept'.clock) =
      (swept.config.adaptive.enabled && c.nextSample ≤ swept.clock) := by
    obtain ⟨_, rfl, _, rfl, -⟩ := hswept
    rfl
  simp only [hdue]
  cases (swept.config.adaptive.enabled && c.nextSample ≤ swept.clock) with
  | true =>
      refine hswept.sample.withCoordinator ?_
      obtain ⟨_, heq, _, rfl, -⟩ := hswept.sample
      simp only [if_true, heq]
      rfl
  | false => exact hswept.withCoordinator rfl

theorem settle (h : SameBut ids e e') : SameBut ids e.settle e'.settle := by
  have hsettled : SameBut ids (e.mapPool .settle) (e'.mapPool .settle) :=
    h.mapPool fun h => h.settle
  have hclock := hsettled.clock_eq
  have hcoordinator : e'.coordinator = e.coordinator := by
    obtain ⟨_, rfl, -⟩ := h
    rfl
  unfold Engine.settle
  simp only [hclock, show (e'.mapPool .settle).coordinator = e.coordinator from hcoordinator,
    show (e.mapPool .settle).coordinator = e.coordinator from rfl]
  cases e.coordinator with
  | none => exact hsettled
  | some c =>
      simp only
      split
      · exact (hsettled.coordinate c).mapPool fun h => h.settle
      · exact hsettled

/-! ## Waits -/

theorem jump (h : SameBut ids e e') (t : Instant) : SameBut ids (e.jump t) (e'.jump t) := by
  refine settle (h.mapPool fun h => ?_)
  obtain ⟨c, rfl, hc⟩ := h
  exact ⟨c, rfl, hc⟩

/-- Waits for something that does not show in the channels take the same time. -/
theorem runUntil (h : SameBut ids e e') {stop : Engine α → Bool}
    (hstop : ∀ {e e' : Engine α}, SameBut ids e e' → stop e' = stop e) (limit : Instant) :
    SameBut ids (e.runUntil stop limit) (e'.runUntil stop limit) :=
  related_runUntil (R := SameBut ids) (fun h t => h.jump t) (fun h => h.clock_eq)
    (fun h => h.nextWake_eq) hstop limit h

theorem deadline_eq (h : SameBut ids e e') (timeout : Option Duration) :
    e'.deadline timeout = e.deadline timeout := by
  unfold deadline
  rw [h.clock_eq]

theorem await (h : SameBut ids e e') (handle : Handle) (timeout : Option Duration) :
    SameBut ids (e.await handle timeout).1 (e'.await handle timeout).1 := by
  unfold Engine.await receiveWithin
  simp only [h.deadline_eq]
  refine h.runUntil (fun h => ?_) _
  unfold Handle.isSettled
  rw [h.pool.outcome?_eq]

theorem meanwhile (h : SameBut ids e e') (id : Nat) (inquiry : Inquiry) :
    SameBut ids (e.meanwhile id inquiry) (e'.meanwhile id inquiry) := by
  have hawait : ∀ timeout, SameBut ids (e.awaitOutcome id timeout) (e'.awaitOutcome id timeout) := by
    intro timeout
    unfold awaitOutcome
    rw [h.deadline_eq]
    exact h.runUntil (fun h => by rw [h.pool.outcome?_eq]) _
  cases inquiry with
  | tryOutcome => exact h
  | waitTimeout timeout | wait | get timeout | getAsync timeout => exact hawait _

theorem joinWorkers (h : SameBut ids e e') : SameBut ids e.joinWorkers e'.joinWorkers := by
  have hlimit : e'.clock + e'.pool.timeNeeded = e.clock + e.pool.timeNeeded := by
    obtain ⟨_, rfl, _, rfl, -⟩ := h
    rfl
  have hwaited : SameBut ids e.awaitWorkers e'.awaitWorkers := by
    unfold awaitWorkers
    rw [hlimit]
    refine h.runUntil (fun h => ?_) _
    unfold Pool.isStopped
    rw [h.pool.workers_eq]
  exact hwaited.mapPool fun h => h.join

/-! ## Requests -/

theorem ask {β : Type} (h : SameBut ids e e') {request : Pool α → Pool α × β}
    (hrequest : ∀ {p q : Pool α}, p.SameBut ids q →
      (request p).1.SameBut ids (request q).1 ∧ (request q).2 = (request p).2) :
    SameBut ids (e.ask request).1 (e'.ask request).1 ∧ (e'.ask request).2 = (e.ask request).2 := by
  obtain ⟨pool, rfl, hpool⟩ := h
  obtain ⟨hdone, hanswer⟩ := hrequest hpool
  exact ⟨settle ⟨_, rfl, hdone⟩, hanswer⟩

theorem tell (h : SameBut ids e e') {request : Pool α → Pool α}
    (hrequest : ∀ {p q : Pool α}, p.SameBut ids q → (request p).SameBut ids (request q)) :
    SameBut ids (e.tell request) (e'.tell request) :=
  settle (h.mapPool hrequest)

theorem submitAt (h : SameBut ids e e') (readyAt : Instant) (s : Submission α) :
    SameBut ids (e.submitAt readyAt s).1 (e'.submitAt readyAt s).1 ∧
      (e'.submitAt readyAt s).2 = (e.submitAt readyAt s).2 :=
  h.ask fun h => h.submitAt readyAt s

theorem submit (h : SameBut ids e e') (s : Submission α) :
    SameBut ids (e.submit s).1 (e'.submit s).1 ∧ (e'.submit s).2 = (e.submit s).2 := by
  have hsubmit : ∀ e : Engine α, e.submit s = e.submitAt e.clock s := fun _ => rfl
  rw [hsubmit, hsubmit, h.clock_eq]
  exact h.submitAt e.clock s

theorem schedule (h : SameBut ids e e') (delay : Duration) (s : Submission α) :
    SameBut ids (e.schedule delay s).1 (e'.schedule delay s).1 ∧
      (e'.schedule delay s).2 = (e.schedule delay s).2 := by
  unfold Engine.schedule
  rw [h.clock_eq]
  exact h.submitAt _ s

theorem stopCoordinator (h : SameBut ids e e') :
    SameBut ids e.stopCoordinator e'.stopCoordinator := by
  obtain ⟨pool, rfl, hpool⟩ := h
  exact ⟨pool, rfl, hpool⟩

theorem shutdownPool (h : SameBut ids e e') (graceful : Bool) :
    SameBut ids (e.shutdownPool graceful) (e'.shutdownPool graceful) :=
  joinWorkers (h.tell fun h => h.close graceful)

theorem abandonPool (h : SameBut ids e e') : SameBut ids e.abandonPool e'.abandonPool :=
  h.tell fun h => h.abandon

/-- Whatever is asked of both engines, they stay the same but for these channels. -/
theorem serve (h : SameBut ids e e') (request : Request α) :
    SameBut ids (e.serve request) (e'.serve request) := by
  cases request with
  | submit s => exact (h.submit s).1
  | submitAt readyAt s => exact (h.submitAt readyAt s).1
  | schedule delay s => exact (h.schedule delay s).1
  | scheduleRecurring interval s =>
      obtain ⟨_, rfl, c, rfl, hc⟩ := h
      unfold Engine.serve Engine.scheduleRecurring
      simp only
      split
      · exact ⟨_, rfl, c, rfl, hc⟩
      · exact ⟨_, rfl, c, rfl, hc⟩
  | sweep now => exact settle (h.submitDue now)
  | freshToken =>
      refine (h.ask fun h => ?_).1
      obtain ⟨c, rfl, hc⟩ := h
      exact ⟨⟨c, rfl, hc⟩, rfl⟩
  | cancel t =>
      refine h.tell fun h => ?_
      obtain ⟨c, rfl, hc⟩ := h
      exact ⟨c, rfl, hc⟩
  | switch kind => exact (h.ask fun h => h.switch kind).1
  | tellBreaker change =>
      refine (h.ask fun h => ?_).1
      obtain ⟨c, rfl, hc⟩ := h
      exact ⟨⟨c, rfl, hc⟩, rfl⟩
  | advance d =>
      unfold Engine.serve Engine.advance
      simp only [h.clock_eq]
      exact h.runUntil (fun _ => rfl) _
  | waitIdle timeout =>
      unfold Engine.serve Engine.waitIdle
      simp only [h.deadline_eq]
      refine h.runUntil (fun h => ?_) _
      obtain ⟨_, rfl, _, rfl, -⟩ := h
      rfl
  | await handle timeout => exact h.await handle timeout
  | get handle timeout => exact h.await handle timeout
  | shutdownPool graceful => exact h.shutdownPool graceful
  | shutdown graceful => exact h.stopCoordinator.shutdownPool graceful
  | abandonPool => exact h.abandonPool
  | abandon => exact h.stopCoordinator.abandonPool
  | register interval s | cancelRecurring id | clearRecurring | registerCheck name probe
  | unregisterCheck name | report =>
      -- none of these reads or changes more of the pool than its clock, its queue and its breaker
      obtain ⟨_, rfl, c, rfl, hc⟩ := h
      exact ⟨_, rfl, c, rfl, hc⟩

/-- The same submissions give the same handles. -/
theorem handle?_eq (h : SameBut ids e e') (request : Request α) :
    e'.handle? request = e.handle? request := by
  cases request with
  | submit s => exact congrArg Except.toOption (h.submit s).2
  | submitAt readyAt s => exact congrArg Except.toOption (h.submitAt readyAt s).2
  | schedule delay s => exact congrArg Except.toOption (h.schedule delay s).2
  | _ => rfl

end SameBut

end Engine

/-- Whether a use of the handle of one of some tasks is a mere look, or gives the handle up. -/
def Use.observes (ids : List Nat) : Use α → Bool
  | .inquire id .tryOutcome | .drop id => ids.contains id
  | _ => false

namespace Session

variable {s s' : Session α} {ids : List Nat}

/-- Whether callers hold the handle that they use. -/
def holds (s : Session α) : Use α → Bool
  | .request _ => true
  | .inquire id _ | .drop id => (s.handles id).isSome

/-- Whether callers hold each handle that they use. -/
def owns (s : Session α) : List (Use α) → Bool
  | [] => true
  | u :: rest => s.holds u && (s.use u).owns rest

theorem owns_cons {u : Use α} {rest : List (Use α)} :
    s.owns (u :: rest) = true ↔ s.holds u = true ∧ (s.use u).owns rest = true :=
  Bool.and_eq_true_iff

/-- Whether two sessions are the same but for what becomes of the handles of some tasks. -/
structure Beside (ids : List Nat) (s s' : Session α) : Prop where
  engine : s.engine.SameBut ids s'.engine
  handles_eq : ∀ id, id ∉ ids → s'.handles id = s.handles id
  calls_eq : s'.calls.filter (·.id ∉ ids) = s.calls.filter (·.id ∉ ids)

theorem Beside.refl (ids : List Nat) (s : Session α) : s.Beside ids s :=
  ⟨.refl ids s.engine, fun _ _ => rfl, rfl⟩

theorem Beside.symm (h : s.Beside ids s') : s'.Beside ids s :=
  ⟨h.engine.symm, fun id hid => (h.handles_eq id hid).symm, h.calls_eq.symm⟩

theorem update_eq {handles handles' : Nat → Option Handle} {changed changed' : Option Handle}
    {id other : Nat} (hself : other = id → changed' = changed)
    (hother : handles' other = handles other) :
    Function.update handles' id changed' other = Function.update handles id changed other := by
  by_cases heq : other = id
  · subst heq
    rw [Function.update_self, Function.update_self, hself rfl]
  · rw [Function.update_of_ne heq, Function.update_of_ne heq, hother]

theorem Beside.request (h : s.Beside ids s') (r : Request α) :
    (s.use (.request r)).Beside ids (s'.use (.request r)) := by
  refine ⟨h.engine.serve r, fun id hid => ?_, h.calls_eq⟩
  simp only [use, h.engine.handle?_eq r]
  cases s.engine.handle? r with
  | none => exact h.handles_eq id hid
  | some handle => exact update_eq (fun _ => rfl) (h.handles_eq id hid)

/-- Both callers hold the handle that they ask; what they are told is the same if the handle is not one of
those that were used otherwise. -/
theorem Beside.inquire (h : s.Beside ids s') (hs : s.InOrder) (hs' : s'.InOrder) {id : Nat}
    (hholds : (s.handles id).isSome = true) (hholds' : (s'.handles id).isSome = true)
    (inquiry : Inquiry) : (s.use (.inquire id inquiry)).Beside ids (s'.use (.inquire id inquiry)) := by
  obtain ⟨handle, hheld⟩ := Option.isSome_iff_exists.1 hholds
  obtain ⟨handle', hheld'⟩ := Option.isSome_iff_exists.1 hholds'
  obtain ⟨rfl, -, -, htaken⟩ := hs.held id handle hheld
  obtain ⟨hid, -, -, htaken'⟩ := hs'.held _ handle' hheld'
  have hengine := h.engine.meanwhile handle.id inquiry
  have hreceive : handle.id ∉ ids → handle' = handle ∧
      handle'.receive (s'.engine.meanwhile handle.id inquiry).pool =
        handle.receive (s.engine.meanwhile handle.id inquiry).pool := by
    intro hnot
    have hsame := h.handles_eq handle.id hnot
    rw [hheld, hheld'] at hsame
    obtain rfl := Option.some.inj hsame
    exact ⟨rfl, hengine.pool.receive_eq hnot⟩
  simp only [use, hheld, hheld', Engine.inquire_eq htaken,
    Engine.inquire_eq (h := handle') (hid ▸ htaken'), hid]
  refine ⟨?_, fun other hother => update_eq (fun heq => ?_) (h.handles_eq other hother), ?_⟩
  · cases inquiry.keeps with
    | true => exact hengine
    | false => exact hengine.mapPool fun h => h.dropHandle handle.id
  · obtain ⟨hsame, hfound⟩ := hreceive (heq ▸ hother)
    rw [hfound, hsame]
  · have hclock : ∀ keeps : Bool,
        (if keeps then s'.engine.meanwhile handle.id inquiry
          else (s'.engine.meanwhile handle.id inquiry).mapPool (·.dropHandle handle.id)).clock =
        (if keeps then s.engine.meanwhile handle.id inquiry
          else (s.engine.meanwhile handle.id inquiry).mapPool (·.dropHandle handle.id)).clock := by
      rintro (_ | _)
      · exact hengine.clock_eq
      · exact hengine.clock_eq
    by_cases hmem : handle.id ∈ ids
    · simpa [hmem] using h.calls_eq
    · rw [List.filter_cons_of_pos (by simpa using hmem), List.filter_cons_of_pos (by simpa using hmem),
        h.calls_eq, hclock, (hreceive hmem).2]

theorem Beside.drop (h : s.Beside ids s') {id : Nat} (hholds : (s.handles id).isSome = true)
    (hholds' : (s'.handles id).isSome = true) :
    (s.use (.drop id)).Beside ids (s'.use (.drop id)) := by
  obtain ⟨handle, hheld⟩ := Option.isSome_iff_exists.1 hholds
  obtain ⟨handle', hheld'⟩ := Option.isSome_iff_exists.1 hholds'
  simp only [use, hheld, hheld']
  exact ⟨h.engine.mapPool fun h => h.dropHandle id,
    fun other hother => update_eq (fun _ => rfl) (h.handles_eq other hother), h.calls_eq⟩

/-- What is done in both sessions keeps them beside each other. -/
theorem Beside.use (h : s.Beside ids s') (hs : s.InOrder) (hs' : s'.InOrder) {u : Use α}
    (hholds : s.holds u = true) (hholds' : s'.holds u = true) : (s.use u).Beside ids (s'.use u) := by
  cases u with
  | request r => exact h.request r
  | inquire id inquiry => exact h.inquire hs hs' hholds hholds' inquiry
  | drop id => exact h.drop hholds hholds'

/-- A look at a handle, or the end of it, makes no difference but for that handle. -/
theorem Beside.use_right (h : s.Beside ids s') {u : Use α} (hobserves : u.observes ids = true) :
    s.Beside ids (s'.use u) := by
  have hhandles : ∀ {id : Nat} (changed : Option Handle), id ∈ ids → ∀ other, other ∉ ids →
      Function.update s'.handles id changed other = s.handles other := by
    intro id changed hid other hother
    have hne : other ≠ id := fun heq => hother (heq ▸ hid)
    rw [Function.update_of_ne hne]
    exact h.handles_eq other hother
  cases u with
  | request r => contradiction
  | inquire id inquiry =>
      cases inquiry with
      | tryOutcome =>
          have hid : id ∈ ids := by simpa [Use.observes] using hobserves
          simp only [Session.use]
          cases s'.handles id with
          | none => exact h
          | some handle =>
              refine ⟨h.engine, hhandles _ hid, ?_⟩
              rw [List.filter_cons_of_neg (by simpa using hid)]
              exact h.calls_eq
      | _ => contradiction
  | drop id =>
      have hid : id ∈ ids := by simpa [Use.observes] using hobserves
      simp only [Session.use]
      cases s'.handles id with
      | none => exact h
      | some handle =>
          refine ⟨?_, hhandles _ hid, h.calls_eq⟩
          obtain ⟨pool, heq, hpool⟩ := h.engine
          exact ⟨pool.dropHandle id, by rw [heq]; rfl, hpool.dropHandle_right hid⟩

/-! ## Runs -/

theorem Beside.run (h : s.Beside ids s') (hs : s.InOrder) (hs' : s'.InOrder)
    {uses uses' : List (Use α)}
    (hsame : uses.filter (!·.observes ids) = uses'.filter (!·.observes ids))
    (howns : s.owns uses = true) (howns' : s'.owns uses' = true) :
    (s.run uses).Beside ids (s'.run uses') := by
  refine filter_eq_induction (motive := fun uses uses' => ∀ s s' : Session α, s.Beside ids s' →
    s.InOrder → s'.InOrder → s.owns uses = true → s'.owns uses' = true →
    (s.run uses).Beside ids (s'.run uses')) ?nil ?left ?right ?both hsame s s' h hs hs' howns howns'
  case nil => exact fun _ _ h _ _ _ _ => h
  case left =>
      intro u rest rest' hobserves ih s s' h hs hs' howns howns'
      have hright := h.symm.use_right (u := u) (by simpa using hobserves)
      exact ih _ _ hright.symm (hs.use u) hs' (owns_cons.1 howns).2 howns'
  case right =>
      intro u rest rest' hobserves ih s s' h hs hs' howns howns'
      have hright := h.use_right (u := u) (by simpa using hobserves)
      exact ih _ _ hright hs (hs'.use u) howns (owns_cons.1 howns').2
  case both =>
      intro u rest rest' _ ih s s' h hs hs' howns howns'
      obtain ⟨hholds, howns⟩ := owns_cons.1 howns
      obtain ⟨hholds', howns'⟩ := owns_cons.1 howns'
      exact ih _ _ (h.use hs hs' hholds hholds') (hs.use u) (hs'.use u) howns howns'

/-- From the start of a pool or an engine on, looks at the handles of some tasks and drops of these handles
can be put in anywhere or left out: everything else stays the same, that is, which bodies are started, in
which order and at which instants, all counts and latencies, the breaker, the queue and the log, and what the
other handles tell, and when. Between any two steps of the pool, a handle can be dropped or not. -/
theorem run_beside (config : EngineConfig) (around : Surroundings) (now : Instant) (log : LogBook)
    (e : Engine α)
    (h : Engine.startPool config around now log = .ok e ∨
      Engine.start config around now log = .ok e) (ids : List Nat) :
    (∀ uses uses', uses.filter (!·.observes ids) = uses'.filter (!·.observes ids) →
        e.session.owns uses = true → e.session.owns uses' = true →
        (e.session.run uses).Beside ids (e.session.run uses')) ∧
      (∀ p, e.pool.ReachesDropping ids p → ∃ q, e.pool.Reaches q ∧ p.SameBut ids q) ∧
      ∀ (p q : Pool α) id, p.Reaches q → ∃ q', (p.dropHandle id).Reaches q' ∧ q.SameBut [id] q' := by
  have hs := inOrder_session h
  refine ⟨fun uses uses' hsame howns howns' => ?_, fun p hreaches => ?_, fun p q id hreaches => ?_⟩
  · exact (Beside.refl ids e.session).run hs hs hsame howns howns'
  · exact (Pool.SameBut.refl ids e.pool).exists_reaches hreaches
  · have hdrop : p.SameBut [id] (p.dropHandle id) :=
      (Pool.SameBut.refl [id] p).dropHandle_right List.mem_cons_self
    exact hdrop.exists_reaches hreaches.dropping

open Engine

/-- Two tasks are submitted, and the outcome of the second one is waited for. -/
def plainUses : List (Use Nat) :=
  [.request (.submit lateSubmission), .request (.submit lateSubmission), .inquire 2 .wait]

/-- Meanwhile the handle of the first one is looked at, and dropped. -/
def watchedUses : List (Use Nat) :=
  [.request (.submit lateSubmission), .inquire 1 .tryOutcome, .request (.submit lateSubmission),
    .inquire 1 .tryOutcome, .drop 1, .inquire 2 .wait]

theorem watchedUses_beside :
    (startPool soloConfig {} 0 ⟨0, []⟩ = .ok (ofPool soloConfig soloPool none) ∨
        Engine.start soloConfig {} 0 ⟨0, []⟩ = .ok (ofPool soloConfig soloPool none)) ∧
      ((ofPool soloConfig soloPool none).session.run plainUses).Beside [1]
        ((ofPool soloConfig soloPool none).session.run watchedUses) ∧
      ((ofPool soloConfig soloPool none).session.run watchedUses).callsOn 2 =
        [⟨2, .wait, 6, .shown (some (.completed 7))⟩] ∧
      (∃ q, (soloPool.dropHandle 1).Reaches q ∧
        (soloPool.submitAt 0 lateSubmission).1.SameBut [1] q) := by
  have hstart : startPool soloConfig {} 0 ⟨0, []⟩ = .ok (ofPool soloConfig soloPool none) :=
    startPool_of_start start_soloPool
  have h := run_beside soloConfig {} 0 ⟨0, []⟩ _ (.inl hstart) [1]
  refine ⟨.inl hstart, h.1 plainUses watchedUses rfl (by decide +kernel) (by decide +kernel),
    by decide +kernel, ?_⟩
  exact h.2.2 soloPool _ 1 (Pool.Step.submitAt soloPool 0 lateSubmission).reaches

end Session

end Dispatch
