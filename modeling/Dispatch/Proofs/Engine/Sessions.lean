import Dispatch.Proofs.Engine.Starts
import Dispatch.Proofs.Pool.Channels
import Mathlib.Logic.Function.Basic
/-!
# Callers and their handles

A caller gets the handle of each task whose submission is accepted. The handle can be asked for the outcome
of the task, and some calls use it up; a handle can also be dropped. A session is a run of an engine together
with what its callers do with their handles. What a handle tells is the outcome that was delivered for its
task, and it tells it once: a later call finds the channel disconnected, and reports a shutdown.
-/

namespace Dispatch

variable {α : Type}

/-- How a caller asks a handle for the outcome of its task. -/
inductive Inquiry where
  /-- Looks whether there is an outcome. -/
  | tryOutcome
  | waitTimeout (timeout : Duration)
  | wait
  /-- Waits for the value. -/
  | get (timeout : Option Duration)
  | getAsync (timeout : Duration)
deriving DecidableEq, Repr

/-- What a caller is told. -/
inductive HandleAnswer (α : Type) where
  | shown (outcome : Option (Outcome α))
  | value (value : Except Fault α)
deriving DecidableEq

namespace Inquiry

/-- Whether the handle can be used again. -/
def keeps : Inquiry → Bool
  | tryOutcome | waitTimeout _ => true
  | wait | get _ | getAsync _ => false

/-- What a caller is told who is shown an outcome, or nothing yet. -/
def answer : Inquiry → Option (Outcome α) → HandleAnswer α
  | tryOutcome, o | waitTimeout _, o | wait, o => .shown o
  | get _, o | getAsync _, o => .value (Engine.valueOf o)

end Inquiry

namespace Engine

/-- Asks a handle; gives the handle as well if it can be used again. -/
def inquire (e : Engine α) (h : Handle) : Inquiry → Engine α × Option Handle × HandleAnswer α
  | .tryOutcome =>
    let (h, outcome) := h.poll e.pool
    (e, some h, .shown outcome)
  | .waitTimeout timeout =>
    let (e, h, outcome) := e.await h (some timeout)
    (e, some h, .shown outcome)
  | .wait =>
    let (e, _, outcome) := e.await h none
    (e.mapPool (·.dropHandle h.id), none, .shown outcome)
  | .get timeout =>
    let (e, value) := e.get h timeout
    (e.mapPool (·.dropHandle h.id), none, .value value)
  | .getAsync timeout =>
    let (e, value) := e.getAsync h timeout
    (e.mapPool (·.dropHandle h.id), none, .value value)

/-- The handle that a request gives, if it submits a task that is accepted. -/
def handle? (e : Engine α) : Request α → Option Handle
  | .submit s => (e.submit s).2.toOption
  | .submitAt readyAt s => (e.submitAt readyAt s).2.toOption
  | .schedule delay s => (e.schedule delay s).2.toOption
  | _ => none

end Engine

/-- A call on the handle of a task. -/
structure HandleCall (α : Type) where
  /-- The number of the task. -/
  id : Nat
  inquiry : Inquiry
  /-- When it returned. -/
  returnedAt : Instant
  answer : HandleAnswer α
deriving DecidableEq

/-- What is done in a session. -/
inductive Use (α : Type) where
  | request (r : Request α)
  | inquire (id : Nat) (inquiry : Inquiry)
  /-- Drops the handle of a task. -/
  | drop (id : Nat)

/-- An engine, and what its callers have. -/
structure Session (α : Type) where
  engine : Engine α
  /-- The handles that callers hold, by the numbers of their tasks. -/
  handles : Nat → Option Handle := fun _ => none
  /-- The calls on handles, the newest first. -/
  calls : List (HandleCall α) := []

/-- The session that begins with an engine, when nobody has a handle. -/
def Engine.session (e : Engine α) : Session α := { engine := e }

namespace Session

/-- A handle that a caller does not hold can be neither asked nor dropped. -/
def use (s : Session α) : Use α → Session α
  | .request r =>
    { s with
      engine := s.engine.serve r
      handles := (s.engine.handle? r).elim s.handles fun h =>
        Function.update s.handles h.id (some h) }
  | .inquire id inquiry =>
    match s.handles id with
    | none => s
    | some h =>
      let (e, h, answer) := s.engine.inquire h inquiry
      { engine := e
        handles := Function.update s.handles id h
        calls := ⟨id, inquiry, e.clock, answer⟩ :: s.calls }
  | .drop id =>
    match s.handles id with
    | none => s
    | some _ =>
      { s with
        engine := s.engine.mapPool (·.dropHandle id)
        handles := Function.update s.handles id none }

def run (s : Session α) (uses : List (Use α)) : Session α := uses.foldl use s

/-- The calls on the handle of a task, the newest first. -/
def callsOn (s : Session α) (id : Nat) : List (HandleCall α) := s.calls.filter (·.id = id)

end Session

namespace Engine

/-! ## What an inquiry amounts to -/

/-- What becomes of an engine while the outcome of a task is waited for. -/
def awaitOutcome (e : Engine α) (id : Nat) (timeout : Option Duration) : Engine α :=
  e.runUntil (fun e => (e.pool.outcome? id).isSome) (e.deadline timeout)

/-- What has become of an engine when an inquiry finds out what there is. -/
def meanwhile (e : Engine α) (id : Nat) : Inquiry → Engine α
  | .tryOutcome => e
  | .waitTimeout timeout | .getAsync timeout => e.awaitOutcome id (some timeout)
  | .wait => e.awaitOutcome id none
  | .get timeout => e.awaitOutcome id timeout

theorem runUntil_of_stop {stop : Engine α → Bool} {e : Engine α} (h : stop e = true)
    (limit : Instant) : e.runUntil stop limit = e := by
  rw [runUntil, if_pos h]

/-- A wait for a task whose outcome was taken is over at once, since the outcome is there. -/
theorem receiveWithin_eq {e : Engine α} {h : Handle}
    (htaken : h.taken = true → (e.pool.outcome? h.id).isSome = true) (timeout : Option Duration) :
    e.receiveWithin h timeout =
      (e.awaitOutcome h.id timeout, h.receive (e.awaitOutcome h.id timeout).pool) := by
  have hwait : e.runUntil (fun e => h.isSettled e.pool) (e.deadline timeout) =
      e.awaitOutcome h.id timeout := by
    unfold awaitOutcome
    cases hfree : h.taken with
    | false =>
        congr 1
        funext e
        simp [Handle.isSettled, hfree]
    | true =>
        rw [runUntil_of_stop (by simp [Handle.isSettled, hfree]), runUntil_of_stop (htaken hfree)]
  unfold receiveWithin
  simp only [hwait]

theorem result_eq (r : Receipt α) : r.result = valueOf r.shown := by
  cases r <;> rfl

/-- An inquiry shows what is found in the channel when it is over. -/
theorem inquire_eq {e : Engine α} {h : Handle}
    (htaken : h.taken = true → (e.pool.outcome? h.id).isSome = true) (inquiry : Inquiry) :
    e.inquire h inquiry =
      (if inquiry.keeps then e.meanwhile h.id inquiry
        else (e.meanwhile h.id inquiry).mapPool (·.dropHandle h.id),
        if inquiry.keeps then some (h.after (h.receive (e.meanwhile h.id inquiry).pool)) else none,
        inquiry.answer (h.receive (e.meanwhile h.id inquiry).pool).shown) := by
  cases inquiry with
  | tryOutcome => rfl
  | waitTimeout timeout | wait =>
      simp only [inquire, await, receiveWithin_eq htaken]
      rfl
  | get timeout =>
      simp only [inquire, get, await, receiveWithin_eq htaken]
      rfl
  | getAsync timeout =>
      simp only [inquire, getAsync, receiveWithin_eq htaken, result_eq]
      rfl

theorem paces_meanwhile {watched : Option Identifier} (e : Engine α) (id : Nat) (inquiry : Inquiry) :
    Paces watched e (e.meanwhile id inquiry) := by
  cases inquiry with
  | tryOutcome => exact .refl
  | _ => exact paces_runUntil _ _ e

theorem comes_meanwhile (e : Engine α) (id : Nat) (inquiry : Inquiry) :
    e.Comes (e.meanwhile id inquiry) :=
  Paces.comes (paces_meanwhile e id inquiry : Paces none e _)

end Engine

namespace Pool

variable {p q : Pool α} {id : Nat} {o : Outcome α}

/-- What was delivered for a task stays so. -/
theorem Kept.outcome?_of_reaches (h : p.Kept) (hreaches : p.Reaches q)
    (ho : p.outcome? id = some o) : q.outcome? id = some o := by
  rw [(hreaches.kept h).outcome?_eq_some_iff]
  exact (hreaches.grows h.balanced.sound).delivered_suffix.subset (h.outcome?_eq_some_iff.1 ho)

/-- No task fails because of a shutdown. -/
theorem Kept.ne_shuttingDown (h : p.Kept) (ho : p.outcome? id = some o) :
    o ≠ .failed .shuttingDown := by
  rintro rfl
  rcases h.endsOnce.fault_cases id _ ho with ⟨_, heq⟩ | ⟨_, heq⟩ <;> contradiction

/-- As long as the outcome of a task has not been taken, its channel holds what was delivered. -/
theorem Faithful.receive_shown (h : p.Faithful) {handle : Handle}
    (hheld : handle.id ∉ p.channels.dropped) : (handle.receive p).shown =
      if handle.taken then some (.failed .shuttingDown) else p.outcome? handle.id := by
  unfold Handle.receive
  split
  · rfl
  · rw [h _ hheld]
    cases p.outcome? handle.id <;> rfl

/-- The outcome is taken when it is shown. -/
theorem Faithful.taken_after (h : p.Faithful) {handle : Handle}
    (hheld : handle.id ∉ p.channels.dropped) : (handle.after (handle.receive p)).taken =
      (handle.taken || (p.outcome? handle.id).isSome) := by
  unfold Handle.receive
  cases htaken : handle.taken with
  | true => simp [Handle.after, htaken]
  | false =>
      rw [h _ hheld]
      cases p.outcome? handle.id <;> simp [Handle.after, htaken]

/-- Whether a submission has been given a number. -/
def Numbered (p : Pool α) (id : Nat) : Prop := id ∈ p.answers.map (·.1.id)

theorem Numbered.grows (h : p.Numbered id) (hgrows : p.Grows q) : q.Numbered id :=
  (hgrows.answers_suffix.map _).subset h

theorem Kept.not_numbered_nextId (h : p.Kept) : ¬ p.Numbered p.nextId := by
  intro hmem
  obtain ⟨a, ha, hid⟩ := List.mem_map.1 hmem
  exact absurd (h.balanced.answers_lt a ha) (hid ▸ Nat.lt_irrefl _)

end Pool

/-- Whether a call tells what there is to show. -/
def HandleCall.Tells (c : HandleCall α) (shown : Option (Outcome α)) : Prop := c.answer = c.inquiry.answer shown

/-- Whether calls on the handle of a task tell its outcome once: the earlier ones tell that there is none
yet, one tells it, and the later ones find the channel disconnected. -/
structure Pool.TellsOnce (p : Pool α) (id : Nat) (later : List (HandleCall α)) (told : Option (HandleCall α))
    (earlier : List (HandleCall α)) : Prop where
  pending : ∀ c ∈ earlier, c.Tells none
  outcome : ∀ c ∈ told, ∃ o, p.outcome? id = some o ∧ o ≠ .failed .shuttingDown ∧ c.Tells (some o)
  disconnected : ∀ c ∈ later, c.Tells (some (.failed .shuttingDown))
  later_eq_nil : told = none → later = []

namespace Session

variable {s : Session α} {e : Engine α} {id : Nat} {h : Handle}

/-- Whether what callers have got agrees with what has happened in the engine. -/
structure InOrder (s : Session α) : Prop where
  kept : s.engine.pool.Kept
  faithful : s.engine.pool.Faithful
  numbered_of_dropped : ∀ id ∈ s.engine.pool.channels.dropped, s.engine.pool.Numbered id
  numbered_of_call : ∀ c ∈ s.calls, s.engine.pool.Numbered c.id
  held : ∀ id h, s.handles id = some h → h.id = id ∧ s.engine.pool.Numbered id ∧
    id ∉ s.engine.pool.channels.dropped ∧
    (h.taken = true → (s.engine.pool.outcome? id).isSome = true)
  tells : ∀ id, ∃ later told earlier, s.callsOn id = later ++ told.toList ++ earlier ∧
    s.engine.pool.TellsOnce id later told earlier ∧
    ∀ h, s.handles id = some h → h.taken = told.isSome

/-! ## What the engine does -/

/-- Whatever happens in the engine, what callers have got stays true. -/
theorem InOrder.comes (hs : s.InOrder) (hcomes : s.engine.Comes e) :
    { s with engine := e }.InOrder := by
  have hreaches := hcomes.leadsTo hs.kept.balanced.sound
  have hgrows := hreaches.grows hs.kept.balanced.sound
  have hconveys := hreaches.conveys hs.kept.balanced.sound
  refine ⟨hreaches.kept hs.kept, hconveys.faithful hs.faithful, fun id hid => ?_,
    fun c hc => (hs.numbered_of_call c hc).grows hgrows, fun id h hid => ?_, fun id => ?_⟩
  · exact (hs.numbered_of_dropped id (hconveys.dropped_eq ▸ hid)).grows hgrows
  · obtain ⟨heq, hnumbered, hheld, htaken⟩ := hs.held id h hid
    refine ⟨heq, hnumbered.grows hgrows, hconveys.dropped_eq ▸ hheld, fun htrue => ?_⟩
    obtain ⟨o, ho⟩ := Option.isSome_iff_exists.1 (htaken htrue)
    exact Option.isSome_iff_exists.2 ⟨o, hs.kept.outcome?_of_reaches hreaches ho⟩
  · obtain ⟨later, told, earlier, hcalls, htells, htaken⟩ := hs.tells id
    refine ⟨later, told, earlier, hcalls, { htells with outcome := fun c hc => ?_ }, htaken⟩
    obtain ⟨o, ho, hrest⟩ := htells.outcome c hc
    exact ⟨o, hs.kept.outcome?_of_reaches hreaches ho, hrest⟩

/-- A change of one handle leaves the others as they are. -/
theorem update_cases {handles : Nat → Option Handle} {changed : Option Handle} {other : Nat}
    (hsome : Function.update handles id changed other = some h) :
    other = id ∧ changed = some h ∨ other ≠ id ∧ handles other = some h := by
  by_cases heq : other = id
  · subst heq
    exact .inl ⟨rfl, by rwa [Function.update_self] at hsome⟩
  · exact .inr ⟨heq, by rwa [Function.update_of_ne heq] at hsome⟩

theorem InOrder.drop (hs : s.InOrder) (hheld : s.handles id = some h) :
    { s with
      engine := s.engine.mapPool (·.dropHandle id)
      handles := Function.update s.handles id none }.InOrder := by
  obtain ⟨-, hnumbered, -⟩ := hs.held id h hheld
  have hother : ∀ other h', Function.update s.handles id none other = some h' →
      other ≠ id ∧ s.handles other = some h' := by
    intro other h' hsome
    rcases update_cases hsome with ⟨-, hnone⟩ | hrest
    · contradiction
    · exact hrest
  refine ⟨hs.kept.dropHandle id, hs.faithful.dropHandle id, ?_, hs.numbered_of_call, ?_, ?_⟩
  · exact List.forall_mem_cons.2 ⟨hnumbered, hs.numbered_of_dropped⟩
  · intro other h' hsome
    obtain ⟨hne, hbefore⟩ := hother other h' hsome
    obtain ⟨heq, hnumbered', hthere, htaken⟩ := hs.held other h' hbefore
    exact ⟨heq, hnumbered', List.not_mem_cons_of_ne_of_not_mem hne hthere, htaken⟩
  · intro other
    obtain ⟨later, told, earlier, hcalls, htells, htaken⟩ := hs.tells other
    refine ⟨later, told, earlier, hcalls, { htells with }, fun h' hsome => ?_⟩
    exact htaken h' (hother other h' hsome).2

/-! ## What callers do -/

/-- A request gives a handle of a number that no submission had before. -/
theorem exists_of_handle? {r : Request α} (hkept : e.pool.Kept) (hsome : e.handle? r = some h) :
    h.id = e.pool.nextId ∧ h.taken = false ∧ (e.serve r).pool.Numbered h.id := by
  have hsubmit : ∀ readyAt submission, (e.submitAt readyAt submission).2.toOption = some h →
      h.id = e.pool.nextId ∧ h.taken = false ∧
        (e.submitAt readyAt submission).1.pool.Numbered h.id := by
    intro readyAt submission hgiven
    have hok : (e.pool.submitAt readyAt submission).2 = .ok h := by
      generalize hanswer : (e.pool.submitAt readyAt submission).2 = answer
      change (e.pool.submitAt readyAt submission).2.toOption = some h at hgiven
      rw [hanswer] at hgiven
      cases answer with
      | error fault => contradiction
      | ok h' => exact congrArg _ (Option.some.inj hgiven)
    obtain ⟨-, hid⟩ := Pool.accepted_submitAt hok
    have hfresh : h.taken = false := by
      unfold Pool.submitAt at hok
      simp only at hok
      cases hanswer : ({ e.pool with nextId := e.pool.nextId + 1 }.accept
          ⟨e.pool.nextId, submission.priority, readyAt,
            ⟨submission.label, submission.token, submission.body⟩⟩).2 with
      | error fault => simp [hanswer, Except.map] at hok
      | ok done =>
          rw [hanswer] at hok
          exact congrArg Handle.taken (Except.ok.inj hok).symm
    refine ⟨hid, hfresh, ?_⟩
    have hsubmitted : (e.pool.submitAt readyAt submission).1.Numbered h.id := by
      rw [hid]
      exact List.mem_cons_self
    have hsound := ((Pool.Step.submitAt e.pool readyAt submission).kept hkept).balanced.sound
    have hleads := Engine.leadsTo_settle { e with pool := (e.pool.submitAt readyAt submission).1 }
    exact hsubmitted.grows ((hleads hsound).grows hsound)
  cases r with
  | submit submission => exact hsubmit e.clock submission hsome
  | submitAt readyAt submission => exact hsubmit readyAt submission hsome
  | schedule delay submission => exact hsubmit (e.clock.after delay) submission hsome
  | _ => contradiction

theorem InOrder.request (hs : s.InOrder) (r : Request α) : (s.use (.request r)).InOrder := by
  have hserved := hs.comes (Engine.comes_serve s.engine r)
  simp only [use]
  cases hsome : s.engine.handle? r with
  | none => exact hserved
  | some h =>
      obtain ⟨hid, hfresh, hnumbered⟩ := exists_of_handle? hs.kept hsome
      -- the number is a new one, so that nothing is known of it
      have hnew : ¬ s.engine.pool.Numbered h.id := hid ▸ hs.kept.not_numbered_nextId
      have hconveys := ((Engine.comes_serve s.engine r).leadsTo hs.kept.balanced.sound).conveys
        hs.kept.balanced.sound
      refine { hserved with held := fun id h' hid' => ?_, tells := fun id => ?_ }
      · rcases update_cases hid' with ⟨rfl, hgiven⟩ | ⟨-, hbefore⟩
        · cases hgiven
          refine ⟨rfl, hnumbered, fun hdropped => hnew (hs.numbered_of_dropped _ ?_), ?_⟩
          · exact hconveys.dropped_eq ▸ hdropped
          · simp [hfresh]
        · exact hserved.held id h' hbefore
      · obtain ⟨later, told, earlier, hcalls, htells, htaken⟩ := hserved.tells id
        refine ⟨later, told, earlier, hcalls, htells, fun h' hid' => ?_⟩
        rcases update_cases hid' with ⟨rfl, hgiven⟩ | ⟨-, hbefore⟩
        · cases hgiven
          cases told with
          | none => exact hfresh
          | some c =>
              have hcall : c ∈ s.callsOn h.id := by
                rw [show s.callsOn h.id = _ from hcalls]
                simp
              obtain ⟨hmem, hcid⟩ := List.mem_filter.1 hcall
              exact absurd (of_decide_eq_true hcid ▸ hs.numbered_of_call c hmem) hnew
        · exact htaken h' hbefore

theorem callsOn_cons (s : Session α) (c : HandleCall α) (handles : Nat → Option Handle) :
    { s with handles := handles, calls := c :: s.calls }.callsOn id =
      if c.id = id then c :: s.callsOn id else s.callsOn id := by
  simp only [callsOn, List.filter_cons, decide_eq_true_eq]

/-- A call on a handle is the one that tells the outcome, or one before or after it. -/
theorem tellsOnce_cons {p : Pool α} {c : HandleCall α} {later earlier : List (HandleCall α)}
    {told : Option (HandleCall α)} (hkept : p.Kept) (htells : p.TellsOnce id later told earlier)
    (hshown : c.Tells (if told.isSome then some (.failed .shuttingDown) else p.outcome? id)) :
    ∃ later' told' earlier', c :: (later ++ told.toList ++ earlier) =
        later' ++ told'.toList ++ earlier' ∧ p.TellsOnce id later' told' earlier' ∧
      told'.isSome = (told.isSome || (p.outcome? id).isSome) := by
  cases told with
  | some first =>
      refine ⟨c :: later, some first, earlier, rfl, { htells with
        disconnected := List.forall_mem_cons.2 ⟨hshown, htells.disconnected⟩
        later_eq_nil := fun hnone => by contradiction }, rfl⟩
  | none =>
      obtain rfl := htells.later_eq_nil rfl
      cases ho : p.outcome? id with
      | none =>
          refine ⟨[], none, c :: earlier, rfl, { htells with
            pending := List.forall_mem_cons.2 ⟨?_, htells.pending⟩ }, rfl⟩
          rw [← ho]
          exact hshown
      | some o =>
          refine ⟨[], some c, earlier, rfl, { htells with
            outcome := fun c' hc' => ⟨o, ho, hkept.ne_shuttingDown ho, ?_⟩
            later_eq_nil := fun hnone => by contradiction }, rfl⟩
          cases hc'
          rw [← ho]
          exact hshown

/-- A call that shows what is found in the channel goes with those before it. -/
theorem InOrder.tell (hs : s.InOrder) (hheld : s.handles id = some h) (inquiry : Inquiry) :
    { s with
      handles := Function.update s.handles id (some (h.after (h.receive s.engine.pool)))
      calls := ⟨id, inquiry, s.engine.clock,
        inquiry.answer (h.receive s.engine.pool).shown⟩ :: s.calls }.InOrder := by
  obtain ⟨rfl, hnumbered, hthere, hdelivered⟩ := hs.held id h hheld
  have hshown := hs.faithful.receive_shown hthere
  have hafter := hs.faithful.taken_after hthere
  have hid : (h.after (h.receive s.engine.pool)).id = h.id := by
    cases h.receive s.engine.pool <;> rfl
  refine { hs with numbered_of_call := ?_, held := fun id h' hid' => ?_, tells := fun id => ?_ }
  · exact List.forall_mem_cons.2 ⟨hnumbered, hs.numbered_of_call⟩
  · rcases update_cases hid' with ⟨rfl, hgiven⟩ | ⟨-, hbefore⟩
    · cases hgiven
      refine ⟨hid, hnumbered, hthere, fun htaken => ?_⟩
      rw [hafter, Bool.or_eq_true] at htaken
      exact htaken.elim hdelivered fun hsome => hsome
    · exact hs.held id h' hbefore
  · obtain ⟨later, told, earlier, hcalls, htells, htaken⟩ := hs.tells id
    rw [callsOn_cons, hcalls]
    by_cases heq : h.id = id
    · subst heq
      rw [if_pos rfl]
      rw [htaken h hheld] at hshown hafter
      have htells' : HandleCall.Tells (α := α) ⟨h.id, inquiry, s.engine.clock, _⟩ _ :=
        congrArg inquiry.answer hshown
      obtain ⟨later', told', earlier', hcalls', htells', htold⟩ :=
        tellsOnce_cons hs.kept htells htells'
      refine ⟨later', told', earlier', hcalls', htells', fun h' hid' => ?_⟩
      rcases update_cases hid' with ⟨-, hgiven⟩ | ⟨hne, -⟩
      · cases hgiven
        exact hafter.trans htold.symm
      · exact absurd rfl hne
    · rw [if_neg heq]
      refine ⟨later, told, earlier, rfl, htells, fun h' hid' => ?_⟩
      rcases update_cases hid' with ⟨hsame, -⟩ | ⟨-, hbefore⟩
      · exact absurd hsame.symm heq
      · exact htaken h' hbefore

theorem InOrder.inquire (hs : s.InOrder) (id : Nat) (inquiry : Inquiry) :
    (s.use (.inquire id inquiry)).InOrder := by
  simp only [use]
  cases hheld : s.handles id with
  | none => exact hs
  | some h =>
      obtain ⟨rfl, -, -, htaken⟩ := hs.held id h hheld
      have hmeanwhile := hs.comes (Engine.comes_meanwhile s.engine h.id inquiry)
      have htold := hmeanwhile.tell hheld inquiry
      simp only [Engine.inquire_eq htaken]
      cases hkeeps : inquiry.keeps with
      | true => exact htold
      | false =>
          -- the handle is dropped when the call has been answered
          have hdropped := htold.drop (Function.update_self _ _ _)
          rw [Function.update_idem] at hdropped
          exact hdropped

/-- Whatever is done in a session, what callers have got agrees with what has happened. -/
theorem InOrder.use (hs : s.InOrder) (u : Use α) : (s.use u).InOrder := by
  cases u with
  | request r => exact hs.request r
  | inquire id inquiry => exact hs.inquire id inquiry
  | drop id =>
      simp only [Session.use]
      cases hheld : s.handles id with
      | none => exact hs
      | some h => exact hs.drop hheld

theorem InOrder.run (hs : s.InOrder) (uses : List (Use α)) : (s.run uses).InOrder := by
  induction uses generalizing s with
  | nil => exact hs
  | cons u rest ih => exact ih (hs.use u)

/-! ## Sessions from the start -/

/-- Nobody has got a handle of a pool that has just been started. -/
theorem inOrder_session {config : EngineConfig} {around : Surroundings} {now : Instant}
    {log : LogBook} (hstart : Engine.startPool config around now log = .ok e ∨
      Engine.start config around now log = .ok e) : e.session.InOrder := by
  have hpool := Engine.start_pool hstart
  have hconveys := (Pool.works_of_start hpool).reaches.conveys
    (Pool.kept_ofWorkers _ _ _ _ _).balanced.sound
  have hdropped : e.pool.channels.dropped = [] := hconveys.dropped_eq
  exact {
    kept := Pool.kept_of_start hpool
    faithful := hconveys.faithful fun _ _ => rfl
    numbered_of_dropped := fun id hid => by simp [Engine.session, hdropped] at hid
    numbered_of_call := by simp [Engine.session]
    held := by simp [Engine.session]
    tells := fun id => ⟨[], none, [], rfl, ⟨by simp, by simp, by simp, fun _ => rfl⟩,
      by simp [Engine.session]⟩ }

/-- From the start of a pool or an engine on, whatever callers do, the calls on a handle tell the outcome
that was delivered for its task, once: calls before it tell that there is none yet, and calls after it report
a shutdown. A call that finds the outcome there is the one that tells it. -/
theorem run_tellsOnce (config : EngineConfig) (around : Surroundings) (now : Instant) (log : LogBook)
    (e : Engine α)
    (h : Engine.startPool config around now log = .ok e ∨
      Engine.start config around now log = .ok e) (uses : List (Use α)) :
    (∀ id, ∃ later told earlier,
        (e.session.run uses).callsOn id = later ++ told.toList ++ earlier ∧
        (e.session.run uses).engine.pool.TellsOnce id later told earlier) ∧
      ∀ id handle inquiry, (e.session.run uses).handles id = some handle →
        ((e.session.run uses).engine.inquire handle inquiry).2.2 =
          inquiry.answer (if handle.taken then some (.failed .shuttingDown)
            else ((e.session.run uses).engine.meanwhile id inquiry).pool.outcome? id) := by
  have hs := (inOrder_session h).run uses
  refine ⟨fun id => ?_, fun id handle inquiry hheld => ?_⟩
  · obtain ⟨later, told, earlier, hcalls, htells, -⟩ := hs.tells id
    exact ⟨later, told, earlier, hcalls, htells⟩
  · obtain ⟨rfl, -, -, htaken⟩ := hs.held id handle hheld
    have hmeanwhile := hs.comes (Engine.comes_meanwhile _ handle.id inquiry)
    obtain ⟨-, -, hthere, -⟩ := hmeanwhile.held _ handle hheld
    rw [Engine.inquire_eq htaken]
    exact congrArg inquiry.answer (hmeanwhile.faithful.receive_shown hthere)

open Engine

/-- A task is submitted, and its handle asked before and after it has ended. -/
def repeatedUses : List (Use Nat) :=
  [.request (.submit lateSubmission), .inquire 1 .tryOutcome, .inquire 1 (.waitTimeout 5),
    .inquire 1 .tryOutcome, .inquire 1 (.get none)]

/-- The handle reports a shutdown of a pool that is not shut down, after it has told the outcome. -/
theorem repeatedUses_disconnected :
    ((ofPool soloConfig soloPool none).session.run repeatedUses).engine.pool.accepting = true ∧
    ((ofPool soloConfig soloPool none).session.run repeatedUses).callsOn 1 =
      [⟨1, .get none, 3, .value (.error .shuttingDown)⟩,
        ⟨1, .tryOutcome, 3, .shown (some (.failed .shuttingDown))⟩,
        ⟨1, .waitTimeout 5, 3, .shown (some (.completed 7))⟩,
        ⟨1, .tryOutcome, 0, .shown none⟩] := by
  decide +kernel

theorem repeatedUses_tellsOnce :
    (startPool soloConfig {} 0 ⟨0, []⟩ = .ok (ofPool soloConfig soloPool none) ∨
        Engine.start soloConfig {} 0 ⟨0, []⟩ = .ok (ofPool soloConfig soloPool none)) ∧
      (∃ later told earlier,
        ((ofPool soloConfig soloPool none).session.run repeatedUses).callsOn 1 =
          later ++ told.toList ++ earlier ∧
        ((ofPool soloConfig soloPool none).session.run repeatedUses).engine.pool.TellsOnce 1
          later told earlier) ∧
      ∃ handle, ((ofPool soloConfig soloPool none).session.run (repeatedUses.take 2)).handles 1 =
          some handle ∧
        (((ofPool soloConfig soloPool none).session.run (repeatedUses.take 2)).engine.inquire handle
          .wait).2.2 = .shown (some (.completed 7)) := by
  have hstart : startPool soloConfig {} 0 ⟨0, []⟩ = .ok (ofPool soloConfig soloPool none) :=
    startPool_of_start start_soloPool
  have hall := run_tellsOnce soloConfig {} 0 ⟨0, []⟩ _ (.inl hstart) repeatedUses
  have hfirst := run_tellsOnce soloConfig {} 0 ⟨0, []⟩ _ (.inl hstart) (repeatedUses.take 2)
  have hheld : ((ofPool soloConfig soloPool none).session.run (repeatedUses.take 2)).handles 1 =
      some ⟨1, none, false⟩ := by decide +kernel
  refine ⟨.inl hstart, hall.1 1, _, hheld, (hfirst.2 1 _ .wait hheld).trans ?_⟩
  decide +kernel

end Session

end Dispatch
