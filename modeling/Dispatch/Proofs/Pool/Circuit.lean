import Dispatch.Proofs.Breaker.Calls
import Dispatch.Proofs.Pool.Taking
/-!
# What the breaker has to do with a step

The breaker is asked when a task is submitted and when a worker is about to start one, and it is told of
the outcomes that are delivered. Apart from that only a caller from outside can change it. A run in
which callers make some calls to the breaker only is therefore a sequence of steps that are known to the
breaker, and what is shown here of one of them is all that the breaker learns.
-/

namespace Dispatch

variable {α : Type}

namespace Breaker

variable {b : Breaker} {now : Instant}

/-- The breaker after it was told of outcomes, which lists the latest one first. -/
def told (b : Breaker) (now : Instant) (ended : List (Nat × Outcome α)) : Breaker :=
  ended.foldr (fun d b => b.learn now (.ofOutcome d.2)) b

/-- The breaker after it was possibly asked to let work through. -/
def asked (b : Breaker) (now : Instant) (asks : Bool) : Breaker :=
  if asks then (b.acquire now).1 else b

/-- A closed circuit lets all work through. -/
theorem asked_of_closed (h : b.circuit = .closed) (now : Instant) (asks : Bool) :
    b.asked now asks = b := by
  unfold asked
  split
  · rw [acquire, if_neg (by simp [h])]
  · rfl

/-- What a breaker learns from an outcome is a success, a failure or nothing. -/
theorem learn_cases (b : Breaker) (now : Instant) (o : Outcome α) :
    o.isCompleted = true ∧ b.learn now (.ofOutcome o) = b.call now .success ∨
      o.isCompleted = false ∧ (b.learn now (.ofOutcome o) = b.call now .failure ∨
        b.learn now (.ofOutcome o) = b) := by
  cases o with
  | completed value => exact .inl ⟨rfl, rfl⟩
  | cancelled => exact .inr ⟨rfl, .inr rfl⟩
  | failed fault => cases fault <;> first | exact .inr ⟨rfl, .inl rfl⟩ | exact .inr ⟨rfl, .inr rfl⟩

/-- What successes and failures keep holds after a breaker was told of outcomes. -/
theorem keeps_told {I : Breaker → Prop} (hsuccess : ∀ b, I b → I (b.call now .success))
    (hfailure : ∀ b, I b → I (b.call now .failure)) (h : I b) (ended : List (Nat × Outcome α)) :
    I (b.told now ended) := by
  induction ended with
  | nil => exact h
  | cons d rest ih =>
      show I ((b.told now rest).learn now (.ofOutcome d.2))
      rcases learn_cases (b.told now rest) now d.2 with ⟨-, heq⟩ | ⟨-, heq | heq⟩ <;> rw [heq]
      · exact hsuccess _ ih
      · exact hfailure _ ih
      · exact ih

/-- What every call but a reset keeps holds after a breaker was asked and then told of outcomes. -/
theorem keeps_asked_told {I : Breaker → Prop} (hcall : ∀ b c, c ≠ .reset → I b → I (b.call now c))
    (h : I b) (asks : Bool) (ended : List (Nat × Outcome α)) :
    I ((b.asked now asks).told now ended) := by
  refine keeps_told (fun b => hcall b .success (by simp)) (fun b => hcall b .failure (by simp)) ?_ ended
  unfold asked
  split
  · exact hcall b .acquire (by simp) h
  · exact h

/-- A breaker learns nothing from cancellations and from its own refusals. -/
theorem told_eq_self (b : Breaker) (now : Instant) {ended : List (Nat × Outcome α)}
    (h : ∀ d ∈ ended, d.2 = .cancelled ∨ ∃ left, d.2 = .failed (.circuitOpen left)) :
    b.told now ended = b := by
  induction ended with
  | nil => rfl
  | cons d rest ih =>
      have hrest := ih fun d' hd => h d' (List.mem_cons_of_mem d hd)
      show (b.told now rest).learn now (.ofOutcome d.2) = b
      rw [hrest]
      rcases h d List.mem_cons_self with heq | ⟨left, heq⟩ <;> rw [heq] <;> rfl

end Breaker

namespace Pool

variable {p q r : Pool α} {t : Task (Job α)} {o : Outcome α}

/-- Whether a step asked the breaker at most once, told it of the outcomes that it delivered, and
started a body only if the breaker let it through. -/
structure Deals (p q : Pool α) (asks : Bool) (ended : List (Nat × Outcome α)) : Prop where
  delivered_eq : q.delivered = ended ++ p.delivered
  breaker_eq : q.breaker = (p.breaker.asked p.clock asks).told p.clock ended
  takes_cases : q.takes = p.takes ∨ ∃ t started, q.takes = ⟨t, p.clock, started⟩ :: p.takes ∧
    (started = true → asks = true ∧ (p.breaker.acquire p.clock).2 = .ok ())

/-- What is started in such a step was let through by the breaker. -/
theorem Deals.passes {asks : Bool} {ended : List (Nat × Outcome α)} (h : p.Deals q asks ended)
    {take : Take α} (htake : take ∈ q.takes) (hnew : take ∉ p.takes)
    (hstarted : take.started = true) : asks = true ∧ (p.breaker.acquire p.clock).2 = .ok () := by
  rcases h.takes_cases with heq | ⟨t, started, heq, hpass⟩
  · exact absurd (heq ▸ htake) hnew
  · rw [heq] at htake
    obtain rfl := (List.mem_cons.1 htake).resolve_right hnew
    exact hpass hstarted

/-! ## Turns -/

theorem Ends.delivered_eq (h : p.Ends t o q) : q.delivered = (t.id, o) :: p.delivered := by
  obtain ⟨metrics, breaker, log, -, rfl⟩ := h
  rfl

theorem Ends.breaker_eq (h : p.Ends t o q) : q.breaker = p.breaker.told p.clock [(t.id, o)] := by
  obtain ⟨metrics, breaker, log, haccounts, rfl⟩ := h
  exact haccounts.breaker_eq

theorem Proceeds.exists_told {actions : List Action} {w : Worker α}
    (h : p.Proceeds t actions q w) : ∃ ended, q.delivered = ended ++ p.delivered ∧
      q.breaker = p.breaker.told p.clock ended := by
  cases h with
  | sleeps _ _ _ _ => exact ⟨[], rfl, rfl⟩
  | ends _ _ hends => exact ⟨_, hends.delivered_eq, hends.breaker_eq⟩

theorem TakesOn.exists_deals {queue : TaskQueue (Job α)} {w : Worker α}
    (h : p.TakesOn queue t q w) : ∃ asks ended, p.Deals q asks ended := by
  cases h with
  | cancels _ hends =>
      refine ⟨false, [(t.id, .cancelled)], hends.delivered_eq, hends.breaker_eq, .inr ?_⟩
      exact ⟨t, false, hends.takes_eq, by simp⟩
  | refuses breaker log _ _ hends hbreaker =>
      subst hbreaker
      refine ⟨true, [(t.id, .failed _)], hends.delivered_eq, hends.breaker_eq, .inr ?_⟩
      exact ⟨t, false, hends.takes_eq, by simp⟩
  | starts breaker log _ hpass hproceeds hbreaker =>
      subst hbreaker
      obtain ⟨ended, hdelivered, htold⟩ := hproceeds.exists_told
      refine ⟨true, ended, hdelivered, htold, .inr ?_⟩
      exact ⟨t, true, hproceeds.takes_eq, fun _ => ⟨rfl, hpass⟩⟩

theorem Turned.exists_deals {index : Nat} {w w' : Worker α} (h : p.Turned index w q w') :
    ∃ asks ended, p.Deals q asks ended := by
  cases h with
  | rests _ => exact ⟨false, [], rfl, rfl, .inl rfl⟩
  | misses _ _ _ _ _ _ => exact ⟨false, [], rfl, rfl, .inl rfl⟩
  | goesOn _ _ hproceeds =>
      obtain ⟨ended, hdelivered, htold⟩ := hproceeds.exists_told
      exact ⟨false, ended, hdelivered, htold, .inl hproceeds.takes_eq⟩
  | takes _ _ _ htakes => exact htakes.exists_deals

theorem exists_deals_turnAt (hs : p.queue.Sound p.clock) (index : Nat) :
    ∃ asks ended, p.Deals (p.turnAt index) asks ended := by
  rcases turnAt_cases hs index with ⟨-, heq⟩ | ⟨w, p', w', -, hturned, heq⟩
  · rw [heq]
    exact ⟨false, [], rfl, rfl, .inl rfl⟩
  · rw [heq]
    obtain ⟨asks, ended, hdeals⟩ := hturned.exists_deals
    exact ⟨asks, ended, { hdeals with }⟩

/-! ## Submissions and removals -/

theorem breaker_enqueue (p : Pool α) (t : Task (Job α)) : (p.enqueue t).1.breaker = p.breaker := by
  unfold enqueue
  simp only
  split <;> rfl

theorem breaker_accept (p : Pool α) (t : Task (Job α)) :
    (p.accept t).1.breaker = p.breaker.asked p.clock p.accepting := by
  unfold accept Breaker.asked
  split
  · unfold acquire
    cases hacquire : p.breaker.acquire p.clock with
    | mk b answer =>
        cases answer with
        | error fault => rfl
        | ok => exact breaker_enqueue _ t
  · rfl

theorem deals_submitAt (p : Pool α) (readyAt : Instant) (s : Submission α) :
    p.Deals (p.submitAt readyAt s).1 p.accepting [] where
  delivered_eq := (submits_submitAt p readyAt s).delivered_eq
  breaker_eq := breaker_accept { p with nextId := p.nextId + 1 } _
  takes_cases := .inl (submits_submitAt p readyAt s).takes_eq

/-- A removal delivers a cancellation for each of its tasks. -/
theorem delivered_cancelRemoved (p : Pool α) (removed : List (Task (Job α))) :
    (p.cancelRemoved removed).delivered =
      removed.reverse.map (fun t => (t.id, Outcome.cancelled)) ++ p.delivered := by
  rw [cancelRemoved_eq]
  induction removed generalizing p with
  | nil => rfl
  | cons t rest ih =>
      rw [List.foldl_cons, ih (p.cancelUntaken t), List.reverse_cons, List.map_append,
        List.append_assoc]
      rfl

@[simp] theorem cancelRemoved_breaker (removed : List (Task (Job α))) :
    (p.cancelRemoved removed).breaker = p.breaker := by
  obtain ⟨_, _, _, _, h⟩ := cancelRemoved_eq_with p removed
  rw [h]

theorem deals_cancelRemoved (p : Pool α) (removed : List (Task (Job α))) :
    p.Deals (p.cancelRemoved removed) false
      (removed.reverse.map fun t => (t.id, Outcome.cancelled)) where
  delivered_eq := delivered_cancelRemoved p removed
  breaker_eq := (cancelRemoved_breaker removed).trans
    (Breaker.told_eq_self p.breaker p.clock (by simp)).symm
  takes_cases := .inl (cancelRemoved_takes removed)

/-! ## Steps -/

theorem Work.exists_deals (hs : p.queue.Sound p.clock) (h : Work p q) :
    ∃ asks ended, p.Deals q asks ended := by
  cases h with
  | turn index => exact exists_deals_turnAt hs index
  | tick now hle => exact ⟨false, [], rfl, rfl, .inl rfl⟩

/-- A step deals with the breaker in this way, or is a call from outside. -/
theorem Step.exists_deals (hs : p.queue.Sound p.clock) (h : Step p q) :
    (∃ asks ended, p.Deals q asks ended) ∨
      ∃ change : Breaker → Breaker, q = p.withBreaker (change p.breaker) := by
  cases h with
  | work hwork => exact .inl (hwork.exists_deals hs)
  | submitAt readyAt s => exact .inl ⟨_, _, deals_submitAt p readyAt s⟩
  | tellBreaker change => exact .inr ⟨change, rfl⟩
  | clear graceful _ => exact .inl ⟨_, _, { deals_cancelRemoved _ _ with }⟩
  | strand => exact .inl ⟨_, _, { deals_cancelRemoved _ _ with }⟩
  | _ => exact .inl ⟨false, [], rfl, rfl, .inl rfl⟩

/-- One thing that happens to a pool, where some calls to its breaker can be made from outside. -/
inductive Happens (allowed : Breaker.Call → Prop) : Pool α → Pool α → Prop where
  | work {p q : Pool α} (h : Work p q) : Happens allowed p q
  | submitAt (p : Pool α) (readyAt : Instant) (s : Submission α) :
      Happens allowed p (p.submitAt readyAt s).1
  /-- Something that leaves the breaker as it is. -/
  | aside {p q : Pool α} (h : Step p q) (hbreaker : q.breaker = p.breaker) : Happens allowed p q
  | call (p : Pool α) (c : Breaker.Call) (hallowed : allowed c) :
      Happens allowed p (p.withBreaker (p.breaker.call p.clock c))

/-- Whether a pool can become another one in this way. -/
def Runs (allowed : Breaker.Call → Prop) : Pool α → Pool α → Prop :=
  Relation.ReflTransGen (Happens allowed)

variable {allowed : Breaker.Call → Prop}

theorem Happens.step (h : Happens allowed p q) : Step p q := by
  cases h with
  | work hwork => exact .work hwork
  | submitAt readyAt s => exact .submitAt p readyAt s
  | aside hstep _ => exact hstep
  | call c _ => exact .tellBreaker p fun b => b.call p.clock c

theorem Runs.reaches (h : p.Runs allowed q) : p.Reaches q := by
  induction h with
  | refl => exact Reaches.refl p
  | tail _ hlast ih => exact ih.trans hlast.step.reaches

/-- What happens deals with the breaker as a step does, or is a call that is allowed. -/
theorem Happens.deals_or_call (hs : p.queue.Sound p.clock) (h : Happens allowed p q) :
    (∃ asks ended, p.Deals q asks ended) ∨
      ∃ c, allowed c ∧ q = p.withBreaker (p.breaker.call p.clock c) := by
  cases h with
  | work hwork => exact .inl (hwork.exists_deals hs)
  | submitAt readyAt s => exact .inl ⟨_, _, deals_submitAt p readyAt s⟩
  | aside hstep hbreaker =>
      rcases hstep.exists_deals hs with hdeals | ⟨change, rfl⟩
      · exact .inl hdeals
      · exact .inl ⟨false, [], rfl, hbreaker, .inl rfl⟩
  | call c hallowed => exact .inr ⟨c, hallowed, rfl⟩

/-! ## Before the first submission -/

theorem answers_turnAt (hs : p.queue.Sound p.clock) (index : Nat) :
    (p.turnAt index).answers = p.answers := by
  rcases turnAt_cases hs index with ⟨-, heq⟩ | ⟨w, p', w', -, hturned, heq⟩
  · rw [heq]
  · rw [heq]
    exact hturned.sameFrame.answers_eq

/-- As long as nothing was submitted, nothing has ended. -/
theorem Kept.delivered_eq_nil (h : p.Kept) (hanswers : p.answers = []) : p.delivered = [] := by
  have hnil : p.accepted = [] := by simp [accepted, hanswers]
  have hperm := h.balanced.accepted_perm
  rw [hnil, List.map_nil, List.nil_perm, List.append_eq_nil_iff] at hperm
  exact List.map_eq_nil_iff.1 hperm.2

/-- Before the first submission a closed circuit is left as it is. -/
theorem Works.breaker_eq (hkept : p.Kept) (hanswers : p.answers = [])
    (hclosed : p.breaker.circuit = .closed) (h : p.Works q) :
    q.answers = [] ∧ q.breaker = p.breaker := by
  induction h with
  | refl => exact ⟨hanswers, rfl⟩
  | @tail m q hfirst hlast ih =>
      have hm : m.Kept := (Works.reaches hfirst).kept hkept
      have hs := hm.balanced.sound
      have hnone : q.answers = [] := by
        cases hlast with
        | turn index => exact (answers_turnAt hs index).trans ih.1
        | tick now hle => exact ih.1
      obtain ⟨asks, ended, hdeals⟩ := hlast.exists_deals hs
      have hended := hdeals.delivered_eq
      rw [((Step.work hlast).kept hm).delivered_eq_nil hnone, hm.delivered_eq_nil ih.1] at hended
      obtain rfl : ended = [] := by simpa using hended
      refine ⟨hnone, hdeals.breaker_eq.trans ?_⟩
      rw [ih.2, Breaker.asked_of_closed hclosed]
      rfl

end Pool

end Dispatch
