import Dispatch.Proofs.Queue.Stock
/-!
# How tasks are dealt to shards

A promotion deals the delayed tasks that are due to the shards in turn, or gives all of them to the home
shard of the worker that looks if waits are to be given up. The look then goes around the shards, from the
worker's own one on as far as it may, and takes the first task of the first shard that has one.
-/

namespace Dispatch

variable {β : Type} {now later : Instant}

namespace Sharded

variable {q q' p : Sharded β} {worker index : Nat} {t : Task β}

/-! ## The tasks at one shard -/

/-- The tasks in the shard of a number. -/
def tasksAt (q : Sharded β) (index : Nat) : List (Task β) := q.shards[index]?.elim [] Shard.tasks

theorem emptyAt_iff : q.EmptyAt index ↔ q.tasksAt index = [] := by
  unfold EmptyAt tasksAt
  cases q.shards[index]? <;> simp

theorem tasksAt_eq_nil_of_le (h : q.shards.length ≤ index) : q.tasksAt index = [] := by
  simp [tasksAt, h]

theorem tasksAt_pushShard (h : index < q.shards.length) (t : Task β) (other : Nat) :
    (q.pushShard index t).tasksAt other =
      if other = index then t.insertReady (q.tasksAt other) else q.tasksAt other := by
  have hget : (q.pushShard index t).shards[other]? =
      q.shards[other]?.map fun s => if index = other then ⟨t.insertReady s.tasks, s.size + 1⟩ else s :=
    List.getElem?_modify ..
  unfold tasksAt
  rw [hget]
  by_cases heq : other = index
  · subst heq
    simp [List.getElem?_eq_getElem h]
  · simp [heq, Ne.symm heq]

theorem tasksAt_pushShard_perm (h : index < q.shards.length) (t : Task β) (other : Nat) :
    ((q.pushShard index t).tasksAt other).Perm
      ((if index = other then [t] else []) ++ q.tasksAt other) := by
  rw [tasksAt_pushShard h]
  by_cases heq : other = index
  · subst heq
    simpa [Task.insertReady] using Task.insertBy_perm Task.isMoreUrgent t (q.tasksAt other)
  · simp [heq, Ne.symm heq]

@[simp] theorem length_pushShard (index : Nat) (t : Task β) :
    (q.pushShard index t).shards.length = q.shards.length := by
  simp [pushShard, record]

@[simp] theorem length_pushReady (t : Task β) : (q.pushReady t).shards.length = q.shards.length :=
  length_pushShard _ t

/-! ## Dealing in turn -/

/-- What the shard of a number gets of some tasks that are dealt to `n` shards in turn. -/
def dealt (n cursor index : Nat) (ts : List (Task β)) : List (Task β) :=
  ((ts.zipIdx cursor).filter fun x => x.2 % n = index).map Prod.fst

theorem dealt_cons (n cursor index : Nat) (t : Task β) (ts : List (Task β)) :
    dealt n cursor index (t :: ts) =
      (if cursor % n = index then [t] else []) ++ dealt n (cursor + 1) index ts := by
  simp only [dealt, List.zipIdx_cons, List.filter_cons, decide_eq_true_eq]
  split <;> simp

/-- Tasks that come one after the other go to the shards in turn. -/
theorem tasksAt_foldl_pushReady (hpos : 0 < q.shards.length) (ts : List (Task β)) (index : Nat) :
    ((ts.foldl pushReady q).tasksAt index).Perm
      (dealt q.shards.length q.cursor index ts ++ q.tasksAt index) := by
  induction ts generalizing q with
  | nil => exact List.Perm.refl _
  | cons t ts ih =>
      have hone : ((q.pushReady t).tasksAt index).Perm
          ((if q.cursor % q.shards.length = index then [t] else []) ++ q.tasksAt index) :=
        tasksAt_pushShard_perm (Nat.mod_lt _ hpos) t index
      have hrest := ih (q := q.pushReady t) (by rwa [length_pushReady])
      rw [length_pushReady] at hrest
      rw [dealt_cons, List.append_assoc]
      exact (hrest.trans (hone.append_left _)).trans (List.perm_append_comm_assoc _ _ _)

/-- Tasks that are all put into one shard are found there and nowhere else. -/
theorem tasksAt_foldl_pushShard (hpos : 0 < q.shards.length) (worker : Nat) (ts : List (Task β))
    (index : Nat) :
    ((ts.foldl (fun q t => q.pushShard (q.home worker) t) q).tasksAt index).Perm
      ((if index = q.home worker then ts else []) ++ q.tasksAt index) := by
  induction ts generalizing q with
  | nil => simp
  | cons t ts ih =>
      have hone := tasksAt_pushShard_perm (q := q) (Nat.mod_lt worker hpos) t index
      have hrest := ih (q := q.pushShard (q.home worker) t) (by rwa [length_pushShard])
      have hhome : (q.pushShard (q.home worker) t).home worker = q.home worker := by simp [home]
      rw [hhome] at hrest
      refine (hrest.trans (hone.append_left _)).trans ?_
      by_cases heq : index = q.home worker
      · subst heq
        simp [home]
      · have hne : ¬ worker % q.shards.length = index := fun h => heq h.symm
        simp [heq, hne]

theorem cursor_foldl_pushReady (ts : List (Task β)) :
    (ts.foldl pushReady q).cursor = q.cursor + ts.length := by
  induction ts generalizing q with
  | nil => rfl
  | cons t ts ih =>
      have hone : (q.pushReady t).cursor = q.cursor + 1 := rfl
      rw [List.foldl_cons, ih, hone, List.length_cons]
      omega

theorem cursor_foldl_pushShard (worker : Nat) (ts : List (Task β)) :
    (ts.foldl (fun q t => q.pushShard (q.home worker) t) q).cursor = q.cursor := by
  induction ts generalizing q with
  | nil => rfl
  | cons t ts ih => exact ih

/-! ## Promotions -/

/-- The delayed tasks that are due at an instant. -/
def due (q : Sharded β) (now : Instant) : List (Task β) := q.delayed.filter (·.isReady now)

/-- What a promotion for a worker moves into the shard of a number. -/
def arrivals (q : Sharded β) (worker : Nat) (now : Instant) (index : Nat) : List (Task β) :=
  if q.interrupted then if index = worker % q.shards.length then q.due now else []
  else dealt q.shards.length q.cursor index (q.due now)

/-- Whether a backlog comes of another one by a promotion of what is due at an instant. -/
structure Deals (worker : Nat) (now : Instant) (q p : Sharded β) : Prop where
  /-- The due tasks are dealt in the order of their ready instants, then of their numbers. -/
  due_ordered : (q.due now).Pairwise (·.maturity ≤ ·.maturity)
  delayed_eq : p.delayed = q.delayed.filter (!·.isReady now)
  tasksAt_perm : ∀ index < q.shards.length,
    (p.tasksAt index).Perm (q.arrivals worker now index ++ q.tasksAt index)
  /-- The next turn begins where this one ended. -/
  cursor_eq : p.cursor = if q.interrupted then q.cursor else q.cursor + (q.due now).length
  frame : SameFrame q p

theorem Sound.deals_promote (hs : q.Sound later) (hle : now ≤ later) (worker : Nat) :
    Deals worker now q (q.promote worker now) := by
  obtain ⟨-, -, hdelayed, hframe⟩ := hs.promote_of_le hle worker
  have hdue : q.delayed.takeWhile (·.isReady now) = q.due now :=
    (Task.takeWhile_isReady hs.delayed_ordered now).1
  have hordered : (q.due now).Pairwise (·.maturity ≤ ·.maturity) :=
    (hs.delayed_ordered.filter _).imp Task.not_isDueBefore_iff.1
  have hmoved : (∀ index, ((q.promote worker now).tasksAt index).Perm
        (q.arrivals worker now index ++ q.tasksAt index)) ∧
      (q.promote worker now).cursor =
        if q.interrupted then q.cursor else q.cursor + (q.due now).length := by
    unfold arrivals Sharded.promote
    split
    · rename_i hzero
      rw [hs.delayedCount_eq, List.length_eq_zero_iff] at hzero
      simp [due, dealt, hzero]
    · split
      · rename_i hint
        have hmove := tasksAt_foldl_pushShard (q := ((q.record 1).takeDue now).1) hs.length_pos
          worker (q.due now)
        have hcursor := cursor_foldl_pushShard (q := ((q.record 1).takeDue now).1) worker (q.due now)
        rw [← hdue] at hmove hcursor ⊢
        exact ⟨hmove, hcursor⟩
      · rename_i hcalm
        have hmove := tasksAt_foldl_pushReady (q := (q.takeDue now).1) hs.length_pos (q.due now)
        have hcursor := cursor_foldl_pushReady (q := (q.takeDue now).1) (q.due now)
        rw [← hdue] at hmove hcursor ⊢
        exact ⟨hmove, hcursor⟩
  exact ⟨hordered, hdelayed, fun index _ => hmoved.1 index, hmoved.2, hframe⟩

/-- What a promotion leaves in the shards is at hand. -/
theorem Sound.readyTasks_promote (hs : q.Sound later) (hle : now ≤ later) (worker : Nat) :
    (q.promote worker now).readyTasks.Perm ((Strategy.sharded q).atHand now) := by
  obtain ⟨-, htasks, hdelayed, -⟩ := hs.promote_of_le hle worker
  rw [tasks_eq, hdelayed] at htasks
  have hsplit := Strategy.tasks_perm_atHand now (.sharded q)
  exact (List.perm_append_right_iff _).1 (htasks.trans hsplit)

/-- Unless waits are to be given up, it does not matter for which worker a promotion is made. -/
theorem promote_eq_of_calm (h : q.interrupted = false) (worker other : Nat) :
    q.promote worker now = q.promote other now := by
  simp [promote, h]

/-! ## Looks -/

/-- The number of shards at which a worker may look: all of them with stealing or if waits are to be
given up, and its own one otherwise. -/
def reach (q : Sharded β) : Nat := if q.stealing || q.interrupted then q.shards.length else 1

theorem route_eq (hpos : 0 < q.shards.length) (worker : Nat) :
    q.route worker = (List.range q.reach).map fun steps => (worker + steps) % q.shards.length := by
  unfold route reach
  split
  · rw [← Nat.sub_add_cancel hpos, List.range_succ_eq_map]
    simp [others, home, Function.comp_def, Nat.sub_add_cancel hpos]
  · simp [home]

/-- Whether the first task of a shard was taken, and nothing else. -/
structure TakesFrom (index : Nat) (p : Sharded β) (t : Task β) (q : Sharded β) : Prop where
  isFirst : Task.IsFirst (p.tasksAt index) (some t)
  tasksAt_perm : ∀ other, (p.tasksAt other).Perm
    ((if other = index then [t] else []) ++ q.tasksAt other)
  delayed_eq : q.delayed = p.delayed

/-- What a look of a worker takes out of the shards. -/
inductive Takes (worker : Nat) (p : Sharded β) : Sharded β × Option (Task β) → Prop
  /-- All shards at which it may look are empty. -/
  | nothing (hempty : ∀ steps < p.reach, p.tasksAt ((worker + steps) % p.shards.length) = []) :
      Takes worker p (p, none)
  /-- It takes from a shard that it comes to after empty ones only. -/
  | first {steps : Nat} {t : Task β} {q : Sharded β} (hreach : steps < p.reach)
      (hbefore : ∀ earlier < steps, p.tasksAt ((worker + earlier) % p.shards.length) = [])
      (htakes : TakesFrom ((worker + steps) % p.shards.length) p t q) : Takes worker p (q, some t)

/-- The first task of a shard is the first one of all tasks in it. -/
theorem Sound.takesFrom (hs : p.Sound later) {s : Shard β} {rest : List (Task β)}
    (hget : p.shards[index]? = some s) (htasks : s.tasks = t :: rest) :
    TakesFrom index p t { p.record 1 with
      shards := p.shards.set index ⟨rest, s.size - 1⟩
      readyCount := p.readyCount - 1 } := by
  have hat : p.tasksAt index = t :: rest := by simp [tasksAt, hget, htasks]
  constructor
  · have hs' : s.Sound later := hs.shard s (List.mem_of_getElem? hget)
    have hfirst := Task.isFirst_head? hs'.ordered
    rw [htasks] at hfirst
    rw [hat]
    exact hfirst
  · intro other
    have hlt := (List.getElem?_eq_some_iff.1 hget).1
    by_cases heq : other = index
    · subst heq
      rw [hat]
      simp [tasksAt, hlt]
    · simp [tasksAt, heq, Ne.symm heq]
  · rfl

theorem Sound.popShard_cases (hs : p.Sound later) (index : Nat) :
    (p.tasksAt index = [] ∧ p.popShard index = (p, none)) ∨
      ∃ t q, p.popShard index = (q, some t) ∧ TakesFrom index p t q := by
  unfold Sharded.popShard
  cases hget : p.shards[index]? with
  | none => exact .inl ⟨by simp [tasksAt, hget], rfl⟩
  | some s =>
      have hs' : s.Sound later := hs.shard s (List.mem_of_getElem? hget)
      cases htasks : s.tasks with
      | nil =>
          have hzero : s.size = 0 := by rw [hs'.size_eq, htasks, List.length_nil]
          exact .inl ⟨by simp [tasksAt, hget, htasks], by simp [hzero]⟩
      | cons t rest =>
          have hsize : s.size ≠ 0 := by simp [hs'.size_eq, htasks]
          have htakes := hs.takesFrom hget htasks
          exact .inr ⟨t, _, by simp [hsize, htasks, Sharded.record], htakes⟩

/-- A look at several shards takes from the first one that has a task. -/
theorem Sound.popFirst_cases (hs : p.Sound later) (route : List Nat) :
    ((∀ index ∈ route, p.tasksAt index = []) ∧ p.popFirst route = (p, none)) ∨
      ∃ (steps index : Nat) (t : Task β) (q : Sharded β), route[steps]? = some index ∧
        (∀ earlier < steps, ∀ i ∈ route[earlier]?, p.tasksAt i = []) ∧
          p.popFirst route = (q, some t) ∧ TakesFrom index p t q := by
  induction route with
  | nil => exact .inl ⟨by simp, rfl⟩
  | cons index rest ih =>
      unfold Sharded.popFirst
      rcases hs.popShard_cases index with ⟨hempty, hpop⟩ | ⟨t, q, hpop, htakes⟩
      · rw [hpop]
        rcases ih with ⟨hrest, hnone⟩ | ⟨steps, other, t, q, hget, hbefore, hsome, htakes⟩
        · exact .inl ⟨by simpa [hempty] using hrest, hnone⟩
        · refine .inr ⟨steps + 1, other, t, q, hget, ?_, hsome, htakes⟩
          intro earlier hlt i hi
          cases earlier with
          | zero =>
              obtain rfl : index = i := by simpa using hi
              exact hempty
          | succ earlier => exact hbefore earlier (Nat.lt_of_succ_lt_succ hlt) i (by simpa using hi)
      · rw [hpop]
        exact .inr ⟨0, index, t, q, rfl, by simp, rfl, htakes⟩

/-- After the promotion, a look takes the first task of the first shard on its way that has one. -/
theorem Sound.takes_tryPop (hs : q.Sound later) (hle : now ≤ later) (worker : Nat) :
    Takes worker (q.promote worker now) (q.tryPop worker now) := by
  obtain ⟨hp, -, -, -⟩ := hs.promote_of_le hle worker
  have hroute := route_eq hp.length_pos worker
  rcases hp.popFirst_cases ((q.promote worker now).route worker) with
    ⟨hempty, hnone⟩ | ⟨steps, index, t, q', hget, hbefore, hsome, htakes⟩
  · rw [show q.tryPop worker now = (q.promote worker now, none) from hnone]
    rw [hroute] at hempty
    apply Takes.nothing
    intro steps hreach
    exact hempty _ (List.mem_map_of_mem (List.mem_range.2 hreach))
  · rw [show q.tryPop worker now = (q', some t) from hsome]
    rw [hroute] at hget hbefore
    have hreach : steps < (q.promote worker now).reach := by
      simpa using (List.getElem?_eq_some_iff.1 hget).1
    obtain rfl : (worker + steps) % (q.promote worker now).shards.length = index := by
      simpa [hreach] using hget
    apply Takes.first hreach _ htakes
    intro earlier hlt
    exact hbefore earlier hlt _ (by simp [Nat.lt_trans hlt hreach])

/-! ## What looks find together -/

theorem Sound.tryPop_eq_none_of_atHand (hs : q.Sound later) (hle : now ≤ later)
    (hnil : (Strategy.sharded q).atHand now = []) (worker : Nat) : (q.tryPop worker now).2 = none := by
  have hperm := Strategy.Sound.atHand_tryPop (s := .sharded q) hs hle worker
  rw [hnil] at hperm
  exact Option.toList_eq_nil_iff.1 (List.append_eq_nil_iff.1 (List.nil_perm.1 hperm)).1

/-- A worker that may look at all shards comes by each of them. -/
theorem mem_route_of_reach (hall : q.reach = q.shards.length) (hlt : index < q.shards.length)
    (worker : Nat) : index ∈ q.route worker := by
  by_cases hflag : (q.stealing || q.interrupted) = true
  · exact mem_route hflag hlt
  · -- there is no other shard than its own one
    rw [reach, if_neg hflag] at hall
    rw [← hall] at hlt
    simp [route, home, ← hall, Nat.mod_one, Nat.lt_one_iff.1 hlt]

theorem SameFrame.reach_eq (h : SameFrame q p) : p.reach = q.reach := by
  unfold reach
  rw [h.stealing_eq, h.interrupted_eq, h.length_eq]

/-- Where all shards are found empty after the promotion, nothing was at hand. -/
theorem Sound.atHand_eq_nil_of_emptyAt (hs : q.Sound later) (hle : now ≤ later) {worker : Nat}
    (hempty : ∀ index < q.shards.length, (q.promote worker now).EmptyAt index) :
    (Strategy.sharded q).atHand now = [] := by
  obtain ⟨-, -, -, hframe⟩ := hs.promote_of_le hle worker
  have hready : (q.promote worker now).readyTasks = [] := by
    refine readyTasks_eq_nil_iff.2 fun index => ?_
    by_cases hlt : index < q.shards.length
    · exact hempty index hlt
    · rw [emptyAt_iff]
      exact tasksAt_eq_nil_of_le (hframe.length_eq ▸ Nat.le_of_not_lt hlt)
  exact List.nil_perm.1 (hready ▸ hs.readyTasks_promote hle worker)

/-- A worker that may look at all shards finds nothing exactly if nothing is at hand. -/
theorem Sound.tryPop_eq_none_iff (hs : q.Sound later) (hle : now ≤ later)
    (hall : q.reach = q.shards.length) (worker : Nat) :
    (q.tryPop worker now).2 = none ↔ (Strategy.sharded q).atHand now = [] := by
  obtain ⟨hp, -, -, hframe⟩ := hs.promote_of_le hle worker
  constructor
  · intro hnone
    apply hs.atHand_eq_nil_of_emptyAt hle
    intro index hlt
    have hmem : index ∈ (q.promote worker now).route worker := by
      apply mem_route_of_reach
      · rw [hframe.reach_eq, hframe.length_eq, hall]
      · rwa [hframe.length_eq]
    exact ((hp.popFirst _).2 hnone).2 index hmem
  · intro hnil
    exact hs.tryPop_eq_none_of_atHand hle hnil worker

/-- One worker for each shard suffices: if none of them finds anything, nothing is at hand. -/
theorem Sound.tryPop_all_eq_none_iff (hs : q.Sound later) (hle : now ≤ later) :
    (∀ worker < q.shards.length, (q.tryPop worker now).2 = none) ↔
      (Strategy.sharded q).atHand now = [] := by
  constructor
  · intro hnone
    by_cases hint : q.interrupted = true
    · have hall : q.reach = q.shards.length := by simp [reach, hint]
      exact (hs.tryPop_eq_none_iff hle hall 0).1 (hnone 0 hs.length_pos)
    · -- the promotion is the same for all workers, and each of them finds its own shard empty
      apply hs.atHand_eq_nil_of_emptyAt hle
      intro index hlt
      obtain ⟨hp, -, -, hframe⟩ := hs.promote_of_le hle index
      have hhome : index ∈ (q.promote index now).route index := by
        simp [route, home, hframe.length_eq, Nat.mod_eq_of_lt hlt]
      rw [promote_eq_of_calm (by simpa using hint) 0 index]
      exact ((hp.popFirst _).2 (hnone index hlt)).2 index hhome
  · intro hnil worker _
    exact hs.tryPop_eq_none_of_atHand hle hnil worker

/-- The workers that belong to the shards can take all that is at hand. -/
theorem Sound.exists_pops (hs : q.Sound later) (hle : now ≤ later) :
    ∃ workers : List Nat, (∀ worker ∈ workers, worker < q.shards.length) ∧
      ((Strategy.sharded q).pops now workers).Perm ((Strategy.sharded q).atHand now) := by
  induction hcount : ((Strategy.sharded q).atHand now).length generalizing q with
  | zero => exact ⟨[], by simp, by simp [Strategy.pops, List.length_eq_zero_iff.1 hcount]⟩
  | succ count ih =>
      have hsome : ∃ worker < q.shards.length, (q.tryPop worker now).2 ≠ none := by
        by_contra hnone
        push Not at hnone
        rw [(hs.tryPop_all_eq_none_iff hle).1 hnone] at hcount
        contradiction
      obtain ⟨worker, hlt, hfound⟩ := hsome
      obtain ⟨t, ht⟩ := Option.ne_none_iff_exists'.1 hfound
      have hyields := hs.tryPop_of_le hle worker
      have hperm := Strategy.Sound.atHand_tryPop (s := .sharded q) hs hle worker
      change ((Strategy.sharded q).atHand now).Perm ((q.tryPop worker now).2.toList ++
        (Strategy.sharded (q.tryPop worker now).1).atHand now) at hperm
      rw [ht] at hperm
      have hless : ((Strategy.sharded (q.tryPop worker now).1).atHand now).length = count := by
        have hlength := hperm.length_eq
        rw [hcount] at hlength
        simpa using hlength.symm
      obtain ⟨workers, hworkers, hpops⟩ := ih hyields.sound hless
      rw [hyields.frame.length_eq] at hworkers
      refine ⟨worker :: workers, by simpa [hlt] using hworkers, ?_⟩
      show ((q.tryPop worker now).2.toList ++
        (Strategy.sharded (q.tryPop worker now).1).pops now workers).Perm _
      rw [ht]
      exact (hpops.append_left _).trans hperm.symm

/-! ## Picks -/

/-- The tasks that stand in a shard when a worker looks at it. -/
def standing (q : Sharded β) (worker : Nat) (now : Instant) (index : Nat) : List (Task β) :=
  q.arrivals worker now index ++ q.tasksAt index

/-- Whether a task is the first one of the first shard on the way of a worker that has one. -/
def IsPick (worker : Nat) (now : Instant) (q : Sharded β) (t : Task β) : Prop :=
  ∃ steps < q.reach,
    (∀ earlier < steps, q.standing worker now ((worker + earlier) % q.shards.length) = []) ∧
      Task.IsFirst (q.standing worker now ((worker + steps) % q.shards.length)) (some t)

/-- What a look finds is the pick of the worker. -/
theorem Sound.isPick_tryPop (hs : q.Sound later) (hle : now ≤ later)
    (h : (q.tryPop worker now).2 = some t) : q.IsPick worker now t := by
  have hdeals := hs.deals_promote hle worker
  have htakes := hs.takes_tryPop hle worker
  have hstanding : ∀ steps,
      ((q.promote worker now).tasksAt ((worker + steps) % q.shards.length)).Perm
        (q.standing worker now ((worker + steps) % q.shards.length)) := fun steps =>
    hdeals.tasksAt_perm _ (Nat.mod_lt _ hs.length_pos)
  generalize q.tryPop worker now = r at h htakes
  cases htakes with
  | nothing hempty => contradiction
  | @first steps u q' hreach hbefore htakes =>
      obtain rfl : u = t := Option.some.inj h
      rw [hdeals.frame.reach_eq] at hreach
      rw [hdeals.frame.length_eq] at hbefore htakes
      refine ⟨steps, hreach, fun earlier hlt => ?_, htakes.isFirst.perm (hstanding steps)⟩
      have hnil := hbefore earlier hlt
      exact List.nil_perm.1 (hnil ▸ hstanding earlier)

theorem dealt_one (cursor : Nat) (ts : List (Task β)) : dealt 1 cursor 0 ts = ts := by
  induction ts generalizing cursor with
  | nil => rfl
  | cons t ts ih => simp [dealt_cons, ih, Nat.mod_one]

/-- From a single shard the first of all tasks at hand is picked. -/
theorem IsPick.isFirst (h : q.IsPick worker now t) (hone : q.shards.length = 1) :
    Task.IsFirst ((Strategy.sharded q).atHand now) (some t) := by
  obtain ⟨steps, -, -, hfirst⟩ := h
  obtain ⟨s, hshards⟩ := List.length_eq_one_iff.1 hone
  have hmoved : q.arrivals worker now 0 = q.due now := by
    simp [arrivals, hone, Nat.mod_one, dealt_one]
  have hat : q.tasksAt 0 = q.readyTasks := by simp [tasksAt, readyTasks, hshards]
  rw [hone, Nat.mod_one, standing, hmoved, hat] at hfirst
  exact hfirst.perm List.perm_append_comm

/-- A worker that may take from each shard may look at all of them. -/
theorem reach_eq_of_stealing (h : q.stealing = true ∨ q.shards.length = 1) :
    q.reach = q.shards.length := by
  rcases h with h | h
  · simp [reach, h]
  · simp [reach, h]

/-- At a single shard a look takes the first of the tasks at hand. -/
theorem Sound.isFirst_tryPop (hs : q.Sound later) (hle : now ≤ later) (hone : q.shards.length = 1)
    (worker : Nat) : Task.IsFirst ((Strategy.sharded q).atHand now) (q.tryPop worker now).2 := by
  cases hfound : (q.tryPop worker now).2 with
  | none => exact (hs.tryPop_eq_none_iff hle (reach_eq_of_stealing (.inr hone)) worker).1 hfound
  | some t => exact (hs.isPick_tryPop hle hfound).isFirst hone

end Sharded

namespace Stock

/-- Whether a stock in shards hands out at an instant what is at hand, shard by shard. -/
structure PopsByShard (now : Instant) (shards : Nat) (stealing : Bool) (c : Stock β)
    (q : Sharded β) : Prop where
  strategy_eq : c.strategy = .sharded q
  length_eq : q.shards.length = max shards 1
  stealing_eq : q.stealing = stealing
  contents : c.added.Perm (q.tasks ++ c.handed)
  /-- As long as no look was made at a later instant, what is at hand is what is ready. -/
  atHand_eq : c.seen ≤ now → c.strategy.atHand now = q.tasks.filter (·.readyAt ≤ now)
  /-- A look first moves the delayed tasks that are due into the shards. -/
  deals : ∀ worker, q.Deals worker now (q.promote worker now)
  /-- Then it takes the first task of the first shard on its way that has one. -/
  takes : ∀ worker, (q.promote worker now).Takes worker (q.tryPop worker now)
  eq_none_iff : (q.stealing || q.interrupted) = true → ∀ worker,
    (q.tryPop worker now).2 = none ↔ c.strategy.atHand now = []
  eq_none_iff_late : c.seen ≤ now → (q.stealing || q.interrupted) = true → ∀ worker,
    (q.tryPop worker now).2 = none ↔ ∀ t ∈ q.tasks, now < t.readyAt
  all_eq_none_iff : (∀ worker < max shards 1, (q.tryPop worker now).2 = none) ↔
    c.strategy.atHand now = []
  /-- The workers of all shards can take all tasks at hand. -/
  exists_pops : ∃ workers : List Nat, (∀ worker ∈ workers, worker < max shards 1) ∧
    (c.strategy.pops now workers).Perm (c.strategy.atHand now)

theorem Sound.popsByShard {c : Stock β} (hs : c.Sound) {q : Sharded β}
    (hq : c.strategy = .sharded q) {shards : Nat} (hlength : q.shards.length = max shards 1)
    (now : Instant) : c.PopsByShard now shards q.stealing q := by
  have hsound : q.Sound (max c.seen now) := by
    have h := hs.strategy.mono (Int.le_max_left c.seen now)
    rwa [hq] at h
  have hle : now ≤ max c.seen now := Int.le_max_right _ _
  have hready : c.seen ≤ now → c.strategy.atHand now = q.tasks.filter (·.readyAt ≤ now) := by
    intro hseen
    rw [(hs.strategy.mono hseen).atHand_eq, hq]
    rfl
  have hnone : (q.stealing || q.interrupted) = true → ∀ worker,
      (q.tryPop worker now).2 = none ↔ c.strategy.atHand now = [] := by
    intro hflag worker
    rw [hq]
    exact hsound.tryPop_eq_none_iff hle (if_pos hflag) worker
  constructor
  case strategy_eq => exact hq
  case length_eq => exact hlength
  case stealing_eq => rfl
  case contents => simpa [hq, Strategy.tasks] using hs.contents
  case atHand_eq => exact hready
  case deals => exact fun worker => hsound.deals_promote hle worker
  case takes => exact fun worker => hsound.takes_tryPop hle worker
  case eq_none_iff => exact hnone
  case eq_none_iff_late =>
    intro hseen hflag worker
    rw [hnone hflag worker, hready hseen, List.filter_eq_nil_iff]
    simp
  case all_eq_none_iff => exact hq ▸ hlength ▸ hsound.tryPop_all_eq_none_iff hle
  case exists_pops => exact hq ▸ hlength ▸ hsound.exists_pops hle

/-- However requests to a strategy with shards follow each other, a look at any instant deals what is due
to the shards and takes the first task of the first shard on its way that has one; it finds nothing only
if there is nothing for it, and the workers of all shards leave nothing behind. -/
theorem run_popsByShard (shards : Nat) (stealing : Bool) (start now : Instant)
    (requests : List (StockRequest β)) :
    ∃ q, ((Stock.start (.sharded (.ofCount shards stealing {})) start).run requests).PopsByShard
      now shards stealing q := by
  obtain ⟨hsound, q, hq, hlength, rfl⟩ := run_sharded shards stealing start requests
  exact ⟨q, hsound.popsByShard hq hlength now⟩

-- three tasks that get due together go to two shards in turn, and without stealing each worker takes
-- from its own shard only
example : (((start (.sharded (.ofCount 2 false {})) 0).run
    [.push ⟨1, .low, 3, ()⟩, .push ⟨2, .high, 2, ()⟩, .push ⟨3, .critical, 4, ()⟩]).strategy.pops 4
      [1, 1, 0, 0]).map Task.id = [1, 3, 2] := by decide

end Stock

end Dispatch
