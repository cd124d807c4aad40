import Dispatch.Proofs.Sum
import Dispatch.Proofs.Task.Order
import Dispatch.Queue.Sharded
/-!
# What the backlogs of the workers hold

In a sound sharded backlog every counter is the number of what it counts, the tasks in the shards
are ready and in the order of urgency, and the delayed ones are in the order of their ready
instants. A worker that may take from all shards and finds nothing leaves no ready task behind.
-/

namespace Dispatch

open Dispatch.Task (Ordered isMoreUrgent isDueBefore)

variable {β : Type} {now later : Instant}

/-- Whether a shard is in order at an instant. -/
structure Shard.Sound (now : Instant) (s : Shard β) : Prop where
  size_eq : s.size = s.tasks.length
  ordered : Ordered isMoreUrgent s.tasks
  isReady : ∀ t ∈ s.tasks, t.isReady now = true

theorem Shard.sound_empty : Shard.Sound now ({} : Shard β) :=
  ⟨rfl, List.Pairwise.nil, by simp⟩

theorem Shard.Sound.mono {s : Shard β} (hs : s.Sound now) (hle : now ≤ later) :
    s.Sound later :=
  ⟨hs.size_eq, hs.ordered, fun t ht => Task.isReady_mono hle (hs.isReady t ht)⟩

namespace Sharded

variable {q : Sharded β}

/-- The tasks of all shards. -/
def readyTasks (q : Sharded β) : List (Task β) := q.shards.flatMap Shard.tasks

theorem tasks_eq (q : Sharded β) : q.tasks = q.readyTasks ++ q.delayed := rfl

/-- Whether a sharded backlog is in order at an instant. -/
structure Sound (now : Instant) (q : Sharded β) : Prop where
  shards_ne : q.shards ≠ []
  shard : ∀ s ∈ q.shards, s.Sound now
  readyCount_eq : q.readyCount = q.readyTasks.length
  delayedCount_eq : q.delayedCount = q.delayed.length
  delayed_ordered : Ordered isDueBefore q.delayed

theorem Sound.mono (hs : q.Sound now) (hle : now ≤ later) : q.Sound later :=
  { hs with shard := fun s hmem => (hs.shard s hmem).mono hle }

theorem Sound.length_pos (hs : q.Sound now) : 0 < q.shards.length :=
  List.length_pos_iff.2 hs.shards_ne

theorem Sound.isReady (hs : q.Sound now) : ∀ t ∈ q.readyTasks, t.isReady now = true := by
  intro t ht
  obtain ⟨s, hmem, ht⟩ := List.mem_flatMap.1 ht
  exact (hs.shard s hmem).isReady t ht

/-- The counters give the number of tasks. -/
theorem Sound.size_eq (hs : q.Sound now) : q.size = q.tasks.length := by
  rw [size, hs.readyCount_eq, hs.delayedCount_eq, tasks_eq, List.length_append]

/-- An empty backlog is in order. -/
theorem sound_ofCount (n : Nat) (stealing : Bool) (c : Contention) :
    (ofCount n stealing c : Sharded β).Sound now where
  shards_ne := by simp [ofCount, List.replicate_eq_nil_iff]
  shard s hmem := by
    rw [List.eq_of_mem_replicate hmem]
    exact Shard.sound_empty
  readyCount_eq := by simp [ofCount, readyTasks]
  delayedCount_eq := rfl
  delayed_ordered := List.Pairwise.nil

theorem tasks_ofCount (n : Nat) (stealing : Bool) (c : Contention) :
    (ofCount n stealing c : Sharded β).tasks = [] := by
  simp [ofCount, tasks]

/-- Whether a backlog has the shards and the switches of another one. -/
structure SameFrame (q q' : Sharded β) : Prop where
  length_eq : q'.shards.length = q.shards.length
  stealing_eq : q'.stealing = q.stealing
  interrupted_eq : q'.interrupted = q.interrupted

theorem SameFrame.refl (q : Sharded β) : SameFrame q q := ⟨rfl, rfl, rfl⟩

theorem SameFrame.trans {a b c : Sharded β} (hab : SameFrame a b) (hbc : SameFrame b c) :
    SameFrame a c :=
  ⟨hbc.length_eq.trans hab.length_eq, hbc.stealing_eq.trans hab.stealing_eq,
    hbc.interrupted_eq.trans hab.interrupted_eq⟩

/-! ## Adding ready tasks -/

/-- Whether a backlog is another one with ready tasks added to its shards. -/
structure Adds (now : Instant) (ts : List (Task β)) (q q' : Sharded β) : Prop where
  sound : q'.Sound now
  readyTasks_perm : q'.readyTasks.Perm (ts ++ q.readyTasks)
  delayed_eq : q'.delayed = q.delayed
  frame : SameFrame q q'

theorem Sound.record (hs : q.Sound now) (n : Nat) : (q.record n).Sound now :=
  ⟨hs.shards_ne, hs.shard, hs.readyCount_eq, hs.delayedCount_eq, hs.delayed_ordered⟩

theorem Sound.pushShard (hs : q.Sound now) {index : Nat} (hindex : index < q.shards.length)
    {t : Task β} (ht : t.isReady now = true) : Adds now [t] q (q.pushShard index t) := by
  let grow : Shard β → Shard β := fun s => ⟨t.insertReady s.tasks, s.size + 1⟩
  obtain ⟨front, s, back, hsplit, -, hmodify⟩ := List.exists_of_modify grow hindex
  have hshards : (q.pushShard index t).shards = front ++ grow s :: back := hmodify
  have hs' : s.Sound now := hs.shard s (by rw [hsplit]; simp)
  have hinsert : (grow s).tasks.Perm (t :: s.tasks) := Task.insertBy_perm _ t s.tasks
  -- only one shard is touched, and it stays in order
  have hgrow : (grow s).Sound now := by
    refine ⟨?_, Task.ordered_insertBy Task.isMoreUrgent_isOrder t hs'.ordered, fun u hu => ?_⟩
    · rw [hinsert.length_eq, List.length_cons, ← hs'.size_eq]
    · rcases Task.mem_insertBy.1 hu with rfl | hu
      · exact ht
      · exact hs'.isReady u hu
  have hperm : (q.pushShard index t).readyTasks.Perm (t :: q.readyTasks) := by
    rw [readyTasks, readyTasks, hshards, hsplit]
    simp only [List.flatMap_append, List.flatMap_cons]
    exact ((hinsert.append_right _).append_left _).trans List.perm_middle
  refine ⟨⟨?_, ?_, ?_, hs.delayedCount_eq, hs.delayed_ordered⟩, hperm, rfl, ?_, rfl, rfl⟩
  · simp [hshards]
  · intro u hu
    rw [hshards] at hu
    rcases List.mem_append.1 hu with hu | hu
    · exact hs.shard u (by rw [hsplit]; simp [hu])
    · rcases List.mem_cons.1 hu with rfl | hu
      · exact hgrow
      · exact hs.shard u (by rw [hsplit]; simp [hu])
  · rw [hperm.length_eq, List.length_cons, ← hs.readyCount_eq]
    rfl
  · simp [hshards, hsplit]

theorem Sound.pushReady (hs : q.Sound now) {t : Task β} (ht : t.isReady now = true) :
    Adds now [t] q (q.pushReady t) := by
  have h := hs.pushShard (Nat.mod_lt q.cursor hs.length_pos) ht
  exact ⟨⟨h.sound.shards_ne, h.sound.shard, h.sound.readyCount_eq, h.sound.delayedCount_eq,
    h.sound.delayed_ordered⟩, h.readyTasks_perm, h.delayed_eq,
    ⟨h.frame.length_eq, h.frame.stealing_eq, h.frame.interrupted_eq⟩⟩

/-- Adding tasks one by one adds all of them. -/
theorem adds_foldl {add : Sharded β → Task β → Sharded β}
    (hadd : ∀ (q : Sharded β) (t : Task β), q.Sound now → t.isReady now = true →
      Adds now [t] q (add q t))
    (ts : List (Task β)) (hready : ∀ t ∈ ts, t.isReady now = true) (hs : q.Sound now) :
    Adds now ts q (ts.foldl add q) := by
  induction ts generalizing q with
  | nil => exact ⟨hs, List.Perm.refl _, rfl, SameFrame.refl q⟩
  | cons t ts ih =>
      have hone := hadd q t hs (hready t List.mem_cons_self)
      have hrest := ih (fun u hu => hready u (List.mem_cons_of_mem t hu)) hone.sound
      refine ⟨hrest.sound, ?_, hrest.delayed_eq.trans hone.delayed_eq,
        hone.frame.trans hrest.frame⟩
      exact hrest.readyTasks_perm.trans
        ((hone.readyTasks_perm.append_left ts).trans List.perm_middle)

theorem Sound.push (hs : q.Sound later) (hle : now ≤ later) (t : Task β) :
    (q.push now t).Sound later ∧ (q.push now t).tasks.Perm (t :: q.tasks) ∧
      SameFrame q (q.push now t) := by
  unfold Sharded.push
  split
  · rename_i ht
    have h := hs.pushReady (Task.isReady_mono hle ht)
    refine ⟨h.sound, ?_, h.frame⟩
    rw [tasks_eq, tasks_eq, h.delayed_eq]
    exact h.readyTasks_perm.append_right q.delayed
  · have hinsert := Task.insertBy_perm isDueBefore t q.delayed
    refine ⟨⟨hs.shards_ne, hs.shard, hs.readyCount_eq, ?_,
      Task.ordered_insertBy Task.isDueBefore_isOrder t hs.delayed_ordered⟩, ?_, rfl, rfl, rfl⟩
    · show q.delayedCount + 1 = (t.insertDelayed q.delayed).length
      rw [Task.insertDelayed, hinsert.length_eq, List.length_cons, hs.delayedCount_eq]
    · exact (hinsert.append_left q.readyTasks).trans List.perm_middle

/-! ## Promotion -/

/-- A promotion moves exactly the delayed tasks that are ready into the shards, also at an earlier
instant than one at which the backlog is in order. -/
theorem Sound.promote_of_le (hs : q.Sound later) (hle : now ≤ later) (worker : Nat) :
    (q.promote worker now).Sound later ∧ (q.promote worker now).tasks.Perm q.tasks ∧
      (q.promote worker now).delayed = q.delayed.filter (!·.isReady now) ∧
      SameFrame q (q.promote worker now) := by
  unfold Sharded.promote
  split
  · rename_i hzero
    have hnil : q.delayed = [] := by
      rw [hs.delayedCount_eq] at hzero
      exact List.length_eq_zero_iff.1 hzero
    exact ⟨hs, List.Perm.refl _, by simp [hnil], SameFrame.refl q⟩
  · let due := q.delayed.takeWhile (·.isReady now)
    have hwhile := Task.takeWhile_isReady hs.delayed_ordered now
    have hdue : ∀ t ∈ due, t.isReady later = true := by
      intro t ht
      simp only [due, hwhile.1] at ht
      exact Task.isReady_mono hle (List.mem_filter.1 ht).2
    have hlength : q.delayed.length = due.length + (q.delayed.dropWhile (·.isReady now)).length := by
      rw [← List.length_append, List.takeWhile_append_dropWhile]
    -- what is left when the due tasks were taken out, whatever was counted
    have htaken : ∀ n, ((q.record n).takeDue now).1.Sound later := fun n =>
      ⟨hs.shards_ne, hs.shard, hs.readyCount_eq, by
        show q.delayedCount - due.length = (q.delayed.dropWhile (·.isReady now)).length
        rw [hs.delayedCount_eq, hlength]
        omega, hs.delayed_ordered.sublist (List.dropWhile_sublist _)⟩
    have hresult : ∀ n q', Adds later due ((q.record n).takeDue now).1 q' →
        q'.Sound later ∧ q'.tasks.Perm q.tasks ∧
          q'.delayed = q.delayed.filter (!·.isReady now) ∧ SameFrame q q' := by
      intro n q' h
      refine ⟨h.sound, ?_, h.delayed_eq.trans hwhile.2,
        h.frame.length_eq, h.frame.stealing_eq, h.frame.interrupted_eq⟩
      have hmove := h.readyTasks_perm.append_right (q.delayed.dropWhile (·.isReady now))
      rw [tasks_eq, tasks_eq, h.delayed_eq]
      refine hmove.trans (List.perm_append_comm.append_right _ |>.trans ?_)
      rw [List.append_assoc, List.takeWhile_append_dropWhile]
      exact List.Perm.refl _
    split
    · refine hresult 1 _ (adds_foldl (fun q t hq ht => ?_) due hdue (htaken 1))
      exact hq.pushShard (Nat.mod_lt worker hq.length_pos) ht
    · exact hresult 0 _ (adds_foldl (fun q t hq ht => hq.pushReady ht) due hdue (htaken 0))

theorem Sound.promote (hs : q.Sound now) (worker : Nat) :
    (q.promote worker now).Sound now ∧ (q.promote worker now).tasks.Perm q.tasks ∧
      (q.promote worker now).delayed = q.delayed.filter (!·.isReady now) ∧
      SameFrame q (q.promote worker now) :=
  hs.promote_of_le (Int.le_refl now) worker

/-! ## Taking tasks -/

/-- Whether a look at a backlog takes at most one task, which is ready, and leaves all others. -/
structure Yields (now : Instant) (q : Sharded β) (r : Sharded β × Option (Task β)) : Prop where
  sound : r.1.Sound now
  tasks_perm : q.tasks.Perm (r.2.toList ++ r.1.tasks)
  isReady : ∀ t ∈ r.2, t.isReady now = true
  delayed_sublist : r.1.delayed.Sublist q.delayed
  frame : SameFrame q r.1

theorem Sound.yields_none (hs : q.Sound now) : Yields now q (q, none) :=
  ⟨hs, List.Perm.refl _, by simp, List.Sublist.refl _, SameFrame.refl q⟩

/-- Taking the first task of a shard, with the counts of the shard and of all shards. -/
theorem Sound.yields_first (hs : q.Sound now) {index : Nat} {s : Shard β} {t : Task β}
    {rest : List (Task β)} (heq : q.shards[index]? = some s) (htasks : s.tasks = t :: rest) :
    Yields now q ({ q.record 1 with
      shards := q.shards.set index ⟨rest, s.size - 1⟩
      readyCount := q.readyCount - 1 }, some t) := by
  obtain ⟨hindex, hget⟩ := List.getElem?_eq_some_iff.1 heq
  have hs' : s.Sound now := hs.shard s (List.mem_of_getElem? heq)
  let less : Shard β := ⟨rest, s.size - 1⟩
  obtain ⟨front, back, hsplit, -, hset⟩ : ∃ front back, q.shards = front ++ q.shards[index] :: back ∧
      front.length = index ∧ q.shards.set index less = front ++ less :: back :=
    List.exists_of_set hindex
  rw [hget] at hsplit
  -- the shard that is hit keeps its counter in step with its tasks
  have hless : less.Sound now := by
    have hsub : rest.Sublist s.tasks := htasks ▸ List.sublist_cons_self t rest
    refine ⟨?_, hs'.ordered.sublist hsub, fun u hu => hs'.isReady u (hsub.mem hu)⟩
    show s.size - 1 = rest.length
    rw [hs'.size_eq, htasks, List.length_cons, Nat.add_sub_cancel]
  -- the shards in front of it and behind it stay as they are
  have hperm : q.readyTasks.Perm (t :: (q.shards.set index less).flatMap Shard.tasks) := by
    rw [readyTasks, hset, hsplit]
    simp only [List.flatMap_append, List.flatMap_cons, htasks, List.cons_append]
    exact List.perm_middle
  refine ⟨⟨?_, ?_, ?_, hs.delayedCount_eq, hs.delayed_ordered⟩, ?_, ?_, List.Sublist.refl _,
    ?_, rfl, rfl⟩
  · show q.shards.set index less ≠ []
    simp [hset]
  · intro u hu
    change u ∈ q.shards.set index less at hu
    rcases List.mem_or_eq_of_mem_set hu with hu | rfl
    · exact hs.shard u hu
    · exact hless
  · show q.readyCount - 1 = ((q.shards.set index less).flatMap Shard.tasks).length
    rw [hs.readyCount_eq, hperm.length_eq, List.length_cons, Nat.add_sub_cancel]
  · exact hperm.append_right q.delayed
  · intro u hu
    cases hu
    exact hs'.isReady t (htasks ▸ List.mem_cons_self)
  · exact List.length_set

/-- A look at a shard takes a task of it, or finds it empty. -/
theorem Sound.popShard (hs : q.Sound now) (index : Nat) :
    Yields now q (q.popShard index) ∧
      ((q.popShard index).2 = none →
        (q.popShard index).1 = q ∧ ∀ s, q.shards[index]? = some s → s.tasks = []) := by
  unfold Sharded.popShard
  split
  · rename_i heq
    exact ⟨hs.yields_none, fun _ => ⟨rfl, fun s h => by simp [heq] at h⟩⟩
  · rename_i s heq
    have hs' : s.Sound now := hs.shard s (List.mem_of_getElem? heq)
    split
    · rename_i hzero
      have hnil : s.tasks = [] := List.length_eq_zero_iff.1 (hs'.size_eq ▸ hzero)
      exact ⟨hs.yields_none, fun _ => ⟨rfl, fun u h => by simp_all⟩⟩
    · rename_i hsize
      split
      · rename_i hnil
        exact absurd (hs'.size_eq.trans (by rw [hnil]; rfl)) hsize
      · rename_i t rest htasks
        exact ⟨hs.yields_first heq htasks, by simp⟩

/-- A look at several shards takes a task of one of them, or finds all of them empty. -/
theorem Sound.popFirst (hs : q.Sound now) (route : List Nat) :
    Yields now q (q.popFirst route) ∧
      ((q.popFirst route).2 = none →
        (q.popFirst route).1 = q ∧
          ∀ index ∈ route, ∀ s, q.shards[index]? = some s → s.tasks = []) := by
  induction route with
  | nil => exact ⟨hs.yields_none, fun _ => ⟨rfl, by simp⟩⟩
  | cons index route ih =>
      obtain ⟨hyields, hempty⟩ := hs.popShard index
      unfold Sharded.popFirst
      cases hpop : q.popShard index with
      | mk q' found =>
          rw [hpop] at hyields hempty
          cases found with
          | some t => exact ⟨hyields, by simp⟩
          | none =>
              obtain ⟨rfl, hnil⟩ := hempty rfl
              refine ⟨ih.1, fun hnone => ⟨(ih.2 hnone).1, fun i hi => ?_⟩⟩
              rcases List.mem_cons.1 hi with rfl | hi
              · exact hnil
              · exact (ih.2 hnone).2 i hi

theorem popShard_delayed (q : Sharded β) (index : Nat) : (q.popShard index).1.delayed = q.delayed := by
  unfold popShard
  split
  · rfl
  · split
    · rfl
    · split <;> rfl

/-- What holds however one shard is looked at holds however several are. -/
theorem popFirst_induction {P : Sharded β → Prop}
    (hshard : ∀ (q : Sharded β) (index : Nat), P q → P (q.popShard index).1) (h : P q)
    (route : List Nat) : P (q.popFirst route).1 := by
  induction route generalizing q with
  | nil => exact h
  | cons index rest ih =>
      have hpop := hshard q index h
      unfold popFirst
      cases hfound : q.popShard index with
      | mk q' found =>
          rw [hfound] at hpop
          cases found with
          | some t => exact hpop
          | none => exact ih hpop

theorem popFirst_delayed (q : Sharded β) (route : List Nat) :
    (q.popFirst route).1.delayed = q.delayed := by
  refine popFirst_induction (P := fun q' => q'.delayed = q.delayed) ?_ rfl route
  intro q' index h
  rw [popShard_delayed, h]

/-- A worker that may take from all shards comes by each of them. -/
theorem mem_route {worker index : Nat} (hall : (q.stealing || q.interrupted) = true)
    (hindex : index < q.shards.length) : index ∈ q.route worker := by
  have hpos : 0 < q.shards.length := Nat.lt_of_le_of_lt (Nat.zero_le _) hindex
  have hhome : q.home worker < q.shards.length := Nat.mod_lt _ hpos
  rw [route, if_pos hall]
  by_cases heq : index = q.home worker
  · exact heq ▸ List.mem_cons_self
  · refine List.mem_cons_of_mem _ (List.mem_map.2 ?_)
    -- the number of steps from the home shard to this one around the cycle
    by_cases hlt : q.home worker < index
    · refine ⟨index - q.home worker - 1, List.mem_range.2 (by omega), ?_⟩
      have hsum : q.home worker + (index - q.home worker - 1 + 1) = index := by omega
      rw [hsum, Nat.mod_eq_of_lt hindex]
    · refine ⟨q.shards.length + index - q.home worker - 1, List.mem_range.2 (by omega), ?_⟩
      have hsum : q.home worker + (q.shards.length + index - q.home worker - 1 + 1) =
          index + q.shards.length := by omega
      rw [hsum, Nat.add_mod_right, Nat.mod_eq_of_lt hindex]

theorem Sound.tryPop_of_le (hs : q.Sound later) (hle : now ≤ later) (worker : Nat) :
    Yields later q (q.tryPop worker now) := by
  obtain ⟨hp, htasks, hdelayed, hframe⟩ := hs.promote_of_le hle worker
  have h := (hp.popFirst ((q.promote worker now).route worker)).1
  have hsub : (q.promote worker now).delayed.Sublist q.delayed := hdelayed ▸ List.filter_sublist
  exact ⟨h.sound, htasks.symm.trans h.tasks_perm, h.isReady, h.delayed_sublist.trans hsub,
    hframe.trans h.frame⟩

theorem Sound.tryPop (hs : q.Sound now) (worker : Nat) : Yields now q (q.tryPop worker now) :=
  hs.tryPop_of_le (Int.le_refl now) worker

/-- Whether there is no task in the shard of a number. -/
def EmptyAt (q : Sharded β) (index : Nat) : Prop :=
  ∀ s, q.shards[index]? = some s → s.tasks = []

theorem readyTasks_eq_nil_iff : q.readyTasks = [] ↔ ∀ index, q.EmptyAt index := by
  refine ⟨fun h index s hget => List.flatMap_eq_nil_iff.1 h s (List.mem_of_getElem? hget), fun h => ?_⟩
  refine List.flatMap_eq_nil_iff.2 fun s hmem => ?_
  obtain ⟨index, hindex, hget⟩ := List.mem_iff_getElem.1 hmem
  exact h index s (List.getElem?_eq_some_iff.2 ⟨hindex, hget⟩)

/-- Where a worker that may take from all shards finds them empty, there is no task in any. -/
theorem readyTasks_eq_nil_of_route {worker : Nat} (hall : (q.stealing || q.interrupted) = true)
    (h : ∀ index ∈ q.route worker, q.EmptyAt index) : q.readyTasks = [] :=
  readyTasks_eq_nil_iff.2 fun index s hget =>
    h index (mem_route hall (List.getElem?_eq_some_iff.1 hget).1) s hget

/-- If a worker that may take from all shards finds nothing, no task is ready. -/
theorem Sound.not_isReady_of_tryPop (hs : q.Sound now) {worker : Nat}
    (hall : (q.stealing || q.interrupted) = true) (hnone : (q.tryPop worker now).2 = none) :
    ∀ t ∈ q.tasks, t.isReady now = false := by
  obtain ⟨hp, htasks, hdelayed, hframe⟩ := hs.promote worker
  have hall' : ((q.promote worker now).stealing || (q.promote worker now).interrupted) = true := by
    rw [hframe.stealing_eq, hframe.interrupted_eq, hall]
  have hready : (q.promote worker now).readyTasks = [] :=
    readyTasks_eq_nil_of_route hall' ((hp.popFirst _).2 hnone).2
  intro t ht
  have hmem : t ∈ (q.promote worker now).tasks := htasks.mem_iff.2 ht
  rw [tasks_eq, hready, List.nil_append, hdelayed] at hmem
  simpa using (List.mem_filter.1 hmem).2

/-! ## Taking tasks away -/

theorem Sound.drain (hs : q.Sound now) :
    (q.drain).1.Sound now ∧ (q.drain).1.tasks = [] ∧ (q.drain).2 = q.tasks ∧
      SameFrame q (q.drain).1 := by
  have hempty : ((q.drain).1.shards.flatMap Shard.tasks) = [] := by
    refine List.flatMap_eq_nil_iff.2 fun s hmem => ?_
    obtain ⟨u, -, rfl⟩ := List.mem_map.1 hmem
    rfl
  refine ⟨⟨?_, ?_, ?_, ?_, List.Pairwise.nil⟩, by rw [tasks, hempty]; rfl, rfl, ?_, rfl, rfl⟩
  · simp [Sharded.drain, hs.shards_ne]
  · intro s hmem
    obtain ⟨u, hu, rfl⟩ := List.mem_map.1 hmem
    refine ⟨?_, List.Pairwise.nil, by simp⟩
    show u.size - u.tasks.length = 0
    rw [(hs.shard u hu).size_eq, Nat.sub_self]
  · rw [readyTasks, hempty]
    show q.readyCount - sumOf (fun s => s.tasks.length) q.shards = 0
    rw [hs.readyCount_eq, readyTasks, length_flatMap_eq_sumOf, Nat.sub_self]
  · show q.delayedCount - q.delayed.length = 0
    rw [hs.delayedCount_eq, Nat.sub_self]
  · simp [Sharded.drain]

end Sharded

end Dispatch
