/-
  Invariants of the queues along runs.
-/
import GoI2pBt.Rpc.QueueManager

namespace GoI2pBt.Rpc.QueueManager

open List Function QueueManager Finmap

variable {qm qm' : QueueManager} {S : SortSlice} {t : QueueType} {k id : Int64} {p : Place} {l : Lane}

variable {op : QueueOp} {fired : List Activation}

/-! ## Consistency along a run -/

def Consistent (qm : QueueManager) : Prop := ∀ t, (qm.lane t).Consistent

section

variable (h : qm.Consistent)
include h

theorem Consistent.update (he : qm'.lane = update qm.lane t l)
    (hl : l.Consistent) : qm'.Consistent := by
  intro t'
  rw [he]
  by_cases ht : t' = t
  · subst ht
    rw [update_self]
    exact hl
  · rw [update_of_ne ht]
    exact h t'

theorem Consistent.removeUnsafe : (qm.removeUnsafe t id).Consistent :=
  h.update rfl (h t).removeUnsafe

theorem Consistent.removeUnsafe_both :
    ((qm.removeFromDownloadQueueUnsafe id).removeFromSeedQueueUnsafe id).Consistent :=
  h.removeUnsafe.removeUnsafe

theorem Consistent.deactivate : (qm.deactivate t id).Consistent := h.update rfl (h t)

theorem Consistent.RemoveFromQueue : (qm.RemoveFromQueue id).Consistent :=
  h.removeUnsafe_both.deactivate.deactivate

theorem Consistent.ForceActivate : (qm.ForceActivate id t).1.Consistent :=
  h.removeUnsafe_both.update rfl (h.removeUnsafe_both t)

theorem Consistent.processIf : (qm.processIf t).1.Consistent := by
  rcases qm.processIf_cases t with hp | hp
  · rw [hp]
    exact h
  · rw [hp]
    exact h.update rfl ((h t).activateFirst (qm.room t)).1

theorem Consistent.processQueues : qm.processQueues.1.Consistent := h.processIf.processIf

theorem Consistent.SetQueuePosition {position}
    (he : qm.SetQueuePosition id position = .ok qm') : qm'.Consistent := by
  obtain ⟨t, l, hl, rfl⟩ := SetQueuePosition_cases he
  exact h.update rfl ((h t).moveIn hl)

end

theorem AddToQueue_disabled (S : SortSlice) (now : ℤ) (priority : ℤ) (h : ¬ qm.config.Enabled t) :
    qm.AddToQueue S now id t priority = some qm :=
  if_pos h

theorem Consistent.AddToQueue (h : qm.Consistent) (S : SortSlice) (now : ℤ) (id : Int64)
    (t : QueueType) (priority : ℤ) (hen : qm.config.Enabled t) :
    ∃ qm', qm.AddToQueue S now id t priority = some qm' ∧
      (qm'.Consistent ↔ ¬ qm.Has (.queued t) id) := by
  have hlane : (qm.removeUnsafe t.other id).lane t = qm.lane t :=
    Function.update_of_ne t.ne_other _ _
  obtain ⟨l, hadd, hcons⟩ := (h t).add S ⟨id, 0, now, priority⟩
  obtain ⟨hperm, -, -⟩ := Lane.add_eq_some hadd
  rw [← hlane] at hadd
  have he : qm.AddToQueue S now id t priority = some
      { (qm.removeUnsafe t.other id).setLane t l with totalQueued := qm.totalQueued + 1 } := by
    unfold QueueManager.AddToQueue
    rw [if_neg (not_not.2 hen)]
    exact congrArg (Option.map _) hadd
  refine ⟨_, he, fun h' hid => ?_, fun hid => ?_⟩
  · have hl : (Function.update (qm.removeUnsafe t.other id).lane t l t).Consistent := h' t
    rw [Function.update_self] at hl
    exact Lane.not_consistent_of_add (h t) hperm hid hl
  · exact h.removeUnsafe.update rfl (hcons hid)

def Fresh (qm : QueueManager) : QueueOp → Prop
  | .add _ torrentID queueType _ =>
    qm.config.Enabled queueType → torrentID ∉ (qm.lane queueType).queue
  | _ => True

theorem step_setPosition (S : SortSlice) (qm : QueueManager) (id : Int64) (position : ℤ) :
    ∃ qm', qm.step S (.setPosition id position) = some (qm', []) ∧
      (qm' = qm ∨ qm.SetQueuePosition id position = .ok qm') := by
  rw [step]
  cases h : qm.SetQueuePosition id position with
  | error e => exact ⟨qm, rfl, .inl rfl⟩
  | ok qm' => exact ⟨qm', rfl, .inr rfl⟩

theorem Consistent.step (h : qm.Consistent) (hf : qm.Fresh op) :
    ∃ qm' fired, qm.step S op = some (qm', fired) ∧ True ∧ qm'.Consistent := by
  cases op with
  | add now id t priority =>
    by_cases hen : qm.config.Enabled t
    · obtain ⟨qm', he, hc⟩ := h.AddToQueue S now id t priority hen
      exact ⟨qm', [], by rw [step, he]; rfl, trivial, hc.2 (hf hen)⟩
    · exact ⟨qm, [], by rw [step, AddToQueue_disabled S now priority hen]; rfl, trivial, h⟩
  | remove id => exact ⟨_, _, rfl, trivial, h.RemoveFromQueue⟩
  | setPosition id position =>
    obtain ⟨qm', he, rfl | hpos⟩ := step_setPosition S qm id position
    · exact ⟨_, _, he, trivial, h⟩
    · exact ⟨_, _, he, trivial, h.SetQueuePosition hpos⟩
  | forceActivate id t => exact ⟨_, _, rfl, trivial, h.ForceActivate⟩
  | process => exact ⟨_, _, rfl, trivial, h.processQueues⟩

theorem Consistent.fresh (h : qm.Consistent)
    (he : qm.step S op = some (qm', fired)) (h' : qm'.Consistent) : qm.Fresh op := by
  cases op with
  | add now id t priority =>
    intro hen
    obtain ⟨qm1, hadd, hc⟩ := h.AddToQueue S now id t priority hen
    rw [QueueManager.step, hadd] at he
    cases he
    exact hc.1 h'
  | _ => trivial

theorem consistent_new (config : QueueConfig) : (NewQueueManager config).Consistent := by
  intro t
  refine ⟨nodup_nil, fun k => ?_, fun h => ?_⟩
  · simp [NewQueueManager, notMem_empty]
  · simp [NewQueueManager] at h

/-- **The queues stay consistent if nothing is added twice.** -/
theorem consistent_throughout_iff (S : SortSlice) (config : QueueConfig) (ops : List QueueOp) :
    Throughout (QueueManager.step S) Consistent (fun _ _ => True) (NewQueueManager config) ops ↔
      Allowed (QueueManager.step S) Fresh (NewQueueManager config) ops := by
  constructor
  · exact allowed_of_throughout fun h he _ h' => h.fresh he h'
  · exact throughout_of_allowed (fun h hf => h.step hf) (consistent_new config)

def twoEach : QueueConfig where
  MaxActive _ := 2
  Enabled _ := true

theorem added_twice : ((runSteps (QueueManager.step .insertion) (NewQueueManager twoEach)
        [.add 0 1 .DownloadQueue 0, .add 1 1 .DownloadQueue 0]).map
          fun qm => (qm.lane .DownloadQueue).order) = some [1, 1] ∧
      (runSteps (QueueManager.step .insertion) (NewQueueManager twoEach)
        [.add 0 1 .DownloadQueue 0, .add 1 1 .DownloadQueue 0, .remove 1,
          .add 2 2 .DownloadQueue 0]).isNone := by
  decide +kernel

/-! ## One place for each torrent -/

def Exclusive (qm : QueueManager) : Prop := ∀ id p p', qm.Has p id → qm.Has p' id → p = p'

def FiresOnce (qm : QueueManager) (fired : List Activation) : Prop :=
  (fired.map Prod.fst).Nodup ∧ ∀ a ∈ fired, ∀ t, ¬ qm.Has (.active t) a.1

def Apart (qm : QueueManager) : QueueOp → Prop
  | .add _ torrentID queueType _ => qm.config.Enabled queueType →
    ¬ qm.Has (.queued queueType) torrentID ∧ ∀ t, ¬ qm.Has (.active t) torrentID
  | .forceActivate torrentID _ => ∀ t, ¬ qm.Has (.active t) torrentID
  | _ => True

theorem Apart.fresh (h : qm.Apart op) : qm.Fresh op := by
  cases op with
  | add now id t priority => exact fun hen => (h hen).1
  | _ => trivial

theorem Exclusive.of_has (h : qm.Exclusive)
    (hm : ∀ k, (∃ p0, ∀ p, qm'.Has p k → p = p0) ∨ ∀ p, qm'.Has p k → qm.Has p k) :
    qm'.Exclusive := by
  intro k p p' hp hp'
  rcases hm k with ⟨p0, hto⟩ | hkeep
  · rw [hto p hp, hto p' hp']
  · exact h k p p' (hkeep p hp) (hkeep p' hp')

theorem Consistent.fired_processIf (h : qm.Consistent) : ((qm.processIf t).2.map Prod.fst).Nodup ∧
      ∀ k, (k, t) ∈ (qm.processIf t).2 → qm.Has (.queued t) k := by
  rcases qm.processIf_cases t with hp | hp
  · simp [hp]
  · have hfired : (qm.processIf t).2.map Prod.fst = (qm.lane t).order.take (qm.room t) := by
      rw [hp, processQueue, ((h t).activateFirst (qm.room t)).2, map_map]
      exact map_id _
    refine ⟨hfired ▸ (h t).nodup.sublist (take_sublist _ _), fun k hk => ?_⟩
    have hmem : k ∈ (qm.lane t).order.take (qm.room t) := hfired ▸ mem_map_of_mem hk
    exact ((h t).mem k).1 (mem_of_mem_take hmem)

theorem Consistent.queued_of_fired (h : qm.Consistent) (hk : (k, t) ∈ qm.processQueues.2) :
    qm.Has (.queued t) k := by
  rcases mem_append.1 hk with hk | hk
  · obtain rfl : t = .DownloadQueue := type_of_mem_processIf hk
    exact h.fired_processIf.2 k hk
  · obtain rfl : t = .SeedQueue := type_of_mem_processIf hk
    rcases has_processIf.1 (h.processIf.fired_processIf.2 k hk) with ⟨-, hp⟩ | ⟨hq, -⟩
    · cases hp
    · exact hq

theorem Exclusive.firesOnce_processQueues (h : qm.Consistent) (hx : qm.Exclusive) :
    qm.FiresOnce qm.processQueues.2 := by
  refine ⟨?_, fun a ha t hact => ?_⟩
  · rw [processQueues, map_append]
    refine h.fired_processIf.1.append h.processIf.fired_processIf.1 fun k hd hs => ?_
    obtain ⟨⟨k1, t1⟩, hd1, rfl⟩ := mem_map.1 hd
    obtain ⟨⟨k2, t2⟩, hs2, rfl⟩ := mem_map.1 hs
    obtain rfl : t1 = .DownloadQueue := type_of_mem_processIf hd1
    obtain rfl : t2 = .SeedQueue := type_of_mem_processIf hs2
    have hd' := h.queued_of_fired (mem_append_left _ hd1)
    have hs' := h.queued_of_fired (mem_append_right _ hs2)
    cases hx _ _ _ hd' hs'
  · cases hx _ _ _ hact (h.queued_of_fired ha)

theorem Exclusive.processQueues (h : qm.Consistent) (hx : qm.Exclusive) :
    qm.processQueues.1.Exclusive := by
  refine hx.of_has fun k => ?_
  by_cases hk : ∃ t, (k, t) ∈ qm.processQueues.2
  · left
    obtain ⟨t, hk⟩ := hk
    refine ⟨.active t, fun p hp => ?_⟩
    rcases has_processQueues.1 hp with ⟨t', hk', rfl⟩ | ⟨hp, hn⟩
    · cases hx _ _ _ (h.queued_of_fired hk) (h.queued_of_fired hk')
      rfl
    · exact absurd ⟨t, hk, hx _ _ _ hp (h.queued_of_fired hk)⟩ hn
  · right
    intro p hp
    rcases has_processQueues.1 hp with ⟨t, hk', -⟩ | ⟨hp, -⟩
    · exact absurd ⟨t, hk'⟩ hk
    · exact hp

theorem Exclusive.ForceActivate (hx : qm.Exclusive) (ha : ∀ t, ¬ qm.Has (.active t) id) :
    (qm.ForceActivate id t).1.Exclusive := by
  refine hx.of_has fun k => ?_
  by_cases hk : k = id
  · subst hk
    refine .inl ⟨.active t, fun p hp => ?_⟩
    rcases has_ForceActivate.1 hp with ⟨-, hp⟩ | ⟨hp, hq⟩
    · exact hp
    · rcases p with t' | t'
      · exact absurd ⟨rfl, t', rfl⟩ hq
      · exact absurd hp (ha t')
  · right
    intro p hp
    rcases has_ForceActivate.1 hp with ⟨he, -⟩ | ⟨hp, -⟩
    · exact absurd he hk
    · exact hp

theorem Exclusive.of_add (hx : qm.Exclusive) (ha : ∀ t, ¬ qm.Has (.active t) id)
    (hadd : ∀ p k, qm'.Has p k ↔
      k = id ∧ p = .queued t ∨ qm.Has p k ∧ ¬(k = id ∧ p = .queued t.other)) : qm'.Exclusive := by
  refine hx.of_has fun k => ?_
  by_cases hk : k = id
  · subst hk
    refine .inl ⟨.queued t, fun p hp => ?_⟩
    rcases (hadd p k).1 hp with ⟨-, hp⟩ | ⟨hp, hq⟩
    · exact hp
    · rcases p with t' | t'
      · cases t <;> cases t' <;> simp_all [QueueType.other]
      · exact absurd hp (ha t')
  · right
    intro p hp
    rcases (hadd p k).1 hp with ⟨he, -⟩ | ⟨hp, -⟩
    · exact absurd he hk
    · exact hp

theorem Exclusive.step (h : qm.Consistent ∧ qm.Exclusive) (hop : qm.Apart op) :
    ∃ qm' fired, qm.step S op = some (qm', fired) ∧ qm.FiresOnce fired ∧
      qm'.Consistent ∧ qm'.Exclusive := by
  obtain ⟨qm', fired, he, -, hc⟩ := h.1.step (S := S) hop.fresh
  refine ⟨qm', fired, he, ?_⟩
  obtain ⟨h, hx⟩ := h
  cases op with
  | add now id t priority =>
    by_cases hen : qm.config.Enabled t
    · obtain ⟨qm1, hadd, -⟩ := h.AddToQueue S now id t priority hen
      rw [step, hadd] at he
      cases he
      exact ⟨by simp [FiresOnce], hc, hx.of_add (hop hen).2 fun p k => has_AddToQueue hen hadd⟩
    · rw [step, AddToQueue_disabled S now priority hen] at he
      cases he
      exact ⟨by simp [FiresOnce], hc, hx⟩
  | remove id =>
    cases he
    refine ⟨by simp [FiresOnce], hc, hx.of_has fun k => .inr fun p hp => ?_⟩
    exact (has_RemoveFromQueue.1 hp).1
  | setPosition id position =>
    obtain ⟨qm1, he1, hpos⟩ := step_setPosition S qm id position
    rw [he1] at he
    cases he
    refine ⟨by simp [FiresOnce], hc, ?_⟩
    rcases hpos with rfl | hpos
    · exact hx
    · exact hx.of_has fun k => .inr fun p hp => (has_SetQueuePosition hpos).1 hp
  | forceActivate id t =>
    cases he
    refine ⟨⟨nodup_singleton _, fun a ha => ?_⟩, hc, hx.ForceActivate hop⟩
    obtain rfl := mem_singleton.1 ha
    exact hop
  | process =>
    cases he
    exact ⟨hx.firesOnce_processQueues h, hc, hx.processQueues h⟩

theorem exclusive_new (config : QueueConfig) : (NewQueueManager config).Exclusive := by
  intro id p p' hp
  cases p <;> simp [Has, NewQueueManager, notMem_empty] at hp

/-- **When no torrent has two places.** -/
theorem exclusive_throughout (S : SortSlice) (config : QueueConfig) (ops : List QueueOp)
    (h : Allowed (QueueManager.step S) Apart (NewQueueManager config) ops) :
    Throughout (QueueManager.step S) Exclusive FiresOnce (NewQueueManager config) ops := by
  have hinit := And.intro (consistent_new config) (exclusive_new config)
  exact (throughout_of_allowed (C := Apart) Exclusive.step hinit h).mono And.right

theorem exclusive_throughout_sample :
    Allowed (QueueManager.step .insertion) Apart (NewQueueManager twoEach)
        [.add 0 1 .DownloadQueue 0, .process, .remove 1] ∧
      Throughout (QueueManager.step .insertion) Exclusive FiresOnce (NewQueueManager twoEach)
        [.add 0 1 .DownloadQueue 0, .process, .remove 1] := by
  have h : Allowed (QueueManager.step .insertion) Apart (NewQueueManager twoEach)
      [.add 0 1 .DownloadQueue 0, .process, .remove 1] := by
    refine ⟨fun _ => ⟨?_, fun t => ?_⟩,
      fun _ _ _ => ⟨trivial, fun _ _ _ => ⟨trivial, fun _ _ _ => trivial⟩⟩⟩
    · exact Finmap.notMem_empty
    · exact Finset.notMem_empty _
  exact ⟨h, exclusive_throughout _ _ _ h⟩

theorem active_queued_again : ((runSteps (QueueManager.step .insertion) (NewQueueManager twoEach)
        [.forceActivate 1 .DownloadQueue, .add 0 1 .SeedQueue 0]).map fun qm =>
          (decide (1 ∈ (qm.lane .DownloadQueue).active), decide (1 ∈ (qm.lane .SeedQueue).queue))) =
        some (true, true) ∧
      ((runSteps (QueueManager.step .insertion) (NewQueueManager twoEach)
        [.forceActivate 1 .DownloadQueue, .add 0 1 .SeedQueue 0]).bind fun qm =>
          (qm.step .insertion .process).map Prod.snd) = some [(1, .SeedQueue)] := by
  decide +kernel

theorem apart_of_step (h : qm.Consistent ∧ qm.Exclusive) (he : qm.step S op = some (qm', fired))
    (hf : qm.FiresOnce fired) (h' : qm'.Consistent ∧ qm'.Exclusive) : qm.Apart op := by
  cases op with
  | add now id t priority =>
    intro hen
    refine ⟨h.1.fresh he h'.1 hen, fun t' ha => ?_⟩
    obtain ⟨qm1, hadd, -⟩ := h.1.AddToQueue S now id t priority hen
    rw [step, hadd] at he
    cases he
    have hq : qm'.Has (.queued t) id := (has_AddToQueue hen hadd).2 (.inl ⟨rfl, rfl⟩)
    have ha' : qm'.Has (.active t') id := (has_AddToQueue hen hadd).2 (.inr ⟨ha, by simp⟩)
    cases h'.2 _ _ _ hq ha'
  | forceActivate id t =>
    cases he
    exact hf.2 _ (mem_singleton_self _)
  | _ => trivial

/-- **Both invariants hold if places are kept apart.** -/
theorem apart_iff (S : SortSlice) (config : QueueConfig) (ops : List QueueOp) :
    Throughout (step S) (fun qm => qm.Consistent ∧ qm.Exclusive) FiresOnce
        (NewQueueManager config) ops ↔
      Allowed (step S) Apart (NewQueueManager config) ops := by
  constructor
  · exact allowed_of_throughout apart_of_step
  · exact throughout_of_allowed Exclusive.step ⟨consistent_new config, exclusive_new config⟩

end GoI2pBt.Rpc.QueueManager
