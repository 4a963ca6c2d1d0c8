/-
  The queues of the torrents.
-/
import GoI2pBt.Lib.Machine
import GoI2pBt.Lib.OrderedMap

namespace GoI2pBt.Rpc

open List Function

/-! ## The manager -/

structure RPCError where
  Code : ℤ
  Message : String
deriving DecidableEq

def ErrCodeInvalidTorrent : ℤ := 3

def ErrTorrentNotInQueue : RPCError := ⟨ErrCodeInvalidTorrent, "torrent not found in queue"⟩

inductive QueueType where
  | DownloadQueue
  | SeedQueue
deriving DecidableEq

def QueueType.other : QueueType → QueueType
  | .DownloadQueue => .SeedQueue
  | .SeedQueue => .DownloadQueue

theorem QueueType.exists {P : QueueType → Prop} : (∃ t, P t) ↔ P .DownloadQueue ∨ P .SeedQueue := by
  constructor
  · rintro ⟨t, h⟩
    cases t
    · exact .inl h
    · exact .inr h
  · rintro (h | h)
    · exact ⟨_, h⟩
    · exact ⟨_, h⟩

theorem QueueType.ne_other (t : QueueType) : t ≠ t.other := by
  cases t <;> decide

structure QueueItem where
  TorrentID : Int64
  QueuePosition : ℤ
  AddedTime : ℤ
  Priority : ℤ
deriving DecidableEq, Inhabited

structure Lane where
  queue : Finmap fun _ : Int64 => QueueItem
  order : List Int64
  active : Finset Int64
  queueLength : ℤ
  activeCount : ℤ

structure QueueConfig where
  MaxActive : QueueType → ℤ
  Enabled : QueueType → Bool

structure QueueManager where
  lane : QueueType → Lane
  config : QueueConfig
  totalQueued : ℤ
  totalActivated : ℤ

def NewQueueManager (config : QueueConfig) : QueueManager where
  lane _ := ⟨∅, [], ∅, 0, 0⟩
  config := config
  totalQueued := 0
  totalActivated := 0

abbrev Activation := Int64 × QueueType

/-! ## The operations on a lane -/

namespace Lane

variable (l : Lane)

def updatePositions : Lane :=
  { l with queue := renumber (fun i item => { item with QueuePosition := i }) l.queue l.order }

def refresh : Lane :=
  let l := l.updatePositions
  { l with queueLength := l.queue.keys.card }

def removeUnsafe (torrentID : Int64) : Lane :=
  if torrentID ∈ l.queue then
    { l with queue := l.queue.erase torrentID, order := l.order.erase torrentID }.refresh
  else l

def less (queue : Finmap fun _ : Int64 => QueueItem) (a b : Int64) : Bool :=
  let itemI := (queue.lookup a).getD default
  let itemJ := (queue.lookup b).getD default
  if itemI.Priority ≠ itemJ.Priority then itemI.Priority > itemJ.Priority
  else itemI.AddedTime < itemJ.AddedTime

def sort (S : SortSlice) : Option Lane :=
  if 2 ≤ l.order.length ∧ ∃ id ∈ l.order, l.queue.lookup id = none then none
  else some { l with order := S.slice (less l.queue) l.order }

def add (S : SortSlice) (item : QueueItem) : Option Lane :=
  let l := { l with
    queue := l.queue.insert item.TorrentID item
    order := l.order ++ [item.TorrentID] }
  (l.sort S).map refresh

def clamp (newPosition queueLen : ℤ) : ℤ :=
  let newPosition := if newPosition < 0 then 0 else newPosition
  if newPosition ≥ queueLen then queueLen - 1 else newPosition

def moveTo (torrentID : Int64) (newPos : ℕ) : Lane :=
  let order := l.order.erase torrentID
  { l with order := order.take newPos ++ torrentID :: order.drop newPos }.updatePositions

def moveIn (torrentID : Int64) (newPosition : ℤ) : Except RPCError Lane :=
  if torrentID ∉ l.order then .error ErrTorrentNotInQueue
  else if clamp newPosition l.order.length = l.order.idxOf torrentID then .ok l
  else .ok (l.moveTo torrentID (clamp newPosition l.order.length).toNat)

def activate (torrentID : Int64) : Lane :=
  let l := l.removeUnsafe torrentID
  { l with active := insert torrentID l.active }

def activateFirst : ℕ → Lane → Lane × List Int64
  | 0, l => (l, [])
  | n + 1, l =>
    match l.order with
    | [] => (l, [])
    | torrentID :: _ =>
      let r := activateFirst n (l.activate torrentID)
      (r.1, torrentID :: r.2)

end Lane

/-! ## The operations of the manager -/

namespace QueueManager

variable (qm : QueueManager)

def setLane (queueType : QueueType) (l : Lane) : QueueManager :=
  { qm with lane := update qm.lane queueType l }

def removeUnsafe (queueType : QueueType) (torrentID : Int64) : QueueManager :=
  qm.setLane queueType ((qm.lane queueType).removeUnsafe torrentID)

def removeFromDownloadQueueUnsafe (torrentID : Int64) : QueueManager :=
  qm.removeUnsafe .DownloadQueue torrentID

def removeFromSeedQueueUnsafe (torrentID : Int64) : QueueManager :=
  qm.removeUnsafe .SeedQueue torrentID

def AddToQueue (S : SortSlice) (now : ℤ) (torrentID : Int64) (queueType : QueueType)
    (priority : ℤ) : Option QueueManager :=
  if ¬ qm.config.Enabled queueType then some qm
  else
    let qm := qm.removeUnsafe queueType.other torrentID
    ((qm.lane queueType).add S ⟨torrentID, 0, now, priority⟩).map fun l =>
      { qm.setLane queueType l with totalQueued := qm.totalQueued + 1 }

def deactivate (queueType : QueueType) (torrentID : Int64) : QueueManager :=
  let active := (qm.lane queueType).active.erase torrentID
  qm.setLane queueType { qm.lane queueType with active := active, activeCount := active.card }

def RemoveFromQueue (torrentID : Int64) : QueueManager :=
  let qm := (qm.removeFromDownloadQueueUnsafe torrentID).removeFromSeedQueueUnsafe torrentID
  (qm.deactivate .DownloadQueue torrentID).deactivate .SeedQueue torrentID

def moveIn (queueType : QueueType) (torrentID : Int64) (newPosition : ℤ) :
    Except RPCError QueueManager :=
  ((qm.lane queueType).moveIn torrentID newPosition).map (qm.setLane queueType)

def moveInDownloadQueue (torrentID : Int64) (newPosition : ℤ) : Except RPCError QueueManager :=
  qm.moveIn .DownloadQueue torrentID newPosition

def moveInSeedQueue (torrentID : Int64) (newPosition : ℤ) : Except RPCError QueueManager :=
  qm.moveIn .SeedQueue torrentID newPosition

def SetQueuePosition (torrentID : Int64) (position : ℤ) : Except RPCError QueueManager :=
  if torrentID ∈ (qm.lane .DownloadQueue).queue then qm.moveInDownloadQueue torrentID position
  else if torrentID ∈ (qm.lane .SeedQueue).queue then qm.moveInSeedQueue torrentID position
  else .error ErrTorrentNotInQueue

def ForceActivate (torrentID : Int64) (queueType : QueueType) : QueueManager × List Activation :=
  let qm := (qm.removeFromDownloadQueueUnsafe torrentID).removeFromSeedQueueUnsafe torrentID
  let active := insert torrentID (qm.lane queueType).active
  let l := { qm.lane queueType with active := active, activeCount := active.card }
  ({ qm.setLane queueType l with totalActivated := qm.totalActivated + 1 },
    [(torrentID, queueType)])

def room (queueType : QueueType) : ℕ :=
  (qm.config.MaxActive queueType - (qm.lane queueType).active.card).toNat

def processQueue (queueType : QueueType) : QueueManager × List Activation :=
  let l := qm.lane queueType
  let r := l.activateFirst (qm.room queueType)
  ({ qm.setLane queueType { r.1 with activeCount := l.active.card + r.2.length } with
      totalActivated := qm.totalActivated + r.2.length },
    r.2.map fun torrentID => (torrentID, queueType))

def processDownloadQueue : QueueManager × List Activation := qm.processQueue .DownloadQueue

def processSeedQueue : QueueManager × List Activation := qm.processQueue .SeedQueue

def processIf (queueType : QueueType) : QueueManager × List Activation :=
  if qm.config.Enabled queueType ∧ 0 < qm.config.MaxActive queueType then
    match queueType with
    | .DownloadQueue => qm.processDownloadQueue
    | .SeedQueue => qm.processSeedQueue
  else (qm, [])

def processQueues : QueueManager × List Activation :=
  let r := qm.processIf .DownloadQueue
  let r' := r.1.processIf .SeedQueue
  (r'.1, r.2 ++ r'.2)

end QueueManager

inductive QueueOp where
  | add (now : ℤ) (torrentID : Int64) (queueType : QueueType) (priority : ℤ)
  | remove (torrentID : Int64)
  | setPosition (torrentID : Int64) (position : ℤ)
  | forceActivate (torrentID : Int64) (queueType : QueueType)
  | process

def QueueManager.step (S : SortSlice) (qm : QueueManager) :
    QueueOp → Option (QueueManager × List Activation)
  | .add now torrentID queueType priority =>
    (qm.AddToQueue S now torrentID queueType priority).map (·, [])
  | .remove torrentID => some (qm.RemoveFromQueue torrentID, [])
  | .setPosition torrentID position =>
    match qm.SetQueuePosition torrentID position with
    | .ok qm' => some (qm', [])
    | .error _ => some (qm, [])
  | .forceActivate torrentID queueType => some (qm.ForceActivate torrentID queueType)
  | .process => some qm.processQueues

/-! ## Consistent lanes -/

namespace Lane

variable {l : Lane} {k id : Int64}

abbrev Consistent (l : Lane) : Prop := Placed QueueItem.QueuePosition l.queue l.order

@[simp] theorem mem_queue_refresh : k ∈ l.refresh.queue ↔ k ∈ l.queue := mem_renumber

theorem consistent_refresh (hn : l.order.Nodup) (hm : ∀ k, k ∈ l.order ↔ k ∈ l.queue) :
    l.refresh.Consistent :=
  placed_renumber (fun _ _ => rfl) hn hm

@[simp] theorem mem_queue_removeUnsafe : k ∈ (l.removeUnsafe id).queue ↔ k ≠ id ∧ k ∈ l.queue := by
  unfold removeUnsafe
  split_ifs with h
  · rw [mem_queue_refresh, Finmap.mem_erase]
  · constructor
    · intro hk
      exact ⟨fun he => h (he ▸ hk), hk⟩
    · exact And.right

@[simp] theorem active_removeUnsafe : (l.removeUnsafe id).active = l.active := by
  unfold removeUnsafe
  split_ifs <;> rfl

theorem Consistent.order_removeUnsafe (h : l.Consistent) :
    (l.removeUnsafe id).order = l.order.erase id := by
  unfold removeUnsafe
  split_ifs with hid
  · rfl
  · rw [erase_of_not_mem (mt (h.mem id).1 hid)]

theorem Consistent.removeUnsafe (h : l.Consistent) : (l.removeUnsafe id).Consistent := by
  unfold Lane.removeUnsafe
  split_ifs
  · refine consistent_refresh (h.nodup.erase id) fun k => ?_
    rw [h.nodup.mem_erase_iff, Finmap.mem_erase, h.mem]
  · exact h

theorem add_eq_some {S : SortSlice} {item l'} (h : l.add S item = some l') :
    l'.order.Perm (l.order ++ [item.TorrentID]) ∧
      (∀ k, k ∈ l'.queue ↔ k = item.TorrentID ∨ k ∈ l.queue) ∧ l'.active = l.active := by
  rw [add, Option.map_eq_some_iff] at h
  obtain ⟨l1, hsort, rfl⟩ := h
  unfold sort at hsort
  split_ifs at hsort
  cases hsort
  refine ⟨S.perm _ _, fun k => ?_, rfl⟩
  rw [mem_queue_refresh, Finmap.mem_insert]

theorem Consistent.add (h : l.Consistent) (S : SortSlice) (item : QueueItem) :
    ∃ l', l.add S item = some l' ∧ (item.TorrentID ∉ l.queue → l'.Consistent) := by
  have hitems : ∀ k, k ∈ l.order ++ [item.TorrentID] ↔ k ∈ l.queue.insert item.TorrentID item := by
    intro k
    rw [mem_append, mem_singleton, Finmap.mem_insert, h.mem, or_comm]
  have hperm := S.perm (less (l.queue.insert item.TorrentID item)) (l.order ++ [item.TorrentID])
  have hadd : l.add S item = some { l with
      queue := l.queue.insert item.TorrentID item
      order := S.slice (less (l.queue.insert item.TorrentID item)) (l.order ++ [item.TorrentID])
      }.refresh := by
    rw [Lane.add, Lane.sort, if_neg]
    · rfl
    · rintro ⟨-, k, hk, hnone⟩
      exact Finmap.lookup_eq_none.1 hnone ((hitems k).1 hk)
  refine ⟨_, hadd, fun hid => ?_⟩
  refine consistent_refresh (hperm.nodup_iff.2 ?_) fun k => ?_
  · rw [← concat_eq_append, nodup_concat]
    exact ⟨mt (h.mem _).1 hid, h.nodup⟩
  · exact hperm.mem_iff.trans (hitems k)

theorem not_consistent_of_add {l' : Lane} (h : l.Consistent)
    (hperm : l'.order.Perm (l.order ++ [id])) (hid : id ∈ l.queue) : ¬ l'.Consistent := by
  intro h'
  have hn := hperm.nodup_iff.1 h'.nodup
  rw [← concat_eq_append, nodup_concat] at hn
  exact hn.1 ((h.mem id).2 hid)

theorem perm_moveTo (hid : id ∈ l.order) (n : ℕ) : (l.moveTo id n).order.Perm l.order :=
  calc (l.order.erase id).take n ++ id :: (l.order.erase id).drop n
    _ |>.Perm (id :: ((l.order.erase id).take n ++ (l.order.erase id).drop n)) := perm_middle
    _ = id :: l.order.erase id := by rw [take_append_drop]
    _ |>.Perm l.order := (perm_cons_erase hid).symm

@[simp] theorem mem_queue_moveTo {n} : k ∈ (l.moveTo id n).queue ↔ k ∈ l.queue := mem_renumber

theorem moveIn_cases {l' newPosition} (he : l.moveIn id newPosition = .ok l') :
    l' = l ∨ id ∈ l.order ∧ ∃ n, l' = l.moveTo id n := by
  unfold moveIn at he
  split_ifs at he with hid hpos
  · exact .inl (Except.ok.inj he).symm
  · exact .inr ⟨hid, _, (Except.ok.inj he).symm⟩

theorem Consistent.moveIn {l' newPosition} (h : l.Consistent)
    (he : l.moveIn id newPosition = .ok l') : l'.Consistent := by
  rcases moveIn_cases he with rfl | ⟨hid, n, rfl⟩
  · exact h
  · have hperm := perm_moveTo hid n
    refine placed_renumber (fun _ _ => rfl) (hperm.nodup_iff.2 h.nodup) fun k => ?_
    exact hperm.mem_iff.trans (h.mem k)

@[simp] theorem mem_queue_activate : k ∈ (l.activate id).queue ↔ k ≠ id ∧ k ∈ l.queue :=
  mem_queue_removeUnsafe

@[simp] theorem mem_active_activate : k ∈ (l.activate id).active ↔ k = id ∨ k ∈ l.active := by
  rw [activate, Finset.mem_insert, active_removeUnsafe]

theorem Consistent.activateFirst (h : l.Consistent) (n : ℕ) :
    (l.activateFirst n).1.Consistent ∧ (l.activateFirst n).2 = l.order.take n := by
  induction n generalizing l with
  | zero => exact ⟨h, rfl⟩
  | succ n ih =>
    rw [Lane.activateFirst]
    cases ho : l.order with
    | nil => exact ⟨h, rfl⟩
    | cons id order =>
      have hrest : (l.activate id).order = order := by
        rw [Lane.activate, h.order_removeUnsafe, ho, erase_cons_head]
      have hact : (l.activate id).Consistent := h.removeUnsafe
      obtain ⟨hc, hfired⟩ := ih hact
      refine ⟨hc, ?_⟩
      rw [take_succ_cons, ← hrest, ← hfired]

theorem mem_activateFirst (l : Lane) (k : Int64) (n : ℕ) :
    (k ∈ (l.activateFirst n).1.queue ↔ k ∈ l.queue ∧ k ∉ (l.activateFirst n).2) ∧
    (k ∈ (l.activateFirst n).1.active ↔ k ∈ l.active ∨ k ∈ (l.activateFirst n).2) := by
  induction n generalizing l with
  | zero => simp [activateFirst]
  | succ n ih =>
    rw [activateFirst]
    cases ho : l.order with
    | nil => simp
    | cons id order =>
      obtain ⟨hq, ha⟩ := ih (l.activate id)
      rw [mem_queue_activate] at hq
      rw [mem_active_activate] at ha
      simp only [mem_cons, hq, ha]
      tauto

end Lane

/-! ## Where the torrents are -/

inductive Place where
  | queued (queueType : QueueType)
  | active (queueType : QueueType)
deriving DecidableEq

namespace QueueManager

variable {qm qm' : QueueManager} {S : SortSlice} {t : QueueType} {k id : Int64} {p : Place}
  {l : Lane}

def Has (qm : QueueManager) : Place → Int64 → Prop
  | .queued t, k => k ∈ (qm.lane t).queue
  | .active t, k => k ∈ (qm.lane t).active

instance (qm : QueueManager) (p : Place) (id : Int64) : Decidable (qm.Has p id) :=
  match p with
  | .queued t => inferInstanceAs (Decidable (id ∈ (qm.lane t).queue))
  | .active t => inferInstanceAs (Decidable (id ∈ (qm.lane t).active))

theorem has_update_iff {R : Place → Prop} (h : qm'.lane = update qm.lane t l)
    (hq : k ∈ l.queue ↔ R (.queued t)) (ha : k ∈ l.active ↔ R (.active t))
    (hne : ∀ p, p ≠ .queued t → p ≠ .active t → (qm.Has p k ↔ R p)) :
    qm'.Has p k ↔ R p := by
  rcases p with t' | t' <;> by_cases ht : t' = t
  · subst ht
    rw [Has, h, update_self, hq]
  · rw [← hne _ (by simpa using ht) (by simp), Has, Has, h, update_of_ne ht]
  · subst ht
    rw [Has, h, update_self, ha]
  · rw [← hne _ (by simp) (by simpa using ht), Has, Has, h, update_of_ne ht]

theorem has_removeUnsafe :
    (qm.removeUnsafe t id).Has p k ↔ qm.Has p k ∧ ¬(k = id ∧ p = .queued t) := by
  refine has_update_iff (R := fun p => qm.Has p k ∧ ¬(k = id ∧ p = .queued t)) rfl ?_ ?_ ?_
  · simp [Has, and_comm]
  · simp [Has]
  · intro p hp _
    simp [hp]

theorem has_deactivate : (qm.deactivate t id).Has p k ↔ qm.Has p k ∧ ¬(k = id ∧ p = .active t) := by
  refine has_update_iff (R := fun p => qm.Has p k ∧ ¬(k = id ∧ p = .active t)) rfl ?_ ?_ ?_
  · simp [Has]
  · simp [Has, and_comm]
  · intro p _ hp
    simp [hp]

theorem has_removeUnsafe_both :
    ((qm.removeFromDownloadQueueUnsafe id).removeFromSeedQueueUnsafe id).Has p k ↔
      qm.Has p k ∧ ¬(k = id ∧ ∃ t, p = .queued t) := by
  rw [removeFromSeedQueueUnsafe, has_removeUnsafe, removeFromDownloadQueueUnsafe, has_removeUnsafe]
  rcases p with t | t
  · cases t <;> simp
  · simp

theorem has_RemoveFromQueue : (qm.RemoveFromQueue id).Has p k ↔ qm.Has p k ∧ k ≠ id := by
  rw [RemoveFromQueue, has_deactivate, has_deactivate, has_removeUnsafe_both]
  rcases p with t | t
  · simp
  · cases t <;> simp

theorem has_ForceActivate : (qm.ForceActivate id t).1.Has p k ↔
      k = id ∧ p = .active t ∨ qm.Has p k ∧ ¬(k = id ∧ ∃ t, p = .queued t) := by
  rw [← has_removeUnsafe_both]
  generalize hqm : (qm.removeFromDownloadQueueUnsafe id).removeFromSeedQueueUnsafe id = qm0
  rw [ForceActivate, hqm]
  refine has_update_iff (R := fun p => k = id ∧ p = .active t ∨ qm0.Has p k) rfl ?_ ?_ ?_
  · simp [Has]
  · simp [Has]
  · intro p _ hp
    simp [hp]

theorem processIf_cases (qm : QueueManager) (t : QueueType) :
    qm.processIf t = (qm, []) ∨ qm.processIf t = qm.processQueue t := by
  unfold processIf
  split_ifs
  · right
    cases t <;> rfl
  · exact .inl rfl

theorem has_processQueue : (qm.processQueue t).1.Has p k ↔
      (k, t) ∈ (qm.processQueue t).2 ∧ p = .active t ∨
        qm.Has p k ∧ ¬((k, t) ∈ (qm.processQueue t).2 ∧ p = .queued t) := by
  have hfired : (k, t) ∈ (qm.processQueue t).2 ↔ k ∈ ((qm.lane t).activateFirst (qm.room t)).2 := by
    simp [processQueue]
  obtain ⟨hq, ha⟩ := (qm.lane t).mem_activateFirst k (qm.room t)
  rw [hfired]
  refine has_update_iff (R := fun p => k ∈ ((qm.lane t).activateFirst (qm.room t)).2 ∧ p = .active t ∨
    qm.Has p k ∧ ¬(k ∈ ((qm.lane t).activateFirst (qm.room t)).2 ∧ p = .queued t)) rfl ?_ ?_ ?_
  · simp [Has, hq]
  · simp [Has, ha, or_comm]
  · intro p hp hp'
    simp [hp, hp']

theorem has_processIf : (qm.processIf t).1.Has p k ↔ (k, t) ∈ (qm.processIf t).2 ∧ p = .active t ∨
        qm.Has p k ∧ ¬((k, t) ∈ (qm.processIf t).2 ∧ p = .queued t) := by
  rcases qm.processIf_cases t with h | h
  · simp [h]
  · rw [h]
    exact has_processQueue

theorem type_of_mem_processIf {a} (h : a ∈ (qm.processIf t).2) : a.2 = t := by
  rcases qm.processIf_cases t with hp | hp
  · simp [hp] at h
  · rw [hp, processQueue, mem_map] at h
    obtain ⟨id, -, rfl⟩ := h
    rfl

theorem has_processQueues : qm.processQueues.1.Has p k ↔
      (∃ t, (k, t) ∈ qm.processQueues.2 ∧ p = .active t) ∨
        qm.Has p k ∧ ¬∃ t, (k, t) ∈ qm.processQueues.2 ∧ p = .queued t := by
  have hd : (k, QueueType.SeedQueue) ∉ (qm.processIf .DownloadQueue).2 := fun h =>
    QueueType.noConfusion (type_of_mem_processIf h)
  have hs : (k, QueueType.DownloadQueue) ∉ ((qm.processIf .DownloadQueue).1.processIf .SeedQueue).2 :=
    fun h => QueueType.noConfusion (type_of_mem_processIf h)
  rw [processQueues, has_processIf, has_processIf]
  simp only [QueueType.exists, mem_append, hd, hs, or_false, false_or]
  rcases p with t | t <;> cases t <;> simp

theorem SetQueuePosition_cases {position} (he : qm.SetQueuePosition id position = .ok qm') :
    ∃ t l, (qm.lane t).moveIn id position = .ok l ∧ qm' = qm.setLane t l := by
  have hmove : ∀ t, qm.moveIn t id position = .ok qm' →
      ∃ t l, (qm.lane t).moveIn id position = .ok l ∧ qm' = qm.setLane t l := by
    intro t ht
    rw [moveIn] at ht
    cases hl : (qm.lane t).moveIn id position with
    | error e =>
      rw [hl] at ht
      cases ht
    | ok l =>
      rw [hl] at ht
      cases ht
      exact ⟨t, l, hl, rfl⟩
  unfold SetQueuePosition at he
  split_ifs at he
  · exact hmove .DownloadQueue he
  · exact hmove .SeedQueue he

theorem has_SetQueuePosition {position : ℤ} (he : qm.SetQueuePosition id position = .ok qm') :
    qm'.Has p k ↔ qm.Has p k := by
  obtain ⟨t, l, hl, rfl⟩ := SetQueuePosition_cases he
  obtain ⟨hq, ha⟩ : (k ∈ l.queue ↔ k ∈ (qm.lane t).queue) ∧ l.active = (qm.lane t).active := by
    rcases Lane.moveIn_cases hl with rfl | ⟨-, n, rfl⟩
    · exact ⟨Iff.rfl, rfl⟩
    · exact ⟨Lane.mem_queue_moveTo, rfl⟩
  refine has_update_iff rfl hq ?_ fun _ _ _ => Iff.rfl
  rw [ha, Has]

theorem AddToQueue_eq_some {now priority} (hen : qm.config.Enabled t)
    (h : qm.AddToQueue S now id t priority = some qm') :
    ∃ l, (qm.lane t).add S ⟨id, 0, now, priority⟩ = some l ∧
      qm'.lane = update (qm.removeUnsafe t.other id).lane t l ∧ qm'.config = qm.config := by
  have hlane : (qm.removeUnsafe t.other id).lane t = qm.lane t := update_of_ne t.ne_other _ _
  unfold AddToQueue at h
  rw [if_neg (not_not.2 hen)] at h
  obtain ⟨l, hadd, rfl⟩ := Option.map_eq_some_iff.1 h
  exact ⟨l, hlane ▸ hadd, rfl, rfl⟩

theorem has_AddToQueue {now priority : ℤ} (hen : qm.config.Enabled t)
    (h : qm.AddToQueue S now id t priority = some qm') :
    qm'.Has p k ↔ k = id ∧ p = .queued t ∨ qm.Has p k ∧ ¬(k = id ∧ p = .queued t.other) := by
  obtain ⟨l, hadd, hlane, -⟩ := AddToQueue_eq_some hen h
  obtain ⟨-, hmem, hactive⟩ := Lane.add_eq_some hadd
  refine has_update_iff (R := fun p =>
    k = id ∧ p = .queued t ∨ qm.Has p k ∧ ¬(k = id ∧ p = .queued t.other)) hlane ?_ ?_ ?_
  · simp [Has, hmem, t.ne_other]
  · simp [Has, hactive]
  · intro p hp _
    simp [has_removeUnsafe, hp]

end QueueManager

end GoI2pBt.Rpc
