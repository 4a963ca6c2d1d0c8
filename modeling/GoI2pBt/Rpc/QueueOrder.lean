/-
  The order of the queues: what one operation does to it.

  `consistent_parted_of_run` gives the conditions on the state for the states of runs.
-/
import GoI2pBt.Rpc.QueueRuns

namespace GoI2pBt

open List Finmap

/-! ## Sorting without stability -/

/-- A sort that puts ties in the reverse of their order, as `sort.Slice` may. -/
def SortSlice.reversing : SortSlice where
  slice less l := SortSlice.insertion.slice less l.reverse
  perm less l := (SortSlice.insertion.perm less l.reverse).trans l.reverse_perm
  sorted hasymm htrans l := SortSlice.insertion.sorted hasymm htrans l.reverse

theorem SortSlice.reversing_pair {α : Type} {less : α → α → Bool} {l : List α} {a b : α}
    (hl : [a, b].Sublist l) (h : ¬ less a b) :
    [b, a].Sublist (SortSlice.reversing.slice less l) :=
  sublist_insertionSort (pairwise_pair.2 h) (reverse_sublist.2 hl)

theorem not_pair_of_nodup {α : Type} {l : List α} {a b : α} (hn : l.Nodup)
    (hab : [a, b].Sublist l) : ¬ [b, a].Sublist l := by
  induction l with
  | nil => cases hab
  | cons c l ih =>
    obtain ⟨hc, hn⟩ := nodup_cons.1 hn
    intro hba
    cases hba with
    | cons _ hba =>
      cases hab with
      | cons _ hab => exact ih hn hab hba
      | cons_cons _ hab => exact hc (hba.subset (by simp))
    | cons_cons _ hba =>
      cases hab with
      | cons _ hab | cons_cons _ hab => exact hc (hab.subset (by simp))

namespace Rpc

namespace Lane

variable {l : Lane} {id k : Int64}

/-! ## Moving -/

theorem clamp_eq {p n} (hn : 0 < n) : clamp p n = max 0 (min p (n - 1)) := by
  simp only [clamp]
  split_ifs <;> omega

theorem Consistent.moveIn_places (h : l.Consistent) (hid : id ∈ l.queue) (p : ℤ) :
    ∃ l', l.moveIn id p = .ok l' ∧ (l'.order.idxOf id : ℤ) = max 0 (min p (l.order.length - 1)) ∧
      l'.order.erase id = l.order.erase id ∧ l'.order.Perm l.order ∧ l'.active = l.active := by
  have hmem : id ∈ l.order := (h.mem id).2 hid
  have hlen := length_pos_of_mem hmem
  have hclamp := clamp_eq (p := p) (Int.natCast_pos.2 hlen)
  unfold Lane.moveIn
  rw [if_neg (not_not.2 hmem)]
  split_ifs with hpos
  · exact ⟨l, rfl, by rw [← hpos, hclamp], rfl, .refl _, rfl⟩
  · generalize hn : (clamp p l.order.length).toNat = n
    have hle : n ≤ (l.order.erase id).length := by
      rw [length_erase_of_mem hmem]
      omega
    have hnot : id ∉ (l.order.erase id).take n := fun hi =>
      (h.nodup.mem_erase_iff.1 (mem_of_mem_take hi)).1 rfl
    have hcut : (l.moveTo id n).order =
      (l.order.erase id).take n ++ id :: (l.order.erase id).drop n := rfl
    refine ⟨_, rfl, ?_, ?_, perm_moveTo hmem n, rfl⟩
    · rw [hcut, idxOf_append_of_notMem hnot, idxOf_cons_self, length_take_of_le hle]
      omega
    · rw [hcut, erase_append_right _ hnot, erase_cons_head, take_append_drop]

/-! ## Activation -/

theorem Consistent.order_activateFirst (h : l.Consistent) (n : ℕ) :
    (l.activateFirst n).1.order = l.order.drop n := by
  induction n generalizing l with
  | zero => rfl
  | succ n ih =>
    rw [Lane.activateFirst]
    cases ho : l.order with
    | nil => exact ho
    | cons id order =>
      have hact : (l.activate id).Consistent := h.removeUnsafe
      rw [ih hact, Lane.activate, h.order_removeUnsafe, ho, erase_cons_head]
      rfl

theorem Consistent.active_activateFirst (h : l.Consistent) (n : ℕ) :
    (l.activateFirst n).1.active = l.active ∪ (l.order.take n).toFinset := by
  ext k
  rw [(l.mem_activateFirst k n).2, (h.activateFirst n).2, Finset.mem_union, mem_toFinset]

/-! ## Sorting again -/

/-- What `less` compares: higher priorities first, then earlier times. -/
def key (queue : Finmap fun _ : Int64 => QueueItem) (id : Int64) : ℤ ×ₗ ℤ :=
  let item := (queue.lookup id).getD default
  toLex (-item.Priority, item.AddedTime)

theorem less_iff (queue : Finmap fun _ : Int64 => QueueItem) (a b : Int64) :
    less queue a b ↔ key queue a < key queue b := by
  simp only [less, key, Prod.Lex.toLex_lt_toLex]
  split_ifs with h
  · simp only [decide_eq_true_eq]
    omega
  · simp only [decide_eq_true_eq]
    omega

theorem not_less_iff (queue : Finmap fun _ : Int64 => QueueItem) (a b : Int64) :
    ¬ less queue b a ↔ key queue a ≤ key queue b := by
  rw [less_iff, not_lt]

theorem sorted_slice (S : SortSlice) (queue : Finmap fun _ : Int64 => QueueItem)
    (order : List Int64) :
    (S.slice (less queue) order).Pairwise fun a b => ¬ less queue b a := by
  refine S.sorted (fun a b hab => ?_) (fun a b c hab hbc => ?_) order
  · rw [less_iff] at hab
    rw [not_less_iff]
    exact hab.le
  · rw [not_less_iff] at hab hbc ⊢
    exact hab.trans hbc

/-- `l'` is `l` with `id` inserted behind every torrent of at least its priority. -/
def Inserts (l l' : Lane) (id : Int64) (priority : ℤ) : Prop :=
  ∃ before after, l.order = before ++ after ∧ l'.order = before ++ id :: after ∧
    ∀ k ∈ after, ∀ item, l.queue.lookup k = some item → item.Priority < priority

/-- The order is the strict one by priority and time, also with a torrent of this
    priority added `now`. -/
def Settled (l : Lane) (now priority : ℤ) : Prop := (l.order.Pairwise fun a b => less l.queue a b) ∧
    ∀ k item, l.queue.lookup k = some item → item.Priority = priority → item.AddedTime < now

theorem order_add {S : SortSlice} {item l'} (h : l.add S item = some l') : l'.order =
      S.slice (less (l.queue.insert item.TorrentID item)) (l.order ++ [item.TorrentID]) := by
  rw [add, Option.map_eq_some_iff] at h
  obtain ⟨l1, hsort, rfl⟩ := h
  unfold sort at hsort
  split_ifs at hsort
  cases hsort
  rfl

section
variable {S : SortSlice} {item : QueueItem} {l' : Lane}

theorem key_insert_of_mem (h : l.Consistent) (hid : item.TorrentID ∉ l.queue) (hk : k ∈ l.order) :
    key (l.queue.insert item.TorrentID item) k = key l.queue k := by
  have hne : k ≠ item.TorrentID := fun he => hid (he ▸ (h.mem k).1 hk)
  rw [key, key, lookup_insert_of_ne _ hne]

theorem key_insert_self : key (l.queue.insert item.TorrentID item) item.TorrentID =
      toLex (-item.Priority, item.AddedTime) := by
  rw [key, lookup_insert]
  rfl

theorem nodup_append (h : l.Consistent) (hid : id ∉ l.queue) : (l.order ++ [id]).Nodup := by
  rw [← concat_eq_append, nodup_concat]
  exact ⟨mt (h.mem id).1 hid, h.nodup⟩

/-- A torrent of at least the new priority comes strictly before the new one. -/
theorem Settled.key_lt (hs : l.Settled item.AddedTime item.Priority) {i}
    (hk : l.queue.lookup k = some i) (hp : item.Priority ≤ i.Priority) :
    key l.queue k < toLex (-item.Priority, item.AddedTime) := by
  rw [key, hk, Prod.Lex.toLex_lt_toLex]
  rcases hp.lt_or_eq with hlt | heq
  · exact .inl (neg_lt_neg hlt)
  · exact .inr ⟨congrArg Neg.neg heq.symm, hs.2 k i hk heq.symm⟩

theorem Settled.inserts (h : l.Consistent) (hid : item.TorrentID ∉ l.queue)
    (hs : l.Settled item.AddedTime item.Priority) (hadd : l.add S item = some l') :
    l.Inserts l' item.TorrentID item.Priority := by
  set q := l.queue.insert item.TorrentID item with hq
  set T := l.order.orderedInsert (fun a b => key q a ≤ key q b) item.TorrentID with hT
  have hlt : l.order.Pairwise fun a b => key q a < key q b := by
    refine hs.1.imp_of_mem fun {a b} ha hb hab => ?_
    rw [hq, key_insert_of_mem h hid ha, key_insert_of_mem h hid hb]
    exact (less_iff _ _ _).1 hab
  have hsorted : T.Pairwise fun a b => key q a ≤ key q b :=
    Pairwise.orderedInsert _ _ (hlt.imp le_of_lt)
  have hinj : ((l.order ++ [item.TorrentID]).map (key q)).Nodup := by
    rw [map_append, map_singleton, ← concat_eq_append, nodup_concat]
    refine ⟨fun hmem => ?_, pairwise_map.2 (hlt.imp ne_of_lt)⟩
    obtain ⟨k, hk, heq⟩ := mem_map.1 hmem
    obtain ⟨i, hi⟩ := mem_iff.1 ((h.mem k).1 hk)
    rw [hq, key_insert_of_mem h hid hk, key_insert_self] at heq
    have hp : i.Priority = item.Priority := by
      rw [key, hi] at heq
      exact neg_inj.1 (congrArg (fun x => (ofLex x).1) heq)
    exact (hs.key_lt hi hp.ge).ne heq
  have hperm : (S.slice (less q) (l.order ++ [item.TorrentID])).Perm T :=
    (S.perm _ _).trans ((perm_append_comm).trans (perm_orderedInsert _ _ _).symm)
  have horder : l'.order = T := by
    rw [order_add hadd]
    refine hperm.eq_of_pairwise (fun a b ha hb hab hba => ?_)
      ((sorted_slice S q _).imp (not_less_iff q _ _).1) hsorted
    exact inj_on_of_nodup_map hinj ((S.perm _ _).mem_iff.1 ha)
      ((S.perm _ _).mem_iff.1 (hperm.mem_iff.2 hb)) (le_antisymm hab hba)
  refine ⟨_, _, takeWhile_append_dropWhile.symm, horder.trans
    (orderedInsert_eq_take_drop _ _ _), fun k hk i hi => ?_⟩
  by_contra hp
  have hmem : k ∈ l.order := (dropWhile_sublist _).subset hk
  have hle : key q item.TorrentID ≤ key q k := by
    rw [hT, orderedInsert_eq_take_drop, pairwise_append] at hsorted
    exact (pairwise_cons.1 hsorted.2.1).1 k hk
  rw [hq, key_insert_self, key_insert_of_mem h hid hmem] at hle
  exact (hs.key_lt hi (not_lt.1 hp)).not_ge hle

theorem settled_of_inserts (h : l.Consistent) (hid : item.TorrentID ∉ l.queue)
    (hadd : l.add .reversing item = some l') (hins : l.Inserts l' item.TorrentID item.Priority) :
    l.Settled item.AddedTime item.Priority := by
  obtain ⟨before, after, ho, ho', hafter⟩ := hins
  have hnodup : l'.order.Nodup := by
    rw [order_add hadd]
    exact (SortSlice.perm _ _ _).nodup_iff.2 (nodup_append h hid)
  -- a pair that neither `AddToQueue` nor the reversal of ties has turned is no tie
  have hpair : ∀ {a b}, [a, b].Sublist (l.order ++ [item.TorrentID]) → [a, b].Sublist l'.order →
      key (l.queue.insert item.TorrentID item) a < key (l.queue.insert item.TorrentID item) b := by
    intro a b hab hab'
    by_contra hn
    rw [← less_iff] at hn
    refine not_pair_of_nodup hnodup hab' ?_
    rw [order_add hadd]
    exact SortSlice.reversing_pair hab hn
  constructor
  · refine pairwise_iff_forall_sublist.2 fun {a b} hab => ?_
    have hlt := hpair (hab.trans (sublist_append_left _ _)) (hab.trans ?_)
    · rw [key_insert_of_mem h hid (hab.subset (by simp)),
        key_insert_of_mem h hid (hab.subset (by simp))] at hlt
      exact (less_iff _ _ _).2 hlt
    · rw [ho, ho']
      exact Sublist.append_left (sublist_cons_self _ _) _
  · intro k i hi hp
    have hmem : k ∈ l.order := (h.mem k).2 (mem_iff.2 ⟨i, hi⟩)
    have hbefore : k ∈ before := by
      rw [ho, mem_append] at hmem
      exact hmem.resolve_right fun hk => (hafter k hk i hi).ne hp
    have hlt := hpair (a := k) (b := item.TorrentID) ?_ ?_
    · rw [key_insert_of_mem h hid hmem, key_insert_self, key, hi, Prod.Lex.toLex_lt_toLex] at hlt
      rcases hlt with hlt | hlt
      · exact absurd (congrArg Neg.neg hp) hlt.ne
      · exact hlt.2
    · exact (singleton_sublist.2 hmem).append (.refl [item.TorrentID])
    · rw [ho']
      exact (singleton_sublist.2 hbefore).append
        ((nil_sublist after).cons_cons item.TorrentID)

end

end Lane

namespace QueueManager

variable {qm qm' : QueueManager} {t : QueueType} {id : Int64}

/-! ## `processQueues` -/

theorem processIf_lane (qm : QueueManager) (t t' : QueueType) :
    (qm.processIf t).1.config = qm.config ∧ (t' ≠ t → (qm.processIf t).1.lane t' = qm.lane t') := by
  rcases qm.processIf_cases t with h | h
  · rw [h]
    exact ⟨rfl, fun _ => rfl⟩
  · rw [h]
    exact ⟨rfl, fun ht => Function.update_of_ne ht _ _⟩

theorem processIf_of_limit (hen : qm.config.Enabled t) (hM : 0 < qm.config.MaxActive t) :
    qm.processIf t = qm.processQueue t := by
  unfold processIf
  rw [if_pos ⟨hen, hM⟩]
  cases t <;> rfl

theorem processIf_of_no_limit (hM : qm.config.MaxActive t ≤ 0) : qm.processIf t = (qm, []) :=
  if_neg fun h => h.2.not_ge hM

/-- Each queue is processed as if it were alone: the lane and the activations that
    `processQueues` gives it are those of `processIf` on some manager with its lane. -/
theorem processQueues_lane (qm : QueueManager) (t : QueueType) :
    ∃ qm0 : QueueManager, qm0.lane t = qm.lane t ∧ qm0.config = qm.config ∧
      qm.processQueues.1.lane t = (qm0.processIf t).1.lane t ∧
      (qm.processQueues.2.filter fun a => a.2 = t) = (qm0.processIf t).2 := by
  have hown : ∀ (qm : QueueManager) t, ((qm.processIf t).2.filter fun a => a.2 = t) =
      (qm.processIf t).2 := fun qm t =>
    filter_eq_self.2 fun a ha => decide_eq_true (type_of_mem_processIf ha)
  have hother : ∀ (qm : QueueManager) {t t' : QueueType}, t' ≠ t →
      ((qm.processIf t').2.filter fun a => a.2 = t) = [] := fun qm t t' ht =>
    filter_eq_nil_iff.2 fun a ha => by rw [type_of_mem_processIf ha]; simpa using ht
  cases t with
  | DownloadQueue =>
    refine ⟨qm, rfl, rfl, (processIf_lane _ _ _).2 QueueType.noConfusion, ?_⟩
    rw [processQueues, filter_append, hown, hother _ QueueType.noConfusion, append_nil]
  | SeedQueue =>
    obtain ⟨hconfig, hlane⟩ := processIf_lane qm .DownloadQueue .SeedQueue
    refine ⟨_, hlane QueueType.noConfusion, hconfig, rfl, ?_⟩
    rw [processQueues, filter_append, hown, hother _ QueueType.noConfusion, nil_append]

/-- **With a positive limit the free slots go to the front of the queue**: the first
    torrents of the order become active, one activation each and in order; the rest
    keeps its order, with its positions counted from 0; and the limit is kept. -/
theorem processQueues_activates (h : (qm.lane t).Consistent) (hen : qm.config.Enabled t)
    (hM : 0 < qm.config.MaxActive t) {n : ℕ}
    (hn : (n : ℤ) = min (max (qm.config.MaxActive t - (qm.lane t).active.card) 0)
      (qm.lane t).order.length) :
    (qm.processQueues.2.filter fun a => a.2 = t) = ((qm.lane t).order.take n).map (·, t) ∧
      (qm.processQueues.1.lane t).order = (qm.lane t).order.drop n ∧
      (qm.processQueues.1.lane t).Consistent ∧
      (qm.processQueues.1.lane t).active =
        (qm.lane t).active ∪ ((qm.lane t).order.take n).toFinset ∧
      ((qm.processQueues.1.lane t).active.card : ℤ) ≤
        max (qm.config.MaxActive t) (qm.lane t).active.card := by
  obtain ⟨qm₀, hlane, hconfig, hl', hfired⟩ := qm.processQueues_lane t
  rw [processIf_of_limit (hconfig ▸ hen) (hconfig ▸ hM)] at hl' hfired
  set l := qm.lane t with hl
  have hroom : (qm₀.room t : ℤ) = max (qm.config.MaxActive t - l.active.card) 0 := by
    rw [room, hlane, hconfig, Int.toNat_eq_max]
  -- the loop ends at the end of the queue, so it does not matter how much room is left
  have htake : l.order.take (qm₀.room t) = l.order.take n := by
    rcases le_total (qm₀.room t) l.order.length with hle | hle
    · rw [show qm₀.room t = n by omega]
    · rw [take_of_length_le hle, take_of_length_le (by omega)]
  have hdrop : l.order.drop (qm₀.room t) = l.order.drop n := by
    rcases le_total (qm₀.room t) l.order.length with hle | hle
    · rw [show qm₀.room t = n by omega]
    · rw [drop_of_length_le hle, drop_of_length_le (by omega)]
  have hl'' : qm.processQueues.1.lane t = { (l.activateFirst (qm₀.room t)).1 with
      activeCount := l.active.card + (l.activateFirst (qm₀.room t)).2.length } := by
    rw [hl', processQueue, hlane]
    exact Function.update_self ..
  have hactive : (qm.processQueues.1.lane t).active = l.active ∪ (l.order.take n).toFinset := by
    rw [hl'', ← htake]
    exact h.active_activateFirst _
  refine ⟨?_, ?_, ?_, hactive, ?_⟩
  · rw [hfired, processQueue, hlane, (h.activateFirst _).2, htake]
  · rw [hl'', ← hdrop]
    exact h.order_activateFirst _
  · rw [hl'']
    exact (h.activateFirst _).1
  · have hcard := (Finset.card_union_le l.active (l.order.take n).toFinset).trans
      (Nat.add_le_add_left (toFinset_card_le _) _)
    rw [← hactive, length_take] at hcard
    omega

/-- Two downloads wait, and no torrent is active. -/
def waiting (maxActive : ℤ) : QueueManager where
  lane
    | .DownloadQueue => Lane.refresh
        ⟨(insert 1 ⟨1, 0, 0, 0⟩ ∅).insert 2 ⟨2, 0, 1, 0⟩, [1, 2], ∅, 2, 0⟩
    | .SeedQueue => ⟨∅, [], ∅, 0, 0⟩
  config := ⟨fun _ => maxActive, fun _ => true⟩
  totalQueued := 2
  totalActivated := 0

theorem waiting_consistent (maxActive : ℤ) : (waiting maxActive).Consistent := by
  intro t
  cases t with
  | DownloadQueue =>
    refine Lane.consistent_refresh (by decide) fun k => ?_
    simp [mem_insert, notMem_empty, or_comm]
  | SeedQueue => exact consistent_new ⟨fun _ => 0, fun _ => true⟩ .SeedQueue

theorem processQueues_activates_waiting :
    ((waiting 1).processQueues.2.filter fun a => a.2 = .DownloadQueue) = [(1, .DownloadQueue)] ∧
      ((waiting 1).processQueues.1.lane .DownloadQueue).order = [2] := by
  have h := processQueues_activates (t := .DownloadQueue) (n := 1) (waiting_consistent 1 _) rfl
    Int.one_pos rfl
  exact ⟨h.1, h.2.1⟩

/-- **The limit 0 activates nothing**, although it is documented as "unlimited": every
    waiting torrent is activated only if none is waiting. -/
theorem processQueues_unlimited_iff (hM : qm.config.MaxActive t = 0) :
    ((∀ k ∈ (qm.lane t).queue, (k, t) ∈ qm.processQueues.2 ∧
          k ∈ (qm.processQueues.1.lane t).active) ∧
        (qm.processQueues.1.lane t).queue = ∅ ∧ (qm.processQueues.1.lane t).order = []) ↔
      (qm.lane t).queue = ∅ ∧ (qm.lane t).order = [] := by
  obtain ⟨qm₀, hlane, hconfig, hl', -⟩ := qm.processQueues_lane t
  rw [processIf_of_no_limit (by rw [hconfig, hM]), hlane] at hl'
  rw [hl']
  constructor
  · exact And.right
  · rintro ⟨hq, ho⟩
    refine ⟨fun k hk => ?_, hq, ho⟩
    rw [hq] at hk
    exact absurd hk Finmap.notMem_empty

theorem processQueues_unlimited_empty :
    ((NewQueueManager ⟨fun _ => 0, fun _ => true⟩).processQueues.1.lane .SeedQueue).order = [] :=
  (processQueues_unlimited_iff (t := .SeedQueue) rfl).2 ⟨rfl, rfl⟩ |>.2.2

theorem waiting_unlimited :
    (waiting 0).config.Enabled .DownloadQueue ∧ (waiting 0).config.MaxActive .DownloadQueue = 0 ∧
      (waiting 0).processQueues.2 = [] ∧
      ((waiting 0).processQueues.1.lane .DownloadQueue).order = [1, 2] :=
  ⟨rfl, rfl, rfl, rfl⟩

/-! ## `SetQueuePosition` -/

/-- No torrent waits in both queues. -/
def Parted (qm : QueueManager) : Prop :=
  ∀ k t, qm.Has (.queued t) k → ¬ qm.Has (.queued t.other) k

theorem Parted.of_has (h : qm.Parted)
    (hm : ∀ k t, qm'.Has (.queued t) k → qm.Has (.queued t) k) : qm'.Parted :=
  fun k t hk hk' => h k t (hm k t hk) (hm k _ hk')

theorem Parted.step {S op fired} (h : qm.Parted) (he : qm.step S op = some (qm', fired)) :
    qm'.Parted := by
  cases op with
  | add now id t priority =>
    by_cases hen : qm.config.Enabled t
    · rw [QueueManager.step, Option.map_eq_some_iff] at he
      obtain ⟨qm₁, hadd, he⟩ := he
      cases he
      intro k t'
      rw [has_AddToQueue hen hadd, has_AddToQueue hen hadd]
      have hk := h k t'
      cases t <;> cases t' <;> simp only [QueueType.other, Place.queued.injEq] at hk ⊢ <;> tauto
    · rw [QueueManager.step, AddToQueue_disabled S now priority hen] at he
      cases he
      exact h
  | remove id =>
    cases he
    exact h.of_has fun k t hk => (has_RemoveFromQueue.1 hk).1
  | setPosition id position =>
    obtain ⟨qm₁, he₁, hpos⟩ := step_setPosition S qm id position
    rw [he₁] at he
    cases he
    rcases hpos with rfl | hpos
    · exact h
    · exact h.of_has fun k t hk => (has_SetQueuePosition hpos).1 hk
  | forceActivate id t =>
    cases he
    refine h.of_has fun k t' hk => ?_
    rcases has_ForceActivate.1 hk with ⟨-, hp⟩ | hk
    · cases hp
    · exact hk.1
  | process =>
    cases he
    refine h.of_has fun k t hk => ?_
    rcases has_processQueues.1 hk with ⟨t', -, hp⟩ | hk
    · cases hp
    · exact hk.1

/-- Every state of a run that queues no torrent twice meets the conditions below. -/
theorem consistent_parted_of_run {S config ops}
    (h : Allowed (QueueManager.step S) Fresh (NewQueueManager config) ops)
    (hrun : runSteps (QueueManager.step S) (NewQueueManager config) ops = some qm) :
    qm.Consistent ∧ qm.Parted := by
  have hnew : (NewQueueManager config).Parted := fun k t hk => absurd hk Finmap.notMem_empty
  refine invariant_of_allowed (P := fun qm => qm.Consistent ∧ qm.Parted) ?_
    ⟨consistent_new config, hnew⟩ h hrun
  intro qm op qm' fired hqm hfresh he
  obtain ⟨qm₁, fired₁, he₁, -, hcons⟩ := hqm.1.step (S := S) hfresh
  rw [he] at he₁
  cases he₁
  exact ⟨hcons, hqm.2.step he⟩

/-- **A torrent moves to the clamped position** and nothing else changes its place. -/
theorem SetQueuePosition_places (h : qm.Consistent) (hid : id ∈ (qm.lane t).queue)
    (hfirst : t = .SeedQueue → id ∉ (qm.lane .DownloadQueue).queue) (position : ℤ) :
    ∃ qm', qm.SetQueuePosition id position = .ok qm' ∧
      ((qm'.lane t).queue.lookup id).map QueueItem.QueuePosition =
        some (max 0 (min position ((qm.lane t).order.length - 1))) ∧
      (qm'.lane t).order.erase id = (qm.lane t).order.erase id ∧
      (qm'.lane t).order.Perm (qm.lane t).order ∧ (qm'.lane t).Consistent ∧
      (qm'.lane t).active = (qm.lane t).active ∧ qm'.lane t.other = qm.lane t.other := by
  obtain ⟨l, hl, hidx, herase, hperm, hactive⟩ := (h t).moveIn_places hid position
  have hset : qm.SetQueuePosition id position = .ok (qm.setLane t l) := by
    unfold SetQueuePosition
    cases t with
    | DownloadQueue =>
      rw [if_pos hid, moveInDownloadQueue, moveIn, hl]
      rfl
    | SeedQueue =>
      rw [if_neg (hfirst rfl), if_pos hid, moveInSeedQueue, moveIn, hl]
      rfl
  have hlane : (qm.setLane t l).lane t = l := Function.update_self ..
  have hcons := (h t).moveIn hl
  obtain ⟨item, hitem⟩ := Finmap.mem_iff.1
    ((hcons.mem id).1 (hperm.mem_iff.2 (((h t).mem id).2 hid)))
  refine ⟨_, hset, ?_, ?_, ?_, ?_, ?_, Function.update_of_ne t.ne_other.symm _ _⟩
  · rw [hlane, hitem, ← hidx, Option.map_some, hcons.pos hitem]
  · rw [hlane, herase]
  · rwa [hlane]
  · rwa [hlane]
  · rwa [hlane]

theorem SetQueuePosition_places_waiting : ∃ qm', (waiting 0).SetQueuePosition 1 7 = .ok qm' ∧
      ((qm'.lane .DownloadQueue).queue.lookup 1).map QueueItem.QueuePosition = some 1 := by
  obtain ⟨qm', h, hpos, -⟩ := SetQueuePosition_places (t := .DownloadQueue)
    (waiting_consistent 0) (((waiting_consistent 0 _).mem 1).1 (by decide))
    QueueType.noConfusion 7
  exact ⟨qm', h, hpos⟩

/-! ## `AddToQueue` -/

/-- **`AddToQueue` keeps an order exactly if sorting keeps it.**  It sorts the whole
    order, and `sort.Slice` is free in the order of ties, so for every such sort the
    torrents keep their order, with the new one behind those of at least its
    priority, if the order was the strict one by priority and time. That is necessary
    in consistent states, and that the queue is enabled in all. -/
theorem AddToQueue_inserts_iff (hid : id ∉ (qm.lane t).queue) (now priority : ℤ) :
    (qm.Consistent ∧ qm.config.Enabled t ∧ (qm.lane t).Settled now priority →
      ∀ S, ∃ qm', qm.AddToQueue S now id t priority = some qm' ∧
        (qm.lane t).Inserts (qm'.lane t) id priority) ∧
    ((∀ S, ∃ qm', qm.AddToQueue S now id t priority = some qm' ∧
        (qm.lane t).Inserts (qm'.lane t) id priority) →
      qm.config.Enabled t ∧ (qm.Consistent → (qm.lane t).Settled now priority)) := by
  constructor
  · rintro ⟨h, hen, hs⟩ S
    obtain ⟨qm', hadd, -⟩ := h.AddToQueue S now id t priority hen
    obtain ⟨l, hl, hlane, -⟩ := AddToQueue_eq_some hen hadd
    refine ⟨qm', hadd, ?_⟩
    rw [hlane, Function.update_self]
    exact hs.inserts (h t) hid hl
  · intro hins
    obtain ⟨qm', hadd, hins⟩ := hins .reversing
    have hen : qm.config.Enabled t := by
      by_contra hdis
      rw [AddToQueue_disabled .reversing now priority hdis] at hadd
      cases hadd
      obtain ⟨before, after, ho, ho', -⟩ := hins
      have hlen := congrArg length (ho.symm.trans ho')
      simp at hlen
    obtain ⟨l, hl, hlane, -⟩ := AddToQueue_eq_some hen hadd
    rw [hlane, Function.update_self] at hins
    exact ⟨hen, fun h => Lane.settled_of_inserts (h t) hid hl hins⟩

theorem AddToQueue_inserts_third :
    ∃ qm', (waiting 1).AddToQueue .insertion 2 3 .DownloadQueue 0 = some qm' ∧
      ((waiting 1).lane .DownloadQueue).Inserts (qm'.lane .DownloadQueue) 3 0 := by
  have hmem : ∀ k, k ∈ ((waiting 1).lane .DownloadQueue).queue → k = 1 ∨ k = 2 := fun k hk => by
    have horder : k ∈ [1, 2] := ((waiting_consistent 1 _).mem k).2 hk
    simpa using horder
  refine (AddToQueue_inserts_iff (fun h => absurd (hmem 3 h) (by decide)) 2 0).1
    ⟨waiting_consistent 1, rfl, by decide +kernel, fun k item hk _ => ?_⟩ .insertion
  rcases hmem k (Finmap.mem_iff.2 ⟨item, hk⟩) with rfl | rfl <;> cases hk <;> decide

/-- The manual position of torrent 2 is lost when torrent 3 is added. -/
theorem manual_position_lost : (runSteps (QueueManager.step .insertion) (NewQueueManager twoEach)
        [.add 0 1 .DownloadQueue 0, .add 1 2 .DownloadQueue 0, .setPosition 2 0]).map
          (fun qm => (qm.lane .DownloadQueue).order) = some [2, 1] ∧
      (runSteps (QueueManager.step .insertion) (NewQueueManager twoEach)
        [.add 0 1 .DownloadQueue 0, .add 1 2 .DownloadQueue 0, .setPosition 2 0,
          .add 2 3 .DownloadQueue 0]).map
          (fun qm => (qm.lane .DownloadQueue).order) = some [1, 2, 3] := by
  decide +kernel

end QueueManager
end Rpc
end GoI2pBt
