/-
  Torrents keep their ID and info hash, and each has its own.
-/
import GoI2pBt.Rpc.TorrentManager

namespace GoI2pBt.Rpc.TorrentManager

open List Metainfo Finmap TorrentManager

variable {P : Platform} {tm tm' tm'' : TorrentManager} {id : Int64} {t t' : TorrentState}

/-! ## Which torrents there are -/

def ident (t : TorrentState) : Int64 × Hash := (t.ID, t.InfoHash)

structure Keeps (tm tm' : TorrentManager) : Prop where
  nextID : tm'.nextID = tm.nextID
  limit : tm'.MaxTorrents = tm.MaxTorrents
  ident : ∀ id, (tm'.torrents.lookup id).map ident = (tm.torrents.lookup id).map ident

theorem Keeps.refl (tm : TorrentManager) : Keeps tm tm := ⟨rfl, rfl, fun _ => rfl⟩

theorem Keeps.trans (h : Keeps tm tm') (h' : Keeps tm' tm'') : Keeps tm tm'' where
  nextID := h'.nextID.trans h.nextID
  limit := h'.limit.trans h.limit
  ident id := (h'.ident id).trans (h.ident id)

theorem lookup_erase_some {k} (h : (tm.torrents.erase id).lookup k = some t) :
    tm.torrents.lookup k = some t := by
  by_cases hk : k = id
  · subst hk
    rw [lookup_erase] at h
    cases h
  · rwa [lookup_erase_ne hk] at h

theorem lookup_insert_some {k} (h : (tm.torrents.insert id t).lookup k = some t') :
    k = id ∧ t' = t ∨ k ≠ id ∧ tm.torrents.lookup k = some t' := by
  by_cases hk : k = id
  · subst hk
    rw [lookup_insert] at h
    exact .inl ⟨rfl, (Option.some.inj h).symm⟩
  · rw [lookup_insert_of_ne _ hk] at h
    exact .inr ⟨hk, h⟩

/-! ## What a step touches -/

def Concerns (T : Int64 → Prop) : Goroutine → Prop
  | .activated _ _ => True
  | .start r | .assign r _ | .verify r | .verified r _ | .complete r _ => T r.ID

def Works (tm : TorrentManager) (id : Int64) : Goroutine → Prop
  | .activated k ty => k = id ∧ ∃ t, tm.torrents.lookup id = some t ∧ t.Status = ty.queuedStatus
  | .start r | .assign r _ | .verify r | .verified r _ | .complete r _ => r.ID = id

/-- The steps that may write the status of torrent `id` or start a goroutine that does. -/
def Touches (tm : TorrentManager) (op : TmOp) (id : Int64) : Prop :=
  match op with
  | .AddTorrent _ _ => id = tm.nextID
  | .StartTorrent _ k | .StartTorrentNow k =>
    id = k ∧ ∃ t, tm.torrents.lookup id = some t ∧ ¬ started t
  | .StopTorrent k | .VerifyTorrent k => id = k
  | .run i _ => ∃ g, tm.goroutines[i]? = some g ∧ Works tm id g
  | .handleDownloaderResponse _ response =>
    ∃ t, tm.torrents.lookup id = some t ∧ t.InfoHash = response.InfoHash
  | _ => False

structure Frame (T : Int64 → Prop) (tm tm' : TorrentManager) : Prop where
  status : ∀ {id t'}, ¬ T id → tm'.torrents.lookup id = some t' →
    ∃ t, tm.torrents.lookup id = some t ∧ t'.Status = t.Status
  spawned : ∀ g ∈ tm'.goroutines, g ∈ tm.goroutines ∨ Concerns T g

structure Moves (T : Int64 → Prop) (tm tm' : TorrentManager) : Prop
  extends Keeps tm tm', Frame T tm tm'

variable {T : Int64 → Prop}

theorem Moves.refl (tm : TorrentManager) : Moves T tm tm :=
  ⟨Keeps.refl tm, fun _ ht => ⟨_, ht, rfl⟩, fun _ => .inl⟩

theorem Moves.trans (h : Moves T tm tm') (h' : Moves T tm' tm'') : Moves T tm tm'' where
  toKeeps := h.toKeeps.trans h'.toKeeps
  status hid ht := by
    obtain ⟨t', ht', he'⟩ := h'.status hid ht
    obtain ⟨t, ht, he⟩ := h.status hid ht'
    exact ⟨t, ht, he'.trans he⟩
  spawned g hg := (h'.spawned g hg).elim (h.spawned g) .inr

theorem Moves.congr (h : Moves T tm tm') (hmap : tm''.torrents = tm'.torrents)
    (hgs : tm''.goroutines = tm'.goroutines) (hnext : tm''.nextID = tm'.nextID)
    (hmax : tm''.MaxTorrents = tm'.MaxTorrents) : Moves T tm tm'' where
  nextID := hnext.trans h.nextID
  limit := hmax.trans h.limit
  ident := hmap ▸ h.ident
  status := hmap ▸ h.status
  spawned := hgs ▸ h.spawned

theorem Moves.spawn (h : Moves T tm tm') {gs} (hgs : ∀ g ∈ gs, Concerns T g) :
    Moves T tm (tm'.spawn gs) where
  toKeeps := ⟨h.nextID, h.limit, h.ident⟩
  status := h.status
  spawned g hg := (mem_append.1 hg).elim (h.spawned g) fun hg => .inr (hgs g hg)

theorem Moves.spawn_one (h : Moves T tm tm') {g} (hg : Concerns T g) : Moves T tm (tm'.spawn [g]) :=
  h.spawn fun _ hg' => mem_singleton.1 hg' ▸ hg

theorem Moves.setQueues (h : Moves T tm tm') (r : QueueManager × List Activation) :
    Moves T tm (tm'.setQueues r) := by
  have hq : Moves T tm { tm' with queueManager := r.1 } := h.congr rfl rfl rfl rfl
  refine hq.spawn fun g hg => ?_
  obtain ⟨a, -, rfl⟩ := mem_map.1 hg
  trivial

theorem moves_put (h : tm.torrents.lookup id = some t) (ht : ident t' = ident t)
    (hs : t'.Status = t.Status ∨ T id) : Moves T tm (tm.put id t') where
  nextID := rfl
  limit := rfl
  ident k := by
    by_cases hk : k = id
    · subst hk
      rw [put, lookup_insert, h, Option.map_some, Option.map_some, ht]
    · rw [put, lookup_insert_of_ne _ hk]
  status {k s} hT hl := by
    rcases lookup_insert_some hl with ⟨rfl, rfl⟩ | ⟨-, hl⟩
    · exact ⟨t, h, hs.resolve_right hT⟩
    · exact ⟨s, hl, rfl⟩
  spawned _ := .inl

theorem moves_modify (r : TorrentRef) {f}
    (hf : ∀ t, ident (f t) = ident t) (hs : (∀ t, (f t).Status = t.Status) ∨ T r.ID) :
    Moves T tm (tm.modify r f) := by
  unfold modify
  cases h : tm.deref r with
  | none => exact Moves.refl tm
  | some t => exact moves_put (Option.filter_eq_some_iff.1 h).1 (hf t) (hs.imp_left fun hs => hs t)

theorem ident_updateCompletionStatistics (t : TorrentState) :
    ident (updateCompletionStatistics P t) = ident t ∧
      (updateCompletionStatistics P t).Status = t.Status := by
  unfold updateCompletionStatistics
  split
  · exact ⟨rfl, rfl⟩
  · split
    · exact ⟨rfl, rfl⟩
    · unfold calculateBasicCompletionStats
      dsimp only
      split_ifs <;> exact ⟨rfl, rfl⟩

theorem moves_updateStats (order : List Int64) : Moves T tm (tm.updateStats P order) := by
  unfold updateStats
  induction order generalizing tm with
  | nil => exact Moves.refl tm
  | cons id order ih =>
    rw [foldl_cons]
    refine Moves.trans ?_ ih
    cases h : tm.torrents.lookup id with
    | none => exact Moves.refl tm
    | some t =>
      obtain ⟨hident, hstatus⟩ := ident_updateCompletionStatistics (P := P) t
      exact moves_put h hident (.inl hstatus)

theorem moves_continueUpdate {order blocklistError u} :
    Moves T tm (tm.continueUpdate order blocklistError u).1 := by
  have hrefl : Moves T tm tm := Moves.refl tm
  unfold continueUpdate
  dsimp only
  split
  · split_ifs <;> exact hrefl.congr rfl rfl rfl rfl
  · exact hrefl.congr rfl rfl rfl rfl
  · exact (hrefl.setQueues _).congr rfl rfl rfl rfl
  · split
    · split_ifs <;> exact hrefl.congr rfl rfl rfl rfl
    · exact hrefl.congr rfl rfl rfl rfl

section Own

variable (hown : ∀ {id t}, tm.torrents.lookup id = some t → t.ID = id)

theorem moves_StartTorrent {now r}
    (h : tm.StartTorrent P now id = some r) : Moves (tm.Touches (.StartTorrent now id)) tm r.1 := by
  unfold StartTorrent at h
  cases hl : tm.torrents.lookup id with
  | none =>
    rw [hl] at h
    cases h
    exact Moves.refl tm
  | some t =>
    rw [hl] at h
    dsimp only at h
    split_ifs at h with ht
    · cases h
      exact Moves.refl tm
    · obtain ⟨qm, -, rfl⟩ := Option.map_eq_some_iff.1 h
      refine Moves.congr (moves_put hl ?_ (.inr ⟨rfl, t, hl, ht⟩)) rfl rfl rfl rfl
      rfl

theorem moves_StopTorrent : Moves (tm.Touches (.StopTorrent id)) tm (tm.StopTorrent id).1 := by
  unfold StopTorrent
  cases hl : tm.torrents.lookup id with
  | none => exact Moves.refl tm
  | some t =>
    have hput : Moves (tm.Touches (.StopTorrent id)) tm (tm.put id { t with Status := .Stopped }) :=
      moves_put hl rfl (.inr rfl)
    exact hput.congr rfl rfl rfl rfl

include hown

theorem moves_StartTorrentNow :
    Moves (tm.Touches (.StartTorrentNow id)) tm (tm.StartTorrentNow id).1 := by
  unfold StartTorrentNow
  cases hl : tm.torrents.lookup id with
  | none => exact Moves.refl tm
  | some t =>
    dsimp only
    obtain rfl := hown hl
    split_ifs with ht
    · exact Moves.refl tm
    · have hT : tm.Touches (.StartTorrentNow t.ID) t.ID := ⟨rfl, t, hl, ht⟩
      refine ((moves_put hl ?_ (.inr hT)).setQueues _).spawn_one hT
      rfl

theorem moves_VerifyTorrent :
    Moves (tm.Touches (.VerifyTorrent id)) tm (tm.VerifyTorrent id).1 := by
  unfold VerifyTorrent
  cases hl : tm.torrents.lookup id with
  | none => exact Moves.refl tm
  | some t =>
    dsimp only
    obtain rfl := hown hl
    split_ifs
    · exact Moves.refl tm
    · have hT : tm.Touches (.VerifyTorrent t.ID) t.ID := rfl
      refine (moves_put hl ?_ (.inr hT)).spawn_one hT
      rfl

theorem moves_onTorrentActivated {ty : QueueType} (hT : ∀ k, Works tm k (.activated id ty) → T k) :
    Moves T tm (tm.onTorrentActivated id ty) := by
  unfold onTorrentActivated
  cases hl : tm.torrents.lookup id with
  | none => exact Moves.refl tm
  | some t =>
    dsimp only
    obtain rfl := hown hl
    split_ifs with ht
    · have hk : T t.ID := hT t.ID ⟨rfl, t, hl, ht⟩
      refine (moves_put hl ?_ (.inr hk)).spawn_one ?_
      · rfl
      · cases ty <;> exact hk
    · exact Moves.refl tm

theorem moves_runGoroutine (verifyPiece : ℕ → Option Bool) (g : Goroutine)
    (hT : ∀ k, Works tm k g → T k) : Moves T tm (tm.runGoroutine P verifyPiece g) := by
  cases g with
  | activated id ty => exact moves_onTorrentActivated hown hT
  | start r =>
    rw [runGoroutine, startTorrent]
    split
    · exact Moves.refl tm
    · exact (Moves.refl tm).spawn_one (hT r.ID rfl)
  | assign r _ | complete r _ => exact moves_modify r (fun _ => rfl) (.inr (hT r.ID rfl))
  | verify r =>
    rw [runGoroutine, verifyTorrentAsync]
    split
    · exact Moves.refl tm
    · split
      · exact Moves.refl tm
      · split
        · exact moves_modify r (fun _ => rfl) (.inr (hT r.ID rfl))
        · exact (Moves.refl tm).spawn_one (hT r.ID rfl)
  | verified r result =>
    refine (moves_modify r ?_ (.inr (hT r.ID rfl))).spawn_one (hT r.ID rfl)
    exact fun _ => rfl

theorem moves_handleDownloaderResponse (order : List Int64) (response : TorrentResponse) :
    Moves (tm.Touches (.handleDownloaderResponse order response)) tm
      (tm.handleDownloaderResponse P order response) := by
  unfold handleDownloaderResponse
  split
  · exact Moves.refl tm
  · rename_i t ht
    obtain ⟨k, -, hk⟩ := exists_of_findSome?_eq_some ht
    obtain ⟨hl, hhash⟩ := Option.filter_eq_some_iff.1 hk
    obtain rfl := hown hl
    have hT : tm.Touches (.handleDownloaderResponse order response) t.ref.ID :=
      ⟨t, hl, of_decide_eq_true hhash⟩
    split
    · exact Moves.refl tm
    · dsimp only
      split
      · exact moves_modify t.ref (fun _ => rfl) (.inr hT)
      · refine Moves.spawn_one (Moves.trans (moves_modify t.ref ?_ (.inr hT))
          (moves_modify t.ref ?_ (.inr hT))) hT
        · exact fun _ => rfl
        · exact fun _ => rfl

end Own

/-! ## What a step does to them -/

inductive Effect (tm tm' : TorrentManager) : Reply → Prop where
  | keeps {reply : Reply} (h : Keeps tm tm') (hreply : ∀ t, reply ≠ .ok (some t)) :
    Effect tm tm' reply
  | removed {reply : Reply} (id : Int64) (hmap : tm'.torrents = tm.torrents.erase id)
    (hnext : tm'.nextID = tm.nextID) (hmax : tm'.MaxTorrents = tm.MaxTorrents)
    (hreply : ∀ t, reply ≠ .ok (some t)) : Effect tm tm' reply
  | added (t : TorrentState) (hID : t.ID = tm.nextID)
    (hmap : tm'.torrents = tm.torrents.insert t.ID t) (hnext : tm'.nextID = tm.nextID + 1)
    (hmax : tm'.MaxTorrents = tm.MaxTorrents) (hroom : tm.torrents.keys.card < tm.MaxTorrents)
    (hnew : ∀ id t', tm.torrents.lookup id = some t' → t'.InfoHash ≠ t.InfoHash) :
    Effect tm tm' (.ok (some t))

theorem findByInfoHash_eq_none {order infoHash}
    (ho : Ranges order tm.torrents) (h : tm.findByInfoHash order infoHash = none)
    (ht : tm.torrents.lookup id = some t) : t.InfoHash ≠ infoHash := by
  have hid : id ∈ order := by
    rw [← mem_toFinset, ho.2, Finmap.mem_keys]
    exact Finmap.lookup_isSome.1 (by rw [ht]; rfl)
  have hnone := findSome?_eq_none_iff.1 h id hid
  rw [ht] at hnone
  simpa using hnone

theorem validateTorrentLimit_eq_none (h : tm.validateTorrentLimit = none) :
    tm.torrents.keys.card < tm.MaxTorrents := by
  unfold validateTorrentLimit at h
  split_ifs at h with hmax
  exact lt_of_not_ge hmax

theorem ident_initializeFileInfo (metaInfo : MetaInfo) :
    ident (initializeFileInfo P t metaInfo) = ident t := by
  unfold initializeFileInfo
  split <;> rfl

theorem ident_handleTorrentStartup (paused hasMetadata : Bool) :
    ident (tm.handleTorrentStartup t paused hasMetadata).1 = ident t := by
  unfold handleTorrentStartup
  split_ifs <;> rfl

theorem ident_initialTorrent (paused : Bool) (metaInfo : Option MetaInfo) :
    ident (tm.initialTorrent P t paused metaInfo).1 = ident t := by
  unfold initialTorrent
  rw [ident_handleTorrentStartup]
  cases metaInfo with
  | none => rfl
  | some metaInfo => exact ident_initializeFileInfo metaInfo

theorem concerns_initialTorrent (paused : Bool) (metaInfo : Option MetaInfo) :
    ∀ g ∈ (tm.initialTorrent P t paused metaInfo).2, Concerns (· = t.ID) g := by
  have hstart : ∀ {s : TorrentState} {hasMetadata : Bool}, s.ID = t.ID →
      ∀ g ∈ (tm.handleTorrentStartup s paused hasMetadata).2, Concerns (· = t.ID) g := by
    intro s hasMetadata hs g hg
    unfold handleTorrentStartup at hg
    split_ifs at hg
    · exact mem_singleton.1 hg ▸ hs
    · exact mem_singleton.1 hg ▸ hs
    · cases hg
  refine hstart ?_
  cases metaInfo with
  | none => rfl
  | some metaInfo => exact congrArg Prod.fst (ident_initializeFileInfo metaInfo)

theorem AddTorrent_cases (P : Platform) {order} (req : TorrentAddRequest)
    (ho : Ranges order tm.torrents) :
    (∃ e, tm.AddTorrent P order req = (tm, .error e)) ∨
      ∃ tm' t, tm.AddTorrent P order req = (tm', .ok t) ∧ Effect tm tm' (.ok (some t)) ∧
        Frame (· = tm.nextID) tm tm' := by
  unfold AddTorrent
  cases hlimit : tm.validateTorrentLimit with
  | some err => exact .inl ⟨_, rfl⟩
  | none =>
    cases hparse : parseAddTorrentRequest P req with
    | error err => exact .inl ⟨_, rfl⟩
    | ok parsed =>
      obtain ⟨metaInfo, infoHash⟩ := parsed
      dsimp only
      cases hdup : tm.findDuplicateTorrent order infoHash with
      | some existing => exact .inl ⟨_, rfl⟩
      | none =>
        right
        refine ⟨_, _, rfl, ?_⟩
        -- whatever is filled in, the torrent keeps the ID and the hash it was created with
        let r := tm.createTorrentState req metaInfo infoHash
        have hident : ident (r.1.initialTorrent P r.2 req.Paused metaInfo).1 = ident r.2 :=
          ident_initialTorrent req.Paused metaInfo
        obtain ⟨hID, hhash⟩ := Prod.mk.inj hident
        refine ⟨.added _ hID rfl rfl rfl (validateTorrentLimit_eq_none hlimit) ?_, ?_, ?_⟩
        · intro id t' ht'
          rw [hhash]
          exact findByInfoHash_eq_none ho hdup ht'
        · intro id t' hid hl
          rcases lookup_insert_some hl with ⟨rfl, rfl⟩ | ⟨-, hl⟩
          · exact absurd hID hid
          · exact ⟨t', hl, rfl⟩
        · exact fun g hg => (mem_append.1 hg).imp_right (concerns_initialTorrent (t := r.2) _ _ g)

theorem Moves.of_unit {r reply} (h : Moves T tm r.1) (he : Reply.ofUnit r = (tm', reply)) :
    Effect tm tm' reply ∧ Frame T tm tm' := by
  obtain ⟨rfl, rfl⟩ := Prod.mk.inj he
  refine ⟨.keeps h.toKeeps fun t ht => ?_, h.toFrame⟩
  cases hr : r.2 <;> simp [hr, Except.map] at ht

theorem Moves.of_ok {reply} (h : Moves T tm tm')
    (he : some (tm', .ok none) = some (tm'', reply)) : Effect tm tm'' reply ∧ Frame T tm tm'' := by
  cases he
  refine ⟨.keeps h.toKeeps fun t ht => ?_, h.toFrame⟩
  cases ht

theorem effect_RemoveTorrent {reply} (h : Reply.ofUnit (tm.RemoveTorrent id) = (tm', reply)) :
    Effect tm tm' reply ∧ Frame T tm tm' := by
  unfold RemoveTorrent at h
  cases hl : tm.torrents.lookup id with
  | none =>
    rw [hl] at h
    exact (Moves.refl tm).of_unit h
  | some t =>
    rw [hl] at h
    obtain ⟨rfl, rfl⟩ := Prod.mk.inj h
    refine ⟨.removed id rfl rfl rfl fun t ht => ?_, ?_, fun _ => .inl⟩
    · simp [Except.map] at ht
    · exact fun _ ht => ⟨_, lookup_erase_some ht, rfl⟩

theorem step_frame (hown : ∀ {id t}, tm.torrents.lookup id = some t → t.ID = id) {op reply}
    (h : tm.step P op = some (tm', reply)) :
    Effect tm tm' reply ∧ Frame (tm.Touches op) tm tm' := by
  cases op with
  | AddTorrent order req =>
    rw [step] at h
    split_ifs at h with hr
    · rcases AddTorrent_cases P req hr.2 with ⟨e, he⟩ | ⟨tm1, t, he, heff⟩
      · rw [he] at h
        cases h
        refine ⟨.keeps (Keeps.refl tm) fun t ht => ?_, (Moves.refl tm).toFrame⟩
        cases ht
      · rw [he] at h
        cases h
        exact heff
    · exact (Moves.refl tm).of_ok h
  | RemoveTorrent id => exact effect_RemoveTorrent (Option.some.inj h)
  | StartTorrent now id =>
    rw [step, Option.map_eq_some_iff] at h
    obtain ⟨r, hr, he⟩ := h
    exact (moves_StartTorrent hr).of_unit he
  | StartTorrentNow id => exact (moves_StartTorrentNow hown).of_unit (Option.some.inj h)
  | StopTorrent id => exact moves_StopTorrent.of_unit (Option.some.inj h)
  | VerifyTorrent id => exact (moves_VerifyTorrent hown).of_unit (Option.some.inj h)
  | SetTorrentQueuePosition id position =>
    refine Moves.of_unit ?_ (Option.some.inj h)
    unfold SetTorrentQueuePosition
    split
    · exact Moves.refl tm
    · split <;> exact (Moves.refl tm).congr rfl rfl rfl rfl
  | UpdateSessionConfig dirError config =>
    rw [step] at h
    split_ifs at h
    · refine Moves.of_unit ?_ (Option.some.inj h)
      unfold UpdateSessionConfig
      split
      · exact Moves.refl tm
      · split_ifs <;> exact (Moves.refl tm).congr rfl rfl rfl rfl
    · exact (Moves.refl tm).of_ok h
  | continueUpdate order blocklistError =>
    rw [step] at h
    split at h
    · exact moves_continueUpdate.of_unit (Option.some.inj h)
    · exact (Moves.refl tm).of_ok h
  | processQueues => exact ((Moves.refl tm).setQueues _).of_ok h
  | run index verifyPiece =>
    rw [step] at h
    split at h
    · rename_i g hg
      let tm1 : TorrentManager := { tm with goroutines := tm.goroutines.eraseIdx index }
      have hown1 : ∀ {id t}, tm1.torrents.lookup id = some t → t.ID = id := hown
      have hm : Moves (tm.Touches (.run index verifyPiece)) tm1 (tm1.runGoroutine P verifyPiece g) :=
        moves_runGoroutine hown1 verifyPiece g fun k hk => ⟨g, hg, hk⟩
      refine Moves.of_ok ⟨⟨hm.nextID, hm.limit, hm.ident⟩, hm.status, fun g' hg' => ?_⟩ h
      exact (hm.spawned g' hg').imp_left mem_of_mem_eraseIdx
    · exact (Moves.refl tm).of_ok h
  | handleDownloaderResponse order response =>
    rw [step] at h
    split_ifs at h
    · exact (moves_handleDownloaderResponse hown order response).of_ok h
    · exact (Moves.refl tm).of_ok h
  | updateStats order =>
    rw [step] at h
    split_ifs at h
    · exact (moves_updateStats order).of_ok h
    · exact (Moves.refl tm).of_ok h

/-! ## Runs -/

def nthID (n : ℕ) : Int64 := Int64.ofNat (n + 1)

structure Counted (bound : ℤ) (n : ℕ) (tm : TorrentManager) : Prop where
  bound_eq : tm.MaxTorrents = bound
  nextID : tm.nextID = nthID n
  own : ∀ {id t}, tm.torrents.lookup id = some t → t.ID = id ∧ ∃ m < n, id = nthID m
  hashes : ∀ {id id' t t'}, tm.torrents.lookup id = some t → tm.torrents.lookup id' = some t' →
    t.InfoHash = t'.InfoHash → id = id'
  limit : tm.torrents.keys.card ≤ bound

def addedBy : Reply → Option TorrentState
  | .ok t => t
  | .error _ => none

def addedIDs (replies : List Reply) : List Int64 :=
  replies.filterMap fun reply => (addedBy reply).map TorrentState.ID

variable {bound : ℤ} {n : ℕ}

theorem Keeps.lookup (h : Keeps tm tm') (ht : tm'.torrents.lookup id = some t') :
    ∃ t, tm.torrents.lookup id = some t ∧ t'.ID = t.ID ∧ t'.InfoHash = t.InfoHash := by
  have hid := h.ident id
  rw [ht, Option.map_some] at hid
  obtain ⟨t, hl, he⟩ := Option.map_eq_some_iff.1 hid.symm
  obtain ⟨hID, hhash⟩ := Prod.mk.inj he
  exact ⟨t, hl, hID.symm, hhash.symm⟩

theorem Keeps.keys (h : Keeps tm tm') : tm'.torrents.keys = tm.torrents.keys := by
  ext id
  rw [Finmap.mem_keys, Finmap.mem_keys, ← Finmap.lookup_isSome, ← Finmap.lookup_isSome]
  have hid := congrArg Option.isSome (h.ident id)
  rw [Option.isSome_map, Option.isSome_map] at hid
  rw [hid]

section

variable (h : Counted bound n tm)
include h

theorem Counted.keeps (hk : Keeps tm tm') : Counted bound n tm' where
  bound_eq := hk.limit.trans h.bound_eq
  nextID := hk.nextID.trans h.nextID
  own ht := by
    obtain ⟨t, hl, hID, -⟩ := hk.lookup ht
    rw [hID]
    exact h.own hl
  hashes ht ht' he := by
    obtain ⟨s, hs, -, hhash⟩ := hk.lookup ht
    obtain ⟨s', hs', -, hhash'⟩ := hk.lookup ht'
    exact h.hashes hs hs' (by rw [← hhash, ← hhash', he])
  limit := by
    rw [hk.keys]
    exact h.limit

theorem Counted.removed (hmap : tm'.torrents = tm.torrents.erase id)
    (hnext : tm'.nextID = tm.nextID) (hmax : tm'.MaxTorrents = tm.MaxTorrents) :
    Counted bound n tm' where
  bound_eq := hmax.trans h.bound_eq
  nextID := hnext.trans h.nextID
  own ht := h.own (lookup_erase_some (hmap ▸ ht))
  hashes ht ht' := h.hashes (lookup_erase_some (hmap ▸ ht)) (lookup_erase_some (hmap ▸ ht'))
  limit := by
    have hle : tm'.torrents.keys.card ≤ tm.torrents.keys.card := by
      rw [hmap, keys_erase]
      exact Finset.card_erase_le
    have := h.limit
    omega

theorem Counted.added (hID : t.ID = tm.nextID)
    (hmap : tm'.torrents = tm.torrents.insert t.ID t) (hnext : tm'.nextID = tm.nextID + 1)
    (hmax : tm'.MaxTorrents = tm.MaxTorrents) (hroom : tm.torrents.keys.card < tm.MaxTorrents)
    (hnew : ∀ id t', tm.torrents.lookup id = some t' → t'.InfoHash ≠ t.InfoHash) :
    Counted bound (n + 1) tm' where
  bound_eq := hmax.trans h.bound_eq
  nextID := by
    rw [hnext, h.nextID, nthID, nthID, Int64.ofNat_add (n + 1)]
    rfl
  own ht := by
    rw [hmap] at ht
    rcases lookup_insert_some ht with ⟨rfl, rfl⟩ | ⟨-, ht⟩
    · exact ⟨rfl, n, n.lt_succ_self, hID.trans h.nextID⟩
    · obtain ⟨hown, m, hm, hid⟩ := h.own ht
      exact ⟨hown, m, hm.trans n.lt_succ_self, hid⟩
  hashes ht ht' he := by
    rw [hmap] at ht ht'
    rcases lookup_insert_some ht with ⟨rfl, rfl⟩ | ⟨-, hold⟩ <;>
      rcases lookup_insert_some ht' with ⟨rfl, rfl⟩ | ⟨-, hold'⟩
    · rfl
    · exact absurd he.symm (hnew _ _ hold')
    · exact absurd he (hnew _ _ hold)
    · exact h.hashes hold hold' he
  limit := by
    have hle : tm'.torrents.keys.card ≤ tm.torrents.keys.card + 1 := by
      rw [hmap, keys_insert]
      exact Finset.card_insert_le _ _
    have := h.bound_eq
    omega

theorem Counted.effect {reply} (he : Effect tm tm' reply) :
    addedIDs [reply] = [] ∧ Counted bound n tm' ∨
      addedIDs [reply] = [nthID n] ∧ Counted bound (n + 1) tm' := by
  have hnone : (∀ t, reply ≠ .ok (some t)) → addedIDs [reply] = [] := by
    intro hreply
    rcases reply with e | (_ | t)
    · rfl
    · rfl
    · exact absurd rfl (hreply t)
  cases he with
  | keeps hk hreply => exact .inl ⟨hnone hreply, h.keeps hk⟩
  | removed id hmap hnext hmax hreply => exact .inl ⟨hnone hreply, h.removed hmap hnext hmax⟩
  | added t hID hmap hnext hmax hroom hnew =>
    refine .inr ⟨?_, h.added hID hmap hnext hmax hroom hnew⟩
    rw [← h.nextID, ← hID]
    rfl

theorem Counted.run {ops replies} (hrun : runOutputs (step P) tm ops = some (tm', replies)) :
    Counted bound (n + (addedIDs replies).length) tm' ∧
      addedIDs replies = (range' n (addedIDs replies).length).map nthID := by
  induction ops generalizing tm n replies with
  | nil =>
    cases hrun
    exact ⟨h, rfl⟩
  | cons op ops ih =>
    obtain ⟨tm1, reply, rest, hstep, hrest, rfl⟩ := runOutputs_cons hrun
    have hcons : addedIDs (reply :: rest) = addedIDs [reply] ++ addedIDs rest :=
      filterMap_append (l := [reply])
    rcases h.effect (step_frame (fun hl => (h.own hl).1) hstep).1 with ⟨hids, h1⟩ | ⟨hids, h1⟩
    · rw [hcons, hids]
      exact ih h1 hrest
    · obtain ⟨hc, he⟩ := ih h1 hrest
      rw [hcons, hids]
      refine ⟨?_, ?_⟩
      · rw [length_append, length_singleton, ← add_assoc]
        exact hc
      · rw [length_append, length_singleton, add_comm 1, range'_succ, map_cons, ← he]
        rfl

end

def limitOf (config : TorrentManagerConfig) : ℤ :=
  if config.MaxTorrents ≤ 0 then 100 else config.MaxTorrents

theorem counted_new (config : TorrentManagerConfig) :
    Counted (limitOf config) 0 (NewTorrentManager config) where
  bound_eq := by
    unfold NewTorrentManager applyConfigDefaults applySessionConfigDefaults
    dsimp only
    split_ifs <;> rfl
  nextID := rfl
  own ht := by cases ht
  hashes ht := by cases ht
  limit := by
    show ((∅ : Finset Int64).card : ℤ) ≤ limitOf config
    unfold limitOf
    split_ifs with h
    · decide
    · rw [Finset.card_empty]
      omega

theorem toInt_nthID {n} (h : n + 1 < 2 ^ 63) : (nthID n).toInt = n + 1 := Int64.toInt_ofNat_of_lt h

/-- **IDs increase, hashes are distinct, the limit is kept.** -/
theorem added_torrents (P : Platform) (config : TorrentManagerConfig) {ops : List TmOp}
    {tm : TorrentManager} {replies : List Reply}
    (hrun : runOutputs (TorrentManager.step P) (NewTorrentManager config) ops = some (tm, replies))
    (hn : (addedIDs replies).length < 2 ^ 63) :
    (addedIDs replies).Pairwise (· < ·) ∧ (∀ id ∈ addedIDs replies, 0 < id) ∧
      (∀ id t, tm.torrents.lookup id = some t → t.ID = id ∧ id ∈ addedIDs replies) ∧
      (∀ id id' t t', tm.torrents.lookup id = some t → tm.torrents.lookup id' = some t' →
        t.InfoHash = t'.InfoHash → id = id') ∧
      (0 < config.MaxTorrents → tm.torrents.keys.card ≤ config.MaxTorrents) ∧
      ∀ order req tm' e, Ranges order tm.torrents → tm.AddTorrent P order req = (tm', .error e) →
        tm'.torrents = tm.torrents ∧ tm'.nextID = tm.nextID := by
  obtain ⟨hc, hids⟩ := (counted_new config).run hrun
  rw [Nat.zero_add] at hc
  have hmem : ∀ id, id ∈ addedIDs replies ↔ ∃ m < (addedIDs replies).length, id = nthID m := by
    intro id
    conv_lhs => rw [hids]
    simp [eq_comm]
  refine ⟨?_, ?_, ?_, fun _ _ _ _ => hc.hashes, ?_, ?_⟩
  · rw [hids, pairwise_map]
    refine List.Pairwise.imp_of_mem ?_ pairwise_lt_range'
    intro a b ha hb hab
    rw [List.mem_range'_1] at ha hb
    rw [Int64.lt_iff_toInt_lt, toInt_nthID (by omega), toInt_nthID (by omega)]
    omega
  · intro id hid
    obtain ⟨m, hm, rfl⟩ := (hmem id).1 hid
    rw [Int64.lt_iff_toInt_lt, toInt_nthID (by omega)]
    show (0 : ℤ) < _
    omega
  · intro id t ht
    obtain ⟨hown, m, hm, hid⟩ := hc.own ht
    exact ⟨hown, (hmem id).2 ⟨m, hm, hid⟩⟩
  · intro hpos
    have := hc.limit
    rwa [limitOf, if_neg (by omega)] at this
  · intro order req tm' e ho he
    rcases AddTorrent_cases P req ho with ⟨e', he'⟩ | ⟨tm₁, t, he', -⟩
    · rw [he'] at he
      cases he
      exact ⟨rfl, rfl⟩
    · rw [he'] at he
      cases he

theorem parse_pausedRequest : parseAddTorrentRequest samplePlatform pausedRequest =
      .ok (some ⟨[], [], [], [], [], 0, [], [], []⟩, Hash.zero) := by
  have hload : MetaInfo.Load Bencode.bareEnv (utf8 "de") =
      .ok ⟨[], [], [], [], [], 0, [], [], []⟩ := except_eq_ok (by decide +kernel)
  have hdecode : decodeBase64 (utf8 "ZGU=") = .ok (utf8 "de") := except_eq_ok (by decide +kernel)
  rw [parseAddTorrentRequest, if_pos (by decide)]
  simp only [parseMetainfoData, samplePlatform, pausedRequest, hdecode, hload]
  rfl

theorem step_paused (tm : TorrentManager) (hempty : tm.torrents = ∅) (hmax : 0 < tm.MaxTorrents)
    (hu : tm.updating = none) :
    ∃ tm' t, tm.step samplePlatform (.AddTorrent [] pausedRequest) = some (tm', .ok (some t)) ∧
      Effect tm tm' (.ok (some t)) ∧ tm'.updating = none := by
  have hlimit : tm.validateTorrentLimit = none := by
    rw [validateTorrentLimit, if_neg]
    rw [hempty, keys_empty, Finset.card_empty]
    exact not_le.2 hmax
  have ho : Ranges [] tm.torrents := by
    rw [hempty]
    exact ⟨nodup_nil, rfl⟩
  rw [step, if_pos ⟨hu, ho⟩]
  rcases AddTorrent_cases samplePlatform pausedRequest ho with ⟨e, he⟩ | ⟨tm', t, he, heff, -⟩
  · simp [AddTorrent, hlimit, parse_pausedRequest, findDuplicateTorrent, findByInfoHash] at he
  · refine ⟨tm', t, by rw [he]; rfl, heff, ?_⟩
    simp only [AddTorrent, hlimit, parse_pausedRequest, findDuplicateTorrent, findByInfoHash,
      findSome?_nil] at he
    cases he
    exact hu

def magnetRequest : TorrentAddRequest :=
  ⟨[], utf8 "magnet:?xt=urn:btih:aaaaaaaaaaaaaaaaaaaaaaaaaaaaaaaaaaaaaaaa", [], [], true⟩

/-- Two torrents, the first once more, and its removal. -/
def sampleOps : List TmOp :=
  [.AddTorrent [] pausedRequest, .AddTorrent [1] magnetRequest, .AddTorrent [1, 2] pausedRequest,
   .RemoveTorrent 1]

theorem added_torrents_sample : ∃ tm replies,
    runOutputs (TorrentManager.step samplePlatform) (NewTorrentManager emptyConfig) sampleOps =
        some (tm, replies) ∧
      addedIDs replies = [1, 2] ∧ tm.torrents.keys = {2} ∧ (addedIDs replies).Pairwise (· < ·) ∧
      ∀ id ∈ addedIDs replies, 0 < id := by
  have hreport : ((runOutputs (TorrentManager.step samplePlatform) (NewTorrentManager emptyConfig)
      sampleOps).map fun r => (addedIDs r.2, r.1.torrents.keys)) = some ([1, 2], {2}) := by
    decide +kernel
  obtain ⟨⟨tm, replies⟩, hrun, hreport⟩ := Option.map_eq_some_iff.1 hreport
  obtain ⟨hids, hkeys⟩ := Prod.mk.inj hreport
  have h := added_torrents samplePlatform emptyConfig hrun (by rw [hids]; decide)
  exact ⟨tm, replies, hrun, hids, hkeys, h.1, h.2.1⟩

structure Idle (tm : TorrentManager) : Prop where
  empty : tm.torrents = ∅
  room : 0 < tm.MaxTorrents
  ready : tm.updating = none

theorem Idle.round (h : Idle tm) : ∃ tm1 tm2 r1 r2,
    tm.step samplePlatform (.AddTorrent [] pausedRequest) = some (tm1, r1) ∧
      tm1.step samplePlatform (.RemoveTorrent tm.nextID) = some (tm2, r2) ∧
      Idle tm2 ∧ tm2.nextID = tm.nextID + 1 := by
  obtain ⟨tm1, t, hadd, heff, hu⟩ := step_paused tm h.empty h.room h.ready
  cases heff with
  | keeps _ hreply | removed _ _ _ _ hreply => exact absurd rfl (hreply t)
  | added _ hID hmap hnext hmax _ _ =>
    have hl : tm1.torrents.lookup tm.nextID = some t := by
      rw [hmap, hID, lookup_insert]
    refine ⟨tm1, _, _, _, hadd, rfl, ?_, ?_⟩
    · rw [RemoveTorrent, hl]
      refine ⟨?_, ?_, hu⟩
      · show tm1.torrents.erase tm.nextID = ∅
        rw [hmap, hID, h.empty]
        refine ext_lookup fun k => ?_
        by_cases hk : k = tm.nextID
        · rw [hk, lookup_erase, lookup_empty]
        · rw [lookup_erase_ne hk, lookup_insert_of_ne _ hk]
      · exact hmax.symm ▸ h.room
    · rw [RemoveTorrent, hl]
      exact hnext

theorem Idle.run (n : ℕ) (h : Idle tm) : ∃ ops tm' replies,
    runOutputs (step samplePlatform) tm ops = some (tm', replies) ∧ Idle tm' ∧
      tm'.nextID = tm.nextID + Int64.ofNat n := by
  induction n with
  | zero => exact ⟨[], tm, [], rfl, h, by simp⟩
  | succ n ih =>
    obtain ⟨ops, tm0, replies, hrun, h0, hnext0⟩ := ih
    obtain ⟨tm1, tm2, r1, r2, hadd, hremove, h2, hnext⟩ := h0.round
    refine ⟨_, tm2, _, runOutputs_concat (runOutputs_concat hrun hadd) hremove, h2, ?_⟩
    rw [hnext, hnext0, Int64.ofNat_add, Int64.add_assoc]
    rfl

theorem negative_ID : ∃ ops tm replies,
    runOutputs (TorrentManager.step samplePlatform) (NewTorrentManager emptyConfig) ops =
        some (tm, replies) ∧
      ∃ id t, tm.torrents.lookup id = some t ∧ id < 0 := by
  have h : Idle (NewTorrentManager emptyConfig) := ⟨rfl, by decide, rfl⟩
  obtain ⟨ops, tm, replies, hrun, hidle, hnext⟩ := h.run (2 ^ 63 - 1)
  obtain ⟨tm₁, t, hadd, heff, -⟩ := step_paused tm hidle.empty hidle.room hidle.ready
  refine ⟨_, tm₁, _, runOutputs_concat hrun hadd, ?_⟩
  cases heff with
  | keeps _ hreply | removed _ _ _ _ hreply => exact absurd rfl (hreply t)
  | added _ hID hmap _ _ _ _ =>
    refine ⟨t.ID, t, by rw [hmap, Finmap.lookup_insert], ?_⟩
    rw [hID, hnext]
    decide +kernel

end GoI2pBt.Rpc.TorrentManager
