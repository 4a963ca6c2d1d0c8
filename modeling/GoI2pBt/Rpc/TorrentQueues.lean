/-
  In guarded runs, queued torrents wait in their queue.
-/
import GoI2pBt.Rpc.TorrentIds

namespace GoI2pBt.Rpc.TorrentManager

open List Finmap QueueManager

variable {P : Platform} {tm tm' tm'' : TorrentManager} {id k : Int64} {t t' : TorrentState}
  {ty : QueueType}

variable {qm : QueueManager} {u : Update}

/-! ## The invariant -/

def Collecting (ty : QueueType) (id : Int64) : UpdateStage → Prop
  | .collect t => t = ty ∨ t = .DownloadQueue
  | .activate t ids => t = ty ∧ id ∈ ids ∨ t = .DownloadQueue ∧ ty = .SeedQueue
  | .others => False

def Queued (tm : TorrentManager) (ty : QueueType) (id : Int64) : Prop :=
  ∃ t, tm.torrents.lookup id = some t ∧ t.Status = ty.queuedStatus

def Covered (tm : TorrentManager) (ty : QueueType) (id : Int64) : Prop :=
  tm.queueManager.Has (.queued ty) id ∨ Goroutine.activated id ty ∈ tm.goroutines

structure Waiting (tm : TorrentManager) : Prop where
  covered : ∀ {ty id}, tm.Queued ty id → tm.Covered ty id
  collecting : ∀ {ty id}, ¬ tm.queueManager.config.Enabled ty →
    tm.queueManager.Has (.queued ty) id → ∃ u, tm.updating = some u ∧ Collecting ty id u.stage
  config : ∀ u, tm.updating = some u → u.stage ≠ .others →
    tm.queueManager.config = tm.sessionConfig.queueConfig

theorem queuedStatus_injective {ty ty' : QueueType} (h : ty.queuedStatus = ty'.queuedStatus) :
    ty = ty' := by
  cases ty <;> cases ty' <;> first | rfl | cases h

theorem ne_queuedStatus {s} (hd : s ≠ .QueuedDown) (hs : s ≠ .QueuedSeed)
    (ty : QueueType) : s ≠ ty.queuedStatus := by
  cases ty
  · exact hd
  · exact hs

theorem queuedStatus_ne_activeStatus {ty ty' : QueueType} : ty.activeStatus ≠ ty'.queuedStatus := by
  cases ty <;> cases ty' <;> decide

theorem startStatus_ne_queuedStatus (s : StartStatus) : s.status ≠ ty.queuedStatus := by
  cases s <;> cases ty <;> decide

/-! ## Steps that leave the queues alone -/

structure Quiet (tm tm' : TorrentManager) : Prop where
  queues : tm'.queueManager = tm.queueManager
  updating : tm'.updating = tm.updating
  session : tm'.sessionConfig = tm.sessionConfig
  activations : ∀ {id ty}, Goroutine.activated id ty ∈ tm.goroutines →
    Goroutine.activated id ty ∈ tm'.goroutines
  queued : ∀ {ty id}, tm'.Queued ty id → tm.Queued ty id

theorem Quiet.refl (tm : TorrentManager) : Quiet tm tm := ⟨rfl, rfl, rfl, fun h => h, fun h => h⟩

theorem Quiet.trans (h : Quiet tm tm') (h' : Quiet tm' tm'') : Quiet tm tm'' where
  queues := h'.queues.trans h.queues
  updating := h'.updating.trans h.updating
  session := h'.session.trans h.session
  activations ha := h'.activations (h.activations ha)
  queued hq := h.queued (h'.queued hq)

theorem Quiet.spawn (h : Quiet tm tm') (gs : List Goroutine) : Quiet tm (tm'.spawn gs) :=
  ⟨h.queues, h.updating, h.session, fun ha => mem_append_left _ (h.activations ha), h.queued⟩

theorem queued_put (h : (tm.put id t').Queued ty k) :
    k = id ∧ t'.Status = ty.queuedStatus ∨ k ≠ id ∧ tm.Queued ty k := by
  obtain ⟨s, hs, hstatus⟩ := h
  rcases lookup_insert_some hs with ⟨rfl, rfl⟩ | ⟨hk, hs⟩
  · exact .inl ⟨rfl, hstatus⟩
  · exact .inr ⟨hk, s, hs, hstatus⟩

theorem quiet_put (h : ∀ ty, t'.Status = ty.queuedStatus → tm.Queued ty id) :
    Quiet tm (tm.put id t') where
  queues := rfl
  updating := rfl
  session := rfl
  activations ha := ha
  queued hq := by
    rcases queued_put hq with ⟨rfl, hstatus⟩ | ⟨-, hold⟩
    · exact h _ hstatus
    · exact hold

theorem quiet_modify (r : TorrentRef) {f}
    (hf : ∀ t, (f t).Status = t.Status ∨ ∀ ty : QueueType, (f t).Status ≠ ty.queuedStatus) :
    Quiet tm (tm.modify r f) := by
  unfold modify
  cases h : tm.deref r with
  | none => exact Quiet.refl tm
  | some t =>
    refine quiet_put fun ty hty => ?_
    rcases hf t with hsame | hnot
    · exact ⟨t, (Option.filter_eq_some_iff.1 h).1, hsame ▸ hty⟩
    · exact absurd hty (hnot ty)

theorem Waiting.of_covered (h : Waiting tm)
    (hconfig : tm'.queueManager.config = tm.queueManager.config)
    (hupdating : tm'.updating = tm.updating) (hsession : tm'.sessionConfig = tm.sessionConfig)
    (hin : ∀ {ty id}, ¬ tm.queueManager.config.Enabled ty →
      tm'.queueManager.Has (.queued ty) id → tm.queueManager.Has (.queued ty) id)
    (hcovered : ∀ {ty id}, tm'.Queued ty id → tm'.Covered ty id) : Waiting tm' where
  covered := hcovered
  collecting hen hhas := by
    rw [hconfig] at hen
    rw [hupdating]
    exact h.collecting hen (hin hen hhas)
  config u hu hstage := by
    rw [hconfig, hsession]
    exact h.config u (hupdating ▸ hu) hstage

theorem Waiting.quiet (h : Waiting tm) (hq : Quiet tm tm') : Waiting tm' := by
  refine h.of_covered (by rw [hq.queues]) hq.updating hq.session ?_ ?_
  · intro ty id _ hin
    exact hq.queues ▸ hin
  · intro ty id hqueued
    rcases h.covered (hq.queued hqueued) with hin | hact
    · exact .inl (hq.queues ▸ hin)
    · exact .inr (hq.activations hact)

theorem status_setInitialTorrentStatus (t : TorrentState) (paused hasMetadata : Bool) :
    (setInitialTorrentStatus t paused hasMetadata).Status ≠ ty.queuedStatus := by
  unfold setInitialTorrentStatus
  dsimp only
  split_ifs <;> exact ne_queuedStatus (by decide) (by decide) ty

theorem status_initializeFileInfo (t : TorrentState) (metaInfo : Metainfo.MetaInfo) :
    (initializeFileInfo P t metaInfo).Status = t.Status := by
  unfold initializeFileInfo
  split <;> rfl

theorem status_initialTorrent (paused : Bool) (metaInfo : Option Metainfo.MetaInfo) :
    (tm.initialTorrent P t paused metaInfo).1.Status ≠ ty.queuedStatus := by
  have hstart : ∀ {s : TorrentState} {hasMetadata : Bool}, s.Status ≠ ty.queuedStatus →
      (tm.handleTorrentStartup s paused hasMetadata).1.Status ≠ ty.queuedStatus := by
    intro s hasMetadata hs
    unfold handleTorrentStartup
    split_ifs
    · exact hs
    · exact ne_queuedStatus (s := .Verifying) (by decide) (by decide) ty
    · exact hs
  refine hstart ?_
  cases metaInfo with
  | none => exact status_setInitialTorrentStatus t paused false
  | some metaInfo =>
    rw [status_initializeFileInfo]
    exact status_setInitialTorrentStatus t paused true

theorem quiet_AddTorrent (order : List Int64) (req : TorrentAddRequest) :
    Quiet tm (tm.AddTorrent P order req).1 := by
  unfold AddTorrent
  split
  · exact Quiet.refl tm
  · split
    · exact Quiet.refl tm
    · split
      · exact Quiet.refl tm
      · rename_i metaInfo infoHash _ _ _
        let r := tm.createTorrentState req metaInfo infoHash
        let s := r.1.initialTorrent P r.2 req.Paused metaInfo
        have hput : Quiet r.1 (r.1.put s.1.ID s.1) :=
          quiet_put fun ty hty => absurd hty (status_initialTorrent req.Paused metaInfo)
        have hspawn := hput.spawn s.2
        exact ⟨hspawn.queues, hspawn.updating, hspawn.session, hspawn.activations, hspawn.queued⟩

theorem quiet_VerifyTorrent : Quiet tm (tm.VerifyTorrent id).1 := by
  unfold VerifyTorrent
  split
  · exact Quiet.refl tm
  · split_ifs
    · exact Quiet.refl tm
    · refine Quiet.spawn (quiet_put fun ty hty => ?_) _
      cases ty <;> cases hty

theorem quiet_startTorrent (r : TorrentRef) : Quiet tm (tm.startTorrent r) := by
  unfold startTorrent
  split
  · exact Quiet.refl tm
  · exact (Quiet.refl tm).spawn _

theorem quiet_verifyTorrentAsync (r : TorrentRef) (verifyPiece : ℕ → Option Bool) :
    Quiet tm (tm.verifyTorrentAsync P r verifyPiece) := by
  unfold verifyTorrentAsync
  split
  · exact Quiet.refl tm
  · split
    · exact Quiet.refl tm
    · split
      · exact quiet_modify r fun t => .inr (ne_queuedStatus (s := .Stopped) (by decide) (by decide))
      · exact (Quiet.refl tm).spawn _

theorem status_completeVerification (result : VerifyResult) (t : TorrentState) :
    (completeVerification result t).Status ≠ ty.queuedStatus := by
  unfold completeVerification
  dsimp only
  split_ifs <;> exact ne_queuedStatus (by decide) (by decide) ty

theorem quiet_handleDownloaderResponse (order : List Int64) (response : TorrentResponse) :
    Quiet tm (tm.handleDownloaderResponse P order response) := by
  unfold handleDownloaderResponse
  split
  · exact Quiet.refl tm
  · rename_i t _
    split
    · exact Quiet.refl tm
    · rename_i metaInfo _
      have hmeta : Quiet tm (tm.modify t.ref fun t => { t with MetaInfo := some metaInfo }) :=
        quiet_modify t.ref fun _ => .inl rfl
      dsimp only
      split
      · exact hmeta
      · refine Quiet.spawn (hmeta.trans (quiet_modify t.ref fun t => .inr ?_)) _
        exact ne_queuedStatus (s := .Downloading) (by decide) (by decide)

theorem quiet_updateStats (order : List Int64) : Quiet tm (tm.updateStats P order) := by
  unfold updateStats
  induction order generalizing tm with
  | nil => exact Quiet.refl tm
  | cons id order ih =>
    rw [foldl_cons]
    refine Quiet.trans ?_ ih
    cases h : tm.torrents.lookup id with
    | none => exact Quiet.refl tm
    | some t =>
      refine quiet_put fun ty hty => ⟨t, h, ?_⟩
      rwa [(ident_updateCompletionStatistics t).2] at hty

/-! ## Steps that change the queues -/

theorem Waiting.RemoveTorrent (h : Waiting tm) : Waiting (tm.RemoveTorrent id).1 := by
  unfold TorrentManager.RemoveTorrent
  split
  · exact h
  · refine h.of_covered rfl rfl rfl ?_ ?_
    · intro ty k _ hin
      exact (has_RemoveFromQueue.1 hin).1
    · rintro ty k ⟨s, hs, hstatus⟩
      have hk : k ≠ id := by
        rintro rfl
        rw [lookup_erase] at hs
        cases hs
      rw [lookup_erase_ne hk] at hs
      exact (h.covered ⟨s, hs, hstatus⟩).imp
        (fun hin => has_RemoveFromQueue.2 ⟨hin, hk⟩) fun hact => hact

theorem Waiting.StopTorrent (h : Waiting tm) : Waiting (tm.StopTorrent id).1 := by
  unfold TorrentManager.StopTorrent
  split
  · exact h
  · refine h.of_covered rfl rfl rfl ?_ ?_
    · intro ty k _ hin
      exact (has_RemoveFromQueue.1 hin).1
    · intro ty k hq
      rcases queued_put hq with ⟨-, hstatus⟩ | ⟨hk, hq⟩
      · exact absurd hstatus (ne_queuedStatus (s := .Stopped) (by decide) (by decide) ty)
      · exact (h.covered hq).imp
          (fun hin => has_RemoveFromQueue.2 ⟨hin, hk⟩) fun hact => hact

theorem has_ForceActivate_of_ne {t : QueueType} (hk : k ≠ id) :
    (qm.ForceActivate id t).1.Has (.queued ty) k ↔ qm.Has (.queued ty) k := by
  rw [has_ForceActivate]
  simp [hk]

theorem not_has_ForceActivate {t : QueueType} :
    ¬ (qm.ForceActivate id t).1.Has (.queued ty) id := by
  rw [has_ForceActivate]
  simp

theorem has_of_ForceActivate {t : QueueType}
    (h : (qm.ForceActivate id t).1.Has (.queued ty) k) : k ≠ id ∧ qm.Has (.queued ty) k := by
  by_cases hk : k = id
  · subst hk
    exact absurd h not_has_ForceActivate
  · exact ⟨hk, (has_ForceActivate_of_ne hk).1 h⟩

theorem Waiting.StartTorrentNow (h : Waiting tm) : Waiting (tm.StartTorrentNow id).1 := by
  unfold TorrentManager.StartTorrentNow
  split
  · exact h
  · split_ifs
    · exact h
    · refine h.of_covered rfl rfl rfl ?_ ?_
      · intro ty k _ hin
        exact (has_of_ForceActivate hin).2
      · intro ty k hq
        rcases queued_put hq with ⟨-, hstatus⟩ | ⟨hk, hq⟩
        · exact absurd hstatus queuedStatus_ne_activeStatus
        · refine (h.covered hq).imp (has_ForceActivate_of_ne hk).2 fun hact => ?_
          exact mem_append_left _ (mem_append_left _ hact)

theorem Waiting.StartTorrent (h : Waiting tm) {now r} (he : tm.StartTorrent P now id = some r)
    (hen : ∀ t, tm.torrents.lookup id = some t → ¬ started t →
      tm.queueManager.config.Enabled (queueTypeOf t)) : Waiting r.1 := by
  unfold TorrentManager.StartTorrent at he
  cases hl : tm.torrents.lookup id with
  | none =>
    rw [hl] at he
    cases he
    exact h
  | some t =>
    rw [hl] at he
    dsimp only at he
    split_ifs at he with hstarted
    · cases he
      exact h
    · obtain ⟨qm, hadd, rfl⟩ := Option.map_eq_some_iff.1 he
      have hty := hen t hl hstarted
      obtain ⟨-, -, -, hconfig⟩ := QueueManager.AddToQueue_eq_some hty hadd
      refine h.of_covered hconfig rfl rfl ?_ ?_
      · intro ty k hdis hin
        rcases (has_AddToQueue hty hadd).1 hin with ⟨-, hp⟩ | ⟨hin, -⟩
        · cases hp
          exact absurd hty hdis
        · exact hin
      · intro ty k hq
        rcases queued_put hq with ⟨rfl, hstatus⟩ | ⟨hk, hq⟩
        · obtain rfl := queuedStatus_injective hstatus
          exact .inl ((has_AddToQueue hty hadd).2 (.inl ⟨rfl, rfl⟩))
        · refine (h.covered hq).imp (fun hin => ?_) fun hact => hact
          exact (has_AddToQueue hty hadd).2 (.inr ⟨hin, fun hc => hk hc.1⟩)

theorem Waiting.SetTorrentQueuePosition (h : Waiting tm) {position} :
    Waiting (tm.SetTorrentQueuePosition id position).1 := by
  unfold TorrentManager.SetTorrentQueuePosition
  split
  · exact h
  · cases hpos : tm.queueManager.SetQueuePosition id position with
    | error err => exact h
    | ok qm =>
      have hhas : ∀ {p k}, qm.Has p k ↔ tm.queueManager.Has p k := has_SetQueuePosition hpos
      have hconfig : qm.config = tm.queueManager.config := by
        obtain ⟨t, l, -, rfl⟩ := QueueManager.SetQueuePosition_cases hpos
        rfl
      refine h.of_covered hconfig rfl rfl (fun _ hin => hhas.1 hin) ?_
      intro ty k hq
      exact (h.covered hq).imp hhas.2 fun hact => hact

theorem config_processQueues (qm : QueueManager) : qm.processQueues.1.config = qm.config := by
  have hif : ∀ (qm : QueueManager) (t : QueueType), (qm.processIf t).1.config = qm.config := by
    intro qm t
    rcases qm.processIf_cases t with h | h <;> rw [h]
    rfl
  rw [processQueues, hif, hif]

theorem Waiting.processQueues (h : Waiting tm) :
    Waiting (tm.setQueues tm.queueManager.processQueues) := by
  refine h.of_covered (config_processQueues _) rfl rfl ?_ ?_
  · intro ty k _ hin
    rcases has_processQueues.1 hin with ⟨t, -, hp⟩ | ⟨hin, -⟩
    · cases hp
    · exact hin
  · intro ty k hq
    by_cases hfired : (k, ty) ∈ tm.queueManager.processQueues.2
    · exact .inr (mem_append_right _ (mem_map_of_mem hfired))
    · refine (h.covered hq).imp (fun hin => ?_) fun hact => mem_append_left _ hact
      refine has_processQueues.2 (.inr ⟨hin, ?_⟩)
      rintro ⟨t, ht, hp⟩
      cases hp
      exact hfired ht

/-! ## Goroutines -/

theorem mem_eraseIdx_of_ne {g g' : Goroutine} {gs : List Goroutine} {i : ℕ} (hi : gs[i]? = some g)
    (h : g' ∈ gs) (hne : g' ≠ g) : g' ∈ gs.eraseIdx i := by
  obtain ⟨j, hj⟩ := mem_iff_getElem?.1 h
  refine mem_eraseIdx_iff_getElem?.2 ⟨j, ?_, hj⟩
  rintro rfl
  exact hne (Option.some.inj (hj.symm.trans hi))

theorem quiet_runGoroutine (tm : TorrentManager) (verifyPiece : ℕ → Option Bool) {g}
    (hg : ∀ id t, g ≠ .activated id t) : Quiet tm (tm.runGoroutine P verifyPiece g) := by
  cases g with
  | activated id t => exact absurd rfl (hg id t)
  | start r => exact quiet_startTorrent r
  | assign r status => exact quiet_modify r fun t => .inr fun ty => startStatus_ne_queuedStatus status
  | verify r => exact quiet_verifyTorrentAsync r verifyPiece
  | verified r result =>
    refine Quiet.spawn (quiet_modify r fun t => .inl ?_) _
    rfl
  | complete r result =>
    exact quiet_modify r fun t => .inr fun ty => status_completeVerification result t

theorem queued_onTorrentActivated {t : QueueType} (h : (tm.onTorrentActivated id t).Queued ty k) :
    tm.Queued ty k ∧ ¬(k = id ∧ ty = t) := by
  unfold onTorrentActivated at h
  cases hl : tm.torrents.lookup id with
  | none =>
    rw [hl] at h
    refine ⟨h, ?_⟩
    rintro ⟨rfl, rfl⟩
    obtain ⟨s, hs, -⟩ := h
    rw [hl] at hs
    cases hs
  | some s =>
    rw [hl] at h
    dsimp only at h
    split_ifs at h with hstatus
    · rcases queued_put h with ⟨-, hactive⟩ | ⟨hk, hq⟩
      · exact absurd hactive queuedStatus_ne_activeStatus
      · exact ⟨hq, fun hc => hk hc.1⟩
    · refine ⟨h, ?_⟩
      rintro ⟨rfl, rfl⟩
      obtain ⟨s', hs', hqueued⟩ := h
      rw [hl] at hs'
      cases hs'
      exact hstatus hqueued

theorem frame_onTorrentActivated (tm : TorrentManager) (id : Int64) (t : QueueType) :
    (tm.onTorrentActivated id t).queueManager = tm.queueManager ∧
      (tm.onTorrentActivated id t).updating = tm.updating ∧
      (tm.onTorrentActivated id t).sessionConfig = tm.sessionConfig ∧
      ∀ g ∈ tm.goroutines, g ∈ (tm.onTorrentActivated id t).goroutines := by
  unfold onTorrentActivated
  split
  · exact ⟨rfl, rfl, rfl, fun _ hg => hg⟩
  · split_ifs
    · exact ⟨rfl, rfl, rfl, fun _ hg => mem_append_left _ hg⟩
    · exact ⟨rfl, rfl, rfl, fun _ hg => hg⟩

theorem Waiting.run (h : Waiting tm) {index : ℕ} {g : Goroutine}
    (hg : tm.goroutines[index]? = some g) (verifyPiece : ℕ → Option Bool) :
    Waiting ({ tm with goroutines := tm.goroutines.eraseIdx index }.runGoroutine P verifyPiece g) := by
  generalize htm : { tm with goroutines := tm.goroutines.eraseIdx index } = tm1
  by_cases hact : ∃ id t, g = .activated id t
  · obtain ⟨id, t, rfl⟩ := hact
    obtain ⟨hqueues, hupdating, hsession, hgs⟩ := frame_onTorrentActivated tm1 id t
    subst htm
    refine h.of_covered (by rw [runGoroutine, hqueues]) hupdating hsession ?_ ?_
    · intro ty k _ hin
      rw [runGoroutine, hqueues] at hin
      exact hin
    · intro ty k hq
      obtain ⟨hq, hne⟩ := queued_onTorrentActivated hq
      refine (h.covered hq).imp (fun hin => ?_) fun hk => ?_
      · rw [runGoroutine, hqueues]
        exact hin
      · refine hgs _ (mem_eraseIdx_of_ne hg hk fun he => hne ?_)
        cases he
        exact ⟨rfl, rfl⟩
  · have hg' : ∀ id t, g ≠ .activated id t := fun id t he => hact ⟨id, t, he⟩
    have herase : Quiet tm tm1 := by
      subst htm
      exact ⟨rfl, rfl, rfl, fun hk => mem_eraseIdx_of_ne hg hk (hg' _ _).symm, fun hq => hq⟩
    exact h.quiet (herase.trans (quiet_runGoroutine tm1 verifyPiece hg'))

/-! ## The session configuration -/

theorem Waiting.UpdateSessionConfig (h : Waiting tm) (hu : tm.updating = none) {dirError config} :
    Waiting (tm.UpdateSessionConfig dirError config).1 := by
  unfold TorrentManager.UpdateSessionConfig
  split
  · exact h
  · split_ifs
    · -- the torrents of a queue that is now disabled are collected next
      refine ⟨fun hq => h.covered hq, fun _ _ => ?_, fun u hu _ => ?_⟩
      · exact ⟨_, rfl, .inr rfl⟩
      · rfl
    · -- nothing waits in a disabled queue, and the settings are the same
      refine ⟨fun hq => h.covered hq, fun hen hin => ?_, fun u hu hstage => ?_⟩
      · obtain ⟨u, hu', -⟩ := h.collecting hen hin
        rw [hu] at hu'
        cases hu'
      · cases hu
        exact absurd rfl hstage

section

variable (h : Waiting tm) (hu : tm.updating = some u)
include h hu

theorem Waiting.setStage {stage} (hstage : u.stage ≠ .others)
    (hcol : ∀ {ty id}, ¬ tm.queueManager.config.Enabled ty →
      tm.queueManager.Has (.queued ty) id → Collecting ty id u.stage → Collecting ty id stage) :
    Waiting { tm with updating := some { u with stage := stage } } where
  covered hq := h.covered hq
  collecting hen hin := by
    obtain ⟨u', hu', hc⟩ := h.collecting hen hin
    obtain rfl : u = u' := Option.some.inj (hu.symm.trans hu')
    exact ⟨_, rfl, hcol hen hin hc⟩
  config _ _ _ := h.config u hu hstage

theorem Waiting.finish (hstage : u.stage = .others) (config : SessionConfiguration) :
    Waiting { tm with sessionConfig := config, updating := none } where
  covered hq := h.covered hq
  collecting hen hin := by
    obtain ⟨u', hu', hc⟩ := h.collecting hen hin
    obtain rfl : u = u' := Option.some.inj (hu.symm.trans hu')
    rw [hstage] at hc
    exact hc.elim
  config _ hu' _ := by cases hu'

theorem Waiting.activate {t : QueueType} {ids}
    (hstage : u.stage = .activate t (id :: ids)) (hother : ¬ tm.Queued t.other id) :
    Waiting { tm.setQueues (tm.queueManager.ForceActivate id t) with
      updating := some { u with stage := .activate t ids } } where
  covered {ty k} hq := by
    have hq : tm.Queued ty k := hq
    by_cases hk : k = id
    · subst hk
      have hty : ty = t := by
        cases ty <;> cases t <;> first | rfl | exact absurd hq hother
      subst hty
      exact .inr (mem_append_right _ (mem_singleton_self _))
    · exact (h.covered hq).imp (has_ForceActivate_of_ne hk).2 (mem_append_left _)
  collecting {ty k} hen hin := by
    obtain ⟨hk, hin⟩ := has_of_ForceActivate hin
    obtain ⟨u', hu', hc⟩ := h.collecting hen hin
    obtain rfl : u = u' := Option.some.inj (hu.symm.trans hu')
    rw [hstage] at hc
    refine ⟨_, rfl, ?_⟩
    rcases hc with ⟨ht, hmem⟩ | hlater
    · exact .inl ⟨ht, (mem_cons.1 hmem).resolve_left hk⟩
    · exact .inr hlater
  config _ _ _ := h.config u hu (by rw [hstage]; exact UpdateStage.noConfusion)

theorem Waiting.continueUpdate {order blocklistError}
    (hother : ∀ t id ids, u.stage = .activate t (id :: ids) → ¬ tm.Queued t.other id) :
    Waiting (tm.continueUpdate order blocklistError u).1 := by
  have hseed : ∀ {t ty : QueueType}, t ≠ ty → t = .DownloadQueue → ty = .SeedQueue := by
    rintro _ (_ | _) hne rfl
    · exact absurd rfl hne
    · rfl
  unfold TorrentManager.continueUpdate
  dsimp only
  split
  · rename_i t hstage
    have hne : u.stage ≠ .others := by
      rw [hstage]
      exact UpdateStage.noConfusion
    have hconfig := h.config u hu hne
    split_ifs with hen hrange
    · refine h.setStage hu hne fun {ty id} hdis _ hc => ?_
      rw [hstage] at hc
      have ht : t ≠ ty := by
        rintro rfl
        rw [hconfig] at hdis
        exact hdis hen
      obtain rfl := hc.resolve_left ht
      exact .inl (hseed ht rfl).symm
    · -- every torrent of the queue is on the list
      refine h.setStage hu hne fun {ty id} _ hin hc => ?_
      rw [hstage] at hc
      by_cases ht : t = ty
      · subst ht
        refine .inl ⟨rfl, ?_⟩
        rw [← mem_toFinset, hrange.2, Finmap.mem_keys]
        exact hin
      · exact .inr ⟨hc.resolve_left ht, hseed ht (hc.resolve_left ht)⟩
    · exact h
  · rename_i t hstage
    refine h.setStage hu (by rw [hstage]; exact UpdateStage.noConfusion) fun {ty id} _ _ hc => ?_
    rw [hstage] at hc
    rcases hc with ⟨-, hmem⟩ | ⟨rfl, rfl⟩
    · cases hmem
    · exact .inl rfl
  · rename_i t id ids hstage
    exact h.activate hu hstage (hother t id ids hstage)
  · rename_i hstage
    split
    · split_ifs
      · exact h.finish hu hstage u.oldConfig
      · exact h.finish hu hstage tm.sessionConfig
    · exact h.finish hu hstage tm.sessionConfig

end

/-! ## Runs -/

def Guarded (tm : TorrentManager) : TmOp → Prop
  | .StartTorrent _ id => ∀ t, tm.torrents.lookup id = some t → ¬ started t →
    tm.queueManager.config.Enabled (queueTypeOf t)
  | .continueUpdate _ _ => ∀ u t id ids, tm.updating = some u →
    u.stage = .activate t (id :: ids) → ¬ tm.Queued t.other id
  | _ => True

theorem Waiting.step {op reply} (h : Waiting tm) (hop : tm.Guarded op)
    (he : tm.step P op = some (tm', reply)) : Waiting tm' := by
  cases op with
  | AddTorrent order req =>
    rw [TorrentManager.step] at he
    split_ifs at he
    · cases he
      exact h.quiet (quiet_AddTorrent order req)
    · cases he
      exact h
  | RemoveTorrent id =>
    cases he
    exact h.RemoveTorrent
  | StartTorrent now id =>
    rw [TorrentManager.step, Option.map_eq_some_iff] at he
    obtain ⟨r, hr, he⟩ := he
    cases he
    exact h.StartTorrent hr hop
  | StartTorrentNow id =>
    cases he
    exact h.StartTorrentNow
  | StopTorrent id =>
    cases he
    exact h.StopTorrent
  | VerifyTorrent id =>
    cases he
    exact h.quiet quiet_VerifyTorrent
  | SetTorrentQueuePosition id position =>
    cases he
    exact h.SetTorrentQueuePosition
  | UpdateSessionConfig dirError config =>
    rw [TorrentManager.step] at he
    split_ifs at he with hu
    · cases he
      exact h.UpdateSessionConfig hu
    · cases he
      exact h
  | continueUpdate order blocklistError =>
    rw [TorrentManager.step] at he
    cases hu : tm.updating with
    | none =>
      rw [hu] at he
      cases he
      exact h
    | some u =>
      rw [hu] at he
      cases he
      exact h.continueUpdate hu fun t id ids hstage => hop u t id ids hu hstage
  | processQueues =>
    cases he
    exact h.processQueues
  | run index verifyPiece =>
    rw [TorrentManager.step] at he
    cases hg : tm.goroutines[index]? with
    | none =>
      rw [hg] at he
      cases he
      exact h
    | some g =>
      rw [hg] at he
      cases he
      exact h.run hg verifyPiece
  | handleDownloaderResponse order response =>
    rw [TorrentManager.step] at he
    split_ifs at he
    · cases he
      exact h.quiet (quiet_handleDownloaderResponse order response)
    · cases he
      exact h
  | updateStats order =>
    rw [TorrentManager.step] at he
    split_ifs at he
    · cases he
      exact h.quiet (quiet_updateStats order)
    · cases he
      exact h

theorem waiting_new (config : TorrentManagerConfig) : Waiting (NewTorrentManager config) where
  covered := by
    rintro ty id ⟨t, ht, -⟩
    cases ht
  collecting _ hin := absurd hin notMem_empty
  config _ hu _ := by cases hu

def queuesConfig : TorrentManagerConfig :=
  { emptyConfig with
    SessionConfig := ⟨utf8 "1", [], [], false, 1, 0, 0, true, 0, true, 0, false, false, []⟩ }

structure Report where
  status : Option TorrentStatus
  places : List Place
  goroutines : ℕ
deriving DecidableEq

def report (tm : TorrentManager) (id : Int64) : Report where
  status := (tm.torrents.lookup id).map TorrentState.Status
  places := [.queued .DownloadQueue, .queued .SeedQueue, .active .DownloadQueue,
    .active .SeedQueue].filter fun p => tm.queueManager.Has p id
  goroutines := tm.goroutines.length

/-- **A torrent with a queued status is in its queue.** -/
theorem waits_of_guarded (P : Platform) (config : TorrentManagerConfig) {ops : List TmOp}
    {tm : TorrentManager}
    (hrun : runSteps (TorrentManager.step P) (NewTorrentManager config) ops = some tm)
    (hops : Allowed (TorrentManager.step P) Guarded (NewTorrentManager config) ops) {id : Int64}
    {t : TorrentState} {ty : QueueType} (ht : tm.torrents.lookup id = some t)
    (hstatus : t.Status = ty.queuedStatus) (hact : Goroutine.activated id ty ∉ tm.goroutines) :
    tm.queueManager.Has (.queued ty) id ∧
      (tm.updating = none → tm.queueManager.config.Enabled ty) := by
  have h : Waiting tm := invariant_of_allowed Waiting.step (waiting_new config) hops hrun
  have hin : tm.queueManager.Has (.queued ty) id := (h.covered ⟨t, ht, hstatus⟩).resolve_right hact
  refine ⟨hin, fun hu => ?_⟩
  by_contra hen
  obtain ⟨u, hu', -⟩ := h.collecting hen hin
  rw [hu] at hu'
  cases hu'

theorem waits_of_guarded_sample : ∃ tm t,
    runSteps (TorrentManager.step samplePlatform) (NewTorrentManager queuesConfig)
        [.AddTorrent [] pausedRequest, .StartTorrent 0 1] = some tm ∧
      Allowed (TorrentManager.step samplePlatform) Guarded (NewTorrentManager queuesConfig)
        [.AddTorrent [] pausedRequest, .StartTorrent 0 1] ∧
      tm.torrents.lookup 1 = some t ∧ t.Status = .QueuedDown ∧ tm.goroutines = [] ∧
      tm.queueManager.Has (.queued .DownloadQueue) 1 := by
  have hreport : ((runSteps (TorrentManager.step samplePlatform) (NewTorrentManager queuesConfig)
      [.AddTorrent [] pausedRequest, .StartTorrent 0 1]).map fun tm => tm.report 1) =
      some ⟨some .QueuedDown, [.queued .DownloadQueue], 0⟩ := by
    decide +kernel
  obtain ⟨tm, hrun, hreport⟩ := Option.map_eq_some_iff.1 hreport
  obtain ⟨hstatus, -, hgs⟩ := Report.mk.inj hreport
  obtain ⟨t, ht, hstatus⟩ := Option.map_eq_some_iff.1 hstatus
  have hgs : tm.goroutines = [] := List.length_eq_zero_iff.1 hgs
  have hops : Allowed (TorrentManager.step samplePlatform) Guarded (NewTorrentManager queuesConfig)
      [.AddTorrent [] pausedRequest, .StartTorrent 0 1] := by
    refine ⟨trivial, fun tm₁ reply hstep => ⟨fun t _ _ => ?_, fun _ _ _ => trivial⟩⟩
    have hqueues : tm₁.queueManager = (NewTorrentManager queuesConfig).queueManager := by
      rw [TorrentManager.step, if_pos ⟨rfl, nodup_nil, rfl⟩] at hstep
      cases hstep
      exact (quiet_AddTorrent [] pausedRequest).queues
    rw [hqueues]
    cases queueTypeOf t <;> rfl
  have hact : Goroutine.activated 1 .DownloadQueue ∉ tm.goroutines := by
    rw [hgs]
    exact not_mem_nil
  have hqueued : t.Status = QueueType.DownloadQueue.queuedStatus := hstatus
  have h := waits_of_guarded samplePlatform queuesConfig hrun hops ht hqueued hact
  exact ⟨tm, t, hrun, hops, ht, hstatus, hgs, h.1⟩

theorem started_nowhere :
    ((runSteps (TorrentManager.step samplePlatform) (NewTorrentManager emptyConfig)
        [.AddTorrent [] pausedRequest, .StartTorrent 0 1]).map fun tm => tm.report 1) =
      some ⟨some .QueuedDown, [], 0⟩ := by
  decide +kernel

/-- A directory with one file of one byte, in one piece with the hash zero. -/
def byteRequest : TorrentAddRequest :=
  ⟨[], [], [], utf8 "ZDQ6aW5mb2Q1OmZpbGVzbGQ2Omxlbmd0aGkxZTQ6cGF0aGwxOmFlZWU0Om5hbWUxOmQxMjpwaWVjZSBsZW5ndGhpMWU2OnBpZWNlczIwOgAAAAAAAAAAAAAAAAAAAAAAAAAAZWU=", true⟩

def reverify (valid : Bool) : List TmOp :=
  [.VerifyTorrent 1, .run 0 fun _ => some valid, .run 0 fun _ => none, .run 0 fun _ => none,
    .updateStats [1], .StopTorrent 1, .StartTorrent 0 1]

theorem activated_elsewhere :
    ((runSteps (TorrentManager.step samplePlatform) (NewTorrentManager queuesConfig)
        ([.AddTorrent [] byteRequest] ++ reverify true ++ [.UpdateSessionConfig (fun _ => none)
            { queuesConfig.SessionConfig with SeedQueueEnabled := false },
            .continueUpdate [] none, .continueUpdate [1] none] ++
          reverify false ++
          [.continueUpdate [] none, .run 0 fun _ => none])).map fun tm => tm.report 1) =
      some ⟨some .QueuedDown, [.active .SeedQueue], 0⟩ := by
  decide +kernel

end GoI2pBt.Rpc.TorrentManager
