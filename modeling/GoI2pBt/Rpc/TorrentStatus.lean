/-
  The status of a torrent while goroutines of the manager are pending: it stays what it is if no
  pending goroutine, no later request and no arriving metadata of that torrent writes it.
-/
import GoI2pBt.Rpc.TorrentQueues

namespace GoI2pBt.Rpc.TorrentManager

open List TorrentManager

variable {P : Platform} {tm tm' : TorrentManager} {id : Int64} {S : TorrentStatus} {op : TmOp}
  {reply : Reply}

/-- The goroutines that do not move torrent `id` away from status `S`. -/
def Spares (id : Int64) (S : TorrentStatus) : Goroutine → Prop
  | .activated _ _ => True
  | .assign r s => r.ID = id → s.status = S
  | .start r | .verify r | .verified r _ | .complete r _ => r.ID ≠ id

/-- The requests and responses that do not. -/
def Leaves (id : Int64) (S : TorrentStatus) (tm : TorrentManager) : TmOp → Prop
  | .StopTorrent k => k = id → S = .Stopped
  | .run _ _ => True
  | op => ¬ tm.Touches op id

structure Held (id : Int64) (S : TorrentStatus) (tm : TorrentManager) : Prop where
  status : ∀ {t}, tm.torrents.lookup id = some t → t.Status = S
  pending : ∀ g ∈ tm.goroutines, Spares id S g

theorem Held.frame {T} (h : Held id S tm) (hf : Frame T tm tm') (hT : ¬ T id) : Held id S tm' where
  status hl := by
    obtain ⟨t, ht, he⟩ := hf.status hT hl
    exact he.trans (h.status ht)
  pending g hg := by
    refine (hf.spawned g hg).elim (h.pending g) fun hc => ?_
    cases g with
    | activated k ty => trivial
    | assign r s => exact fun he => absurd (he ▸ hc) hT
    | start r | verify r | verified r _ | complete r _ => exact fun he => hT (he ▸ hc)

theorem Held.put {t} (hmap : tm'.torrents = tm.torrents.insert id t)
    (ht : t.Status = S) (hpending : ∀ g ∈ tm'.goroutines, Spares id S g) : Held id S tm' where
  status hl := by
    rw [hmap, Finmap.lookup_insert] at hl
    cases hl
    exact ht
  pending := hpending

theorem held_StopTorrent (h : ∀ g ∈ tm.goroutines, Spares id .Stopped g) :
    Held id .Stopped (tm.StopTorrent id).1 := by
  unfold StopTorrent
  cases hl : tm.torrents.lookup id with
  | none =>
    refine ⟨fun ht => ?_, h⟩
    rw [hl] at ht
    cases ht
  | some t => exact .put rfl rfl h

theorem Held.run (h : Held id S tm) (hf : Frame (tm.Touches op) tm tm')
    (hS : ∀ ty : QueueType, S ≠ ty.queuedStatus) {index verifyPiece}
    (hop : op = .run index verifyPiece) (he : tm.step P op = some (tm', reply)) :
    Held id S tm' := by
  subst hop
  by_cases hT : tm.Touches (.run index verifyPiece) id
  · -- only an assignment of `S` itself
    obtain ⟨g, hg, hw⟩ := hT
    have hspares := h.pending g (mem_of_getElem? hg)
    rw [step, hg] at he
    cases he
    cases g with
    | activated k ty =>
      obtain ⟨-, t, ht, hq⟩ := hw
      exact absurd ((h.status ht).symm.trans hq) (hS ty)
    | assign r s =>
      have herase : ∀ g ∈ tm.goroutines.eraseIdx index, Spares id S g :=
        fun g' hg' => h.pending g' (mem_of_mem_eraseIdx hg')
      cases hw
      rw [runGoroutine, modify]
      split
      · exact .put rfl (hspares rfl) herase
      · exact ⟨h.status, herase⟩
    | start r | verify r | verified r _ | complete r _ => exact absurd hw hspares
  · exact h.frame hf hT

theorem Held.step (h : Held id S tm) (hS : ∀ ty : QueueType, S ≠ ty.queuedStatus)
    (hown : ∀ {id t}, tm.torrents.lookup id = some t → t.ID = id) (hop : Leaves id S tm op)
    (he : tm.step P op = some (tm', reply)) : Held id S tm' := by
  obtain ⟨-, hf⟩ := step_frame hown he
  cases op with
  | run index verifyPiece => exact h.run hf hS rfl he
  | StopTorrent k =>
    by_cases hk : k = id
    · subst hk
      cases hop rfl
      cases he
      exact held_StopTorrent h.pending
    · exact h.frame hf (Ne.symm hk)
  | _ => exact h.frame hf hop

theorem Counted.step {bound n} (h : Counted bound n tm)
    (he : tm.step P op = some (tm', reply)) : ∃ m, Counted bound m tm' := by
  rcases h.effect (step_frame (fun hl => (h.own hl).1) he).1 with ⟨-, h'⟩ | ⟨-, h'⟩ <;>
    exact ⟨_, h'⟩

theorem Held.of_allowed {bound n ops} (h : Held id S tm)
    (hc : Counted bound n tm) (hd : S ≠ .QueuedDown) (hs : S ≠ .QueuedSeed)
    (hops : Allowed (TorrentManager.step P) (Leaves id S) tm ops)
    (hrun : runSteps (TorrentManager.step P) tm ops = some tm') : Held id S tm' := by
  have hstep : ∀ {tm op tm' reply}, (∃ m, Counted bound m tm) ∧ Held id S tm → Leaves id S tm op →
      tm.step P op = some (tm', reply) → (∃ m, Counted bound m tm') ∧ Held id S tm' := by
    rintro tm op tm' reply ⟨⟨m, hc⟩, h⟩ hop he
    exact ⟨hc.step he, h.step (ne_queuedStatus hd hs) (fun hl => (hc.own hl).1) hop he⟩
  exact (invariant_of_allowed hstep ⟨⟨n, hc⟩, h⟩ hops hrun).2

/-! ## Stopping -/

/-- **When a stopped torrent stays stopped.** -/
theorem stopped_stays (P : Platform) (config : TorrentManagerConfig)
    {before ops tm tm₁ tm' replies reply id}
    (hrun : runOutputs (TorrentManager.step P) (NewTorrentManager config) before = some (tm, replies))
    (hpending : ∀ g ∈ tm.goroutines, Spares id .Stopped g)
    (hstop : tm.step P (.StopTorrent id) = some (tm₁, reply))
    (hops : Allowed (TorrentManager.step P) (Leaves id .Stopped) tm₁ ops)
    (hlater : runSteps (TorrentManager.step P) tm₁ ops = some tm') :
    ∀ t, tm'.torrents.lookup id = some t → t.Status = .Stopped := by
  obtain ⟨m, hc⟩ := ((counted_new config).run hrun).1.step hstop
  cases hstop
  have hheld := held_StopTorrent hpending
  exact fun _ => (hheld.of_allowed hc (by decide) (by decide) hops hlater).status

def seedReport (tm : TorrentManager) : Option (TorrentStatus × ℚ × Bool) × List Goroutine :=
  ((tm.torrents.lookup 1).map fun t => (t.Status, t.PercentDone, t.MetaInfo.isSome), tm.goroutines)

/-- One download at a time. -/
def oneSlot : TorrentManagerConfig :=
  { queuesConfig with SessionConfig := { queuesConfig.SessionConfig with DownloadQueueSize := 1 } }

/-- The first torrent downloads, its activation by the queue is still pending, and the second one is
queued. -/
def busyOps : List TmOp :=
  [.AddTorrent [] pausedRequest, .AddTorrent [1] magnetRequest, .StartTorrentNow 1,
   .run 1 fun _ => none, .run 1 fun _ => none, .StartTorrent 0 2]

theorem stopped_stays_sample : ∃ (tm tm' : TorrentManager) (t : TorrentState),
    seedReport tm = (some (.Downloading, 0, true), [.activated 1 .DownloadQueue]) ∧
      tm.report 2 = ⟨some .QueuedDown, [.queued .DownloadQueue], 1⟩ ∧
      runSteps (TorrentManager.step samplePlatform) tm
        [.StopTorrent 1, .run 0 fun _ => none, .processQueues] = some tm' ∧
      tm'.goroutines = [.activated 2 .DownloadQueue] ∧
      tm'.torrents.lookup 1 = some t ∧ t.Status = .Stopped := by
  have hbefore : ((runOutputs (TorrentManager.step samplePlatform) (NewTorrentManager oneSlot)
      busyOps).map fun r => (seedReport r.1, r.1.report 2)) =
      some ((some (.Downloading, 0, true), [.activated 1 .DownloadQueue]),
        ⟨some .QueuedDown, [.queued .DownloadQueue], 1⟩) := by
    decide +kernel
  have hafter : ((runOutputs (TorrentManager.step samplePlatform) (NewTorrentManager oneSlot)
      busyOps).bind fun r => (runSteps (TorrentManager.step samplePlatform) r.1
        [.StopTorrent 1, .run 0 fun _ => none, .processQueues]).map seedReport) =
      some (some (.Stopped, 0, true), [.activated 2 .DownloadQueue]) := by
    decide +kernel
  obtain ⟨⟨tm, replies⟩, hrun, hbefore⟩ := Option.map_eq_some_iff.1 hbefore
  obtain ⟨hbefore, hreport⟩ := Prod.mk.inj hbefore
  rw [hrun, Option.bind_some] at hafter
  obtain ⟨tm', hall, hafter⟩ := Option.map_eq_some_iff.1 hafter
  obtain ⟨hseen, hgs⟩ := Prod.mk.inj hafter
  obtain ⟨t, ht, -⟩ := Option.map_eq_some_iff.1 hseen
  obtain ⟨⟨tm₁, reply⟩, hstop, hlater⟩ := Option.bind_eq_some_iff.1 hall
  have hpending : ∀ g ∈ tm.goroutines, Spares 1 .Stopped g := by
    simp [show tm.goroutines = _ from congrArg Prod.snd hbefore, Spares]
  have hops : Allowed (TorrentManager.step samplePlatform) (Leaves 1 .Stopped) tm₁
      [.run 0 fun _ => none, .processQueues] :=
    ⟨trivial, fun _ _ _ => ⟨fun hT => hT, fun _ _ _ => trivial⟩⟩
  have h := stopped_stays samplePlatform oneSlot hrun hpending hstop hops hlater
  exact ⟨tm, tm', t, hbefore, hreport, hall, hgs, ht, h t ht⟩

theorem stopped_then_downloading :
    (([[], [.run 0 fun _ => none, .run 0 fun _ => none]] : List (List TmOp)).map fun later =>
      (runSteps (TorrentManager.step samplePlatform) (NewTorrentManager emptyConfig)
        ([.AddTorrent [] { pausedRequest with Paused := false }, .StopTorrent 1] ++ later)).map
          fun tm => tm.report 1) =
      [some ⟨some .Stopped, [], 1⟩, some ⟨some .Downloading, [], 0⟩] := by
  decide +kernel

/-! ## Seeding -/

/-- The activations after which nothing is left to run that would make it a download: by the seed
queue, or of a torrent that is a seed already. -/
def SeedActivation (tm : TorrentManager) (t : TorrentState) : TmOp → Prop
  | .run i _ => tm.goroutines[i]? = some (.activated t.ID .SeedQueue) ∧ t.Status = .QueuedSeed
  | .StartTorrentNow k => k = t.ID ∧ t.Status = .Seeding
  | _ => False

theorem SeedActivation.held {t} (h : SeedActivation tm t op) (ht : tm.torrents.lookup t.ID = some t)
    (hpending : ∀ g ∈ tm.goroutines, Spares t.ID .Seeding g)
    (he : tm.step P op = some (tm', reply)) : Held t.ID .Seeding tm' := by
  cases op with
  | run index verifyPiece =>
    obtain ⟨hg, hstatus⟩ := h
    rw [step, hg] at he
    cases he
    rw [runGoroutine, onTorrentActivated, ht]
    dsimp only
    rw [if_pos (show t.Status = QueueType.SeedQueue.queuedStatus from hstatus)]
    refine .put rfl rfl fun g hg => ?_
    rcases mem_append.1 hg with hg | hg
    · exact hpending g (mem_of_mem_eraseIdx hg)
    · cases mem_singleton.1 hg
      exact fun _ => rfl
  | StartTorrentNow k =>
    obtain ⟨rfl, hstatus⟩ := h
    cases he
    rw [StartTorrentNow, ht]
    dsimp only
    rw [if_pos (show started t from .inr hstatus)]
    refine ⟨fun ht' => ?_, hpending⟩
    rw [ht] at ht'
    cases ht'
    exact hstatus
  | _ => exact h.elim

/-- **When a seeding torrent stays seeding.** -/
theorem seeding_stays (P : Platform) (config : TorrentManagerConfig)
    {before ops tm tm₁ tm' replies reply op t}
    (hrun : runOutputs (TorrentManager.step P) (NewTorrentManager config) before = some (tm, replies))
    (ht : tm.torrents.lookup t.ID = some t) (hop : SeedActivation tm t op)
    (hpending : ∀ g ∈ tm.goroutines, Spares t.ID .Seeding g)
    (hstep : tm.step P op = some (tm₁, reply))
    (hops : Allowed (TorrentManager.step P) (Leaves t.ID .Seeding) tm₁ ops)
    (hlater : runSteps (TorrentManager.step P) tm₁ ops = some tm') :
    ∀ t', tm'.torrents.lookup t.ID = some t' → t'.Status = .Seeding := by
  obtain ⟨m, hc⟩ := ((counted_new config).run hrun).1.step hstep
  have hheld := hop.held ht hpending hstep
  exact fun _ => (hheld.of_allowed hc (by decide) (by decide) hops hlater).status

theorem seeding_stays_sample : ∃ (tm tm₁ : TorrentManager) (t : TorrentState) (reply : Reply),
    t.PercentDone = 1 ∧ SeedActivation tm t (.run 0 fun _ => none) ∧
      tm.step samplePlatform (.run 0 fun _ => none) = some (tm₁, reply) ∧
      ∀ t', tm₁.torrents.lookup t.ID = some t' → t'.Status = .Seeding := by
  have hreport : ((runOutputs (TorrentManager.step samplePlatform) (NewTorrentManager queuesConfig)
      ([.AddTorrent [] byteRequest] ++ reverify true ++ [.UpdateSessionConfig (fun _ => none)
          { queuesConfig.SessionConfig with SeedQueueEnabled := false },
          .continueUpdate [] none, .continueUpdate [1] none, .continueUpdate [] none])).map
        fun r => seedReport r.1) =
      some (some (.QueuedSeed, 1, true), [.activated 1 .SeedQueue]) := by
    decide +kernel
  obtain ⟨⟨tm, replies⟩, hrun, hreport⟩ := Option.map_eq_some_iff.1 hreport
  obtain ⟨hseen, hgs⟩ := Prod.mk.inj hreport
  obtain ⟨t, ht, hseen⟩ := Option.map_eq_some_iff.1 hseen
  obtain ⟨hstatus, hdone⟩ := Prod.mk.inj hseen
  have hID : t.ID = 1 := (((counted_new queuesConfig).run hrun).1.own ht).1
  rw [← hID] at ht
  have hg : tm.goroutines = [.activated t.ID .SeedQueue] := by
    rw [hID]
    exact hgs
  have hop : SeedActivation tm t (.run 0 fun _ => none) := ⟨by rw [hg]; rfl, hstatus⟩
  obtain ⟨tm₁, reply, hstep⟩ : ∃ tm₁ reply, tm.step samplePlatform (.run 0 fun _ => none) =
      some (tm₁, reply) := ⟨_, _, by rw [TorrentManager.step, hop.1]⟩
  have hops : Allowed (TorrentManager.step samplePlatform) (Leaves t.ID .Seeding) tm₁ [] := trivial
  exact ⟨tm, tm₁, t, reply, (Prod.mk.inj hdone).1, hop, hstep, seeding_stays samplePlatform
    queuesConfig hrun ht hop (by simp [hg, Spares]) hstep hops rfl⟩

theorem seed_then_downloading :
    (([[], [.run 0 fun _ => none, .run 0 fun _ => none, .run 0 fun _ => none]] :
      List (List TmOp)).map fun later =>
        (runSteps (TorrentManager.step samplePlatform) (NewTorrentManager queuesConfig)
          ([.AddTorrent [] byteRequest] ++ (reverify true).dropLast ++ [.StartTorrentNow 1] ++
            later)).map fun tm => (seedReport tm).1) =
      [some (some (.Seeding, 1, true)), some (some (.Downloading, 1, true))] := by
  decide +kernel

end GoI2pBt.Rpc.TorrentManager
