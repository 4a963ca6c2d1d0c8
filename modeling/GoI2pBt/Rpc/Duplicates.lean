/-
  When a torrent that is added twice is answered as a duplicate.
-/
import GoI2pBt.Rpc.Server
import GoI2pBt.Rpc.TorrentIds

namespace GoI2pBt.Rpc

open List Metainfo TorrentManager

def TorrentManager.Own (tm : TorrentManager) : Prop :=
  ∀ id t, tm.torrents.lookup id = some t → t.ID = id

/-- The torrents of every state that a manager reaches are stored under their IDs. -/
theorem TorrentManager.own_of_run {P config ops tm outs}
    (hrun : runOutputs (TorrentManager.step P) (NewTorrentManager config) ops = some (tm, outs)) :
    tm.Own :=
  fun _ _ ht => (((counted_new config).run hrun).1.own ht).1

namespace RPCMethods

variable {K : Packages} {o : Outside} {m : RPCMethods} {req : TorrentAddRequest} {T : TorrentState}
  {metaInfo : MetaInfo} {id : Int64}

structure AddsAgain (K : Packages) (m : RPCMethods) (req : TorrentAddRequest) (T : TorrentState) :
    Prop where
  room : m.manager.torrents.keys.card < m.manager.MaxTorrents
  given : req.Metainfo ≠ []
  parsed : ∃ metaInfo, parseMetainfoData K.platform req.Metainfo = .ok (some metaInfo, T.InfoHash)
  stored : m.manager.torrents.lookup T.ID = some T

def AnswersDuplicate (T : TorrentState) (r : Outcome) : Prop :=
  ∃ view, r = .ok (.torrentDuplicate view) ∧ view.ID = T.ID ∧ view.HashString = hexOf T.InfoHash

theorem AddsAgain.AddTorrent (h : AddsAgain K m req T) {order}
    (ho : Ranges order m.manager.torrents) : ∃ existing,
    m.manager.AddTorrent K.platform order req =
      (m.manager, .error (.text "torrent already exists", some existing)) := by
  obtain ⟨metaInfo, hparse⟩ := h.parsed
  have hlimit : m.manager.validateTorrentLimit = none := if_neg (not_le.2 h.room)
  have hreq : parseAddTorrentRequest K.platform req = .ok (some metaInfo, T.InfoHash) := by
    rw [parseAddTorrentRequest, if_pos h.given, hparse]
  cases hdup : m.manager.findDuplicateTorrent order T.InfoHash with
  | none => exact absurd rfl (findByInfoHash_eq_none ho hdup h.stored)
  | some existing =>
    refine ⟨existing, ?_⟩
    simp only [TorrentManager.AddTorrent, hlimit, hreq, hdup]

theorem contains_already :
    contains (utf8 "torrent already exists") (utf8 "already exists") = true := by
  decide +kernel

theorem AddsAgain.TorrentAdd (h : AddsAgain K m req T) (ho : Ranges o.order m.manager.torrents)
    {t} (hlast : (m.GetAllTorrents o).getLast? = some t) :
    m.TorrentAdd K o req = (m, .ok (.torrentDuplicate (m.convertTorrentStateToTorrent K t))) := by
  obtain ⟨existing, hadd⟩ := h.AddTorrent ho
  simp only [RPCMethods.TorrentAdd, hadd, TmError.message, contains_already, if_true, hlast]
  rw [if_pos h.given]

theorem ranges_concat (hid : id ∈ m.manager.torrents.keys) :
    Ranges ((m.manager.torrents.keys.erase id).toList ++ [id]) m.manager.torrents := by
  refine ⟨?_, ?_⟩
  · rw [nodup_append_comm, singleton_append, nodup_cons]
    exact ⟨by simp, Finset.nodup_toList _⟩
  · rw [toFinset_append, Finset.toList_toFinset, toFinset_cons, toFinset_nil,
      insert_empty_eq, Finset.union_comm, ← Finset.insert_eq, Finset.insert_erase hid]

theorem getLast?_GetAllTorrents (order : List Int64) {t}
    (horder : o.order = order ++ [id]) (ht : m.manager.torrents.lookup id = some t) :
    (m.GetAllTorrents o).getLast? = some t := by
  have hid : [id].filterMap (m.manager.torrents.lookup ·) = [t] := by simp [ht]
  rw [GetAllTorrents, horder, filterMap_append, hid, getLast?_concat]

theorem eq_singleton_of_ranges {order} (ho : Ranges order m.manager.torrents)
    (hkeys : m.manager.torrents.keys = {id}) : order = [id] := by
  have hlen : order.length = 1 := by
    rw [← toFinset_card_of_nodup ho.1, ho.2, hkeys, Finset.card_singleton]
  obtain ⟨id', rfl⟩ := length_eq_one_iff.1 hlen
  have hmem : id' ∈ ({id} : Finset Int64) := by
    rw [← hkeys, ← ho.2]
    simp
  rw [Finset.mem_singleton.1 hmem]

/-- **A duplicate is named only if it is the only torrent.** -/
theorem answersDuplicate_iff (hown : m.manager.Own) (h : AddsAgain K m req T) :
    (∀ o, Ranges o.order m.manager.torrents → AnswersDuplicate T (m.TorrentAdd K o req).2) ↔
      m.manager.torrents.keys = {T.ID} := by
  have hT : T.ID ∈ m.manager.torrents.keys := by
    rw [Finmap.mem_keys]
    exact Finmap.lookup_isSome.1 (by rw [h.stored]; rfl)
  constructor
  · intro hall
    by_contra hkeys
    -- another torrent, and a walk that ends with it
    obtain ⟨id, hid, hne⟩ : ∃ id ∈ m.manager.torrents.keys, id ≠ T.ID := by
      by_contra hnone
      push Not at hnone
      exact hkeys (Finset.eq_singleton_iff_unique_mem.2 ⟨hT, hnone⟩)
    obtain ⟨t, ht⟩ := Finmap.mem_iff.1 (Finmap.mem_keys.1 hid)
    let o : Outside := ⟨(m.manager.torrents.keys.erase id).toList ++ [id], 0, fun _ => false, false⟩
    have ho : Ranges o.order m.manager.torrents := ranges_concat hid
    obtain ⟨view, hview, hID, -⟩ := hall o ho
    rw [h.TorrentAdd ho (getLast?_GetAllTorrents _ rfl ht)] at hview
    cases hview
    exact hne ((hown id t ht).symm.trans hID)
  · intro hkeys o ho
    have hlast : (m.GetAllTorrents o).getLast? = some T := by
      refine getLast?_GetAllTorrents [] ?_ h.stored
      exact eq_singleton_of_ranges ho hkeys
    rw [h.TorrentAdd ho hlast]
    exact ⟨_, rfl, rfl, rfl⟩

def plainPackages : Packages :=
  { Server.samplePackages with platform := { samplePlatform with sha1 := Hash.ofBytes } }

def emptyInfoRequest : TorrentAddRequest := ⟨[], [], [], utf8 "ZDQ6aW5mb2RlZQ==", true⟩

def methodsOf (tm : TorrentManager) : RPCMethods := ⟨tm, ⟨false, ∅⟩, ⟨false, [], none, false, 0⟩⟩

def oneTorrent : RPCMethods :=
  methodsOf ((NewTorrentManager emptyConfig).AddTorrent plainPackages.platform [] pausedRequest).1

def twoTorrents : RPCMethods :=
  methodsOf (oneTorrent.manager.AddTorrent plainPackages.platform [1] emptyInfoRequest).1

def firstTorrent : TorrentState where
  address := 0
  ID := 1
  InfoHash := .ofBytes []
  MetaInfo := some ⟨[], [], [], [], [], 0, [], [], []⟩
  DownloadDir := utf8 "downloads"
  Labels := []
  Status := .Stopped
  Files := []
  Priorities := []
  Wanted := []
  TrackerList := []
  Downloaded := 0
  Left := 0
  PercentDone := 0

theorem parse_firstTorrent : parseMetainfoData plainPackages.platform pausedRequest.Metainfo =
    .ok (firstTorrent.MetaInfo, firstTorrent.InfoHash) :=
  parse_pausedRequest

theorem answersDuplicate_sample :
    oneTorrent.manager.Own ∧ AddsAgain plainPackages oneTorrent pausedRequest firstTorrent ∧
      ∀ o, Ranges o.order oneTorrent.manager.torrents →
        AnswersDuplicate firstTorrent (oneTorrent.TorrentAdd plainPackages o pausedRequest).2 := by
  have hmap : oneTorrent.manager.torrents = Finmap.singleton 1 firstTorrent := by decide +kernel
  have hkeys : oneTorrent.manager.torrents.keys = {firstTorrent.ID} := by
    rw [hmap, Finmap.keys_singleton]
    rfl
  have hrun : runOutputs (TorrentManager.step plainPackages.platform) (NewTorrentManager emptyConfig)
      [.AddTorrent [] pausedRequest] = some (oneTorrent.manager, [.ok (some firstTorrent)]) := rfl
  have hown : oneTorrent.manager.Own := own_of_run hrun
  have hadds : AddsAgain plainPackages oneTorrent pausedRequest firstTorrent :=
    { room := by rw [hkeys]; decide
      given := by decide
      parsed := ⟨_, parse_firstTorrent⟩
      stored := by rw [hmap]; exact Finmap.lookup_singleton_eq }
  exact ⟨hown, hadds, (answersDuplicate_iff hown hadds).2 hkeys⟩

theorem duplicate_other : AddsAgain plainPackages twoTorrents pausedRequest firstTorrent ∧
      Ranges [1, 2] twoTorrents.manager.torrents ∧
      ∃ view, (twoTorrents.TorrentAdd plainPackages ⟨[1, 2], 0, fun _ => false, false⟩
          pausedRequest).2 = .ok (.torrentDuplicate view) ∧
        view.ID = 2 ∧ view.HashString = hexOf (.ofBytes (utf8 "de")) ∧ firstTorrent.ID = 1 := by
  have hadds : AddsAgain plainPackages twoTorrents pausedRequest firstTorrent :=
    { room := by decide +kernel
      given := by decide
      parsed := ⟨_, parse_firstTorrent⟩
      stored := by decide +kernel }
  have ho : Ranges [1, 2] twoTorrents.manager.torrents := by decide +kernel
  have hident : (twoTorrents.manager.torrents.lookup 2).map ident = some (2, .ofBytes (utf8 "de")) := by
    decide +kernel
  obtain ⟨t, ht, hid⟩ := Option.map_eq_some_iff.1 hident
  obtain ⟨hID, hhash⟩ := Prod.mk.inj hid
  refine ⟨hadds, ho, twoTorrents.convertTorrentStateToTorrent plainPackages t, ?_, hID,
    congrArg hexOf hhash, rfl⟩
  rw [hadds.TorrentAdd ho (getLast?_GetAllTorrents [1] rfl ht)]

end RPCMethods

end GoI2pBt.Rpc
