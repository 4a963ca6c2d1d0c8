/-
  The messages of peer exchange.
-/
import GoI2pBt.Bencode.Dicts
import GoI2pBt.PeerProtocol.Extension

namespace GoI2pBt.PeerProtocol

open List Bencode

/-! ## Addresses and peers -/

namespace CompactIP

variable {ci : Bytes}

def Valid (ci : Bytes) : Prop := ci.length = 4 ∨ ci.length = 16 ∨ ci.length = 32

instance (ci : Bytes) : Decidable (Valid ci) :=
  inferInstanceAs (Decidable (ci.length = 4 ∨ ci.length = 16 ∨ ci.length = 32))

theorem Valid.length_lt (h : Valid ci) : ci.length < 2 ^ 31 := by
  rcases h with h | h | h <;> rw [h] <;> decide

variable {env : ExtEnv}

theorem marshalBencode_of_valid (hkeys : env.KeepsHashes) (h : Valid ci) :
    MarshalBencode env ci = .ok (Tree.str (formatUint ci.length) ci).bytes := by
  have hc : Codec env.toEnv (.slice (.uint 8)) (bytesVal ci) _ (bytesVal ci) :=
    codec_bytes h.length_lt
  have hwrites : EncodeBytes env.toEnv (.iface (.slice (.uint 8)) (bytesVal ci)) =
      .ok (Tree.str (formatUint ci.length) ci).bytes := hc.writes false
  rw [MarshalBencode, hwrites]
  split_ifs with h4 h16 h32
  · rfl
  · rfl
  · rw [hkeys ci h32]
    exact hwrites
  · rcases h with h | h | h
    · exact absurd h h4
    · exact absurd h h16
    · exact absurd h h32

theorem unmarshalBencode_append (hkeys : env.KeepsHashes) {len} (hlen : 0 < len.length)
    (hlen' : len.length ≤ 3) (h : Valid ci) : UnmarshalBencode env (len ++ ci) = .ok ci := by
  have hlast : (len ++ ci).drop ((len ++ ci).length - ci.length) = ci := by
    rw [length_append, Nat.add_sub_cancel, drop_left]
  have hall : (len ++ ci).length = len.length + ci.length := length_append
  rw [UnmarshalBencode]
  rcases h with h | h | h
  · have hto : to4 ci = ci := by rw [to4, if_pos h]
    rw [h] at hlast
    simp only [hlast, hto, ite_self]
    rw [if_pos (by omega)]
  · have hto : to16 ci = ci := by rw [to16, if_neg (by omega), if_pos h]
    rw [h] at hlast
    simp only [hlast, hto, ite_self]
    rw [if_neg (by omega), if_pos (by omega)]
  · rw [h] at hlast
    simp only [hlast, hkeys ci h]
    rw [if_neg (by omega), if_neg (by omega), if_pos (by omega)]

theorem unmarshalBencode_of_valid (hkeys : env.KeepsHashes) (h : Valid ci) :
    UnmarshalBencode env (Tree.str (formatUint ci.length) ci).bytes = .ok ci := by
  have hlen : 0 < (formatUint ci.length).length ∧ (formatUint ci.length).length ≤ 2 := by
    rcases h with h | h | h <;> rw [h] <;> decide
  have hbytes : (Tree.str (formatUint ci.length) ci).bytes =
      (formatUint ci.length ++ [ch ':']) ++ ci := by
    rw [Tree.bytes, append_assoc, singleton_append]
  rw [hbytes]
  refine unmarshalBencode_append hkeys (by simp) ?_ h
  rw [length_append]
  exact Nat.add_le_add_right hlen.2 1

theorem codec (hkeys : env.KeepsHashes) (h : Valid ci) :
    Codec (extEnv env) type (bytesVal ci) (.str (formatUint ci.length) ci) (bytesVal ci) := by
  refine codec_marshaler rfl rfl rfl (Tree.strOk_formatUint h.length_lt)
    (Tree.digitFirst_formatUint _) ?_ ?_
  · rw [valBytes_bytesVal]
    exact marshalBencode_of_valid hkeys h
  · rw [unmarshalBencode_of_valid hkeys h]
    rfl

end CompactIP

structure CompactPeer where
  ip : Bytes
  port : UInt16
deriving DecidableEq

namespace CompactPeer

def fields : List (Field × GoType) := [(tagged "IP" "ip", CompactIP.type),
   (tagged "Port" "port", .uint 16)]

def type : GoType := .named "CompactPeer" (.struct fields)

def toGo (cp : CompactPeer) : GoVal := .struct [bytesVal cp.ip, .uint cp.port.toNat]

def ofGo (v : GoVal) : CompactPeer where
  ip := valBytes (fieldOf v 0)
  port := .ofNat (uintOf (fieldOf v 1))

def names : List (List Char) := ["ip".toList, "port".toList]

theorem names_nodup : (names.map keyBytes).Nodup := by decide +kernel

theorem tagIs_port : tagIs "port" "port".toList false := by decide +kernel

variable {env : ExtEnv}

def rows (hkeys : env.KeepsHashes) {cp : CompactPeer} (h : CompactIP.Valid cp.ip) :
    List (Row (extEnv env)) :=
  [Row.tagged "IP" "ip" "ip".toList false fun _ => CompactIP.codec hkeys h,
   Row.tagged "Port" "port" "port".toList false
     (fun _ => codec_uint (by decide) cp.port.toNat_lt) rfl tagIs_port]

theorem codec (hkeys : env.KeepsHashes) {cp} (h : CompactIP.Valid cp.ip) :
    ∃ x back, ofGo back = cp ∧ Codec (extEnv env) type cp.toGo x back := by
  have henv : (extEnv env).methods "CompactPeer" = {} := rfl
  have hnodup : ((rows hkeys h).map Row.key).Nodup := names_nodup
  obtain ⟨x, hx⟩ := codec_struct henv hnodup
  refine ⟨x, cp.toGo, ?_, hx⟩
  simp [ofGo, toGo, fieldOf, uintOf]

end CompactPeer

/-! ## Messages -/

@[ext]
structure UtPexExtendedMsg where
  added : List CompactPeer
  addedF : Bytes
  added6 : List CompactPeer
  added6F : Bytes
  dropped : List CompactPeer
  dropped6 : List CompactPeer
deriving DecidableEq

namespace UtPexExtendedMsg

def peersType : GoType := .slice CompactPeer.type

def fields : List (Field × GoType) := [(tagged "Added" "added", peersType),
   (tagged "AddedF" "added.f", .slice (.uint 8)),
   (tagged "Added6" "added6", peersType),
   (tagged "Added6F" "added6.f", .slice (.uint 8)),
   (tagged "Dropped" "dropped", peersType),
   (tagged "Dropped6" "dropped6", peersType)]

def type : GoType := .named "UtPexExtendedMsg" (.struct fields)

def peersToGo (isNil : Bool) (ps : List CompactPeer) : GoVal :=
  sliceVal isNil (ps.map CompactPeer.toGo)

def peersOfGo (v : GoVal) : List CompactPeer := (elemsOf v).1.map CompactPeer.ofGo

def toGo (nils : String → Bool) (pm : UtPexExtendedMsg) : GoVal := .struct
  [peersToGo (nils "Added") pm.added, bytesGo (nils "AddedF") pm.addedF,
   peersToGo (nils "Added6") pm.added6, bytesGo (nils "Added6F") pm.added6F,
   peersToGo (nils "Dropped") pm.dropped, peersToGo (nils "Dropped6") pm.dropped6]

def ofGo (v : GoVal) : UtPexExtendedMsg where
  added := peersOfGo (fieldOf v 0)
  addedF := valBytes (fieldOf v 1)
  added6 := peersOfGo (fieldOf v 2)
  added6F := valBytes (fieldOf v 3)
  dropped := peersOfGo (fieldOf v 4)
  dropped6 := peersOfGo (fieldOf v 5)

def EncodeToPayload (env : ExtEnv) (nils : String → Bool) (pm : UtPexExtendedMsg) (buf : Bytes) :
    Except Error Bytes := do
  let b ← EncodeBytes (extEnv env) (.iface type (pm.toGo nils))
  return buf ++ b

def EncodeToBytes (env : ExtEnv) (nils : String → Bool) (pm : UtPexExtendedMsg) :
    Except Error Bytes := pm.EncodeToPayload env nils []

def DecodeFromPayload (env : ExtEnv) (b : Bytes) : Except Error UtPexExtendedMsg :=
  (DecodeBytes (extEnv env) b type (zero type)).map ofGo

structure Valid (pm : UtPexExtendedMsg) : Prop where
  added : ∀ cp ∈ pm.added, CompactIP.Valid cp.ip
  added6 : ∀ cp ∈ pm.added6, CompactIP.Valid cp.ip
  dropped : ∀ cp ∈ pm.dropped, CompactIP.Valid cp.ip
  dropped6 : ∀ cp ∈ pm.dropped6, CompactIP.Valid cp.ip

def names : List (List Char) :=
  ["added".toList, "added.f".toList, "added6".toList, "added6.f".toList, "dropped".toList,
   "dropped6".toList]

theorem names_nodup : (names.map keyBytes).Nodup := by decide +kernel

variable {env : ExtEnv}

theorem codec_peers (hkeys : env.KeepsHashes) (isNil : Bool) {ps}
    (h : ∀ cp ∈ ps, CompactIP.Valid cp.ip) :
    ∃ x back, peersOfGo back = ps ∧ Codec (extEnv env) peersType (peersToGo isNil ps) x back := by
  obtain ⟨xs, bs, hbs, hcs⟩ := exists_codecs (P := fun cp back => CompactPeer.ofGo back = cp)
    fun cp hcp => CompactPeer.codec hkeys (h cp hcp)
  obtain ⟨back, hback, hc⟩ := codec_sliceVal_always (t := peersType) rfl trivial rfl isNil hcs
  refine ⟨.list xs, back, ?_, hc⟩
  rw [peersOfGo, hback]
  clear hc hcs hback h
  induction hbs with
  | nil => rfl
  | cons hb _ ih => rw [map_cons, hb, ih]

def rows (env : ExtEnv) (nils : String → Bool) (pm : UtPexExtendedMsg)
    (hf : pm.addedF.length < 2 ^ 31) (hf6 : pm.added6F.length < 2 ^ 31) {x₁ x₂ x₃ x₄ : Tree}
    {b₁ b₂ b₃ b₄ : GoVal}
    (h₁ : Codec (extEnv env) peersType (peersToGo (nils "Added") pm.added) x₁ b₁)
    (h₂ : Codec (extEnv env) peersType (peersToGo (nils "Added6") pm.added6) x₂ b₂)
    (h₃ : Codec (extEnv env) peersType (peersToGo (nils "Dropped") pm.dropped) x₃ b₃)
    (h₄ : Codec (extEnv env) peersType (peersToGo (nils "Dropped6") pm.dropped6) x₄ b₄) :
    List (Row (extEnv env)) :=
  [Row.tagged "Added" "added" "added".toList false (fun _ => h₁) (isNilValue_sliceVal _ _),
   Row.tagged "AddedF" "added.f" "added.f".toList false
     (fun _ => codec_bytesGo_always (nils "AddedF") hf) (isNilValue_sliceVal _ _),
   Row.tagged "Added6" "added6" "added6".toList false (fun _ => h₂) (isNilValue_sliceVal _ _),
   Row.tagged "Added6F" "added6.f" "added6.f".toList false
     (fun _ => codec_bytesGo_always (nils "Added6F") hf6) (isNilValue_sliceVal _ _),
   Row.tagged "Dropped" "dropped" "dropped".toList false (fun _ => h₃) (isNilValue_sliceVal _ _),
   Row.tagged "Dropped6" "dropped6" "dropped6".toList false (fun _ => h₄)
     (isNilValue_sliceVal _ _)]

theorem encode_dict (hkeys : env.KeepsHashes) (nils : String → Bool) {pm : UtPexExtendedMsg}
    (h : pm.Valid) :
    ∃ es : List (Entry Tree), pm.EncodeToBytes env nils = .ok (Tree.dict es).bytes ∧
      (∀ e ∈ es, Tree.StrOk e.len e.key ∧ (e.val.WF ∨ ∃ f, e.val = .str (formatUint f.length) f)) ∧
      ∀ f ∈ [pm.addedF, pm.added6F], ∃ e ∈ es, e.val = .str (formatUint f.length) f := by
  obtain ⟨x1, b1, -, h1⟩ := codec_peers hkeys (nils "Added") h.added
  obtain ⟨x2, b2, -, h2⟩ := codec_peers hkeys (nils "Added6") h.added6
  obtain ⟨x3, b3, -, h3⟩ := codec_peers hkeys (nils "Dropped") h.dropped
  obtain ⟨x4, b4, -, h₄⟩ := codec_peers hkeys (nils "Dropped6") h.dropped6
  have htags : tagIs "added" "added".toList false ∧ tagIs "added.f" "added.f".toList false ∧
      tagIs "added6" "added6".toList false ∧ tagIs "added6.f" "added6.f".toList false ∧
      tagIs "dropped" "dropped".toList false ∧ tagIs "dropped6" "dropped6".toList false := by
    decide +kernel
  let flags := fun f : Bytes => Tree.str (formatUint f.length) f
  let trees := [x1, flags pm.addedF, x2, flags pm.added6F, x3, x4]
  obtain ⟨qs, hp, hq⟩ := writeDict_trees (extEnv env) ((names.map keyBytes).zip trees)
  have hread : readStruct (extEnv env) false fields
      [peersToGo (nils "Added") pm.added, bytesGo (nils "AddedF") pm.addedF,
       peersToGo (nils "Added6") pm.added6, bytesGo (nils "Added6F") pm.added6F,
       peersToGo (nils "Dropped") pm.dropped, peersToGo (nils "Dropped6") pm.dropped6] =
      ((names.map keyBytes).zip trees).map fun p => (p.1, .ok p.2.bytes) := by
    have hpeers : ∀ isNil ps, isNilValue (peersToGo isNil ps) = false :=
      fun _ _ => isNilValue_sliceVal _ _
    have hbytes : ∀ isNil b, isNilValue (bytesGo isNil b) = false :=
      fun _ _ => isNilValue_sliceVal _ _
    rw [fields, readStruct_tagged htags.1 (hpeers _ _) (h1.writes false),
      readStruct_tagged htags.2.1 (hbytes _ _) (encodeFrom_bytesGo _ _ false),
      readStruct_tagged htags.2.2.1 (hpeers _ _) (h2.writes false),
      readStruct_tagged htags.2.2.2.1 (hbytes _ _) (encodeFrom_bytesGo _ _ false),
      readStruct_tagged htags.2.2.2.2.1 (hpeers _ _) (h3.writes false),
      readStruct_tagged htags.2.2.2.2.2 (hpeers _ _) (h₄.writes false)]
    rfl
  have henc : EncodeBytes (extEnv env) (.iface type (pm.toGo nils)) =
      .ok (Tree.dict (qs.map entryOf)).bytes := by
    rw [← hq, ← hread]
    rfl
  refine ⟨qs.map entryOf, ?_, ?_, ?_⟩
  · rw [EncodeToBytes, EncodeToPayload, henc]
    rfl
  · intro e he
    obtain ⟨q, hqmem, rfl⟩ := mem_map.1 he
    have hmem := hp.mem_iff.1 hqmem
    have hkeys : ∀ k ∈ names.map keyBytes, k.length < 2 ^ 31 := by decide +kernel
    have htrees : ∀ x ∈ trees, x.WF ∨ ∃ f, x = .str (formatUint f.length) f :=
      forall_iff_forall_mem.1 ⟨.inl h1.wf, .inr ⟨_, rfl⟩, .inl h2.wf, .inr ⟨_, rfl⟩,
        .inl h3.wf, .inl h₄.wf⟩
    obtain ⟨k, x⟩ := q
    obtain ⟨hk, hx⟩ := of_mem_zip hmem
    exact ⟨Tree.strOk_formatUint (hkeys k hk), htrees x hx⟩
  · intro f hf
    have hmem : ∃ q ∈ (names.map keyBytes).zip trees, q.2 = flags f := by
      rcases mem_pair.1 hf with rfl | rfl
      · exact ⟨_, .tail _ (.head _), rfl⟩
      · exact ⟨_, .tail _ (.tail _ (.tail _ (.head _))), rfl⟩
    obtain ⟨q, hqmem, hqf⟩ := hmem
    exact ⟨entryOf q, mem_map_of_mem (hp.mem_iff.2 hqmem), hqf⟩

theorem flags_lt_of_decode (hkeys : env.KeepsHashes) {nils : String → Bool}
    {pm pm' : UtPexExtendedMsg} {b : Bytes} (h : pm.Valid) (henc : pm.EncodeToBytes env nils = .ok b)
    (hdec : DecodeFromPayload env b = .ok pm') :
    ∀ f ∈ [pm.addedF, pm.added6F], f.length < 2 ^ 31 := by
  intro f hf
  obtain ⟨es, hes, hall, hflags⟩ := encode_dict hkeys nils h
  obtain ⟨e, he, hval⟩ := hflags f hf
  rw [hes] at henc
  cases henc
  rw [DecodeFromPayload, except_map_eq_ok] at hdec
  obtain ⟨v, hv, -⟩ := hdec
  obtain ⟨x, s, hx, hb, -⟩ := decodeBytes_ok_iff.1 hv
  have hwf := wf_of_dict hall hx hb e he
  rw [hval] at hwf
  exact Tree.StrOk.length_lt hwf

def RoundTrips (env : ExtEnv) (pm : UtPexExtendedMsg) : Prop :=
  ∀ nils, ∃ b, pm.EncodeToBytes env nils = .ok b ∧ DecodeFromPayload env b = .ok pm

/-- **Peer-exchange messages.** A message that is encoded is decoded as it was, if its flags are
shorter than `2 ^ 31` bytes. -/
theorem roundTrips_of_flags {env : ExtEnv} (hkeys : env.KeepsHashes) {pm : UtPexExtendedMsg}
    (h : pm.Valid)
    (hf : pm.addedF.length < 2 ^ 31) (hf6 : pm.added6F.length < 2 ^ 31) : pm.RoundTrips env := by
  intro nils
  obtain ⟨x₁, b₁, hb₁, h₁⟩ := codec_peers hkeys (nils "Added") h.added
  obtain ⟨x₂, b₂, hb₂, h₂⟩ := codec_peers hkeys (nils "Added6") h.added6
  obtain ⟨x₃, b₃, hb₃, h₃⟩ := codec_peers hkeys (nils "Dropped") h.dropped
  obtain ⟨x₄, b₄, hb₄, h₄⟩ := codec_peers hkeys (nils "Dropped6") h.dropped6
  have henv : (extEnv env).methods "UtPexExtendedMsg" = {} := rfl
  have hnodup : ((rows env nils pm hf hf6 h₁ h₂ h₃ h₄).map Row.key).Nodup := names_nodup
  obtain ⟨x, hx⟩ := codec_struct henv hnodup
  have henc : EncodeBytes (extEnv env) (.iface type (pm.toGo nils)) = .ok x.bytes := hx.writes false
  have hdec : DecodeBytes (extEnv env) x.bytes type (zero type) =
      .ok (.struct ((rows env nils pm hf hf6 h₁ h₂ h₃ h₄).map Row.back)) :=
    decodeBytes_ok_iff.2 ⟨x, [], hx.wf, (append_nil _).symm, hx.reads⟩
  refine ⟨x.bytes, ?_, ?_⟩
  · rw [EncodeToBytes, EncodeToPayload, henc]
    rfl
  · rw [DecodeFromPayload, hdec]
    refine congrArg Except.ok (UtPexExtendedMsg.ext hb₁ ?_ hb₂ ?_ hb₃ hb₄)
    · exact valBytes_bytesVal _
    · exact valBytes_bytesVal _

def sampleMsg : UtPexExtendedMsg where
  added := [⟨[1, 2, 3, 4], 6881⟩, ⟨replicate 32 7, 0⟩]
  addedF := [0, 1]
  added6 := [⟨replicate 16 9, 65535⟩]
  added6F := utf8 "e"
  dropped := []
  dropped6 := [⟨replicate 16 0, 80⟩]

theorem valid_sampleMsg : sampleMsg.Valid where
  added := by decide
  added6 := by decide
  dropped := by decide
  dropped6 := by decide

theorem roundTrips_sampleMsg : sampleMsg.RoundTrips sampleExtEnv :=
  roundTrips_of_flags keepsHashes_sampleExtEnv valid_sampleMsg (by decide) (by decide)

def longFlags : UtPexExtendedMsg := ⟨[], replicate (2 ^ 31) 0, [], [], [], []⟩

theorem longFlags_lost : longFlags.Valid ∧
    ∀ (env : ExtEnv) nils, env.KeepsHashes → ∃ b, longFlags.EncodeToBytes env nils = .ok b ∧
      ∀ pm, DecodeFromPayload env b ≠ .ok pm := by
  have hvalid : longFlags.Valid := ⟨nofun, nofun, nofun, nofun⟩
  refine ⟨hvalid, fun env nils hkeys => ?_⟩
  obtain ⟨es, hes, -, -⟩ := encode_dict hkeys nils hvalid
  refine ⟨_, hes, fun pm hdec => ?_⟩
  have hlt := flags_lt_of_decode hkeys hvalid hes hdec longFlags.addedF mem_cons_self
  rw [longFlags, length_replicate] at hlt
  exact absurd hlt (lt_irrefl _)

end UtPexExtendedMsg

end GoI2pBt.PeerProtocol
