/-
  Lists of compact addresses in responses.
-/
import GoI2pBt.Krpc.Wire

namespace GoI2pBt.Krpc

open Bencode Bencode.Tree Metainfo List ResponseResult

namespace CompactAddresses

variable (env : Env) (net : Net)

def MarshalBinary (cas : List Address) : Except Bencode.Error Bytes := do
  let ss ← cas.mapM (Address.MarshalBinary net)
  EncodeBytes env (.iface (.slice .string) (.slice (ss.map .str) []))

def UnmarshalBinary (cas : List Address) (b : Bytes) : Except Bencode.Error (List Address) := do
  let ss ← DecodeBytes env b (.slice .string) .nilSlice
  let _addrs ← ((elemsOf ss).1.map strOf).mapM (Address.UnmarshalBinary net)
  return cas

def responseText (id : Hash) (tid values : Bytes) : Bytes :=
  utf8 "d1:rd2:id20:" ++ id.bytes ++ utf8 "6:values" ++ values ++ utf8 "e1:t" ++
    formatUint tid.length ++ utf8 ":" ++ tid ++ utf8 "1:y1:re"

def SameAddresses (l l' : List Address) : Prop :=
  Forall₂ (fun a' a => Address.Equal net a' a = some true) l l'

def BinaryTrip (l : List Address) : Prop :=
  ∃ b cas, MarshalBinary env net l = .ok b ∧ UnmarshalBinary env net [] b = .ok cas ∧
    SameAddresses net cas l

def MessageTrip (l : List Address) : Prop :=
  ∃ b, MarshalBinary env net l = .ok b ∧ ∀ (id : Hash) (tid : Bytes), tid.length < 2 ^ 31 →
    ∃ m, Message.Decode env net (responseText id tid b) = .ok m ∧ SameAddresses net m.r.values l

variable {env net}

/-! ## The binary form -/

def tree (ss : List Bytes) : Tree := .list (ss.map fun s => .str (formatUint s.length) s)

theorem eq_of_unmarshalBinary {cas cas' b}
    (h : UnmarshalBinary env net cas b = .ok cas') : cas' = cas := by
  obtain ⟨ss, -, h⟩ := except_bind_eq_ok.1 h
  obtain ⟨addrs, -, h⟩ := except_bind_eq_ok.1 h
  cases h
  rfl

theorem binaryTrip_iff {l} : BinaryTrip env net l ↔ l = [] := by
  constructor
  · rintro ⟨b, cas, -, hread, hsame⟩
    cases eq_of_unmarshalBinary hread
    cases hsame
    rfl
  · rintro rfl
    exact ⟨_, _, rfl, rfl, .nil⟩

/-! ## The response -/

def resultTree (id : Hash) (ss : List Bytes) : Tree :=
  .dict [⟨utf8 "2", utf8 "id", .str (formatUint id.bytes.length) id.bytes⟩,
    ⟨utf8 "6", utf8 "values", tree ss⟩]

def responseTree (id : Hash) (tid : Bytes) (ss : List Bytes) : Tree :=
  .dict [⟨utf8 "1", utf8 "r", resultTree id ss⟩,
    ⟨utf8 "1", utf8 "t", .str (formatUint tid.length) tid⟩,
    ⟨utf8 "1", utf8 "y", .str (utf8 "1") (utf8 "r")⟩]

theorem responseText_eq (id : Hash) (tid : Bytes) (ss : List Bytes) :
    responseText id tid (tree ss).bytes = (responseTree id tid ss).bytes := by
  have hid : formatUint id.bytes.length = utf8 "20" := by rw [id.length_eq]; decide
  have h1 : utf8 "d1:rd2:id20:" = ch 'd' :: (utf8 "1" ++ ch ':' :: (utf8 "r" ++
      ch 'd' :: (utf8 "2" ++ ch ':' :: (utf8 "id" ++ (utf8 "20" ++ [ch ':']))))) := by decide
  have h2 : utf8 "6:values" = utf8 "6" ++ ch ':' :: utf8 "values" := by decide
  have h3 : utf8 "e1:t" = ch 'e' :: (utf8 "1" ++ ch ':' :: utf8 "t") := by decide
  have h4 : utf8 "1:y1:re" = utf8 "1" ++ ch ':' :: (utf8 "y" ++
      (utf8 "1" ++ ch ':' :: (utf8 "r" ++ [ch 'e']))) := by decide
  have h5 : utf8 ":" = [ch ':'] := by decide
  rw [responseText, h1, h2, h3, h4, h5]
  simp [responseTree, resultTree, hid, Tree.bytes, entriesBytes]

theorem responseTree_wf (id : Hash) {tid ss} (htid : tid.length < 2 ^ 31)
    (hss : (tree ss).WF) : (responseTree id tid ss).WF := by
  have hid : id.bytes.length < 2 ^ 31 := by rw [id.length_eq]; decide
  have hkey : ∀ {len key : Bytes}, len = formatUint key.length → key.length < 2 ^ 31 →
      StrOk len key := fun h hlt => h ▸ strOk_formatUint hlt
  refine ⟨hkey (by decide) (by decide), ⟨hkey (by decide) (by decide), strOk_formatUint hid,
    hkey (by decide) (by decide), hss, trivial⟩, hkey (by decide) (by decide),
    strOk_formatUint htid, hkey (by decide) (by decide), hkey (by decide) (by decide), trivial⟩

theorem keyed_responseResult : Keyed (krpcEnv env net) fields names :=
  keyed_of_fieldKeys (by decide +kernel) names_nodup

theorem values_of_decode {id tid ss m} (hwf : (responseTree id tid ss).WF)
    (h : Message.Decode env net (responseTree id tid ss).bytes = .ok m) :
    ∃ ws, storeAll (krpcEnv env net) Address.type
        (ss.map fun s => .str (formatUint s.length) s) = .ok ws ∧
      m.r.values = ws.map Address.ofGo := by
  obtain ⟨x, hx, rfl⟩ := except_map_eq_ok.1 h
  obtain ⟨tree', s, hw, hb, hstore⟩ := decodeBytes_ok_iff.1 hx
  obtain ⟨rfl, -⟩ := bytes_inj hwf hw ((append_nil _).trans hb)
  obtain ⟨es, ws, hes, rfl, hall⟩ := Message.keyed.store_ok Message.methods_type hstore
  cases hes
  obtain ⟨wr, hgetr, hrunr⟩ := hall 4 _ _ _ rfl rfl
  obtain ⟨wr', hstorer, hlast⟩ := except_bind_eq_ok.1 hrunr
  cases hlast
  obtain ⟨es, vs, hes, rfl, hall⟩ := keyed_responseResult.store_ok methods_type hstorer
  cases hes
  obtain ⟨wv, hgetv, hrunv⟩ := hall 4 _ _ _ rfl rfl
  obtain ⟨wv', hstorev, hlast⟩ := except_bind_eq_ok.1 hrunv
  cases hlast
  have hn : NoMethods (krpcEnv env net) valuesType := rfl
  have hvalues := store_list_zero rfl hn (ss.map fun s => .str (formatUint s.length) s)
  have hr : fieldOf (.struct ws) 4 = .struct vs := by
    simp [fieldOf, getD_eq_getElem?_getD, hgetr]
  have hv : fieldOf (.struct vs) 4 = wv := by
    simp [fieldOf, getD_eq_getElem?_getD, hgetv]
  refine ⟨(elemsOf wv).1, hvalues.symm.trans (congrArg (Except.map _) hstorev), ?_⟩
  change (ofGo (fieldOf (.struct ws) 4)).values = _
  rw [hr, ofGo, hv]

theorem tree_nil_wf : (tree []).WF := trivial

theorem decode_empty (env : Env) (net : Net) (id : Hash) {tid} (htid : tid.length < 2 ^ 31) :
    ∃ m, Message.Decode env net (responseTree id tid []).bytes = .ok m := by
  have hresult : ∃ w, store (krpcEnv env net) type (zero type) true
      (resultTree id []) = .ok w := by
    rw [type, resultTree, zero, zero, store_named_dict methods_type]
    have hkeys : [utf8 "id", utf8 "values"].Nodup := by decide
    refine keyed_responseResult.flat.storeEntries_ok hkeys ?_
    simp only [forall_mem_cons]
    refine ⟨⟨0, _, _, _, _, keyed_responseResult.lookup rfl, rfl, rfl, (Hash.codec rfl id).reads⟩,
      ⟨4, _, _, _, _, keyed_responseResult.lookup rfl, rfl, rfl, rfl⟩, ?_⟩
    exact fun _ he => absurd he not_mem_nil
  obtain ⟨w, hw⟩ := hresult
  have hmessage : ∃ x, store (krpcEnv env net) Message.type (zero Message.type) true
      (responseTree id tid []) = .ok x := by
    rw [Message.type, responseTree, zero, zero, store_named_dict Message.methods_type]
    have hkeys : [utf8 "r", utf8 "t", utf8 "y"].Nodup := by decide
    refine Message.keyed.flat.storeEntries_ok hkeys ?_
    simp only [forall_mem_cons]
    refine ⟨⟨4, _, _, _, _, Message.keyed.lookup rfl, rfl, rfl, hw⟩,
      ⟨0, _, _, _, _, Message.keyed.lookup rfl, rfl, rfl, (codec_string htid).reads⟩,
      ⟨1, _, _, _, _, Message.keyed.lookup rfl, rfl, rfl, rfl⟩, ?_⟩
    exact fun _ he => absurd he not_mem_nil
  obtain ⟨x, hx⟩ := hmessage
  have hdec : DecodeBytes (krpcEnv env net) (responseTree id tid []).bytes Message.type
      (zero Message.type) = .ok x :=
    decodeBytes_ok_iff.2 ⟨_, [], responseTree_wf id htid tree_nil_wf, (append_nil _).symm, hx⟩
  exact ⟨_, by rw [Message.Decode, hdec, except_map_ok]⟩

theorem messageTrip_nil : MessageTrip env net [] := by
  refine ⟨(tree []).bytes, rfl, fun id tid htid => ?_⟩
  rw [responseText_eq]
  obtain ⟨m, hm⟩ := decode_empty env net id htid
  obtain ⟨ws, hws, hvalues⟩ := values_of_decode (responseTree_wf id htid tree_nil_wf) hm
  cases hws
  refine ⟨m, hm, ?_⟩
  rw [hvalues]
  exact .nil

/-- **Only the empty list makes both round trips.** -/
theorem compactAddresses_roundTrips_iff (env : Env) (net : Net) (l : List Address) :
    BinaryTrip env net l ∧ MessageTrip env net l ↔ l = [] := by
  rw [binaryTrip_iff]
  constructor
  · exact And.left
  · rintro rfl
    exact ⟨rfl, messageTrip_nil⟩

def localAddress : Address := ⟨some (.ipAddr [127, 0, 0, 1] []), 80⟩

theorem localAddress_lost : OnIP localAddress [127, 0, 0, 1] ∧
    ¬ BinaryTrip bareEnv Address.sampleNet [localAddress] ∧
    ¬ MessageTrip bareEnv Address.sampleNet [localAddress] := by
  have hwritten : MarshalBinary bareEnv Address.sampleNet [localAddress] =
      .ok (utf8 "l6:" ++ [127, 0, 0, 1, 0, 80] ++ utf8 "e") := except_eq_ok (by decide +kernel)
  have hrefused : (Message.Decode bareEnv Address.sampleNet (responseText .zero (utf8 "aa")
      (utf8 "l6:" ++ [127, 0, 0, 1, 0, 80] ++ utf8 "e"))).isOk = false := by decide +kernel
  refine ⟨⟨rfl, .inl rfl⟩, ?_, ?_⟩
  · rw [binaryTrip_iff]
    exact List.cons_ne_nil _ _
  · rintro ⟨b, hb, hread⟩
    cases hwritten.symm.trans hb
    obtain ⟨m, hm, -⟩ := hread .zero (utf8 "aa") (by decide)
    rw [hm] at hrefused
    cases hrefused

end CompactAddresses

end GoI2pBt.Krpc
