/-
  The texts of messages: what is written, and what is read.
-/
import GoI2pBt.Bencode.Writable
import GoI2pBt.Krpc.RoundTrip

namespace GoI2pBt.Metainfo

def Address.Sized (a : Address) : Prop :=
  match a.ip with
  | some (.ipAddr ip _) => ip.length = 4 ∨ ip.length = 16
  | some (.udpAddr ip _ _) => ip.length = 4 ∨ ip.length = 16
  | _ => True

end GoI2pBt.Metainfo

namespace GoI2pBt.Krpc

open List Bencode Metainfo

variable {env : Env} {net : Net}

/-! ## Compact lists -/

theorem To4_eq (a : Address) : ∃ ip, a.To4 = .ipAddr ip [] ∧ (ip.length = 4 ∨ ip = []) := by
  unfold Address.To4
  split
  · exact ⟨_, rfl, length_to4 _⟩
  · exact ⟨_, rfl, length_to4 _⟩
  · exact ⟨_, rfl, .inl rfl⟩

theorem To16_eq {a : Address} (h : a.Sized) : ∃ ip, a.To16 = .ipAddr ip [] ∧ ip.length = 16 := by
  unfold Address.Sized at h
  unfold Address.To16
  split
  · rename_i ip _ hip
    rw [hip] at h
    exact ⟨_, rfl, length_to16 h⟩
  · rename_i ip _ _ hip
    rw [hip] at h
    exact ⟨_, rfl, length_to16 h⟩
  · exact ⟨_, rfl, rfl⟩

theorem ok_marshalBinary4 (net : Net) (cn : List Node) :
    Ok (CompactIPv4Node.MarshalBinary net cn) := by
  induction cn with
  | nil => exact ⟨_, rfl⟩
  | cons n cn ih =>
    obtain ⟨ip, hip, hlen⟩ := To4_eq n.addr
    rw [CompactIPv4Node.MarshalBinary, hip]
    rcases hlen with hlen | rfl
    · split_ifs with hnil
      · exact ih
      · obtain ⟨b, hb⟩ := ih
        rw [marshalBinary_ipAddr, except_ok_bind,
          if_neg (by rw [length_nodeBytes, hlen]; decide), hb]
        exact ⟨_, rfl⟩
    · have hnil : NetAddr.String net (.ipAddr [] []) = [] := rfl
      rw [if_pos hnil]
      exact ih

theorem ok_marshalBinary6 (net : Net) {cn : List Node} (h : ∀ n ∈ cn, n.addr.Sized) :
    Ok (CompactIPv6Node.MarshalBinary net cn) := by
  induction cn with
  | nil => exact ⟨_, rfl⟩
  | cons n cn ih =>
    obtain ⟨ip, hip, hlen⟩ := To16_eq (h n mem_cons_self)
    obtain ⟨b, hb⟩ := ih fun n hn => h n (mem_cons_of_mem _ hn)
    rw [CompactIPv6Node.MarshalBinary, hip, marshalBinary_ipAddr, except_ok_bind,
      if_neg (by rw [length_nodeBytes, hlen]; decide), hb]
    exact ⟨_, rfl⟩

theorem ok_marshalCompact {x} (h : Ok x) : Ok (marshalCompact env x) := by
  obtain ⟨b, rfl⟩ := h
  exact ⟨_, rfl⟩

/-! ## Messages -/

variable (nils : String → Bool)

theorem writable_hash (h : Hash) : Writable (krpcEnv env net) Hash.type h.toGo :=
  (Hash.codec rfl h).writable

theorem writable_int64 (i : Int64) : Writable (krpcEnv env net) (.int 64) (.int i.toInt) :=
  (codec_int64 i).writable

theorem ok_address {a : Address} (addr : Bool) :
    Ok (encodeFrom (krpcEnv env net) true true Address.type addr a.toGo) ↔ a.ip ≠ none := by
  have hm : ((krpcEnv env net).methods "Address").marshalBencode = some (.value,
      fun v => (Address.ofGo v).MarshalBencode env.noMethods net) := rfl
  rw [Address.type, encodeFrom_marshaler hm (by rfl), Address.ofGo_toGo, Address.MarshalBencode]
  split
  · rename_i hip
    exact iff_of_false (fun ⟨b, h⟩ => nomatch h) fun h => h hip
  · rename_i ip hip
    exact iff_of_true ⟨_, rfl⟩ (by rw [hip]; exact Option.some_ne_none ip)

theorem writable_queryArg (a : QueryArg) :
    Writable (krpcEnv env net) QueryArg.type (a.toGo nils) := by
  have hwants : Writable (krpcEnv env net) (.slice (.named "Want" .string))
      (sliceVal (nils "A.Wants") (a.wants.map .str)) := by
    refine writable_sliceVal (t := .slice (.named "Want" .string)) rfl trivial rfl _ fun v hv => ?_
    obtain ⟨w, -, rfl⟩ := mem_map.1 hv
    have hn : NoMethods (krpcEnv env net) (.named "Want" .string) := rfl
    exact writable_str hn w
  have hport : Writable (krpcEnv env net) (.uint 16) (.uint a.port.toNat) :=
    (codec_uint (by decide) a.port.toNat_lt).writable
  have hbool : Writable (krpcEnv env net) .bool (.bool a.impliedPort) :=
    (codec_bool a.impliedPort).writable
  refine writable_struct rfl ?_
  exact .cons ⟨rfl, writable_hash _⟩ <| .cons ⟨rfl, writable_hash _⟩ <|
    .cons ⟨rfl, writable_hash _⟩ <| .cons ⟨rfl, hport⟩ <|
    .cons ⟨rfl, writable_str (t := .string) trivial _⟩ <| .cons ⟨rfl, hbool⟩ <|
    .cons ⟨rfl, hwants⟩ <| .cons ⟨rfl, writable_bytesGo _ _⟩ <|
    .cons ⟨rfl, writable_bytesGo _ _⟩ <| .cons ⟨rfl, writable_bytesGo _ _⟩ <|
    .cons ⟨rfl, writable_int64 _⟩ <| .cons ⟨rfl, writable_bytesGo _ _⟩ <|
    .cons ⟨rfl, writable_int64 _⟩ .nil

theorem writable_compact {name cn} {marshal : List Node → Except Bencode.Error Bytes}
    (hm : ((krpcEnv env net).methods name).marshalBencode = some (.value,
      fun v => marshalCompact env.noMethods (marshal (nodesOfGo v))))
    (isNil : Bool) (h : Ok (marshal cn)) :
    Writable (krpcEnv env net) (.named name (.slice Node.type)) (nodesToGo isNil cn) := by
  intro addr
  have hd : direct (nodesToGo isNil cn) = true := direct_sliceVal _ _
  rw [encodeFrom_marshaler hm hd, nodesOfGo_toGo]
  exact ok_marshalCompact h

theorem writable_responseResult {r : ResponseResult} (h6 : ∀ n ∈ r.nodes6, n.addr.Sized)
    (hv : ∀ a ∈ r.values, a.ip ≠ none) :
    Writable (krpcEnv env net) ResponseResult.type (r.toGo nils) := by
  have hvalues : Writable (krpcEnv env net) ResponseResult.valuesType
      (sliceVal (nils "R.Values") (r.values.map Address.toGo)) := by
    have hn : NoMethods (krpcEnv env net) ResponseResult.valuesType := rfl
    refine writable_sliceVal rfl hn rfl _ fun v hv' => ?_
    obtain ⟨a, ha, rfl⟩ := mem_map.1 hv'
    exact fun addr => (ok_address addr).2 (hv a ha)
  have hsamples : Writable (krpcEnv env net) (.slice Hash.type)
      (sliceVal (nils "R.Samples") (r.samples.map Hash.toGo)) := by
    refine writable_sliceVal (t := .slice Hash.type) rfl trivial rfl _ fun v hv' => ?_
    obtain ⟨a, -, rfl⟩ := mem_map.1 hv'
    exact writable_hash a
  refine writable_struct rfl ?_
  exact .cons ⟨rfl, writable_hash _⟩ <| .cons ⟨rfl, writable_compact rfl _ (ok_marshalBinary4 ..)⟩ <|
    .cons ⟨rfl, writable_compact rfl _ (ok_marshalBinary6 _ h6)⟩ <|
    .cons ⟨rfl, writable_str (t := .string) trivial _⟩ <|
    .cons ⟨rfl, hvalues⟩ <| .cons ⟨rfl, hsamples⟩ <| .cons ⟨rfl, writable_int64 _⟩ <|
    .cons ⟨rfl, writable_int64 _⟩ <| .cons ⟨rfl, writable_bytesGo _ _⟩ <|
    .cons ⟨rfl, writable_bytesGo _ _⟩ <| .cons ⟨rfl, writable_bytesGo _ _⟩ <|
    .cons ⟨rfl, writable_int64 _⟩ .nil

theorem writable_error (e : Error) : Writable (krpcEnv env net) Error.type e.toGo := by
  intro addr
  have hm : ((krpcEnv env net).methods "Error").marshalBencode = some (.value,
      fun v => (Error.ofGo v).MarshalBencode env.noMethods) := rfl
  rw [Error.type, encodeFrom_marshaler hm (by rfl), Error.ofGo_toGo, Error.MarshalBencode]
  split_ifs
  · exact ⟨_, rfl⟩
  · exact ⟨_, rfl⟩

theorem not_writable_responseResult {r : ResponseResult} {a : Address} (ha : a ∈ r.values)
    (hip : a.ip = none) (addr : Bool) :
    ¬ Ok (encodeFrom (krpcEnv env net) true true ResponseResult.type addr (r.toGo nils)) := by
  have hne : r.values.map Address.toGo ≠ [] := fun h => by
    rw [map_eq_nil_iff.1 h] at ha
    cases ha
  have hn : NoMethods (krpcEnv env net) ResponseResult.valuesType := rfl
  have hvalues : ∀ addr, ¬ Ok (encodeFrom (krpcEnv env net) true true ResponseResult.valuesType addr
      (sliceVal (nils "R.Values") (r.values.map Address.toGo))) := by
    intro addr hok
    rw [sliceVal_of_ne _ hne, ok_slice rfl hn rfl] at hok
    exact (ok_address true).1 (hok _ (mem_map_of_mem ha)) hip
  have htag : tagIs "values,omitempty" "values".toList true := by decide +kernel
  have hempty : ¬ (true = true ∧
      isEmptyValue (sliceVal (nils "R.Values") (r.values.map Address.toGo)) = true) :=
    fun h => hne (isEmptyValue_sliceVal.1 h.2)
  have henv : (krpcEnv env net).methods "ResponseResult" = {} := rfl
  have hsplit : ResponseResult.fields = ResponseResult.fields.take 4 ++
      (tagged "Values" "values,omitempty", ResponseResult.valuesType) ::
        ResponseResult.fields.drop 5 := rfl
  have hlen : (ResponseResult.fields.take 4).length = [r.id.toGo, nodesToGo (nils "R.Nodes") r.nodes,
      nodesToGo (nils "R.Nodes6") r.nodes6, .str r.token].length := rfl
  rw [ResponseResult.type, hsplit]
  exact not_writable_struct henv htag hlen (isNilValue_sliceVal _ _) hempty hvalues addr

namespace Message

theorem encode_ok (env : Env) (net : Net) {m : Message} (h6 : ∀ n ∈ m.r.nodes6, n.addr.Sized)
    (hv : ∀ a ∈ m.r.values, a.ip ≠ none) : ∃ b, m.Encode env net nils = .ok b := by
  have hbool : Writable (krpcEnv env net) .bool (.bool m.ro) := (codec_bool m.ro).writable
  have hstr : ∀ s, Writable (krpcEnv env net) .string (.str s) :=
    writable_str (t := .string) trivial
  have hm : Writable (krpcEnv env net) type (m.toGo nils) := by
    refine writable_struct rfl ?_
    exact .cons ⟨rfl, hstr _⟩ <| .cons ⟨rfl, hstr _⟩ <| .cons ⟨rfl, hstr _⟩ <|
      .cons ⟨rfl, writable_queryArg nils m.a⟩ <|
      .cons ⟨rfl, writable_responseResult nils h6 hv⟩ <| .cons ⟨rfl, writable_error m.e⟩ <|
      .cons ⟨rfl, hbool⟩ .nil
  exact hm false

theorem encode_nil (env : Env) (net : Net) {m : Message} {a : Address} (ha : a ∈ m.r.values)
    (hip : a.ip = none) {b : Bytes} : m.Encode env net nils ≠ .ok b := by
  intro hb
  have htag : tagIs "r,omitempty" "r".toList true := by decide +kernel
  have hempty : ¬ (true = true ∧ isEmptyValue (m.r.toGo nils) = true) := by
    rintro ⟨-, hz⟩
    have hzero := isZeroAll_iff.1 hz (sliceVal (nils "R.Values") (m.r.values.map Address.toGo))
      (by simp)
    rw [map_eq_nil_iff.1 (isZero_sliceVal hzero)] at ha
    cases ha
  have henv : (krpcEnv env net).methods "Message" = {} := rfl
  have hsplit : fields = fields.take 4 ++ (tagged "R" "r,omitempty", ResponseResult.type) ::
      fields.drop 5 := rfl
  have hlen : (fields.take 4).length = [.str m.t, .str m.y, .str m.q, m.a.toGo nils].length := rfl
  have hnot : ¬ Ok (encodeFrom (krpcEnv env net) true true type false (m.toGo nils)) := by
    rw [type, hsplit]
    exact not_writable_struct henv htag hlen rfl hempty (not_writable_responseResult nils ha hip)
      false
  exact hnot ⟨b, hb⟩

end Message

/-! ## What is read -/

def OnIPs (cn : List Node) : Prop := ∀ n ∈ cn, ∃ ip, OnIP n.addr ip

theorem onIP_unmarshalBinary {b n} (hlen : b.length = 26 ∨ b.length = 38)
    (h : Node.UnmarshalBinary net b = .ok n) : ∃ ip, OnIP n.addr ip := by
  have hdrop : (b.drop 20).length = 6 ∨ (b.drop 20).length = 18 := by
    rw [length_drop]
    omega
  rw [Node.UnmarshalBinary, if_neg (by omega), Address.UnmarshalBinary, if_pos (by omega),
    if_pos hdrop] at h
  cases h
  refine ⟨_, rfl, ?_⟩
  rw [length_take]
  omega

theorem onIPs_unmarshalNodes {w} (hw : w = 26 ∨ w = 38) {k b cn}
    (hlen : b.length = w * k) (h : unmarshalNodes net w k b = .ok cn) : OnIPs cn := by
  induction k generalizing b cn with
  | zero =>
    cases h
    exact fun _ hn => nomatch hn
  | succ k ih =>
    rw [Nat.mul_succ] at hlen
    obtain ⟨n, hn, h⟩ := except_bind_eq_ok.1 h
    obtain ⟨cn', hcn', h⟩ := except_bind_eq_ok.1 h
    cases h
    have htake : (b.take w).length = 26 ∨ (b.take w).length = 38 := by
      rw [length_take]
      omega
    have hrest : (b.drop w).length = w * k := by
      rw [length_drop]
      omega
    intro n' hn'
    rcases mem_cons.1 hn' with rfl | hn'
    · exact onIP_unmarshalBinary htake hn
    · exact ih hrest hcn' n' hn'

theorem onIPs_unmarshalCompact {w} (hw : w = 26 ∨ w = 38) {err b cn}
    (h : unmarshalCompact env (fun b => if b.length % w ≠ 0 then .error err
      else unmarshalNodes net w (b.length / w) b) b = .ok cn) : OnIPs cn := by
  unfold unmarshalCompact at h
  split at h
  · cases h
  · dsimp only at h
    split_ifs at h with hmod
    have hdvd := Nat.dvd_of_mod_eq_zero (not_not.1 hmod)
    exact onIPs_unmarshalNodes hw (Nat.mul_div_cancel' hdvd).symm h

def Listed (v : GoVal) : Prop := OnIPs (nodesOfGo v)

theorem listed_store {name : String} {w} (hw : w = 26 ∨ w = 38) {err v v' tree}
    (hu : ((krpcEnv env net).methods name).unmarshalBencode = some fun _ b =>
      (unmarshalCompact env.noMethods (fun b => if b.length % w ≠ 0 then .error err
        else unmarshalNodes net w (b.length / w) b) b).map (nodesToGo false))
    (h : store (krpcEnv env net) (.named name (.slice Node.type)) v true tree = .ok v') :
    Listed v' := by
  rw [store_unmarshaler hu] at h
  split_ifs at h
  obtain ⟨cn, hcn, rfl⟩ := except_map_eq_ok.1 h
  rw [Listed, nodesOfGo_toGo]
  exact onIPs_unmarshalCompact hw hcn

def ListedResult (v : GoVal) : Prop :=
  ∃ vs, v = .struct vs ∧ vs.length = ResponseResult.fields.length ∧
    (∃ v₁, vs[1]? = some v₁ ∧ Listed v₁) ∧ ∃ v₂, vs[2]? = some v₂ ∧ Listed v₂

theorem listedResult_store {v w tree} (hv : ListedResult v)
    (h : store (krpcEnv env net) ResponseResult.type v true tree = .ok w) : ListedResult w := by
  obtain ⟨vs, rfl, hlen, ⟨v1, hv1, h1⟩, v2, hv2, h2⟩ := hv
  have hkeyed : Keyed (krpcEnv env net) ResponseResult.fields ResponseResult.names :=
    keyed_of_fieldKeys (by decide +kernel) ResponseResult.names_nodup
  obtain ⟨ws, rfl, hws, hall⟩ := hkeyed.store_fields ResponseResult.methods_type hlen h
  obtain ⟨w1, trees1, hw1, hrun1⟩ := hall 1 _ _ v1 rfl hv1
  obtain ⟨w2, trees2, hw2, hrun2⟩ := hall 2 _ _ v2 rfl hv2
  refine ⟨ws, rfl, hws, ⟨w1, hw1, ?_⟩, w2, hw2, ?_⟩
  · exact storeRun_keeps (fun _ _ _ _ _ hs => listed_store (.inl rfl) rfl hs) h1 hrun1
  · exact storeRun_keeps (fun _ _ _ _ _ hs => listed_store (.inr rfl) rfl hs) h2 hrun2

theorem listedResult_zero : ListedResult (zero ResponseResult.type) :=
  ⟨_, rfl, rfl, ⟨_, rfl, fun _ hn => nomatch hn⟩, _, rfl, fun _ hn => nomatch hn⟩

theorem ListedResult.ofGo {v} (h : ListedResult v) :
    OnIPs (ResponseResult.ofGo v).nodes ∧ OnIPs (ResponseResult.ofGo v).nodes6 := by
  obtain ⟨vs, rfl, -, ⟨v1, hv1, h1⟩, v2, hv2, h2⟩ := h
  have hf1 : fieldOf (.struct vs) 1 = v1 := by
    simp [fieldOf, getD_eq_getElem?_getD, hv1]
  have hf2 : fieldOf (.struct vs) 2 = v2 := by
    simp [fieldOf, getD_eq_getElem?_getD, hv2]
  exact ⟨by rw [ResponseResult.ofGo, hf1]; exact h1, by rw [ResponseResult.ofGo, hf2]; exact h2⟩

theorem Message.decode_nodes {b m} (h : Decode env net b = .ok m) :
    OnIPs (m.r.nodes ++ m.r.nodes6) := by
  obtain ⟨x, hx, rfl⟩ := except_map_eq_ok.1 h
  obtain ⟨tree, s, -, -, hstore⟩ := decodeBytes_ok_iff.1 hx
  obtain ⟨es, ws, rfl, rfl, hall⟩ := keyed.store_ok methods_type hstore
  obtain ⟨w, hget, hrun⟩ := hall 4 _ _ _ rfl rfl
  have hlisted : ListedResult w :=
    storeRun_keeps (fun _ _ _ _ hv hs => listedResult_store hv hs) listedResult_zero hrun
  have hfield : fieldOf (.struct ws) 4 = w := by
    simp [fieldOf, getD_eq_getElem?_getD, hget]
  have hr : (ofGo (.struct ws)).r = ResponseResult.ofGo w := congrArg ResponseResult.ofGo hfield
  rw [hr]
  exact forall_mem_append.2 hlisted.ofGo

end GoI2pBt.Krpc
