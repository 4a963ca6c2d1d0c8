/-
  Messages that are read back as they were sent.
-/
import GoI2pBt.Krpc.Message

namespace GoI2pBt.Krpc

open List Bencode Metainfo Function Row

variable {env : Env} {net : Net} (nils : String → Bool)

/-! ## Numbers and hashes -/

theorem isZero_int64 {i : Int64} (h : isZero (.int i.toInt) = true) : i = 0 :=
  Int64.toInt_inj.1 (of_decide_eq_true h)

theorem isZeroAll_iff {vs} : isZeroAll vs = true ↔ ∀ v ∈ vs, isZero v = true := by
  induction vs with
  | nil => simp [isZeroAll]
  | cons v vs ih => simp [isZeroAll, ih]

theorem isZero_hash {h : Hash} (hz : isZero h.toGo = true) : h = .zero := by
  have hall : ∀ x ∈ h.bytes, x = 0 := fun x hx => by
    have := isZeroAll_iff.1 hz _ (mem_map.2 ⟨x, hx, rfl⟩)
    exact UInt8.toNat_inj.1 (of_decide_eq_true this)
  ext1
  rw [eq_replicate_of_mem hall, h.length_eq]
  rfl

theorem isZero_sliceVal {isNil vs} (h : isZero (sliceVal isNil vs) = true) : vs = [] := by
  unfold sliceVal at h
  split_ifs at h with hn
  · exact hn.2
  · cases h

theorem isZero_bytesGo {isNil b} (h : isZero (bytesGo isNil b) = true) : b = [] :=
  map_eq_nil_iff.1 (isZero_sliceVal h)

/-! ## Errors -/

namespace Error

theorem isZero_toGo {e : Error} (h : isZero e.toGo = true) : e = ⟨0, []⟩ := by
  obtain ⟨code, reason⟩ := e
  have hall := isZeroAll_iff.1 h
  have hcode : code = 0 := isZero_int64 (hall (.int code.toInt) (by simp))
  have hreason : reason = [] := of_decide_eq_true (hall (.str reason) (by simp))
  rw [hcode, hreason]

theorem encodeBytes_pair (code : Int64) (reason : Bytes) : EncodeBytes env (.iface (.slice .iface)
        (.slice [.iface (.int 64) (.int code.toInt), .iface .string (.str reason)] [])) =
      .ok (Value.list [.int code.toInt, .str reason]).tree.bytes := rfl

theorem unmarshalBencode_pair (e0 : Error) (code : Int64) {reason} (h : reason.length < 2 ^ 31) :
    e0.UnmarshalBencode env (Value.list [.int code.toInt, .str reason]).tree.bytes =
      .ok ⟨code, reason⟩ := by
  have hvalid : (Value.list [.int code.toInt, .str reason]).Valid :=
    ⟨⟨code.le_toInt, code.toInt_lt⟩, h, trivial⟩
  obtain ⟨w, hw, hg⟩ := decodeBytes_generic env hvalid
  rcases generic_eq_list hg with ⟨-, hnil⟩ | ⟨es, sp, rfl, hes⟩
  · cases hnil
  · obtain ⟨x, xs, rfl, hx, hxs⟩ := genericItems_eq_cons hes
    obtain ⟨y, ys, rfl, hy, hys⟩ := genericItems_eq_cons hxs
    cases genericItems_eq_nil hys
    rw [generic_eq_int hx, generic_eq_str hy] at hw
    rw [UnmarshalBencode, hw]
    change Except.ok (Error.mk (.ofInt code.toInt) reason) = _
    rw [Int64.ofInt_toInt]

theorem codec {env' : Env} (hm : env'.methods "Error" = methods env) {e : Error}
    (h : e.reason.length < 2 ^ 31) (hne : ¬ (true = true ∧ isEmptyValue e.toGo = true)) :
    Codec env' type e.toGo (Value.list [.int e.code.toInt, .str e.reason]).tree e.toGo := by
  have hvalid : (Value.list [.int e.code.toInt, .str e.reason]).Valid :=
    ⟨⟨e.code.le_toInt, e.code.toInt_lt⟩, h, trivial⟩
  have hz : ¬ (e.code = 0 ∧ e.reason = []) := by
    rintro ⟨hcode, hreason⟩
    obtain ⟨code, reason⟩ := e
    cases hcode
    cases hreason
    exact hne ⟨rfl, rfl⟩
  refine codec_marshaler (by rw [hm]; rfl) (by rw [hm]; rfl) rfl hvalid.wf ?_ ?_ ?_
  · simp [Value.tree, Value.trees, Tree.scannable, Tree.scannableItems, Tree.digitFirst_formatUint]
  · rw [ofGo_toGo, MarshalBencode, if_neg hz]
    exact encodeBytes_pair e.code e.reason
  · rw [unmarshalBencode_pair _ _ h]
    rfl

end Error

/-! ## Query arguments -/

namespace QueryArg

structure Bounded (a : QueryArg) : Prop where
  token : a.token.length < 2 ^ 31
  wants : ∀ w ∈ a.wants, w.length < 2 ^ 31
  v : a.v.length < 2 ^ 31
  k : a.k.length < 2 ^ 31
  sig : a.sig.length < 2 ^ 31
  salt : a.salt.length < 2 ^ 31

theorem methods_type : (krpcEnv env net).methods "QueryArg" = {} := rfl

def names : List (List Char) :=
  ["id".toList, "target".toList, "info_hash".toList, "port".toList, "token".toList,
   "implied_port".toList, "want".toList, "v".toList, "k".toList, "sig".toList, "seq".toList,
   "salt".toList, "cas".toList]

theorem names_nodup : (names.map keyBytes).Nodup := by decide +kernel

def rows (a : QueryArg) (hb : a.Bounded) {xw : Tree} {backw : GoVal}
    (hw : ¬ (true = true ∧ isEmptyValue (sliceVal (nils "A.Wants") (a.wants.map .str)) = true) →
      Codec (krpcEnv env net) (.slice (.named "Want" .string))
        (sliceVal (nils "A.Wants") (a.wants.map .str)) xw backw) : List (Row (krpcEnv env net)) :=
  [Row.tagged "ID" "id" "id".toList false fun _ => Hash.codec rfl a.id,
   Row.tagged "Target" "target,omitempty" "target".toList true fun _ => Hash.codec rfl a.target,
   Row.tagged "InfoHash" "info_hash,omitempty" "info_hash".toList true
    fun _ => Hash.codec rfl a.infoHash,
   Row.tagged "Port" "port,omitempty" "port".toList true
    fun _ => codec_uint (by decide) a.port.toNat_lt,
   Row.tagged "Token" "token,omitempty" "token".toList true fun _ => codec_string hb.token,
   Row.tagged "ImpliedPort" "implied_port,omitempty" "implied_port".toList true
    fun _ => codec_bool a.impliedPort,
   Row.tagged "Wants" "want,omitempty" "want".toList true hw (isNilValue_sliceVal _ _),
   Row.tagged "V" "v,omitempty" "v".toList true (codec_bytesGo (nils "A.V") hb.v)
    (isNilValue_sliceVal _ _),
   Row.tagged "K" "k,omitempty" "k".toList true (codec_bytesGo (nils "A.K") hb.k)
    (isNilValue_sliceVal _ _),
   Row.tagged "Sig" "sig,omitempty" "sig".toList true (codec_bytesGo (nils "A.Sig") hb.sig)
    (isNilValue_sliceVal _ _),
   Row.tagged "Seq" "seq,omitempty" "seq".toList true fun _ => codec_int64 a.seq,
   Row.tagged "Salt" "salt,omitempty" "salt".toList true (codec_bytesGo (nils "A.Salt") hb.salt)
    (isNilValue_sliceVal _ _),
   Row.tagged "CAS" "cas,omitempty" "cas".toList true fun _ => codec_int64 a.cas]

theorem ofGo_zero {a : QueryArg} (h : isZero (a.toGo nils) = true) : ofGo (zero type) = a := by
  have hall := isZeroAll_iff.1 h
  refine QueryArg.ext ?_ ?_ ?_ ?_ ?_ ?_ ?_ ?_ ?_ ?_ ?_ ?_ ?_
  · exact (isZero_hash (hall a.id.toGo (by simp))).symm
  · exact (isZero_hash (hall a.target.toGo (by simp))).symm
  · exact (isZero_hash (hall a.infoHash.toGo (by simp))).symm
  · have hport := hall (.uint a.port.toNat) (by simp)
    exact UInt16.toNat_inj.1 (of_decide_eq_true hport).symm
  · exact (of_decide_eq_true (hall (.str a.token) (by simp))).symm
  · have hb := hall (.bool a.impliedPort) (by simp)
    exact (Bool.not_eq_true' a.impliedPort ▸ hb : a.impliedPort = false).symm
  · have hw := hall (sliceVal (nils "A.Wants") (a.wants.map .str)) (by simp)
    exact (map_eq_nil_iff.1 (isZero_sliceVal hw)).symm
  · exact (isZero_bytesGo (hall (bytesGo (nils "A.V") a.v) (by simp))).symm
  · exact (isZero_bytesGo (hall (bytesGo (nils "A.K") a.k) (by simp))).symm
  · exact (isZero_bytesGo (hall (bytesGo (nils "A.Sig") a.sig) (by simp))).symm
  · exact (isZero_int64 (hall (.int a.seq.toInt) (by simp))).symm
  · exact (isZero_bytesGo (hall (bytesGo (nils "A.Salt") a.salt) (by simp))).symm
  · exact (isZero_int64 (hall (.int a.cas.toInt) (by simp))).symm

theorem codec (env : Env) (net : Net) (nils : String → Bool) {a} (hb : a.Bounded) :
    ∃ x back, ofGo back = a ∧ Codec (krpcEnv env net) type (a.toGo nils) x back := by
  have hwant : NoMethods (krpcEnv env net) (.named "Want" .string) := rfl
  have hstrs : Codecs (krpcEnv env net) (.named "Want" .string) (a.wants.map .str) _ _ :=
    codecs_strs rfl hwant hb.wants
  obtain ⟨backw, hbackw, hw⟩ :=
    codec_sliceVal (t := .slice (.named "Want" .string)) rfl trivial rfl (nils "A.Wants") hstrs
  have hnodup : ((rows nils a hb hw).map key).Nodup := names_nodup
  obtain ⟨x, hx⟩ := codec_struct methods_type hnodup
  refine ⟨x, _, ?_, hx⟩
  refine QueryArg.ext ?_ ?_ ?_ ?_ ?_ ?_ ?_ ?_ ?_ ?_ ?_ ?_ ?_
  · exact Hash.ofGo_toGo _
  · exact Hash.ofGo_optBack true _
  · exact Hash.ofGo_optBack true _
  · exact (congrArg UInt16.ofNat (uintOf_optBack true 16 _)).trans UInt16.ofNat_toNat
  · exact strOf_optBack true _
  · exact boolOf_optBack true _
  · change (elemsOf (optBack true (.slice (.named "Want" .string))
      (sliceVal (nils "A.Wants") (a.wants.map .str)) backw)).1.map strOf = _
    rw [elemsOf_optBack_sliceVal true _ rfl fun hnil => hbackw.trans hnil, hbackw]
    simp [comp_def, strOf]
  · exact valBytes_optBack true _ _
  · exact valBytes_optBack true _ _
  · exact valBytes_optBack true _ _
  · exact int64_optBack _
  · exact valBytes_optBack true _ _
  · exact int64_optBack _

end QueryArg

/-! ## Response results -/

namespace ResponseResult

variable {r : ResponseResult}

def Equal (net : Net) (r r' : ResponseResult) : Prop :=
  r' = { r with nodes := r'.nodes, nodes6 := r'.nodes6, values := r'.values } ∧
    Forall₂ (fun n' n => Node.Equal net n' n = some true) r'.nodes r.nodes ∧
    Forall₂ (fun n' n => Node.Equal net n' n = some true) r'.nodes6 r.nodes6 ∧
    Forall₂ (fun a' a => Address.Equal net a' a = some true) r'.values r.values

structure Bounded (r : ResponseResult) : Prop where
  nodes : (∀ n ∈ r.nodes, n.V4) ∧ 26 * r.nodes.length < 2 ^ 31
  nodes6 : (∀ n ∈ r.nodes6, n.V6) ∧ 38 * r.nodes6.length < 2 ^ 31
  token : r.token.length < 2 ^ 31
  values : ∀ a ∈ r.values, ∃ ip, OnIP a ip
  v : r.v.length < 2 ^ 31
  k : r.k.length < 2 ^ 31
  sig : r.sig.length < 2 ^ 31

theorem methods_type : (krpcEnv env net).methods "ResponseResult" = {} := rfl

def names : List (List Char) :=
  ["id".toList, "nodes".toList, "nodes6".toList, "token".toList, "values".toList,
   "samples".toList, "num".toList, "interval".toList, "v".toList, "k".toList, "sig".toList,
   "seq".toList]

theorem names_nodup : (names.map keyBytes).Nodup := by decide +kernel

def valuesType : GoType := .named "CompactAddresses" (.slice Address.type)

theorem codec_values (env : Env) (net : Net) (isNil : Bool) {l} (h : ∀ a ∈ l, ∃ ip, OnIP a ip) :
    ∃ x back, Forall₂ (fun a' a => Address.Equal net a' a = some true)
        ((elemsOf back).1.map Address.ofGo) l ∧
      (¬ (true = true ∧ isEmptyValue (sliceVal isNil (l.map Address.toGo)) = true) →
        Codec (krpcEnv env net) valuesType (sliceVal isNil (l.map Address.toGo)) x back) := by
  have hone : ∀ a ∈ l, ∃ x back, Address.Equal net (.ofGo back) a = some true ∧
      Codec (krpcEnv env net) Address.type a.toGo x back := by
    intro a ha
    obtain ⟨ip, hip, hlen⟩ := h a ha
    obtain ⟨addr, port⟩ := a
    cases hip
    refine ⟨_, _, ?_, Address.codec_ipAddr rfl hlen port⟩
    rw [Address.ofGo_toGo]
    exact Address.equal_ipBack hlen port
  obtain ⟨xs, bs, hp, hc⟩ := exists_codecs hone
  have hn : NoMethods (krpcEnv env net) valuesType := rfl
  obtain ⟨back, hback, hcodec⟩ := codec_sliceVal rfl hn rfl isNil hc
  refine ⟨_, back, ?_, hcodec⟩
  rw [hback, forall₂_map_left_iff]
  exact hp.flip

theorem codec_samples (env : Env) (net : Net) (isNil : Bool) (l : List Hash) :
    ∃ x back, (elemsOf back).1.map Hash.ofGo = l ∧
      (¬ (true = true ∧ isEmptyValue (sliceVal isNil (l.map Hash.toGo)) = true) →
        Codec (krpcEnv env net) (.slice Hash.type) (sliceVal isNil (l.map Hash.toGo)) x back) := by
  have hone : ∀ a ∈ l, ∃ x back, back = a.toGo ∧ Codec (krpcEnv env net) Hash.type a.toGo x back :=
    fun a _ => ⟨_, _, rfl, Hash.codec rfl a⟩
  obtain ⟨xs, bs, hp, hc⟩ := exists_codecs hone
  have hbs : bs = l.map Hash.toGo := forall₂_eq_eq_eq ▸ (forall₂_map_right_iff.2 hp.flip)
  obtain ⟨back, hback, hcodec⟩ := codec_sliceVal (t := .slice Hash.type) rfl trivial rfl isNil hc
  refine ⟨_, back, ?_, hcodec⟩
  rw [hback, hbs]
  simp [comp_def]

abbrev OptCodec (env : Env) (t : GoType) (v : GoVal) (x : Tree) (back : GoVal) : Prop :=
  ¬ (true = true ∧ isEmptyValue v = true) → Codec env t v x back

def rows (r : ResponseResult) (hb : r.Bounded) {x₁ x₂ x₃ x₄ : Tree} {b₁ b₂ b₃ b₄ : GoVal}
    (hnodes : Codec (krpcEnv env net) CompactIPv4Node.type (nodesToGo (nils "R.Nodes") r.nodes)
      x₁ b₁)
    (hnodes6 : Codec (krpcEnv env net) CompactIPv6Node.type (nodesToGo (nils "R.Nodes6") r.nodes6)
      x₂ b₂)
    (hvalues : OptCodec (krpcEnv env net) valuesType
      (sliceVal (nils "R.Values") (r.values.map Address.toGo)) x₃ b₃)
    (hsamples : OptCodec (krpcEnv env net) (.slice Hash.type)
      (sliceVal (nils "R.Samples") (r.samples.map Hash.toGo)) x₄ b₄) :
    List (Row (krpcEnv env net)) :=
  [Row.tagged "ID" "id" "id".toList false fun _ => Hash.codec rfl r.id,
   Row.tagged "Nodes" "nodes,omitempty" "nodes".toList true (fun _ => hnodes)
    (isNilValue_sliceVal _ _),
   Row.tagged "Nodes6" "nodes6,omitempty" "nodes6".toList true (fun _ => hnodes6)
    (isNilValue_sliceVal _ _),
   Row.tagged "Token" "token,omitempty" "token".toList true fun _ => codec_string hb.token,
   Row.tagged "Values" "values,omitempty" "values".toList true hvalues (isNilValue_sliceVal _ _),
   Row.tagged "Samples" "samples,omitempty" "samples".toList true hsamples
    (isNilValue_sliceVal _ _),
   Row.tagged "Num" "num,omitempty" "num".toList true fun _ => codec_int64 r.num,
   Row.tagged "Interval" "interval,omitempty" "interval".toList true
    fun _ => codec_int64 r.interval,
   Row.tagged "V" "v,omitempty" "v".toList true (codec_bytesGo (nils "R.V") hb.v)
    (isNilValue_sliceVal _ _),
   Row.tagged "K" "k,omitempty" "k".toList true (codec_bytesGo (nils "R.K") hb.k)
    (isNilValue_sliceVal _ _),
   Row.tagged "Sig" "sig,omitempty" "sig".toList true (codec_bytesGo (nils "R.Sig") hb.sig)
    (isNilValue_sliceVal _ _),
   Row.tagged "Seq" "seq,omitempty" "seq".toList true fun _ => codec_int64 r.seq]

theorem ofGo_zero (h : isZero (r.toGo nils) = true) : ofGo (zero type) = r := by
  have hall := isZeroAll_iff.1 h
  refine ResponseResult.ext ?_ ?_ ?_ ?_ ?_ ?_ ?_ ?_ ?_ ?_ ?_ ?_
  · exact (isZero_hash (hall r.id.toGo (by simp))).symm
  · have hn := hall (nodesToGo (nils "R.Nodes") r.nodes) (by simp)
    exact (map_eq_nil_iff.1 (isZero_sliceVal hn)).symm
  · have hn := hall (nodesToGo (nils "R.Nodes6") r.nodes6) (by simp)
    exact (map_eq_nil_iff.1 (isZero_sliceVal hn)).symm
  · exact (of_decide_eq_true (hall (.str r.token) (by simp))).symm
  · have hv := hall (sliceVal (nils "R.Values") (r.values.map Address.toGo)) (by simp)
    exact (map_eq_nil_iff.1 (isZero_sliceVal hv)).symm
  · have hs := hall (sliceVal (nils "R.Samples") (r.samples.map Hash.toGo)) (by simp)
    exact (map_eq_nil_iff.1 (isZero_sliceVal hs)).symm
  · exact (isZero_int64 (hall (.int r.num.toInt) (by simp))).symm
  · exact (isZero_int64 (hall (.int r.interval.toInt) (by simp))).symm
  · exact (isZero_bytesGo (hall (bytesGo (nils "R.V") r.v) (by simp))).symm
  · exact (isZero_bytesGo (hall (bytesGo (nils "R.K") r.k) (by simp))).symm
  · exact (isZero_bytesGo (hall (bytesGo (nils "R.Sig") r.sig) (by simp))).symm
  · exact (isZero_int64 (hall (.int r.seq.toInt) (by simp))).symm

theorem equal_refl (hb : r.Bounded) : r.Equal net r := by
  have hnode : ∀ {n : Node} {ip : Bytes}, OnIP n.addr ip → Node.Equal net n n = some true := by
    rintro ⟨id, ⟨addr, port⟩⟩ ip ⟨hip, -⟩
    cases hip
    exact Node.equal_of_string rfl
  refine ⟨rfl, forall₂_same.2 fun n hn => ?_, forall₂_same.2 fun n hn => ?_,
    forall₂_same.2 fun a ha => ?_⟩
  · obtain ⟨ip, hip, -⟩ := hb.nodes.1 n hn
    exact hnode hip
  · obtain ⟨ip, hip, -⟩ := hb.nodes6.1 n hn
    exact hnode hip
  · obtain ⟨ip, hip, -⟩ := hb.values a ha
    obtain ⟨addr, port⟩ := a
    cases hip
    exact Address.equal_mk.2 ⟨rfl, rfl⟩

theorem nodes_optBack (isNil : Bool) {cn cn'} {t : GoType} (ht : t.under = .slice Node.type)
    (h : Forall₂ (fun n' n => Node.Equal net n' n = some true) cn' cn) :
    Forall₂ (fun n' n => Node.Equal net n' n = some true)
      (nodesOfGo (optBack true t (nodesToGo isNil cn) (nodesToGo false cn'))) cn := by
  refine optBack_cases (P := fun w => Forall₂ _ (nodesOfGo w) cn) (fun he => ?_) ?_
  · have hnil : cn = [] := map_eq_nil_iff.1 (isEmptyValue_sliceVal.1 he)
    rw [hnil, zero_under, ht]
    exact .nil
  · rw [nodesOfGo_toGo]
    exact h

theorem codec (env : Env) (net : Net) (nils : String → Bool) (hb : r.Bounded) :
    ∃ x back, r.Equal net (ofGo back) ∧ Codec (krpcEnv env net) type (r.toGo nils) x back := by
  obtain ⟨x1, cn, hcn, hnodes⟩ : ∃ x cn, _ ∧ Codec (krpcEnv env net) CompactIPv4Node.type _ x _ :=
    (marshalled_v4 net hb.nodes.1).codec (.inl rfl) rfl (nils "R.Nodes") hb.nodes.2
  obtain ⟨x2, cn6, hcn6, hnodes6⟩ : ∃ x cn, _ ∧ Codec (krpcEnv env net) CompactIPv6Node.type _ x _ :=
    (marshalled_v6 net hb.nodes6.1).codec (.inr rfl) rfl (nils "R.Nodes6") hb.nodes6.2
  obtain ⟨x3, b3, hb3, hvalues⟩ := codec_values env net (nils "R.Values") hb.values
  obtain ⟨x4, b4, hb4, hsamples⟩ := codec_samples env net (nils "R.Samples") r.samples
  have hnodup : ((rows nils r hb hnodes hnodes6 hvalues hsamples).map key).Nodup := names_nodup
  obtain ⟨x, hx⟩ := codec_struct methods_type hnodup
  refine ⟨x, _, ?_, hx⟩
  have hvals : Forall₂ (fun a' a => Address.Equal net a' a = some true)
      ((elemsOf (optBack true valuesType
        (sliceVal (nils "R.Values") (r.values.map Address.toGo)) b3)).1.map Address.ofGo)
      r.values := by
    rw [elemsOf_optBack_sliceVal true _ rfl]
    · exact hb3
    · intro hnil
      rw [map_eq_nil_iff.1 hnil, forall₂_nil_right_iff] at hb3
      exact map_eq_nil_iff.1 hb3
  have h4 := nodes_optBack (nils "R.Nodes") (t := CompactIPv4Node.type) rfl hcn
  have h6 := nodes_optBack (nils "R.Nodes6") (t := CompactIPv6Node.type) rfl hcn6
  refine ⟨ResponseResult.ext ?_ rfl rfl ?_ rfl ?_ ?_ ?_ ?_ ?_ ?_ ?_, h4, h6, hvals⟩
  · exact Hash.ofGo_toGo _
  · exact strOf_optBack true _
  · change (elemsOf (optBack true (.slice Hash.type)
      (sliceVal (nils "R.Samples") (r.samples.map Hash.toGo)) b4)).1.map Hash.ofGo = _
    rw [elemsOf_optBack_sliceVal true _ rfl, hb4]
    intro hnil
    rw [map_eq_nil_iff.1 hnil] at hb4
    exact map_eq_nil_iff.1 hb4
  · exact int64_optBack _
  · exact int64_optBack _
  · exact valBytes_optBack true _ _
  · exact valBytes_optBack true _ _
  · exact valBytes_optBack true _ _
  · exact int64_optBack _

end ResponseResult

/-! ## Messages -/

namespace Message

def Equal (net : Net) (m m' : Message) : Prop := m.r.Equal net m'.r ∧ m' = { m with r := m'.r }

structure Bounded (m : Message) : Prop where
  t : m.t.length < 2 ^ 31
  y : m.y.length < 2 ^ 31
  q : m.q.length < 2 ^ 31
  a : m.a.Bounded
  r : m.r.Bounded
  e : m.e.reason.length < 2 ^ 31

def RoundTrips (env : Env) (net : Net) (m : Message) : Prop :=
  ∀ nils, ∃ b m', m.Encode env net nils = .ok b ∧ Decode env net b = .ok m' ∧ m.Equal net m'

theorem methods_type : (krpcEnv env net).methods "Message" = {} := rfl

def names : List (List Char) :=
  ["t".toList, "y".toList, "q".toList, "a".toList, "r".toList, "e".toList, "ro".toList]

theorem names_nodup : (names.map keyBytes).Nodup := by decide +kernel

def rows (m : Message) (hb : m.Bounded) {xa xr : Tree} {backa backr : GoVal}
    (ha : Codec (krpcEnv env net) QueryArg.type (m.a.toGo nils) xa backa)
    (hr : Codec (krpcEnv env net) ResponseResult.type (m.r.toGo nils) xr backr) :
    List (Row (krpcEnv env net)) :=
  [Row.tagged "T" "t" "t".toList false fun _ => codec_string hb.t,
   Row.tagged "Y" "y" "y".toList false fun _ => codec_string hb.y,
   Row.tagged "Q" "q,omitempty" "q".toList true fun _ => codec_string hb.q,
   Row.tagged "A" "a,omitempty" "a".toList true fun _ => ha,
   Row.tagged "R" "r,omitempty" "r".toList true fun _ => hr,
   Row.tagged "E" "e,omitempty" "e".toList true (Error.codec rfl hb.e),
   Row.tagged "RO" "ro,omitempty" "ro".toList true fun _ => codec_bool m.ro]

/-- **Bounded messages are read back.** -/
theorem roundTrips_of_bounded (env : Env) (net : Net) {m : Message} (hb : m.Bounded) :
    m.RoundTrips env net := by
  intro nils
  obtain ⟨xa, backa, hbacka, ha⟩ := QueryArg.codec env net nils hb.a
  obtain ⟨xr, backr, hbackr, hr⟩ := ResponseResult.codec env net nils hb.r
  have hnodup : ((rows nils m hb ha hr).map Row.key).Nodup := names_nodup
  obtain ⟨x, hx⟩ := codec_struct methods_type hnodup
  have hdec : DecodeBytes (krpcEnv env net) x.bytes type (zero type) =
      .ok (.struct ((rows nils m hb ha hr).map Row.back)) :=
    decodeBytes_ok_iff.2 ⟨x, [], hx.wf, (append_nil _).symm, hx.reads⟩
  have ht : strOf (optBack false .string (.str m.t) (.str m.t)) = m.t := strOf_optBack false _
  have hy : strOf (optBack false .string (.str m.y) (.str m.y)) = m.y := strOf_optBack false _
  have hq : strOf (optBack true .string (.str m.q) (.str m.q)) = m.q := strOf_optBack true _
  have harg : QueryArg.ofGo (optBack true QueryArg.type (m.a.toGo nils) backa) = m.a :=
    optBack_cases (P := fun w => QueryArg.ofGo w = m.a) (QueryArg.ofGo_zero nils) hbacka
  have hres : m.r.Equal net
      (.ofGo (optBack true ResponseResult.type (m.r.toGo nils) backr)) := by
    refine optBack_cases (P := fun w => m.r.Equal net (.ofGo w)) (fun hz => ?_) hbackr
    rw [ResponseResult.ofGo_zero nils hz]
    exact ResponseResult.equal_refl hb.r
  have herr : Error.ofGo (optBack true Error.type m.e.toGo m.e.toGo) = m.e := by
    refine optBack_cases (P := fun w => Error.ofGo w = m.e) (fun hz => ?_) m.e.ofGo_toGo
    rw [Error.isZero_toGo hz]
    rfl
  have hro : boolOf (optBack true .bool (.bool m.ro) (.bool m.ro)) = m.ro := boolOf_optBack true _
  have hm' : ofGo (.struct ((rows nils m hb ha hr).map Row.back)) = { m with
      r := .ofGo (optBack true ResponseResult.type (m.r.toGo nils) backr) } :=
    Message.ext ht hy hq harg rfl herr hro
  have hdecode : Decode env net x.bytes = .ok { m with
      r := .ofGo (optBack true ResponseResult.type (m.r.toGo nils) backr) } := by
    rw [Decode, hdec, except_map_ok, hm']
  exact ⟨x.bytes, _, hx.writes false, hdecode, hres, rfl⟩

def sampleResponse : Message := NewResponseMsg (utf8 "aa")
  { nodes := [NewNode .zero [1, 2, 3, 4] 80]
    nodes6 := [NewNode .zero (replicate 16 1) 80]
    values := [NewAddress (.netIP [1, 2, 3, 4]) 80]
    seq := 7 }

theorem sampleResponse_bounded : sampleResponse.Bounded where
  t := by decide
  y := by decide
  q := by decide
  a := ⟨by decide, by simp [sampleResponse, NewResponseMsg], by decide, by decide, by decide,
    by decide⟩
  r :=
    { nodes := by
        refine ⟨fun n hn => ?_, by decide⟩
        cases mem_singleton.1 hn
        exact ⟨[1, 2, 3, 4], ⟨rfl, .inl rfl⟩, by decide⟩
      nodes6 := by
        refine ⟨fun n hn => ?_, by decide⟩
        cases mem_singleton.1 hn
        exact ⟨replicate 16 1, ⟨rfl, .inr rfl⟩, by decide⟩
      token := by decide
      values := by
        intro a ha
        cases mem_singleton.1 ha
        exact ⟨[1, 2, 3, 4], rfl, .inl rfl⟩
      v := by decide
      k := by decide
      sig := by decide }
  e := by decide

theorem roundTrips_sampleResponse :
    sampleResponse.Bounded ∧ sampleResponse.RoundTrips bareEnv Address.sampleNet :=
  ⟨sampleResponse_bounded, roundTrips_of_bounded bareEnv Address.sampleNet sampleResponse_bounded⟩

/-! ## What is not read back -/

theorem keyed : Keyed env fields names := keyed_of_fieldKeys (by decide +kernel) names_nodup

theorem store_string_ok {old w tree} (hold : ∃ s, old = .str s ∧ s.length < 2 ^ 31)
    (hw : tree.WF) (h : store env .string old true tree = .ok w) :
    ∃ s, w = .str s ∧ s.length < 2 ^ 31 := by
  obtain ⟨s, rfl, -⟩ := hold
  rw [store_noMethods (t := .string) trivial rfl rfl] at h
  cases tree with
  | int ds => cases h
  | str len c =>
    rw [storeValue] at h
    split_ifs at h
    cases h
    exact ⟨c, rfl, Tree.StrOk.length_lt hw⟩
  | list ts => cases h
  | dict es => cases h

theorem decode_t {b m} (h : Decode env net b = .ok m) : m.t.length < 2 ^ 31 := by
  obtain ⟨x, hx, rfl⟩ := except_map_eq_ok.1 h
  obtain ⟨tree, s, hw, -, hstore⟩ := decodeBytes_ok_iff.1 hx
  obtain ⟨es, ws, rfl, rfl, hall⟩ := keyed.store_ok methods_type hstore
  obtain ⟨w, hget, hrun⟩ := hall 0 _ _ _ rfl rfl
  have htrees : ∀ x ∈ (es.filter fun e => e.key = keyBytes "t".toList).map Entry.val, x.WF := by
    intro x hx
    obtain ⟨e, he, rfl⟩ := mem_map.1 hx
    exact (Tree.wfEntries_iff.1 hw e (mem_of_mem_filter he)).2
  have hzero : ∃ s : Bytes, zero .string = .str s ∧ s.length < 2 ^ 31 := ⟨[], rfl, by norm_num⟩
  obtain ⟨t, rfl, ht⟩ := storeRun_keeps (P := fun w => ∃ s, w = .str s ∧ s.length < 2 ^ 31)
    (fun tree htree _ _ hv => store_string_ok hv (htrees tree htree)) hzero hrun
  have hfield : strOf (fieldOf (.struct ws) 0) = t := by
    simp [fieldOf, getD_eq_getElem?_getD, hget, strOf]
  exact (congrArg (·.length < 2 ^ 31) hfield).mpr ht

def longQuery : Message := NewQueryMsg (replicate (2 ^ 31) 0) (utf8 "ping") {}

def zonedResponse : Message := NewResponseMsg (utf8 "aa")
  { nodes6 := [⟨.zero, ⟨some (.ipAddr (254 :: 128 :: replicate 14 1) (utf8 "eth0")), 80⟩⟩] }

def udpResponse : Message := NewResponseMsg (utf8 "aa")
  { nodes := [NewNodeByUDPAddr .zero (.udpAddr [1, 2, 3, 4] 80 [])] }

theorem not_roundTrips_longQuery : ¬ longQuery.RoundTrips env net := by
  intro h
  obtain ⟨b, m', -, hdec, -, heq⟩ := h fun _ => true
  have hlen := decode_t hdec
  rw [heq] at hlen
  exact absurd hlen (by rw [longQuery, NewQueryMsg, length_replicate]; exact lt_irrefl _)

theorem not_roundTrips {m back : Message}
    (h : (m.Encode env net (fun _ => true) >>= Decode env net) = .ok back)
    (hne : ¬ m.r.Equal net back.r) : ¬ m.RoundTrips env net := by
  intro hround
  obtain ⟨b, m', henc, hdec, hr, -⟩ := hround fun _ => true
  rw [henc, except_ok_bind, hdec] at h
  cases h
  exact hne hr

theorem lost_messages : (longQuery.IsQuery ∧ ¬ longQuery.RoundTrips bareEnv Address.sampleNet) ∧
    (zonedResponse.IsResponse ∧ ¬ zonedResponse.RoundTrips bareEnv Address.sampleNet) ∧
    (udpResponse.IsResponse ∧ ¬ udpResponse.RoundTrips bareEnv Address.sampleNet) := by
  have hzoned : (zonedResponse.Encode bareEnv Address.sampleNet (fun _ => true) >>=
      Decode bareEnv Address.sampleNet) = .ok (NewResponseMsg (utf8 "aa")
        { nodes6 := [⟨.zero, ⟨some (.ipAddr (254 :: 128 :: replicate 14 1) []), 80⟩⟩] }) :=
    except_eq_ok (by decide +kernel)
  have hudp : (udpResponse.Encode bareEnv Address.sampleNet (fun _ => true) >>=
      Decode bareEnv Address.sampleNet) = .ok (NewResponseMsg (utf8 "aa")
        { nodes := [⟨.zero, ⟨some (.ipAddr [1, 2, 3, 4] []), 80⟩⟩] }) :=
    except_eq_ok (by decide +kernel)
  refine ⟨⟨rfl, not_roundTrips_longQuery⟩, ⟨rfl, not_roundTrips hzoned ?_⟩,
    ⟨rfl, not_roundTrips hudp ?_⟩⟩
  · rintro ⟨-, -, hnodes, -⟩
    cases hnodes with
    | cons h _ => exact absurd h (by decide +kernel)
  · rintro ⟨-, hnodes, -⟩
    cases hnodes with
    | cons h _ => exact absurd h (by decide +kernel)

end Message

end GoI2pBt.Krpc
