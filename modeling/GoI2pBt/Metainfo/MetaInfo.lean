/-
  Torrent files, written and loaded.
-/
import GoI2pBt.Metainfo.Address
import GoI2pBt.Metainfo.Info

namespace GoI2pBt.Metainfo

open List Bencode Bencode.Tree Function

/-! ## URL lists -/

abbrev URLList := List Bytes

namespace URLList

def type : GoType := .named "URLList" (.slice .string)

def toGo (us : URLList) : GoVal := .slice (us.map .str) []

def ofGo (v : GoVal) : URLList := (elemsOf v).1.map strOf

def MarshalBencode (env : Env) (us : URLList) : Except Error Bytes :=
  EncodeBytes env (.iface (.slice .string) (toGo us))

def urls : List GoVal → Except Error URLList
  | [] => .ok []
  | .iface .string (.str s) :: vs => do return s :: (← urls vs)
  | _ :: _ => .error (.method "the element of 'url-list' is not string")

def UnmarshalBencode (env : Env) (b : Bytes) : Except Error URLList :=
  match DecodeBytes env b .iface .nilIface with
  | .error err => .error err
  | .ok (.iface .string (.str vs)) => .ok [vs]
  | .ok (.iface (.slice .iface) vs) => urls (elemsOf vs).1
  | .ok _ => .error (.method "invalid 'url-lsit'")

def methods (env : Env) : Methods where
  marshalBencode := some (.value, fun v => MarshalBencode env (ofGo v))
  unmarshalBencode := some fun _ b => (UnmarshalBencode env b).map toGo

theorem ofGo_toGo (us : URLList) : ofGo (toGo us) = us := by
  simp [ofGo, toGo, elemsOf, comp_def, strOf]

end URLList

def metainfoEnv (env : Env) : Env := env.withMethods fun
  | "URLList" => URLList.methods env.noMethods
  | "HostAddress" => HostAddress.methods env.noMethods
  | _ => {}

/-! ## The file -/

@[ext]
structure MetaInfo where
  infoBytes : Bytes
  announce : Bytes
  announceList : List (List Bytes)
  nodes : List HostAddress
  urlList : URLList
  creationDate : ℤ
  comment : Bytes
  createdBy : Bytes
  encoding : Bytes
deriving DecidableEq

namespace MetaInfo

def fields : List (Field × GoType) := [(tagged "InfoBytes" "info", .rawMessage),
   (tagged "Announce" "announce,omitempty", .string),
   (tagged "AnnounceList" "announce-list,omitempty",
    .named "AnnounceList" (.slice (.slice .string))),
   (tagged "Nodes" "nodes,omitempty", .slice HostAddress.type),
   (tagged "URLList" "url-list,omitempty", URLList.type),
   (tagged "CreationDate" "creation date,omitempty", .int 64),
   (tagged "Comment" "comment,omitempty", .string),
   (tagged "CreatedBy" "created by,omitempty", .string),
   (tagged "Encoding" "encoding,omitempty", .string)]

def type : GoType := .named "MetaInfo" (.struct fields)

def tierToGo (tier : List Bytes) : GoVal := .slice (tier.map .str) []

def toGo (mi : MetaInfo) : GoVal := .struct
  [bytesVal mi.infoBytes, .str mi.announce, .slice (mi.announceList.map tierToGo) [],
   .slice (mi.nodes.map HostAddress.toGo) [], URLList.toGo mi.urlList, .int mi.creationDate,
   .str mi.comment, .str mi.createdBy, .str mi.encoding]

def ofGo (v : GoVal) : MetaInfo where
  infoBytes := valBytes (fieldOf v 0)
  announce := strOf (fieldOf v 1)
  announceList := (elemsOf (fieldOf v 2)).1.map fun tier => (elemsOf tier).1.map strOf
  nodes := (elemsOf (fieldOf v 3)).1.map HostAddress.ofGo
  urlList := URLList.ofGo (fieldOf v 4)
  creationDate := intOf (fieldOf v 5)
  comment := strOf (fieldOf v 6)
  createdBy := strOf (fieldOf v 7)
  encoding := strOf (fieldOf v 8)

def Load (env : Env) (b : Bytes) : Except Error MetaInfo :=
  (DecodeBytes (metainfoEnv env) b type (zero type)).map ofGo

def Write (env : Env) (mi : MetaInfo) : Except Error Bytes :=
  EncodeBytes (metainfoEnv env) (.iface type mi.toGo)

def InfoHash (sha1 : Bytes → Hash) (mi : MetaInfo) : Hash := NewHashFromBytes sha1 mi.infoBytes

/-! ## Loading -/

variable {env : Env}

def names : List (List Char) :=
  ["info".toList, "announce".toList, "announce-list".toList, "nodes".toList, "url-list".toList,
   "creation date".toList, "comment".toList, "created by".toList, "encoding".toList]

theorem methods_type : (metainfoEnv env).methods "MetaInfo" = {} := rfl

theorem names_nodup : (names.map keyBytes).Nodup := by decide +kernel

theorem keyed : Keyed env fields names := keyed_of_fieldKeys (by decide +kernel) names_nodup

theorem infoBytes_eq {tree x} (h : store (metainfoEnv env) type (zero type) true tree = .ok x) :
    ∃ es, tree = .dict es ∧ ∀ e, es.filter (fun e => e.key = utf8 "info") = [e] →
      (ofGo x).infoBytes = e.val.bytes ∧ e.val.scannable = true := by
  obtain ⟨es, ws, rfl, rfl, hall⟩ := keyed.store_ok methods_type h
  refine ⟨es, rfl, fun e he => ?_⟩
  obtain ⟨w, hw, hrun⟩ := hall 0 _ _ _ rfl rfl
  change storeRun _ _ _ _ ((es.filter fun e => e.key = utf8 "info").map Entry.val) = _ at hrun
  rw [he, map_singleton, storeRun, zero, store_rawMessage] at hrun
  cases hs : e.val.scannable with
  | false => rw [hs] at hrun; cases hrun
  | true =>
    rw [hs] at hrun
    cases hrun
    refine ⟨?_, rfl⟩
    simp [ofGo, fieldOf, getD_eq_getElem?_getD, hw]

/-! ## Bounds -/

theorem urls_short {vs us} (hvs : ∀ v ∈ vs, Short v)
    (h : URLList.urls vs = .ok us) : ∀ s ∈ us, s.length < 2 ^ 31 := by
  induction vs generalizing us with
  | nil => cases h; simp
  | cons v vs ih =>
    rw [URLList.urls.eq_def] at h
    split at h
    · cases h; simp
    · rename_i s vs' heq
      cases heq
      obtain ⟨us', hus', h⟩ := except_bind_eq_ok.1 h
      cases h
      intro s' hs'
      rcases mem_cons.1 hs' with rfl | hs'
      · cases hvs _ mem_cons_self with
        | iface h =>
          cases h with
          | str h => exact h
      · exact ih (fun v hv => hvs v (mem_cons_of_mem _ hv)) hus' s' hs'
    · cases h

theorem URLList.short_toGo {us} (h : ∀ s ∈ us, s.length < 2 ^ 31) : Short (URLList.toGo us) := by
  refine .slice (fun v hv => ?_) (by simp)
  obtain ⟨s, hs, rfl⟩ := mem_map.1 hv
  exact .str (h s hs)

theorem URLList.UnmarshalBencode_short {b us}
    (h : URLList.UnmarshalBencode env.noMethods b = .ok us) : Short (URLList.toGo us) := by
  refine URLList.short_toGo ?_
  rw [URLList.UnmarshalBencode] at h
  split at h
  · cases h
  · rename_i s hv
    cases h
    cases decodeBytes_short shortEnv_noMethods .nilIface hv with
    | iface h =>
      cases h with
      | str h => simpa using h
  · rename_i vs hv
    cases decodeBytes_short shortEnv_noMethods .nilIface hv with
    | iface hs => exact urls_short (short_elemsOf hs).1 h
  · cases h

theorem shortEnv : ShortEnv (metainfoEnv env) where
  unmarshalBencode name u h old b x hold hx := by
    simp only [metainfoEnv, Env.withMethods] at h
    split at h
    · cases h
      obtain ⟨us, hus, rfl⟩ := except_map_eq_ok.1 hx
      exact URLList.UnmarshalBencode_short hus
    · cases h
      obtain ⟨a, ha, rfl⟩ := except_map_eq_ok.1 hx
      exact HostAddress.UnmarshalBencode_short shortEnv_noMethods ha
    · cases h
  unmarshalText name u h := by
    simp only [metainfoEnv, Env.withMethods] at h
    split at h <;> cases h

structure Bounded (mi : MetaInfo) : Prop where
  announce : mi.announce.length < 2 ^ 31
  announceList : ∀ tier ∈ mi.announceList, ∀ s ∈ tier, s.length < 2 ^ 31
  urlList : ∀ s ∈ mi.urlList, s.length < 2 ^ 31
  creationDate : -2 ^ 63 ≤ mi.creationDate ∧ mi.creationDate < 2 ^ 63
  comment : mi.comment.length < 2 ^ 31
  createdBy : mi.createdBy.length < 2 ^ 31
  encoding : mi.encoding.length < 2 ^ 31

theorem bounded_ofGo {v} (h : Short v) : (ofGo v).Bounded where
  announce := length_strOf (short_fieldOf h 1)
  announceList tier htier := by
    obtain ⟨w, hw, rfl⟩ := mem_map.1 htier
    exact length_strOf_elems ((short_elemsOf (short_fieldOf h 2)).1 w hw)
  urlList := length_strOf_elems (short_fieldOf h 4)
  creationDate := intOf_bounds (short_fieldOf h 5)
  comment := length_strOf (short_fieldOf h 6)
  createdBy := length_strOf (short_fieldOf h 7)
  encoding := length_strOf (short_fieldOf h 8)

/-! ## Writing -/

theorem trees_strs (us : List Bytes) :
    Value.trees (us.map .str) = us.map fun s => .str (formatUint s.length) s := by
  induction us with
  | nil => rfl
  | cons s us ih => rw [map_cons, Value.trees, ih]; rfl

theorem validItems_strs {us : List Bytes} (h : ∀ s ∈ us, s.length < 2 ^ 31) :
    Value.ValidItems (us.map .str) := by
  induction us with
  | nil => trivial
  | cons s us ih => exact ⟨h s mem_cons_self, ih fun s hs => h s (mem_cons_of_mem _ hs)⟩

theorem urls_generic {us : List Bytes} {es : List GoVal}
    (h : genericItems es = some (us.map .str)) : URLList.urls es = .ok us := by
  induction us generalizing es with
  | nil =>
    cases es with
    | nil => rfl
    | cons e es =>
      obtain ⟨w, ws, hw, -⟩ := genericItems_cons.1 h
      cases hw
  | cons s us ih =>
    cases es with
    | nil => cases h
    | cons e es =>
      obtain ⟨w, ws, hw, he, hes⟩ := genericItems_cons.1 h
      cases hw
      rw [generic_eq_str he, URLList.urls, ih hes]
      rfl

theorem URLList.unmarshal {us : URLList} (h : ∀ s ∈ us, s.length < 2 ^ 31) :
    URLList.UnmarshalBencode env
      (Tree.list (us.map fun s => .str (formatUint s.length) s)).bytes = .ok us := by
  obtain ⟨w, hw, hg⟩ := decodeBytes_generic env (v := .list (us.map .str))
    (validItems_strs h)
  rw [Value.tree, trees_strs] at hw
  rw [URLList.UnmarshalBencode, hw]
  rcases generic_eq_list hg with ⟨rfl, hnil⟩ | ⟨es, sp, rfl, hes⟩
  · rw [map_eq_nil_iff.1 hnil]; rfl
  · exact urls_generic hes

theorem URLList.codec {us} (h : ∀ s ∈ us, s.length < 2 ^ 31) :
    Codec (metainfoEnv env) URLList.type (URLList.toGo us)
      (.list (us.map fun s => .str (formatUint s.length) s)) (URLList.toGo us) := by
  have hc : Codecs env.noMethods .string (us.map .str) _ _ :=
    codecs_strs (e := .string) rfl trivial h
  obtain ⟨back, -, hcodec⟩ := codec_slice (t := .slice .string) rfl trivial rfl [] hc
  refine codec_marshaler rfl rfl rfl hcodec.wf hcodec.scan ?_ ?_
  · rw [URLList.ofGo_toGo]
    exact hcodec.writes false
  · rw [URLList.unmarshal h]; rfl

theorem announceList_codec {l} (h : ∀ tier ∈ l, ∀ s ∈ tier, s.length < 2 ^ 31) :
    ∃ x back, ((elemsOf back).1.map fun tier => (elemsOf tier).1.map strOf) = l ∧
      Codec (metainfoEnv env) (.named "AnnounceList" (.slice (.slice .string)))
        (.slice (l.map tierToGo) []) x back := by
  have htier : ∀ tier ∈ l, ∃ x back, (elemsOf back).1.map strOf = tier ∧
      Codec (metainfoEnv env) (.slice .string) (tierToGo tier) x back := fun tier ht => by
    have hc : Codecs (metainfoEnv env) .string (tier.map .str) _ _ :=
      codecs_strs (e := .string) rfl trivial (h tier ht)
    obtain ⟨back, hback, hcodec⟩ := codec_slice (t := .slice .string) rfl trivial rfl [] hc
    exact ⟨_, back, by simp [hback, comp_def, strOf], hcodec⟩
  obtain ⟨xs, bs, hp, hc⟩ := exists_codecs htier
  have hn : NoMethods (metainfoEnv env) (.named "AnnounceList" (.slice (.slice .string))) := rfl
  obtain ⟨back, hback, hcodec⟩ := codec_slice rfl hn rfl [] hc
  refine ⟨_, back, ?_, hcodec⟩
  rw [hback]
  clear htier hc hback hcodec h
  induction hp with
  | nil => rfl
  | cons hp _ ih => rw [map_cons, hp, ih]

theorem nodes_codec {nodes} (h : nodes = [])
    (hne : ¬ (true = true ∧ isEmptyValue (.slice (nodes.map HostAddress.toGo) []) = true)) :
    Codec (metainfoEnv env) (.slice HostAddress.type) (.slice (nodes.map HostAddress.toGo) [])
      (.list []) .nilSlice :=
  absurd ⟨rfl, by rw [h]; rfl⟩ hne

theorem tagIs_nodes : tagIs "nodes,omitempty" "nodes".toList true := by decide +kernel

def rows (mi : MetaInfo) (hb : mi.Bounded) (hnodes : mi.nodes = []) {x xa : Tree} {backa : GoVal}
    (hx : Codec (metainfoEnv env) .rawMessage (bytesVal mi.infoBytes) x (bytesVal mi.infoBytes))
    (ha : Codec (metainfoEnv env) (.named "AnnounceList" (.slice (.slice .string)))
        (.slice (mi.announceList.map tierToGo) []) xa backa) : List (Row (metainfoEnv env)) :=
  [Row.tagged "InfoBytes" "info" "info".toList false fun _ => hx,
   Row.tagged "Announce" "announce,omitempty" "announce".toList true
    fun _ => codec_string hb.announce,
   Row.tagged "AnnounceList" "announce-list,omitempty" "announce-list".toList true fun _ => ha,
   Row.tagged "Nodes" "nodes,omitempty" "nodes".toList true (nodes_codec hnodes) rfl tagIs_nodes,
   Row.tagged "URLList" "url-list,omitempty" "url-list".toList true
    fun _ => URLList.codec hb.urlList,
   Row.tagged "CreationDate" "creation date,omitempty" "creation date".toList true
    fun _ => codec_int (le_refl 64) (by decide) hb.creationDate.1 hb.creationDate.2,
   Row.tagged "Comment" "comment,omitempty" "comment".toList true fun _ => codec_string hb.comment,
   Row.tagged "CreatedBy" "created by,omitempty" "created by".toList true
    fun _ => codec_string hb.createdBy,
   Row.tagged "Encoding" "encoding,omitempty" "encoding".toList true
    fun _ => codec_string hb.encoding]

theorem load_write {mi : MetaInfo} (hb : mi.Bounded) (hnodes : mi.nodes = []) {x : Tree}
    (hw : x.WF) (hs : x.scannable = true) (hinfo : mi.infoBytes = x.bytes) :
    ∃ out, Write env mi = .ok out ∧ Load env out = .ok mi := by
  have hx : Codec (metainfoEnv env) .rawMessage (bytesVal mi.infoBytes) x
      (bytesVal mi.infoBytes) := by rw [hinfo]; exact codec_rawMessage hw hs
  obtain ⟨xa, backa, hbacka, ha⟩ : ∃ x back, _ ∧ Codec (metainfoEnv env) _ _ x back :=
    announceList_codec hb.announceList
  have hnodup : ((rows mi hb hnodes hx ha).map Row.key).Nodup := names_nodup
  obtain ⟨y, hy⟩ := codec_struct methods_type hnodup
  refine ⟨y.bytes, hy.writes false, ?_⟩
  have hload : DecodeBytes (metainfoEnv env) y.bytes type (zero type) =
      .ok (.struct ((rows mi hb hnodes hx ha).map Row.back)) :=
    decodeBytes_ok_iff.2 ⟨y, [], hy.wf, (append_nil _).symm, hy.reads⟩
  rw [Load, hload, except_map_ok]
  refine congrArg _ (MetaInfo.ext ?_ ?_ ?_ ?_ ?_ ?_ ?_ ?_ ?_)
  · exact valBytes_bytesVal _
  · exact strOf_optBack true _
  · change (elemsOf (optBack true (.named "AnnounceList" (.slice (.slice .string)))
      (.slice (mi.announceList.map tierToGo) []) backa)).1.map _ = _
    rw [elemsOf_optBack true rfl, hbacka]
    intro hnil
    rw [map_eq_nil_iff.1 hnil] at hbacka
    exact map_eq_nil_iff.1 hbacka
  · change (elemsOf (optBack true (.slice HostAddress.type)
      (.slice (mi.nodes.map HostAddress.toGo) []) .nilSlice)).1.map _ = _
    rw [elemsOf_optBack true rfl fun _ => rfl, hnodes]
    rfl
  · change (elemsOf (optBack true URLList.type (.slice (mi.urlList.map .str) [])
      (URLList.toGo mi.urlList))).1.map strOf = _
    rw [elemsOf_optBack true rfl]
    · exact URLList.ofGo_toGo _
    · exact fun hnil => hnil
  · exact intOf_optBack true 64 _
  · exact strOf_optBack true _
  · exact strOf_optBack true _
  · exact strOf_optBack true _

/-- **The info dictionary is kept byte for byte.** -/
theorem load_infoBytes (env : Env) (sha1 : Bytes → Hash) {b : Bytes} {mi : MetaInfo}
    (h : Load env b = .ok mi) :
    (∃ es s, (Tree.dict es).WF ∧ b = (Tree.dict es).bytes ++ s) ∧
      ∀ es s e, (Tree.dict es).WF → b = (Tree.dict es).bytes ++ s →
        es.filter (fun e => e.key = utf8 "info") = [e] →
        mi.infoBytes = e.val.bytes ∧ mi.InfoHash sha1 = sha1 e.val.bytes ∧
          (mi.nodes = [] → ∃ out mi', mi.Write env = .ok out ∧ Load env out = .ok mi' ∧
            mi'.infoBytes = mi.infoBytes ∧ mi'.InfoHash sha1 = mi.InfoHash sha1) := by
  obtain ⟨x, hx, rfl⟩ := except_map_eq_ok.1 h
  obtain ⟨tree, s, hw, hb, hstore⟩ := decodeBytes_ok_iff.1 hx
  obtain ⟨es, rfl, hinfo⟩ := infoBytes_eq hstore
  refine ⟨⟨es, s, hw, hb⟩, fun es' s' e hw' hb' he => ?_⟩
  -- there is only one way to read the text as a dictionary
  obtain ⟨htree, -⟩ := bytes_inj hw' hw (hb'.symm.trans hb)
  cases htree
  obtain ⟨hbytes, hscan⟩ := hinfo e he
  refine ⟨hbytes, congrArg sha1 hbytes, fun hnodes => ?_⟩
  have hbound : (ofGo x).Bounded := bounded_ofGo (decodeBytes_short shortEnv (short_zero _) hx)
  have hwf : e.val.WF := (wfEntries_iff.1 hw e (mem_of_mem_filter (he ▸ mem_singleton_self e))).2
  obtain ⟨out, hwrite, hload⟩ := load_write hbound hnodes hwf hscan hbytes
  exact ⟨out, ofGo x, hwrite, hload, rfl, rfl⟩

def sample : Bytes := utf8 "d04:infod6:lengthi05ee7:comment2:hie!"

theorem load_infoBytes_sample :
    Load bareEnv sample = .ok ⟨utf8 "d6:lengthi05ee", [], [], [], [], 0, utf8 "hi", [], []⟩ ∧
    ∃ out mi', MetaInfo.Write bareEnv
        ⟨utf8 "d6:lengthi05ee", [], [], [], [], 0, utf8 "hi", [], []⟩ = .ok out ∧
      Load bareEnv out = .ok mi' ∧ mi'.infoBytes = utf8 "d6:lengthi05ee" := by
  have hload : Load bareEnv sample =
      .ok ⟨utf8 "d6:lengthi05ee", [], [], [], [], 0, utf8 "hi", [], []⟩ :=
    except_eq_ok (by decide +kernel)
  refine ⟨hload, ?_⟩
  obtain ⟨-, -, hround⟩ := (load_infoBytes bareEnv (fun _ => ⟨replicate 20 0, rfl⟩) hload).2
    [⟨utf8 "04", utf8 "info", .dict [⟨utf8 "6", utf8 "length", .int (utf8 "05")⟩]⟩,
      ⟨utf8 "7", utf8 "comment", .str (utf8 "2") (utf8 "hi")⟩] (utf8 "!")
    ⟨utf8 "04", utf8 "info", .dict [⟨utf8 "6", utf8 "length", .int (utf8 "05")⟩]⟩
    (by simp only [WF, WFEntries, StrOk]; decide +kernel) (by decide +kernel) rfl
  obtain ⟨out, mi', hwrite, hload', hinfo, -⟩ := hround rfl
  exact ⟨out, mi', hwrite, hload', hinfo⟩

end MetaInfo

namespace Hashes

def type : GoType := .named "Hashes" (.slice Hash.type)

def toGo (hs : List Hash) : GoVal := .slice (hs.map Hash.toGo) []

def ofGo (v : GoVal) : List Hash := (elemsOf v).1.map Hash.ofGo

def MarshalBencode (env : Env) (hs : List Hash) : Except Error Bytes :=
  EncodeBytes env (.iface (.slice (.uint 8)) (bytesVal (hs.flatMap Hash.bytes)))

def split : ℕ → Bytes → List Hash
  | 0, _ => []
  | n + 1, bs => Hash.ofBytes (bs.take HashSize) :: split n (bs.drop HashSize)

def UnmarshalBencode (env : Env) (b : Bytes) : Except Error (List Hash) :=
  match DecodeBytes env b (.slice (.uint 8)) (zero (.slice (.uint 8))) with
  | .error err => .error err
  | .ok v =>
    let bs := valBytes v
    if bs.length % HashSize ≠ 0 then .error (.method "Hashes: invalid bytes length '%d'")
    else .ok (split (bs.length / HashSize) bs)

def methods (env : Env) : Methods where
  marshalBencode := some (.value, fun v => MarshalBencode env (ofGo v))
  unmarshalBencode := some fun _ b => (UnmarshalBencode env b).map toGo

end Hashes

namespace File

def type : GoType := .named "File" (.struct
  [(tagged "Length" "length", .int 64), (tagged "Paths" "path", .slice .string)])

def ofGo (v : GoVal) : File where
  length := intOf (fieldOf v 0)
  paths := (elemsOf (fieldOf v 1)).1.map strOf

def Path (f : File) (info : Info) : Bytes :=
  if info.IsDir then joinPath (info.name :: f.paths) else info.name

end File

namespace Info

def type : GoType := .named "Info" (.struct
  [(tagged "Name" "name", .string), (tagged "PieceLength" "piece length", .int 64),
   (tagged "Pieces" "pieces", Hashes.type), (tagged "Length" "length,omitempty", .int 64),
   (tagged "Files" "files,omitempty", .slice File.type)])

def ofGo (v : GoVal) : Info where
  name := strOf (fieldOf v 0)
  pieceLength := intOf (fieldOf v 1)
  pieces := Hashes.ofGo (fieldOf v 2)
  length := intOf (fieldOf v 3)
  files := (elemsOf (fieldOf v 4)).1.map File.ofGo

end Info

def infoEnv (env : Env) : Env := env.withMethods fun
  | "Hashes" => Hashes.methods env.noMethods
  | _ => {}

namespace MetaInfo

def Info (env : Env) (mi : MetaInfo) : Except Error Metainfo.Info :=
  (DecodeBytes (infoEnv env) mi.infoBytes Info.type (zero Info.type)).map Info.ofGo

/-- A file `d/a` of two bytes, in one piece. -/
example : Info bareEnv
      ⟨utf8 "d5:filesld6:lengthi2e4:pathl1:aeee4:name1:d12:piece lengthi4e6:pieces20:01234567890123456789e",
        [], [], [], [], 0, [], [], []⟩ =
    .ok ⟨utf8 "d", 4, [Hash.ofBytes (utf8 "01234567890123456789")], 0, [⟨2, [utf8 "a"]⟩]⟩ :=
  except_eq_ok (by decide +kernel)

def Announces (mi : MetaInfo) : List (List Bytes) :=
  if 0 < mi.announceList.length then mi.announceList
  else if mi.announce ≠ [] then [[mi.announce]]
  else []

end MetaInfo

end GoI2pBt.Metainfo
