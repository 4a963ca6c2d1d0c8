/-
  The store of BEP 44: authentic items, and which item follows which.
-/
import GoI2pBt.Bencode.Canonical
import GoI2pBt.Dht.RoutingTable
import GoI2pBt.Krpc.Message

namespace GoI2pBt.Dht

open List Krpc Metainfo Function
open Bencode (Env Error EncodeBytes bareEnv bytesVal)

/-! ## Items -/

def MaxValueSize : ℕ := 1000
def MaxSaltSize : ℕ := 64
def DataExpirationTime : ℤ := minute * 120

structure Crypto where
  sha256 : Bytes → Bytes
  verify : Bytes → Bytes → Bytes → Bool

def Crypto.target (c : Crypto) (b : Bytes) : Hash := .ofBytes (c.sha256 b)

structure StorageItem where
  value : Bytes
  isMutable : Bool
  publicKey : Bytes
  signature : Bytes
  seq : Int64
  salt : Bytes
  cas : Int64
  storedAt : ℤ := zeroTime
  target : Hash := .zero
deriving DecidableEq

variable (env : Env) (c : Crypto)

namespace StorageItem

def IsExpired (item : StorageItem) (now : ℤ) : Bool := now - item.storedAt > DataExpirationTime

def signatureMessage (seq : Int64) (salt value : Bytes) : Bytes :=
  match EncodeBytes env (.iface (.map .iface) (.map (
    (if salt ≠ [] then [(utf8 "salt", .iface (.slice (.uint 8)) (bytesVal salt))] else []) ++
    [(utf8 "seq", .iface (.int 64) (.int seq.toInt)),
     (utf8 "v", .iface (.slice (.uint 8)) (bytesVal value))]))) with
  | .ok b => b
  | .error _ => []

def CreateSignatureMessage (item : StorageItem) : Bytes :=
  signatureMessage env item.seq item.salt item.value

def VerifySignature (item : StorageItem) : Bool :=
  if !item.isMutable then true
  else if item.publicKey.length ≠ 32 then false
  else if item.signature.length ≠ 64 then false
  else c.verify item.publicKey (item.CreateSignatureMessage env) item.signature

def hashed (item : StorageItem) : Bytes :=
  if item.isMutable then item.publicKey ++ item.salt else item.value

def ComputeTarget (item : StorageItem) : Hash := c.target item.hashed

open Bencode (encodeFrom encodeStr)

/-- The signed dictionary as a tree of nodes, which its bytes determine. -/
def messageNode (seq : Int64) (salt value : Bytes) : Bencode.Node :=
  .seq true ((if salt ≠ [] then [.str (utf8 "salt"), .str salt] else []) ++
    [.str (utf8 "seq"), .int seq.toInt, .str (utf8 "v"), .str value])

theorem signatureMessage_eq (seq : Int64) (salt value : Bytes) :
    signatureMessage env seq salt value = (messageNode seq salt value).bytes := by
  have hbytes (b : Bytes) : encodeFrom env false true (.slice (.uint 8)) false (bytesVal b) =
      .ok (encodeStr b) := by
    change Except.ok (encodeStr (Bencode.valBytes (bytesVal b))) = _
    rw [Bencode.valBytes_bytesVal]
  have hlt : utf8 "salt" < utf8 "seq" ∧ utf8 "salt" < utf8 "v" ∧ utf8 "seq" < utf8 "v" := by decide
  rw [signatureMessage, messageNode]
  split_ifs with hsalt
  all_goals
    simp only [cons_append, nil_append, EncodeBytes, Bencode.encodeValue, encodeFrom,
      Bencode.encodeEntries, Bencode.findMarshaler, Bencode.orMarshaler, Bencode.isNilValue, hbytes,
      Bencode.writeDict, Bencode.GoType.elem, Bool.false_eq_true, if_false]
    rw [Bencode.sort_of_keysLt (by simp [Bencode.KeysLt, hlt])]
    rfl

/-- **A signature fits one item only.** -/
theorem createSignatureMessage_eq_iff {x y : StorageItem} :
    x.CreateSignatureMessage env = y.CreateSignatureMessage env ↔
      x.seq = y.seq ∧ x.value = y.value ∧ x.salt = y.salt := by
  rw [CreateSignatureMessage, CreateSignatureMessage, signatureMessage_eq, signatureMessage_eq]
  constructor
  · intro h
    have h := Bencode.node_inj h
    rw [messageNode, messageNode] at h
    split_ifs at h with hx hy hy
    · have h : x.salt = y.salt ∧ x.seq = y.seq ∧ x.value = y.value := by
        simpa [Int64.toInt_inj] using h
      exact ⟨h.2.1, h.2.2, h.1⟩
    · simp at h
    · simp at h
    · have h : x.seq = y.seq ∧ x.value = y.value := by simpa [Int64.toInt_inj] using h
      exact ⟨h.1, h.2, (not_not.1 hx).trans (not_not.1 hy).symm⟩
  · rintro ⟨hseq, hvalue, hsalt⟩
    rw [hseq, hvalue, hsalt]

end StorageItem

/-! ## The store -/

inductive PutError where
  | valueTooLarge (n : ℕ)
  | saltTooLarge (n : ℕ)
  | invalidSignature
  | casMismatch (cas seq : Int64)
  | sequenceNumber (seq current : Int64)
deriving DecidableEq

def PutError.text : PutError → Bytes
  | .valueTooLarge n => utf8 "value too large: " ++ formatUint n ++ utf8 " > 1000"
  | .saltTooLarge n => utf8 "salt too large: " ++ formatUint n ++ utf8 " > 64"
  | .invalidSignature => utf8 "invalid signature"
  | .casMismatch cas seq =>
    utf8 "CAS mismatch: expected " ++ formatInt cas.toInt ++ utf8 ", got " ++ formatInt seq.toInt
  | .sequenceNumber seq current =>
    utf8 "sequence number must be greater than current: " ++ formatInt seq.toInt ++ utf8 " <= " ++
      formatInt current.toInt

structure DataStore where
  items : Hash → Option StorageItem

namespace DataStore

def empty : DataStore := ⟨fun _ => none⟩

def stamp (item : StorageItem) (now : ℤ) : StorageItem :=
  { item with
    target := if item.target.IsZero then item.ComputeTarget c else item.target
    storedAt := now }

def store (ds : DataStore) (item : StorageItem) : DataStore :=
  ⟨update ds.items item.target (some item)⟩

def checkExisting (existing item : StorageItem) : Except PutError Unit :=
  if existing.isMutable ∧ item.isMutable then
    if item.cas ≠ 0 ∧ item.cas ≠ existing.seq then .error (.casMismatch item.cas existing.seq)
    else if item.seq ≤ existing.seq then .error (.sequenceNumber item.seq existing.seq)
    else .ok ()
  else .ok ()

/-- What a put returns, and the store that it leaves. -/
def Put (ds : DataStore) (item : StorageItem) (now : ℤ) : Except PutError Unit × DataStore :=
  if item.value.length > MaxValueSize then (.error (.valueTooLarge item.value.length), ds)
  else if item.salt.length > MaxSaltSize then (.error (.saltTooLarge item.salt.length), ds)
  else if item.isMutable ∧ !item.VerifySignature env c then (.error .invalidSignature, ds)
  else
    match ds.items (stamp c item now).target with
    | none => (.ok (), ds.store (stamp c item now))
    | some existing =>
      match checkExisting existing item with
      | .error err => (.error err, ds)
      | .ok () => (.ok (), ds.store (stamp c item now))

def Get (ds : DataStore) (target : Hash) (now : ℤ) : Option StorageItem :=
  match ds.items target with
  | none => none
  | some item => if item.IsExpired now then none else some item

end DataStore

/-! ## Queries -/

def itemOf (a : QueryArg) : StorageItem where
  value := a.v
  isMutable := a.k ≠ []
  publicKey := a.k
  signature := a.sig
  seq := a.seq
  salt := a.salt
  cas := a.cas

def putErrorCode (text : Bytes) : Int64 :=
  if text = utf8 "invalid signature" then ErrorCodeInvalidSignature
  else if text = utf8 "CAS mismatch: " ++ text then ErrorCodeCasHashMismatched
  else if text = utf8 "sequence number must be greater than current: " ++ text then
    ErrorCodeSequenceNumberLessThanCurrent
  else ErrorCodeServer

/-- The answer to a put query (the code and the text of an error), and the store after it. -/
def putQuery (ds : DataStore) (a : QueryArg) (now : ℤ) : Except (Int64 × Bytes) Unit × DataStore :=
  if a.v.length > MaxValueSize then
    (.error (ErrorCodeMessageValueFieldTooBig, utf8 "value too large"), ds)
  else if a.salt.length > MaxSaltSize then
    (.error (ErrorCodeSaltFieldTooBig, utf8 "salt too large"), ds)
  else
    match ds.Put env c (itemOf a) now with
    | (.ok (), ds) => (.ok (), ds)
    | (.error err, ds) => (.error (putErrorCode err.text, err.text), ds)

def getQuery (ds : DataStore) (target : Hash) (now : ℤ) : ResponseResult :=
  match ds.Get target now with
  | none => {}
  | some item =>
    if item.isMutable then
      { v := item.value, k := item.publicKey, sig := item.signature, seq := item.seq }
    else { v := item.value }

/-! ## Puts -/

variable {env c} {ds ds' : DataStore} {item : StorageItem} {a : QueryArg} {now : ℤ}

open DataStore

theorem checkExisting_ok {existing item u} (h : checkExisting existing item = .ok u)
    (he : existing.isMutable = true) (hi : item.isMutable = true) :
    (item.cas ≠ 0 → item.cas = existing.seq) ∧ existing.seq < item.seq := by
  unfold checkExisting at h
  rw [if_pos ⟨he, hi⟩] at h
  split_ifs at h with hcas hseq
  refine ⟨fun hne => ?_, Int64.not_le.1 hseq⟩
  by_contra heq
  exact hcas ⟨hne, heq⟩

theorem put_ok {u} (h : ds.Put env c item now = (.ok u, ds')) :
    (item.isMutable = true → item.VerifySignature env c = true) ∧
      (∀ existing, ds.items (stamp c item now).target = some existing →
        existing.isMutable = true → item.isMutable = true →
        (item.cas ≠ 0 → item.cas = existing.seq) ∧ existing.seq < item.seq) ∧
      ds' = ds.store (stamp c item now) := by
  unfold Put at h
  split_ifs at h with hv hs hsig <;> try cases h
  have hverify : item.isMutable = true → item.VerifySignature env c = true := by
    intro hm
    by_contra hn
    exact hsig ⟨hm, by simpa using hn⟩
  split at h
  · rename_i hnone
    cases h
    refine ⟨hverify, fun existing he => ?_, rfl⟩
    rw [hnone] at he
    cases he
  · rename_i existing hsome
    split at h
    · cases h
    · rename_i hcheck
      cases h
      refine ⟨hverify, fun existing' he hm hi => ?_, rfl⟩
      rw [hsome] at he
      cases he
      exact checkExisting_ok hcheck hm hi

theorem put_error {err} (h : ds.Put env c item now = (.error err, ds')) : ds' = ds := by
  unfold Put at h
  split_ifs at h
  iterate 3 exact (congrArg Prod.snd h).symm
  split at h
  · cases h
  · split at h
    · exact (congrArg Prod.snd h).symm
    · cases h

theorem putQuery_ok {u} (h : putQuery env c ds a now = (.ok u, ds')) :
    ds.Put env c (itemOf a) now = (.ok (), ds') := by
  unfold putQuery at h
  split_ifs at h <;> try cases h
  split at h
  · rename_i hput
    cases h
    exact hput
  · cases h

/-- A refused query leaves the store as it was. -/
theorem putQuery_error {err} (h : putQuery env c ds a now = (.error err, ds')) : ds' = ds := by
  unfold putQuery at h
  split_ifs at h
  iterate 2 exact (congrArg Prod.snd h).symm
  split at h
  · cases h
  · rename_i hput
    exact (congrArg Prod.snd h).symm.trans (put_error hput)

theorem store_self (ds : DataStore) (item : StorageItem) :
    (ds.store item).items item.target = some item := by
  unfold store
  exact update_self ..

theorem store_of_ne {t} (h : t ≠ item.target) : (ds.store item).items t = ds.items t := by
  unfold store
  exact update_of_ne h ..

def stored (c : Crypto) (a : QueryArg) (now : ℤ) : StorageItem := DataStore.stamp c (itemOf a) now

theorem stored_target (a : QueryArg) (now : ℤ) :
    (stored c a now).target = c.target (itemOf a).hashed := rfl

theorem checkExisting_of_next {existing} (h : existing.isMutable = true → item.isMutable = true →
      (item.cas ≠ 0 → item.cas = existing.seq) ∧ existing.seq < item.seq) :
    checkExisting existing item = .ok () := by
  rw [checkExisting]
  by_cases hboth : existing.isMutable = true ∧ item.isMutable = true
  · obtain ⟨hcas, hseq⟩ := h hboth.1 hboth.2
    rw [if_pos hboth, if_neg fun hne => hne.2 (hcas hne.1), if_neg (Int64.not_le.2 hseq)]
  · rw [if_neg hboth]

theorem putQuery_of_free (hv : a.v.length ≤ MaxValueSize) (hs : a.salt.length ≤ MaxSaltSize)
    (hsig : (itemOf a).isMutable = true → (itemOf a).VerifySignature env c = true)
    (hnext : ∀ existing, ds.items (stored c a now).target = some existing →
      existing.isMutable = true → (itemOf a).isMutable = true →
      (a.cas ≠ 0 → a.cas = existing.seq) ∧ existing.seq < a.seq) :
    putQuery env c ds a now = (.ok (), ds.store (stored c a now)) := by
  have hverify : ¬ ((itemOf a).isMutable = true ∧ (!(itemOf a).VerifySignature env c) = true) :=
    fun h => by
      rw [hsig h.1] at h
      cases h.2
  have hput : ds.Put env c (itemOf a) now = (.ok (), ds.store (stored c a now)) := by
    refine (if_neg hv.not_gt).trans ((if_neg hs.not_gt).trans ((if_neg hverify).trans ?_))
    rw [← stored]
    cases hitem : ds.items (stored c a now).target with
    | none => rfl
    | some existing =>
      dsimp only
      rw [checkExisting_of_next (hnext existing hitem)]
  rw [putQuery, if_neg hv.not_gt, if_neg hs.not_gt, hput]

/-! ## Runs -/

inductive Query where
  | put (a : QueryArg) (now : ℤ)
  | get (target : Hash) (now : ℤ)

def Query.apply (env : Env) (c : Crypto) (ds : DataStore) : Query → DataStore
  | .put a now => (putQuery env c ds a now).2
  | .get _ _ => ds

def runQueries (env : Env) (c : Crypto) (qs : List Query) : DataStore :=
  qs.foldl (Query.apply env c) .empty

structure Sound (env : Env) (c : Crypto) (t : Hash) (item : StorageItem) : Prop where
  target : item.target = t
  hashed : c.target item.hashed = t
  signed : item.VerifySignature env c = true
  keyed : item.isMutable = true ↔ item.publicKey ≠ []

open StorageItem

theorem sound_stored {u} (h : ds.Put env c (itemOf a) now = (.ok u, ds')) :
    Sound env c (stored c a now).target (stored c a now) where
  target := rfl
  hashed := rfl
  signed := by
    have hverify := (put_ok h).1
    by_cases hm : (itemOf a).isMutable = true
    · exact hverify hm
    · have hf : (stored c a now).isMutable = false := eq_false_of_ne_true hm
      rw [VerifySignature, hf]
      rfl
  keyed := decide_eq_true_iff

theorem sound_apply {q : Query} (h : ∀ t item, ds.items t = some item → Sound env c t item) :
    ∀ t item, (q.apply env c ds).items t = some item → Sound env c t item := by
  cases q with
  | get target now => exact h
  | put a now =>
    intro t item hitem
    rw [Query.apply] at hitem
    rcases hput : putQuery env c ds a now with ⟨_ | u, ds'⟩ <;> rw [hput] at hitem
    · exact h t item (putQuery_error hput ▸ hitem)
    · have hput := putQuery_ok hput
      rw [(put_ok hput).2.2] at hitem
      change (ds.store (stored c a now)).items t = some item at hitem
      by_cases ht : t = (stored c a now).target
      · subst ht
        rw [store_self] at hitem
        cases hitem
        exact sound_stored hput
      · rw [store_of_ne ht] at hitem
        exact h t item hitem

theorem sound_run (qs : List Query) :
    ∀ t item, (runQueries env c qs).items t = some item → Sound env c t item := by
  have hfold : ∀ (qs : List Query) (ds : DataStore),
      (∀ t item, ds.items t = some item → Sound env c t item) →
      ∀ t item, (qs.foldl (Query.apply env c) ds).items t = some item → Sound env c t item := by
    intro qs
    induction qs with
    | nil => exact fun ds h => h
    | cons q qs ih => exact fun ds h => ih _ (sound_apply h)
  exact hfold qs .empty fun t item h => nomatch h

def Authentic (env : Env) (c : Crypto) (target : Hash) (item : StorageItem) (r : ResponseResult) :
    Prop :=
  (r.k = [] ∧ c.target r.v = target) ∨
  (r.k ≠ [] ∧ c.target (r.k ++ item.salt) = target ∧
    c.verify r.k (StorageItem.signatureMessage env r.seq item.salt r.v) r.sig = true)

theorem authentic_getQuery {t} (hs : Sound env c t item) (hget : ds.Get t now = some item) :
    Authentic env c t item (getQuery ds t now) := by
  have hhash := hs.hashed
  unfold getQuery
  rw [hget]
  dsimp only
  cases hm : item.isMutable with
  | false =>
    rw [if_neg (by simp)]
    refine .inl ⟨rfl, ?_⟩
    rw [hashed, hm] at hhash
    exact hhash
  | true =>
    rw [if_pos rfl]
    refine .inr ⟨hs.keyed.1 hm, ?_, ?_⟩
    · rw [hashed, hm] at hhash
      exact hhash
    · have hsig := hs.signed
      rw [VerifySignature, hm] at hsig
      simp only [Bool.not_true, Bool.false_eq_true, if_false] at hsig
      split_ifs at hsig
      exact hsig

/-- **What a get returns is authentic** after any run of queries, and a put that is answered
    by an error has not touched the store. -/
theorem get_authentic (env : Env) (c : Crypto) (qs : List Query) :
    (∀ target now, match (runQueries env c qs).Get target now with
      | none => getQuery (runQueries env c qs) target now = {}
      | some item => Authentic env c target item (getQuery (runQueries env c qs) target now)) ∧
    ∀ a now err, (putQuery env c (runQueries env c qs) a now).1 = .error err →
      runQueries env c (qs ++ [.put a now]) = runQueries env c qs := by
  constructor
  · intro target now
    cases hget : (runQueries env c qs).Get target now with
    | none =>
      dsimp only
      rw [getQuery, hget]
    | some item =>
      refine authentic_getQuery (sound_run qs target item ?_) hget
      unfold DataStore.Get at hget
      split at hget
      · cases hget
      · rename_i item' hitem
        split_ifs at hget
        cases hget
        exact hitem
  · intro a now err herr
    rw [runQueries, foldl_append]
    exact putQuery_error (Prod.ext herr rfl)

theorem apply_other {q : Query} {t} (h : ∀ b s, q = .put b s → (stored c b s).target ≠ t) :
    (q.apply env c ds).items t = ds.items t := by
  cases q with
  | get target now => rfl
  | put b s =>
    rw [Query.apply]
    rcases hput : putQuery env c ds b s with ⟨_ | u, ds'⟩
    · rw [putQuery_error hput]
    · rw [(put_ok (putQuery_ok hput)).2.2]
      exact store_of_ne (h b s rfl).symm

/-- **What is put is got** until it is replaced. -/
theorem getQuery_of_put {qs : List Query} {t} (h : putQuery env c ds a now = (.ok (), ds'))
    (hqs : ∀ b s, .put b s ∈ qs → (stored c b s).target ≠ (stored c a now).target)
    (ht : t - now ≤ DataExpirationTime) :
    getQuery (qs.foldl (Query.apply env c) ds') (stored c a now).target t =
      if a.k ≠ [] then { v := a.v, k := a.k, sig := a.sig, seq := a.seq } else { v := a.v } := by
  have hput : ds'.items (stored c a now).target = some (stored c a now) := by
    rw [(put_ok (putQuery_ok h)).2.2]
    exact store_self ..
  have hrun := foldlRecOn (motive := fun ds => ds.items (stored c a now).target = _) qs
    (Query.apply env c) hput fun ds hds q hq =>
      (apply_other fun b s he => hqs b s (he ▸ hq)).trans hds
  have hlive : (stored c a now).IsExpired t = false := decide_eq_false (not_lt.2 ht)
  rw [getQuery, Get, hrun]
  dsimp only
  rw [hlive, if_neg Bool.false_ne_true]
  exact if_congr decide_eq_true_iff rfl rfl

/-! ## Successors -/

structure Stored where
  item : StorageItem
  replaced : Option StorageItem

def stores (env : Env) (c : Crypto) : DataStore → List (QueryArg × ℤ) → List Stored
  | _, [] => []
  | ds, (a, now) :: qs =>
    match putQuery env c ds a now with
    | (.error _, ds') => stores env c ds' qs
    | (.ok _, ds') => ⟨stored c a now, ds.items (stored c a now).target⟩ :: stores env c ds' qs

def Succeeds (env : Env) (c : Crypto) (e e' : Stored) : Prop :=
  e.item.target = e'.item.target → e.item.isMutable = true →
    (e'.item.isMutable = true ∧ e'.item.publicKey = e.item.publicKey ∧
      e'.item.salt = e.item.salt ∧ e'.item.VerifySignature env c = true) ∧
    ∃ old, e'.replaced = some old ∧ old.seq < e'.item.seq ∧
      (e'.item.cas ≠ 0 → e'.item.cas = old.seq)

def Distinct (e e' : Stored) : Prop := e.item.isMutable = true → e'.item.isMutable = false →
    e'.item.value ≠ e.item.publicKey ++ e.item.salt

def CollisionFree (c : Crypto) (qs : List (QueryArg × ℤ)) : Prop :=
  ∀ p ∈ qs, ∀ q ∈ qs, c.target (itemOf p.1).hashed = c.target (itemOf q.1).hashed →
    (itemOf p.1).hashed = (itemOf q.1).hashed

theorem stores_ok {qs u} (h : putQuery env c ds a now = (.ok u, ds')) :
    stores env c ds ((a, now) :: qs) =
      ⟨stored c a now, ds.items (stored c a now).target⟩ :: stores env c ds' qs := by
  rw [stores, h]

theorem stores_error {qs err} (h : putQuery env c ds a now = (.error err, ds')) :
    stores env c ds ((a, now) :: qs) = stores env c ds qs := by
  rw [stores, h, putQuery_error h]

theorem mem_stores {qs e} (h : e ∈ stores env c ds qs) :
    ∃ a now, (a, now) ∈ qs ∧ e.item = stored c a now ∧ e.item.VerifySignature env c = true := by
  induction qs generalizing ds with
  | nil => cases h
  | cons q qs ih =>
    obtain ⟨a, now⟩ := q
    rcases hput : putQuery env c ds a now with ⟨_ | u, ds'⟩
    · rw [stores_error hput] at h
      obtain ⟨a', now', hmem, h'⟩ := ih h
      exact ⟨a', now', mem_cons_of_mem _ hmem, h'⟩
    · rw [stores_ok hput] at h
      rcases mem_cons.1 h with rfl | h
      · exact ⟨a, now, mem_cons_self, rfl, (sound_stored (putQuery_ok hput)).signed⟩
      · obtain ⟨a', now', hmem, h'⟩ := ih h
        exact ⟨a', now', mem_cons_of_mem _ hmem, h'⟩

theorem length_publicKey (hm : item.isMutable = true) (h : item.VerifySignature env c = true) :
    item.publicKey.length = 32 := by
  rw [VerifySignature, hm] at h
  simp only [Bool.not_true, Bool.false_eq_true, if_false] at h
  split_ifs at h with hk
  by_contra hne
  exact hk hne

theorem same_key {old new : StorageItem} (hold : old.isMutable = true)
    (hvold : old.VerifySignature env c = true) (hvnew : new.VerifySignature env c = true)
    (hcf : c.target new.hashed = c.target old.hashed → new.hashed = old.hashed)
    (ht : c.target new.hashed = c.target old.hashed)
    (hd : new.isMutable = false → new.value ≠ old.publicKey ++ old.salt) :
    new.isMutable = true ∧ new.publicKey = old.publicKey ∧ new.salt = old.salt := by
  have heq := hcf ht
  have hhold : old.hashed = old.publicKey ++ old.salt := by rw [hashed, if_pos hold]
  cases hm : new.isMutable with
  | false =>
    have hhnew : new.hashed = new.value := by rw [hashed, hm]; rfl
    exact absurd (hhnew.symm.trans (heq.trans hhold)) (hd hm)
  | true =>
    have hhnew : new.hashed = new.publicKey ++ new.salt := by rw [hashed, if_pos hm]
    have happ : new.publicKey ++ new.salt = old.publicKey ++ old.salt :=
      hhnew.symm.trans (heq.trans hhold)
    have hlen : new.publicKey.length = old.publicKey.length :=
      (length_publicKey hm hvnew).trans (length_publicKey hold hvold).symm
    exact ⟨rfl, append_inj happ hlen⟩

theorem stores_succeed {qs : List (QueryArg × ℤ)} {old : StorageItem}
    (hold : old.isMutable = true) (hvold : old.VerifySignature env c = true)
    (hat : ds.items (c.target old.hashed) = some old)
    (hcf : ∀ q ∈ qs, c.target (itemOf q.1).hashed = c.target old.hashed →
      (itemOf q.1).hashed = old.hashed) (hd : ∀ e' ∈ stores env c ds qs, e'.item.isMutable = false →
      e'.item.value ≠ old.publicKey ++ old.salt) :
    ∀ e' ∈ stores env c ds qs, c.target old.hashed = e'.item.target →
      (e'.item.isMutable = true ∧ e'.item.publicKey = old.publicKey ∧
        e'.item.salt = old.salt ∧ e'.item.VerifySignature env c = true) ∧
      ∃ prev, e'.replaced = some prev ∧ prev.seq < e'.item.seq ∧
        (e'.item.cas ≠ 0 → e'.item.cas = prev.seq) := by
  induction qs generalizing ds old with
  | nil =>
    intro e' he'
    cases he'
  | cons q qs ih =>
    obtain ⟨a, now⟩ := q
    have hcf' : ∀ q ∈ qs, c.target (itemOf q.1).hashed = c.target old.hashed →
        (itemOf q.1).hashed = old.hashed := fun q hq => hcf q (mem_cons_of_mem _ hq)
    rcases hput : putQuery env c ds a now with ⟨_ | u, ds'⟩
    · rw [stores_error hput] at hd ⊢
      exact ih hold hvold hat hcf' hd
    · rw [stores_ok hput] at hd ⊢
      obtain ⟨-, hcheck, hds'⟩ := put_ok (putQuery_ok hput)
      have hsound := sound_stored (putQuery_ok hput)
      have hd' : ∀ e' ∈ stores env c ds' qs, e'.item.isMutable = false →
          e'.item.value ≠ old.publicKey ++ old.salt :=
        fun e' he' => hd e' (mem_cons_of_mem _ he')
      by_cases ht : c.target old.hashed = (stored c a now).target
      · -- the new item takes the place of `old`
        have hkey := same_key hold hvold hsound.signed (hcf _ mem_cons_self) ht.symm
          (hd _ mem_cons_self)
        obtain ⟨hm, hk, hsalt⟩ := hkey
        have hhashed : (stored c a now).hashed = old.hashed := by
          rw [hashed, if_pos hm, hashed, if_pos hold, hk, hsalt]
        have hat' : ds'.items (c.target (stored c a now).hashed) = some (stored c a now) := by
          rw [hds']
          exact store_self _ _
        intro e' he' htarget
        rcases mem_cons.1 he' with rfl | he'
        · have hnext := hcheck old (ht ▸ hat) hold hm
          exact ⟨⟨hm, hk, hsalt, hsound.signed⟩, old, ht ▸ hat, hnext.2, hnext.1⟩
        · have hlater := ih hm hsound.signed hat' (by rw [hhashed]; exact hcf')
            (by rw [hk, hsalt]; exact hd') e' he' (by rw [hhashed]; exact htarget)
          rw [hk, hsalt] at hlater
          exact hlater
      · have hat' : ds'.items (c.target old.hashed) = some old := by
          rw [hds']
          exact (store_of_ne ht).trans hat
        intro e' he' htarget
        rcases mem_cons.1 he' with rfl | he'
        · exact absurd htarget ht
        · exact ih hold hvold hat' hcf' hd' e' he' htarget

theorem pairwise_succeeds {qs} (hcf : CollisionFree c qs)
    (hd : (stores env c ds qs).Pairwise Distinct) :
    (stores env c ds qs).Pairwise (Succeeds env c) := by
  induction qs generalizing ds with
  | nil => exact .nil
  | cons q qs ih =>
    obtain ⟨a, now⟩ := q
    have hcf' : CollisionFree c qs := fun p hp q hq =>
      hcf p (mem_cons_of_mem _ hp) q (mem_cons_of_mem _ hq)
    rcases hput : putQuery env c ds a now with ⟨_ | u, ds'⟩
    · rw [stores_error hput] at hd ⊢
      exact ih hcf' hd
    · rw [stores_ok hput] at hd ⊢
      obtain ⟨hhead, htail⟩ := pairwise_cons.1 hd
      refine pairwise_cons.2 ⟨fun e' he' htarget hm => ?_, ih hcf' htail⟩
      have hat : ds'.items (c.target (stored c a now).hashed) = some (stored c a now) := by
        rw [(put_ok (putQuery_ok hput)).2.2]
        exact store_self _ _
      exact stores_succeed hm (sound_stored (putQuery_ok hput)).signed hat
        (fun q hq => hcf q (mem_cons_of_mem _ hq) _ mem_cons_self)
        (fun e' he' => hhead e' he' hm) e' he' htarget

/-- **Only an unsigned item can break the succession.** -/
theorem succession_iff {qs : List (QueryArg × ℤ)} (hcf : CollisionFree c qs) :
    (stores env c .empty qs).Pairwise (Succeeds env c) ↔
      (stores env c .empty qs).Pairwise Distinct := by
  refine ⟨fun h => h.imp_of_mem fun {e e'} he he' hsucc => ?_, pairwise_succeeds hcf⟩
  intro hm hn hv
  obtain ⟨a, now, -, hitem, -⟩ := mem_stores he
  obtain ⟨a', now', -, hitem', -⟩ := mem_stores he'
  have htarget : e.item.target = e'.item.target := by
    have h₁ : e.item.target = c.target e.item.hashed := by rw [hitem]; rfl
    have h₂ : e'.item.target = c.target e'.item.hashed := by rw [hitem']; rfl
    rw [h₁, h₂, StorageItem.hashed, if_pos hm, StorageItem.hashed, hn, hv]
    rfl
  have hm' := (hsucc htarget hm).1.1
  rw [hn] at hm'
  cases hm'

/-! ## A key and its signatures -/

/-- A public key with a way to sign for it. -/
structure Keypair (c : Crypto) where
  publicKey : Bytes
  sign : Bytes → Bytes
  length_key : publicKey.length = 32
  length_sign (m : Bytes) : (sign m).length = 64
  verify_sign (m : Bytes) : c.verify publicKey m (sign m) = true

namespace Keypair

variable (env) (pair : Keypair c)

/-- A put of a short value under the key. -/
def signedPut (seq : Int64) : QueryArg where
  v := utf8 "a"
  k := pair.publicKey
  sig := pair.sign (signatureMessage env seq [] (utf8 "a"))
  seq := seq

/-- The key as an immutable value: it is stored where the items of the key are. -/
def unsignedPut : QueryArg := { v := pair.publicKey }

def takeover : List (QueryArg × ℤ) :=
  [(pair.signedPut env 5, 0), (pair.unsignedPut, 1), (pair.signedPut env 1, 2)]

theorem publicKey_ne_nil : pair.publicKey ≠ [] := by
  intro h
  have hlen := pair.length_key
  rw [h] at hlen
  cases hlen

theorem isMutable_signedPut (seq : Int64) :
    (itemOf (pair.signedPut env seq)).isMutable = true := decide_eq_true pair.publicKey_ne_nil

theorem hashed_signedPut (seq : Int64) :
    (itemOf (pair.signedPut env seq)).hashed = pair.publicKey := by
  rw [hashed, if_pos (pair.isMutable_signedPut env seq)]
  exact append_nil _

theorem verifySignature_signedPut (seq : Int64) :
    (itemOf (pair.signedPut env seq)).VerifySignature env c = true := by
  rw [VerifySignature, pair.isMutable_signedPut env seq, if_neg (by decide)]
  refine (if_neg (not_not.2 pair.length_key)).trans ?_
  exact (if_neg (not_not.2 (pair.length_sign _))).trans (pair.verify_sign _)

theorem hashed_takeover {q} (hq : q ∈ pair.takeover env) :
    (itemOf q.1).hashed = pair.publicKey := by
  fin_cases hq
  · exact pair.hashed_signedPut env 5
  · rfl
  · exact pair.hashed_signedPut env 1

theorem putQuery_signedPut (ds : DataStore) (seq : Int64) (now : ℤ)
    (h : ∀ existing, ds.items (c.target pair.publicKey) = some existing →
      existing.isMutable = true → existing.seq < seq) :
    putQuery env c ds (pair.signedPut env seq) now =
      (.ok (), ds.store (stored c (pair.signedPut env seq) now)) := by
  refine putQuery_of_free (Nat.le_of_ble_eq_true rfl) (Nat.zero_le _)
    (fun _ => pair.verifySignature_signedPut env seq)
    fun existing he hm _ => ⟨fun h => absurd rfl h, ?_⟩
  rw [stored_target, pair.hashed_signedPut env seq] at he
  exact h existing he hm

end Keypair

def sampleCrypto : Crypto := ⟨fun b => b, fun _ _ _ => true⟩

def samplePair : Keypair sampleCrypto where
  publicKey := replicate 32 1
  sign _ := replicate 64 0
  length_key := rfl
  length_sign _ := rfl
  verify_sign _ := rfl

/-- An immutable item takes the place of a signed one, and then an older one can be stored. -/
theorem unsigned_replaces : Nonempty (Keypair sampleCrypto) ∧ ∀ (c : Crypto) (env : Env)
    (pair : Keypair c), CollisionFree c (pair.takeover env) ∧
    (stores env c .empty (pair.takeover env)).map
        (fun e => (e.item.isMutable, e.item.seq, e.replaced.map StorageItem.isMutable)) =
      [(true, 5, none), (false, 0, some true), (true, 1, some false)] ∧
    ¬ (stores env c .empty (pair.takeover env)).Pairwise (Succeeds env c) := by
  refine ⟨⟨samplePair⟩, fun c env pair => ?_⟩
  have htarget (seq : Int64) (now : ℤ) :
      (stored c (pair.signedPut env seq) now).target = c.target pair.publicKey := by
    rw [stored_target, pair.hashed_signedPut env seq]
  -- each of the three puts is accepted, and finds the one before it in its place
  have hsigned := pair.putQuery_signedPut env .empty 5 0 fun _ he => nomatch he
  have hfirst := store_self .empty (stored c (pair.signedPut env 5) 0)
  have hunsigned : putQuery env c (empty.store (stored c (pair.signedPut env 5) 0))
      pair.unsignedPut 1 = _ :=
    putQuery_of_free (pair.length_key.trans_le (by decide)) (Nat.zero_le _) (fun h => nomatch h)
      fun _ _ _ h => nomatch h
  have hsecond := store_self (empty.store (stored c (pair.signedPut env 5) 0))
    (stored c pair.unsignedPut 1)
  have hagain := pair.putQuery_signedPut env
    ((empty.store (stored c (pair.signedPut env 5) 0)).store (stored c pair.unsignedPut 1)) 1 2
    fun existing he hm => by
      cases hsecond.symm.trans he
      cases hm
  have hstores : stores env c .empty (pair.takeover env) =
      [⟨stored c (pair.signedPut env 5) 0, none⟩,
        ⟨stored c pair.unsignedPut 1, some (stored c (pair.signedPut env 5) 0)⟩,
        ⟨stored c (pair.signedPut env 1) 2, some (stored c pair.unsignedPut 1)⟩] := by
    rw [htarget] at hfirst
    rw [Keypair.takeover, stores_ok hsigned, stores_ok hunsigned, stores_ok hagain, htarget 1 2]
    exact congrArg₂ _ rfl (congrArg₂ _ (congrArg _ hfirst)
      (congrArg₂ _ (congrArg _ hsecond) rfl))
  rw [hstores]
  refine ⟨fun p hp q hq _ => ?_, ?_, fun hpair => ?_⟩
  · rw [pair.hashed_takeover env hp, pair.hashed_takeover env hq]
  · simp only [map_cons, map_nil, Option.map_some, Option.map_none]
    have hm (seq : Int64) (now : ℤ) : (stored c (pair.signedPut env seq) now).isMutable = true :=
      pair.isMutable_signedPut env seq
    rw [hm, hm]
    rfl
  · have hnext := (List.pairwise_cons.1 hpair).1 _ mem_cons_self (htarget 5 0)
      (pair.isMutable_signedPut env 5)
    cases hnext.1.1

theorem getQuery_of_put_sample : getQuery ([.put { v := utf8 "a" } 1].foldl
    (Query.apply bareEnv sampleCrypto) (empty.store (stored sampleCrypto samplePair.unsignedPut 0)))
      (stored sampleCrypto samplePair.unsignedPut 0).target 5 = { v := replicate 32 1 } :=
  getQuery_of_put (rfl : putQuery bareEnv sampleCrypto empty samplePair.unsignedPut 0 = _)
    (by simp; decide +kernel) (by decide)

def samplePuts : List (QueryArg × ℤ) :=
  [(samplePair.signedPut bareEnv 1, 0), (samplePair.signedPut bareEnv 2, 1)]

theorem succession_sample : CollisionFree sampleCrypto samplePuts ∧
    (stores bareEnv sampleCrypto .empty samplePuts).Pairwise (Succeeds bareEnv sampleCrypto) := by
  have hcf : CollisionFree sampleCrypto samplePuts := by
    intro p hp q hq _
    fin_cases hp <;> fin_cases hq <;> rfl
  refine ⟨hcf, (succession_iff hcf).2 ?_⟩
  have hall : ∀ e ∈ stores bareEnv sampleCrypto .empty samplePuts, e.item.isMutable = true := by
    decide +kernel
  refine List.Pairwise.imp_of_mem (R := fun _ _ => True) (fun _ he' _ _ hn => ?_)
    (pairwise_of_forall fun _ _ => trivial)
  rw [hall _ he'] at hn
  cases hn

end GoI2pBt.Dht
