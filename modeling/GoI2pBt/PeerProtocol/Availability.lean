/-
  When the bit field of a peer follows its messages.
-/
import GoI2pBt.Metainfo.Info
import GoI2pBt.PeerProtocol.BitField
import GoI2pBt.PeerProtocol.HandleMessage

namespace GoI2pBt.PeerProtocol

open List MessageConn Option BitField
open Metainfo (Info)

/-! ## The handlers -/

inductive BlockErr (ε : Type) where
  | errChoked
  | callback (err : ε)

structure BlockHandler (ε : Type) where
  info : Info
  onBlock : UInt32 → UInt32 → Bytes → Option ε
  requestBlock : MessageConn → Option ε

namespace BlockHandler

variable {ε : Type} (fd : BlockHandler ε)

def request (pc : MessageConn) : Option (BlockErr ε) :=
  if pc.peerChoked then some .errChoked else (fd.requestBlock pc).map .callback

def Piece (pc : MessageConn) (i b : UInt32) (p : Bytes) : Option (BlockErr ε) :=
  match fd.onBlock i b p with
  | some err => some (.callback err)
  | none => fd.request pc

def Have (pc : MessageConn) (index : UInt32) : MessageConn :=
  { pc with bitField := BitField.Set pc.bitField index }

def HaveAll (pc : MessageConn) : MessageConn :=
  { pc with bitField := BitField.NewBitField fd.info.CountPieces true }

def Reject (pc : MessageConn) (index : UInt32) : MessageConn :=
  { pc with bitField := BitField.Unset pc.bitField index }

def call : Callback → MessageConn → Option (BlockErr ε) × MessageConn
  | .piece i b p, pc => (fd.Piece pc i b p, pc)
  | .unchoke, pc => (fd.request pc, pc)
  | .have index, pc => (none, Have pc index)
  | .haveAll, pc => (none, fd.HaveAll pc)
  | .reject index _ _, pc => (fd.request (Reject pc index), Reject pc index)
  | _, pc => (none, pc)

def handler : Handler (BlockErr ε) := ⟨true, false, true, false, fd.call⟩

variable {E : MessageEnv} {pc : MessageConn} {msg : Message}

def bitsAfter (fast : Bool) (n : ℕ) (notFirst : Bool) (bits : Bytes) (msg : Message) : Bytes :=
  if msg.type = MTypeHave then BitField.Set bits msg.index
  else if msg.type = MTypeBitField then if notFirst then bits else msg.bitField
  else if msg.type = MTypeHaveAll then
    if notFirst then bits else if fast then BitField.NewBitField n true else bits
  else if msg.type = MTypeReject then if fast then BitField.Unset bits msg.index else bits
  else bits

theorem bitField_bep3 (ht : isBep3MessageType msg.type = true) :
    (handleBep3Message fd.handler pc msg).2.bitField =
      bitsAfter pc.extBits.IsSupportFast fd.info.CountPieces pc.notFirstMsg pc.bitField msg := by
  unfold handleBep3Message bitsAfter
  rcases of_decide_eq_true ht with ht | ht | ht | ht | ht | ht | ht | ht | ht
  case inr.inr.inr.inr.inr.inl =>
    rw [ht]
    unfold handleBitFieldMessage
    rcases Bool.eq_false_or_eq_true pc.notFirstMsg with hf | hf
    · rw [hf]
      rfl
    · rw [hf]
      rfl
  all_goals
    rw [ht]
    rfl

theorem bitField_bep6 (ht : isBep6MessageType msg.type = true) :
    (handleBep6Message E fd.handler pc msg).2.bitField =
      bitsAfter pc.extBits.IsSupportFast fd.info.CountPieces pc.notFirstMsg pc.bitField msg := by
  unfold handleBep6Message bitsAfter handleSuggestMessage handleHaveAllMessage
    handleHaveNoneMessage handleFirstMessage handleRejectMessage handleAllowedFastMessage
  rcases of_decide_eq_true ht with ht | ht | ht | ht | ht
  all_goals
    rw [ht]
    cases pc.notFirstMsg <;> cases pc.extBits.IsSupportFast <;> rfl

theorem bitField_dispatch (E : MessageEnv) (pc : MessageConn) (msg : Message) :
    (dispatch E fd.handler pc msg).2.bitField =
      bitsAfter pc.extBits.IsSupportFast fd.info.CountPieces pc.notFirstMsg pc.bitField msg := by
  unfold dispatch
  split_ifs with h3 h5 h6 h10
  · exact fd.bitField_bep3 h3
  · unfold handleBep5Message bitsAfter
    rw [h5]
    split_ifs <;> first | rfl | contradiction
  · exact fd.bitField_bep6 h6
  · have hsame : bitsAfter pc.extBits.IsSupportFast fd.info.CountPieces pc.notFirstMsg pc.bitField
        msg = pc.bitField := by
      unfold bitsAfter
      rw [h10]
      rfl
    rw [hsame]
    unfold handleBep10Message
    split_ifs
    · rfl
    · exact absurd ‹_› Bool.false_ne_true
    · rfl
  · have hgroup : ∀ t ∈ [MTypeHave, MTypeBitField, MTypeHaveAll, MTypeReject],
        isBep3MessageType t = true ∨ isBep6MessageType t = true := by decide
    have hne : ∀ t ∈ [MTypeHave, MTypeBitField, MTypeHaveAll, MTypeReject], msg.type ≠ t := by
      rintro t ht rfl
      exact (hgroup _ ht).elim h3 h6
    simp only [mem_cons, not_mem_nil, or_false, forall_eq_or_imp, forall_eq] at hne
    obtain ⟨hh, hb, ha, hr⟩ := hne
    unfold bitsAfter
    rw [if_neg hh, if_neg hb, if_neg ha, if_neg hr]
    rfl

theorem extBits_dispatch (E : MessageEnv) (pc : MessageConn) (msg : Message) :
    (dispatch E fd.handler pc msg).2.extBits = pc.extBits := by
  have hbep3 : (handleBep3Message fd.handler pc msg).2.extBits = pc.extBits := by
    unfold handleBep3Message handleBitFieldMessage
    split_ifs <;> rfl
  have hbep5 : (handleBep5Message fd.handler pc msg).2.extBits = pc.extBits := by
    unfold handleBep5Message
    split_ifs <;> rfl
  have hbep6 : (handleBep6Message E fd.handler pc msg).2.extBits = pc.extBits := by
    unfold handleBep6Message handleSuggestMessage handleHaveAllMessage handleHaveNoneMessage
      handleFirstMessage handleRejectMessage handleAllowedFastMessage
    split_ifs <;> rfl
  have hbep10 : (handleBep10Message E fd.handler pc msg).2.extBits = pc.extBits := by
    unfold handleBep10Message
    split_ifs
    · rfl
    · exact absurd ‹_› Bool.false_ne_true
    · rfl
  unfold dispatch
  split_ifs
  · exact hbep3
  · exact hbep5
  · exact hbep6
  · exact hbep10
  · rfl

end BlockHandler

/-! ## What the messages say -/

section Available

variable (fast : Bool) (n : ℕ)

def availableAfter (notFirst : Bool) (has : Set UInt32) (msg : Message) : Set UInt32 :=
  if msg.type = MTypeHave then insert msg.index has
  else if msg.type = MTypeBitField then
    if notFirst then has else { i | BitField.IsSet msg.bitField i = true }
  else if msg.type = MTypeHaveAll then
    if notFirst then has else if fast then { i | i.toNat < n } else has
  else if msg.type = MTypeReject then if fast then has \ {msg.index} else has
  else if msg.type = MTypeHaveNone then
    if notFirst then has else if fast then ∅ else has
  else has

def available (msgs : List Message) : Set UInt32 × Bool := msgs.foldl (fun st msg =>
    if msg.keepalive then st else (availableAfter fast n st.2 st.1 msg, true)) (∅, false)

def opening (msgs : List Message) : Option Message := msgs.find? fun msg => !msg.keepalive

def capacity (first : Option Message) : ℕ := first.elim 0 fun msg =>
    if msg.type = MTypeBitField then msg.bitField.length * 8
    else if msg.type = MTypeHaveAll ∧ fast = true then (n + 7) / 8 * 8
    else 0

def opensAll (first : Option Message) : Prop :=
  fast = true ∧ first.map Message.type = some MTypeHaveAll

def about (i : UInt32) (msg : Message) : Option Bool :=
  if msg.keepalive then none
  else if msg.type = MTypeHave ∧ msg.index = i then some true
  else if msg.type = MTypeReject ∧ fast = true ∧ msg.index = i then some false
  else none

def announcedLast (msgs : List Message) (i : UInt32) : Bool :=
  (msgs.filterMap (about fast i)).getLastD false

end Available

/-! ## The bit field follows the messages -/

section Follows

variable {ε : Type} {E : MessageEnv} {fd : BlockHandler ε} {fast : Bool} {n : ℕ}
  {msgs : List Message} {msg : Message} {pc : MessageConn} {i : UInt32}

theorem opening_append (msgs : List Message) (msg : Message) : opening (msgs ++ [msg]) =
    if (msgs.any fun msg => !msg.keepalive) = true then opening msgs else opening [msg] :=
  find_first_append msgs msg

theorem announcedLast_append (msgs : List Message) (msg : Message) (i : UInt32) :
    announcedLast fast (msgs ++ [msg]) i = (about fast i msg).getD (announcedLast fast msgs i) :=
  getLastD_filterMap _ _ _

structure Follows (fast : Bool) (n : ℕ) (first : Option Message) (last : UInt32 → Bool)
    (bits : Bytes) (has : Set UInt32) : Prop where
  length : bits.length * 8 = capacity fast n first
  inside : ∀ i, i.toNat < capacity fast n first →
    (BitField.IsSet bits i = true ↔ i ∈ has ∨ opensAll fast first ∧ n ≤ i.toNat)
  outside : ∀ i, capacity fast n first ≤ i.toNat → (i ∈ has ↔ last i = true)
  bounded : opensAll fast first → ∀ i ∈ has, i.toNat < n

variable {bits : Bytes} {has : Set UInt32} {first : Option Message} {last : UInt32 → Bool}

theorem about_eq_none (hk : msg.keepalive = true ∨ msg.type ≠ MTypeHave ∧
    (msg.type = MTypeReject → fast = false)) (i : UInt32) : about fast i msg = none := by
  unfold about
  split_ifs with hkeep hhave hreject
  · rfl
  · rcases hk with hk | hk
    · exact absurd hk hkeep
    · exact absurd hhave.1 hk.1
  · rcases hk with hk | hk
    · exact absurd hk hkeep
    · exact absurd (hreject.2.1.symm.trans (hk.2 hreject.1)) (by decide)
  · rfl

theorem about_have (hk : msg.keepalive = false) (ht : msg.type = MTypeHave) (i : UInt32)
    (old : Bool) : (about fast i msg).getD old = true ↔ msg.index = i ∨ old = true := by
  unfold about
  rw [if_neg (ne_true_of_eq_false hk)]
  by_cases hi : msg.index = i
  · rw [if_pos ⟨ht, hi⟩]
    exact iff_of_true rfl (.inl hi)
  · rw [if_neg fun h => hi h.2, if_neg fun h => hi h.2.2]
    exact (or_iff_right hi).symm

theorem about_reject (hk : msg.keepalive = false) (ht : msg.type = MTypeReject) (i : UInt32)
    (old : Bool) : (about true i msg).getD old = true ↔ msg.index ≠ i ∧ old = true := by
  unfold about
  rw [if_neg (ne_true_of_eq_false hk), if_neg fun h => absurd (ht.symm.trans h.1) (by decide)]
  by_cases hi : msg.index = i
  · rw [if_pos ⟨ht, rfl, hi⟩]
    exact iff_of_false Bool.false_ne_true fun h => h.1 hi
  · rw [if_neg fun h => hi h.2.2]
    exact (and_iff_right hi).symm

theorem Follows.later (hf : Follows fast n first last bits has) (hk : msg.keepalive = false)
    (hindex : msg.type = MTypeHave ∨ msg.type = MTypeReject → msg.index.toNat < n) :
    Follows fast n first (fun i => (about fast i msg).getD (last i))
      (BlockHandler.bitsAfter fast n true bits msg) (availableAfter fast n true has msg) := by
  have hskip : msg.type ≠ MTypeHave → (msg.type = MTypeReject → fast = false) →
      Follows fast n first (fun i => (about fast i msg).getD (last i)) bits has := by
    intro hh hr
    refine ⟨hf.length, hf.inside, fun i hi => ?_, hf.bounded⟩
    rw [about_eq_none (.inr ⟨hh, hr⟩), hf.outside i hi]
    rfl
  unfold BlockHandler.bitsAfter availableAfter
  by_cases hh : msg.type = MTypeHave
  · rw [if_pos hh, if_pos hh]
    refine ⟨by rw [length_Set, hf.length], fun i hi => ?_, fun i hi => ?_, ?_⟩
    · have hroom : msg.index = i ∧ msg.index.toNat < bits.length * 8 ↔ i = msg.index := by
        rw [hf.length]
        exact ⟨fun h => h.1.symm, fun h => ⟨h.symm, h ▸ hi⟩⟩
      rw [isSet_Set, Bool.or_eq_true, hf.inside i hi, decide_eq_true_iff, hroom,
        Set.mem_insert_iff]
      tauto
    · rw [about_have hk hh, Set.mem_insert_iff, hf.outside i hi, eq_comm]
    · rintro ho i (rfl | hi)
      · exact hindex (.inl hh)
      · exact hf.bounded ho i hi
  · rw [if_neg hh, if_neg hh]
    by_cases hr : msg.type = MTypeReject ∧ fast = true
    · obtain ⟨hr, rfl⟩ := hr
      have hb : msg.type ≠ MTypeBitField := by rw [hr]; decide
      have ha : msg.type ≠ MTypeHaveAll := by rw [hr]; decide
      rw [if_neg hb, if_neg ha, if_pos hr, if_neg hb, if_neg ha, if_pos hr]
      refine ⟨by rw [if_pos rfl, length_Unset, hf.length], fun i hi => ?_, fun i hi => ?_,
        fun ho i hi => hf.bounded ho i ?_⟩
      · -- a spare bit is not that of a piece
        have hspare : n ≤ i.toNat → msg.index ≠ i := by
          rintro hn rfl
          exact absurd (hindex (.inr hr)) (not_lt.2 hn)
        rw [if_pos rfl, if_pos rfl, isSet_Unset, Bool.and_eq_true, hf.inside i hi,
          Bool.not_eq_true', decide_eq_false_iff_not, Set.mem_sdiff, Set.mem_singleton_iff,
          eq_comm (a := i)]
        tauto
      · rw [if_pos rfl, about_reject hk hr, Set.mem_sdiff, Set.mem_singleton_iff, hf.outside i hi,
          eq_comm (a := i), and_comm]
      · rw [if_pos rfl] at hi
        exact hi.1
    · have hsame := hskip hh fun h => Bool.eq_false_of_not_eq_true fun h' => hr ⟨h, h'⟩
      cases fast with
      | false => simpa using hsame
      | true =>
        have hreject : msg.type ≠ MTypeReject := fun h => hr ⟨h, rfl⟩
        simpa [hreject] using hsame

theorem follows_nil (hcap : capacity fast n first = 0) (hno : ¬ opensAll fast first)
    (hbits : bits = []) (h : ∀ i, i ∈ has ↔ last i = true) :
    Follows fast n first last bits has where
  length := by rw [hcap, hbits]; rfl
  inside i hi := absurd hi (by rw [hcap]; exact Nat.not_lt_zero _)
  outside i _ := h i
  bounded ho := absurd ho hno

theorem opensAll_some : opensAll fast (some msg) ↔ fast = true ∧ msg.type = MTypeHaveAll := by
  rw [opensAll, map_some, some_inj]

theorem follows_first (hk : msg.keepalive = false) :
    Follows fast n (some msg) (fun i => (about fast i msg).getD false)
      (BlockHandler.bitsAfter fast n false [] msg) (availableAfter fast n false ∅ msg) := by
  unfold BlockHandler.bitsAfter availableAfter
  by_cases hb : msg.type = MTypeBitField
  · have hh : msg.type ≠ MTypeHave := by rw [hb]; decide
    have hr : msg.type ≠ MTypeReject := by rw [hb]; decide
    have hcap : capacity fast n (some msg) = msg.bitField.length * 8 := if_pos hb
    rw [if_neg hh, if_pos hb, if_neg hh, if_pos hb]
    have hno : ¬ opensAll fast (some msg) := by
      rw [opensAll_some, hb]
      exact fun h => absurd h.2 (by decide)
    refine ⟨hcap.symm, fun i hi => ?_, fun i hi => ?_, fun ho => absurd ho hno⟩
    · exact (or_iff_left fun h => hno h.1).symm
    · rw [hcap] at hi
      rw [about_eq_none (.inr ⟨hh, fun h => absurd h hr⟩)]
      exact iff_of_false (ne_true_of_eq_false (isSet_of_length_le hi)) Bool.false_ne_true
  · by_cases ha : msg.type = MTypeHaveAll ∧ fast = true
    · obtain ⟨ha, rfl⟩ := ha
      have hh : msg.type ≠ MTypeHave := by rw [ha]; decide
      have hr : msg.type ≠ MTypeReject := by rw [ha]; decide
      have hcap : capacity true n (some msg) = (n + 7) / 8 * 8 :=
        (if_neg hb).trans (if_pos ⟨ha, rfl⟩)
      rw [if_neg hh, if_neg hb, if_pos ha, if_neg hh, if_neg hb, if_pos ha]
      refine ⟨?_, fun i hi => ?_, fun i hi => ?_, fun _ i hi => hi⟩
      · rw [hcap]
        exact congrArg (· * 8) length_replicate
      · rw [hcap] at hi
        rw [opensAll_some]
        refine iff_of_true ((isSet_NewBitField n i).trans (decide_eq_true hi)) ?_
        rcases lt_or_ge i.toNat n with h | h
        · exact .inl h
        · exact .inr ⟨⟨rfl, ha⟩, h⟩
      · rw [about_eq_none (.inr ⟨hh, fun h => absurd h hr⟩)]
        refine iff_of_false (fun h : i.toNat < n => ?_) Bool.false_ne_true
        omega
    · have hcap : capacity fast n (some msg) = 0 := (if_neg hb).trans (if_neg ha)
      have hno : ¬ opensAll fast (some msg) := by
        rw [opensAll_some]
        exact fun h => ha ⟨h.2, h.1⟩
      by_cases hh : msg.type = MTypeHave
      · rw [if_pos hh, if_pos hh]
        refine follows_nil hcap hno (modify_nil ..) fun i => ?_
        rw [about_have hk hh, Set.mem_insert_iff, eq_comm]
        exact or_congr_right (iff_of_false (Set.notMem_empty i) Bool.false_ne_true)
      · rw [if_neg hh, if_neg hh, if_neg hb, if_neg hb]
        simp only [Bool.false_eq_true, ↓reduceIte]
        refine follows_nil hcap hno ?_ fun i => iff_of_false ?_ ?_
        · split_ifs with hall hf
          · exact absurd ⟨hall, hf⟩ ha
          · rfl
          · exact modify_nil ..
          · rfl
          · rfl
        · split_ifs with hall hf
          · exact absurd ⟨hall, hf⟩ ha
          · exact Set.notMem_empty i
          · exact fun h => Set.notMem_empty i h.1
          all_goals exact Set.notMem_empty i
        · unfold about
          split_ifs with h1 h2 h3
          · exact Bool.false_ne_true
          · exact absurd h2.1 hh
          · exact Bool.false_ne_true
          · exact Bool.false_ne_true

structure FollowsRun (fast : Bool) (n : ℕ) (msgs : List Message) (pc : MessageConn)
    (st : Set UInt32 × Bool) : Prop where
  extBits : pc.extBits.IsSupportFast = fast
  seen : pc.notFirstMsg = msgs.any fun msg => !msg.keepalive
  same : st.2 = pc.notFirstMsg
  empty : pc.notFirstMsg = false → pc.bitField = [] ∧ st.1 = ∅ ∧
    ∀ i, announcedLast fast msgs i = false
  follows : Follows fast n (opening msgs) (announcedLast fast msgs) pc.bitField st.1

theorem capacity_of_opensAll (h : opensAll fast first) :
    capacity fast n first = (n + 7) / 8 * 8 := by
  obtain ⟨hfast, h⟩ := h
  obtain ⟨msg, rfl, ht⟩ := map_eq_some_iff.1 h
  have hb : msg.type ≠ MTypeBitField := by rw [ht]; decide
  exact (if_neg hb).trans (if_pos ⟨ht, hfast⟩)

theorem followsRun_fresh (pc : PeerConn) (n : ℕ) :
    FollowsRun pc.extBits.IsSupportFast n [] pc.fresh (∅, false) where
  extBits := rfl
  seen := rfl
  same := rfl
  empty _ := ⟨rfl, rfl, fun _ => rfl⟩
  follows := follows_nil rfl (fun h => by cases h.2) rfl
    fun i => iff_of_false (Set.notMem_empty i) Bool.false_ne_true

theorem followsRun_step {st} (E : MessageEnv) (fd : BlockHandler ε)
    (hr : FollowsRun fast fd.info.CountPieces msgs pc st)
    (hindex : msg.type = MTypeHave ∨ msg.type = MTypeReject →
      msg.index.toNat < fd.info.CountPieces) :
    FollowsRun fast fd.info.CountPieces (msgs ++ [msg]) (pc.HandleMessage E fd.handler msg).2
      (if msg.keepalive then st
        else (availableAfter fast fd.info.CountPieces st.2 st.1 msg, true)) := by
  have hlast : announcedLast fast (msgs ++ [msg]) =
      fun i => (about fast i msg).getD (announcedLast fast msgs i) :=
    funext (announcedLast_append msgs msg)
  unfold HandleMessage
  rcases Bool.eq_false_or_eq_true msg.keepalive with hk | hk
  · -- a keep-alive changes nothing
    have hopen : opening (msgs ++ [msg]) = opening msgs := by
      rw [opening, find?_append, find?_singleton, hk]
      exact or_none
    have hsame : announcedLast fast (msgs ++ [msg]) = announcedLast fast msgs := by
      rw [hlast]
      funext i
      rw [about_eq_none (.inl hk)]
      rfl
    rw [if_pos hk, if_pos hk]
    refine ⟨hr.extBits, ?_, hr.same, by rw [hsame]; exact hr.empty, ?_⟩
    · rw [hr.seen]
      simp [hk]
    · rw [hopen, hsame]
      exact hr.follows
  · rw [if_neg (ne_true_of_eq_false hk), if_neg (ne_true_of_eq_false hk)]
    have hbits := fd.bitField_dispatch E pc msg
    rw [hr.extBits] at hbits
    refine ⟨?_, by simp [hk], rfl, fun h => absurd h.symm Bool.false_ne_true, ?_⟩
    · rw [← hr.extBits]
      exact congrArg _ (fd.extBits_dispatch E pc msg)
    rw [hr.same, opening_append, ← hr.seen, hlast]
    change Follows _ _ _ _ (dispatch E fd.handler pc msg).2.bitField _
    rw [hbits]
    rcases Bool.eq_false_or_eq_true pc.notFirstMsg with hfirst | hfirst
    · rw [hfirst, if_pos rfl]
      exact hr.follows.later hk hindex
    · obtain ⟨hnil, hempty, hnone⟩ := hr.empty hfirst
      have hopen : opening [msg] = some msg := by
        rw [opening, find?_singleton, hk]
        rfl
      rw [hfirst, if_neg Bool.false_ne_true, hnil, hempty, hopen]
      simp only [hnone]
      exact follows_first hk

theorem followsRun (E : MessageEnv) (fd : BlockHandler ε) (pc : PeerConn) {msgs}
    (hindex : ∀ msg ∈ msgs, msg.type = MTypeHave ∨ msg.type = MTypeReject →
      msg.index.toNat < fd.info.CountPieces) :
    FollowsRun pc.extBits.IsSupportFast fd.info.CountPieces msgs (pc.fresh.run E fd.handler msgs)
      (available pc.extBits.IsSupportFast fd.info.CountPieces msgs) := by
  induction msgs using reverseRecOn with
  | nil => exact followsRun_fresh pc _
  | append_singleton msgs msg ih =>
    rw [run_append, available, foldl_append]
    exact followsRun_step E fd (ih fun m hm => hindex m (mem_append_left _ hm))
      (hindex msg (mem_append_right _ mem_cons_self))

/-- **When the bit field is what was announced.** -/
theorem sets_eq_available_iff (E : MessageEnv) (fd : BlockHandler ε) (pc : PeerConn)
    {msgs : List Message}
    (hindex : ∀ msg ∈ msgs, msg.type = MTypeHave ∨ msg.type = MTypeReject →
      msg.index.toNat < fd.info.CountPieces) :
    { i | i ∈ BitField.Sets (pc.fresh.run E fd.handler msgs).bitField } =
        (available pc.extBits.IsSupportFast fd.info.CountPieces msgs).1 ↔
      (opensAll pc.extBits.IsSupportFast (opening msgs) →
        8 ∣ fd.info.CountPieces ∨ 2 ^ 32 ≤ fd.info.CountPieces) ∧
      ∀ i, announcedLast pc.extBits.IsSupportFast msgs i = true →
        i.toNat < capacity pc.extBits.IsSupportFast fd.info.CountPieces (opening msgs) := by
  have hf := (followsRun E fd pc hindex).follows
  set n := fd.info.CountPieces
  set fast := pc.extBits.IsSupportFast
  rw [Set.ext_iff]
  simp only [Set.mem_ofPred_eq, BitField.mem_Sets]
  constructor
  · intro h
    refine ⟨fun ho => ?_, fun i hi => ?_⟩
    · by_contra hcon
      push Not at hcon
      obtain ⟨hdvd, hlt⟩ := hcon
      -- the first spare bit is set
      have hn : (UInt32.ofNat n).toNat = n := UInt32.toNat_ofNat_of_lt' hlt
      have hcap := capacity_of_opensAll (n := n) ho
      have hset := (hf.inside (UInt32.ofNat n) (by omega)).2 (.inr ⟨ho, hn.ge⟩)
      have hbound := hf.bounded ho _ ((h _).1 hset)
      omega
    · by_contra hle
      have hset := (h i).2 ((hf.outside i (by omega)).2 hi)
      rw [BitField.isSet_of_length_le (by rw [hf.length]; omega)] at hset
      cases hset
  · rintro ⟨hspare, hroom⟩ i
    rcases lt_or_ge i.toNat (capacity fast n (opening msgs)) with hi | hi
    · rw [hf.inside i hi]
      refine or_iff_left fun h => ?_
      rw [capacity_of_opensAll h.1] at hi
      have hword : i.toNat < 2 ^ 32 := i.toNat_lt
      have := hspare h.1
      omega
    · refine iff_of_false ?_ fun hmem => ?_
      · rw [BitField.isSet_of_length_le (by rw [hf.length]; omega)]
        exact Bool.false_ne_true
      · exact absurd (hroom i ((hf.outside i hi).1 hmem)) (not_lt.2 hi)

end Follows

/-! ## Two runs -/

def eightPieces : BlockHandler Empty where
  info := ⟨[], 1, replicate 8 .zero, 8, []⟩
  onBlock _ _ _ := none
  requestBlock _ := none

def sampleHave : Message := { Message.sampleRequest with type := MTypeHave }

/-- All pieces, without 5 and 2, and 2 again. -/
def haveAllRun : List Message :=
  [indexed MTypeHaveAll 0, indexed MTypeReject 5, indexed MTypeHave 3, indexed MTypeReject 2,
   indexed MTypeHave 2]

theorem sets_eq_available_haveAll :
    { i | i ∈ BitField.Sets (fastConn.fresh.run insertionEnv eightPieces.handler
        haveAllRun).bitField } = (available true 8 haveAllRun).1 ∧
      BitField.Sets (fastConn.fresh.run insertionEnv eightPieces.handler haveAllRun).bitField =
        [0, 1, 2, 3, 4, 6, 7] := by
  have hfast : fastConn.extBits.IsSupportFast = true := by decide +kernel
  have hindex : ∀ msg ∈ haveAllRun, msg.type = MTypeHave ∨ msg.type = MTypeReject →
      msg.index.toNat < eightPieces.info.CountPieces := by decide +kernel
  have h := sets_eq_available_iff insertionEnv eightPieces fastConn hindex
  rw [hfast] at h
  refine ⟨h.2 ⟨fun _ => .inl (by decide), fun i hi => ?_⟩, by decide +kernel⟩
  -- only 3 and 2 are announced
  have hi : i = 3 ∨ i = 2 := by
    by_contra hne
    rw [not_or] at hne
    by_cases h5 : 5 = i <;> simp [announcedLast, haveAllRun, about, indexed,
      Message.sampleRequest, Ne.symm hne.1, Ne.symm hne.2, h5] at hi
  rcases hi with rfl | rfl <;> decide

theorem have_lost : sampleHave.index.toNat < eightPieces.info.CountPieces ∧
      BitField.Sets ((NewPeerConn .zero .zero).fresh.run insertionEnv eightPieces.handler
        [sampleHave]).bitField = [] ∧
      { i | i ∈ BitField.Sets ((NewPeerConn .zero .zero).fresh.run insertionEnv eightPieces.handler
        [sampleHave]).bitField } ≠ (available false 8 [sampleHave]).1 := by
  have hnil : BitField.Sets ((NewPeerConn .zero .zero).fresh.run insertionEnv eightPieces.handler
      [sampleHave]).bitField = [] := rfl
  refine ⟨by decide, hnil, fun h => ?_⟩
  have hmem : sampleHave.index ∈ (available false 8 [sampleHave]).1 := Set.mem_insert _ _
  rw [← h, hnil] at hmem
  exact not_mem_nil hmem

end GoI2pBt.PeerProtocol
