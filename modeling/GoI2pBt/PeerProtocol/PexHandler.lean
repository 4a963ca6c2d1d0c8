/-
  The handler of peer exchange: which changes are told exactly once.
-/
import GoI2pBt.PeerProtocol.Pex

namespace GoI2pBt.PeerProtocol

open List Function Option UtPexExtendedMsg

structure DefaultPEXHandler where
  pexInterval : ℤ
  lastPEXSent : Bytes → Option ℤ
  addedPeers : Bytes → Option (List CompactPeer)
  droppedPeers : Bytes → Option (List CompactPeer)

def NewDefaultPEXHandler (interval : ℤ) : DefaultPEXHandler where
  pexInterval := interval
  lastPEXSent _ := none
  addedPeers _ := none
  droppedPeers _ := none

def timeSub (now last : ℤ) : ℤ := max (-2 ^ 63) (min (2 ^ 63 - 1) (now - last))

namespace UtPexExtendedMsg

def addPeer (msg : UtPexExtendedMsg) (peer : CompactPeer) : UtPexExtendedMsg :=
  if peer.ip.length = 4 then
    { msg with added := msg.added ++ [peer], addedF := msg.addedF ++ [0] }
  else if peer.ip.length = 16 then
    { msg with added6 := msg.added6 ++ [peer], added6F := msg.added6F ++ [0] }
  else msg

end UtPexExtendedMsg

namespace DefaultPEXHandler

variable (h : DefaultPEXHandler) (peerKey : Bytes)

def AddPeer (peer : CompactPeer) : DefaultPEXHandler :=
  { h with
    addedPeers := update h.addedPeers peerKey
      (some ((h.addedPeers peerKey).getD [] ++ [peer])) }

def DropPeer (peer : CompactPeer) : DefaultPEXHandler :=
  { h with
    droppedPeers := update h.droppedPeers peerKey
      (some ((h.droppedPeers peerKey).getD [] ++ [peer])) }

def tooSoon (now : ℤ) : Bool :=
  (h.lastPEXSent peerKey).any fun lastSent => timeSub now lastSent < h.pexInterval

def message (added dropped : List CompactPeer) : UtPexExtendedMsg :=
  added.foldl UtPexExtendedMsg.addPeer ⟨[], [], [], [], dropped, []⟩

def GeneratePEXMessage (now sent : ℤ) : Option UtPexExtendedMsg × DefaultPEXHandler :=
  if h.tooSoon peerKey now then (none, h)
  else if h.addedPeers peerKey = none ∧ h.droppedPeers peerKey = none then (none, h)
  else
    (some (message ((h.addedPeers peerKey).getD []) ((h.droppedPeers peerKey).getD [])),
      { h with
        addedPeers := update h.addedPeers peerKey none
        droppedPeers := update h.droppedPeers peerKey none
        lastPEXSent := update h.lastPEXSent peerKey (some sent) })

/-! ## Calls -/

inductive Call where
  | add (peerKey : Bytes) (peer : CompactPeer)
  | drop (peerKey : Bytes) (peer : CompactPeer)
  | generate (peerKey : Bytes) (now sent : ℤ)

def step (h : DefaultPEXHandler) : Call → DefaultPEXHandler
  | .add peerKey peer => h.AddPeer peerKey peer
  | .drop peerKey peer => h.DropPeer peerKey peer
  | .generate peerKey now sent => (h.GeneratePEXMessage peerKey now sent).2

def after (interval : ℤ) (calls : List Call) : DefaultPEXHandler :=
  calls.foldl step (NewDefaultPEXHandler interval)

def addedTo (k : Bytes) (calls : List Call) : List CompactPeer := calls.flatMap fun
    | .add peerKey peer => if peerKey = k then [peer] else []
    | _ => []

def droppedFrom (k : Bytes) (calls : List Call) : List CompactPeer := calls.flatMap fun
    | .drop peerKey peer => if peerKey = k then [peer] else []
    | _ => []

/-! ## What a message has to carry -/

structure Carries (m : UtPexExtendedMsg) (new gone : List CompactPeer) : Prop where
  added : ∀ p, (m.added ++ m.added6).count p = new.count p
  added4 : ∀ p ∈ new, p.ip.length = 4 → p ∉ m.added6
  added6 : ∀ p ∈ new, p.ip.length = 16 → p ∉ m.added
  dropped : ∀ p, (m.dropped ++ m.dropped6).count p = gone.count p
  dropped4 : ∀ p ∈ gone, p.ip.length = 4 → p ∉ m.dropped6
  dropped6 : ∀ p ∈ gone, p.ip.length = 16 → p ∉ m.dropped

variable {interval : ℤ} {k : Bytes} {pre mid : List Call}

def generated (interval : ℤ) (calls : List Call) (k : Bytes) (now sent : ℤ) :
    Option UtPexExtendedMsg :=
  ((after interval calls).GeneratePEXMessage k now sent).1

def Fresh (interval : ℤ) (k : Bytes) (pre : List Call) : Prop :=
  pre = [] ∨ ∃ pre' now sent m, pre = pre' ++ [.generate k now sent] ∧
    generated interval pre' k now sent = some m

def Quiet (interval : ℤ) (k : Bytes) (pre mid : List Call) : Prop :=
  ∀ mid₁ now sent mid₂, mid = mid₁ ++ .generate k now sent :: mid₂ →
    generated interval (pre ++ mid₁) k now sent = none

def ExactlyOnce (interval : ℤ) (k : Bytes) (calls : List Call) : Prop :=
  ∀ pre mid now sent post m, calls = pre ++ (mid ++ .generate k now sent :: post) →
    Fresh interval k pre → Quiet interval k pre mid →
    generated interval (pre ++ mid) k now sent = some m →
    Carries m (addedTo k mid) (droppedFrom k mid)

def Call.Listed (k : Bytes) : Call → Prop
  | .add peerKey peer => peerKey = k → peer.ip.length = 4 ∨ peer.ip.length = 16
  | .drop peerKey peer => peerKey = k → peer.ip.length ≠ 16
  | .generate _ _ _ => True

/-! ## The lists of a message -/

theorem foldl_addPeer (new : List CompactPeer) (m : UtPexExtendedMsg) :
    (new.foldl addPeer m).added = m.added ++ new.filter (·.ip.length = 4) ∧
    (new.foldl addPeer m).added6 = m.added6 ++ new.filter (·.ip.length = 16) ∧
    (new.foldl addPeer m).dropped = m.dropped ∧
    (new.foldl addPeer m).dropped6 = m.dropped6 := by
  induction new generalizing m with
  | nil => simp
  | cons p new ih =>
    obtain ⟨h1, h2, h3, h₄⟩ := ih (m.addPeer p)
    rw [foldl_cons, h1, h2, h3, h₄, addPeer]
    split_ifs with h4 h16
    · simp [h4]
    · simp [h16]
    · simp [h4, h16]

theorem count_filter_length (new : List CompactPeer) (n : ℕ) (p : CompactPeer) :
    (new.filter (·.ip.length = n)).count p = if p.ip.length = n then new.count p else 0 := by
  split_ifs with h
  · exact count_filter (by simpa using h)
  · refine count_eq_zero_of_not_mem fun hp => h ?_
    exact of_decide_eq_true (mem_filter.1 hp).2

theorem carries_message_iff {new gone} : Carries (message new gone) new gone ↔
      (∀ p ∈ new, p.ip.length = 4 ∨ p.ip.length = 16) ∧ ∀ p ∈ gone, p.ip.length ≠ 16 := by
  obtain ⟨h1, h2, h3, h₄⟩ := foldl_addPeer new ⟨[], [], [], [], gone, []⟩
  rw [nil_append] at h1 h2
  constructor
  · intro hc
    constructor
    · intro p hp
      have hpos : 0 < ((message new gone).added ++ (message new gone).added6).count p := by
        rw [hc.added p]
        exact count_pos_iff.2 hp
      rw [message, h1, h2, count_pos_iff, mem_append, mem_filter, mem_filter] at hpos
      rcases hpos with ⟨-, h⟩ | ⟨-, h⟩
      · exact .inl (of_decide_eq_true h)
      · exact .inr (of_decide_eq_true h)
    · intro p hp h16
      have hnot := hc.dropped6 p hp h16
      rw [message, h3] at hnot
      exact hnot hp
  · rintro ⟨hnew, hgone⟩
    refine ⟨fun p => ?_, fun p _ h4 hp => ?_, fun p _ h16 hp => ?_, fun p => ?_, fun p _ _ hp => ?_,
      fun p hp h16 => absurd h16 (hgone p hp)⟩
    · rw [message, h1, h2, count_append, count_filter_length, count_filter_length]
      by_cases hp : p ∈ new
      · rcases hnew p hp with h | h
        · rw [if_pos h, if_neg (by omega), add_zero]
        · rw [if_neg (by omega), if_pos h, zero_add]
      · rw [count_eq_zero_of_not_mem hp, ite_self, ite_self]
    · rw [message, h2] at hp
      simp [h4] at hp
    · rw [message, h1] at hp
      simp [h16] at hp
    · rw [message, h3, h₄, append_nil]
    · rw [message, h₄] at hp
      exact absurd hp not_mem_nil

/-! ## What is collected -/

def collected (ps : List CompactPeer) : Option (List CompactPeer) :=
  if ps = [] then none else some ps

@[simp] theorem getD_collected (ps : List CompactPeer) : (collected ps).getD [] = ps := by
  rw [collected]
  split_ifs with h
  · exact h.symm
  · rfl

theorem collected_append (ps : List CompactPeer) (p : CompactPeer) :
    collected (ps ++ [p]) = some (ps ++ [p]) := if_neg (by simp)

theorem generate_cases (h : DefaultPEXHandler) (k : Bytes) (now sent : ℤ) :
    (h.GeneratePEXMessage k now sent = (none, h) ∧ (h.tooSoon k now = false →
      h.addedPeers k = none ∧ h.droppedPeers k = none)) ∨
    ∃ m h', h.GeneratePEXMessage k now sent = (some m, h') ∧ h.tooSoon k now = false ∧
      m = message ((h.addedPeers k).getD []) ((h.droppedPeers k).getD []) ∧
      h'.addedPeers k = none ∧ h'.droppedPeers k = none := by
  rw [GeneratePEXMessage]
  split_ifs with hsoon hnone
  · refine .inl ⟨rfl, fun h => ?_⟩
    rw [hsoon] at h
    cases h
  · exact .inl ⟨rfl, fun _ => hnone⟩
  · exact .inr ⟨_, _, rfl, by simpa using hsoon, rfl, update_self .., update_self ..⟩

theorem after_append (interval : ℤ) (calls : List Call) (c : Call) :
    after interval (calls ++ [c]) = (after interval calls).step c := by
  rw [after, foldl_append]
  rfl

theorem step_generate_of_ne (h : DefaultPEXHandler) {k k'} (hne : k' ≠ k) (now sent : ℤ) :
    (h.step (.generate k' now sent)).addedPeers k = h.addedPeers k ∧
    (h.step (.generate k' now sent)).droppedPeers k = h.droppedPeers k := by
  rw [step, GeneratePEXMessage]
  split_ifs
  · exact ⟨rfl, rfl⟩
  · exact ⟨rfl, rfl⟩
  · exact ⟨update_of_ne hne.symm .., update_of_ne hne.symm ..⟩

theorem Quiet.of_append {c} (h : Quiet interval k pre (mid ++ [c])) : Quiet interval k pre mid := by
  intro mid1 now sent mid2 hmid
  exact h mid1 now sent (mid2 ++ [c]) (by rw [hmid]; simp)

theorem pending_of_quiet (hf : Fresh interval k pre) (hq : Quiet interval k pre mid) :
    (after interval (pre ++ mid)).addedPeers k = collected (addedTo k mid) ∧
    (after interval (pre ++ mid)).droppedPeers k = collected (droppedFrom k mid) := by
  induction mid using reverseRecOn with
  | nil =>
    rw [append_nil]
    rcases hf with rfl | ⟨pre', now, sent, m, rfl, hm⟩
    · exact ⟨rfl, rfl⟩
    · rw [after_append, step]
      rcases generate_cases (after interval pre') k now sent with
        ⟨hg, -⟩ | ⟨_, h', hg, -, -, h1, h2⟩
      · rw [generated, hg] at hm
        cases hm
      · rw [hg]
        exact ⟨h1, h2⟩
  | append_singleton mid c ih =>
    obtain ⟨hadd, hdrop⟩ := ih hq.of_append
    rw [← append_assoc, after_append, addedTo, droppedFrom, flatMap_append,
      flatMap_append, flatMap_singleton, flatMap_singleton]
    cases c with
    | add k' p =>
      simp only [append_nil]
      refine ⟨?_, hdrop⟩
      rw [step, AddPeer]
      by_cases hk : k' = k
      · subst hk
        dsimp only
        rw [update_self, hadd, getD_collected, if_pos rfl, collected_append, addedTo]
      · dsimp only
        rw [update_of_ne (Ne.symm hk), hadd, if_neg hk, append_nil, addedTo]
    | drop k' p =>
      simp only [append_nil]
      refine ⟨hadd, ?_⟩
      rw [step, DropPeer]
      by_cases hk : k' = k
      · subst hk
        dsimp only
        rw [update_self, hdrop, getD_collected, if_pos rfl, collected_append, droppedFrom]
      · dsimp only
        rw [update_of_ne (Ne.symm hk), hdrop, if_neg hk, append_nil, droppedFrom]
    | generate k' now sent =>
      simp only [append_nil]
      by_cases hk : k' = k
      · subst hk
        have hnone := hq mid now sent [] rfl
        rcases generate_cases (after interval (pre ++ mid)) k' now sent with
          ⟨hg, -⟩ | ⟨_, h', hg, -⟩
        · rw [step, hg]
          exact ⟨hadd, hdrop⟩
        · rw [generated, hg] at hnone
          cases hnone
      · obtain ⟨h1, h2⟩ := step_generate_of_ne (after interval (pre ++ mid)) hk now sent
        exact ⟨h1.trans hadd, h2.trans hdrop⟩

theorem generated_eq_some {now sent m} (hf : Fresh interval k pre)
    (hq : Quiet interval k pre mid) (hm : generated interval (pre ++ mid) k now sent = some m) :
    m = message (addedTo k mid) (droppedFrom k mid) ∧
      (after interval (pre ++ mid)).tooSoon k now = false := by
  obtain ⟨hadd, hdrop⟩ := pending_of_quiet hf hq
  rw [generated] at hm
  rcases generate_cases (after interval (pre ++ mid)) k now sent with
    ⟨hg, -⟩ | ⟨m', h', hg, hsoon, hm', -⟩
  · rw [hg] at hm
    cases hm
  · rw [hg] at hm
    cases hm
    rw [hadd, hdrop, getD_collected, getD_collected] at hm'
    exact ⟨hm', hsoon⟩

theorem exists_generated {now} (sent : ℤ) (hf : Fresh interval k pre)
    (hq : Quiet interval k pre mid) (hsoon : (after interval (pre ++ mid)).tooSoon k now = false)
    (hne : addedTo k mid ≠ [] ∨ droppedFrom k mid ≠ []) :
    ∃ m, generated interval (pre ++ mid) k now sent = some m := by
  obtain ⟨hadd, hdrop⟩ := pending_of_quiet hf hq
  rcases generate_cases (after interval (pre ++ mid)) k now sent with ⟨-, hnone⟩ | ⟨m, h', hg, -⟩
  · obtain ⟨h1, h2⟩ := hnone hsoon
    rw [hadd, collected] at h1
    rw [hdrop, collected] at h2
    rcases hne with hne | hne
    · rw [if_neg hne] at h1
      cases h1
    · rw [if_neg hne] at h2
      cases h2
  · exact ⟨m, by rw [generated, hg]⟩

/-! ## Windows between messages -/

theorem quiet_nil : Quiet interval k pre [] := by
  intro mid1 now sent mid2 h
  simp at h

theorem Quiet.append {c} (h : Quiet interval k pre mid) (hc : ∀ now sent, c = .generate k now sent →
      generated interval (pre ++ mid) k now sent = none) : Quiet interval k pre (mid ++ [c]) := by
  intro mid1 now sent mid2 hmid
  induction mid2 using reverseRecOn with
  | nil =>
    obtain ⟨rfl, heq⟩ := append_inj' hmid rfl
    exact hc now sent (singleton_inj.1 heq)
  | append_singleton mid2 c' _ =>
    rw [← cons_append, ← append_assoc] at hmid
    obtain ⟨rfl, -⟩ := append_inj' hmid rfl
    exact h mid1 now sent mid2 rfl

theorem quiet_or_first (interval : ℤ) (k : Bytes) (pre mid : List Call) :
    Quiet interval k pre mid ∨ ∃ mid1 now sent mid2 m, mid = mid1 ++ .generate k now sent :: mid2 ∧
      Quiet interval k pre mid1 ∧ generated interval (pre ++ mid1) k now sent = some m := by
  induction mid using reverseRecOn with
  | nil => exact .inl quiet_nil
  | append_singleton mid c ih =>
    rcases ih with hq | ⟨mid1, now, sent, mid2, m, rfl, hq, hm⟩
    · by_cases hc : ∃ now sent m, c = .generate k now sent ∧
          generated interval (pre ++ mid) k now sent = some m
      · obtain ⟨now, sent, m, rfl, hm⟩ := hc
        exact .inr ⟨mid, now, sent, [], m, rfl, hq, hm⟩
      · refine .inl (hq.append fun now sent hgen => eq_none_iff_forall_ne_some.2 ?_)
        exact fun m hm => hc ⟨now, sent, m, hgen, hm⟩
    · exact .inr ⟨mid1, now, sent, mid2 ++ [c], m, by simp, hq, hm⟩

theorem exists_window (interval : ℤ) (k : Bytes) (calls : List Call) :
    ∃ pre mid, calls = pre ++ mid ∧ Fresh interval k pre ∧ Quiet interval k pre mid := by
  induction calls using reverseRecOn with
  | nil => exact ⟨[], [], rfl, .inl rfl, quiet_nil⟩
  | append_singleton calls c ih =>
    obtain ⟨pre, mid, rfl, hf, hq⟩ := ih
    by_cases hc : ∃ now sent m, c = .generate k now sent ∧
        generated interval (pre ++ mid) k now sent = some m
    · obtain ⟨now, sent, m, rfl, hm⟩ := hc
      exact ⟨pre ++ mid ++ [.generate k now sent], [], (append_nil _).symm,
        .inr ⟨_, now, sent, m, rfl, hm⟩, quiet_nil⟩
    · refine ⟨pre, mid ++ [c], append_assoc .., hf, hq.append fun now sent hgen => ?_⟩
      exact eq_none_iff_forall_ne_some.2 fun m hm => hc ⟨now, sent, m, hgen, hm⟩

theorem listed_iff {calls} : (∀ c ∈ calls, c.Listed k) ↔
    (∀ p ∈ addedTo k calls, p.ip.length = 4 ∨ p.ip.length = 16) ∧
      ∀ p ∈ droppedFrom k calls, p.ip.length ≠ 16 := by
  induction calls with
  | nil => simp [addedTo, droppedFrom]
  | cons c calls ih =>
    rw [forall_mem_cons, ih]
    cases c with
    | add k' p =>
      by_cases hk : k' = k
      · simp [addedTo, droppedFrom, Call.Listed, hk, and_assoc]
      · simp [addedTo, droppedFrom, Call.Listed, hk]
    | drop k' p =>
      by_cases hk : k' = k
      · simp [addedTo, droppedFrom, Call.Listed, hk]
        tauto
      · simp [addedTo, droppedFrom, Call.Listed, hk]
    | generate k' now sent => simp [addedTo, droppedFrom, Call.Listed]

theorem exists_window_of_mem {c now sent calls post}
    (hcalls : calls = pre ++ c :: (mid ++ .generate k now sent :: post))
    (hsoon : (after interval (pre ++ c :: mid)).tooSoon k now = false)
    (hc : addedTo k [c] ≠ [] ∨ droppedFrom k [c] ≠ []) :
    ∃ pre' mid' now' sent' post' m, calls = pre' ++ (mid' ++ .generate k now' sent' :: post') ∧
      Fresh interval k pre' ∧ Quiet interval k pre' mid' ∧
      generated interval (pre' ++ mid') k now' sent' = some m ∧ c ∈ mid' := by
  obtain ⟨pre', mid0, rfl, hf, hq⟩ := exists_window interval k pre
  rcases quiet_or_first interval k pre' (mid0 ++ c :: mid) with
    hquiet | ⟨mid1, now', sent', mid2, m, hmid, hquiet, hm⟩
  · have hne : addedTo k (mid0 ++ c :: mid) ≠ [] ∨ droppedFrom k (mid0 ++ c :: mid) ≠ [] := by
      refine hc.imp (fun h hnil => h ?_) fun h hnil => h ?_
      · rw [addedTo, flatMap_append, append_eq_nil_iff] at hnil
        exact flatMap_eq_nil_iff.2 fun x hx =>
          flatMap_eq_nil_iff.1 hnil.2 x (mem_singleton.1 hx ▸ mem_cons_self)
      · rw [droppedFrom, flatMap_append, append_eq_nil_iff] at hnil
        exact flatMap_eq_nil_iff.2 fun x hx =>
          flatMap_eq_nil_iff.1 hnil.2 x (mem_singleton.1 hx ▸ mem_cons_self)
    rw [append_assoc] at hsoon
    obtain ⟨m, hm⟩ := exists_generated sent hf hquiet hsoon hne
    refine ⟨pre', _, now, sent, post, m, ?_, hf, hquiet, hm, by simp⟩
    rw [hcalls]
    simp
  · have hcall : c ≠ .generate k now' sent' := by
      rintro rfl
      exact hc.elim (fun h => h rfl) fun h => h rfl
    refine ⟨pre', mid1, now', sent', mid2 ++ .generate k now sent :: post, m, ?_, hf, hquiet, hm,
      ?_⟩
    · calc calls = pre' ++ ((mid0 ++ c :: mid) ++ .generate k now sent :: post) := by
            rw [hcalls]; simp
        _ = _ := by rw [hmid]; simp
    -- the first message comes after the call, since there is none before
    · rcases append_eq_append_iff.1 hmid with ⟨a, rfl, ha⟩ | ⟨a, rfl, ha⟩
      · cases a with
        | nil => exact absurd (cons.inj ha).1 hcall
        | cons x a =>
          rw [(cons.inj ha).1]
          simp
      · cases a with
        | nil => exact absurd (cons.inj ha).1.symm hcall
        | cons x a =>
          rw [cons_append, cons.injEq] at ha
          rw [hq mid1 now' sent' a (by rw [ha.1])] at hm
          cases hm

/-- **When every change is told exactly once.** -/
theorem exactlyOnce_iff (interval : ℤ) (k : Bytes) (calls : List Call) :
    ExactlyOnce interval k calls ↔
      ∀ pre c mid now sent post, calls = pre ++ c :: (mid ++ .generate k now sent :: post) →
        (after interval (pre ++ c :: mid)).tooSoon k now = false → c.Listed k := by
  constructor
  · intro h pre c mid now sent post hcalls hsoon
    by_cases hc : addedTo k [c] ≠ [] ∨ droppedFrom k [c] ≠ []
    · obtain ⟨pre', mid', now', sent', post', m, hcalls', hf, hq, hm, hmem⟩ :=
        exists_window_of_mem hcalls hsoon hc
      have hcarries := h pre' mid' now' sent' post' m hcalls' hf hq hm
      rw [(generated_eq_some hf hq hm).1] at hcarries
      exact listed_iff.2 (carries_message_iff.1 hcarries) c hmem
    · push Not at hc
      refine listed_iff.2 ⟨?_, ?_⟩ c (mem_singleton_self c)
      · rw [hc.1]
        nofun
      · rw [hc.2]
        nofun
  · intro h pre mid now sent post m hcalls hf hq hm
    obtain ⟨rfl, hsoon⟩ := generated_eq_some hf hq hm
    refine carries_message_iff.2 (listed_iff.1 fun c hc => ?_)
    obtain ⟨s, t, rfl⟩ := append_of_mem hc
    refine h (pre ++ s) c t now sent post ?_ ?_
    · rw [hcalls]
      simp
    · rw [append_assoc]
      exact hsoon

def i2pPeer : CompactPeer := ⟨replicate 32 7, 6881⟩

def i2pCalls : List Call := [.add (utf8 "a") i2pPeer, .generate (utf8 "a") 0 0]

theorem i2pPeer_lost : generated 60000000000 [.add (utf8 "a") i2pPeer] (utf8 "a") 0 0 =
      some ⟨[], [], [], [], [], []⟩ ∧
    (after 60000000000 i2pCalls).addedPeers (utf8 "a") = none ∧
    ¬ ExactlyOnce 60000000000 (utf8 "a") i2pCalls := by
  have hm : generated 60000000000 [.add (utf8 "a") i2pPeer] (utf8 "a") 0 0 =
      some ⟨[], [], [], [], [], []⟩ := by decide +kernel
  refine ⟨hm, by decide +kernel, fun h => ?_⟩
  have hq : Quiet 60000000000 (utf8 "a") [] ([] ++ [.add (utf8 "a") i2pPeer]) :=
    quiet_nil.append nofun
  have hcarries := h [] _ 0 0 [] _ rfl (.inl rfl) hq hm
  exact absurd (hcarries.added i2pPeer) (by decide +kernel)

end DefaultPEXHandler

end GoI2pBt.PeerProtocol
