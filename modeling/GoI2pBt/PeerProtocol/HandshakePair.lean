/-
  Two peers that shake hands with each other.
-/
import GoI2pBt.Downloader.Connection
import GoI2pBt.Lib.Process

namespace GoI2pBt.PeerProtocol

open List HandshakeMsg Sock Bool
open Metainfo (Hash)

variable {ρ : Type}

/-! ## The handshake as a process -/

namespace HandshakeMsg

def parse (b : Bytes) : Except HandshakeErr HandshakeMsg :=
  if b.take 20 ≠ ProtocolHeader then .error .errInvalidProtocolHeader
  else .ok {
    extensionBits := .ofBytes ((b.drop 20).take 8)
    infoHash := .ofBytes ((b.drop 28).take 20)
    peerID := .ofBytes ((b.drop 48).take 20) }

def writeThen (msg : HandshakeMsg) (next : Proc ρ) : Proc ρ :=
  .writes [ProtocolHeader, msg.extensionBits.bytes.toList, msg.infoHash.bytes, msg.peerID.bytes]
    next

def answer (msg : HandshakeMsg) (ret : Except HandshakeErr HandshakeMsg → ρ) :
    Except HandshakeErr HandshakeMsg → Proc ρ
  | .error err => .done (ret (.error err))
  | .ok rhm => writeThen { msg with infoHash := rhm.infoHash } (.done (ret (.ok rhm)))

def handshakeProc (msg : HandshakeMsg) (ret : Except HandshakeErr HandshakeMsg → ρ) : Proc ρ :=
  if msg.infoHash.IsZero then .read 68 fun b => msg.answer ret (parse b)
  else msg.writeThen (.read 68 fun b => .done (ret (parse b)))

end HandshakeMsg

namespace PeerConn

variable (pc : PeerConn)

def finish : Except HandshakeErr HandshakeMsg → Except ConnErr PeerConn
  | .error err => .error (.handshake err)
  | .ok rhm => pc.accept rhm

def handshakeMsg : HandshakeMsg := ⟨pc.extBits, pc.id, pc.infoHash⟩

def handshakeProc : Proc (Except ConnErr PeerConn) := pc.handshakeMsg.handshakeProc pc.finish

end PeerConn

/-! ## On a socket -/

def runSock (fail : HandshakeErr → ρ) : Proc ρ → Sock → ρ × Sock
  | .done r, sock => (r, sock)
  | .write b next, sock =>
    match write b sock with
    | .error err sock => (fail err, sock)
    | .ok _ sock => runSock fail next sock
  | .read n next, sock =>
    match readFull n sock with
    | .error err sock => (fail err, sock)
    | .ok b sock => runSock fail (next b) sock

theorem runSock_write (fail : HandshakeErr → ρ) (next : Proc ρ) (a b : Bytes) (sock : Sock) :
    runSock fail (.write a (.write b next)) sock = runSock fail (.write (a ++ b) next) sock := by
  simp only [runSock, ← write_bind_write]
  cases h : write a sock with
  | error err sock' => rw [bind_of_error h]
  | ok _ sock' => rw [bind_of_ok h]

theorem runSock_writeThen (fail : HandshakeErr → ρ) (next : Proc ρ) (msg : HandshakeMsg)
    (sock : Sock) : runSock fail (msg.writeThen next) sock =
      runSock fail (.write msg.bytes next) sock := by
  simp only [writeThen, Proc.writes, foldr_cons, foldr_nil, runSock_write, bytes, append_assoc]

theorem getPeerHandshakeMsg_eq (sock : Sock) : getPeerHandshakeMsg sock =
    match readFull 68 sock with
    | .error err sock => .error err sock
    | .ok b sock =>
      match parse b with
      | .error err => .error err sock
      | .ok rhm => .ok rhm sock := by
  rw [getPeerHandshakeMsg]
  cases h : readFull 68 sock with
  | error err sock => rw [bind_of_error h]
  | ok b sock =>
    rw [bind_of_ok h]
    by_cases hb : b.take 20 = ProtocolHeader
    · simp [parse, hb]
    · simp only [parse, hb, ne_eq, not_false_eq_true, if_true]
      rfl

def Sock.outcome {α : Type} : EStateM.Result HandshakeErr Sock α → Except HandshakeErr α × Sock
  | .error err sock => (.error err, sock)
  | .ok a sock => (.ok a, sock)

theorem HandshakeMsg.runSock_handshakeProc (msg : HandshakeMsg)
    (ret : Except HandshakeErr HandshakeMsg → ρ) (sock : Sock) :
    runSock (fun err => ret (.error err)) (msg.handshakeProc ret) sock =
      (ret (outcome (Handshake msg sock)).1, (outcome (Handshake msg sock)).2) := by
  rw [handshakeProc, Handshake]
  by_cases hz : msg.infoHash.IsZero
  · simp only [hz, if_true, runSock]
    have hget := getPeerHandshakeMsg_eq sock
    cases hr : readFull 68 sock with
    | error err s =>
      rw [hr] at hget
      rw [bind_of_error hget]
      rfl
    | ok b s =>
      rw [hr] at hget
      dsimp only at hget ⊢
      cases hp : parse b with
      | error err =>
        rw [hp] at hget
        rw [bind_of_error hget]
        rfl
      | ok rhm =>
        rw [hp] at hget
        rw [bind_of_ok hget, writeHandshakeMessage_eq]
        simp only [answer, runSock_writeThen, runSock]
        cases hw : write (bytes { msg with infoHash := rhm.infoHash }) s with
        | error err s' => rw [bind_of_error hw]; rfl
        | ok _ s' => rw [bind_of_ok hw]; rfl
  · simp only [hz, false_eq_true, if_false, runSock_writeThen, runSock]
    rw [writeHandshakeMessage_eq]
    cases hw : write msg.bytes sock with
    | error err s => rw [bind_of_error hw]; rfl
    | ok _ s =>
      rw [bind_of_ok hw, getPeerHandshakeMsg_eq]
      dsimp only
      cases readFull 68 s with
      | error err s' => rfl
      | ok b s' =>
        dsimp only
        cases parse b with
        | error err => rfl
        | ok rhm => rfl

theorem PeerConn.runSock_handshakeProc (pc : PeerConn) (sock : Sock) :
    runSock (fun err => pc.finish (.error err)) pc.handshakeProc sock = pc.Handshake sock := by
  rw [handshakeProc, HandshakeMsg.runSock_handshakeProc, PeerConn.Handshake, handshakeMsg]
  cases PeerProtocol.Handshake ⟨pc.extBits, pc.id, pc.infoHash⟩ sock <;> rfl

/-! ## One side -/

namespace HandshakeMsg

variable {me other : HandshakeMsg} {ret : Except HandshakeErr HandshakeMsg → ρ}
  {inp out inp' out' rest rest' : Bytes} {p q : Proc ρ}

theorem parse_bytes (msg : HandshakeMsg) : parse msg.bytes = .ok msg := by
  have hread : readFull 68 ⟨msg.bytes, [], 0⟩ = .ok msg.bytes ⟨[], [], 0⟩ := by
    rw [readFull, if_pos msg.length_bytes.ge, take_of_length_le msg.length_bytes.le,
      drop_of_length_le msg.length_bytes.le]
  have hget := getPeerHandshakeMsg_bytes msg [] [] 0
  rw [append_nil, getPeerHandshakeMsg_eq, hread] at hget
  dsimp only at hget
  cases hp : parse msg.bytes with
  | error err => rw [hp] at hget; cases hget
  | ok rhm => rw [hp] at hget; cases hget; rfl

def sends (me other : HandshakeMsg) : HandshakeMsg :=
  if me.infoHash.IsZero then { me with infoHash := other.infoHash } else me

def reply (me : HandshakeMsg) (inp : Bytes) : Bytes :=
  if me.infoHash.IsZero then
    if inp.length < 68 then []
    else
      match parse inp with
      | .error _ => []
      | .ok rhm => bytes { me with infoHash := rhm.infoHash }
  else me.bytes

theorem reply_of_not_isZero (h : me.infoHash.IsZero = false) : me.reply inp = me.bytes := by
  rw [reply, if_neg (ne_true_of_eq_false h)]

theorem reply_of_lt (h : me.infoHash.IsZero = true) (hlt : inp.length < 68) :
    me.reply inp = [] := by
  rw [reply, if_pos h, if_pos hlt]

theorem reply_of_ge (h : me.infoHash.IsZero = true) (hge : 68 ≤ inp.length) :
    (∀ err, parse inp = .error err → me.reply inp = []) ∧
    ∀ rhm, parse inp = .ok rhm → me.reply inp = bytes { me with infoHash := rhm.infoHash } := by
  rw [reply, if_pos h, if_neg (Nat.not_lt.2 hge)]
  constructor
  · intro err hp
    rw [hp]
  · intro rhm hp
    rw [hp]

theorem reply_bytes (me other : HandshakeMsg) : me.reply other.bytes = (me.sends other).bytes := by
  rw [reply, sends]
  split_ifs with hz hlt
  · rw [length_bytes] at hlt
    omega
  · rw [parse_bytes]
  · rfl

theorem length_reply_le (me : HandshakeMsg) (inp : Bytes) : (me.reply inp).length ≤ 68 := by
  rw [reply]
  split_ifs
  · exact zero_le
  · split
    · exact zero_le
    · exact (length_bytes _).le
  · exact (length_bytes _).le

def Waits (q : Proc ρ) : Prop := ∃ n next, 0 < n ∧ q = .read n next

structure Stage (me : HandshakeMsg) (ret : Except HandshakeErr HandshakeMsg → ρ)
    (inp out : Bytes) (q : Proc ρ) : Prop where
  sent : out <+: me.reply inp
  now : q.Writes ∨ out = me.reply inp ∧
    (inp.length < 68 ∧ Waits q ∨ inp.length = 68 ∧ q = .done (ret (parse inp)))

theorem flatten_writeThen (msg : HandshakeMsg) :
    [ProtocolHeader, msg.extensionBits.bytes.toList, msg.infoHash.bytes,
      msg.peerID.bytes].flatten = msg.bytes := by
  simp only [flatten_cons, flatten_nil, append_nil, bytes]

theorem after_writeThen {msg : HandshakeMsg} {next : Proc ρ}
    (h : (msg.writeThen next).After inp out q) :
    (inp = [] ∧ out <+: msg.bytes ∧ q.Writes) ∨
      ∃ out', out = msg.bytes ++ out' ∧ next.After inp out' q := by
  have hafter := Proc.after_writes h
  rwa [flatten_writeThen] at hafter

theorem stage_of_not_isZero (hz : me.infoHash.IsZero = false)
    (h : (me.handshakeProc ret).After inp out q) : me.Stage ret inp out q := by
  rw [handshakeProc, if_neg (ne_true_of_eq_false hz)] at h
  rcases after_writeThen h with ⟨-, hout, hw⟩ | ⟨out1, rfl, hread⟩
  · exact ⟨by rwa [reply_of_not_isZero hz], .inl hw⟩
  · rcases Proc.after_read (by decide) hread with ⟨hlt, rfl, hq⟩ | ⟨c, inp1, hc, rfl, hdone⟩
    · rw [append_nil]
      refine ⟨by rw [reply_of_not_isZero hz], .inr ⟨(reply_of_not_isZero hz).symm, .inl ⟨hlt, ?_⟩⟩⟩
      exact hq
    · obtain ⟨rfl, rfl, rfl⟩ := Proc.after_done hdone
      rw [append_nil, append_nil]
      exact ⟨by rw [reply_of_not_isZero hz], .inr ⟨(reply_of_not_isZero hz).symm, .inr ⟨hc, rfl⟩⟩⟩

theorem stage_of_isZero (hz : me.infoHash.IsZero = true)
    (h : (me.handshakeProc ret).After inp out q) : me.Stage ret inp out q := by
  rw [handshakeProc, if_pos hz] at h
  rcases Proc.after_read (by decide) h with ⟨hlt, rfl, hq⟩ | ⟨c, inp1, hc, rfl, hans⟩
  · exact ⟨ nil_prefix, .inr ⟨(reply_of_lt hz hlt).symm, .inl ⟨hlt, hq⟩⟩⟩
  · obtain ⟨herr, hok⟩ := reply_of_ge hz hc.ge
    cases hp : parse c with
    | error err =>
      have hreply := herr err hp
      rw [hp] at hans
      obtain ⟨rfl, rfl, rfl⟩ := Proc.after_done hans
      rw [append_nil]
      exact ⟨ nil_prefix, .inr ⟨hreply.symm, .inr ⟨hc, by rw [hp]⟩⟩⟩
    | ok rhm =>
      have hreply := hok rhm hp
      rw [hp] at hans
      rcases after_writeThen hans with ⟨rfl, hout, hw⟩ | ⟨out1, rfl, hdone⟩
      · rw [append_nil]
        exact ⟨by rwa [hreply], .inl hw⟩
      · obtain ⟨rfl, rfl, rfl⟩ := Proc.after_done hdone
        rw [append_nil, append_nil]
        exact ⟨by rw [hreply], .inr ⟨hreply.symm, .inr ⟨hc, by rw [hp]⟩⟩⟩

theorem stage_of_after (h : (me.handshakeProc ret).After inp out q) : me.Stage ret inp out q := by
  cases hz : me.infoHash.IsZero with
  | false => exact stage_of_not_isZero hz h
  | true => exact stage_of_isZero hz h

/-! ## Two sides -/

variable {ret' : Except HandshakeErr HandshakeMsg → ρ}

section

variable (hne : ¬ (me.infoHash.IsZero ∧ other.infoHash.IsZero))
include hne

theorem not_isZero_of (hz : other.infoHash.IsZero = true) : me.infoHash.IsZero = false := by
  cases h : me.infoHash.IsZero with
  | false => rfl
  | true => exact absurd ⟨h, hz⟩ hne

theorem Stage.eq_sends (hme : me.Stage ret inp out p) (hother : other.Stage ret' inp' out' q)
    (hout : out = inp' ++ rest') (hout' : out' = inp ++ rest) (hlen : inp.length = 68) :
    inp = (other.sends me).bytes := by
  have hinp : inp = other.reply inp' := by
    have hpre : inp <+: other.reply inp' := (hout' ▸ prefix_append inp rest).trans hother.sent
    exact hpre.eq_of_length_le (hlen ▸ other.length_reply_le inp')
  cases hz : other.infoHash.IsZero with
  | false => rw [hinp, reply_of_not_isZero hz, sends, if_neg (ne_true_of_eq_false hz)]
  | true =>
    -- the other side has answered, so it has read a whole handshake
    have hmz := not_isZero_of hne hz
    have hge : 68 ≤ inp'.length := by
      by_contra hlt
      rw [hinp, reply_of_lt hz (by omega)] at hlen
      exact absurd hlen (by decide)
    have hread : inp' = me.bytes := by
      have hpre : inp' <+: me.bytes := by
        rw [← reply_of_not_isZero hmz]
        exact (hout ▸ prefix_append inp' rest').trans hme.sent
      exact hpre.eq_of_length_le (me.length_bytes ▸ hge)
    rw [hinp, hread, reply_bytes]

theorem Stage.result {r}
    (hme : me.Stage ret inp out (.done r)) (hother : other.Stage ret' inp' out' q)
    (hout : out = inp' ++ rest') (hout' : out' = inp ++ rest) :
    r = ret (.ok (other.sends me)) := by
  rcases hme.now with ⟨b, next, hw⟩ | ⟨-, ⟨-, n, next, -, hq⟩ | ⟨hlen, hq⟩⟩
  · cases hw
  · cases hq
  · cases hq
    rw [hme.eq_sends hne hother hout hout' hlen, parse_bytes]

theorem Stage.other_goes_on (hother : other.Stage ret' inp' inp q) (hlt : inp.length < 68)
    (hout : me.reply inp = inp' ++ rest') : q.Writes ∨ Waits q ∧ rest' ≠ [] := by
  rcases hother.now with hw | ⟨hsaid, hq⟩
  · exact .inl hw
  -- the other side has sent less than a handshake, so it has none to send yet
  have hz : other.infoHash.IsZero = true := by
    by_contra hz
    rw [reply_of_not_isZero (by simpa using hz)] at hsaid
    rw [hsaid, length_bytes] at hlt
    omega
  rw [reply_of_not_isZero (not_isZero_of hne hz)] at hout
  rcases hq with ⟨hlt', hwait⟩ | ⟨hlen, -⟩
  · refine .inr ⟨hwait, ?_⟩
    rintro rfl
    rw [append_nil] at hout
    rw [← hout, length_bytes] at hlt'
    omega
  · have hread : inp' = me.bytes :=
      (hout ▸ prefix_append inp' rest').eq_of_length_le (by rw [hlen, length_bytes])
    rw [hsaid, hread, reply_bytes, length_bytes] at hlt
    omega

end

end HandshakeMsg

namespace PeerConn

variable {a b a' b' : PeerConn} {c : Pair (Except ConnErr PeerConn) (Except ConnErr PeerConn)}

section

variable (hne : ¬ (a.infoHash.IsZero ∧ b.infoHash.IsZero))
include hne

theorem accept_sends (h : a.accept (b.handshakeMsg.sends a.handshakeMsg) = .ok a') :
    a'.peerID = b.id ∧ a'.peerExtBits = b.extBits ∧
    a'.infoHash = (if a.infoHash.IsZero then b.infoHash else a.infoHash) ∧
    (a.infoHash.IsZero ∨ b.infoHash.IsZero ∨ a.infoHash = b.infoHash) := by
  by_cases hb : b.infoHash.IsZero
  · have ha : ¬ a.infoHash.IsZero := fun ha => hne ⟨ha, hb⟩
    simp only [accept, handshakeMsg, sends, hb, ha, if_true, ne_eq, not_true_eq_false,
      if_false, false_eq_true, Except.ok.injEq] at h
    subst h
    exact ⟨rfl, rfl, (if_neg ha).symm, .inr (.inl hb)⟩
  · simp only [accept, handshakeMsg, sends, hb, if_false, false_eq_true] at h
    split_ifs at h with ha heq
    · cases h
      exact ⟨rfl, rfl, (if_pos ha).symm, .inl ha⟩
    · cases h
      exact ⟨rfl, rfl, (if_neg ha).symm, .inr (.inr (not_not.1 heq))⟩

theorem result_of_reaches (h : Pair.Reaches (.start a.handshakeProc b.handshakeProc) c) :
    (∀ r, c.left = .done r → r = a.accept (b.handshakeMsg.sends a.handshakeMsg)) ∧
    ∀ r, c.right = .done r → r = b.accept (a.handshakeMsg.sends b.handshakeMsg) := by
  obtain ⟨inpL, outL, inpR, outR, hleft, hright, htoRight, htoLeft⟩ := h.history
  have hl := stage_of_after hleft
  have hr := stage_of_after hright
  constructor
  · intro r hc
    exact (hc ▸ hl).result hne hr htoRight htoLeft
  · intro r hc
    exact (hc ▸ hr).result (fun h => hne h.symm) hl htoLeft htoRight

theorem step_or_done_of_reaches (h : Pair.Reaches (.start a.handshakeProc b.handshakeProc) c) :
    (∃ c', Pair.Step c c') ∨ ∃ ra rb, c.left = .done ra ∧ c.right = .done rb := by
  obtain ⟨inpL, outL, inpR, outR, hleft, hright, htoRight, htoLeft⟩ := h.history
  have hl := stage_of_after hleft
  have hr := stage_of_after hright
  rcases hl.now with hw | ⟨hsaidL, ⟨hltL, n, next, hn, hql⟩ | ⟨-, hql⟩⟩
  · exact .inl (Pair.exists_step_of_writes (.inl hw))
  · by_cases hempty : c.toLeft = []
    · rw [hempty, append_nil] at htoLeft
      subst htoLeft
      rcases hr.other_goes_on hne hltL (hsaidL ▸ htoRight) with hw | ⟨⟨m, next', hm, hqr⟩, hbytes⟩
      · exact .inl (Pair.exists_step_of_writes (.inr hw))
      · exact .inl (Pair.exists_step_right hm hqr hbytes)
    · exact .inl (Pair.exists_step_left hn hql hempty)
  · rcases hr.now with hw | ⟨hsaidR, ⟨hltR, n, next, hn, hqr⟩ | ⟨-, hqr⟩⟩
    · exact .inl (Pair.exists_step_of_writes (.inr hw))
    · by_cases hempty : c.toRight = []
      · rw [hempty, append_nil] at htoRight
        subst htoRight
        rcases hl.other_goes_on (fun h => hne h.symm) hltR (hsaidR ▸ htoLeft) with
          hw | ⟨⟨m, next', hm, hql'⟩, hbytes⟩
        · exact .inl (Pair.exists_step_of_writes (.inl hw))
        · exact .inl (Pair.exists_step_left hm hql' hbytes)
      · exact .inl (Pair.exists_step_right hn hqr hempty)
    · exact .inr ⟨_, _, hql, hqr⟩

end

structure Agreed (a b a' b' : PeerConn) : Prop where
  infoHash : a'.infoHash = b'.infoHash
  not_isZero : a'.infoHash.IsZero = false
  left : a'.peerID = b.id ∧ a'.peerExtBits = b.extBits
  right : b'.peerID = a.id ∧ b'.peerExtBits = a.extBits

theorem agreed_of_accept (hne : ¬ (a.infoHash.IsZero ∧ b.infoHash.IsZero))
    (ha : a.accept (b.handshakeMsg.sends a.handshakeMsg) = .ok a')
    (hb : b.accept (a.handshakeMsg.sends b.handshakeMsg) = .ok b') : Agreed a b a' b' := by
  obtain ⟨hid, hbits, hinfo, hwhen⟩ := accept_sends hne ha
  obtain ⟨hid', hbits', hinfo', -⟩ := accept_sends (fun h => hne h.symm) hb
  refine ⟨?_, ?_, ⟨hid, hbits⟩, hid', hbits'⟩
  · rw [hinfo, hinfo']
    split_ifs with hza hzb hzb
    · exact absurd ⟨hza, hzb⟩ hne
    · rfl
    · rfl
    · exact (hwhen.resolve_left hza).resolve_left hzb
  · rw [hinfo]
    split_ifs with hza
    · exact eq_false_iff.2 fun hzb => hne ⟨hza, hzb⟩
    · exact eq_false_iff.2 hza

theorem exists_error_of_ne (ha : a.infoHash.IsZero = false) (hb : b.infoHash.IsZero = false)
    (hdiff : a.infoHash ≠ b.infoHash) :
    ∃ err, a.accept (b.handshakeMsg.sends a.handshakeMsg) = .error err := by
  cases h : a.accept (b.handshakeMsg.sends a.handshakeMsg) with
  | error err => exact ⟨err, rfl⟩
  | ok a' =>
    obtain ⟨-, -, -, hz | hz | heq⟩ := accept_sends (fun h => ne_true_of_eq_false ha h.1) h
    · exact absurd hz (ne_true_of_eq_false ha)
    · exact absurd hz (ne_true_of_eq_false hb)
    · exact absurd heq hdiff

/-- **Two handshakes end, and successful ones agree.** -/
theorem handshakes_agree (a b : PeerConn) (hne : ¬ (a.infoHash.IsZero ∧ b.infoHash.IsZero))
    {c : Pair (Except ConnErr PeerConn) (Except ConnErr PeerConn)}
    (h : Pair.Reaches (.start a.handshakeProc b.handshakeProc) c) :
    Acc (fun c' c => Pair.Step c c') c ∧
    ((∃ c', Pair.Step c c') ∨ ∃ ra rb, c.left = .done ra ∧ c.right = .done rb) ∧
    (∀ a' b', c.left = .done (.ok a') → c.right = .done (.ok b') → Agreed a b a' b') ∧
    (a.infoHash.IsZero = false → b.infoHash.IsZero = false → a.infoHash ≠ b.infoHash →
      (∀ r, c.left = .done r → ∃ err, r = .error err) ∧
      ∀ r, c.right = .done r → ∃ err, r = .error err) := by
  obtain ⟨hleft, hright⟩ := result_of_reaches hne h
  refine ⟨Pair.acc_step c, step_or_done_of_reaches hne h, ?_, ?_⟩
  · intro a' b' ha hb
    exact agreed_of_accept hne (hleft _ ha).symm (hright _ hb).symm
  · intro ha hb hdiff
    constructor
    · intro r hr
      rw [hleft r hr]
      exact exists_error_of_ne ha hb hdiff
    · intro r hr
      rw [hright r hr]
      exact exists_error_of_ne hb ha hdiff.symm

theorem handshakes_agree_one : ∃ c a' b',
    Pair.Reaches (.start (NewPeerConn .zero (.ofBytes [1])).handshakeProc
      (NewPeerConn (.ofBytes [2]) .zero).handshakeProc) c ∧
    c.left = .done (.ok a') ∧ c.right = .done (.ok b') ∧
    Agreed (NewPeerConn .zero (.ofBytes [1])) (NewPeerConn (.ofBytes [2]) .zero) a' b' := by
  have hne : ¬ ((NewPeerConn .zero (.ofBytes [1])).infoHash.IsZero ∧
      (NewPeerConn (.ofBytes [2]) .zero).infoHash.IsZero) := by decide
  obtain ⟨c, hreach, hend⟩ := Pair.exists_reaches_end
    (.start (NewPeerConn .zero (.ofBytes [1])).handshakeProc
      (NewPeerConn (.ofBytes [2]) .zero).handshakeProc)
  obtain ⟨ra, rb, hra, hrb⟩ := (step_or_done_of_reaches hne hreach).resolve_left hend
  obtain ⟨hleft, hright⟩ := result_of_reaches hne hreach
  rw [hleft ra hra] at hra
  rw [hright rb hrb] at hrb
  exact ⟨c, _, _, hreach, hra, hrb, (handshakes_agree _ _ hne hreach).2.2.1 _ _ hra hrb⟩

end PeerConn

end GoI2pBt.PeerProtocol
