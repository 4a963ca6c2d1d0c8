/-
  Variables of fixed width, and ports.
-/
import GoI2pBt.Krpc.Message
import GoI2pBt.Tracker.HttpPeers

namespace GoI2pBt

open Bencode Metainfo Tracker.Http

def intToken (N : ℤ) : Bytes := ch 'i' :: (formatInt N ++ [ch 'e'])

def decodedInt (N : Int64) : GoVal := .iface (.int 64) (.int N.toInt)

variable (env : Env)

inductive IntPlace where
  | int (t : GoType) (bits : ℕ) (old N : ℤ) (fuel : ℕ) (d : Decoder) (s : Bytes)
      (kind : t.under = .int bits) (width : bits ∈ [8, 16, 32, 64])
      (plain : checkUnmarshalers env t (.int old) = none) (raw : d.raw = false)
      (next : d.r = intToken N ++ s)
  | uint (t : GoType) (bits old : ℕ) (N : ℤ) (fuel : ℕ) (d : Decoder) (s : Bytes)
      (kind : t.under = .uint bits) (width : bits ∈ [8, 16, 32, 64])
      (plain : checkUnmarshalers env t (.uint old) = none) (raw : d.raw = false)
      (next : d.r = intToken N ++ s)
  | address (host : Bytes) (N : Int64) (rest : List GoVal) (ip : ¬ i2pSuffix <:+ host)
  | hostAddress (host : Bytes) (N : Int64) (rest : List GoVal)
  | error (N : Int64) (rest : List GoVal)
  | peer (m : List (Bytes × GoVal)) (N : Int64) (port : m.lookup (utf8 "port") = some (decodedInt N))

variable {env} (net : Net)

def IntPlace.Exact : IntPlace env → Prop
  | .int t _ old N fuel d _ _ _ _ _ _ => ∀ x d',
      decodeInto env (fuel + 1) (.mk t (.int old) true) d = .ok x d' → x = .int N
  | .uint t _ old N fuel d _ _ _ _ _ _ => ∀ x d',
      decodeInto env (fuel + 1) (.mk t (.uint old) true) d = .ok x d' →
      ∃ n : ℕ, x = .uint n ∧ (n : ℤ) = N
  | .address host N rest _ => ∀ a,
      Address.decode net (.iface .string (.str host) :: decodedInt N :: rest) = .ok a →
      (a.port.toNat : ℤ) = N.toInt
  | .hostAddress host N rest => ∀ a,
      HostAddress.decode (.iface .string (.str host) :: decodedInt N :: rest) = .ok a →
      (a.port.toNat : ℤ) = N.toInt
  | .error N rest => ∀ e, Krpc.Error.decode (decodedInt N :: rest) = .ok e → e.code = N
  | .peer m N _ => ∀ p, Peers.extractPeerFromDict (.iface (.map .iface) (.map m)) = .ok p →
      (p.Port.toNat : ℤ) = N.toInt

def HasString (m : List (Bytes × GoVal)) (key : Bytes) : Prop :=
  ∃ s, m.lookup key = some (.iface .string (.str s))

def IntPlace.Fits : IntPlace env → Prop
  | .int _ bits _ N _ _ _ _ _ _ _ _ =>
      -2 ^ 63 ≤ N → N < 2 ^ 63 → -2 ^ (bits - 1) ≤ N ∧ N < 2 ^ (bits - 1)
  | .uint _ bits _ N _ _ _ _ _ _ _ _ => 0 ≤ N → N < 2 ^ 64 → N < 2 ^ bits
  | .address host N _ _ => (parseIP host).isSome → 0 ≤ N.toInt ∧ N.toInt < 2 ^ 16
  | .hostAddress _ N _ => 0 ≤ N.toInt ∧ N.toInt < 2 ^ 16
  | .error _ _ => True
  | .peer m N _ => HasString m (utf8 "peer id") → HasString m (utf8 "ip") →
      0 ≤ N.toInt ∧ N.toInt < 2 ^ 16

/-! ## Variables -/

section

variable {t : GoType} {d : Decoder} {old N s} (ht : t ≠ .rawMessage)
  (hind : indirect env t old true = ⟨.value (.mk t old true), id⟩) (hraw : d.raw = false)
  (hr : d.r = intToken N ++ s)
include ht hind hraw hr

theorem decodeInto_intToken {fuel} :
    Meets reading (decodeInto env (fuel + 1) (.mk t old true)) d (intToken N)
      (assignIntegerValue (.mk t old true) (formatInt N)) := by
  have hd : d.r = ch 'i' :: (formatInt N ++ ch 'e' :: s) := by rw [hr]; simp [intToken]
  have hds := meets_readIntegerDigits (notMem_formatInt (by decide) (by decide) N) hd
  rw [hraw] at hds
  have hint : Meets reading (decodeInt (.mk t old true)) d (intToken N ++ [])
      (assignIntegerValue (.mk t old true) (formatInt N)) :=
    hds.step fun d1 _ => meets_lift _ d1
  rw [List.append_nil] at hint
  refine Meets.congr (decodeInto_of_not_raw hraw) ?_
  rw [hind]
  have hdis : Meets reading (do
      return id (← dispatchDecodeByType env (decodeInto env fuel) fuel (.mk t old true))) d
      (intToken N) ((assignIntegerValue (.mk t old true) (formatInt N)).map id) :=
    (Meets.congr (dispatch_int hd) hint).map
  have hmap : (assignIntegerValue (.mk t old true) (formatInt N)).map id =
      assignIntegerValue (.mk t old true) (formatInt N) := by
    cases assignIntegerValue (.mk t old true) (formatInt N) <;> rfl
  rw [hmap] at hdis
  cases t with
  | rawMessage => exact absurd rfl ht
  | _ => exact hdis

theorem forall_stored_iff {fuel} (P : GoVal → Prop) :
    (∀ x d', decodeInto env (fuel + 1) (.mk t old true) d = .ok x d' → P x) ↔
      ∀ x, assignIntegerValue (.mk t old true) (formatInt N) = .ok x → P x := by
  have h : Meets reading (decodeInto env (fuel + 1) (.mk t old true)) d _ _ :=
    decodeInto_intToken ht hind hraw hr
  cases hx : assignIntegerValue (.mk t old true) (formatInt N) with
  | error e =>
    rw [hx] at h
    obtain ⟨e', d', h⟩ := h
    simp [h]
  | ok y =>
    rw [hx] at h
    obtain ⟨d', h, -⟩ := h
    simp [h]

end

theorem exact_int_iff {bits} (hbits : bits ∈ [8, 16, 32, 64]) {N} :
    (∀ i, parseInt 64 (formatInt N) = some i → i.bmod (2 ^ bits) = N) ↔
      (-2 ^ 63 ≤ N → N < 2 ^ 63 → -2 ^ (bits - 1) ≤ N ∧ N < 2 ^ (bits - 1)) := by
  have hpos : 0 < 2 ^ bits := by positivity
  have hhalf : 2 ^ bits = 2 * 2 ^ (bits - 1) := by
    rw [← pow_succ', Nat.sub_add_cancel]
    simp only [List.mem_cons, List.not_mem_nil, or_false] at hbits
    omega
  have hcast : ((2 ^ (bits - 1) : ℕ) : ℤ) = 2 ^ (bits - 1) := by push_cast; rfl
  simp only [parseInt_formatInt_iff]
  constructor
  · intro h hlo hhi
    have hmod := h N ⟨rfl, hlo, hhi⟩
    have hle := Int.le_bmod (x := N) hpos
    have hlt := Int.bmod_lt (x := N) hpos
    rw [hmod] at hle hlt
    omega
  · rintro h i ⟨rfl, hlo, hhi⟩
    obtain ⟨hlo, hhi⟩ := h hlo hhi
    exact Int.bmod_eq_of_le (by omega) (by omega)

theorem exact_uint_iff {bits N} :
    (∀ n, parseUint 64 (formatInt N) = some n → ((n % 2 ^ bits : ℕ) : ℤ) = N) ↔
      (0 ≤ N → N < 2 ^ 64 → N < 2 ^ bits) := by
  have hcast : ((2 ^ bits : ℕ) : ℤ) = 2 ^ bits := by push_cast; rfl
  simp only [parseUint_formatInt_iff]
  constructor
  · intro h hlo hhi
    have hmod := h N.toNat ⟨by omega, by omega⟩
    have hlt := Nat.mod_lt N.toNat (show 0 < 2 ^ bits by positivity)
    omega
  · rintro h n ⟨rfl, hn⟩
    have hlt := h (by omega) (by exact_mod_cast hn)
    rw [Nat.mod_eq_of_lt (by omega)]

/-! ## Ports -/

theorem toNat_ofInt_iff (N : ℤ) : ((UInt16.ofInt N).toNat : ℤ) = N ↔ 0 ≤ N ∧ N < 2 ^ 16 := by
  have hval : ((UInt16.ofInt N).toNat : ℤ) = N % 2 ^ 16 := by
    rw [UInt16.ofInt, UInt16.toNat_ofNat']
    omega
  rw [hval]
  omega

theorem exact_port_iff {α : Type} {x : Except Bencode.Error α} (port : α → UInt16) {N : ℤ}
    {P : Prop} (hok : P → ∃ a, x = .ok a ∧ port a = UInt16.ofInt N)
    (herr : ¬ P → ∃ e, x = .error e) :
    (∀ a, x = .ok a → ((port a).toNat : ℤ) = N) ↔ (P → 0 ≤ N ∧ N < 2 ^ 16) := by
  by_cases hP : P
  · obtain ⟨a, rfl, hport⟩ := hok hP
    rw [← toNat_ofInt_iff, ← hport]
    constructor
    · intro h _
      exact h a rfl
    · rintro h _ ⟨⟩
      exact h hP
  · obtain ⟨e, rfl⟩ := herr hP
    exact iff_of_true (fun a ha => nomatch ha) fun h => absurd h hP

/-- **Integers are stored exactly if they fit.** -/
theorem place_exact_iff (env : Env) (net : Net) (pl : IntPlace env) : pl.Exact net ↔ pl.Fits := by
  cases pl with
  | int t bits old N fuel d s kind width plain raw next =>
    have ht : t ≠ .rawMessage := by
      rintro rfl
      cases kind
    have hind : indirect env t (.int old) true = ⟨.value (.mk t (.int old) true), id⟩ := by
      rw [indirect.eq_def, if_pos rfl, plain]
      rfl
    refine (forall_stored_iff ht hind raw next (· = .int N)).trans ?_
    rw [IntPlace.Fits, ← exact_int_iff width, assignIntegerValue, kind, parseInt64]
    cases parseInt 64 (formatInt N) with
    | none => simp
    | some i => simp [RValue.set]
  | uint t bits old N fuel d s kind width plain raw next =>
    have ht : t ≠ .rawMessage := by
      rintro rfl
      cases kind
    have hind : indirect env t (.uint old) true = ⟨.value (.mk t (.uint old) true), id⟩ := by
      rw [indirect.eq_def, if_pos rfl, plain]
      rfl
    refine (forall_stored_iff ht hind raw next fun x => ∃ n : ℕ, x = .uint n ∧ (n : ℤ) = N).trans ?_
    rw [IntPlace.Fits, ← exact_uint_iff, assignIntegerValue, kind, parseUint64]
    cases parseUint 64 (formatInt N) with
    | none => simp
    | some n => simp [RValue.set]
  | address host N rest ip =>
    refine exact_port_iff Address.port (fun hip => ?_) fun hip => ?_
    · obtain ⟨b, hb⟩ := Option.isSome_iff_exists.1 hip
      rw [Address.decode, if_neg ip, hb]
      exact ⟨_, rfl, rfl⟩
    · rw [Option.not_isSome_iff_eq_none] at hip
      rw [Address.decode, if_neg ip, hip]
      exact ⟨_, rfl⟩
  | hostAddress host N rest =>
    have hdec : HostAddress.decode (.iface .string (.str host) :: decodedInt N :: rest) =
        .ok ⟨host, UInt16.ofInt N.toInt⟩ := rfl
    change (∀ a, _ = Except.ok a → _) ↔ _
    rw [hdec, IntPlace.Fits, ← toNat_ofInt_iff]
    simp
  | error N rest =>
    refine iff_of_true (fun e he => ?_) trivial
    rw [Krpc.Error.decode.eq_def] at he
    split at he
    · next heq =>
      cases heq
      cases he
      exact Int64.ofInt_toInt N
    · cases he
  | peer m N port =>
    refine (exact_port_iff (P := HasString m (utf8 "peer id") ∧ HasString m (utf8 "ip"))
      Peer.Port ?_ ?_).trans and_imp
    · rintro ⟨⟨pid, hpid⟩, ip, hip⟩
      rw [Peers.extractPeerFromDict, hpid, hip, port]
      exact ⟨_, rfl, rfl⟩
    · intro h
      rw [Peers.extractPeerFromDict]
      split
      · next pid hpid =>
        split
        · next ip hip => exact absurd ⟨⟨pid, hpid⟩, ip, hip⟩ h
        · exact ⟨_, rfl⟩
      · exact ⟨_, rfl⟩

theorem port_truncated :
    Address.decode Address.sampleNet [.iface .string (.str (utf8 "1.2.3.4")), decodedInt 70000] =
        .ok ⟨some (.ipAddr [1, 2, 3, 4] []), 4464⟩ ∧
      DecodeBytes bareEnv (intToken 300) (.uint 8) (.uint 0) = .ok (.uint 44) :=
  ⟨rfl, rfl⟩

end GoI2pBt
