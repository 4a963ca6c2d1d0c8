/-
  What a decoding costs: the input it reads and the buffers it makes for strings.
-/
import GoI2pBt.Bencode.Total

namespace GoI2pBt.Bencode

open List

/-- A decoding of the input `b` returns, has read a first part of `b`, and has made buffers of at
most `b.length` bytes in all and one that a prefix announced and the input could not fill. -/
structure Bounded (b : Bytes) (r : EStateM.Result Error Decoder GoVal) : Prop where
  returns : ∀ e d, r = .error e d → e.Returned
  reads : ∃ p, b = p ++ (stateAfter r).r
  buffers : (stateAfter r).alloc ≤ b.length + maxPrefix
  multiple : (stateAfter r).alloc ≤ 2 ^ 31 * b.length

theorem bounded_decode (env : Env) (b : Bytes) {t : GoType} {v} (hv : Dest env t v)
    (hnil : (stateAfter (Decode env t v (NewDecoder []))).alloc = 0) :
    Bounded b (Decode env t v (NewDecoder b)) := by
  have hends := decode_ends hv (show (NewDecoder b).raw = false from rfl)
  have haccepts : Accepts consuming (decodeInto env (b.length + 2) (.mk t v true)) _ :=
    accepts_decodeInto _ _
  obtain ⟨⟨p, hp⟩, hcost⟩ : consuming.lost (NewDecoder b)
      (stateAfter (Decode env t v (NewDecoder b))) := by
    cases h : Decode env t v (NewDecoder b) with
    | error e d => exact haccepts.error h
    | ok x d =>
      obtain ⟨p, hp, -⟩ := haccepts.ok h
      exact consuming.lost_trans hp (consuming.lost_refl d)
  have hcost : (stateAfter (Decode env t v (NewDecoder b))).alloc ≤ b.length + maxPrefix := by
    simpa [NewDecoder] using hcost
  refine ⟨fun e d h => hends.of_error h, ⟨p, hp.symm⟩, hcost, ?_⟩
  cases b with
  | nil => exact hnil.le
  | cons c b =>
    rw [maxPrefix, length_cons] at hcost
    rw [length_cons]
    omega

/-- **Every decoding into an `interface{}` or a `RawMessage` is bounded by its input.** -/
theorem decode_bounded (env : Env) (b : Bytes) :
    Bounded b (Decode env .iface .nilIface (NewDecoder b)) ∧
      Bounded b (Decode env .rawMessage .nilSlice (NewDecoder b)) ∧
      ∀ es sp, Bounded b (Decode env .rawMessage (.slice es sp) (NewDecoder b)) :=
  ⟨bounded_decode env b .fresh rfl, bounded_decode env b (.base trivial rfl rfl) rfl,
    fun _ _ => bounded_decode env b (.base trivial rfl rfl) rfl⟩

-- eleven bytes can make a buffer of nearly 2^31
example : (stateAfter (Decode bareEnv .iface .nilIface (NewDecoder (utf8 "2147483647:")))).alloc =
    2 ^ 31 - 1 := by decide +kernel

end GoI2pBt.Bencode
