/-
  The bandwidth limiter is a token bucket, unless a call waits.
-/
import GoI2pBt.Lib.TokenBucket
import Mathlib.Data.Rat.Floor
import Mathlib.Tactic.FieldSimp
import Mathlib.Tactic.NormNum

namespace GoI2pBt.Rpc
open Int Bucket

structure BandwidthLimiter where
  maxBytesPerSecond : ℤ
  enabled : Bool
  tokens : ℚ
  maxTokens : ℚ
  lastFill : ℚ

structure TokenRequest where
  now : ℚ
  bytes : ℤ
  done : Option ℚ
  timer : Bool

structure TokenReply where
  time : ℚ
  ok : Bool

namespace BandwidthLimiter

def NewBandwidthLimiter (maxBytesPerSecond : ℤ) (enabled : Bool) (now : ℚ) : BandwidthLimiter :=
  let bucket : ℚ := if enabled ∧ 0 < maxBytesPerSecond then maxBytesPerSecond else 0
  { maxBytesPerSecond, enabled, tokens := bucket, maxTokens := bucket, lastFill := now }

def updateTokenBucket (bl : BandwidthLimiter) (now : ℚ) : BandwidthLimiter :=
  if bl.enabled = false ∨ bl.maxBytesPerSecond ≤ 0 then { bl with maxTokens := 0, tokens := 0 }
  else
    let maxTokens : ℚ := bl.maxBytesPerSecond
    let tokens := bl.tokens + bl.maxBytesPerSecond * (now - bl.lastFill)
    { bl with
      maxTokens
      tokens := if maxTokens < tokens then maxTokens else tokens
      lastFill := now }

def waitTime (bl : BandwidthLimiter) (bytes : ℤ) : ℚ := (bytes - bl.tokens) / bl.maxBytesPerSecond

def selectReply (c : TokenRequest) (wait : ℚ) : TokenReply :=
  match c.done with
  | none => ⟨c.now + wait, true⟩
  | some d =>
    if d < c.now + wait ∨ (d = c.now + wait ∧ c.timer = false) then ⟨max c.now d, false⟩
    else ⟨c.now + wait, true⟩

def WaitForTokens (bl : BandwidthLimiter) (c : TokenRequest) : BandwidthLimiter × TokenReply :=
  if bl.enabled = false ∨ bl.maxBytesPerSecond ≤ 0 then (bl, ⟨c.now, true⟩)
  else if c.bytes ≤ 0 then (bl, ⟨c.now, true⟩)
  else
    let bl := bl.updateTokenBucket c.now
    if c.bytes ≤ bl.tokens then ({ bl with tokens := bl.tokens - c.bytes }, ⟨c.now, true⟩)
    else ({ bl with tokens := 0 }, selectReply c (bl.waitTime c.bytes))

/-! ## Calls one after the other -/

def after (bl : BandwidthLimiter) : List TokenRequest → BandwidthLimiter
  | [] => bl
  | c :: cs => after (bl.WaitForTokens c).1 cs

def replies (bl : BandwidthLimiter) : List TokenRequest → List (TokenRequest × TokenReply)
  | [] => []
  | c :: cs => (c, (bl.WaitForTokens c).2) :: replies (bl.WaitForTokens c).1 cs

def Serial (t : ℚ) (bl : BandwidthLimiter) : List TokenRequest → Prop
  | [] => True
  | c :: cs => t ≤ c.now ∧ Serial (bl.WaitForTokens c).2.time (bl.WaitForTokens c).1 cs

def granted (t₀ t₁ : ℚ) (rs : List (TokenRequest × TokenReply)) : ℚ := (rs.map fun q =>
    if q.2.ok = true ∧ t₀ ≤ q.2.time ∧ q.2.time ≤ t₁ then (q.1.bytes.toNat : ℚ) else 0).sum

def Waits (bl : BandwidthLimiter) (c : TokenRequest) : Prop :=
  0 < c.bytes ∧ (bl.updateTokenBucket c.now).tokens < c.bytes

def Prompt (bl : BandwidthLimiter) (c : TokenRequest) : Prop :=
  bl.Waits c → ∃ d, c.done = some d ∧ d < c.now + (bl.updateTokenBucket c.now).waitTime c.bytes

def Each (C : BandwidthLimiter → TokenRequest → Prop) (bl : BandwidthLimiter) :
    List TokenRequest → Prop
  | [] => True
  | c :: cs => C bl c ∧ Each C (bl.WaitForTokens c).1 cs

variable {r : ℤ} {bl : BandwidthLimiter} {c : TokenRequest} {cs cs' : List TokenRequest}
  {t t₀ t₁ : ℚ}

theorem granted_cons (q : TokenRequest × TokenReply) (rs : List (TokenRequest × TokenReply)) :
    granted t₀ t₁ (q :: rs) =
      (if q.2.ok = true ∧ t₀ ≤ q.2.time ∧ q.2.time ≤ t₁ then (q.1.bytes.toNat : ℚ) else 0) +
        granted t₀ t₁ rs := by
  rw [granted, List.map_cons, List.sum_cons]
  rfl

/-! ## The token bucket -/

structure Active (r : ℤ) (bl : BandwidthLimiter) : Prop where
  pos : 0 < r
  rate : bl.maxBytesPerSecond = r
  enabled : bl.enabled = true
  tokens : 0 ≤ bl.tokens

def bucket (bl : BandwidthLimiter) : Bucket ℚ := ⟨bl.tokens, bl.lastFill⟩

theorem active_new (hr : 0 < r) (now : ℚ) : Active r (NewBandwidthLimiter r true now) where
  pos := hr
  rate := rfl
  enabled := rfl
  tokens := by
    rw [NewBandwidthLimiter, if_pos ⟨rfl, hr⟩]
    exact cast_nonneg hr.le

def level (r : ℤ) (bl : BandwidthLimiter) (now : ℚ) : ℚ := (bl.bucket.fill (r : ℚ) r now).level

theorem Active.update (h : Active r bl) (now : ℚ) : bl.updateTokenBucket now =
    { bl with maxTokens := r, tokens := level r bl now, lastFill := now } := by
  have hon : ¬ (bl.enabled = false ∨ bl.maxBytesPerSecond ≤ 0) := by
    rw [h.enabled, h.rate]
    simpa using h.pos
  rw [updateTokenBucket, if_neg hon, h.rate, level, Bucket.fill, bucket, min_def_lt]

theorem Active.level_nonneg (h : Active r bl) (ht : bl.lastFill ≤ t) : 0 ≤ level r bl t := by
  have hr : (0 : ℚ) < r := by exact_mod_cast h.pos
  exact le_min hr.le (add_nonneg h.tokens (mul_nonneg hr.le (sub_nonneg.2 ht)))

def spend (r : ℤ) (bl : BandwidthLimiter) (now amount : ℚ) : BandwidthLimiter :=
  { bl with maxTokens := r, tokens := level r bl now - amount, lastFill := now }

theorem active_spend (h : Active r bl) {amount} (ha : amount ≤ level r bl t) :
    Active r (spend r bl t amount) :=
  ⟨h.pos, h.rate, h.enabled, sub_nonneg.2 ha⟩

theorem takes_spend {amount} (ht : bl.lastFill ≤ t) (ha0 : 0 ≤ amount)
    (ha : amount ≤ level r bl t) :
    Takes (r : ℚ) r bl.bucket [⟨t, amount⟩] (spend r bl t amount).bucket :=
  .cons ht ha0 ha (.nil _)

theorem Active.wait_cases (h : Active r bl) (c : TokenRequest) :
    (c.bytes ≤ 0 ∧ bl.WaitForTokens c = (bl, ⟨c.now, true⟩)) ∨
    (0 < c.bytes ∧ (c.bytes : ℚ) ≤ level r bl c.now ∧
      bl.WaitForTokens c = (spend r bl c.now c.bytes, ⟨c.now, true⟩)) ∨
    (0 < c.bytes ∧ level r bl c.now < c.bytes ∧
      bl.WaitForTokens c = (spend r bl c.now (level r bl c.now),
        selectReply c ((c.bytes - level r bl c.now) / r))) := by
  have hon : ¬ (bl.enabled = false ∨ bl.maxBytesPerSecond ≤ 0) := by
    rw [h.enabled, h.rate]
    simpa using h.pos
  rw [WaitForTokens, if_neg hon]
  by_cases hb : c.bytes ≤ 0
  · exact .inl ⟨hb, if_pos hb⟩
  · have hwait : (bl.updateTokenBucket c.now).waitTime c.bytes =
        (c.bytes - level r bl c.now) / r := by rw [h.update, waitTime, h.rate]
    rw [if_neg hb]
    simp only [hwait]
    simp only [h.update]
    rcases le_or_gt (c.bytes : ℚ) (level r bl c.now) with hle | hlt
    · exact .inr (.inl ⟨not_le.1 hb, hle, if_pos hle⟩)
    · refine .inr (.inr ⟨not_le.1 hb, hlt, ?_⟩)
      rw [if_neg (not_le.2 hlt), spend, sub_self]

theorem Active.waits_iff (h : Active r bl) :
    bl.Waits c ↔ 0 < c.bytes ∧ level r bl c.now < c.bytes := by
  rw [Waits, h.update]

theorem Active.takes (h : Active r bl) (hlast : bl.lastFill ≤ t) (hs : Serial t bl cs)
    (hp : Each Prompt bl cs) :
    ∃ xs, Takes (r : ℚ) r bl.bucket xs (bl.after cs).bucket ∧
      ∀ t₀ t₁, granted t₀ t₁ (bl.replies cs) ≤ taken t₀ t₁ xs := by
  induction cs generalizing bl t with
  | nil => exact ⟨[], .nil _, fun _ _ => le_rfl⟩
  | cons c cs ih =>
    obtain ⟨hnow, hs⟩ := hs
    obtain ⟨hc, hp⟩ := hp
    have hlast' : bl.lastFill ≤ c.now := hlast.trans hnow
    rcases h.wait_cases c with ⟨hb, he⟩ | ⟨hb, hle, he⟩ | ⟨hb, hlt, he⟩
    · rw [he] at hs hp
      obtain ⟨xs, hxs, hgr⟩ := ih h hlast' hs hp
      have hzero : c.bytes.toNat = 0 := toNat_of_nonpos hb
      refine ⟨xs, ?_, fun t₀ t₁ => ?_⟩
      · rw [after, he]; exact hxs
      · rw [replies, granted_cons, he, hzero, Nat.cast_zero, ite_self, zero_add]
        exact hgr t₀ t₁
    · rw [he] at hs hp
      obtain ⟨xs, hxs, hgr⟩ := ih (active_spend h hle) le_rfl hs hp
      have hbytes : (c.bytes.toNat : ℚ) = c.bytes := by
        exact_mod_cast toNat_of_nonneg hb.le
      have htake : Takes (r : ℚ) r bl.bucket [⟨c.now, c.bytes⟩]
          (spend r bl c.now c.bytes).bucket :=
        takes_spend hlast' (cast_nonneg hb.le) hle
      refine ⟨⟨c.now, c.bytes⟩ :: xs, ?_, fun t₀ t₁ => ?_⟩
      · rw [after, he]; exact htake.trans hxs
      · rw [replies, granted_cons, he, hbytes, taken_cons]
        simp only [true_and]
        exact add_le_add_right (hgr t₀ t₁) _
    · obtain ⟨d, hd, hbefore⟩ := hc (h.waits_iff.2 ⟨hb, hlt⟩)
      have hlevel : 0 ≤ level r bl c.now := h.level_nonneg hlast'
      have hreply : selectReply c ((c.bytes - level r bl c.now) / r) = ⟨max c.now d, false⟩ := by
        rw [h.update, waitTime, h.rate] at hbefore
        rw [selectReply, hd]
        exact if_pos (.inl hbefore)
      rw [hreply] at he
      rw [he] at hs hp
      obtain ⟨xs, hxs, hgr⟩ := ih (active_spend h le_rfl) (le_max_left _ _) hs hp
      have htake : Takes (r : ℚ) r bl.bucket [⟨c.now, level r bl c.now⟩]
          (spend r bl c.now (level r bl c.now)).bucket :=
        takes_spend hlast' hlevel le_rfl
      refine ⟨⟨c.now, level r bl c.now⟩ :: xs, ?_, fun t₀ t₁ => ?_⟩
      · rw [after, he]; exact htake.trans hxs
      · rw [replies, granted_cons, he, taken_cons, if_neg (fun hok => Bool.noConfusion hok.1)]
        refine add_le_add ?_ (hgr t₀ t₁)
        split_ifs
        · exact hlevel
        · exact le_rfl

/-- **The rate is kept if no granted call has to wait.** -/
theorem granted_le (hr : 0 < r) {start : ℚ}
    (hs : Serial start (NewBandwidthLimiter r true start) cs)
    (hp : Each Prompt (NewBandwidthLimiter r true start) cs) (ht : t₀ ≤ t₁) :
    granted t₀ t₁ ((NewBandwidthLimiter r true start).replies cs) ≤ r + r * (t₁ - t₀) := by
  obtain ⟨xs, hxs, hgr⟩ := (active_new hr start).takes le_rfl hs hp
  have hpos : (0 : ℚ) ≤ r := Int.cast_nonneg hr.le
  exact (hgr t₀ t₁).trans (Bucket.taken_le hxs hpos hpos ht)

def ask (now : ℚ) (bytes : ℤ) : TokenRequest := ⟨now, bytes, none, true⟩

def promptCalls : List TokenRequest := [ask 0 10, ask (1 / 2) 5, ⟨1 / 2, 7, some (3 / 5), true⟩]

theorem granted_le_sample : Serial 0 (NewBandwidthLimiter 10 true 0) promptCalls ∧
      Each Prompt (NewBandwidthLimiter 10 true 0) promptCalls ∧
      granted 0 1 ((NewBandwidthLimiter 10 true 0).replies promptCalls) ≤ 10 + 10 * (1 - 0) := by
  have hs : Serial 0 (NewBandwidthLimiter 10 true 0) promptCalls := by
    norm_num [Serial, promptCalls, ask, WaitForTokens, NewBandwidthLimiter, updateTokenBucket,
      selectReply, waitTime]
  have hp : Each Prompt (NewBandwidthLimiter 10 true 0) promptCalls := by
    norm_num [Each, Prompt, Waits, promptCalls, ask, WaitForTokens, NewBandwidthLimiter,
      updateTokenBucket, selectReply, waitTime]
  exact ⟨hs, hp, by simpa using granted_le (r := 10) (by decide) hs hp (zero_le_one' ℚ)⟩

/-! ## A call that waits -/

def waitingCalls : List TokenRequest := [ask 0 10, ask 0 10, ask 1 10]

theorem waiting_exceeds : Serial 0 (NewBandwidthLimiter 10 true 0) waitingCalls ∧
      granted 0 1 ((NewBandwidthLimiter 10 true 0).replies waitingCalls) = 30 ∧
      ¬ (30 : ℚ) ≤ 10 + 10 * (1 - 0) := by
  have hten : Int.toNat 10 = 10 := rfl
  refine ⟨?_, ?_, by norm_num⟩
  · norm_num [Serial, waitingCalls, ask, WaitForTokens, NewBandwidthLimiter, updateTokenBucket,
      selectReply, waitTime]
  · norm_num [granted, replies, waitingCalls, ask, WaitForTokens, NewBandwidthLimiter,
      updateTokenBucket, selectReply, waitTime, hten]

end BandwidthLimiter

end GoI2pBt.Rpc
