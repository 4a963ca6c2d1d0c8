/-
  For how long a token is accepted.
-/
import GoI2pBt.Dht.Managers

namespace GoI2pBt.Dht.TokenManager

open List Metainfo Function Option

variable (net : Net) (expired : ℤ)

/-! ## Schedules -/

inductive Op where
  | token (addr : NetAddr)
  | check (addr : NetAddr) (token : Bytes)
  | updateToken (token : Bytes)
  | clear

structure Step where
  now : ℤ
  op : Op

def step (tm : TokenManager) (st : Step) : TokenManager :=
  match st.op with
  | .token addr => tm.Token net addr st.now
  | .check _ _ => tm
  | .updateToken token => tm.updateToken token
  | .clear => tm.clear st.now expired

def run (tm : TokenManager) (steps : List Step) : TokenManager := steps.foldl (step net expired) tm

def Step.generated (st : Step) : List Bytes :=
  match st.op with
  | .updateToken token => [token]
  | _ => []

def generated (steps : List Step) : List Bytes := steps.flatMap Step.generated

def Step.gives (a : NetAddr) (st : Step) : Bool :=
  match st.op with
  | .token addr => addr.String net = a.String net
  | _ => false

def lastGiven (a : NetAddr) (steps : List Step) : Option ℤ :=
  (steps.reverse.find? (Step.gives net a)).map Step.now

variable {net expired} {tm : TokenManager} {steps : List Step} {a : NetAddr}

theorem run_append (st : Step) :
    run net expired tm (steps ++ [st]) = step net expired (run net expired tm steps) st := by
  rw [run, foldl_append]
  rfl

theorem lastGiven_append (st : Step) : lastGiven net a (steps ++ [st]) =
    if st.gives net a then some st.now else lastGiven net a steps := by
  rw [lastGiven, reverse_append, reverse_singleton, singleton_append]
  split_ifs with h
  · rw [find?_cons_of_pos h, map_some]
  · rw [find?_cons_of_neg h, lastGiven]

/-! ## The two tokens -/

theorem step_of_not_generated {st} (h : st.generated = []) :
    (step net expired tm st).last = tm.last ∧ (step net expired tm st).new = tm.new := by
  obtain ⟨now, op⟩ := st
  cases op with
  | updateToken token => cases h
  | token | check | clear => exact ⟨rfl, rfl⟩

def Known (tm tm' : TokenManager) (tokens : List Bytes) : Prop :=
  (tokens = [] ∧ tm'.last = tm.last ∧ tm'.new = tm.new) ∨
  (tokens.length = 1 ∧ tm'.last = tm.new ∧ tm'.new ∈ tokens) ∨
  (2 ≤ tokens.length ∧ tm'.last ∈ tokens ∧ tm'.new ∈ tokens)

theorem Known.mem_new {tm' tokens} (h : Known tm tm' tokens)
    (hne : tokens ≠ []) : tm'.new ∈ tokens := by
  rcases h with ⟨hnil, -⟩ | ⟨-, -, hnew⟩ | ⟨-, -, hnew⟩
  · exact absurd hnil hne
  · exact hnew
  · exact hnew

theorem known_run (steps : List Step) : Known tm (run net expired tm steps) (generated steps) := by
  induction steps using reverseRecOn with
  | nil => exact .inl ⟨rfl, rfl, rfl⟩
  | append_singleton steps st ih =>
    rw [run_append, generated, flatMap_append, flatMap_singleton]
    by_cases hst : st.generated = []
    · have ⟨hlast, hnew⟩ : (step net expired (run net expired tm steps) st).last = _ ∧
          (step net expired (run net expired tm steps) st).new = _ := step_of_not_generated hst
      rw [hst, append_nil, Known, hlast, hnew]
      exact ih
    · obtain ⟨now, op⟩ := st
      cases op with
      | updateToken token =>
        change Known tm ((run net expired tm steps).updateToken token) (generated steps ++ [token])
        have hmem : token ∈ generated steps ++ [token] := mem_append_right _ (.head _)
        by_cases hnil : generated steps = []
        · obtain ⟨-, -, hnew⟩ | ⟨hlen, -⟩ | ⟨hlen, -⟩ := ih
          · exact .inr (.inl ⟨by rw [hnil]; rfl, hnew, hmem⟩)
          · rw [hnil] at hlen
            cases hlen
          · rw [hnil] at hlen
            exact absurd hlen (by decide)
        · refine .inr (.inr ⟨?_, mem_append_left _ (ih.mem_new hnil), hmem⟩)
          have hpos := length_pos_of_ne_nil hnil
          rw [length_append, length_singleton]
          omega
      | token | check | clear => exact absurd rfl hst

/-! ## The times of the addresses -/

theorem addrs_run {now time} (hgiven : lastGiven net a steps = some time)
    (hle : ∀ st ∈ steps, st.now ≤ now) (hexp : now - time < expired) :
    (run net expired tm steps).addrs (a.String net) = some time := by
  induction steps using reverseRecOn with
  | nil => cases hgiven
  | append_singleton steps st ih =>
    have hst : st.now ≤ now := hle st (mem_append_right _ (.head _))
    have hprev := fun h => ih h fun st hst => hle st (mem_append_left _ hst)
    rw [lastGiven_append] at hgiven
    rw [run_append]
    obtain ⟨t, op⟩ := st
    cases op with
    | token addr =>
      change update (run net expired tm steps).addrs (addr.String net) (some t) _ = _
      by_cases haddr : addr.String net = a.String net
      · have hgives : Step.gives net a ⟨t, .token addr⟩ = true := decide_eq_true haddr
        rw [if_pos hgives] at hgiven
        rw [haddr, update_self, hgiven]
      · have hgives : Step.gives net a ⟨t, .token addr⟩ = false := decide_eq_false haddr
        rw [if_neg (ne_true_of_eq_false hgives)] at hgiven
        rw [update_of_ne (Ne.symm haddr), hprev hgiven]
    | check | updateToken => exact hprev hgiven
    | clear =>
      change ((run net expired tm steps).addrs (a.String net)).filter _ = _
      have hkeep : t - time < expired := by
        have hle' : t ≤ now := hst
        omega
      rw [hprev hgiven, filter_some, if_pos (decide_eq_true hkeep)]

theorem addrs_run_none (haddr : tm.addrs (a.String net) = none)
    (h : ∀ st ∈ steps, st.gives net a = false) :
    (run net expired tm steps).addrs (a.String net) = none := by
  induction steps using reverseRecOn with
  | nil => exact haddr
  | append_singleton steps st ih =>
    have hst := h st (mem_append_right _ (.head _))
    have hprev := ih fun st hst => h st (mem_append_left _ hst)
    rw [run_append]
    obtain ⟨t, op⟩ := st
    cases op with
    | token addr =>
      have hne : addr.String net ≠ a.String net := of_decide_eq_false hst
      change update (run net expired tm steps).addrs (addr.String net) (some t) _ = _
      rw [update_of_ne hne.symm, hprev]
    | check | updateToken => exact hprev
    | clear =>
      change ((run net expired tm steps).addrs (a.String net)).filter _ = _
      rw [hprev]
      rfl

/-! ## Schedules from the start -/

structure Sound (net : Net) (expired : ℤ) (first : Bytes) (steps : List Step) (now : ℤ) : Prop where
  /-- A token is accepted before the second new token, while its address is not expired. -/
  accepted : ∀ pre t a post, steps = pre ++ ⟨t, .token a⟩ :: post → (generated post).length < 2 →
    (∀ time, lastGiven net a steps = some time → now - time < expired) →
    (run net expired (newTokenManager first) steps).Check net a
      (run net expired (newTokenManager first) pre).new = true
  /-- It is rejected for all addresses after the second new token. -/
  rejected : ∀ pre t a post, steps = pre ++ ⟨t, .token a⟩ :: post →
    2 ≤ (generated post).length → ∀ b,
    (run net expired (newTokenManager first) steps).Check net b
      (run net expired (newTokenManager first) pre).new = false
  /-- An address that was given no token has none that is accepted. -/
  ungiven : ∀ b, (∀ st ∈ steps, st.gives net b = false) → ∀ token,
    (run net expired (newTokenManager first) steps).Check net b token = false

theorem generated_append {pre post} : generated (pre ++ post) = generated pre ++ generated post :=
  flatMap_append ..

theorem run_append_list {pre post} :
    run net expired tm (pre ++ post) = run net expired (run net expired tm pre) post :=
  foldl_append ..

theorem known_after_token {pre post t} : Known (run net expired tm pre)
    (run net expired tm (pre ++ ⟨t, .token a⟩ :: post)) (generated post) := by
  rw [run_append_list]
  exact known_run (⟨t, .token a⟩ :: post)

theorem new_mem (first : Bytes) (pre : List Step) :
    (run net expired (newTokenManager first) pre).new ∈ first :: generated pre := by
  have hknown : Known _ (run net expired (newTokenManager first) pre) _ := known_run pre
  by_cases hnil : generated pre = []
  · rcases hknown with ⟨-, -, hnew⟩ | ⟨hlen, -⟩ | ⟨hlen, -⟩
    · rw [hnew]
      exact .head _
    · rw [hnil] at hlen
      cases hlen
    · rw [hnil] at hlen
      cases hlen
  · exact .tail _ (hknown.mem_new hnil)

theorem check_eq_true {token} (htoken : tm.last = token ∨ tm.new = token) {time}
    (haddr : tm.addrs (a.String net) = some time) : tm.Check net a token = true := by
  rw [Check, haddr]
  exact decide_eq_true ⟨htoken, rfl⟩

theorem check_eq_false {token}
    (h : (tm.last ≠ token ∧ tm.new ≠ token) ∨ tm.addrs (a.String net) = none) :
    tm.Check net a token = false := by
  refine decide_eq_false ?_
  rintro ⟨htoken, haddr⟩
  rcases h with ⟨hlast, hnew⟩ | hnone
  · exact htoken.elim hlast hnew
  · rw [hnone] at haddr
    cases haddr

theorem exists_lastGiven (net : Net) (pre post : List Step) (t : ℤ) (a : NetAddr) :
    ∃ time, lastGiven net a (pre ++ ⟨t, .token a⟩ :: post) = some time := by
  have hgives : (⟨t, .token a⟩ : Step).gives net a = true := decide_eq_true rfl
  have hfound : ((pre ++ ⟨t, .token a⟩ :: post).reverse.find? (Step.gives net a)).isSome := by
    rw [find?_isSome]
    exact ⟨_, mem_reverse.mpr (mem_append_right _ (.head _)), hgives⟩
  obtain ⟨st, hst⟩ := isSome_iff_exists.mp hfound
  exact ⟨st.now, by rw [lastGiven, hst]; rfl⟩

/-- **Tokens live for two rotations.** -/
theorem sound_of_distinct (net : Net) (expired : ℤ) (first : Bytes) (steps : List Step) (now : ℤ)
    (hdistinct : (first :: generated steps).Nodup)
    (htimes : (steps.map Step.now ++ [now]).Pairwise (· ≤ ·)) :
    Sound net expired first steps now := by
  have hle : ∀ st ∈ steps, st.now ≤ now := fun st hst =>
    (List.pairwise_append.mp htimes).2.2 _ (mem_map_of_mem hst) _ (.head _)
  constructor
  case accepted =>
    rintro pre t a post rfl hlt hexp
    obtain ⟨time, hgiven⟩ := exists_lastGiven net pre post t a
    refine check_eq_true ?_ (addrs_run hgiven hle (hexp time hgiven))
    rcases known_after_token with ⟨-, -, hnew⟩ | ⟨-, hlast, -⟩ | ⟨hlen, -⟩
    · exact .inr hnew
    · exact .inl hlast
    · omega
  case rejected =>
    rintro pre t a post rfl hlen b
    -- both tokens of the manager are among those generated later
    have hlater : ∀ token ∈ generated post,
        token ≠ (run net expired (newTokenManager first) pre).new := by
      rintro token htoken rfl
      rw [generated_append, ← cons_append, nodup_append] at hdistinct
      exact hdistinct.2.2 _ (new_mem first pre) _ htoken rfl
    refine check_eq_false (.inl ?_)
    rcases known_after_token with ⟨hnil, -⟩ | ⟨hone, -⟩ | ⟨-, hlast, hnew⟩
    · rw [hnil] at hlen
      cases hlen
    · omega
    · exact ⟨hlater _ hlast, hlater _ hnew⟩
  case ungiven =>
    intro b hb token
    exact check_eq_false (.inr (addrs_run_none rfl hb))

theorem sound_two_rotations : Sound Address.sampleNet 10 [1]
    [⟨0, .token (.ipAddr [1, 2, 3, 4] [])⟩, ⟨5, .updateToken [2]⟩, ⟨10, .updateToken [3]⟩,
      ⟨10, .clear⟩] 11 :=
  sound_of_distinct _ _ _ _ _ (by decide) (by decide)

end GoI2pBt.Dht.TokenManager
