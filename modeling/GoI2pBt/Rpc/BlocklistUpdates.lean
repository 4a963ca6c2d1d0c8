/-
  Concurrent updates of the blocklist: `SetURL`, reading the cache information, the HTTP exchange
  and installing the result are steps of their own.  The state also records which URL the ranges
  and the validators were read from.
-/
import GoI2pBt.Lib.Machine
import GoI2pBt.Rpc.Blocklist

namespace GoI2pBt.Rpc.BlocklistManager

open List Option

/-- What one `Update` has read; `origin` is the URL the validators came from. -/
structure Request where
  url : Bytes
  lastModified : Bytes
  etag : Bytes
  origin : Option Bytes
deriving DecidableEq

structure Updates where
  bm : BlocklistManager
  url : Bytes
  /-- The calls of `Update` that have read nothing yet. -/
  started : ℕ
  asking : List Request
  answered : List (Request × BlocklistResponse)
  rangesFrom : Option Bytes
  validatorsFrom : Option Bytes
  /-- An update of the configured URL has installed its result. -/
  succeeded : Bool

namespace Updates

variable (sort : SortSlice) (u : Updates)

def SetURL (url : Bytes) : Updates :=
  if u.url = url then u
  else
    { u with
      bm := { u.bm with lastModified := [], etag := [] }
      url := url
      started := if u.bm.enabled ∧ url ≠ [] then u.started + 1 else u.started
      validatorsFrom := none
      succeeded := false }

def getCacheInfo : Request := ⟨u.url, u.bm.lastModified, u.bm.etag, u.validatorsFrom⟩

def install (r : Request) (resp : BlocklistResponse) : Updates :=
  let bm := (u.bm.processBlocklistResponse sort resp).1
  if resp.StatusCode = 200 ∧ (parseBlocklist sort resp.Body).isSome then
    { u with
      bm := bm
      rangesFrom := some r.url
      validatorsFrom := some r.url
      succeeded := u.succeeded || r.url = u.url }
  else { u with bm := bm }

inductive Op where
  | SetEnabled (enabled : Bool)
  | SetURL (url : Bytes)
  | Update
  | getCacheInfo
  /-- The HTTP exchange of a request ends; `none` is an error. -/
  | fetch (i : ℕ) (resp : Option BlocklistResponse)
  | install (i : ℕ)

def step : Op → Option (Updates × Unit)
  | .SetEnabled enabled => some ({ u with bm := { u.bm with enabled := enabled } }, ())
  | .SetURL url => some (u.SetURL url, ())
  | .Update => some ({ u with started := u.started + 1 }, ())
  | .getCacheInfo =>
    if u.started = 0 then none
    else if u.url = [] then some ({ u with started := u.started - 1 }, ())
    else some ({ u with started := u.started - 1, asking := u.asking ++ [u.getCacheInfo] }, ())
  | .fetch i resp => u.asking[i]?.map fun r =>
    ({ u with
        asking := u.asking.eraseIdx i
        answered := u.answered ++ (resp.map fun resp => (r, resp)).toList }, ())
  | .install i => u.answered[i]?.map fun a =>
    (({ u with answered := u.answered.eraseIdx i } : Updates).install sort a.1 a.2, ())

def new : Updates := ⟨⟨false, [], [], [], 0⟩, [], 0, [], [], none, none, false⟩

/-- Validators are those of a response of `url`, or there are none. -/
def ValidFor (url lastModified etag : Bytes) (origin : Option Bytes) : Prop :=
  origin = some url ∨ lastModified = [] ∧ etag = []

structure Faithful (u : Updates) : Prop where
  ranges : u.succeeded = true → u.rangesFrom = some u.url
  validators : ValidFor u.url u.bm.lastModified u.bm.etag u.validatorsFrom
  sent : ∀ r ∈ u.asking, ValidFor r.url r.lastModified r.etag r.origin

structure Kept (u : Updates) : Prop extends Faithful u where
  asking : ∀ r ∈ u.asking, r.url = u.url
  answered : ∀ a ∈ u.answered, a.1.url = u.url

/-- The URL is changed only while no update is under way. -/
def Settled (u : Updates) : Op → Prop
  | .SetURL url => url = u.url ∨ u.asking = [] ∧ u.answered = []
  | _ => True

variable {sort u}

theorem processBlocklistResponse_kept {bm : BlocklistManager} {resp : BlocklistResponse}
    (h : ¬ (resp.StatusCode = 200 ∧ (parseBlocklist sort resp.Body).isSome)) :
    (bm.processBlocklistResponse sort resp).1 = bm := by
  unfold processBlocklistResponse
  split_ifs with h304 h200
  · rfl
  · rfl
  · cases hp : parseBlocklist sort resp.Body with
    | none => rfl
    | some ranges => exact absurd ⟨not_not.1 h200, by rw [hp]; rfl⟩ h

theorem Kept.install {r : Request} (h : Kept u) (hr : r.url = u.url) (resp : BlocklistResponse) :
    Kept (u.install sort r resp) := by
  unfold Updates.install
  dsimp only
  split_ifs with hok
  · exact ⟨⟨fun _ => congrArg some hr, .inl (congrArg some hr), h.sent⟩, h.asking, h.answered⟩
  · rw [processBlocklistResponse_kept hok]
    exact h

theorem Kept.step {op : Op} {u' : Updates} {o : Unit} (h : Kept u) (hop : Settled u op)
    (he : u.step sort op = some (u', o)) : Kept u' := by
  cases op with
  | SetEnabled enabled =>
    cases he
    exact ⟨⟨h.ranges, h.validators, h.sent⟩, h.asking, h.answered⟩
  | SetURL url =>
    cases he
    unfold Updates.SetURL
    by_cases hurl : u.url = url
    · rw [if_pos hurl]
      exact h
    · obtain ⟨hasking, hanswered⟩ := hop.resolve_left (Ne.symm hurl)
      rw [if_neg hurl]
      exact ⟨⟨nofun, .inr ⟨rfl, rfl⟩, h.sent⟩, by simp [hasking], by simp [hanswered]⟩
  | Update =>
    cases he
    exact ⟨⟨h.ranges, h.validators, h.sent⟩, h.asking, h.answered⟩
  | getCacheInfo =>
    rw [Updates.step] at he
    split_ifs at he with h0 hurl <;> cases he
    · exact ⟨⟨h.ranges, h.validators, h.sent⟩, h.asking, h.answered⟩
    · refine ⟨⟨h.ranges, h.validators, ?_⟩, ?_, h.answered⟩
      · exact forall_mem_append.2 ⟨h.sent, forall_mem_singleton.2 h.validators⟩
      · exact forall_mem_append.2 ⟨h.asking, forall_mem_singleton.2 rfl⟩
  | fetch i resp =>
    obtain ⟨r, hr, he⟩ := map_eq_some_iff.1 he
    cases he
    refine ⟨⟨h.ranges, h.validators, fun r hr => h.sent r (mem_of_mem_eraseIdx hr)⟩,
      fun r hr => h.asking r (mem_of_mem_eraseIdx hr), forall_mem_append.2 ⟨h.answered, ?_⟩⟩
    intro a ha
    obtain ⟨resp, -, rfl⟩ := map_eq_some_iff.1 (mem_toList.1 ha)
    exact h.asking r (mem_of_getElem? hr)
  | install i =>
    obtain ⟨a, ha, he⟩ := map_eq_some_iff.1 he
    cases he
    have herase : Kept { u with answered := u.answered.eraseIdx i } :=
      ⟨⟨h.ranges, h.validators, h.sent⟩, h.asking,
        fun a ha => h.answered a (mem_of_mem_eraseIdx ha)⟩
    exact herase.install (h.answered a (mem_of_getElem? ha)) a.2

/-- **When the list is that of the URL.** -/
theorem faithful_of_settled (sort : SortSlice) {ops : List Op} {u : Updates}
    (hrun : runSteps (fun u op => u.step sort op) new ops = some u)
    (hops : Allowed (fun u op => u.step sort op) Settled new ops) : Faithful u := by
  have hnew : Kept new := ⟨⟨nofun, .inr ⟨rfl, rfl⟩, nofun⟩, nofun, nofun⟩
  exact (invariant_of_allowed Kept.step hnew hops hrun).toFaithful

def listOf (etag : String) : Option BlocklistResponse := some ⟨200, [], [], utf8 etag⟩

/-- Two updates that overlap, the URL is changed after both, and the new one is fetched. -/
def overlapping : List Op :=
  [.SetURL (utf8 "a"), .Update, .Update, .getCacheInfo, .getCacheInfo, .fetch 1 (listOf "2"),
    .fetch 0 (listOf "1"), .install 0, .install 0, .SetURL (utf8 "b"), .Update, .getCacheInfo,
    .fetch 0 (listOf "3"), .install 0]

theorem faithful_of_settled_overlapping : ∃ u : Updates,
    runSteps (fun u op => u.step .insertion op) new overlapping = some u ∧
      u.url = utf8 "b" ∧ u.succeeded = true ∧ Faithful u := by
  have hops : Allowed (fun u op => u.step .insertion op) Settled new overlapping := by
    refine allowed_cons (.inr ⟨rfl, rfl⟩) rfl ?_
    iterate 8 refine allowed_cons trivial rfl ?_
    refine allowed_cons (.inr ⟨rfl, rfl⟩) rfl ?_
    iterate 4 refine allowed_cons trivial rfl ?_
    trivial
  exact ⟨_, rfl, rfl, rfl, faithful_of_settled .insertion rfl hops⟩

def finished (u : Updates) : Bool := u.started = 0 && u.asking = [] && u.answered.isEmpty

/-- The update of the first URL finishes after that of the second. -/
theorem installs_replaced_url : (runSteps (fun u op => u.step .insertion op) new
      [.SetEnabled true, .SetURL (utf8 "a"), .getCacheInfo, .SetURL (utf8 "b"), .getCacheInfo,
        .fetch 1 (listOf "2"), .install 0, .fetch 0 (listOf "1"), .install 0]).map (fun u =>
        (u.finished, u.succeeded, u.rangesFrom, u.getCacheInfo)) =
      some (true, true, some (utf8 "a"), ⟨utf8 "b", [], utf8 "1", some (utf8 "a")⟩) := by
  decide +kernel

end Updates

end GoI2pBt.Rpc.BlocklistManager
