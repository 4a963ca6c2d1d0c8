/-
  `GetPeers`: a feeder, a pool of workers and the caller.

  A worker calls `wg.Done` when its request ends and appends the result after that,
  so the caller may be woken up, and return, in between. A request that panics takes
  the process with it.
-/
import Mathlib
import GoI2pBt.Tracker.UdpClient

namespace GoI2pBt.Tracker.GetPeers

open List Relation Option Metainfo Client

variable {T O : Type}

def calculateWorkerCount (trackerCount : ℕ) : ℕ :=
  if trackerCount > 10 then 10 else trackerCount

/-! ## One request -/

/-- What the requests of a call depend on: the address that is announced (nil unless the
    program sets it), the client and the request URI of a UDP tracker (`none` for another
    tracker), and the entry made of what the UDP client returns. -/
structure Requests (T O : Type) where
  net : Net
  PeerAddress : Option NetAddr
  id : Hash
  infohash : Hash
  udp : T → Option (Client × Bytes)
  result : Except ClientError AnnounceResponse → O

namespace Requests

variable (R : Requests T O)

/-- The request that `getPeers` hands to the UDP client of a tracker. -/
def ToUDPAnnounceRequest (uri : Bytes) : AnnounceRequest where
  infoHash := R.infohash
  peerID := R.id
  downloaded := 0
  left := 0
  uploaded := 0
  event := 0
  ip := R.PeerAddress
  key := 0
  numWant := 0
  port := 0
  exts := clientExts uri

/-- `getPeers` for a UDP tracker; `none` is a panic. -/
def getPeers (utc : Client) (uri : Bytes) (o : Occasion) : Option O :=
  ((announce R.net o (R.ToUDPAnnounceRequest uri)).exec utc).1.map R.result

/-- How a request can end. Of trackers that are asked over HTTP nothing is assumed. -/
inductive Ends (t : T) : Option O → Prop
  | other (h : R.udp t = none) (o : Option O) : Ends t o
  | udp {utc : Client} {uri : Bytes} (h : R.udp t = some (utc, uri)) (o : Occasion) :
    Ends t (R.getPeers utc uri o)

/-- A UDP tracker that lets the client connect makes it panic if there is no address to
    announce, or if its response is cut short. -/
def MayPanic (t : T) : Prop := R.udp t = none ∨ ∃ utc uri o, R.udp t = some (utc, uri) ∧
  Ready o utc ∧ (R.PeerAddress = none ∨ CutShort o utc)

variable {R} {t : T}

theorem encodable_iff (uri : Bytes) :
    (R.ToUDPAnnounceRequest uri).Encodable ↔ R.PeerAddress ≠ none := by
  refine and_iff_left fun e he => ?_
  simp only [ToUDPAnnounceRequest, clientExts] at he
  split_ifs at he
  · exact .inr (mem_singleton.1 he ▸ rfl)
  · cases he

theorem Ends.mayPanic (h : R.Ends t none) : R.MayPanic t := by
  generalize ho : (none : Option O) = o at h
  cases h with
  | other h _ => exact .inl h
  | @udp utc uri h o =>
    refine .inr ⟨utc, uri, o, h, ?_⟩
    have hpanic : ((announce R.net o (R.ToUDPAnnounceRequest uri)).exec utc).1 = none :=
      map_eq_none_iff.1 ho.symm
    -- the client is not safe, so it got to its own request
    have hunsafe := mt Act.Runs.not_none (not_not.2 hpanic) ∘ (safe_announce_iff R.net o _ utc).mpr
    rw [encodable_iff] at hunsafe
    by_contra hno
    refine hunsafe fun hready => ⟨fun hip => hno ⟨hready, .inl hip⟩, fun hcut => ?_⟩
    exact hno ⟨hready, .inr hcut⟩

theorem exists_ends (t : T) : ∃ o, R.Ends t (some o) := by
  cases h : R.udp t with
  | none => exact ⟨R.result (.error .shortBuffer), .other h _⟩
  | some c =>
    -- a tracker that does not answer the connect request
    let silent : Exchange := ⟨.short, .error []⟩
    let o : Occasion := ⟨c.1.last + minute + 1, 0, silent, silent⟩
    have hnot : ¬ Ready o c.1 := fun hready => by
      obtain ⟨data, hgives, -⟩ := hready (by simp only [o]; omega)
      cases hgives.1
    obtain ⟨r, utc', hrun, -⟩ :=
      (safe_announce_iff R.net o (R.ToUDPAnnounceRequest c.2) c.1).mpr fun hr => absurd hr hnot
    have hends := Ends.udp (R := R) (t := t) h o
    rw [getPeers, hrun] at hends
    exact ⟨_, hends⟩

end Requests

/-! ## A call -/

/-- A call: what the feeder has not sent, the channel, the workers (waiting for a
    tracker, inside `getPeers`, between `wg.Done` and the append), the results, the
    counter, and what the caller has returned. -/
structure Call (T O : Type) where
  feed : List T
  reqs : List T
  idle : ℕ
  asking : List T
  answered : List (T × O)
  results : List (T × O)
  wg : ℕ
  returned : Option (List (T × O))

def start (O : Type) (normalize : T → T) (trackers : List T) : Call T O :=
  ⟨trackers.map normalize, [], calculateWorkerCount trackers.length, [], [], [],
    trackers.length, none⟩

/-- One step of the feeder, of a worker or of the caller. A panic in a worker ends the
    process (`none`), from which there is no step. -/
inductive Step (R : Requests T O) (workerCount : ℕ) (s : Call T O) : Option (Call T O) → Prop
  | send {t : T} {ts : List T} (h : s.feed = t :: ts) (hroom : s.reqs.length < workerCount) :
    Step R workerCount s (some { s with feed := ts, reqs := s.reqs ++ [t] })
  | receive {t : T} {ts : List T} {n : ℕ} (h : s.reqs = t :: ts) (hidle : s.idle = n + 1) :
    Step R workerCount s (some { s with reqs := ts, idle := n, asking := t :: s.asking })
  | done {a b : List T} {t : T} {o : O} (h : s.asking = a ++ t :: b) (ho : R.Ends t (some o)) :
    Step R workerCount s (some { s with
      asking := a ++ b, answered := (t, o) :: s.answered, wg := s.wg - 1 })
  | crash {t : T} (h : t ∈ s.asking) (ho : R.Ends t none) : Step R workerCount s none
  | append {a b : List (T × O)} {r : T × O} (h : s.answered = a ++ r :: b) :
    Step R workerCount s (some { s with
      answered := a ++ b, results := s.results ++ [r], idle := s.idle + 1 })
  | wait (h : s.returned = none) (hwg : s.wg = 0) :
    Step R workerCount s (some { s with returned := some s.results })

/-- The caller is woken up only while no worker is about to append. -/
def Late (s s' : Call T O) : Prop := s.returned = none → s'.returned ≠ none → s.answered = []

variable {R : Requests T O} {trackers : List T} {s s' : Call T O} {workerCount : ℕ}

def size (s : Call T O) : ℕ :=
  4 * s.feed.length + 3 * s.reqs.length + 2 * s.asking.length + s.answered.length +
    if s.returned = none then 1 else 0

theorem size_step (hs : Step R workerCount s (some s')) : size s' < size s := by
  cases hs with
  | send h _ | receive h _ | done h _ =>
    simp [size, h]
    omega
  | append h | wait h _ => simp [size, h]

variable [DecidableEq T]

structure Sound (trackers : List T) (s : Call T O) : Prop where
  once (t : T) : s.feed.count t + s.reqs.count t + s.asking.count t +
    (s.answered.map Prod.fst).count t + (s.results.map Prod.fst).count t = trackers.count t
  wg : s.wg = s.feed.length + s.reqs.length + s.asking.length
  workers : s.idle + s.asking.length + s.answered.length = calculateWorkerCount trackers.length
  returned {rs : List (T × O)} (h : s.returned = some rs) :
    s.wg = 0 ∧ s.answered = [] ∧ s.results = rs

theorem sound_start (normalize : T → T) (trackers : List T) :
    Sound (trackers.map normalize) (start O normalize trackers) where
  once t := by simp [start]
  wg := by simp [start]
  workers := by simp [start]
  returned h := by cases h

theorem Sound.step (h : Sound trackers s) (hs : Step R workerCount s (some s')) (hl : Late s s') :
    Sound trackers s' := by
  have hwg := h.wg
  have hworkers := h.workers
  cases hs with
  | send hf _ =>
    rw [hf] at hwg
    refine ⟨fun t => ?_, by simp at hwg ⊢; omega, hworkers, fun hr => ?_⟩
    · have := h.once t
      simp [hf, count_cons, count_append] at this ⊢
      omega
    · simp only [(h.returned hr).1, length_cons] at hwg
      omega
  | receive hq hidle =>
    rw [hq] at hwg
    refine ⟨fun t => ?_, by simp at hwg ⊢; omega, by simp; omega, fun hr => ?_⟩
    · have := h.once t
      simp [hq, count_cons] at this ⊢
      omega
    · simp only [(h.returned hr).1, length_cons] at hwg
      omega
  | done ha _ =>
    rw [ha] at hwg hworkers
    simp at hwg hworkers
    refine ⟨fun t => ?_, by simp; omega, by simp; omega, fun hr => ?_⟩
    · have := h.once t
      simp [ha, count_cons, count_append] at this ⊢
      omega
    · have := (h.returned hr).1
      omega
  | append ha =>
    rw [ha] at hworkers
    simp at hworkers
    refine ⟨fun t => ?_, hwg, by simp; omega, fun hr => ?_⟩
    · have := h.once t
      simp [ha, count_cons, count_append] at this ⊢
      omega
    · simpa [ha] using (h.returned hr).2.1
  | wait hr hzero =>
    refine ⟨h.once, hwg, hworkers, fun hrs => ?_⟩
    exact ⟨hzero, hl hr (some_ne_none _), some.inj hrs⟩

theorem Sound.pool_pos (h : Sound trackers s) {t} (ht : t ∈ s.feed ∨ t ∈ s.reqs) :
    0 < calculateWorkerCount trackers.length := by
  have hmem : t ∈ trackers := by
    rw [← count_pos_iff, ← h.once t]
    rcases ht with ht | ht <;> have := count_pos_iff.2 ht <;> omega
  have := length_pos_of_mem hmem
  unfold calculateWorkerCount
  split <;> omega

theorem Sound.exists_step (h : Sound trackers s) (hr : s.returned = none) :
    ∃ s', Step R (calculateWorkerCount trackers.length) s (some s') ∧ Late s s' := by
  rcases hn : s.answered with _ | ⟨r, rs⟩
  · rcases ha : s.asking with _ | ⟨t, ts⟩
    · have hworkers := h.workers
      simp only [ha, hn, length_nil] at hworkers
      rcases hq : s.reqs with _ | ⟨t, ts⟩
      · rcases hf : s.feed with _ | ⟨t, ts⟩
        · exact ⟨_, .wait hr (by simp [h.wg, hf, hq, ha]), fun _ _ => hn⟩
        · refine ⟨_, .send hf ?_, fun _ hs => absurd hr hs⟩
          exact hq ▸ h.pool_pos (.inl (hf ▸ mem_cons_self))
      · have hpos := h.pool_pos (.inr (hq ▸ mem_cons_self))
        obtain ⟨n, hidle⟩ := Nat.exists_eq_add_one.2 (by omega : 0 < s.idle)
        exact ⟨_, .receive hq hidle, fun _ hs => absurd hr hs⟩
    · obtain ⟨o, ho⟩ := R.exists_ends t
      exact ⟨_, .done (a := []) ha ho, fun _ hs => absurd hr hs⟩
  · exact ⟨_, .append (a := []) hn, fun _ hs => absurd hr hs⟩

/-- A UDP tracker and one that is asked over HTTP. -/
inductive Listed
  | udp
  | http
deriving DecidableEq

def sampleRequests (PeerAddress : Option NetAddr) : Requests Listed Bool where
  net := Address.sampleNet
  PeerAddress := PeerAddress
  id := .zero
  infohash := .zero
  udp
    | .udp => some (sampleClient, [47, 97])
    | .http => none
  result r := r.isOk

def fullReply : Occasion := { shortReply with
  own := ⟨.whole, .ok [0, 0, 0, 1, 0, 0, 0, 1, 0, 0, 7, 8, 0, 0, 0, 1, 0, 0, 0, 2]⟩ }

def addressed : Requests Listed Bool := sampleRequests (some (.ipAddr [10, 0, 0, 1] []))

theorem addressed_ends_udp : addressed.Ends .udp (some true) := by
  have hends := Requests.Ends.udp (R := addressed) (t := .udp) rfl fullReply
  rwa [show addressed.getPeers sampleClient [47, 97] fullReply = some true by decide +kernel]
    at hends

-- without an address to announce the same tracker ends the process
example : (sampleRequests none).getPeers sampleClient [47, 97] fullReply = none := by
  decide +kernel

end GoI2pBt.Tracker.GetPeers
