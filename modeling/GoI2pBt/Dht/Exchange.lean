/-
  Transactions under every interleaving: each fires at most once.
-/
import GoI2pBt.Dht.Search

namespace GoI2pBt.Dht

open List Act Krpc Metainfo TransactionManager Message

/-! ## The parts of the server -/

inductive Firing where
  | onResponse (t : Transaction) (raddr : NetAddr) (m : Message)
  | onError (t : Transaction) (raddr : NetAddr) (m : Message)
  | onTimeout (t : Transaction)

def Firing.transaction : Firing → Transaction
  | .onResponse t _ _ => t
  | .onError t _ _ => t
  | .onTimeout t => t

def Firing.Addressed (net : Net) : Firing → Prop
  | .onResponse t raddr m => m.t = t.id ∧ raddr.String net = t.addr.String net
  | .onError t raddr m => m.t = t.id ∧ raddr.String net = t.addr.String net
  | .onTimeout _ => True

namespace Server

variable (p : Platform) (mo : Moment)

def sendQuery (addr : Option NetAddr) (query : Bytes) (arg : QueryArg) (depth : ℤ)
    (visited : List Hash) (callback : Option ℕ) (onResponse : OnResponse) :
    Act Server (Option Transaction) := do
  let s ← get
  if s.isDisabled addr then return none
  else do
    let id := s.transactionManager.GetTransactionID.1
    modify fun s => { s with transactionManager := s.transactionManager.GetTransactionID.2 }
    let err ← send p mo addr (NewQueryMsg id query { arg with id := s.conf.id })
    match addr with
    | none => Act.crash
    | some a =>
      return if err then none else some
        ⟨id, query, { arg with id := s.conf.id }, a, mo.now, depth, visited, callback, onResponse⟩

def register (t : Transaction) (s : Server) : Server :=
  { s with transactionManager := s.transactionManager.AddTransaction p.net t }

def pop (raddr : NetAddr) (tid : Bytes) : Act Server (Option Transaction) := do
  let s ← get
  let popped := s.transactionManager.PopTransaction p.net tid raddr
  modify fun s => { s with transactionManager := popped.2 }
  return popped.1

def receiveMessage (raddr : NetAddr) (m : Message) : Act Server (Option Firing) :=
  if m.IsQuery then do
    handleQueryMessage p mo raddr m
    return none
  else if m.IsResponse then
    if m.r.id.IsZero then return none
    else do
      let r ← addNode p mo raddr m.r.id m.ro
      if r = .nodeExistAndChanged then return none
      else do
        let t ← pop p raddr m.t
        return t.map fun t => .onResponse t raddr m
  else if m.IsError then do
    let t ← pop p raddr m.t
    return t.map fun t => .onError t raddr m
  else return none

def receive (raddr : NetAddr) (data : Bytes) : Act Server (Option Firing) := do
  let s ← get
  if !s.admits p raddr then return none
  else
    match Message.Decode p.env p.net data with
    | .error _ => return none
    | .ok m => if m.t = [] then return none else receiveMessage p mo raddr m

def sweep : Act Server (List Firing) := do
  let s ← get
  let expired := s.transactionManager.cleanupExpiredTransactions mo.now s.conf.respTimeout
  modify fun s => { s with transactionManager := expired.2 }
  return (mo.transOrder.1 expired.1).map .onTimeout

def call : Firing → Act Server Unit
  | .onResponse t raddr m => onResponse p mo t raddr m
  | .onError t _ m => done t (.error m.e.code m.e.reason)
  | .onTimeout t => done t .timeout

variable {p mo} {s s' : Server}

theorem request_eq {addr query arg depth visited cb onResp} :
    (request p mo addr query arg depth visited cb onResp).exec s =
      (sendQuery p mo addr query arg depth visited cb onResp >>= fun t =>
        t.elim (pure true) fun t => modify (register p t) >>= fun _ => pure false).exec s := by
  rw [request, sendQuery, exec_get_bind, bind_assoc, exec_get_bind]
  split_ifs with hd
  · rfl
  · rw [bind_assoc, exec_modify_bind, exec_modify_bind, bind_assoc, exec_bind, exec_bind]
    congr 1
    funext err
    cases addr with
    | none => rfl
    | some a => cases err <;> rfl

theorem withTransaction_eq {raddr tid k} : (withTransaction p raddr tid k).exec s =
      (pop p raddr tid >>= fun t => t.elim (pure ()) k).exec s := by
  rw [withTransaction, pop, exec_get_bind, bind_assoc, exec_get_bind]
  dsimp only
  cases (s.transactionManager.PopTransaction p.net tid raddr).1 <;> rfl

theorem receiveMessage_eq {raddr m} : (handleMessage p mo raddr m).exec s =
      (receiveMessage p mo raddr m >>= fun f => f.elim (pure ()) (call p mo)).exec s := by
  have hpop : ∀ (f : Transaction → Firing) (s : Server),
      ((do let t ← pop p raddr m.t; return t.map f) >>= fun f =>
        f.elim (pure ()) (call p mo)).exec s =
      (withTransaction p raddr m.t fun t => call p mo (f t)).exec s := by
    intro f s
    rw [withTransaction_eq, bind_assoc, exec_bind, exec_bind]
    congr 1
    funext t
    cases t <;> rfl
  unfold handleMessage receiveMessage
  by_cases hq : m.IsQuery = true
  · rw [if_pos hq, if_pos hq, bind_assoc]
    change _ = (handleQueryMessage p mo raddr m >>= fun _ => pure ()).exec s
    rw [bind_pure_unit]
  · rw [if_neg hq, if_neg hq]
    by_cases hr : m.IsResponse = true
    · rw [if_pos hr, if_pos hr, handleResponseMessage, when]
      by_cases hid : m.r.id.IsZero = true
      · rw [if_pos hid, if_neg (by rw [hid]; exact Bool.false_ne_true)]
        rfl
      · rw [if_neg hid, if_pos (by rw [eq_false_of_ne_true hid]; rfl), bind_assoc, exec_bind,
          exec_bind]
        congr 1
        funext r
        by_cases hchanged : r = .nodeExistAndChanged
        · rw [if_pos hchanged, when, if_neg (not_not.mpr hchanged)]
          rfl
        · rw [if_neg hchanged, when, if_pos hchanged]
          exact (hpop (fun t => .onResponse t raddr m) _).symm
    · rw [if_neg hr, if_neg hr]
      by_cases he : m.IsError = true
      · rw [if_pos he, if_pos he]
        exact (hpop (fun t => .onError t raddr m) s).symm
      · rw [if_neg he, if_neg he]
        rfl

theorem handlePacket_eq {raddr data} : (handlePacket p mo raddr data).exec s =
      (receive p mo raddr data >>= fun f => f.elim (pure ()) (call p mo)).exec s := by
  rw [handlePacket, receive, exec_get_bind, bind_assoc, exec_get_bind]
  split_ifs with ha
  · rfl
  · cases Decode p.env p.net data with
    | error err => rfl
    | ok m =>
      dsimp only
      rw [when]
      by_cases ht : m.t = []
      · rw [if_pos ht, if_neg (not_not.mpr ht)]
        rfl
      · rw [if_neg ht, if_pos ht]
        exact receiveMessage_eq

theorem each_map {α β σ : Type} (g : α → β) (f : β → Act σ Unit) (l : List α) :
    each f (l.map g) = each (fun a => f (g a)) l := by
  induction l with
  | nil => rfl
  | cons a l ih => rw [map_cons, each, each, ih]

theorem cleanupExpiredTransactions_eq : (cleanupExpiredTransactions mo).exec s =
    (sweep mo >>= each (call p mo)).exec s := by
  change _ = (each (call p mo) ((mo.transOrder.1 _).map Firing.onTimeout)).exec _
  rw [each_map]
  rfl

/-! ## What leaves the transactions alone -/

def Quiet (s s' : Server) : Prop := s'.transactionManager = s.transactionManager

theorem transactionManager_of_quiet {α : Type} {x : Act Server α} {r : Option α}
    (h : Does Quiet x s) (hrun : x.exec s = (r, s')) :
    s'.transactionManager = s.transactionManager := by
  have hkeeps := h.keeps (I := fun s' => s'.transactionManager = s.transactionManager)
    (fun {s1 s2} (h : s2.transactionManager = s1.transactionManager) hs => h.trans hs) rfl
  rw [hrun] at hkeeps
  exact hkeeps

theorem admits_quiet : Admits p mo (fun _ => True) Quiet where
  table4 _ _ := rfl
  table6 _ _ _ := rfl
  blacklist _ _ := rfl
  emit _ := rfl

theorem quiet_addNode (a : NetAddr) (id : Hash) (ro : Bool) :
    Does Quiet (addNode p mo a id ro) s := does_addNode admits_quiet ro trivial

/-! ## What the parts do to the transactions -/

theorem sendQuery_spec {addr : Option NetAddr} {query : Bytes} {arg : QueryArg} {depth : ℤ}
    {visited : List Hash} {cb : Option ℕ} {onResp : OnResponse} {t : Option Transaction}
    (hd : s.isDisabled addr = false)
    (h : (sendQuery p mo addr query arg depth visited cb onResp).exec s = (some t, s')) :
    s'.transactionManager = s.transactionManager.GetTransactionID.2 ∧
      ∀ t' ∈ t, t'.id = s.transactionManager.GetTransactionID.1 := by
  rw [sendQuery, exec_get_bind, if_neg (ne_true_of_eq_false hd), exec_modify_bind] at h
  obtain ⟨err, s1, hsend, h⟩ := exec_bind_eq_some h
  have hquiet := transactionManager_of_quiet (does_send admits_quiet (.inl rfl)) hsend
  cases addr with
  | none => cases h
  | some a =>
    cases h
    refine ⟨hquiet, ?_⟩
    cases err with
    | true => exact fun t' ht' => absurd ht' (Option.not_mem_none t')
    | false =>
      rintro t' ⟨⟩
      rfl

theorem sweep_spec (mo : Moment) (s : Server) : ∃ l : List Transaction,
    l.Perm (s.transactionManager.trans.filter fun t => mo.now - t.time > s.conf.respTimeout) ∧
    (sweep mo).exec s = (some (l.map .onTimeout), { s with transactionManager :=
      { s.transactionManager with trans := s.transactionManager.trans.filter fun t =>
        mo.now - t.time ≤ s.conf.respTimeout } }) :=
  ⟨_, mo.transOrder.2 _, rfl⟩

theorem pop_spec (raddr : NetAddr) (tid : Bytes) (s : Server) : (pop p raddr tid).exec s =
      (some (s.transactionManager.trans.find? (hasKey p.net tid raddr)),
        { s with transactionManager := { s.transactionManager with
          trans := s.transactionManager.trans.filter fun t => !hasKey p.net tid raddr t } }) := rfl

inductive Received (p : Platform) (s s' : Server) : Option Firing → Prop where
  | quiet : Quiet s s' → Received p s s' none
  | fires {f : Firing} {raddr : NetAddr} {tid : Bytes} : f.Addressed p.net →
    s.transactionManager.trans.find? (hasKey p.net tid raddr) = some f.transaction →
    s'.transactionManager = { s.transactionManager with
      trans := s.transactionManager.trans.filter fun t =>
        !hasKey p.net tid raddr t } → Received p s s' (some f)

theorem hasKey_iff {net tid addr t} : hasKey net tid addr t = true ↔
      t.id = tid ∧ t.addr.String net = addr.String net := decide_eq_true_iff

theorem received_pop {s1 : Server} (hs : Quiet s s1) {raddr : NetAddr} {m : Message}
    (fires : Transaction → Firing) (htrans : ∀ t, (fires t).transaction = t)
    (haddr : ∀ t, m.t = t.id ∧ raddr.String p.net = t.addr.String p.net →
      (fires t).Addressed p.net) {f : Option Firing}
    (h : (do let t ← pop p raddr m.t; return t.map fires : Act Server _).exec s1 = (some f, s')) :
    Received p s s' f := by
  rw [exec_bind_some (pop_spec raddr m.t s1), hs] at h
  cases hfind : s.transactionManager.trans.find? (hasKey p.net m.t raddr) with
  | none =>
    rw [hfind] at h
    cases h
    refine .quiet ?_
    have hall : s.transactionManager.trans.filter
        (fun t => !hasKey p.net m.t raddr t) = s.transactionManager.trans := by
      refine filter_eq_self.mpr fun t ht => ?_
      rw [eq_false_of_ne_true (find?_eq_none.mp hfind t ht)]
      rfl
    rw [Quiet, hall]
  | some t =>
    rw [hfind] at h
    cases h
    obtain ⟨hid, htext⟩ := hasKey_iff.mp (find?_some hfind)
    exact .fires (haddr t ⟨hid.symm, htext.symm⟩) (by rw [hfind, htrans]) rfl

theorem received_of_exec {raddr : NetAddr} {data : Bytes} {f : Option Firing}
    (h : (receive p mo raddr data).exec s = (some f, s')) : Received p s s' f := by
  rw [receive, exec_get_bind] at h
  split_ifs at h with ha
  · cases h
    exact .quiet rfl
  · cases hm : Decode p.env p.net data with
    | error err =>
      rw [hm] at h
      cases h
      exact .quiet rfl
    | ok m =>
      rw [hm] at h
      dsimp only at h
      split_ifs at h with ht
      · cases h
        exact .quiet rfl
      · unfold receiveMessage at h
        split_ifs at h with hq hr hid he
        · obtain ⟨_, s1, hrun, h⟩ := exec_bind_eq_some h
          cases h
          have hquiet : Does Quiet (handleQueryMessage p mo raddr m) s :=
            does_handleQueryMessage admits_quiet (fun _ _ => rfl) (fun _ _ => rfl) trivial
          exact .quiet (transactionManager_of_quiet hquiet hrun)
        · cases h
          exact .quiet rfl
        · obtain ⟨r, s1, hrun, h⟩ := exec_bind_eq_some h
          have hquiet : Quiet s s1 := transactionManager_of_quiet (quiet_addNode _ _ _) hrun
          split_ifs at h
          · cases h
            exact .quiet hquiet
          · exact received_pop hquiet (.onResponse · raddr m) (fun _ => rfl) (fun _ h => h) h
        · exact received_pop rfl (.onError · raddr m) (fun _ => rfl) (fun _ h => h) h
        · cases h
          exact .quiet rfl

end Server

/-! ## Interleavings -/

structure Exchange where
  server : Server
  pending : List Transaction := []
  registered : List Transaction := []
  fired : List Firing := []
  created : ℕ := 0

namespace Exchange

def table (x : Exchange) : List Transaction := x.server.transactionManager.trans

inductive Step (p : Platform) : Exchange → Exchange → Prop where
  | send {x : Exchange} {mo : Moment} {addr : Option NetAddr} {query : Bytes} {arg : QueryArg}
      {depth : ℤ} {visited : List Hash} {cb : Option ℕ} {onResp : OnResponse}
      {t : Option Transaction} {s' : Server} (hd : x.server.isDisabled addr = false)
      (h : (Server.sendQuery p mo addr query arg depth visited cb onResp).exec x.server =
        (some t, s')) :
      Step p x { x with
        server := s', pending := x.pending ++ t.toList, created := x.created + 1 }
  | register {x : Exchange} {t : Transaction} (h : t ∈ x.pending) : Step p x { x with
        server := x.server.register p t
        pending := x.pending.erase t
        registered := x.registered ++ [t] }
  | receive {x : Exchange} {mo : Moment} {raddr : NetAddr} {data : Bytes} {f : Option Firing}
      {s' : Server} (h : (Server.receive p mo raddr data).exec x.server = (some f, s')) :
      Step p x { x with server := s', fired := x.fired ++ f.toList }
  | sweep {x : Exchange} {mo : Moment} {l : List Firing} {s' : Server}
      (h : (Server.sweep mo).exec x.server = (some l, s')) :
      Step p x { x with server := s', fired := x.fired ++ l }
  | other {x : Exchange} {s' : Server} (h : x.server.Quiet s') : Step p x { x with server := s' }

inductive Reachable (p : Platform) : Exchange → Prop where
  | new {conf : Config} {stored4 stored6 : List RoutingTableNode} {token : Bytes} {now : ℤ}
      {s : Server} (h : NewServer p.net conf stored4 stored6 token now = some s) :
      Reachable p { server := s }
  | step {x x' : Exchange} (hx : Reachable p x) (h : Step p x x') : Reachable p x'

/-! ## Transaction IDs -/

def idText (tid : UInt32) : Bytes :=
  if tid = 0 then utf8 "0" else formatBase36 tid.toNat

def digitOf (b : UInt8) : ℕ := if b.toNat < 58 then b.toNat - 48 else b.toNat - 87

theorem map_digitOf_formatBase36 (n : ℕ) :
    (formatBase36 n).reverse.map digitOf = Nat.digits 36 n := by
  rw [formatBase36, ← map_reverse, reverse_reverse, map_map]
  refine (map_congr_left fun d hd => ?_).trans (map_id _)
  have hlt : d < 36 := Nat.digits_lt_base (by decide) hd
  have hchars : ∀ d < 36, digitOf
      (if d < 10 then UInt8.ofNat (48 + d) else UInt8.ofNat (87 + d)) = d := by decide
  exact hchars d hlt

theorem digits_idText (tid : UInt32) :
    Nat.ofDigits 36 ((idText tid).reverse.map digitOf) = tid.toNat := by
  rw [idText]
  split_ifs with h
  · rw [h]
    rfl
  · rw [map_digitOf_formatBase36, Nat.ofDigits_digits]

theorem idText_injective : Function.Injective idText := by
  intro a b h
  have hnat := congrArg (fun l => Nat.ofDigits 36 (map digitOf (reverse l))) h
  rw [digits_idText, digits_idText] at hnat
  exact UInt32.toNat_inj.mp hnat

theorem getTransactionID_eq (tm : TransactionManager) :
    tm.GetTransactionID = (idText (tm.tid + 1), { tm with tid := tm.tid + 1 }) := rfl

/-! ## The invariant -/

def all (x : Exchange) : List Transaction := x.pending ++ x.table ++ x.fired.map Firing.transaction

structure Distinct (x : Exchange) : Prop where
  tid : x.server.transactionManager.tid = UInt32.ofNat x.created
  nodup : (x.all.map Transaction.id).Nodup
  issued : ∀ t ∈ x.all, ∃ n, n ≤ x.created ∧ t.id = idText (.ofNat n)
  table_registered : ∀ t ∈ x.table, t ∈ x.registered
  registered : ∀ t ∈ x.registered, t ∈ x.table ∨ t ∈ x.fired.map Firing.transaction

variable {p : Platform} {x x' : Exchange}

theorem Distinct.eq_of_id (h : x.Distinct) {t t'} (ht : t ∈ x.all) (ht' : t' ∈ x.all)
    (hid : t.id = t'.id) : t = t' := inj_on_of_nodup_map h.nodup ht ht' hid

theorem mem_all {t} :
    t ∈ x.all ↔ t ∈ x.pending ∨ t ∈ x.table ∨ t ∈ x.fired.map Firing.transaction := by
  rw [all, mem_append, mem_append, or_assoc]

theorem Distinct.move (h : x.Distinct) (hall : x'.all.Perm x.all)
    (hcreated : x'.created = x.created)
    (htid : x'.server.transactionManager.tid = x.server.transactionManager.tid)
    (htable : ∀ t ∈ x'.table, t ∈ x'.registered)
    (hreg : ∀ t ∈ x'.registered, t ∈ x'.table ∨ t ∈ x'.fired.map Firing.transaction) :
    x'.Distinct where
  tid := by rw [htid, h.tid, hcreated]
  nodup := (hall.map Transaction.id).nodup_iff.mpr h.nodup
  issued := by
    intro t ht
    rw [hcreated]
    exact h.issued t (hall.mem_iff.mp ht)
  table_registered := htable
  registered := hreg

theorem ofNat_ne {n m : ℕ} (hn : n ≤ m) (hm : m + 1 < 2 ^ 32) :
    UInt32.ofNat n ≠ UInt32.ofNat (m + 1) := by
  intro h
  have hnat := congrArg UInt32.toNat h
  have hn' : n < 2 ^ 32 := by omega
  rw [UInt32.toNat_ofNat_of_lt' hn', UInt32.toNat_ofNat_of_lt' hm] at hnat
  omega

theorem distinct_send {s' : Server} {t : Option Transaction} (h : x.Distinct)
    (htm : s'.transactionManager = x.server.transactionManager.GetTransactionID.2)
    (ht : ∀ t' ∈ t, t'.id = x.server.transactionManager.GetTransactionID.1)
    (hlt : x.created + 1 < 2 ^ 32) :
    Distinct { x with
      server := s', pending := x.pending ++ t.toList, created := x.created + 1 } := by
  have htable : table { x with
      server := s', pending := x.pending ++ t.toList, created := x.created + 1 } = x.table := by
    rw [table, htm]
    rfl
  have hid : ∀ t' ∈ t, t'.id = idText (.ofNat (x.created + 1)) := by
    intro t' ht'
    rw [ht t' ht', getTransactionID_eq, h.tid, UInt32.ofNat_add]
    rfl
  have hperm : (all { x with
      server := s', pending := x.pending ++ t.toList, created := x.created + 1 }).Perm
      (t.toList ++ x.all) := by
    rw [all, htable, all, append_assoc, append_assoc, append_assoc]
    exact perm_append_comm_assoc ..
  constructor
  case tid =>
    rw [htm, getTransactionID_eq, h.tid, UInt32.ofNat_add]
    rfl
  case nodup =>
    refine (hperm.map Transaction.id).nodup_iff.mpr ?_
    cases t with
    | none => exact h.nodup
    | some t =>
      refine nodup_cons.mpr ⟨fun hmem => ?_, h.nodup⟩
      -- the new ID is not among those given out before
      obtain ⟨t', ht', heq⟩ := mem_map.mp hmem
      obtain ⟨n, hn, hidn⟩ := h.issued t' ht'
      rw [hid t rfl, hidn] at heq
      exact ofNat_ne hn hlt (idText_injective heq)
  case issued =>
    intro t' ht'
    rcases mem_append.mp (hperm.mem_iff.mp ht') with hnew | hold
    · exact ⟨_, le_refl _, hid t' (Option.mem_toList.mp hnew)⟩
    · obtain ⟨n, hn, hidn⟩ := h.issued t' hold
      exact ⟨n, Nat.le_succ_of_le hn, hidn⟩
  case table_registered =>
    rw [htable]
    exact h.table_registered
  case registered =>
    rw [htable]
    exact h.registered

theorem distinct_register {t} (h : x.Distinct) (ht : t ∈ x.pending) : Distinct { x with
      server := x.server.register p t
      pending := x.pending.erase t
      registered := x.registered ++ [t] } := by
  have htable : table { x with
      server := x.server.register p t
      pending := x.pending.erase t
      registered := x.registered ++ [t] } = x.table ++ [t] := by
    change x.table.filter _ ++ [t] = _
    congr 1
    refine filter_eq_self.mpr fun t' ht' => ?_
    rw [Bool.not_eq_true', Bool.eq_false_iff]
    intro hkey
    -- it would be at two places
    have heq : t' = t := h.eq_of_id (mem_all.mpr (.inr (.inl ht'))) (mem_all.mpr (.inl ht))
      (Server.hasKey_iff.mp hkey).1
    have hnodup := h.nodup
    rw [all, append_assoc, map_append, nodup_append] at hnodup
    refine hnodup.2.2 _ (mem_map_of_mem ht) _ (mem_map_of_mem ?_) rfl
    exact mem_append_left _ (heq ▸ ht')
  refine h.move ?_ rfl rfl ?_ ?_
  · rw [all, htable, all]
    refine .append_right _ ?_
    calc x.pending.erase t ++ (x.table ++ [t])
        |>.Perm (x.pending.erase t ++ t :: x.table) := .append_left _ perm_append_comm
      _ |>.Perm (t :: x.pending.erase t ++ x.table) := perm_middle
      _ |>.Perm (x.pending ++ x.table) := .append_right _ (perm_cons_erase ht).symm
  · rw [htable]
    intro t' ht'
    rcases mem_append.mp ht' with hold | hnew
    · exact mem_append_left _ (h.table_registered t' hold)
    · exact mem_append_right _ hnew
  · rw [htable]
    intro t' ht'
    rcases mem_append.mp ht' with hold | hnew
    · exact (h.registered t' hold).imp (mem_append_left _) id
    · exact .inl (mem_append_right _ hnew)

theorem distinct_fire {s' l} (h : x.Distinct)
    (hperm : (s'.transactionManager.trans ++ l.map Firing.transaction).Perm x.table)
    (htid : s'.transactionManager.tid = x.server.transactionManager.tid) :
    Distinct { x with server := s', fired := x.fired ++ l } := by
  refine h.move ?_ rfl htid ?_ ?_
  · rw [all, all, append_assoc, append_assoc]
    refine .append_left _ ?_
    rw [map_append]
    calc s'.transactionManager.trans ++ (x.fired.map Firing.transaction ++ l.map Firing.transaction)
        |>.Perm (s'.transactionManager.trans ++
          (l.map Firing.transaction ++ x.fired.map Firing.transaction)) :=
        .append_left _ perm_append_comm
      _ = _ := (append_assoc ..).symm
      _ |>.Perm (x.table ++ x.fired.map Firing.transaction) := .append_right _ hperm
  · intro t ht
    exact h.table_registered t (hperm.mem_iff.mp (mem_append_left _ ht))
  · intro t ht
    rw [map_append]
    rcases h.registered t ht with htable | hfired
    · rcases mem_append.mp (hperm.mem_iff.mpr htable) with hkept | hnew
      · exact .inl hkept
      · exact .inr (mem_append_right _ hnew)
    · exact .inr (mem_append_left _ hfired)

theorem perm_pop {net tid raddr t}
    (h : x.Distinct) (hfind : x.table.find? (hasKey net tid raddr) = some t) :
    (x.table.filter (fun t' => !hasKey net tid raddr t') ++ [t]).Perm
      x.table := by
  have hkeyed : x.table.filter (hasKey net tid raddr) = [t] := by
    have hmem := mem_of_find?_eq_some hfind
    have hkey := find?_some hfind
    have hnodup : x.table.Nodup := by
      have hnodup := h.nodup
      rw [all, append_assoc, map_append, map_append] at hnodup
      exact (hnodup.of_append_right.of_append_left).of_map _
    refine (perm_singleton.mp ?_)
    refine (perm_ext_iff_of_nodup (hnodup.filter _) (nodup_singleton t)).mpr fun t' => ?_
    rw [mem_filter, mem_singleton]
    constructor
    · rintro ⟨hmem', hkey'⟩
      refine h.eq_of_id (mem_all.mpr (.inr (.inl hmem'))) (mem_all.mpr (.inr (.inl hmem))) ?_
      rw [(Server.hasKey_iff.mp hkey').1, (Server.hasKey_iff.mp hkey).1]
    · rintro rfl
      exact ⟨hmem, hkey⟩
  have hsplit := filter_append_perm (hasKey net tid raddr) x.table
  rw [hkeyed] at hsplit
  exact perm_append_comm.trans hsplit

theorem distinct_step (h : x.Distinct) (hstep : Step p x x') (hlt : x'.created < 2 ^ 32) :
    x'.Distinct := by
  cases hstep with
  | send hd hrun =>
    obtain ⟨htm, hid⟩ := Server.sendQuery_spec hd hrun
    exact distinct_send h htm hid hlt
  | register ht => exact distinct_register h ht
  | receive hrun =>
    cases Server.received_of_exec hrun with
    | quiet hquiet =>
      refine distinct_fire h ?_ (congrArg _ hquiet)
      rw [hquiet]
      exact .of_eq (append_nil _)
    | fires _ hfind htm =>
      refine distinct_fire h ?_ (by rw [htm])
      rw [htm]
      exact perm_pop h hfind
  | @sweep mo l s' hrun =>
    obtain ⟨l', hl', hsweep⟩ := Server.sweep_spec mo x.server
    rw [hsweep] at hrun
    cases hrun
    refine distinct_fire h ?_ rfl
    have hmap : (l'.map Firing.onTimeout).map Firing.transaction = l' := by
      rw [map_map]
      exact map_id _
    rw [hmap]
    have hexpired : (fun t : Transaction => decide (mo.now - t.time > x.server.conf.respTimeout)) =
        fun t => !decide (mo.now - t.time ≤ x.server.conf.respTimeout) := by
      funext t
      rw [← decide_not, decide_eq_decide, not_le, gt_iff_lt]
    rw [hexpired] at hl'
    exact (Perm.append_left _ hl').trans (filter_append_perm _ x.table)
  | other hquiet =>
    refine h.move ?_ rfl (congrArg _ hquiet) ?_ ?_
    · rw [all, all, table, hquiet]
      exact .refl _
    · rw [table, hquiet]
      exact h.table_registered
    · rw [table, hquiet]
      exact h.registered

theorem created_le (hstep : Step p x x') : x.created ≤ x'.created := by
  cases hstep with
  | send => exact Nat.le_succ _
  | register | receive | sweep | other => exact le_refl _

theorem newServer_transactionManager {net conf stored4 stored6 token now s}
    (h : NewServer net conf stored4 stored6 token now = some s) : s.transactionManager = {} := by
  unfold NewServer at h
  obtain ⟨rt4, h4, h⟩ := Option.bind_eq_some_iff.1 h
  obtain ⟨rt6, h6, h⟩ := Option.bind_eq_some_iff.1 h
  cases h
  rfl

theorem Reachable.distinct (hx : Reachable p x) (hlt : x.created < 2 ^ 32) : x.Distinct := by
  induction hx with
  | new h =>
    have htm := newServer_transactionManager h
    constructor
    case tid =>
      rw [htm]
      rfl
    case nodup =>
      rw [all, table, htm]
      exact nodup_nil
    case issued =>
      rw [all, table, htm]
      exact fun t ht => nomatch ht
    case table_registered =>
      rw [table, htm]
      exact fun t ht => nomatch ht
    case registered => exact fun t ht => nomatch ht
  | step _ hstep ih => exact distinct_step (ih (lt_of_le_of_lt (created_le hstep) hlt)) hstep hlt

theorem Reachable.addressed (hx : Reachable p x) : ∀ f ∈ x.fired, f.Addressed p.net := by
  induction hx with
  | new => exact fun f hf => nomatch hf
  | @step x0 x1 _ hstep ih =>
    cases hstep with
    | send | register | other => exact ih
    | receive hrun =>
      intro f hf
      rcases mem_append.mp hf with hf | hf
      · exact ih f hf
      · cases Server.received_of_exec hrun with
        | quiet => cases hf
        | fires haddr =>
          cases mem_singleton.mp hf
          exact haddr
    | @sweep mo l s' hrun =>
      obtain ⟨l', -, hsweep⟩ := Server.sweep_spec mo x0.server
      rw [hsweep] at hrun
      cases hrun
      intro f hf
      rcases mem_append.mp hf with hf | hf
      · exact ih f hf
      · obtain ⟨t, -, rfl⟩ := mem_map.mp hf
        exact trivial

/-! ## Handlers -/

structure Once (net : Net) (x : Exchange) : Prop where
  once : ∀ t ∈ x.registered, (x.fired.filter fun f => f.transaction = t).length ≤ 1
  addressed : ∀ f ∈ x.fired, f.Addressed net

/-- **A transaction fires at most once.** -/
theorem fired_once (hx : Reachable p x) (hlt : x.created < 2 ^ 32) : Once p.net x := by
  refine ⟨fun t _ => ?_, hx.addressed⟩
  have hnodup := (hx.distinct hlt).nodup
  rw [all, map_append] at hnodup
  have hfired : (x.fired.map Firing.transaction).Nodup := hnodup.of_append_right.of_map _
  have hcount := List.nodup_iff_count_le_one.mp hfired t
  rw [List.count, countP_map, countP_eq_length_filter] at hcount
  refine Nat.le_trans (Nat.le_of_eq (congrArg length ?_)) hcount
  refine filter_congr fun f _ => ?_
  exact (beq_eq_decide _ _).symm

/-! ## Responses -/

def Keyed (net : Net) (l : List Transaction) : Prop :=
  l.Pairwise fun t t' => ¬ (t'.id = t.id ∧ t'.addr.String net = t.addr.String net)

theorem Keyed.eq {net l} (h : Keyed net l) {t t'} (ht : t ∈ l) (ht' : t' ∈ l) (hid : t'.id = t.id)
    (haddr : t'.addr.String net = t.addr.String net) : t' = t := by
  have hsymm : Std.Symm fun t t' : Transaction =>
      ¬ (t'.id = t.id ∧ t'.addr.String net = t.addr.String net) :=
    ⟨fun _ _ hnot hkey => hnot ⟨hkey.1.symm, hkey.2.symm⟩⟩
  by_contra hne
  exact h.forall ht ht' (Ne.symm hne) ⟨hid, haddr⟩

theorem Reachable.keyed (hx : Reachable p x) : Keyed p.net x.table := by
  induction hx with
  | new h =>
    rw [table, newServer_transactionManager h]
    exact .nil
  | @step x0 x1 _ hstep ih =>
    cases hstep with
    | send hd hrun =>
      rw [table, (Server.sendQuery_spec hd hrun).1]
      exact ih
    | @register t ht =>
      refine pairwise_append.mpr ⟨ih.filter _, pairwise_singleton _ _, ?_⟩
      intro t1 ht1 t2 ht2 hkey
      cases mem_singleton.mp ht2
      have hfree := (mem_filter.mp ht1).2
      rw [Server.hasKey_iff.mpr ⟨hkey.1.symm, hkey.2.symm⟩] at hfree
      cases hfree
    | receive hrun =>
      rw [table]
      cases Server.received_of_exec hrun with
      | quiet hquiet =>
        rw [hquiet]
        exact ih
      | fires _ _ htm =>
        rw [htm]
        exact ih.filter _
    | @sweep mo l s' hrun =>
      obtain ⟨l', -, hsweep⟩ := Server.sweep_spec mo x0.server
      rw [hsweep] at hrun
      cases hrun
      exact ih.filter _
    | other hquiet =>
      rw [table, hquiet]
      exact ih

end Exchange

namespace Server

variable {p : Platform} {mo : Moment} {s : Server} {raddr : NetAddr} {data : Bytes} {m : Message}
  {t : Transaction}

structure Accepted (p : Platform) (mo : Moment) (s : Server) (raddr : NetAddr) (m : Message) :
    Prop where
  admits : s.admits p raddr = true
  tid : m.t ≠ []
  id : m.r.id.IsZero = false
  added : ∃ r s₀, (addNode p mo raddr m.r.id m.ro).exec s = (some r, s₀) ∧ r ≠ .nodeExistAndChanged

def Triggers (p : Platform) (mo : Moment) (s : Server) (raddr : NetAddr) (data : Bytes)
    (t : Transaction) (m : Message) : Prop :=
  ∃ s', (receive p mo raddr data).exec s = (some (some (.onResponse t raddr m)), s')

theorem not_isQuery_of_isResponse (h : m.IsResponse = true) : m.IsQuery = false := by
  have hy : m.y = utf8 "r" := of_decide_eq_true h
  refine decide_eq_false ?_
  rw [hy]
  decide

theorem exec_receive (hm : Decode p.env p.net data = .ok m) (hr : m.IsResponse = true)
    (ha : Accepted p mo s raddr m) : ∃ s', (receive p mo raddr data).exec s =
      (some ((s.transactionManager.trans.find?
        (hasKey p.net m.t raddr)).map (.onResponse · raddr m)), s') := by
  obtain ⟨r, s0, hrun, hne⟩ := ha.added
  have hquiet := transactionManager_of_quiet (quiet_addNode _ _ _) hrun
  rw [receive, exec_get_bind, if_neg (by rw [ha.admits]; exact Bool.false_ne_true), hm]
  dsimp only
  rw [if_neg ha.tid, receiveMessage, if_neg (ne_true_of_eq_false (not_isQuery_of_isResponse hr)),
    if_pos hr, if_neg (ne_true_of_eq_false ha.id), exec_bind_some hrun, if_neg hne,
    exec_bind_some (pop_spec raddr m.t s0), hquiet]
  exact ⟨_, rfl⟩

theorem accepted_of_receive {raddr' s'}
    (h : (receive p mo raddr data).exec s = (some (some (.onResponse t raddr' m)), s')) :
    raddr' = raddr ∧ Accepted p mo s raddr m ∧ s'.events = s.events := by
  rw [receive, exec_get_bind] at h
  split_ifs at h with ha
  · cases h
  · cases hm : Decode p.env p.net data with
    | error err =>
      rw [hm] at h
      cases h
    | ok m' =>
      rw [hm] at h
      dsimp only at h
      split_ifs at h with ht
      · cases h
      · unfold receiveMessage at h
        split_ifs at h with hq hr hid he
        · obtain ⟨_, s1, -, h⟩ := exec_bind_eq_some h
          cases h
        · cases h
        · obtain ⟨r, s1, hrun, h⟩ := exec_bind_eq_some h
          have hkept : Kept s ((addNode p mo raddr m'.r.id m'.ro).exec s).2 := kept_addNode _ _ _
          rw [hrun] at hkept
          split_ifs at h with hchanged
          · cases h
          · rw [exec_bind_some (pop_spec raddr m'.t s1)] at h
            obtain ⟨hfiring, hs⟩ := Prod.ext_iff.mp h
            obtain ⟨t', -, heq⟩ := Option.map_eq_some_iff.mp (Option.some.inj hfiring)
            cases heq
            have hevents : s'.events = s1.events := (congrArg Server.events hs).symm
            exact ⟨rfl, ⟨by simpa using ha, ht, eq_false_of_ne_true hid, r, s1, hrun, hchanged⟩,
              hevents.trans hkept.events⟩
        · obtain ⟨t', s1, -, h⟩ := exec_bind_eq_some h
          obtain ⟨t'', -, heq⟩ := Option.map_eq_some_iff.mp (Option.some.inj (congrArg Prod.fst h))
          cases heq
        · cases h

end Server

namespace Exchange

variable {p : Platform} {x : Exchange} {raddr : NetAddr} {data : Bytes} {m : Message}
  {t : Transaction}

theorem triggers_iff_mem (hx : Reachable p x) (mo : Moment)
    (hm : Decode p.env p.net data = .ok m) (hr : m.IsResponse = true) (hid : m.t = t.id)
    (haddr : raddr.String p.net = t.addr.String p.net) :
    x.server.Triggers p mo raddr data t m ↔ t ∈ x.table ∧ x.server.Accepted p mo raddr m := by
  have hkey : hasKey p.net m.t raddr t = true := Server.hasKey_iff.mpr ⟨hid.symm, haddr.symm⟩
  constructor
  · rintro ⟨s', h⟩
    have ha := (Server.accepted_of_receive h).2.1
    refine ⟨?_, ha⟩
    obtain ⟨s1, hrun⟩ := Server.exec_receive hm hr ha
    rw [hrun] at h
    have hfound := Option.some.inj (congrArg Prod.fst h)
    obtain ⟨t', hfind, heq⟩ := Option.map_eq_some_iff.mp hfound
    cases heq
    exact mem_of_find?_eq_some hfind
  · rintro ⟨hmem, ha⟩
    obtain ⟨s1, hrun⟩ := Server.exec_receive hm hr ha
    refine ⟨s1, hrun.trans ?_⟩
    obtain ⟨t', hfind⟩ := Option.isSome_iff_exists.mp
      (find?_isSome.mpr ⟨t, hmem, hkey⟩ : (x.table.find? (hasKey p.net m.t raddr)).isSome = true)
    obtain ⟨hid', haddr'⟩ := Server.hasKey_iff.mp (find?_some hfind)
    have heq : t' = t := hx.keyed.eq hmem (mem_of_find?_eq_some hfind)
      (hid'.trans hid) (haddr'.trans haddr)
    rw [heq] at hfind
    rw [table] at hfind
    rw [hfind]
    rfl

theorem mem_table_iff (hx : Reachable p x) (hlt : x.created < 2 ^ 32) :
    t ∈ x.table ↔ t ∈ x.registered ∧ ∀ f ∈ x.fired, f.transaction ≠ t := by
  have hdistinct := hx.distinct hlt
  constructor
  · intro ht
    refine ⟨hdistinct.table_registered t ht, fun f hf heq => ?_⟩
    have hnodup := hdistinct.nodup
    rw [all, append_assoc, map_append, map_append, nodup_append] at hnodup
    have hfired : t ∈ x.fired.map Firing.transaction := heq ▸ mem_map_of_mem hf
    exact (nodup_append.mp hnodup.2.1).2.2 _ (mem_map_of_mem ht) _
      (mem_map_of_mem hfired) rfl
  · rintro ⟨hreg, hnot⟩
    rcases hdistinct.registered t hreg with htable | hfired
    · exact htable
    · obtain ⟨f, hf, heq⟩ := mem_map.mp hfired
      exact absurd heq (hnot f hf)

/-- **A response triggers what is registered by then.** -/
theorem triggers_iff (hx : Reachable p x) (mo : Moment)
    (hm : Message.Decode p.env p.net data = .ok m) (hr : m.IsResponse = true) (hid : m.t = t.id)
    (haddr : raddr.String p.net = t.addr.String p.net) :
    (x.server.Triggers p mo raddr data t m ↔ t ∈ x.table ∧ x.server.Accepted p mo raddr m) ∧
      (x.created < 2 ^ 32 → (t ∈ x.table ↔ t ∈ x.registered ∧ ∀ f ∈ x.fired, f.transaction ≠ t)) :=
  ⟨triggers_iff_mem hx mo hm hr hid haddr, mem_table_iff hx⟩

/-! ## A run -/

section Run

open Server

def sentExchange : Exchange where
  server := ((sendQuery samplePlatform (calm 0) (some tellerAddr) (utf8 "find_node")
    { target := sampleTarget, wants := [WantNodes] } 0 [] none .findNode).exec sampleServer).2
  pending := [bootTransaction]
  created := 1

theorem reachable_sentExchange : Reachable samplePlatform sentExchange := by
  have hrun : (sendQuery samplePlatform (calm 0) (some tellerAddr) (utf8 "find_node")
      { target := sampleTarget, wants := [WantNodes] } 0 [] none .findNode).exec sampleServer =
      (some (some bootTransaction), sentExchange.server) := rfl
  have hstep : Step samplePlatform { server := sampleServer } sentExchange :=
    Step.send (x := { server := sampleServer }) rfl hrun
  exact (Reachable.new new_sampleServer).step hstep

def registeredExchange : Exchange where
  server := sentExchange.server.register samplePlatform bootTransaction
  registered := [bootTransaction]
  created := 1

theorem reachable_registeredExchange : Reachable samplePlatform registeredExchange := by
  have hstep : Step samplePlatform sentExchange registeredExchange :=
    Step.register (x := sentExchange) mem_cons_self
  exact reachable_sentExchange.step hstep

theorem accepted_nodesMsg {s} (ha : s.admits samplePlatform tellerAddr = true)
    (hadd : ((addNode samplePlatform (calm 0) tellerAddr otherId false).exec s).1 =
      some .nodeAdded) : s.Accepted samplePlatform (calm 0) tellerAddr nodesMsg :=
  ⟨ha, cons_ne_nil _ _, rfl, _, _, exec_of_fst hadd, by decide⟩

theorem triggers_registered : Reachable samplePlatform registeredExchange ∧
      registeredExchange.server.Triggers samplePlatform (calm 0) tellerAddr nodesPacket
        bootTransaction nodesMsg := by
  have hr : nodesMsg.IsResponse = true := rfl
  have hid : nodesMsg.t = bootTransaction.id := rfl
  have haddr : tellerAddr.String samplePlatform.net =
    bootTransaction.addr.String samplePlatform.net := rfl
  have hiff := triggers_iff reachable_registeredExchange (calm 0) decode_nodesPacket hr hid haddr
  exact ⟨reachable_registeredExchange, hiff.1.mpr ⟨mem_cons_self, accepted_nodesMsg rfl rfl⟩⟩

theorem response_dropped :
    Reachable samplePlatform sentExchange ∧ bootTransaction ∈ sentExchange.pending ∧
      Message.Decode samplePlatform.env samplePlatform.net nodesPacket = .ok nodesMsg ∧
      nodesMsg.IsResponse = true ∧ nodesMsg.t = bootTransaction.id ∧
      tellerAddr = bootTransaction.addr ∧
      sentExchange.server.Accepted samplePlatform (calm 0) tellerAddr nodesMsg ∧
      ¬ sentExchange.server.Triggers samplePlatform (calm 0) tellerAddr nodesPacket
        bootTransaction nodesMsg := by
  have hr : nodesMsg.IsResponse = true := rfl
  have hid : nodesMsg.t = bootTransaction.id := rfl
  have haddr : tellerAddr = bootTransaction.addr := rfl
  refine ⟨reachable_sentExchange, mem_cons_self, decode_nodesPacket, hr, hid, haddr,
    accepted_nodesMsg rfl rfl, fun h => ?_⟩
  have hiff := triggers_iff_mem reachable_sentExchange (calm 0) decode_nodesPacket hr hid
    (congrArg _ haddr)
  cases (hiff.mp h).1

theorem exists_answered : ∃ s', Reachable samplePlatform
    { registeredExchange with
      server := s', fired := [.onResponse bootTransaction tellerAddr nodesMsg] } := by
  have hr : nodesMsg.IsResponse = true := rfl
  have hid : nodesMsg.t = bootTransaction.id := rfl
  have haddr : tellerAddr = bootTransaction.addr := rfl
  have hiff := triggers_iff_mem reachable_registeredExchange (calm 0) decode_nodesPacket hr hid
    (congrArg _ haddr)
  obtain ⟨s', hrun⟩ := hiff.mpr ⟨mem_cons_self, accepted_nodesMsg rfl rfl⟩
  exact ⟨s', reachable_registeredExchange.step (.receive hrun)⟩

theorem fired_once_answered : ∃ x, Reachable samplePlatform x ∧ x.fired.length = 1 ∧
    Once samplePlatform.net x := by
  obtain ⟨s', hx⟩ := exists_answered
  exact ⟨_, hx, rfl, fired_once hx (Nat.one_lt_two_pow (by decide))⟩

end Run

end Exchange

end GoI2pBt.Dht
