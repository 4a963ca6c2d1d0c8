/-
  The blacklist with a bound and its abstract set of entries.
-/
import GoI2pBt.Dht.Managers

namespace GoI2pBt.Dht

open List Blacklist Option Int

/-! ## Operations -/

inductive BlockOp where
  | add (ip : Bytes) (port now : ℤ)
  | del (ip : Bytes) (port now : ℤ)

def BlockOp.ip : BlockOp → Bytes
  | .add ip _ _ => ip
  | .del ip _ _ => ip

def Blacklist.step (bl : Blacklist) : BlockOp → Blacklist
  | .add ip port now => bl.Add ip port now
  | .del ip port now => bl.Del ip port now

def Blacklist.run (bl : Blacklist) (ops : List BlockOp) : Blacklist := ops.foldl step bl

structure Blocks where
  whole : Set Bytes
  ports : Set (Bytes × ℤ)

namespace Blocks

def empty : Blocks := ⟨∅, ∅⟩

def Blocked (b : Blocks) (ip : Bytes) (port : ℤ) : Prop := ip ∈ b.whole ∨ (ip, port) ∈ b.ports

noncomputable def step (b : Blocks) : BlockOp → Blocks
  | .add ip port _ =>
    if port < 1 then { b with whole := insert ip b.whole }
    else { b with ports := insert (ip, port) b.ports }
  | .del ip port _ =>
    if port < 1 then ⟨b.whole \ {ip}, {p ∈ b.ports | p.1 ≠ ip}⟩
    else { b with ports := b.ports \ {(ip, port)} }

noncomputable def run (b : Blocks) (ops : List BlockOp) : Blocks := ops.foldl step b

def Slips (b : Blocks) : BlockOp → Prop
  | .add _ _ _ => False
  | .del ip port _ => 1 ≤ port ∧ ip ∉ b.whole ∧
    ∃ only, only ≠ port ∧ ∀ q, (ip, q) ∈ b.ports ↔ q = only

end Blocks

/-! ## Entries -/

namespace Blacklist

variable {bl : Blacklist} {ip ip' : Bytes} {port now : ℤ} {wp : WrappedPort}

theorem find?_filter_ne (l : List (Bytes × WrappedPort)) (h : ip' ≠ ip) :
    (l.filter fun p => p.1 ≠ ip).find? (fun p => p.1 = ip') = l.find? fun p => p.1 = ip' := by
  rw [find?_filter]
  refine find?_congr ?_
  intro p hp
  by_cases hip : p.1 = ip'
  · rw [hip]
    simp [h]
  · simp [hip]

theorem find?_filter_self (l : List (Bytes × WrappedPort)) :
    (l.filter fun p => p.1 ≠ ip).find? (fun p => p.1 = ip) = none := by
  rw [find?_eq_none]
  intro p hp heq
  exact of_decide_eq_true (mem_filter.mp hp).2 (of_decide_eq_true heq)

theorem lookup_replace (new : Option WrappedPort) :
    lookup { bl with ips := bl.ips.filter (fun p => p.1 ≠ ip) ++ new.toList.map (ip, ·) } ip' =
      if ip' = ip then new else bl.lookup ip' := by
  rw [lookup, find?_append]
  split_ifs with h
  · rw [h, find?_filter_self, none_or]
    cases new with
    | none => rfl
    | some wp => simp
  · rw [find?_filter_ne _ h, lookup]
    cases new with
    | none => simp
    | some wp =>
      have hne : ip ≠ ip' := Ne.symm h
      simp [hne]

theorem filter_of_lookup_none (h : bl.lookup ip = none) :
    bl.ips.filter (fun p => p.1 ≠ ip) = bl.ips := by
  rw [lookup, map_eq_none_iff, find?_eq_none] at h
  refine filter_eq_self.mpr fun p hp => decide_eq_true fun heq => ?_
  exact h p hp (decide_eq_true heq)

def entry (e : Option WrappedPort) : BlockOp → Option WrappedPort
  | .add _ port now => some (WrappedPort.add (e.getD ⟨now, true, []⟩) port now)
  | .del _ port now => e.bind fun wp =>
    if port < 1 then none
    else if !wp.enable then some wp
    else if wp.ports.length ≤ 1 then none
    else some ⟨now, wp.enable, wp.ports.filter (· ≠ port)⟩

theorem lookup_Add (hnum : bl.num = 0) : (bl.Add ip port now).lookup ip' =
    if ip' = ip then entry (bl.lookup ip) (.add ip port now) else bl.lookup ip' := by
  rw [Add]
  split
  · next wp h =>
    rw [h]
    exact lookup_replace (some _)
  · next h =>
    have hfree : ¬ (bl.num > 0 ∧ bl.ips.length ≥ bl.num) := by omega
    rw [if_neg hfree, h]
    nth_rewrite 1 [← filter_of_lookup_none h]
    exact lookup_replace (some _)

theorem lookup_Del : (bl.Del ip port now).lookup ip' =
    if ip' = ip then entry (bl.lookup ip) (.del ip port now) else bl.lookup ip' := by
  have hdelete : lookup { bl with ips := bl.ips.filter (fun p => p.1 ≠ ip) ++ [] } ip' = _ :=
    lookup_replace none
  rw [append_nil] at hdelete
  have hkeep : ∀ {e : Option WrappedPort}, e = bl.lookup ip →
      bl.lookup ip' = if ip' = ip then e else bl.lookup ip' := by
    rintro e rfl
    split_ifs with h
    · rw [h]
    · rfl
  rw [Del]
  split
  · next h =>
    rw [h]
    exact hkeep h.symm
  · next wp h =>
    rw [h]
    change _ = if ip' = ip then (if port < 1 then none
      else if !wp.enable then some wp
      else if wp.ports.length ≤ 1 then none
      else some ⟨now, wp.enable, wp.ports.filter (· ≠ port)⟩) else bl.lookup ip'
    by_cases hport : port < 1
    · rw [if_pos hport, if_pos hport]
      exact hdelete
    · rw [if_neg hport, if_neg hport]
      by_cases hwhole : (!wp.enable) = true
      · rw [if_pos hwhole, if_pos hwhole]
        exact hkeep h.symm
      · rw [if_neg hwhole, if_neg hwhole]
        by_cases hone : wp.ports.length ≤ 1
        · rw [if_pos hone, if_pos hone]
          exact hdelete
        · rw [if_neg hone, if_neg hone]
          exact lookup_replace (some _)

theorem lookup_step (hnum : bl.num = 0) (op : BlockOp) : (bl.step op).lookup ip' =
    if ip' = op.ip then entry (bl.lookup op.ip) op else bl.lookup ip' := by
  cases op with
  | add ip port now => exact lookup_Add hnum
  | del ip port now => exact lookup_Del

theorem num_step (op : BlockOp) : (bl.step op).num = bl.num := by
  cases op with
  | add ip port now =>
    change (bl.Add ip port now).num = _
    rw [Add]
    split
    · rfl
    · split_ifs <;> rfl
  | del ip port now =>
    change (bl.Del ip port now).num = _
    rw [Del]
    split
    · rfl
    · split_ifs <;> rfl

theorem length_step (hnum : 0 < bl.num) (h : bl.ips.length ≤ bl.num) (op : BlockOp) :
    (bl.step op).ips.length ≤ bl.num := by
  have hfilter : ∀ ip, (bl.ips.filter fun p => p.1 ≠ ip).length ≤ bl.num := fun ip =>
    le_trans (length_filter_le _ _) h
  -- the entry of an IP that is there makes room for its successor
  have hreplace : ∀ {ip wp} (e : Bytes × WrappedPort), bl.lookup ip = some wp →
      (bl.ips.filter (fun p => p.1 ≠ ip) ++ [e]).length ≤ bl.num := by
    intro ip wp e hsome
    rw [lookup, map_eq_some_iff] at hsome
    obtain ⟨p, hp, -⟩ := hsome
    have hlt : (bl.ips.filter fun p => p.1 ≠ ip).length < bl.ips.length := by
      refine length_filter_lt_length_iff_exists.mpr ⟨p, mem_of_find?_eq_some hp, ?_⟩
      have heq := find?_some hp
      simpa using heq
    rw [length_append, length_singleton]
    omega
  cases op with
  | add ip port now =>
    change (bl.Add ip port now).ips.length ≤ _
    rw [Add]
    split
    · next wp hsome => exact hreplace _ hsome
    · split_ifs with hfull
      · exact h
      · rw [length_append, length_singleton]
        omega
  | del ip port now =>
    change (bl.Del ip port now).ips.length ≤ _
    rw [Del]
    split
    · exact h
    · next wp hsome =>
      split_ifs
      · exact hfilter ip
      · exact h
      · exact hfilter ip
      · exact hreplace _ hsome

end Blacklist

/-! ## The relation -/

inductive Blocks.Entry (b : Blocks) (ip : Bytes) : Option WrappedPort → Prop where
  | none : ip ∉ b.whole → (∀ q, (ip, q) ∉ b.ports) → Entry b ip none
  | whole {wp : WrappedPort} : wp.enable = false → ip ∈ b.whole → Entry b ip (some wp)
  | ports {wp : WrappedPort} : wp.enable = true → ip ∉ b.whole → wp.ports.Nodup → wp.ports ≠ [] →
    (∀ q, (ip, q) ∈ b.ports ↔ q ∈ wp.ports) → Entry b ip (some wp)

def Rel (bl : Blacklist) (b : Blocks) : Prop := ∀ ip, b.Entry ip (bl.lookup ip)

def Agrees (bl : Blacklist) (b : Blocks) : Prop :=
  ∀ ip port, bl.In ip port = true ↔ b.Blocked ip port

variable {bl : Blacklist} {b : Blocks} {ip ip' : Bytes} {op : BlockOp}

theorem Rel.agrees (h : Rel bl b) : Agrees bl b := by
  intro ip port
  have hip := h ip
  rw [Blacklist.In, Blocks.Blocked]
  cases hip' : bl.lookup ip with
  | none =>
    rw [hip'] at hip
    cases hip with
    | none hwhole hports =>
      constructor
      · rintro ⟨⟩
      · rintro (hw | hp)
        · exact absurd hw hwhole
        · exact absurd hp (hports port)
  | some wp =>
    rw [hip'] at hip
    dsimp only
    cases hip with
    | whole henable hwhole =>
      rw [henable]
      exact ⟨fun _ => .inl hwhole, fun _ => rfl⟩
    | ports henable hwhole _ _ hports =>
      rw [henable, if_pos rfl, decide_eq_true_iff, ← hports port]
      exact ⟨.inr, fun h => h.resolve_left hwhole⟩

theorem blocks_step (hne : ip ≠ op.ip) : (ip ∈ (b.step op).whole ↔ ip ∈ b.whole) ∧
    ∀ q, (ip, q) ∈ (b.step op).ports ↔ (ip, q) ∈ b.ports := by
  cases op with
  | add ip' port now | del ip' port now =>
    have hne : ip ≠ ip' := hne
    rw [Blocks.step]
    split_ifs <;> simp [hne]

theorem Blocks.Entry.of_iff {b' : Blocks} {e : Option WrappedPort} (h : b.Entry ip e)
    (hwhole : ip ∈ b'.whole ↔ ip ∈ b.whole) (hports : ∀ q, (ip, q) ∈ b'.ports ↔ (ip, q) ∈ b.ports) :
    b'.Entry ip e := by
  cases h with
  | none hw hp => exact .none (by rwa [hwhole]) fun q => by rw [hports]; exact hp q
  | whole henable hw => exact .whole henable (hwhole.mpr hw)
  | ports henable hw hnodup hne hp =>
    exact .ports henable (by rwa [hwhole]) hnodup hne fun q => (hports q).trans (hp q)

theorem entry_add {e port now} (h : b.Entry ip e) :
    (b.step (.add ip port now)).Entry ip (entry e (.add ip port now)) := by
  rw [Blocks.step, entry, Blacklist.WrappedPort.add]
  split_ifs with hport
  · exact .whole rfl (Set.mem_insert ..)
  · have hmem : ∀ q, (ip, q) ∈ insert (ip, port) b.ports ↔ q = port ∨ (ip, q) ∈ b.ports := by
      intro q
      simp
    cases h with
    | none hw hp =>
      refine .ports rfl hw ?_ ?_ fun q => ?_
      · exact Nodup.insert nodup_nil
      · exact ne_nil_of_mem (mem_insert_self (l := []))
      · rw [hmem]
        simp [hp q]
    | whole henable hw => exact .whole henable hw
    | ports henable hw hnodup hne hp =>
      refine .ports henable hw hnodup.insert ?_ fun q => ?_
      · exact ne_nil_of_mem mem_insert_self
      · rw [hmem, hp q]
        exact mem_insert_iff.symm

theorem entry_del {e port now} (h : b.Entry ip e) (hslip : ¬ b.Slips (.del ip port now)) :
    (b.step (.del ip port now)).Entry ip (entry e (.del ip port now)) := by
  rw [Blocks.step, entry]
  by_cases hport : port < 1
  · rw [if_pos hport]
    have hnone : e.bind (fun wp => if port < 1 then none
        else if !wp.enable then some wp
        else if wp.ports.length ≤ 1 then none
        else some ⟨now, wp.enable, wp.ports.filter (· ≠ port)⟩) = none := by
      cases e with
      | none => rfl
      | some wp => exact if_pos hport
    rw [hnone]
    exact .none (fun h => h.2 rfl) fun q h => h.2 rfl
  · rw [if_neg hport]
    have hmem : ∀ q, (ip, q) ∈ b.ports \ {(ip, port)} ↔ (ip, q) ∈ b.ports ∧ q ≠ port := by
      intro q
      simp
    cases h with
    | none hw hp => exact .none hw fun q h => hp q h.1
    | @whole wp henable hw =>
      rw [bind_some, if_neg hport, henable]
      exact .whole henable hw
    | @ports wp henable hw hnodup hne hp =>
      rw [bind_some, if_neg hport, henable]
      change Blocks.Entry _ ip (if wp.ports.length ≤ 1 then none else some _)
      split_ifs with hone
      · -- the only port is the one that is deleted
        obtain ⟨only, honly⟩ : ∃ only, wp.ports = [only] :=
          length_eq_one_iff.mp (le_antisymm hone (length_pos_of_ne_nil hne))
        rw [honly] at hp
        have hiff : ∀ q, (ip, q) ∈ b.ports ↔ q = only := fun q => (hp q).trans mem_singleton
        have heq : only = port := by
          by_contra hdiff
          exact hslip ⟨not_lt.mp hport, hw, only, hdiff, hiff⟩
        refine .none hw fun q h => ?_
        rw [hmem, hiff] at h
        exact h.2 (h.1.trans heq)
      · refine .ports rfl hw (hnodup.filter _) ?_ fun q => ?_
        · have hsingle : wp.ports ≠ [port] := by
            intro heq
            rw [heq] at hone
            exact hone (le_refl 1)
          obtain hnil | ⟨q, hq, hdiff⟩ := (hnodup.ne_singleton_iff port).mp hsingle
          · exact absurd hnil hne
          · exact ne_nil_of_mem (mem_filter.mpr ⟨hq, by simpa using hdiff⟩)
        · rw [hmem, hp q, mem_filter, decide_eq_true_iff]

theorem rel_step (hnum : bl.num = 0) (h : Rel bl b) (hslip : ¬ b.Slips op) :
    Rel (bl.step op) (b.step op) := by
  intro ip
  rw [lookup_step hnum]
  split_ifs with hip
  · subst hip
    cases op with
    | add ip port now => exact entry_add (h ip)
    | del ip port now => exact entry_del (h ip) hslip
  · obtain ⟨hwhole, hports⟩ := blocks_step (b := b) hip
    exact (h ip).of_iff hwhole hports

theorem entry_of_slips {e port now} (h : b.Entry ip e)
    (hslip : b.Slips (.del ip port now)) : entry e (.del ip port now) = none := by
  obtain ⟨hport, hw, only, -, honly⟩ := hslip
  cases h with
  | none => rfl
  | whole _ hwhole => exact absurd hwhole hw
  | @ports wp henable _ hnodup _ hports =>
    have hsub : wp.ports ⊆ [only] := fun q hq =>
      mem_singleton.mpr ((honly q).mp ((hports q).mpr hq))
    have hone : wp.ports.length ≤ 1 := (subperm_of_subset hnodup hsub).length_le
    rw [entry, bind_some, if_neg (not_lt.mpr hport), henable]
    exact if_pos hone

theorem not_agrees_of_slips (hnum : bl.num = 0) (h : Rel bl b) (hslip : b.Slips op) :
    ¬ Agrees (bl.step op) (b.step op) := by
  intro hagrees
  cases op with
  | add ip port now => exact hslip
  | del ip port now =>
    have hlookup : (bl.step (.del ip port now)).lookup ip = none :=
      (lookup_step hnum _).trans ((if_pos rfl).trans (entry_of_slips (h ip) hslip))
    obtain ⟨hport, -, only, hdiff, honly⟩ := hslip
    have hblocked : (b.step (.del ip port now)).Blocked ip only := by
      rw [Blocks.step, if_neg (not_lt.mpr hport)]
      refine .inr ⟨(honly only).mpr rfl, fun heq => hdiff (congrArg Prod.snd heq)⟩
    have hin := (hagrees ip only).mpr hblocked
    rw [Blacklist.In, hlookup] at hin
    cases hin

/-! ## Sequences of operations -/

structure Refines (ops : List BlockOp) : Prop where
  agrees : ∀ pre, pre <+: ops → Agrees (run ⟨0, []⟩ pre) (Blocks.empty.run pre)
  limited : ∀ num, 0 < num → ∀ pre, pre <+: ops → (run ⟨num, []⟩ pre).ips.length ≤ num

def Careful (ops : List BlockOp) : Prop :=
  ∀ pre op, pre ++ [op] <+: ops → ¬ (Blocks.empty.run pre).Slips op

theorem num_run (num : ℕ) (ops : List BlockOp) : (run ⟨num, []⟩ ops).num = num := by
  induction ops using reverseRecOn with
  | nil => rfl
  | append_singleton ops op ih =>
    rw [run, foldl_append]
    exact (num_step op).trans ih

theorem length_run {num} (hnum : 0 < num) (ops : List BlockOp) :
    (run ⟨num, []⟩ ops).ips.length ≤ num := by
  induction ops using reverseRecOn with
  | nil => exact Nat.zero_le num
  | append_singleton ops op ih =>
    have hrun : (run ⟨num, []⟩ ops).num = num := num_run num ops
    rw [run, foldl_append]
    have hstep := length_step (by rw [hrun]; exact hnum) (by rw [hrun]; exact ih) op
    rw [hrun] at hstep
    exact hstep

theorem rel_run {ops} (h : Careful ops) : Rel (run ⟨0, []⟩ ops) (Blocks.empty.run ops) := by
  induction ops using reverseRecOn with
  | nil => exact fun ip => .none (Set.notMem_empty _) fun q => Set.notMem_empty _
  | append_singleton ops op ih =>
    rw [run, Blocks.run, foldl_append, foldl_append]
    refine rel_step (num_run 0 ops) (ih fun pre op' hpre => ?_) (h ops op (prefix_rfl))
    exact h pre op' (hpre.trans (prefix_append ..))

theorem careful_of_agrees {ops}
    (h : ∀ pre, pre <+: ops → Agrees (run ⟨0, []⟩ pre) (Blocks.empty.run pre)) :
    Careful ops := by
  induction ops using reverseRecOn with
  | nil =>
    intro pre op hpre
    exact absurd (prefix_nil.mp hpre) (by simp)
  | append_singleton ops op ih =>
    have hcareful := ih fun pre hpre => h pre (hpre.trans (prefix_append ..))
    intro pre op' hpre
    rcases prefix_concat_iff.mp hpre with heq | hpre
    · obtain ⟨rfl, hop⟩ := append_inj' heq rfl
      cases hop
      intro hslip
      have hagrees := h _ prefix_rfl
      rw [run, Blocks.run, foldl_append, foldl_append] at hagrees
      exact not_agrees_of_slips (num_run 0 pre) (rel_run hcareful) hslip hagrees
    · exact hcareful pre op' hpre

/-- **The blacklist refines its set in careful runs.** -/
theorem refines_iff (ops : List BlockOp) : Refines ops ↔ Careful ops := by
  constructor
  · exact fun h => careful_of_agrees h.agrees
  · intro h
    refine ⟨fun pre hpre => ?_, fun num hnum pre _ => length_run hnum pre⟩
    refine (rel_run fun pre' op hop => ?_).agrees
    exact h pre' op (hop.trans hpre)

theorem other_port_unblocked :
    ¬ Refines [.add (utf8 "1.1.1.1") 80 0, .del (utf8 "1.1.1.1") 81 0] := by
  intro h
  have hagrees := h.agrees _ prefix_rfl (utf8 "1.1.1.1") 80
  have hblocked : (Blocks.empty.run
      [.add (utf8 "1.1.1.1") 80 0, .del (utf8 "1.1.1.1") 81 0]).Blocked (utf8 "1.1.1.1") 80 := by
    simp [Blocks.run, Blocks.step, Blocks.Blocked]
  exact absurd (hagrees.mpr hblocked) (by decide)

end GoI2pBt.Dht
