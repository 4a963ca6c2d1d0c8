/-
  The blocklist: its lines, and the addresses that it blocks.
-/
import GoI2pBt.Lib.Cidr
import GoI2pBt.Lib.Lines
import GoI2pBt.Lib.OrderedMap

namespace GoI2pBt.Rpc

open List

structure IpRange where
  start : Bytes
  stop : Bytes
deriving DecidableEq

structure BlocklistManager where
  enabled : Bool
  lastModified : Bytes
  etag : Bytes
  ipRanges : List IpRange
  size : ℕ

structure BlocklistResponse where
  StatusCode : ℤ
  Body : Bytes
  lastModified : Bytes
  etag : Bytes

namespace BlocklistManager

variable {r : IpRange} {s ip : Bytes} {a b : Bytes}

/-! ## Addresses -/

def normalizeIPAddresses (a b : Bytes) : Bytes × Bytes :=
  if a.length ≠ b.length then
    if a.length = 4 ∧ b.length = 16 then (to16 a, b)
    else if a.length = 16 ∧ b.length = 4 then (a, to16 b)
    else (a, b)
  else (a, b)

def compareIPBytes : Bytes → Bytes → ℤ
  | x :: a, y :: b => if x < y then -1 else if y < x then 1 else compareIPBytes a b
  | _, _ => 0

def compareIPLengths (a b : Bytes) : ℤ :=
  if a.length < b.length then -1 else if b.length < a.length then 1 else 0

def compareIPs (a b : Bytes) : ℤ :=
  let n := normalizeIPAddresses a b
  let result := compareIPBytes n.1 n.2
  if result ≠ 0 then result else compareIPLengths n.1 n.2

def normalizeToRange (ip : Bytes) (r : IpRange) : Option Bytes :=
  if ip.length ≠ r.start.length ∨ ip.length ≠ r.stop.length then
    if ip.length = 4 ∧ r.start.length = 16 then some (to16 ip)
    else if ip.length = 16 ∧ r.start.length = 4 then
      if to4 ip = [] then none else some (to4 ip)
    else none
  else some ip

def ipInRange (ip : Bytes) (r : IpRange) : Bool :=
  match normalizeToRange ip r with
  | none => false
  | some ip => compareIPs ip r.start ≥ 0 ∧ compareIPs ip r.stop ≤ 0

def IsBlocked (bm : BlocklistManager) (ip : Bytes) : Bool :=
  if bm.enabled = false then false
  else
    match parseIP ip with
    | none => true
    | some parsedIP => bm.ipRanges.any (ipInRange parsedIP)

/-! ## Lines -/

def cidrToRange (ip mask : Bytes) : IpRange :=
  ⟨ip, zipWith (fun x m => x ||| ~~~m) ip mask ++ ip.drop mask.length⟩

def parseCIDRLine (line : Bytes) : Option IpRange :=
  if ch '/' ∉ line then none else (parseCIDR line).map fun cidr => cidrToRange cidr.1 cidr.2

def parseDATFormatLine (line : Bytes) : Option IpRange :=
  if ch ':' ∉ line ∨ ch '-' ∉ line then none
  else
    match cut (ch ':') line with
    | none => none
    | some (_, rangePart) =>
      match cut (ch '-') rangePart with
      | none => none
      | some (first, last) =>
        match parseIP (trimSpace first), parseIP (trimSpace last) with
        | some start, some stop => some ⟨start, stop⟩
        | _, _ => none

def parseSingleIPLine (line : Bytes) : Option IpRange := (parseIP line).map fun ip => ⟨ip, ip⟩

def parseLine (line : Bytes) : Option IpRange :=
  let line := trimSpace line
  if line = [] ∨ line.head? = some (ch '#') then none
  else (parseCIDRLine line).or ((parseDATFormatLine line).or (parseSingleIPLine line))

def sortIPRanges (sort : SortSlice) (ranges : List IpRange) : List IpRange :=
  sort.slice (fun r r' => compareIPs r.start r'.start < 0) ranges

def parseBlocklist (sort : SortSlice) (text : Bytes) : Option (List IpRange) :=
  (scanLines text).map fun lines => sortIPRanges sort (lines.filterMap parseLine)

/-! ## Downloads -/

def updateBlocklistData (bm : BlocklistManager) (ranges : List IpRange) (resp : BlocklistResponse) :
    BlocklistManager :=
  { bm with
    ipRanges := ranges
    lastModified := resp.lastModified
    etag := resp.etag
    size := ranges.length }

def processBlocklistResponse (sort : SortSlice) (bm : BlocklistManager) (resp : BlocklistResponse) :
    BlocklistManager × Option String :=
  if resp.StatusCode = 304 then (bm, none)
  else if resp.StatusCode ≠ 200 then (bm, some s!"unexpected status code: {resp.StatusCode}")
  else
    match parseBlocklist sort resp.Body with
    | none => (bm, some "failed to parse blocklist: bufio.Scanner: token too long")
    | some ranges => (bm.updateBlocklistData ranges resp, none)

/-! ## What the lines stand for -/

inductive Denotes (s : Bytes) : ℕ → ℕ → Prop
  | address {ip : Bytes} : parseIP s = some ip → Denotes s (ipNum ip) (ipNum ip)
  | block {addr bits ip : Bytes} {k : ℕ} :
      s = addr ++ ch '/' :: bits → parseAddr addr = some ip → bits ≠ [] →
      (∀ c ∈ bits, IsDigit c) → digitsVal bits + k = 8 * ip.length →
      Denotes s (ipNum ip / 2 ^ k * 2 ^ k) (ipNum ip / 2 ^ k * 2 ^ k + (2 ^ k - 1))
  | named {name first last start stop : Bytes} :
      s = name ++ ch ':' :: (first ++ ch '-' :: last) → s.head? ≠ some (ch '#') → ch ':' ∉ name →
      ch '-' ∉ first → parseIP (trimSpace first) = some start →
      parseIP (trimSpace last) = some stop → Denotes s (ipNum start) (ipNum stop)

/-! ## Comparisons -/

theorem compareIPBytes_eq : ∀ {a b : Bytes}, a.length = b.length →
    compareIPBytes a b = if beNat a < beNat b then -1 else if beNat b < beNat a then 1 else 0
  | [], [], _ => rfl
  | x :: a, y :: b, h => by
    have hlen : a.length = b.length := by simpa using h
    rw [compareIPBytes]
    rcases lt_trichotomy x.toNat y.toNat with hlt | heq | hgt
    · rw [← UInt8.lt_iff_toNat_lt] at hlt
      have hnum : beNat (x :: a) < beNat (y :: b) := beNat_cons_lt hlen hlt
      rw [if_pos hlt, if_pos hnum]
    · obtain rfl := UInt8.toNat_inj.1 heq
      rw [if_neg (UInt8.lt_irrefl x), if_neg (UInt8.lt_irrefl x), compareIPBytes_eq hlen, beNat_cons,
        beNat_cons, hlen]
      simp only [Nat.add_lt_add_iff_left]
    · rw [← UInt8.lt_iff_toNat_lt] at hgt
      have hnum : beNat (y :: b) < beNat (x :: a) := beNat_cons_lt hlen.symm hgt
      rw [if_neg (UInt8.lt_asymm hgt), if_pos hgt, if_neg (not_lt.2 hnum.le), if_pos hnum]

theorem compareIPs_eq (h : a.length = b.length) :
    compareIPs a b = if beNat a < beNat b then -1 else if beNat b < beNat a then 1 else 0 := by
  have hnorm : normalizeIPAddresses a b = (a, b) := if_neg (not_not.2 h)
  have hlens : compareIPLengths a b = 0 := by simp [compareIPLengths, h]
  have hself : ∀ result : ℤ, (if result ≠ 0 then result else 0) = result := by
    intro result
    by_cases h0 : result = 0
    · rw [if_neg (not_not.2 h0), h0]
    · rw [if_pos h0]
  simp only [compareIPs, hnorm, hlens, hself, compareIPBytes_eq h]

theorem compareIPs_nonneg (h : a.length = b.length) : 0 ≤ compareIPs a b ↔ beNat b ≤ beNat a := by
  rw [compareIPs_eq h]
  split_ifs <;> omega

theorem compareIPs_nonpos (h : a.length = b.length) : compareIPs a b ≤ 0 ↔ beNat a ≤ beNat b := by
  rw [compareIPs_eq h]
  split_ifs <;> omega

structure Spans (r : IpRange) (lo hi : ℕ) : Prop where
  valid : r.start.length = 4 ∨ r.start.length = 16
  same : r.stop.length = r.start.length
  start : ipNum r.start = lo
  stop : ipNum r.stop = hi

theorem ipInRange_iff {ip lo hi} (hip : ip.length = 16)
    (hr : Spans r lo hi) : ipInRange ip r = true ↔ lo ≤ ipNum ip ∧ ipNum ip ≤ hi := by
  obtain ⟨hvalid, hsame, rfl, rfl⟩ := hr
  have hnum : ipNum ip = beNat ip := ipNum_of_length_sixteen hip
  rcases hvalid with h4 | h16
  · have hstop : r.stop.length = 4 := hsame.trans h4
    have hform : normalizeToRange ip r = if to4 ip = [] then none else some (to4 ip) := by
      rw [normalizeToRange, if_pos (.inl (by omega)), if_neg (by omega), if_pos ⟨hip, h4⟩]
    rw [ipNum_of_length_four h4, ipNum_of_length_four hstop, ipInRange, hform]
    have hstart : beNat r.start < 2 ^ 32 := beNat_lt_of_length_four h4
    have hstop' : beNat r.stop < 2 ^ 32 := beNat_lt_of_length_four hstop
    split_ifs with hnil
    · simp only [false_iff, not_and, not_le]
      intro hlo
      by_contra hhi
      exact to4_ne_nil hip (by omega) (by omega) hnil
    · have hlen : (to4 ip).length = 4 := (length_to4 ip).resolve_right hnil
      have hto4 : ipNum ip = 0xffff * 2 ^ 32 + beNat (to4 ip) := by
        rw [← ipNum_of_length_four hlen, ipNum, ipNum, to16_to4 hnil]
      rw [hto4]
      simp only [ge_iff_le, decide_eq_true_eq, compareIPs_nonneg (hlen.trans h4.symm),
        compareIPs_nonpos (hlen.trans hstop.symm), Nat.add_le_add_iff_left]
  · have hstop : r.stop.length = 16 := hsame.trans h16
    have hform : normalizeToRange ip r = some ip := if_neg (by omega)
    rw [ipNum_of_length_sixteen h16, ipNum_of_length_sixteen hstop, hnum, ipInRange, hform]
    simp only [ge_iff_le, decide_eq_true_eq, compareIPs_nonneg (hip.trans h16.symm),
      compareIPs_nonpos (hip.trans hstop.symm)]

/-! ## Parsing -/

theorem notMem_of_parseAddr (h : parseAddr s = some ip) {c}
    (hc : isAddrChar c = false) : c ∉ s := by
  intro hmem
  rw [isAddrChar_parseAddr h c hmem] at hc
  cases hc

theorem notMem_of_parseIP (h : parseIP s = some ip) {c} (hc : isAddrChar c = false) : c ∉ s := by
  rw [parseIP_eq_map] at h
  obtain ⟨addr, haddr, -⟩ := Option.map_eq_some_iff.1 h
  exact notMem_of_parseAddr haddr hc

theorem spans_single (h : parseIP s = some ip) : Spans ⟨ip, ip⟩ (ipNum ip) (ipNum ip) :=
  ⟨.inr (length_parseIP h), rfl, rfl, rfl⟩

theorem spans_bounds {s s' start stop} (h : parseIP s = some start)
    (h' : parseIP s' = some stop) : Spans ⟨start, stop⟩ (ipNum start) (ipNum stop) :=
  ⟨.inr (length_parseIP h), (length_parseIP h').trans (length_parseIP h).symm, rfl, rfl⟩

theorem spans_block {ip : Bytes} {n k : ℕ} (hip : ip.length = 4 ∨ ip.length = 16)
    (hk : n + k = 8 * ip.length) :
    Spans (cidrToRange (zipWith (· &&& ·) ip (cidrMask ip.length n)) (cidrMask ip.length n))
      (ipNum ip / 2 ^ k * 2 ^ k) (ipNum ip / 2 ^ k * 2 ^ k + (2 ^ k - 1)) := by
  have hmask : (cidrMask ip.length n).length = ip.length := length_cidrMask _ _
  have hfirst : (zipWith (· &&& ·) ip (cidrMask ip.length n)).length = ip.length := by
    rw [length_zipWith, hmask, min_self]
  have hstop : (cidrToRange (zipWith (· &&& ·) ip (cidrMask ip.length n))
      (cidrMask ip.length n)).stop = zipWith (fun x m => x ||| ~~~m)
        (zipWith (· &&& ·) ip (cidrMask ip.length n)) (cidrMask ip.length n) := by
    rw [cidrToRange, drop_of_length_le (by rw [hfirst, hmask]), append_nil]
  have hlast : (zipWith (fun x m => x ||| ~~~m)
      (zipWith (· &&& ·) ip (cidrMask ip.length n)) (cidrMask ip.length n)).length = ip.length := by
    rw [length_zipWith, hfirst, hmask, min_self]
  have hk' : 8 * ip.length - n = k := by omega
  have hlo := beNat_mask ip n (by omega)
  have hhi := beNat_fill ip n (by omega)
  rw [hk'] at hlo hhi
  refine ⟨?_, ?_, ?_, ?_⟩
  · rwa [cidrToRange, hfirst]
  · rw [hstop, hlast, cidrToRange, hfirst]
  · rcases hip with h4 | h16
    · have hround := round_add (s := k) (l := 32) (by omega) 0xffff (beNat ip)
      rw [cidrToRange, ipNum_of_length_four (hfirst.trans h4), ipNum_of_length_four h4, hlo, hround]
    · rw [cidrToRange, ipNum_of_length_sixteen (hfirst.trans h16), ipNum_of_length_sixteen h16, hlo]
  · rw [hstop]
    rcases hip with h4 | h16
    · have hround := round_add (s := k) (l := 32) (by omega) 0xffff (beNat ip)
      rw [ipNum_of_length_four (hlast.trans h4), ipNum_of_length_four h4, hhi, hround, add_assoc]
    · rw [ipNum_of_length_sixteen (hlast.trans h16), ipNum_of_length_sixteen h16, hhi]

theorem parseCIDRLine_eq_some {s} (h : parseCIDRLine s = some r) :
    ch '-' ∉ s ∧ ∃ lo hi, Denotes s lo hi ∧ Spans r lo hi := by
  unfold parseCIDRLine at h
  split_ifs at h with hslash
  obtain ⟨net, hnet, rfl⟩ := Option.map_eq_some_iff.1 h
  obtain ⟨addr, bits, ip, rfl, -, hip, hne, hdigits, hle, rfl⟩ := parseCIDR_eq_some_iff.1 hnet
  obtain ⟨k, hk⟩ := Nat.exists_eq_add_of_le hle
  refine ⟨?_, _, _, .block rfl hip hne hdigits hk.symm, spans_block (length_parseAddr hip) hk.symm⟩
  have hbits : ch '-' ∉ bits := fun hmem => absurd (hdigits _ hmem) (by decide)
  have haddr : ch '-' ∉ addr := notMem_of_parseAddr hip (by decide)
  simpa [haddr, hbits] using fun h => absurd h (by decide)

theorem parseCIDRLine_block {addr bits ip : Bytes} {k : ℕ} (hip : parseAddr addr = some ip)
    (hne : bits ≠ []) (hdigits : ∀ c ∈ bits, IsDigit c) (hk : digitsVal bits + k = 8 * ip.length) :
    ∃ r, parseCIDRLine (addr ++ ch '/' :: bits) = some r ∧
      Spans r (ipNum ip / 2 ^ k * 2 ^ k) (ipNum ip / 2 ^ k * 2 ^ k + (2 ^ k - 1)) := by
  have hslash : ch '/' ∉ addr := notMem_of_parseAddr hip (by decide)
  have hnet := parseCIDR_eq_some_iff.2
    ⟨addr, bits, ip, rfl, hslash, hip, hne, hdigits, by omega, rfl⟩
  refine ⟨_, ?_, spans_block (length_parseAddr hip) hk⟩
  rw [parseCIDRLine, if_neg (by simp), hnet]
  rfl

theorem parseDATFormatLine_eq_some {s} (h : parseDATFormatLine s = some r)
    (hhead : s.head? ≠ some (ch '#')) : ∃ lo hi, Denotes s lo hi ∧ Spans r lo hi := by
  unfold parseDATFormatLine at h
  split_ifs at h
  split at h
  · cases h
  rename_i name rangePart hname
  split at h
  · cases h
  rename_i first last hfirst
  split at h
  · rename_i start stop hstart hstop
    cases h
    obtain ⟨hcolon, rfl⟩ := cut_eq_some hname
    obtain ⟨hhyphen, rfl⟩ := cut_eq_some hfirst
    exact ⟨_, _, .named rfl hhead hcolon hhyphen hstart hstop, spans_bounds hstart hstop⟩
  · cases h

theorem parseDATFormatLine_named {name first last start stop} (hcolon : ch ':' ∉ name)
    (hhyphen : ch '-' ∉ first) (hstart : parseIP (trimSpace first) = some start)
    (hstop : parseIP (trimSpace last) = some stop) :
    parseDATFormatLine (name ++ ch ':' :: (first ++ ch '-' :: last)) = some ⟨start, stop⟩ := by
  rw [parseDATFormatLine, if_neg (by simp), cut_append hcolon]
  dsimp only
  rw [cut_append hhyphen]
  simp only [hstart, hstop]

theorem parseLine_eq_some {line} (h : parseLine line = some r) :
    ∃ lo hi, Denotes (trimSpace line) lo hi ∧ Spans r lo hi := by
  simp only [parseLine] at h
  split_ifs at h with hskip
  push Not at hskip
  rcases Option.or_eq_some_iff.1 h with h | ⟨-, h⟩
  · exact (parseCIDRLine_eq_some h).2
  · rcases Option.or_eq_some_iff.1 h with h | ⟨-, h⟩
    · exact parseDATFormatLine_eq_some h hskip.2
    · obtain ⟨ip, hip, rfl⟩ := Option.map_eq_some_iff.1 h
      exact ⟨_, _, .address hip, spans_single hip⟩

theorem head?_ne_hash {s : Bytes} (h : ch '#' ∉ s) : s.head? ≠ some (ch '#') :=
  fun hhead => h (mem_of_head? hhead)

theorem parseLine_of_denotes {line : Bytes} {lo hi : ℕ} (h : Denotes (trimSpace line) lo hi) :
    ∃ r, parseLine line = some r ∧ Spans r lo hi := by
  generalize hs : trimSpace line = s at h
  -- no line is skipped that stands for a range, and the formats exclude each other
  have hline : ∀ {r}, s ≠ [] → s.head? ≠ some (ch '#') →
      (parseCIDRLine s).or ((parseDATFormatLine s).or (parseSingleIPLine s)) = some r →
      parseLine line = some r := by
    intro r hne hhead hr
    simp only [parseLine, hs]
    rw [if_neg (by simp [hne, hhead]), hr]
  cases h with
  | @address ip hip =>
    have hne : s ≠ [] := by
      rintro rfl
      cases hip
    have hcidr : parseCIDRLine s = none := if_pos (notMem_of_parseIP hip (by decide))
    have hdat : parseDATFormatLine s = none := if_pos (.inr (notMem_of_parseIP hip (by decide)))
    have hsingle : parseSingleIPLine s = some ⟨ip, ip⟩ := by rw [parseSingleIPLine, hip]; rfl
    refine ⟨⟨ip, ip⟩, hline hne (head?_ne_hash (notMem_of_parseIP hip (by decide))) ?_,
      spans_single hip⟩
    rw [hcidr, hdat, hsingle]
    rfl
  | @block addr bits ip k heq hip hbits hdigits hk =>
    obtain ⟨r, hr, hspans⟩ := parseCIDRLine_block hip hbits hdigits hk
    rw [← heq] at hr
    refine ⟨r, hline ?_ (head?_ne_hash ?_) (by rw [hr]; rfl), hspans⟩
    · rw [heq]
      simp
    · have hmem : ch '#' ∉ bits := fun hmem => absurd (hdigits _ hmem) (by decide)
      have haddr : ch '#' ∉ addr := notMem_of_parseAddr hip (by decide)
      rw [heq]
      simpa [haddr, hmem] using fun h => absurd h (by decide)
  | @named name first last start stop heq hhead hcolon hhyphen hstart hstop =>
    have hdat := parseDATFormatLine_named hcolon hhyphen hstart hstop
    rw [← heq] at hdat
    have hcidr : parseCIDRLine s = none := by
      rw [Option.eq_none_iff_forall_ne_some]
      intro r hr
      refine (parseCIDRLine_eq_some hr).1 ?_
      rw [heq]
      simp
    refine ⟨⟨start, stop⟩, hline ?_ hhead (by rw [hcidr, hdat]; rfl), spans_bounds hstart hstop⟩
    rw [heq]
    simp

/-! ## Blocked addresses -/

/-- **Blocked is what a line of the list denotes.** -/
theorem isBlocked_iff (sort : SortSlice) (bm : BlocklistManager) (hon : bm.enabled = true)
    {resp : BlocklistResponse} (hok : resp.StatusCode = 200)
    (hlines : ∀ line ∈ rawLines resp.Body, line.length < 64 * 1024) {a ip : Bytes}
    (ha : parseIP a = some ip) : ∃ bm' lines,
    bm.processBlocklistResponse sort resp = (bm', none) ∧ scanLines resp.Body = some lines ∧
      (bm'.IsBlocked a = true ↔
        ∃ line ∈ lines, ∃ lo hi, Denotes (trimSpace line) lo hi ∧ lo ≤ ipNum ip ∧ ipNum ip ≤ hi) := by
  obtain ⟨lines, hscan⟩ : ∃ lines, scanLines resp.Body = some lines := ⟨_, if_pos hlines⟩
  have hparse : parseBlocklist sort resp.Body =
      some (sortIPRanges sort (lines.filterMap parseLine)) := by
    rw [parseBlocklist, hscan]
    rfl
  refine ⟨bm.updateBlocklistData (sortIPRanges sort (lines.filterMap parseLine)) resp, lines, ?_,
    hscan, ?_⟩
  · rw [processBlocklistResponse, if_neg (by rw [hok]; decide), if_neg (not_not.2 hok), hparse]
  · have hlen : ip.length = 16 := length_parseIP ha
    have hblocked : (bm.updateBlocklistData (sortIPRanges sort (lines.filterMap parseLine))
        resp).IsBlocked a = (sortIPRanges sort (lines.filterMap parseLine)).any (ipInRange ip) := by
      rw [IsBlocked, if_neg (by rw [updateBlocklistData, hon]; decide), ha]
      rfl
    have hperm := sort.perm (fun r r' : IpRange => compareIPs r.start r'.start < 0)
      (lines.filterMap parseLine)
    rw [hblocked, any_eq_true]
    constructor
    · rintro ⟨r, hr, hin⟩
      obtain ⟨line, hline, hparsed⟩ := List.mem_filterMap.1 (hperm.mem_iff.1 hr)
      obtain ⟨lo, hi, hdenotes, hspans⟩ := parseLine_eq_some hparsed
      exact ⟨line, hline, lo, hi, hdenotes, (ipInRange_iff hlen hspans).1 hin⟩
    · rintro ⟨line, hline, lo, hi, hdenotes, hin⟩
      obtain ⟨r, hparsed, hspans⟩ := parseLine_of_denotes hdenotes
      exact ⟨r, hperm.mem_iff.2 (List.mem_filterMap.2 ⟨line, hline, hparsed⟩),
        (ipInRange_iff hlen hspans).2 hin⟩

def sampleResponse : BlocklistResponse where
  StatusCode := 200
  Body := utf8 "# a\n10.0.0.0/8\r\nb:1.2.3.4-1.2.3.9\n10/8\n"
  lastModified := []
  etag := []

theorem isBlocked_sample : ∃ bm' lines,
    (⟨true, [], [], [], 0⟩ : BlocklistManager).processBlocklistResponse .insertion sampleResponse =
        (bm', none) ∧ scanLines sampleResponse.Body = some lines ∧
      (bm'.IsBlocked (utf8 "10.1.2.3") = true ↔ ∃ line ∈ lines, ∃ lo hi,
        Denotes (trimSpace line) lo hi ∧
          lo ≤ ipNum (to16 [10, 1, 2, 3]) ∧ ipNum (to16 [10, 1, 2, 3]) ≤ hi) := by
  have ha : parseIP (utf8 "10.1.2.3") = some (to16 [10, 1, 2, 3]) := by decide +kernel
  have hlines : ∀ line ∈ rawLines sampleResponse.Body, line.length < 64 * 1024 := by decide +kernel
  exact isBlocked_iff .insertion ⟨true, [], [], [], 0⟩ rfl rfl hlines ha

example : ((parseBlocklist .insertion sampleResponse.Body).map fun ranges =>
    ranges.map fun r => (ipNum r.start, ipNum r.stop)) =
      some [(0xffff01020304, 0xffff01020309), (0xffff0a000000, 0xffff0affffff)] := by decide +kernel

end BlocklistManager

end GoI2pBt.Rpc
