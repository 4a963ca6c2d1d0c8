/-
  `net.JoinHostPort` and `net.SplitHostPort`.
-/
import GoI2pBt.Lib.Bytes

namespace GoI2pBt

open List

inductive AddrError where
  | missingPort
  | tooManyColons
  | missingBracket
  | unexpectedOpen
  | unexpectedClose
deriving DecidableEq, Repr

def indexByte (c : UInt8) (s : Bytes) : Option ℕ := s.findIdx? (· = c)

def lastIndexByte (c : UInt8) (s : Bytes) : Option ℕ :=
  (s.reverse.findIdx? (· = c)).map fun j => s.length - 1 - j

def splitHostPort (s : Bytes) : Except AddrError (Bytes × Bytes) :=
  match lastIndexByte (ch ':') s with
  | none => .error .missingPort
  | some i =>
    -- no `[` may follow from `j` on, and no `]` from `k` on
    let finish (host : Bytes) (j k : ℕ) : Except AddrError (Bytes × Bytes) :=
      if ch '[' ∈ s.drop j then .error .unexpectedOpen
      else if ch ']' ∈ s.drop k then .error .unexpectedClose
      else .ok (host, s.drop (i + 1))
    if s.head? = some (ch '[') then
      match indexByte (ch ']') s with
      | none => .error .missingBracket
      | some fin =>
        if fin + 1 = s.length then .error .missingPort
        else if fin + 1 = i then finish ((s.take fin).drop 1) 1 (fin + 1)
        else if s[fin + 1]? = some (ch ':') then .error .tooManyColons
        else .error .missingPort
    else if ch ':' ∈ s.take i then .error .tooManyColons
    else finish (s.take i) 0 0

def joinHostPort (host port : Bytes) : Bytes :=
  if ch ':' ∈ host then ch '[' :: (host ++ ch ']' :: ch ':' :: port)
  else host ++ ch ':' :: port

theorem splitHostPort_length {s host port} (h : splitHostPort s = .ok (host, port)) :
    host.length ≤ s.length := by
  rw [splitHostPort.eq_def] at h
  split at h
  · cases h
  · rename_i i _
    dsimp only at h
    split at h
    · split at h
      · cases h
      · rename_i fin _
        split_ifs at h
        cases h
        rw [length_drop, length_take]; omega
    · split_ifs at h
      cases h
      rw [length_take]; omega

theorem colon_mem_joinHostPort (host port : Bytes) : ch ':' ∈ joinHostPort host port := by
  unfold joinHostPort
  split_ifs
  · exact mem_cons_of_mem _ (mem_append_right _
      (mem_cons_of_mem _ mem_cons_self))
  · exact mem_append_right _ mem_cons_self

example : splitHostPort (utf8 "[::1]:80") = .ok (utf8 "::1", utf8 "80") := by decide +kernel

end GoI2pBt
