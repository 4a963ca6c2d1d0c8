/-
  Readers that return data in portions.
-/
import GoI2pBt.Lib.Bytes

namespace GoI2pBt

open List

variable {ε : Type}

structure Reader (ε : Type) where
  chunks : List Bytes
  final : Option ε

inductive ReadErr (ε : Type) where
  | eof
  | err (e : ε)
deriving DecidableEq

namespace Reader

def data (r : Reader ε) : Bytes := r.chunks.flatten

def size (r : Reader ε) : ℕ := (r.chunks.map fun c => c.length + 1).sum

def readErr (r : Reader ε) : ReadErr ε :=
  match r.final with
  | none => .eof
  | some e => .err e

def read (k : ℕ) (r : Reader ε) : Bytes × Option (ReadErr ε) × Reader ε :=
  match r.chunks with
  | [] => ([], some r.readErr, r)
  | c :: cs => (c.take k, none, { r with chunks := if c.length ≤ k then cs else c.drop k :: cs })

theorem read_nil {k : ℕ} {r : Reader ε} (h : r.chunks = []) :
    r.read k = ([], some r.readErr, r) := by
  rw [read, h]

theorem read_cons {k : ℕ} (hk : 0 < k) {r : Reader ε} (h : r.chunks ≠ []) :
    ∃ b r', r.read k = (b, none, r') ∧ b ++ r'.data = r.data ∧ b.length ≤ k ∧
      r'.final = r.final ∧ r'.size < r.size := by
  obtain ⟨chunks, final⟩ := r
  cases chunks with
  | nil => exact absurd rfl h
  | cons c cs =>
    refine ⟨_, _, rfl, ?_, length_take_le .., rfl, ?_⟩
    · simp only [data]
      split_ifs with hc
      · rw [take_of_length_le hc, flatten_cons]
      · rw [flatten_cons, flatten_cons, ← append_assoc, take_append_drop]
    · simp only [size]
      split_ifs with hc
      · simp only [map_cons, sum_cons]; omega
      · simp only [map_cons, sum_cons, length_drop]; omega

end Reader

structure LimitedReader (ε : Type) where
  r : Reader ε
  n : ℤ

def LimitedReader.read (k : ℕ) (l : LimitedReader ε) :
    Bytes × Option (ReadErr ε) × LimitedReader ε :=
  if l.n ≤ 0 then ([], some .eof, l)
  else
    let k := if k > l.n then l.n.toNat else k
    let (b, err, r) := l.r.read k
    (b, err, ⟨r, l.n - b.length⟩)

def copyBuffer (k : ℕ) : ℕ → LimitedReader ε → List Bytes × Option ε × LimitedReader ε
  | 0, l => ([], none, l)
  | fuel + 1, l =>
    let (b, er, l) := l.read k
    let w := if b = [] then [] else [b]
    match er with
    | some .eof => (w, none, l)
    | some (.err e) => (w, some e, l)
    | none =>
      let (ws, err, l) := copyBuffer k fuel l
      (w ++ ws, err, l)

theorem LimitedReader.read_limit (k : ℕ) (r : Reader ε) :
    (LimitedReader.mk r 0).read k = ([], some .eof, ⟨r, 0⟩) := rfl

theorem LimitedReader.read_eq {k n : ℕ} (hn : 0 < n) (r : Reader ε) :
    (LimitedReader.mk r n).read k = ((r.read (min k n)).1, (r.read (min k n)).2.1,
        ⟨(r.read (min k n)).2.2, n - (r.read (min k n)).1.length⟩) := by
  have hk : (if (k : ℤ) > (n : ℤ) then (n : ℤ).toNat else k) = min k n := by
    split_ifs <;> omega
  rw [LimitedReader.read, if_neg (by simp only; omega)]
  dsimp only
  rw [hk]

theorem copyBuffer_spec {k : ℕ} (hk : 0 < k) : ∀ (fuel n : ℕ) (r : Reader ε), r.size < fuel →
    ∃ ws r' m, copyBuffer k fuel ⟨r, n⟩ =
        (ws, if n ≤ r.data.length then none else r.final, ⟨r', m⟩) ∧
      ws.flatten = r.data.take n ∧ r'.data = r.data.drop n ∧ r'.final = r.final ∧ r'.size ≤ r.size
  | 0, n, r, h => by omega
  | fuel + 1, 0, r, h => by
    refine ⟨[], r, 0, ?_, rfl, rfl, rfl, le_rfl⟩
    rw [copyBuffer, Nat.cast_zero, LimitedReader.read_limit]
    simp
  | fuel + 1, n + 1, r, h => by
    rw [copyBuffer, LimitedReader.read_eq n.succ_pos]
    by_cases hc : r.chunks = []
    · -- the reader is at its end
      have hd : r.data = [] := by rw [Reader.data, hc]; rfl
      refine ⟨[], r, (n + 1 : ℕ) - ([] : Bytes).length, ?_, by rw [hd]; rfl, by rw [hd]; rfl, rfl,
        le_rfl⟩
      rw [Reader.read_nil hc, hd, if_neg (by simp), Reader.readErr]
      cases r.final <;> rfl
    · obtain ⟨b, r1, hread, hdata, hb, hfinal, hsize⟩ := Reader.read_cons (k := min k (n + 1))
        (by omega) hc
      have hsub : (((n + 1 : ℕ) : ℤ) - (b.length : ℤ)) = ((n + 1 - b.length : ℕ) : ℤ) := by omega
      obtain ⟨ws, r', m, hcopy, hws, hr', hfin, hle⟩ :=
        copyBuffer_spec hk fuel (n + 1 - b.length) r1 (by omega)
      have htake : r.data.take (n + 1) = b ++ r1.data.take (n + 1 - b.length) := by
        rw [← hdata, take_append, take_of_length_le (by omega)]
      have hdrop : r.data.drop (n + 1) = r1.data.drop (n + 1 - b.length) := by
        rw [← hdata, drop_append, drop_eq_nil_of_le (by omega), nil_append]
      have hend : (if n + 1 - b.length ≤ r1.data.length then none else r1.final) =
          if n + 1 ≤ r.data.length then none else r.final := by
        rw [← hdata, length_append, hfinal]
        congr 1
        exact propext (by omega)
      refine ⟨(if b = [] then [] else [b]) ++ ws, r', m, ?_, ?_, ?_, hfin.trans hfinal, by omega⟩
      · rw [hread]
        dsimp only
        rw [hsub, hcopy, hend]
      · rw [htake, flatten_append, hws]
        split_ifs with hnil
        · rw [hnil]; rfl
        · simp
      · rw [hdrop, hr']

end GoI2pBt
