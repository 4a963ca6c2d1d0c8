/-
  The lines of a text.
-/
import GoI2pBt.Lib.Bytes

namespace GoI2pBt

/-! ## White space -/

def spaceChars : List Char :=
  ['\t', '\n', '\x0b', '\x0c', '\r', ' ', '\u0085', '\u00a0', '\u1680', '\u2000', '\u2001',
    '\u2002', '\u2003', '\u2004', '\u2005', '\u2006', '\u2007', '\u2008', '\u2009', '\u200a',
    '\u2028', '\u2029', '\u202f', '\u205f', '\u3000']

def spaces : List Bytes := spaceChars.map String.utf8EncodeChar

def dropStarts (ps : List Bytes) : ℕ → Bytes → Bytes
  | 0, s => s
  | n + 1, s =>
    match ps.find? (·.isPrefixOf s) with
    | some p => dropStarts ps n (s.drop p.length)
    | none => s

def trimSpace (s : Bytes) : Bytes :=
  let s := dropStarts spaces s.length s
  (dropStarts (spaces.map List.reverse) s.length s.reverse).reverse

example : trimSpace (utf8 "\t a b \r") = utf8 "a b" := by decide +kernel

/-! ## Lines -/

def maxScanTokenSize : ℕ := 64 * 1024

def rawLines (text : Bytes) : List Bytes := text.splitOn (ch '\n')

def dropCR (line : Bytes) : Bytes :=
  if line.getLast? = some (ch '\r') then line.dropLast else line

def scanLines (text : Bytes) : Option (List Bytes) :=
  if ∀ line ∈ rawLines text, line.length < maxScanTokenSize then
    some (((rawLines text).dropLast ++ (rawLines text).getLast?.toList.filter (· ≠ [])).map dropCR)
  else none

end GoI2pBt
