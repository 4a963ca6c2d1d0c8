/-
  The bandwidth schedule.
-/
import GoI2pBt.Rpc.TorrentManager

namespace GoI2pBt.Rpc

structure BandwidthScheduleRule where
  Name : Bytes
  DaysOfWeek : List ℤ
  StartTime : Bytes
  EndTime : Bytes
  DownloadLimit : ℤ
  UploadLimit : ℤ
  Priority : ℤ
  Enabled : Bool
deriving DecidableEq

structure RulePointer where
  address : ℕ
  rule : BandwidthScheduleRule
deriving DecidableEq

structure BandwidthScheduler where
  enabled : Bool
  rules : List RulePointer
  currentRule : Option RulePointer
  ticker : Bool
  evaluations : ℕ
deriving DecidableEq

def textOf (s : Bytes) : String := (String.fromUTF8? ⟨s.toArray⟩).getD ""

/-! ## Validation -/

def parseTime (s : Bytes) : Option (ℕ × ℕ) := do
  let (hour, minute) ← cut (ch ':') s
  if (hour.length = 1 ∨ hour.length = 2) ∧ minute.length = 2 then
    let h ← parseUint 64 hour
    let m ← parseUint 64 minute
    if h < 24 ∧ m < 60 then some (h, m) else none
  else none

def validateRule (rule : BandwidthScheduleRule) : Option String :=
  if rule.Name = [] then some "rule name cannot be empty"
  else if parseTime rule.StartTime = none then some "invalid start time"
  else if parseTime rule.EndTime = none then some "invalid end time"
  else
    match rule.DaysOfWeek.find? fun day => day < 0 ∨ day > 6 with
    | some day => some s!"invalid day of week: {day} (must be 0-6)"
    | none =>
      if rule.DownloadLimit < 0 then some "download limit cannot be negative"
      else if rule.UploadLimit < 0 then some "upload limit cannot be negative"
      else none

namespace BandwidthScheduler

variable (bs : BandwidthScheduler)

/-! ## Changes -/

def freshAddress : ℕ := ((bs.rules ++ bs.currentRule.toList).map fun p => p.address + 1).foldl max 0

def startScheduler : BandwidthScheduler :=
  { bs with ticker := true, evaluations := bs.evaluations + 1 }

def stopScheduler : BandwidthScheduler := { bs with ticker := false }

def SetEnabled (enabled : Bool) : BandwidthScheduler :=
  if bs.enabled = enabled then bs
  else
    let bs := { bs with enabled := enabled }
    if enabled then bs.startScheduler else bs.stopScheduler

def triggerEvaluation : BandwidthScheduler :=
  if bs.enabled then { bs with evaluations := bs.evaluations + 1 } else bs

def AddRule (rule : BandwidthScheduleRule) : BandwidthScheduler × Except TmError Unit :=
  match validateRule rule with
  | some err => (bs, .error (.text s!"invalid rule: {err}"))
  | none =>
    if ∃ existingRule ∈ bs.rules, existingRule.rule.Name = rule.Name then
      let name := textOf rule.Name
      (bs, .error (.text s!"rule with name '{name}' already exists"))
    else
      let pointer : RulePointer := ⟨bs.freshAddress, rule⟩
      ({ bs with rules := bs.rules ++ [pointer] }.triggerEvaluation, .ok ())

def notFound (name : Bytes) : TmError :=
  let name := textOf name
  .text s!"rule with name '{name}' not found"

def findRule (name : Bytes) : Option (ℕ × RulePointer) :=
  (bs.rules.zipIdx.find? fun p => p.1.rule.Name = name).map fun p => (p.2, p.1)

def RemoveRule (name : Bytes) : BandwidthScheduler × Except TmError Unit :=
  match bs.findRule name, bs.rules.getLast? with
  | some (i, _), some last =>
    ({ bs with rules := (bs.rules.set i last).dropLast }.triggerEvaluation, .ok ())
  | _, _ => (bs, .error (notFound name))

def UpdateRule (rule : BandwidthScheduleRule) : BandwidthScheduler × Except TmError Unit :=
  match validateRule rule with
  | some err => (bs, .error (.text s!"invalid rule: {err}"))
  | none =>
    match bs.findRule rule.Name with
    | some (i, _) =>
      let pointer : RulePointer := ⟨bs.freshAddress, rule⟩
      ({ bs with rules := bs.rules.set i pointer }.triggerEvaluation, .ok ())
    | none => (bs, .error (notFound rule.Name))

/-! ## Reading -/

def GetRules : List BandwidthScheduleRule := bs.rules.map RulePointer.rule

def GetCurrentRule : Option BandwidthScheduleRule := bs.currentRule.map RulePointer.rule

end BandwidthScheduler

end GoI2pBt.Rpc
