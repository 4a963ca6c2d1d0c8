/-
  The requests of the RPC interface, read from JSON.
-/
import GoI2pBt.Lib.Json
import GoI2pBt.Rpc.BandwidthScheduler

namespace GoI2pBt.Rpc

open Json

def int64ID.into : Into Int64 := fun v x => (int64.into v x.toInt).map Int64.ofInt

def float64.into (F : Float64) : Into Unit
  | .null, x => some x
  | .num literal, _ => (F.reformat literal).map fun _ => ()
  | _, _ => none

def idsField {α : Type} (get : α → List Int64) (set : α → List Int64 → α) : Json.Field α :=
  field "ids" (fun x => some (get x)) (fun x ids => set x (ids.getD []))
    (slice.into int64ID.into 0)

structure TorrentMagnetRequest where
  IDs : List Int64

def TorrentMagnetRequest.into : Into TorrentMagnetRequest := struct.into
  [idsField TorrentMagnetRequest.IDs fun _ ids => ⟨ids⟩]

structure TorrentWebSeedAddRequest where
  IDs : List Int64
  URL : Bytes
  seedType : Bytes

def TorrentWebSeedAddRequest.into : Into TorrentWebSeedAddRequest := struct.into
  [idsField TorrentWebSeedAddRequest.IDs fun req ids => { req with IDs := ids },
   field "url" TorrentWebSeedAddRequest.URL (fun req s => { req with URL := s }) str.into,
   field "type" TorrentWebSeedAddRequest.seedType (fun req s => { req with seedType := s }) str.into]

structure TorrentWebSeedRemoveRequest where
  IDs : List Int64
  URL : Bytes

def TorrentWebSeedRemoveRequest.into : Into TorrentWebSeedRemoveRequest := struct.into
  [idsField TorrentWebSeedRemoveRequest.IDs fun req ids => { req with IDs := ids },
   field "url" TorrentWebSeedRemoveRequest.URL (fun req s => { req with URL := s }) str.into]

structure TorrentWebSeedGetRequest where
  IDs : List Int64

def TorrentWebSeedGetRequest.into : Into TorrentWebSeedGetRequest := struct.into
  [idsField TorrentWebSeedGetRequest.IDs fun _ ids => ⟨ids⟩]

def BandwidthScheduleRule.zero : BandwidthScheduleRule := ⟨[], [], [], [], 0, 0, 0, false⟩

open BandwidthScheduleRule in
def BandwidthScheduleRule.into : Into BandwidthScheduleRule := struct.into
  [field "name" Name (fun rule s => { rule with Name := s }) str.into,
   field "days_of_week" (fun rule => some rule.DaysOfWeek)
     (fun rule days => { rule with DaysOfWeek := days.getD [] }) (slice.into int64.into 0),
   field "start_time" StartTime (fun rule s => { rule with StartTime := s }) str.into,
   field "end_time" EndTime (fun rule s => { rule with EndTime := s }) str.into,
   field "download_limit" DownloadLimit (fun rule n => { rule with DownloadLimit := n }) int64.into,
   field "upload_limit" UploadLimit (fun rule n => { rule with UploadLimit := n }) int64.into,
   field "priority" Priority (fun rule n => { rule with Priority := n }) int64.into,
   field "enabled" Enabled (fun rule b => { rule with Enabled := b }) bool.into]

def ruleInto : Into (Option BandwidthScheduleRule) :=
  pointer.into BandwidthScheduleRule.into BandwidthScheduleRule.zero

structure BandwidthScheduleSetRequest where
  Enabled : Option Bool
  Rules : Option (List (Option BandwidthScheduleRule))

open BandwidthScheduleSetRequest in
def BandwidthScheduleSetRequest.into : Into BandwidthScheduleSetRequest := struct.into
  [field "enabled" Enabled (fun req b => { req with Enabled := b }) (pointer.into bool.into false),
   field "rules" Rules (fun req rules => { req with Rules := rules }) (slice.into ruleInto none)]

structure BandwidthScheduleRuleRequest where
  Rule : Option BandwidthScheduleRule

def BandwidthScheduleRuleRequest.into : Into BandwidthScheduleRuleRequest := struct.into
  [field "rule" BandwidthScheduleRuleRequest.Rule (fun _ rule => ⟨rule⟩) ruleInto]

structure BandwidthScheduleRuleRemoveRequest where
  Name : Bytes

def BandwidthScheduleRuleRemoveRequest.into : Into BandwidthScheduleRuleRemoveRequest := struct.into
  [field "name" BandwidthScheduleRuleRemoveRequest.Name (fun _ name => ⟨name⟩) str.into]

structure TorrentGetRequest where
  Fields : List Bytes
  IDs : List Json

def TorrentGetRequest.into (F : Float64) : Into TorrentGetRequest := struct.into
  [field "fields" (fun req => some req.Fields) (fun req fs => { req with Fields := fs.getD [] })
     (slice.into str.into []),
   field "ids" (fun req => some req.IDs) (fun req ids => { req with IDs := ids.getD [] })
     (slice.into (any.into F) .null),
   unused "format" [] str.into]

structure TorrentActionRequest where
  IDs : List Json

def unusedInts {α : Type} (name : String) : Json.Field α :=
  unused name none (slice.into int64.into 0)

def TorrentActionRequest.into (F : Float64) : Into TorrentActionRequest := struct.into
    [field "ids" (fun req => some req.IDs) (fun _ ids => ⟨ids.getD []⟩)
       (slice.into (any.into F) .null),
     unused "delete-local-data" false bool.into, unused "move-to-trash" false bool.into,
     unused "force-reannounce" false bool.into, unused "queue-position" 0 int64.into,
     unused "bandwidthPriority" 0 int64.into, unusedInts "files-wanted", unusedInts "files-unwanted",
     unusedInts "priority-high", unusedInts "priority-low", unusedInts "priority-normal",
     unused "location" [] str.into, unused "move" false bool.into,
     unused "honorsSessionLimits" false bool.into, unused "labels" none (slice.into str.into []),
     unused "peer-limit" 0 int64.into, unused "seedIdleLimit" 0 int64.into,
     unused "seedIdleMode" 0 int64.into, unused "seedRatioLimit" () (float64.into F),
     unused "seedRatioMode" 0 int64.into, unused "trackerAdd" none (slice.into str.into []),
     unusedInts "trackerRemove", unused "trackerReplace" none (slice.into (any.into F) .null)]

def TorrentAddRequest.into : Into TorrentAddRequest := struct.into
  [unused "cookies" [] str.into,
   field "download-dir" TorrentAddRequest.DownloadDir (fun req s => { req with DownloadDir := s })
     str.into,
   field "filename" TorrentAddRequest.Filename (fun req s => { req with Filename := s }) str.into,
   field "labels" (fun req => some req.Labels) (fun req l => { req with Labels := l.getD [] })
     (slice.into str.into []),
   field "metainfo" TorrentAddRequest.Metainfo (fun req s => { req with Metainfo := s }) str.into,
   field "paused" TorrentAddRequest.Paused (fun req b => { req with Paused := b }) bool.into,
   unused "peer-limit" 0 int64.into, unused "bandwidthPriority" 0 int64.into,
   unusedInts "files-wanted", unusedInts "files-unwanted", unusedInts "priority-high",
   unusedInts "priority-low", unusedInts "priority-normal"]

end GoI2pBt.Rpc
