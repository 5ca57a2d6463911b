import HotspotBackup.Document
import HotspotBackup.Main
import HotspotBackup.Proofs.Acceptance
import HotspotBackup.Proofs.AddressForms
import HotspotBackup.Proofs.CarriedSettings
import HotspotBackup.Proofs.ChannelEntries
import HotspotBackup.Proofs.Consumption
import HotspotBackup.Proofs.Counts
import HotspotBackup.Proofs.DeviceSettings
import HotspotBackup.Proofs.DocumentLayouts
import HotspotBackup.Proofs.EditHistories
import HotspotBackup.Proofs.HexPayloads
import HotspotBackup.Proofs.JsonGrammar
import HotspotBackup.Proofs.LayoutGrowth
import HotspotBackup.Proofs.LegacyRecords
import HotspotBackup.Proofs.LegacyTranslation
import HotspotBackup.Proofs.Lookups
import HotspotBackup.Proofs.Migration
import HotspotBackup.Proofs.Pipeline
import HotspotBackup.Proofs.PrefixFree
import HotspotBackup.Proofs.QuietRuns
import HotspotBackup.Proofs.RuleOrder
import HotspotBackup.Proofs.SavedSettings
import HotspotBackup.Proofs.Sessions
import HotspotBackup.Proofs.Stages
import HotspotBackup.Proofs.WirePrograms
import HotspotBackup.Session
import HotspotBackup.Text.Hex
import HotspotBackup.Wire.Program
