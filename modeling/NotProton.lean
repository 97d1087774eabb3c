import NotProton.Ceg.Apps
import NotProton.Ceg.ServiceCall
import NotProton.CompatRun.BundleListing
import NotProton.CompatRun.ConfTable
import NotProton.CompatRun.Environment
import NotProton.CompatRun.ForeignPrefix
import NotProton.CompatRun.GameDrive
import NotProton.CompatRun.HiddenControllers
import NotProton.CompatRun.InstallBundle
import NotProton.CompatRun.LaunchDefaults
import NotProton.CompatRun.PrefixSeed
import NotProton.CompatRun.PrefixTemplate
import NotProton.CompatRun.ProfileMerge
import NotProton.CompatRun.RegistryText
import NotProton.CompatRun.ShortcutGameId
import NotProton.CompatRun.SwitchBlame
import NotProton.CompatRun.VariantBuild
import NotProton.CompatRun.VariantNames
import NotProton.CompatSvc
import NotProton.CompatSvc.ToolsReply
import NotProton.Conf.Reader
import NotProton.Conf.Record
import NotProton.Core.FunctionBounds
import NotProton.Core.ImportStubs
import NotProton.Core.LoadCommands
import NotProton.Core.LoadedImage
import NotProton.Defaults
import NotProton.Defaults.ApplyBuild
import NotProton.Hooks.Launch
import NotProton.Hooks.Spawn
import NotProton.Library.Chain
import NotProton.Library.Cursor
import NotProton.Library.CutOff
import NotProton.Library.FolderTree
import NotProton.Library.JsLiteral
import NotProton.Library.Json
import NotProton.Library.Lists
import NotProton.Library.LittleEndian
import NotProton.Library.Numeral
import NotProton.Library.PackedText
import NotProton.Library.Scan
import NotProton.Library.SearchTree
import NotProton.Library.Shell
import NotProton.Library.ShellArith
import NotProton.Library.SlotTable
import NotProton.Library.Splice
import NotProton.Library.Text
import NotProton.Library.TextBuffer
import NotProton.Library.TreeWalk
import NotProton.Library.Uleb
import NotProton.Library.Wire
import NotProton.NtdllPatcher.Append
import NotProton.NtdllPatcher.Apply
import NotProton.NtdllPatcher.Branch
import NotProton.NtdllPatcher.Call
import NotProton.NtdllPatcher.Image
import NotProton.NtdllPatcher.Patched
import NotProton.NtdllPatcher.Reads
import NotProton.OverlayShim.Encoders
import NotProton.PrefixState
import NotProton.PrefixState.StateJson
import NotProton.PrefixStore
import NotProton.PrefixStore.Fields
import NotProton.PrefixStore.Libraries
import NotProton.PrefixStore.Lines
import NotProton.Resolver.Anchor
import NotProton.Resolver.Aob
import NotProton.Resolver.Rtti
import NotProton.Resolver.Signatures
import NotProton.Runners.CompatToolList
import NotProton.Runners.SupportedRunner
import NotProton.Runners.TemplateCleanup
import NotProton.Runners.TemplateNames
import NotProton.Runners.ToolListReader
import NotProton.Runners.ToolManifest
import NotProton.SteamBundle.Deployment
import NotProton.SteamBundle.Modifications
import NotProton.SteamBundle.Recorded
import NotProton.SteamBundle.Recovery
import NotProton.SteamFiles.AppInfo
import NotProton.SteamFiles.Shortcuts
import NotProton.SteamFiles.UpdateBlock
import NotProton.Support.MachOBuild
import NotProton.UserShortcuts
import NotProton.Util.Pe
import NotProton.Util.PeIcon
import NotProton.WebPatch.ConfTakes
import NotProton.WebPatch.Gates
import NotProton.WebPatch.Plugins
import NotProton.WebPatch.Scanner
import NotProton.WebPatch.Settings
import NotProton.WebPatch.ToolLists
import NotProton.WebPatch.Transform
import NotProton.WebUi.HandlerSlot
import NotProton.WebUi.JobClass
import NotProton.WebUi.Routes
import NotProton.WebPatch.SavedSettings
import NotProton.CompatRun.PrefixSettings
import NotProton.CompatRun.HighResolution
import NotProton.CompatRun.SavedDefaults
import NotProton.WebPatch.Applied
