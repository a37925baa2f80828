import SudoWhat.Lib.Utf8
import SudoWhat.Lib.Resync
import SudoWhat.Lib.Decode
import SudoWhat.Lib.CMemory
import SudoWhat.Lib.ShellWords
import SudoWhat.Lib.Fields
import SudoWhat.Lib.Lines
import SudoWhat.Lib.PamChain
import SudoWhat.Lib.Runs
import SudoWhat.Lib.Rollback
import SudoWhat.Lib.Founded
import SudoWhat.Lib.Tickets
import SudoWhat.Lib.UnixFiles
import SudoWhat.EscapeCore.Escape
import SudoWhat.EscapeCore.CommandLine
import SudoWhat.Shared
import SudoWhat.Plugin.SudoLocal
import SudoWhat.Nix.SudoLocalText
import SudoWhat.Nix.EscapeUntrusted
import SudoWhat.Nix.PinPlan
import SudoWhat.Nix.DeploySettles
import SudoWhat.Pam.SudoConf
import SudoWhat.Pam.SudoReader
import SudoWhat.Pam.Authenticate
import SudoWhat.Pam.Stack
import SudoWhat.Pam.ModuleChain
import SudoWhat.Lib.Traced
import SudoWhat.Lib.Monitor
import SudoWhat.Lib.Related
import SudoWhat.Lib.Fueled
import SudoWhat.EscapeCore.Colour
import SudoWhat.Lib.Slices
import SudoWhat.Lib.Substitute
import SudoWhat.EscapeCore.Indexed
import SudoWhat.EscapeCore.Variants
import SudoWhat.EscapeCore.Attribution
import SudoWhat.EscapeCore.Ffi
import SudoWhat.Plugin.Effects
import SudoWhat.Plugin.Display
import SudoWhat.Plugin.PromptFormatter
import SudoWhat.Plugin.Confirm
import SudoWhat.Plugin.Ceremony
import SudoWhat.Plugin.Check
import SudoWhat.Plugin.CheckGate
import SudoWhat.Plugin.SheetAnswer
import SudoWhat.Plugin.Discipline
import SudoWhat.Plugin.VerifyCode
import SudoWhat.Plugin.DisplayOptions
import SudoWhat.Plugin.Liveness
import SudoWhat.Plugin.Marker
import SudoWhat.Sudo.Invocation
import SudoWhat.Sudo.NonConsoleOption
import SudoWhat.Sudo.Cache
import SudoWhat.Sudo.ConsoleRuns
import SudoWhat.Sudo.WaivedRuns
import SudoWhat.Sudo.Switching
import SudoWhat.Plugin.Open
import SudoWhat.Plugin.RootUid
import SudoWhat.Plugin.PathError
import SudoWhat.Plugin.PinnedTarget
import SudoWhat.Audit.Rows
import SudoWhat.Linux.Open
import SudoWhat.Linux.Install
import SudoWhat.Install.SudoConf
import SudoWhat.Install.Registered
import SudoWhat.Install.Rollback
import SudoWhat.Install.Usable
import SudoWhat.Install.Uninstall
import SudoWhat.Twins
import SudoWhat.Referral
import SudoWhat.WriteLoops
import SudoWhat.Segments
import SudoWhat.RenderCalls
import SudoWhat.SudoArrays
import SudoWhat.OpenCalls
import SudoWhat.Plugin.Session
