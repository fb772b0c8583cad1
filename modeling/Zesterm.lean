import Zesterm.Core.TakeBackTheorems
import Zesterm.Core.KittyTheorems
import Zesterm.Core.RoundTripTheorems
import Zesterm.Core.NumberingTheorems
import Zesterm.Core.ReaderTheorems
import Zesterm.Proto.DecodeTheorems
import Zesterm.Proto.HealTheorems
import Zesterm.Mesh.RosterTheorems
import Zesterm.Mesh.TrustTheorems
import Zesterm.Daemon.BlockStoreTheorems
import Zesterm.Daemon.CaughtUpTheorems
import Zesterm.Daemon.ApprovalTheorems
import Zesterm.Daemon.GateTheorems
import Zesterm.Daemon.VerdictTheorems
import Zesterm.Core.HeightTheorems
import Zesterm.Core.OriginTheorems
import Zesterm.Core.RestateTheorems
import Zesterm.Proto.SurviveTheorems
import Zesterm.Daemon.Sealing
import Zesterm.Daemon.FilesTheorems
import Zesterm.Config.LocalTheorems
import Zesterm.Proto.WebViewTheorems
import Zesterm.Cloud.UsersTheorems
import Zesterm.Cloud.VoucherTheorems
import Zesterm.Cloud.TokenTheorems
import Zesterm.Cloud.EnrolTheorems
import Zesterm.Fleet.MatchesTheorems
import Zesterm.Mcp.Run
import Zesterm.Input.KeyTheorems
import Zesterm.Daemon.RevocationTheorems
import Zesterm.Mesh.WebAuthTheorems
import Zesterm.Mcp.SubscribedTheorems
import Zesterm.Daemon.IdTheorems
import Zesterm.Mesh.WebTurnsTheorems
import Zesterm.Daemon.PulseTheorems
import Zesterm.Daemon.DeferralTheorems
import Zesterm.Cloud.HttpTheorems
import Zesterm.Config.CascadeTheorems
import Zesterm.Proto.PredictTheorems
import Zesterm.App.TabsTheorems
import Zesterm.Proto.MsgpackTheorems
import Zesterm.Daemon.CommandLine
import Zesterm.Proto.BlocksViewTheorems
import Zesterm.Daemon.HelloTheorems
import Zesterm.Mcp.KeysTheorems
import Zesterm.Cloud.Routes
import Zesterm.Daemon.LanTheorems
import Zesterm.Daemon.GitcmdTheorems
