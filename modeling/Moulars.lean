import Moulars.Hashes.Sha0
import Moulars.Plasma.PakFile
import Moulars.Plasma.NetSafety
import Moulars.Sdl.Layout
import Moulars.Sdl.Grammar
import Moulars.Sdl.String32
import Moulars.Sdl.CountLimits
import Moulars.Sdl.Records
import Moulars.Sdl.Assertions
import Moulars.Vault.Views
import Moulars.Auth.AgeInstances
import Moulars.Auth.ReadLoop
import Moulars.FileSrv.FailedUpdate
import Moulars.FileSrv.SourcePath
import Moulars.FileSrv.RealData
import Moulars.FileSrv.Rewritten
import Moulars.Auth.Spellings
import Moulars.FileSrv.Downloads
import Moulars.FileSrv.PyScript
import Moulars.Auth.LoggedOut
import Moulars.Auth.Online
import Moulars.Auth.HelperRefs
import Moulars.Auth.OneOwner
import Moulars.Auth.Socket
import Moulars.Auth.Lockout
import Moulars.Auth.Coherence
import Moulars.GateKeeper
import Moulars.Lobby
import Moulars.FileSrv.Conversation
