import Ps3Netsrv.Session.Errors
import Ps3Netsrv.ReadCdMultiPart
import Ps3Netsrv.File.Encrypted
import Ps3Netsrv.Path.Safety
import Ps3Netsrv.Clients.Safety
import Ps3Netsrv.Clients.Whitelist
import Ps3Netsrv.Path.Redirect
import Ps3Netsrv.Dir.Bounds
import Ps3Netsrv.Dir.Merge
import Ps3Netsrv.StartUp
import Ps3Netsrv.VIsoFile.CachedRead
import Ps3Netsrv.VIsoFile.Served
import Ps3Netsrv.VIsoFile.Reopen
import Ps3Netsrv.File.Watermark
import Ps3Netsrv.File.PartErrors
import Ps3Netsrv.Session.SectorSize
import Ps3Netsrv.Path.LinkBuffer
import Ps3Netsrv.VIsoFile.Extents
import Ps3Netsrv.VIsoFile.FileLists
import Ps3Netsrv.Lib.Blocked
import Ps3Netsrv.VIsoFile.Layout
import Ps3Netsrv.VIsoFile.Lookup
import Ps3Netsrv.Lib.LevelOrder
import Ps3Netsrv.VIsoFile.BreadthFirst
import Ps3Netsrv.VIsoFile.Starts
import Ps3Netsrv.VIsoFile.PathTable
import Ps3Netsrv.File.RegionCover
import Ps3Netsrv.Path.FixedPoint
import Ps3Netsrv.VIsoFile.Fragments
import Ps3Netsrv.VIsoFile.SfoBounds
import Ps3Netsrv.VIsoFile.Utf8
import Ps3Netsrv.VIsoFile.SfoLookup
import Ps3Netsrv.Dir.SizeTree
import Ps3Netsrv.Dir.ListTree
import Ps3Netsrv.CreateIso
import Ps3Netsrv.VIsoFile.IsoCopy
import Ps3Netsrv.Dir.Entries
import Ps3Netsrv.Lib.Codec
import Ps3Netsrv.Session.Along
import Ps3Netsrv.Session.Classes
import Ps3Netsrv.Wire.Command
import Ps3Netsrv.Wire.Connection
import Ps3Netsrv.Wire.Conversation
import Ps3Netsrv.Wire.Delivery
import Ps3Netsrv.Clients.Admission
import Ps3Netsrv.Dir.Agreement
import Ps3Netsrv.Dir.MergeRules
import Ps3Netsrv.Wire.Listing
import Ps3Netsrv.Lib.Iso9660
import Ps3Netsrv.VIsoFile.Found
import Ps3Netsrv.VIsoFile.Recorded
import Ps3Netsrv.VIsoFile.Linking
