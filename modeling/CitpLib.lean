import CitpLib.Wire.ByteOrder
import CitpLib.Wire.Buffer
import CitpLib.Wire.Reader
import CitpLib.Stream.Consumer
import CitpLib.Stream.Run
import CitpLib.Stream.Frames
import CitpLib.Stream.Handler
import CitpLib.Stream.Broadcast
import CitpLib.Table.Registry
import CitpLib.Table.Log
import CitpLib.Model.QtString
import CitpLib.Model.CitpDefines
import CitpLib.Model.PacketCreator
import CitpLib.Model.Peer
import CitpLib.Model.PeerInformationSocket
import CitpLib.Model.Visualizer
import CitpLib.Model.Session
import CitpLib.Model.FixtureModel
import CitpLib.Model.CitpLib
import CitpLib.Model.Program
import CitpLib.Theorems.WireFormat
import CitpLib.Theorems.ListSafety
import CitpLib.Theorems.MessageSize
import CitpLib.Theorems.Framing
import CitpLib.Theorems.Resynchronisation
import CitpLib.Theorems.Delivery
import CitpLib.Theorems.Parsing
import CitpLib.Theorems.Grammar
import CitpLib.Theorems.Bounds
import CitpLib.Theorems.RoundTrip
import CitpLib.Theorems.Layout
import CitpLib.Theorems.Latin1
import CitpLib.Theorems.PatchRoundTrip
import CitpLib.Theorems.Discovery
import CitpLib.Theorems.Announcement
import CitpLib.Theorems.PeerTable
import CitpLib.Theorems.ConnectionStrings
import CitpLib.Theorems.Injectivity
import CitpLib.Theorems.FixtureTable
import CitpLib.Theorems.HostOrder
import CitpLib.Theorems.AllOrListed
import CitpLib.Theorems.Announcer
import CitpLib.Theorems.Receiver
import CitpLib.Theorems.Calls
import CitpLib.Theorems.Session
import CitpLib.Theorems.FixtureView
import CitpLib.Theorems.Heard
import CitpLib.Theorems.Library
import CitpLib.Theorems.Network
import CitpLib.Theorems.Program
