import CitpLib.Model.PacketCreator
import CitpLib.Model.Peer

/-!
# Visualizers

A visualizer is a peer to which the program sends. Each of its functions creates a
packet, sends it and frees it, and returns whether it was sent.

The creators do not return `NULL`, so the branches for that are not there.

## Main definitions

* `Visualizer.sendCreated` — what the functions have in common
* `Visualizer.sendUniverseName` and its siblings — one function per packet
* `VisualizerCall` — a call of one of them with its arguments
-/

namespace CitpLib

open Wire

namespace Visualizer

variable (order : ByteOrder) (connected : Bool) (write : ℤ)

/-- Send a packet that has been created: the result and the bytes that were taken. -/
def sendCreated (buffer : Buffer UInt8) : Bool × List UInt8 :=
  let (sent, taken) := sendPacket connected write buffer
  if sent = false then (false, taken) else (true, taken)

/-- Tell the name of a universe. -/
def sendUniverseName (universeIndex : UInt8) (universeName : QString) : Bool × List UInt8 :=
  sendCreated connected write (createUNamPacket order universeIndex universeName)

/-- Send channel levels. -/
def sendChannelData (blind : Bool) (universeIndex : UInt8)
    (firstChannelIndex channelCount : UInt16)
    (channelLevels : Vector UInt8 channelCount.toNat) : Bool × List UInt8 :=
  sendCreated connected write
    (createChBkPacket order blind universeIndex firstChannelIndex channelCount channelLevels)

/-- Point to a source on Art-Net. -/
def sendAlternateSourceMessage_ArtNet (network universeNo channel : ℤ) : Bool × List UInt8 :=
  sendCreated connected write (createSXSrPacket_ArtNet order network universeNo channel)

/-- Point to a source on Avab IPX. -/
def sendAlternateSourceMessage_Avab (network universeNo channel : ℤ) : Bool × List UInt8 :=
  sendCreated connected write (createSXSrPacket_Avab order network universeNo channel)

/-- Point to a source on BSR E1.31. -/
def sendAlternateSourceMessage_E131 (universeNo channel : ℤ) : Bool × List UInt8 :=
  sendCreated connected write (createSXSrPacket_E131 order universeNo channel)

/-- Point to a source on ETC Net2. -/
def sendAlternateSourceMessage_ETCNet2 (channel : ℤ) : Bool × List UInt8 :=
  sendCreated connected write (createSXSrPacket_ETCNet2 order channel)

/-- Patch a fixture. -/
def sendPatchMessage (fixtureIdentifier : UInt16) (universeIndex : UInt8)
    (channelIndex channelCount : UInt16) (fixtureMake fixtureName : QString) :
    Bool × List UInt8 :=
  sendCreated connected write (createPtchPacket order fixtureIdentifier universeIndex
    channelIndex channelCount fixtureMake fixtureName)

/-- An empty list unpatches all fixtures. -/
def sendUnpatchMessage (fixtureIdentifiers : List UInt16) : Bool × List UInt8 :=
  sendCreated connected write (createUPtcPacket order fixtureIdentifiers)

/-- An empty list requests the entire patch. -/
def sendPatchRequest (fixtureIdentifiers : List UInt16) : Bool × List UInt8 :=
  sendCreated connected write (createSPtcPacket order fixtureIdentifiers)

/-- Select fixtures. -/
def sendSelectMessage (complete : Bool) (fixtureIdentifiers : List UInt16) :
    Bool × List UInt8 :=
  sendCreated connected write (createSelePacket order fixtureIdentifiers complete)

/-- Deselect fixtures. -/
def sendDeselectMessage (fixtureIdentifiers : List UInt16) : Bool × List UInt8 :=
  sendCreated connected write (createDeSePacket order fixtureIdentifiers)

end Visualizer

/-- A call of a function that sends, with its arguments. -/
inductive VisualizerCall
  | sendUniverseName (universeIndex : UInt8) (universeName : QString)
  | sendChannelData (blind : Bool) (universeIndex : UInt8)
      (firstChannelIndex channelCount : UInt16)
      (channelLevels : Vector UInt8 channelCount.toNat)
  | sendAlternateSourceMessage_ArtNet (network universeNo channel : ℤ)
  | sendAlternateSourceMessage_Avab (network universeNo channel : ℤ)
  | sendAlternateSourceMessage_E131 (universeNo channel : ℤ)
  | sendAlternateSourceMessage_ETCNet2 (channel : ℤ)
  | sendPatchMessage (fixtureIdentifier : UInt16) (universeIndex : UInt8)
      (channelIndex channelCount : UInt16) (fixtureMake fixtureName : QString)
  | sendUnpatchMessage (fixtureIdentifiers : List UInt16)
  | sendPatchRequest (fixtureIdentifiers : List UInt16)
  | sendSelectMessage (complete : Bool) (fixtureIdentifiers : List UInt16)
  | sendDeselectMessage (fixtureIdentifiers : List UInt16)

namespace VisualizerCall

/-- What the call does: its result, and the bytes that the socket has taken. -/
def perform (order : ByteOrder) (connected : Bool) (write : ℤ) :
    VisualizerCall → Bool × List UInt8
  | sendUniverseName universeIndex universeName =>
    Visualizer.sendUniverseName order connected write universeIndex universeName
  | sendChannelData blind universeIndex firstChannelIndex channelCount channelLevels =>
    Visualizer.sendChannelData order connected write blind universeIndex firstChannelIndex
      channelCount channelLevels
  | sendAlternateSourceMessage_ArtNet network universeNo channel =>
    Visualizer.sendAlternateSourceMessage_ArtNet order connected write network universeNo channel
  | sendAlternateSourceMessage_Avab network universeNo channel =>
    Visualizer.sendAlternateSourceMessage_Avab order connected write network universeNo channel
  | sendAlternateSourceMessage_E131 universeNo channel =>
    Visualizer.sendAlternateSourceMessage_E131 order connected write universeNo channel
  | sendAlternateSourceMessage_ETCNet2 channel =>
    Visualizer.sendAlternateSourceMessage_ETCNet2 order connected write channel
  | sendPatchMessage fixtureIdentifier universeIndex channelIndex channelCount fixtureMake
      fixtureName =>
    Visualizer.sendPatchMessage order connected write fixtureIdentifier universeIndex
      channelIndex channelCount fixtureMake fixtureName
  | sendUnpatchMessage fixtureIdentifiers =>
    Visualizer.sendUnpatchMessage order connected write fixtureIdentifiers
  | sendPatchRequest fixtureIdentifiers =>
    Visualizer.sendPatchRequest order connected write fixtureIdentifiers
  | sendSelectMessage complete fixtureIdentifiers =>
    Visualizer.sendSelectMessage order connected write complete fixtureIdentifiers
  | sendDeselectMessage fixtureIdentifiers =>
    Visualizer.sendDeselectMessage order connected write fixtureIdentifiers

/-- The call of a creator that it makes. -/
def request : VisualizerCall → Request
  | sendUniverseName universeIndex universeName => .uNam universeIndex universeName
  | sendChannelData blind universeIndex firstChannelIndex channelCount channelLevels =>
    .chBk blind universeIndex firstChannelIndex channelCount channelLevels
  | sendAlternateSourceMessage_ArtNet network universeNo channel =>
    .sXSrArtNet network universeNo channel
  | sendAlternateSourceMessage_Avab network universeNo channel =>
    .sXSrAvab network universeNo channel
  | sendAlternateSourceMessage_E131 universeNo channel => .sXSrE131 universeNo channel
  | sendAlternateSourceMessage_ETCNet2 channel => .sXSrETCNet2 channel
  | sendPatchMessage fixtureIdentifier universeIndex channelIndex channelCount fixtureMake
      fixtureName =>
    .ptch fixtureIdentifier universeIndex channelIndex channelCount fixtureMake fixtureName
  | sendUnpatchMessage fixtureIdentifiers => .uPtc fixtureIdentifiers
  | sendPatchRequest fixtureIdentifiers => .sPtc fixtureIdentifiers
  | sendSelectMessage complete fixtureIdentifiers => .sele fixtureIdentifiers complete
  | sendDeselectMessage fixtureIdentifiers => .deSe fixtureIdentifiers

end VisualizerCall

end CitpLib
