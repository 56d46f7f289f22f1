import CitpLib.Wire.Buffer
import CitpLib.Model.CitpDefines
import CitpLib.Model.QtString

/-!
# The packet creators

Each creator computes the packet size, allocates and zeroes a buffer of that
size, assigns the header fields through the packed structure, in the byte
order of the host, and copies the variable-length data behind it. The result
keeps the stores with their offsets, so that one outside the buffer shows.

The allocation does not fail: a creator always returns a buffer. Sizes are
naturals; the source computes them as `int`, where they agree below `2 ^ 31`.

## Main definitions

* `createPLocPacket` and its siblings — one function per creator
* `Request` — a call of one of the public creators with its arguments
-/

namespace CitpLib

open Wire

/-- The stores of the base layer header that every creator makes. -/
def storeCitpHeader (order : ByteOrder) (contentType : ℕ) (buffer : Buffer UInt8) :
    Buffer UInt8 :=
  buffer
    |>.storeField order 4 CitpHeader.cookie cookieCitp
    |>.storeField order 1 CitpHeader.versionMajor 0x01
    |>.storeField order 1 CitpHeader.versionMinor 0x00
    |>.storeField order 1 CitpHeader.reserved 0x00
    |>.storeField order 1 (CitpHeader.reserved + 1) 0x00
    |>.storeField order 4 CitpHeader.messageSize buffer.len
    |>.storeField order 2 CitpHeader.messagePartCount 0x01
    |>.storeField order 2 CitpHeader.messagePart 0x01
    |>.storeField order 4 CitpHeader.contentType contentType

/-- `new unsigned char[bufferLen]`, zeroed, with the base layer header. -/
def allocPacket (order : ByteOrder) (bufferLen contentType : ℕ) : Buffer UInt8 :=
  storeCitpHeader order contentType (.alloc bufferLen 0)

/-! ## Peer information -/

/-- The types of peers that can be announced. -/
inductive PLocType
  | lightingConsole
  | mediaServer
  | visualizer
  | operationHub
  deriving DecidableEq, Repr

/-- The type string of a peer location message. -/
def PLocType.typeString : PLocType → QString
  | lightingConsole => .ofLiteral "LightingConsole"
  | mediaServer => .ofLiteral "MediaServer"
  | visualizer => .ofLiteral "Visualizer"
  | operationHub => .ofLiteral "OperationHub"

/-- An announcement: no port to listen on, and three strings. -/
def createPLocPacket (order : ByteOrder) (plocType : PLocType) (name state : QString) :
    Buffer UInt8 :=
  let typeString := plocType.typeString
  let bufferLen :=
    CitpPinfPLoc.sizeof + typeString.length + 1 + name.length + 1 + state.length + 1
  let typeOffset := CitpPinfPLoc.sizeof
  let nameOffset := typeOffset + (typeString.length + 1)
  let stateOffset := nameOffset + (name.length + 1)
  allocPacket order bufferLen cookiePinf
    |>.storeField order 4 CitpPinfHeader.contentType cookiePinfPLoc
    |>.storeField order 2 CitpPinfPLoc.listeningTcpPort 0x00
    |>.memcpy typeOffset typeString.toAscii typeString.length
    |>.memcpy nameOffset name.toAscii name.length
    |>.memcpy stateOffset state.toAscii state.length

/-! ## DMX data -/

/-- The name of a universe. -/
def createUNamPacket (order : ByteOrder) (universeIndex : UInt8) (name : QString) :
    Buffer UInt8 :=
  let bufferLen := CitpSdmxUNam.sizeof + name.length + 1
  allocPacket order bufferLen cookieSdmx
    |>.storeField order 4 CitpSdmxHeader.contentType cookieSdmxUNam
    |>.storeField order 1 CitpSdmxUNam.universeIndex universeIndex.toNat
    |>.memcpy CitpSdmxUNam.sizeof name.toAscii name.length

/-- The caller passes as many channel levels as it announces. -/
def createChBkPacket (order : ByteOrder) (blind : Bool) (universeIndex : UInt8)
    (firstChannelIndex channelCount : UInt16)
    (channelLevels : Vector UInt8 channelCount.toNat) : Buffer UInt8 :=
  let bufferLen := CitpSdmxChBk.sizeof + channelCount.toNat
  allocPacket order bufferLen cookieSdmx
    |>.storeField order 4 CitpSdmxHeader.contentType cookieSdmxChBk
    |>.storeField order 1 CitpSdmxChBk.blind (if blind then 0x01 else 0x00)
    |>.storeField order 1 CitpSdmxChBk.universeIndex universeIndex.toNat
    |>.storeField order 2 CitpSdmxChBk.firstChannel firstChannelIndex.toNat
    |>.storeField order 2 CitpSdmxChBk.channelCount channelCount.toNat
    |>.memcpy CitpSdmxChBk.sizeof channelLevels.toList channelCount.toNat

/-- An alternate source of DMX data, given by its connection string. -/
def createSXSrPacket (order : ByteOrder) (str : QString) : Buffer UInt8 :=
  let bufferLen := CitpSdmxSXSr.sizeof + str.length + 1
  allocPacket order bufferLen cookieSdmx
    |>.storeField order 4 CitpSdmxHeader.contentType cookieSdmxSXSr
    |>.memcpy CitpSdmxSXSr.sizeof str.toAscii str.length

/-! The connection strings pass through `tr`, which returns its argument when
no translation is installed. -/

/-- A network, a universe and a channel of Art-Net. -/
def artnetString : QString := .ofLiteral "ArtNet/%1/%2/%3"

/-- A network, a universe and a channel of Avab IPX. -/
def avabString : QString := .ofLiteral "AvabIPX/%1/%2/%3"

/-- A universe and a channel of BSR E1.31. -/
def e131String : QString := .ofLiteral "BSRE1.31/%1/%2"

/-- A channel of ETC Net2. -/
def etcnet2String : QString := .ofLiteral "ETCNet2/%1"

/-- A source on Art-Net. -/
def createSXSrPacket_ArtNet (order : ByteOrder) (network universeNo channel : ℤ) :
    Buffer UInt8 :=
  createSXSrPacket order (((artnetString.arg network).arg universeNo).arg channel)

/-- A source on Avab IPX. -/
def createSXSrPacket_Avab (order : ByteOrder) (network universeNo channel : ℤ) :
    Buffer UInt8 :=
  createSXSrPacket order (((avabString.arg network).arg universeNo).arg channel)

/-- A source on BSR E1.31. -/
def createSXSrPacket_E131 (order : ByteOrder) (universeNo channel : ℤ) : Buffer UInt8 :=
  createSXSrPacket order ((e131String.arg universeNo).arg channel)

/-- A source on ETC Net2. -/
def createSXSrPacket_ETCNet2 (order : ByteOrder) (channel : ℤ) : Buffer UInt8 :=
  createSXSrPacket order (etcnet2String.arg channel)

/-! ## Fixture patch -/

/-- The strings are copied from the code units of the `QString`s, not from an
8-bit conversion, and the make is left out when it is empty. -/
def createPtchPacket (order : ByteOrder) (fixtureIdentifier : UInt16) (universeIndex : UInt8)
    (channelIndex channelCount : UInt16) (fixtureMake fixtureName : QString) : Buffer UInt8 :=
  let makeSize := if fixtureMake.isEmpty then 0 else fixtureMake.length + 1
  let stringSize := makeSize + (fixtureName.length + 1)
  let bufferLen := CitpFptcPtch.sizeof + stringSize
  let buffer := allocPacket order bufferLen cookieFptc
    |>.storeField order 4 CitpFptcHeader.contentType cookieFptcPtch
    |>.storeField order 4 CitpFptcHeader.contentHint 0x00
    |>.storeField order 2 CitpFptcPtch.fixtureIdentifier fixtureIdentifier.toNat
    |>.storeField order 1 CitpFptcPtch.patchUniverse universeIndex.toNat
    |>.storeField order 2 CitpFptcPtch.channel channelIndex.toNat
    |>.storeField order 2 CitpFptcPtch.channelCount channelCount.toNat
  let offset := CitpFptcPtch.sizeof
  -- as many bytes as characters, out of two bytes for each
  if fixtureMake.isEmpty then
    buffer.memcpy offset (fixtureName.constData order) fixtureName.length
  else
    buffer
      |>.memcpy offset (fixtureMake.constData order) fixtureMake.length
      |>.memcpy (offset + (fixtureMake.length + 1)) (fixtureName.constData order)
        fixtureName.length

/-! ## Identifier lists -/

/-- The loop over the identifiers: two bytes each, low byte first. -/
def storeIdentifiers : ℕ → List UInt16 → Buffer UInt8 → Buffer UInt8
  | _, [], buffer => buffer
  | offset, fixId :: fixtureIdentifiers, buffer =>
    storeIdentifiers (offset + 2) fixtureIdentifiers <| buffer
      |>.store offset [(fixId &&& 0xFF).toUInt8]
      |>.store (offset + 1) [((fixId >>> 8) &&& 0xFF).toUInt8]

/-- The number of identifiers as the 16-bit count of the packet. -/
def fixtureCount (fixtureIdentifiers : List UInt16) : UInt16 :=
  UInt16.ofNat fixtureIdentifiers.length

/-- The two messages of the patch layer that list identifiers differ in their
cookie only. -/
def createPatchListPacket (order : ByteOrder) (contentType sizeof countOffset : ℕ)
    (fixtureIdentifiers : List UInt16) : Buffer UInt8 :=
  -- the size follows the 16-bit count, the loop the list
  let fixtureCount := fixtureCount fixtureIdentifiers
  let bufferLen := sizeof + fixtureCount.toNat * 2
  allocPacket order bufferLen cookieFptc
    |>.storeField order 4 CitpFptcHeader.contentType contentType
    |>.storeField order 4 CitpFptcHeader.contentHint 0x00000000
    |>.storeField order 2 countOffset fixtureCount.toNat
    |> storeIdentifiers sizeof fixtureIdentifiers

/-- A request to send the patch of these fixtures. -/
def createSPtcPacket (order : ByteOrder) (fixtureIdentifiers : List UInt16) : Buffer UInt8 :=
  createPatchListPacket order cookieFptcSPtc CitpFptcSPtc.sizeof CitpFptcSPtc.fixtureCount
    fixtureIdentifiers

/-- The message that these fixtures are unpatched. -/
def createUPtcPacket (order : ByteOrder) (fixtureIdentifiers : List UInt16) : Buffer UInt8 :=
  createPatchListPacket order cookieFptcUPtc CitpFptcUPtc.sizeof CitpFptcUPtc.fixtureCount
    fixtureIdentifiers

/-- A selection of fixtures, complete or not. -/
def createSelePacket (order : ByteOrder) (fixtureIdentifiers : List UInt16) (complete : Bool) :
    Buffer UInt8 :=
  let fixtureCount := fixtureCount fixtureIdentifiers
  let bufferLen := CitpFselSele.sizeof + fixtureCount.toNat * 2
  allocPacket order bufferLen cookieFsel
    |>.storeField order 4 CitpFselHeader.contentType cookieFselSele
    |>.storeField order 1 CitpFselSele.complete (if complete then 0xFF else 0x00)
    |>.storeField order 2 CitpFselSele.fixtureCount fixtureCount.toNat
    |> storeIdentifiers CitpFselSele.sizeof fixtureIdentifiers

/-- The message that these fixtures are deselected. -/
def createDeSePacket (order : ByteOrder) (fixtureIdentifiers : List UInt16) : Buffer UInt8 :=
  let fixtureCount := fixtureCount fixtureIdentifiers
  let bufferLen := CitpFselDeSe.sizeof + fixtureCount.toNat * 2
  allocPacket order bufferLen cookieFsel
    |>.storeField order 4 CitpFselHeader.contentType cookieFselDeSe
    |>.storeField order 2 CitpFselDeSe.fixtureCount fixtureCount.toNat
    |> storeIdentifiers CitpFselDeSe.sizeof fixtureIdentifiers

/-! ## Requests -/

/-- A call of one of the public creators. -/
inductive Request
  | pLoc (plocType : PLocType) (name state : QString)
  | uNam (universeIndex : UInt8) (name : QString)
  | chBk (blind : Bool) (universeIndex : UInt8) (firstChannelIndex channelCount : UInt16)
      (channelLevels : Vector UInt8 channelCount.toNat)
  | sXSrArtNet (network universeNo channel : ℤ)
  | sXSrAvab (network universeNo channel : ℤ)
  | sXSrE131 (universeNo channel : ℤ)
  | sXSrETCNet2 (channel : ℤ)
  | ptch (fixtureIdentifier : UInt16) (universeIndex : UInt8)
      (channelIndex channelCount : UInt16) (fixtureMake fixtureName : QString)
  | sPtc (fixtureIdentifiers : List UInt16)
  | uPtc (fixtureIdentifiers : List UInt16)
  | sele (fixtureIdentifiers : List UInt16) (complete : Bool)
  | deSe (fixtureIdentifiers : List UInt16)

/-- The buffer that the call returns. -/
def Request.create (order : ByteOrder) : Request → Buffer UInt8
  | pLoc plocType name state => createPLocPacket order plocType name state
  | uNam universeIndex name => createUNamPacket order universeIndex name
  | chBk blind universeIndex firstChannelIndex channelCount channelLevels =>
    createChBkPacket order blind universeIndex firstChannelIndex channelCount channelLevels
  | sXSrArtNet network universeNo channel =>
    createSXSrPacket_ArtNet order network universeNo channel
  | sXSrAvab network universeNo channel => createSXSrPacket_Avab order network universeNo channel
  | sXSrE131 universeNo channel => createSXSrPacket_E131 order universeNo channel
  | sXSrETCNet2 channel => createSXSrPacket_ETCNet2 order channel
  | ptch fixtureIdentifier universeIndex channelIndex channelCount fixtureMake fixtureName =>
    createPtchPacket order fixtureIdentifier universeIndex channelIndex channelCount
      fixtureMake fixtureName
  | sPtc fixtureIdentifiers => createSPtcPacket order fixtureIdentifiers
  | uPtc fixtureIdentifiers => createUPtcPacket order fixtureIdentifiers
  | sele fixtureIdentifiers complete => createSelePacket order fixtureIdentifiers complete
  | deSe fixtureIdentifiers => createDeSePacket order fixtureIdentifiers

end CitpLib
