import CitpLib.Wire.Buffer
import CitpLib.Wire.Reader
import CitpLib.Stream.Handler
import CitpLib.Model.CitpDefines
import CitpLib.Model.QtString

/-!
# Peers

A peer is known from its announcement and holds the fixtures that it has
patched, once in its own list and once in the table model shown to the user.
What arrives on its TCP socket is framed by `handleReadyRead` and each message
is handed to `parsePacket`, which emits signals and appends fixtures.

`parsePacket` casts the message to packed structures and never looks at its
length: it is a `Wire.Reader`, whose reads may fall outside. The socket is a
first-in first-out byte queue, and the framing loop is a
`Streaming.Consumer` of its content.

## Main definitions

* `Fixture`, `FixtureModel`, `Peer`, `Signal` — the state and what is emitted
* `parsePacket` and the functions it dispatches to
* `readyReadStep` — one iteration of the framing loop
* `handleReadyRead` — the loop
* `Peer.handleReadyRead`, `Peer.readyRead` — the loop with the parsing in it
* `Peer.connectToPeer`, `sendPacket` — the other direction
-/

namespace CitpLib

open Wire

/-! ## Fixtures and peers -/

/-- A fixture as it is patched: its identifier, its address and its type. -/
structure Fixture where
  fixtureIdentifier : UInt16
  patchUniverse : UInt8
  channel : UInt16
  channelCount : UInt16
  fixtureMake : QString
  fixtureName : QString
  deriving DecidableEq, Repr

/-- The table model over the fixtures of a peer. -/
structure FixtureModel where
  fixtureList : List Fixture
  deriving DecidableEq, Repr

/-- Append a row for a fixture. -/
def FixtureModel.addFixture (model : FixtureModel) (fix : Fixture) : FixtureModel :=
  { model with fixtureList := model.fixtureList ++ [fix] }

/-- The rows of the table. -/
def FixtureModel.rowCount (model : FixtureModel) : ℕ := model.fixtureList.length

/-- What kind of program a peer is, as far as the library knows. -/
inductive PeerType
  | unknownPeer
  | visualizerPeer
  | mediaserverPeer
  | lightingconsolePeer
  | operationshubPeer
  deriving DecidableEq, Repr

/-- A peer, over the type of host addresses. -/
structure Peer (Host : Type) where
  peerType : PeerType
  peerState : QString
  peerName : QString
  host : Host
  listeningPort : UInt16
  fixtureModel : FixtureModel
  fixtureList : List Fixture
  deriving DecidableEq

/-- The constructor of `Peer`: nothing is patched yet. -/
def Peer.new {Host : Type} (host : Host) (listeningPort : UInt16)
    (peerName peerState : QString) : Peer Host where
  peerType := .unknownPeer
  peerState := peerState
  peerName := peerName
  host := host
  listeningPort := listeningPort
  fixtureModel := ⟨[]⟩
  fixtureList := []

/-- The signals a peer emits while it parses a message. -/
inductive Signal
  | unpatchAllFixtures
  | unpatchFixtures (fixtureIdentifiers : List UInt16)
  | sendPatchAllFixtures
  | sendPatchFixtures (fixtureIdentifiers : List UInt16)
  | selectFixtures (complete : Bool) (fixtureIdentifiers : List UInt16)
  | deselectFixtures (fixtureIdentifiers : List UInt16)
  | deselectAllFixtures
  | updatedFixtureList
  deriving DecidableEq, Repr

/-! ## Parsing a message -/

section Parsing

variable {Host : Type}

/-- The loop that casts two bytes at a time to an identifier. -/
def readIdentifiers (order : ByteOrder) : ℕ → ℕ → Reader (List UInt16)
  | 0, _ => pure []
  | n + 1, offset => do
    let fixId ← Reader.field order 2 offset
    let fixtureIdentifiers ← readIdentifiers order n (offset + 2)
    return UInt16.ofNat fixId :: fixtureIdentifiers

/-- Unpatch and send-patch messages are parsed alike: without identifiers they
concern all fixtures. -/
def parsePatchListPacket (order : ByteOrder) (countOffset sizeof : ℕ) (all : Signal)
    (listed : List UInt16 → Signal) (peer : Peer Host) : Reader (Peer Host × List Signal) := do
  let fixtureCount ← Reader.field order 2 countOffset
  if fixtureCount = 0 then
    return (peer, [all])
  else
    -- the count is not compared with the size of the message
    let fixtureIdentifiers ← readIdentifiers order fixtureCount sizeof
    return (peer, [listed fixtureIdentifiers])

/-- Fixtures are to be unpatched. -/
def parseUPTCPacket (order : ByteOrder) (peer : Peer Host) : Reader (Peer Host × List Signal) :=
  parsePatchListPacket order CitpFptcUPtc.fixtureCount CitpFptcUPtc.sizeof
    .unpatchAllFixtures .unpatchFixtures peer

/-- The patch of fixtures is to be sent. -/
def parseSPTCPacket (order : ByteOrder) (peer : Peer Host) : Reader (Peer Host × List Signal) :=
  parsePatchListPacket order CitpFptcSPtc.fixtureCount CitpFptcSPtc.sizeof
    .sendPatchAllFixtures .sendPatchFixtures peer

/-- The name starts behind the terminator of the make. -/
def parsePTCHPacket (order : ByteOrder) (peer : Peer Host) :
    Reader (Peer Host × List Signal) := do
  let fixId ← Reader.field order 2 CitpFptcPtch.fixtureIdentifier
  let patchUniverse ← Reader.field order 1 CitpFptcPtch.patchUniverse
  let channel ← Reader.field order 2 CitpFptcPtch.channel
  let channelCount ← Reader.field order 2 CitpFptcPtch.channelCount
  let makeChars ← Reader.cstring CitpFptcPtch.sizeof
  let makeString := QString.ofChars makeChars
  let nameChars ← Reader.cstring (CitpFptcPtch.sizeof + (makeString.length + 1))
  let nameString := QString.ofChars nameChars
  let fix : Fixture :=
    { fixtureIdentifier := UInt16.ofNat fixId
      patchUniverse := UInt8.ofNat patchUniverse
      channel := UInt16.ofNat channel
      channelCount := UInt16.ofNat channelCount
      fixtureMake := makeString
      fixtureName := nameString }
  return ({ peer with
      fixtureList := peer.fixtureList ++ [fix]
      fixtureModel := peer.fixtureModel.addFixture fix }, [.updatedFixtureList])

/-- The layer for fixture patches. -/
def parseFPTCPacket (order : ByteOrder) (peer : Peer Host) :
    Reader (Peer Host × List Signal) := do
  let contentType ← Reader.field order 4 CitpFptcHeader.contentType
  if contentType = cookieFptcPtch then
    parsePTCHPacket order peer
  else if contentType = cookieFptcUPtc then
    parseUPTCPacket order peer
  else if contentType = cookieFptcSPtc then
    parseSPTCPacket order peer
  else
    return (peer, [])

/-- Fixtures are to be selected. A count of zero has no branch of its own. -/
def parseSELEPacket (order : ByteOrder) (peer : Peer Host) :
    Reader (Peer Host × List Signal) := do
  let fixtureCount ← Reader.field order 2 CitpFselSele.fixtureCount
  let complete ← Reader.field order 1 CitpFselSele.complete
  let fixtureIdentifiers ← readIdentifiers order fixtureCount CitpFselSele.sizeof
  return (peer, [.selectFixtures (complete ≠ 0) fixtureIdentifiers])

/-- After the signal for a count of zero the function goes on, with an empty
list. -/
def parseDESEPacket (order : ByteOrder) (peer : Peer Host) :
    Reader (Peer Host × List Signal) := do
  let fixtureCount ← Reader.field order 2 CitpFselDeSe.fixtureCount
  let emitted : List Signal := if fixtureCount = 0 then [.deselectAllFixtures] else []
  let fixtureIdentifiers ← readIdentifiers order fixtureCount CitpFselDeSe.sizeof
  return (peer, emitted ++ [.deselectFixtures fixtureIdentifiers])

/-- The layer for fixture selections. -/
def parseFSELPacket (order : ByteOrder) (peer : Peer Host) :
    Reader (Peer Host × List Signal) := do
  let contentType ← Reader.field order 4 CitpFselHeader.contentType
  if contentType = cookieFselSele then
    parseSELEPacket order peer
  else if contentType = cookieFselDeSe then
    parseDESEPacket order peer
  else
    return (peer, [])

/-- Parse a message: the peer afterwards and the signals emitted, in order. -/
def parsePacket (order : ByteOrder) (peer : Peer Host) : Reader (Peer Host × List Signal) := do
  let cookie ← Reader.field order 4 CitpHeader.cookie
  if cookie ≠ cookieCitp then
    return (peer, [])
  else
    let versionMajor ← Reader.field order 1 CitpHeader.versionMajor
    if versionMajor ≠ 0x01 then
      return (peer, [])
    else
      let contentType ← Reader.field order 4 CitpHeader.contentType
      -- announcements come by multicast and are ignored here
      if contentType = cookiePinf then
        return (peer, [])
      else if contentType = cookieFptc then
        parseFPTCPacket order peer
      else if contentType = cookieFsel then
        parseFSELPacket order peer
      else
        return (peer, [])

/-- Parse messages one after the other: the peer afterwards and all signals emitted,
unless a read falls outside. -/
def parsePackets (order : ByteOrder) (byteArrays : List (List UInt8)) (peer : Peer Host) :
    Option (Peer Host × List Signal) :=
  Streaming.run (fun byteArray peer => (parsePacket order peer).value byteArray) byteArrays peer

end Parsing

/-! ## Framing the byte stream -/

/-- Whether plain `char` is a signed type on the host. -/
inductive PlainChar
  | signed
  | unsigned
  deriving DecidableEq, Repr

/-- The conversion of an element of a `QByteArray` to `quint32`. -/
def PlainChar.toQuint32 : PlainChar → UInt8 → UInt32
  | signed, c => c.toInt8.toInt32.toUInt32
  | unsigned, c => c.toUInt32

/-- The message size assembled from the peeked bytes, highest byte first. -/
def messageSize (char : PlainChar) (peekArray : List UInt8) : UInt32 :=
  let messageSize := char.toQuint32 (peekArray.getD 11 0)
  let messageSize := (messageSize <<< 8) ||| char.toQuint32 (peekArray.getD 10 0)
  let messageSize := (messageSize <<< 8) ||| char.toQuint32 (peekArray.getD 9 0)
  (messageSize <<< 8) ||| char.toQuint32 (peekArray.getD 8 0)

/-- The test on the peeked bytes for discarding the first of them: none of the
four equals its letter of the cookie. -/
def discards (peekArray : List UInt8) : Bool :=
  peekArray.getD 0 0 != 0x43 && peekArray.getD 1 0 != 0x49 &&
    peekArray.getD 2 0 != 0x54 && peekArray.getD 3 0 != 0x50

/-- What an iteration of the framing loop does with the bytes it removes. -/
inductive Event
  | discarded (b : UInt8)
  | parsed (byteArray : List UInt8)
  deriving DecidableEq, Repr

/-- One iteration of the framing loop over the bytes available: it returns, or
it removes bytes and goes round again. -/
def readyReadStep (char : PlainChar) : Streaming.Consumer UInt8 Event := fun available =>
  if available.length = 0 then none
  else
    -- the header up to and including its size field
    let peekArray := available.take 12
    if peekArray.length ≠ 12 then none
    else if discards peekArray then
      some (.discarded (available.getD 0 0), available.drop 1)
    else
      let size := (messageSize char peekArray).toNat
      -- the rest of the message is still on its way
      if size > available.length then none
      else some (.parsed (available.take size), available.drop size)

/-- The framing loop, for at most `fuel` iterations: the events in order and
the bytes that stay in the socket. -/
def handleReadyRead (char : PlainChar) (fuel : ℕ) (available : List UInt8) :
    Option (List Event × List UInt8) :=
  Streaming.drain (readyReadStep char) fuel available

section Receiving

variable {Host : Type}

/-- What the loop does with what an iteration has removed: a message is parsed before the
loop goes on. -/
def handleEvent (order : ByteOrder) : Streaming.Transition Event (Peer Host) Signal
  | .discarded _, peer => some (peer, [])
  | .parsed byteArray, peer => (parsePacket order peer).value byteArray

/-- The framing loop of a peer, for at most `fuel` iterations: the peer afterwards, the
signals emitted and the bytes that stay in the socket. -/
def Peer.handleReadyRead (order : ByteOrder) (char : PlainChar) (fuel : ℕ)
    (available : List UInt8) (peer : Peer Host) :
    Option (Peer Host × List Signal × List UInt8) :=
  Streaming.drainHandling (readyReadStep char) (handleEvent order) fuel available peer

/-- Bytes arrive behind those in the socket, and the slot runs. -/
def Peer.readyRead (order : ByteOrder) (char : PlainChar) :
    Streaming.Transition (List UInt8) (Peer Host × List UInt8) Signal := fun bytes socket =>
  let available := socket.2 ++ bytes
  (socket.1.handleReadyRead order char (available.length + 1) available).map
    fun (peer, signals, buffered) => ((peer, buffered), signals)

end Receiving

/-! ## Connecting and sending -/

/-- The result, and the connection that the socket is asked for. -/
def Peer.connectToPeer {Host : Type} (peer : Peer Host) : Bool × Option (Host × UInt16) :=
  if 0 = peer.listeningPort then (false, none)
  else (true, some (peer.host, peer.listeningPort))

/-- Send a packet, given whether the socket is connected and what its `write` returns: the
result, and the bytes that the socket has taken. -/
def sendPacket (connected : Bool) (write : ℤ) (packet : Buffer UInt8) : Bool × List UInt8 :=
  if connected = false then (false, [])
  else
    -- a failed `write` returns -1 and takes nothing
    let taken := packet.contents.take write.toNat
    if (packet.len : ℤ) ≠ write then (false, taken) else (true, taken)

end CitpLib
