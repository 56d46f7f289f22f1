import CitpLib.Table.Registry
import CitpLib.Theorems.Announcement
import Mathlib.Data.List.ReduceOption

/-!
# The table of peers

Over a run of datagrams the list of peers is a registry of the peers announced,
keyed by host and port: the first announcement for a key appends a peer, and no
later one changes anything. What the list holds after a run follows from the laws
of registries.

## Main definitions

* `announced`, `announcedKeys` — the peers and the keys that a run announces
* `announcementsFor` — the announcements for one key

## Main results

* `processPackets_eq` — a run inserts the peers that it announces
* `peerTable_run` — the keys in the list, and what each datagram changes
* `first_announcement_kept` — the entry for a key is that of its first
  announcement
-/

namespace CitpLib

open Wire Reader Table

variable {Host : Type} {order : ByteOrder} {hostString : Host → QString} {sender : Host}
  {peerList peers : List (Peer Host)} {signals : List DiscoverySignal} {a : List UInt8}
  {run front back : List (Host × List UInt8)} {k : QString × UInt16}

/-! ## Runs as registries -/

/-- The peers that a run of datagrams announces, in order. -/
def announced (order : ByteOrder) (run : List (Host × List UInt8)) : List (Peer Host) :=
  run.filterMap fun d => (announcement? order d.2).map fun announcement => announcement.peer d.1

/-- The keys of the announcements of a run, in order. -/
def announcedKeys (order : ByteOrder) (hostString : Host → QString)
    (run : List (Host × List UInt8)) : List (QString × UInt16) :=
  run.filterMap fun d => (announcement? order d.2).map fun announcement =>
    (hostString d.1, announcement.listeningPort)

theorem map_key_announced (order : ByteOrder) (hostString : Host → QString)
    (run : List (Host × List UInt8)) :
    (announced order run).map (Peer.key hostString) = announcedKeys order hostString run := by
  simp [announced, announcedKeys, List.map_filterMap, Function.comp_def]

/-- The signals of a table that has grown. -/
def growth (before after : List (Peer Host)) : List DiscoverySignal :=
  List.replicate (after.length - before.length) .peersUpdated

/-- A datagram inserts the peer that it announces, if it does. -/
theorem DatagramLongEnough.value_eq_insertAll (h : DatagramLongEnough order a)
    (hostString : Host → QString) (sender : Host) (peerList : List (Peer Host)) :
    (processPacket order hostString sender peerList).value a =
      some (insertAll (Peer.key hostString) peerList (announced order [(sender, a)]),
        growth peerList
          (insertAll (Peer.key hostString) peerList (announced order [(sender, a)]))) := by
  rw [h.value_eq]
  cases hannouncement : announcement? order a with
  | none => simp [announced, hannouncement, growth]
  | some announcement =>
    have hsingle : announced order [(sender, a)] = [announcement.peer sender] := by
      simp [announced, hannouncement]
    simp only [hsingle, insertAll_cons, insertAll_nil, add_eq]
    by_cases hknown : (hostString sender, announcement.listeningPort) ∈
        peerList.map (Peer.key hostString)
    · rw [if_pos hknown, insertNew_of_mem (by rwa [key_peer])]
      simp [growth]
    · rw [if_neg hknown, insertNew_of_notMem (by rwa [key_peer])]
      simp [growth]

theorem growth_append {before middle after : List (Peer Host)}
    (hmiddle : before.length ≤ middle.length) (hafter : middle.length ≤ after.length) :
    growth before middle ++ growth middle after = growth before after := by
  rw [growth, growth, growth, List.replicate_append_replicate]
  congr 1
  omega

theorem length_le_insertAll (peerList xs : List (Peer Host)) :
    peerList.length ≤ (insertAll (Peer.key hostString) peerList xs).length := by
  obtain ⟨new, heq, -⟩ := insertAll_eq_append (Peer.key hostString) peerList xs
  rw [heq, List.length_append]
  exact Nat.le_add_right _ _

theorem processPackets_cons (order : ByteOrder) (hostString : Host → QString)
    (d : Host × List UInt8) (run : List (Host × List UInt8)) (peerList : List (Peer Host)) :
    processPackets order hostString (d :: run) peerList =
      ((processPacket order hostString d.1 peerList).value d.2).bind fun first =>
        (processPackets order hostString run first.1).bind fun rest =>
          some (rest.1, first.2 ++ rest.2) :=
  Streaming.run_cons ..

/-- **A run inserts the peers that it announces.** -/
theorem processPackets_eq (h : ∀ d ∈ run, DatagramLongEnough order d.2)
    (hostString : Host → QString) (peerList : List (Peer Host)) :
    processPackets order hostString run peerList =
      some (insertAll (Peer.key hostString) peerList (announced order run),
        growth peerList
          (insertAll (Peer.key hostString) peerList (announced order run))) := by
  induction run generalizing peerList with
  | nil => simp [processPackets, announced, growth]
  | cons d run ih =>
    obtain ⟨sender, a⟩ := d
    have hsplit : announced order ((sender, a) :: run) =
        announced order [(sender, a)] ++ announced order run := by
      rw [announced, announced, announced, ← List.filterMap_append, List.singleton_append]
    have hhead : DatagramLongEnough order a := h (sender, a) List.mem_cons_self
    rw [processPackets_cons, hhead.value_eq_insertAll, Option.bind_some,
      ih fun d hd => h d (List.mem_cons_of_mem _ hd), Option.bind_some, hsplit, insertAll_append,
      growth_append (length_le_insertAll _ _) (length_le_insertAll _ _)]

/-- A run ends with a table exactly when all its datagrams are read in bounds. -/
theorem processPackets_isSome_iff :
    (processPackets order hostString run peerList).isSome ↔
      ∀ d ∈ run, DatagramLongEnough order d.2 := by
  apply Streaming.isSome_run_iff
  intro d peerList
  exact processPacket_value_isSome_iff

/-- The loop over the pending datagrams processes those that it could read. -/
theorem handleReadReady_eq (order : ByteOrder) (hostString : Host → QString)
    (pending : List (Option (Host × List UInt8))) (peerList : List (Peer Host)) :
    handleReadReady order hostString pending peerList =
      processPackets order hostString pending.reduceOption peerList := by
  induction pending generalizing peerList with
  | nil => rfl
  | cons d pending ih =>
    cases d with
    | none => exact ih peerList
    | some d =>
      obtain ⟨sender, a⟩ := d
      rw [List.reduceOption_cons_of_some, processPackets_cons, handleReadReady]
      simp only [ih]
      rfl

theorem insertAll_of_processPackets
    (h : processPackets order hostString run peerList = some (peers, signals)) :
    (∀ d ∈ run, DatagramLongEnough order d.2) ∧
      peers = insertAll (Peer.key hostString) peerList (announced order run) ∧
      signals = growth peerList peers := by
  have hlong := processPackets_isSome_iff.mp (Option.isSome_of_eq_some h)
  rw [processPackets_eq hlong] at h
  obtain ⟨rfl, rfl⟩ := Prod.mk.inj (Option.some.inj h)
  exact ⟨hlong, rfl, rfl⟩

theorem announced_append (order : ByteOrder) (front back : List (Host × List UInt8)) :
    announced order (front ++ back) = announced order front ++ announced order back :=
  List.filterMap_append

/-! ## The keys in the table -/

/-- What one datagram changes, given which of its keys are known. -/
theorem value_of_known (hlong : DatagramLongEnough order a) :
    ((∀ k ∈ announcedKeys order hostString [(sender, a)], k ∈ peerList.map (Peer.key hostString)) →
      (processPacket order hostString sender peerList).value a = some (peerList, [])) ∧
    ∀ k ∈ announcedKeys order hostString [(sender, a)], k ∉ peerList.map (Peer.key hostString) →
      ∃ peer, peer.key hostString = k ∧
        (processPacket order hostString sender peerList).value a =
          some (peerList ++ [peer], [.peersUpdated]) := by
  rw [hlong.value_eq]
  cases hannouncement : announcement? order a with
  | none => simp [announcedKeys, hannouncement]
  | some announcement =>
    have hkeys : announcedKeys order hostString [(sender, a)] =
        [(hostString sender, announcement.listeningPort)] := by
      simp [announcedKeys, hannouncement]
    simp only [hkeys, List.mem_singleton, forall_eq, add_eq]
    constructor
    · intro hknown
      rw [if_pos hknown]
    · intro hnew
      exact ⟨announcement.peer sender, key_peer announcement sender, by rw [if_neg hnew]⟩

/-- **The table of peers over a run.** No key occurs twice, and the keys are those of
the announcements in the order of their first occurrence. Nothing is ever removed, and
each entry is signalled once. A datagram that is rejected or whose key is known changes
nothing. Runs of the same datagrams, in whatever order and number, end with the same
keys. -/
theorem peerTable_run (order : ByteOrder) (hostString : Host → QString)
    (run : List (Host × List UInt8)) (peers : List (Peer Host)) (signals : List DiscoverySignal)
    (h : processPackets order hostString run [] = some (peers, signals)) :
    ((listPeers peers).2.map (Peer.key hostString)).Nodup ∧
    (listPeers peers).2.map (Peer.key hostString) =
      (announcedKeys order hostString run).eraseDups ∧
    signals = List.replicate peers.length .peersUpdated ∧
    (∀ front back, run = front ++ back → ∃ earlier later,
      processPackets order hostString front [] =
        some (earlier, List.replicate earlier.length .peersUpdated) ∧ peers = earlier ++ later) ∧
    (∀ front sender a back, run = front ++ (sender, a) :: back → ∃ earlier emitted,
      processPackets order hostString front [] = some (earlier, emitted) ∧
      ((∀ k ∈ announcedKeys order hostString [(sender, a)],
          k ∈ earlier.map (Peer.key hostString)) →
        (processPacket order hostString sender earlier).value a = some (earlier, [])) ∧
      ∀ k ∈ announcedKeys order hostString [(sender, a)],
        k ∉ earlier.map (Peer.key hostString) → ∃ peer, peer.key hostString = k ∧
          (processPacket order hostString sender earlier).value a =
            some (earlier ++ [peer], [.peersUpdated])) ∧
    ∀ run', (∀ d, d ∈ run' ↔ d ∈ run) → ∃ peers' signals',
      processPackets order hostString run' [] = some (peers', signals') ∧
      ∀ k, k ∈ (listPeers peers').2.map (Peer.key hostString) ↔
        k ∈ (listPeers peers).2.map (Peer.key hostString) := by
  obtain ⟨hlong, rfl, rfl⟩ := insertAll_of_processPackets h
  have hkeys := map_key_announced order hostString
  refine ⟨nodup_insertAll _ (l := []) List.nodup_nil _, ?_, rfl, ?_, ?_, ?_⟩
  · rw [listPeers, map_key_insertAll, hkeys]
  · rintro front back rfl
    have hfront : ∀ d ∈ front, DatagramLongEnough order d.2 :=
      fun d hd => hlong d (List.mem_append_left _ hd)
    rw [announced_append, insertAll_append]
    obtain ⟨later, hlater, -⟩ := insertAll_eq_append (Peer.key hostString)
      (insertAll (Peer.key hostString) [] (announced order front)) (announced order back)
    exact ⟨_, later, processPackets_eq hfront hostString [], hlater⟩
  · rintro front sender a back rfl
    have hfront : ∀ d ∈ front, DatagramLongEnough order d.2 :=
      fun d hd => hlong d (List.mem_append_left _ hd)
    have hdatagram : DatagramLongEnough order a := hlong (sender, a) (by simp)
    exact ⟨_, _, processPackets_eq hfront hostString [], value_of_known hdatagram⟩
  · intro run' hsame
    have hlong' : ∀ d ∈ run', DatagramLongEnough order d.2 :=
      fun d hd => hlong d ((hsame d).mp hd)
    refine ⟨_, _, processPackets_eq hlong' hostString [], fun k => ?_⟩
    simp only [listPeers, mem_map_key_insertAll, hkeys, announcedKeys, List.mem_filterMap, hsame]

/-- A console announces itself, and again when its state has changed. -/
def twoAnnouncements : List (QString × List UInt8) :=
  [(.ofLiteral "10.0.0.7", announcementBytes (List.replicate 10 0) 4011
      (.ofLiteral "LightingConsole") (.ofLiteral "Desk") (.ofLiteral "Idle") []),
    (.ofLiteral "10.0.0.7", announcementBytes (List.replicate 10 0) 4011
      (.ofLiteral "LightingConsole") (.ofLiteral "Desk") (.ofLiteral "Running") [])]

/-- It is listed once. -/
theorem peerTable_run_twoAnnouncements :
    (listPeers [Peer.new (QString.ofLiteral "10.0.0.7") 4011 (.ofLiteral "Desk")
        (.ofLiteral "Idle")]).2.map (Peer.key id) =
      (announcedKeys .little id twoAnnouncements).eraseDups :=
  (peerTable_run .little id twoAnnouncements _ [.peersUpdated] (by decide)).2.1

/-! ## The entry for a key -/

/-- The announcements that a run makes for one key, in order. -/
def announcementsFor (order : ByteOrder) (hostString : Host → QString) (k : QString × UInt16)
    (run : List (Host × List UInt8)) : List Announcement :=
  run.filterMap fun d => (announcement? order d.2).filter fun announcement =>
    (hostString d.1, announcement.listeningPort) = k

/-- The first peer announced with a key has the strings of the first announcement. -/
theorem find?_announced (order : ByteOrder) (hostString : Host → QString)
    (k : QString × UInt16) (run : List (Host × List UInt8)) :
    ((announced order run).find? fun peer => peer.key hostString = k).map
        (fun peer => (peer.peerName, peer.peerState)) =
      (announcementsFor order hostString k run).head?.map
        fun announcement => (announcement.name, announcement.state) := by
  induction run with
  | nil => rfl
  | cons d run ih =>
    simp only [announced, announcementsFor] at ih ⊢
    cases hannouncement : announcement? order d.2 with
    | none => simpa [hannouncement] using ih
    | some announcement =>
      by_cases hkey : (hostString d.1, announcement.listeningPort) = k
      · simp [hannouncement, hkey]
      · simpa [hannouncement, hkey] using ih

theorem exists_head?_announcementsFor (h : k ∈ announcedKeys order hostString run) :
    ∃ announcement, (announcementsFor order hostString k run).head? = some announcement := by
  obtain ⟨d, hd, hmap⟩ := List.mem_filterMap.mp h
  obtain ⟨announcement, hannouncement, hkey⟩ := Option.map_eq_some_iff.mp hmap
  have hmem : announcement ∈ announcementsFor order hostString k run := by
    refine List.mem_filterMap.mpr ⟨d, hd, ?_⟩
    rw [hannouncement, Option.filter_some, if_pos (decide_eq_true hkey)]
  exact ⟨_, List.head?_eq_some_head (List.ne_nil_of_mem hmem)⟩

/-- **The entry for a host and port is that of its first announcement.** After a run in
which nothing is read outside, the list has exactly one entry for each host and port
announced, with the name and the state of the first announcement. Later announcements
leave it as it is. -/
theorem first_announcement_kept (order : ByteOrder) (hostString : Host → QString)
    (run : List (Host × List UInt8)) (peers : List (Peer Host)) (signals : List DiscoverySignal)
    (h : processPackets order hostString run [] = some (peers, signals)) :
    ∀ k ∈ announcedKeys order hostString run, ∃ announcement peer,
      (announcementsFor order hostString k run).head? = some announcement ∧
      (listPeers peers).2.filter (fun other => other.key hostString = k) = [peer] ∧
      peer.peerName = announcement.name ∧ peer.peerState = announcement.state := by
  obtain ⟨-, rfl, -⟩ := insertAll_of_processPackets h
  intro k hk
  obtain ⟨announcement, hhead⟩ := exists_head?_announcementsFor hk
  have hstrings := find?_announced order hostString k run
  rw [hhead, Option.map_some, Option.map_eq_some_iff] at hstrings
  obtain ⟨peer, hfirst, hsame⟩ := hstrings
  obtain ⟨hname, hstate⟩ := Prod.mk.inj hsame
  have hkept := find?_insertAll (Peer.key hostString) [] (announced order run) k
  rw [List.nil_append, hfirst] at hkept
  have hmem := List.mem_of_find?_eq_some hkept
  have hnodup := nodup_insertAll (l := []) (Peer.key hostString) List.nodup_nil
    (announced order run)
  obtain rfl : peer.key hostString = k := by simpa using List.find?_some hkept
  exact ⟨announcement, peer, hhead, filter_key_eq_singleton hnodup hmem, hname, hstate⟩

/-- The console is listed once, with the state that it announced first. -/
theorem first_announcement_kept_twoAnnouncements :
    ∃ announcement peer,
      (announcementsFor .little id (.ofLiteral "10.0.0.7", 4011) twoAnnouncements).head? =
        some announcement ∧
      (listPeers [Peer.new (QString.ofLiteral "10.0.0.7") 4011 (.ofLiteral "Desk")
        (.ofLiteral "Idle")]).2.filter
          (fun other => other.key id = (.ofLiteral "10.0.0.7", 4011)) = [peer] ∧
      peer.peerName = announcement.name ∧ peer.peerState = announcement.state :=
  first_announcement_kept .little id twoAnnouncements
    [Peer.new (.ofLiteral "10.0.0.7") 4011 (.ofLiteral "Desk") (.ofLiteral "Idle")]
    [.peersUpdated] (by decide) (.ofLiteral "10.0.0.7", 4011) (by decide)

/-- It is not listed with the state that it announced last. -/
theorem not_last_announcement_kept :
    ¬ ∀ (run : List (QString × List UInt8)) (peers : List (Peer QString))
        (signals : List DiscoverySignal), (∀ d ∈ run, IsPLoc .little d.2) →
        processPackets .little id run [] = some (peers, signals) →
      ∀ k ∈ announcedKeys .little id run, ∃ announcement peer,
        (announcementsFor .little id k run).getLast? = some announcement ∧
        peer ∈ (listPeers peers).2 ∧ peer.key id = k ∧ peer.peerName = announcement.name ∧
        peer.peerState = announcement.state := by
  intro h
  obtain ⟨announcement, peer, hlast, hmem, -, -, hstate⟩ := h twoAnnouncements
    [Peer.new (.ofLiteral "10.0.0.7") 4011 (.ofLiteral "Desk") (.ofLiteral "Idle")]
    [.peersUpdated] (by decide) (by decide) (.ofLiteral "10.0.0.7", 4011) (by decide)
  obtain rfl := List.mem_singleton.mp hmem
  have hannounced : (announcementsFor .little id (.ofLiteral "10.0.0.7", 4011)
      twoAnnouncements).getLast? = some ⟨4011, .ofLiteral "LightingConsole", .ofLiteral "Desk",
        .ofLiteral "Running"⟩ := by decide
  obtain rfl := Option.some.inj (hlast.symm.trans hannounced)
  exact absurd hstate (by decide)

end CitpLib
