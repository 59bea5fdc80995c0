import P2Sync.Net.Start

/-!
# Short peer identifiers

A peer is known to the others by the first eight bytes of its identifier. The identifier of
an Ed25519 key is a fixed header followed by the 32 bytes of the key, so eight bytes leave
room for those of the key that come right behind the header.

Two peers hear each other, and count their edits apart, exactly when their keys differ in
these bytes (`keptApart_iff`).
-/

set_option autoImplicit false

namespace P2Sync

/-- The first 8 bytes of an identifier, for use in conflict resolution. -/
def shortPeerId (bytes : Bytes) : PeerId :=
  let len := min bytes.length 8
  ⟨bytes.take len ++ (List.replicate 8 0).drop len, by simp; omega⟩

/-- The bytes of a public key. -/
abbrev Ed25519Key := {bytes : Bytes // bytes.length = 32}

/-- `PeerId::to_bytes`. -/
def toBytes (header : Bytes) (key : Ed25519Key) : Bytes := header ++ key.val

/-- The identifiers of two keys agree exactly when the kept bytes of the keys do. -/
theorem shortPeerId_eq_iff {header : Bytes} {first second : Ed25519Key} :
    shortPeerId (toBytes header first) = shortPeerId (toBytes header second) ↔
      first.val.take (8 - header.length) = second.val.take (8 - header.length) := by
  have kept : ∀ key : Ed25519Key, (shortPeerId (toBytes header key)).val =
      header.take 8 ++ key.val.take (8 - header.length) := by
    intro key
    have long : min (toBytes header key).length 8 = 8 := by
      rw [toBytes, List.length_append, key.property]
      omega
    rw [shortPeerId]
    dsimp only
    rw [long, List.drop_eq_nil_of_le (by simp), List.append_nil, toBytes, List.take_append]
  rw [← Subtype.val_inj, kept, kept, List.append_cancel_left_eq]

namespace SyncNotification

/-- The peer a notification says it is from. -/
def author : SyncNotification → Option PeerId
  | .fileChanged _ _ _ _ _ peer => some peer
  | .fileDeleted tombstone => some tombstone.deletedBy
  | .peerJoined _ => none

/-- The test by which a peer finds out that a notification is its own. -/
def IsEcho (localId : PeerId) (notification : SyncNotification) : Prop :=
  notification.author = some localId

end SyncNotification

namespace Peer

variable {ι : Type} [Blake3] {ctx : Ctx ι}

omit [Blake3] in
/-- An echo is dropped. -/
theorem handleNotification_of_isEcho {notification : SyncNotification}
    (echo : notification.IsEcho ctx.localId) (device : Device) (peer : Peer ι) (source : ι) :
    peer.handleNotification ctx device source notification = peer := by
  cases notification with
  | fileChanged path hash chunks clock timestamp writer =>
      exact if_pos (Option.some.inj echo)
  | fileDeleted tombstone => exact if_pos (Option.some.inj echo)
  | peerJoined joined => rfl

/-- What a peer publishes says that it is from this peer. -/
theorem author_of_step {peer after : Peer ι} {act : Act ι} {notification : SyncNotification}
    (reachable : Reachable ctx peer)
    (stepped : peer.step ctx act = some (after, some notification)) :
    notification.author = some ctx.localId := by
  cases step_cases stepped with
  | edited reads path data watch published picked unmarked included first announced =>
      obtain ⟨raw, content, -, -, rfl⟩ := announced notification rfl
      rfl
  | erased reads path rest watch next =>
      rw [SyncNotification.author, reachable.localPeer]

/-- The updates of one peer are heard by the other, and their edits have counters of their
own. -/
structure KeptApart (one other : Ctx ι) : Prop where
  heard : ∀ (peer after : Peer ι) (act : Act ι) (notification : SyncNotification),
    Reachable one peer → peer.step one act = some (after, some notification) →
      ¬ notification.IsEcho other.localId
  counted : ∀ clock : VectorClock,
    (clock.tick one.localId).counter other.localId = clock.counter other.localId ∧
      (clock.tick other.localId).counter one.localId = clock.counter one.localId

/-- Peers with different identifiers are kept apart. -/
theorem keptApart_iff_ne {one other : Ctx ι} :
    KeptApart one other ↔ one.localId ≠ other.localId := by
  constructor
  · intro apart same
    have counted := (apart.counted .new).1
    rw [same, VectorClock.counter_tick_self] at counted
    exact absurd counted (by simp)
  · intro apart
    refine ⟨fun peer after act notification reachable stepped echo => ?_, fun clock =>
      ⟨VectorClock.counter_tick_of_ne clock apart.symm, VectorClock.counter_tick_of_ne clock apart⟩⟩
    exact apart (Option.some.inj ((author_of_step reachable stepped).symm.trans echo))

/-- **Two peers of a group are kept apart** exactly when their keys differ in the bytes that
a short identifier has of them. -/
theorem keptApart_iff {header : Bytes} {first second : Ed25519Key} {one other : Ctx ι}
    (oneKey : one.localId = shortPeerId (toBytes header first))
    (otherKey : other.localId = shortPeerId (toBytes header second)) :
    KeptApart one other ↔
      first.val.take (8 - header.length) ≠ second.val.take (8 - header.length) := by
  rw [keptApart_iff_ne, oneKey, otherKey, Ne, shortPeerId_eq_iff]

end Peer

/-! ## Keys of one group -/

namespace Sample

/-- What libp2p puts before an Ed25519 key. -/
def header : Bytes := [0x00, 0x24, 0x08, 0x01, 0x12, 0x20]

/-- A key that starts with a byte and ends with another. -/
def key (first last : UInt8) : Ed25519Key := ⟨first :: List.replicate 30 0 ++ [last], by simp⟩

/-- The settings of the peer with a key. -/
def keyed (key : Ed25519Key) : Ctx Site :=
  { ctx .one with localId := shortPeerId (toBytes header key) }

end Sample

namespace Peer

attribute [local instance] Sample.blake3

/-- Two keys that differ in their last byte make one peer of two: what the first publishes
is dropped by the second. -/
theorem not_keptApart :
    Sample.key 1 2 ≠ Sample.key 1 3 ∧ ∃ (peer after : Peer Sample.Site) (act : Act Sample.Site)
      (notification : SyncNotification), Reachable (Sample.keyed (Sample.key 1 2)) peer ∧
        peer.step (Sample.keyed (Sample.key 1 2)) act = some (after, some notification) ∧
          notification.IsEcho (Sample.keyed (Sample.key 1 3)).localId ∧
            (VectorClock.new.tick (Sample.keyed (Sample.key 1 2)).localId).counter
              (Sample.keyed (Sample.key 1 3)).localId = 1 := by
  obtain ⟨peer, reachable, publishes⟩ := reachable_of_any (by decide +kernel :
    ((start (Sample.keyed (Sample.key 1 2)) (Sample.folder [1]) [] 10).bind fun first =>
      runActs (next (Sample.keyed (Sample.key 1 2))) first
        [.user (Sample.folder [2]), .watched (.modified Sample.path)]).any (fun peer =>
          (peer.step (Sample.keyed (Sample.key 1 2)) (.fsEvent ⟨true, some [2], some [2]⟩)).any
            fun stepped => stepped.2.any fun notification =>
              decide (notification.author =
                some (Sample.keyed (Sample.key 1 3)).localId)) = true)
  obtain ⟨⟨after, published⟩, stepped, any⟩ := (Option.any_eq_true _ _).mp publishes
  obtain ⟨notification, rfl, echo⟩ := (Option.any_eq_true _ _).mp any
  have own : notification.author = some (Sample.keyed (Sample.key 1 3)).localId :=
    of_decide_eq_true echo
  exact ⟨by decide, peer, after, _, notification, reachable, stepped, own, by decide +kernel⟩

/-- Two keys that differ in their first byte are kept apart, two that differ in their last byte
are not. -/
theorem keptApart_iff_sample :
    KeptApart (Sample.keyed (Sample.key 1 2)) (Sample.keyed (Sample.key 2 2)) ∧
      ¬ KeptApart (Sample.keyed (Sample.key 1 2)) (Sample.keyed (Sample.key 1 3)) :=
  ⟨(keptApart_iff rfl rfl).mpr (by decide), mt (keptApart_iff rfl rfl).mp (by decide)⟩

end Peer

end P2Sync
