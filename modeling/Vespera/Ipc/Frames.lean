import Vespera.Ipc.Socket

/-! # Frames on a channel

A `Frame` is what one `sendmsg` means to send: at most 64 rights and less than 4 GiB of payload.
Reading its bytes back the way `recvmsg` does, piece by piece, gives its parts again:
`ofBytes_toBytes` for the words, `rightsOfBytes_flatMap` for the rights, and `Frame.bytes_eq` for
where each piece stands. `OutMsg.frame_eq` says when `sendmsg` builds the bytes of a frame.
-/

namespace Vespera.Ipc

open List Lib FrameRight

/-! ## Words and rights -/

theorem ofBytes_toBytes {n v : Nat} : ofBytes (toBytes n v) = v % 256 ^ n := by
  induction n generalizing v with
  | zero => simp [toBytes, ofBytes, Nat.mod_one]
  | succ n ih =>
    rw [toBytes, ofBytes, ih, Nat.pow_succ, Nat.mul_comm (256 ^ n) 256, Nat.mod_mul]
    simp

theorem ofBytes_toBytes_of_lt {n v : Nat} (h : v < 256 ^ n) : ofBytes (toBytes n v) = v := by
  rw [ofBytes_toBytes, Nat.mod_eq_of_lt h]

theorem ofNat_toBytes {x : UInt64} : UInt64.ofNat (ofBytes (toBytes 8 x.toNat)) = x := by
  rw [ofBytes_toBytes_of_lt (by simpa using x.toNat_lt), UInt64.ofNat_toNat]

@[simp] theorem FrameRight.bytes_length (r : FrameRight) : r.bytes.length = 16 := by
  simp [bytes]

@[simp] theorem flatMap_bytes_length {rs : List FrameRight} :
    (rs.flatMap bytes).length = rs.length * 16 := by
  induction rs with
  | nil => rfl
  | cons r rs ih =>
    rw [flatMap_cons, length_append, ih, bytes_length, length_cons]
    omega

/-- The rights of a frame are read back as they were written. -/
theorem rightsOfBytes_flatMap {rs : List FrameRight} :
    rightsOfBytes rs.length (rs.flatMap bytes) = rs := by
  induction rs with
  | nil => rfl
  | cons r rs ih =>
    have hrealm : (r.bytes ++ rs.flatMap bytes).take 8 = toBytes 8 r.srcRealm.toNat := by
      rw [bytes, append_assoc, take_left' toBytes_length]
    have hhid : ((r.bytes ++ rs.flatMap bytes).drop 8).take 8 =
        toBytes 8 r.srcHid.toNat := by
      rw [bytes, append_assoc, drop_left' toBytes_length, take_left' toBytes_length]
    have hrest : (r.bytes ++ rs.flatMap bytes).drop 16 =
        rs.flatMap bytes := drop_left' r.bytes_length
    rw [flatMap_cons, length_cons, rightsOfBytes, hrealm, hhid, hrest, ih,
      ofNat_toBytes, ofNat_toBytes]

/-! ## Frames -/

/-- The rights and the payload of one message. -/
structure Frame where
  rights : List FrameRight
  payload : List UInt8
  few : rights.length ≤ maxRights
  short : payload.length < 2 ^ 32

namespace Frame

/-- What follows the first two words of a frame. -/
def afterHeader (f : Frame) : List UInt8 :=
  f.rights.flatMap bytes ++ (toBytes 4 f.payload.length ++ f.payload)

/-- The bytes of a frame. -/
def bytes (f : Frame) : List UInt8 :=
  (toBytes 4 sendmsgFrameMagic ++ toBytes 4 f.rights.length) ++ f.afterHeader

theorem bytes_eq {f : Frame} : f.bytes = frameHeader f.rights f.payload.length ++ f.payload := by
  simp [bytes, afterHeader, frameHeader]

theorem bytes_length (f : Frame) :
    f.bytes.length = 12 + f.rights.length * 16 + f.payload.length := by
  simp only [bytes, afterHeader, length_append, toBytes_length, flatMap_bytes_length]
  omega

theorem bytes_ne_nil {f : Frame} : f.bytes ≠ [] := by
  intro h
  have hlen := f.bytes_length
  rw [h, length_nil] at hlen
  omega

theorem magic_word {n : Nat} :
    ofBytes ((toBytes 4 sendmsgFrameMagic ++ toBytes 4 n).take 4) = sendmsgFrameMagic := by
  rw [take_left' toBytes_length, ofBytes_toBytes_of_lt (by decide)]

theorem count_word {f : Frame} :
    ofBytes ((toBytes 4 sendmsgFrameMagic ++ toBytes 4 f.rights.length).drop 4) =
      f.rights.length := by
  rw [drop_left' toBytes_length, ofBytes_toBytes_of_lt]
  have hfew := f.few
  simp only [maxRights] at hfew
  omega

end Frame

theorem frameHeader_length {rights : List FrameRight} {n : Nat} :
    (frameHeader rights n).length = 12 + rights.length * 16 := by
  simp only [frameHeader, length_append, toBytes_length, flatMap_bytes_length]
  omega

namespace OutMsg

/-- The bytes of all the vectors of a message. -/
def gathered (msg : OutMsg) : List UInt8 := msg.iov.flatten

theorem payloadLen_le (msg : OutMsg) : msg.payloadLen ≤ msg.gathered.length := by
  unfold gathered payloadLen
  rw [length_flatten]
  exact Nat.mod_le _ _

/-- The frame of a message that is not too long for one. -/
def toFrame (msg : OutMsg) (rights : List FrameRight) (hfew : rights.length ≤ maxRights)
    (hshort : msg.payloadLen < 2 ^ 32) : Frame where
  rights := rights
  payload := msg.gathered.take msg.payloadLen
  few := hfew
  short := by
    rw [length_take]
    omega

/-- `sendmsg` builds the frame of its message. -/
theorem frame_eq (msg : OutMsg) (rights : List FrameRight) (hfew : rights.length ≤ maxRights)
    (hshort : msg.payloadLen < 2 ^ 32) :
    msg.frame rights = (msg.toFrame rights hfew hshort).bytes := by
  have hlen : (msg.gathered.take msg.payloadLen).length = msg.payloadLen := by
    rw [length_take, Nat.min_eq_left msg.payloadLen_le]
  simp only [maxRights] at hfew
  rw [Frame.bytes_eq, toFrame, hlen]
  unfold OutMsg.frame
  simp only
  rw [Nat.mod_eq_of_lt (by rw [frameHeader_length]; omega), take_length_add_append]
  rfl

end OutMsg

end Vespera.Ipc
