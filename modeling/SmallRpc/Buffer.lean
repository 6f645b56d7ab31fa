import SmallRpc.BigEndian
import SmallRpc.FirstMatch

/-! The socket buffer: a storage vector with a read and a write index, and an extra
string that `writeFd` sends behind it. Indices are natural numbers. A `size_t`
difference wraps around; a sum of an index and a length does not, since no storage
has 2^64 bytes. Looking at memory outside the storage is undefined behaviour and
ends the call with a fault. -/
namespace SmallRpc
open FirstMatch (firstMatch)

abbrev Bytes := List UInt8

/-- `a - b` on `size_t`. -/
def sizeSub (a b : Nat) : Nat := if b ≤ a then a - b else 2 ^ 64 - (b - a)

/-- `static_cast<int>` of a `size_t`. -/
def castInt (n : Nat) : Int :=
  if n % 2 ^ 32 < 2 ^ 31 then (n % 2 ^ 32 : Nat) else (n % 2 ^ 32 : Nat) - 2 ^ 32

theorem castInt_le (n : Nat) : castInt n ≤ n := by
  unfold castInt
  split_ifs <;> omega

theorem castInt_lt (n : Nat) : castInt n < 2 ^ 31 := by
  unfold castInt
  split_ifs <;> omega

theorem castInt_of_lt {n : Nat} (h : n < 2 ^ 31) : castInt n = n := by
  unfold castInt
  rw [Nat.mod_eq_of_lt (by omega), if_pos h]


/-- How a call ends when it does not return: undefined behaviour (memory outside a
storage, a null pointer, a deleted object), an exception that escapes, or `abort` from
a `PLOG_FATAL`. -/
inductive Fault where
  | outOfStorage
  | nullPointer
  | danglingPointer
  | thrown
  | aborted
  deriving DecidableEq, Repr

structure Buffer where
  rindex : Nat
  windex : Nat
  data : Bytes
  extraIndex : Nat
  extraData : Bytes
  deriving DecidableEq, Repr

namespace Buffer

def initialBufferSize : Nat := 1024

/-- The constructor `Buffer(size_t)`; the storage starts zeroed. -/
def ofSize (bufSize : Nat) : Buffer := ⟨0, 0, List.replicate bufSize 0, 0, []⟩

def readable (b : Buffer) : Nat := sizeSub b.windex b.rindex
def writeable (b : Buffer) : Nat := sizeSub b.data.length b.windex
def extraable (b : Buffer) : Nat := sizeSub b.extraData.length b.extraIndex

/-- The `n` bytes of storage from `start` on, for a copy into a `std::string`. -/
def copy (b : Buffer) (start n : Nat) : Except Fault Bytes :=
  if start + n ≤ b.data.length then .ok ((b.data.drop start).take n) else .error .outOfStorage

/-- `memchr` and `memmem`: they go through the window in order and stop at the
first match, so only an unsuccessful search reaches the end of the window. -/
def search (b : Buffer) (pat : Bytes) (start n : Nat) : Except Fault (Option Nat) :=
  match firstMatch pat ((b.data.drop start).take n) with
  | some i => .ok (some i)
  | none => if start + n ≤ b.data.length then .ok none else .error .outOfStorage

def peekUint32 (b : Buffer) : Except Fault Nat := (b.copy b.rindex 4).map BigEndian.decode

def peekInt32 (b : Buffer) : Except Fault Int :=
  (b.copy b.rindex 4).map fun w => castInt (BigEndian.decode w)

def crlf : Bytes := [13, 10]

/-- `none` is the source's `-1`. -/
def findCrlf (b : Buffer) (len : Nat) : Except Fault (Option Nat) := b.search crlf b.rindex len

def retrieve (b : Buffer) (n : Nat) : Buffer := { b with rindex := b.rindex + n }

/-- `_data.resize(_data.size() * 2)`; the new half is zeroed. -/
def double (b : Buffer) : Buffer := { b with data := b.data ++ List.replicate b.data.length 0 }

/-- Copy `bs` to the write index and move it; the caller has made room. -/
def put (b : Buffer) (bs : Bytes) : Buffer :=
  { b with
    data := b.data.take b.windex ++ bs ++ b.data.drop (b.windex + bs.length)
    windex := b.windex + bs.length }

/-- What `::read` reports: bytes, end of file, `EAGAIN` and its kin, or any other
error. `int n` holds the count: Linux transfers at most 0x7ffff000 bytes in one call. -/
inductive ReadResult where
  | data (bs : Bytes)
  | eof
  | again
  | failed
  deriving DecidableEq, Repr

/-- The storage `readFd` offers to the kernel. -/
def makeRoom (b : Buffer) : Buffer := if b.writeable = 0 then b.double else b

def readFd (b : Buffer) : ReadResult → Except Fault (Int × Buffer)
  | .data bs => .ok (bs.length, b.makeRoom.put bs)
  | .eof => .ok (0, b.makeRoom)
  | .again => .ok (-1, b.makeRoom)
  | .failed => .error .aborted

/-- What `::write` reports, its count within the same bound. -/
inductive WriteResult where
  | wrote (n : Nat)
  | again
  | epipe
  | failed
  deriving DecidableEq, Repr

/-- Bytes the socket accepted in one `::write`: from which segment, where, how many. -/
structure Piece where
  extra : Bool
  start : Nat
  len : Nat
  deriving DecidableEq, Repr

/-- The second half of `writeFd`, for the extra segment. -/
def writeExtra (b : Buffer) (total : Int) (sent : List Piece) :
    WriteResult → Except Fault (Int × Buffer × List Piece)
  | r =>
    if b.extraable = 0 then .ok (total, b, sent)
    else match r with
      | .again => .ok (-1, b, sent)
      | .epipe => .ok (0, b, sent)
      | .failed => .error .aborted
      | .wrote n => .ok (total + n, { b with extraIndex := b.extraIndex + n },
          sent ++ [⟨true, b.extraIndex, n⟩])

/-- Returned beside the result and the buffer: the pieces the socket accepted. -/
def writeFd (b : Buffer) (r₁ r₂ : WriteResult) : Except Fault (Int × Buffer × List Piece) :=
  if b.readable = 0 then b.writeExtra 0 [] r₂
  else match r₁ with
    | .again => .ok (-1, b, [])
    | .epipe => .ok (0, b, [])
    | .failed => .error .aborted
    | .wrote n =>
        ({ b with rindex := b.rindex + n }).writeExtra n [⟨false, b.rindex, n⟩] r₂

/-- `_append`: the length goes through an `int`, and the storage is doubled at most once. -/
def append (b : Buffer) (mem : Bytes) : Except Fault Buffer :=
  let memlen := castInt mem.length
  let b := if castInt b.writeable < memlen then b.double else b
  if 0 ≤ memlen ∧ b.windex + memlen.toNat ≤ b.data.length then .ok (b.put (mem.take memlen.toNat))
  else .error .outOfStorage

/-- `append` of an `int32_t` or `uint32_t`, in network byte order. -/
def appendInt32 (b : Buffer) (num : Int) : Except Fault Buffer :=
  b.append (BigEndian.encode 4 (num % 2 ^ 32).toNat)

def appendExtra (b : Buffer) (extra : Bytes) : Buffer := { b with extraData := extra }

def clear (b : Buffer) : Buffer := { b with rindex := 0, windex := 0, extraIndex := 0 }

end Buffer

/-- A view into the read buffer; without a buffer it is the empty string. -/
structure BufferView where
  attached : Bool
  beginIdx : Nat
  endIdx : Nat
  deriving DecidableEq, Repr

namespace BufferView

def null : BufferView := ⟨false, 0, 0⟩

/-- `begin + length` with the length an `int` converted to `size_t`. -/
def shift (start : Nat) (length : Int) : Nat :=
  if 0 ≤ length then start + length.toNat else sizeSub start (-length).toNat

def ofLength (start : Nat) (length : Int) : BufferView := ⟨true, start, shift start length⟩

def size (v : BufferView) : Nat := sizeSub v.endIdx v.beginIdx

/-- The constructor of `std::string` throws `length_error` on a range that runs backwards. -/
def str (v : BufferView) (b : Buffer) : Except Fault Bytes :=
  if v.attached then
    if v.beginIdx ≤ v.endIdx then b.copy v.beginIdx (v.endIdx - v.beginIdx)
    else .error .thrown
  else .ok []

/-- `begin <= end <= _windex`. -/
def Inside (v : BufferView) (b : Buffer) : Prop := v.beginIdx ≤ v.endIdx ∧ v.endIdx ≤ b.windex

instance (v : BufferView) (b : Buffer) : Decidable (v.Inside b) :=
  inferInstanceAs (Decidable (_ ∧ _))

end BufferView

namespace Buffer
variable {b : Buffer}

/-- The two indices are in order and inside the storage. -/
structure Wf (b : Buffer) : Prop where
  order : b.rindex ≤ b.windex
  bound : b.windex ≤ b.data.length

instance (b : Buffer) : Decidable b.Wf :=
  decidable_of_iff (b.rindex ≤ b.windex ∧ b.windex ≤ b.data.length)
    ⟨fun h => ⟨h.1, h.2⟩, fun h => ⟨h.order, h.bound⟩⟩

theorem ofSize_wf (n : Nat) : (ofSize n).Wf := ⟨le_rfl, Nat.zero_le _⟩

/-- The bytes received and not yet consumed. -/
def unread (b : Buffer) : Bytes := (b.data.take b.windex).drop b.rindex

/-- The part of the extra segment the socket has not accepted. -/
def unsent (b : Buffer) : Bytes := b.extraData.drop b.extraIndex

theorem ofSize_unread (n : Nat) : (ofSize n).unread = [] := by simp [ofSize, unread]

theorem sizeSub_of_le {a c : Nat} (h : c ≤ a) : sizeSub a c = a - c := if_pos h

theorem Wf.unread_length (h : b.Wf) : b.unread.length = b.windex - b.rindex := by
  simp [unread, h.bound]

theorem Wf.readable_eq (h : b.Wf) : b.readable = b.unread.length := by
  rw [h.unread_length, readable, sizeSub_of_le h.order]

/-- A window inside the unread bytes does not depend on the storage behind them. -/
theorem Wf.window (h : b.Wf) {k n : Nat} (hk : k + n ≤ b.unread.length) :
    (b.data.drop (b.rindex + k)).take n = (b.unread.drop k).take n := by
  rw [h.unread_length] at hk
  have hb := h.order
  rw [unread, List.drop_drop, List.drop_take, List.take_take, Nat.min_eq_left (by omega)]

theorem Wf.copy_eq (h : b.Wf) {k n : Nat} (hk : k + n ≤ b.unread.length) :
    b.copy (b.rindex + k) n = .ok ((b.unread.drop k).take n) := by
  have hlen := h.unread_length
  have ho := h.order
  have hb := h.bound
  rw [copy, if_pos (by omega), h.window hk]

theorem Wf.search_eq (h : b.Wf) {k n : Nat} (hk : k + n ≤ b.unread.length) (pat : Bytes) :
    b.search pat (b.rindex + k) n = .ok (firstMatch pat ((b.unread.drop k).take n)) := by
  have hlen := h.unread_length
  have ho := h.order
  have hb := h.bound
  rw [search, h.window hk]
  cases firstMatch pat ((b.unread.drop k).take n) with
  | some i => rfl
  | none => exact if_pos (by omega)

theorem Wf.peekUint32_eq (h : b.Wf) (h4 : 4 ≤ b.unread.length) :
    b.peekUint32 = .ok (BigEndian.decode (b.unread.take 4)) := by
  have hc := h.copy_eq (k := 0) (n := 4) (by omega)
  rw [Nat.add_zero, List.drop_zero] at hc
  rw [peekUint32, hc]
  rfl

theorem Wf.peekInt32_eq (h : b.Wf) (h4 : 4 ≤ b.unread.length) :
    b.peekInt32 = .ok (castInt (BigEndian.decode (b.unread.take 4))) := by
  have hc := h.copy_eq (k := 0) (n := 4) (by omega)
  rw [Nat.add_zero, List.drop_zero] at hc
  rw [peekInt32, hc]
  rfl

theorem peekUint32_lt {n : Nat} (h : b.peekUint32 = .ok n) : n < 2 ^ 32 := by
  unfold peekUint32 copy at h
  split_ifs at h with fits
  · obtain rfl := Except.ok.inj h
    have hlen : ((b.data.drop b.rindex).take 4).length = 4 := by
      rw [List.length_take, List.length_drop]
      omega
    have hlt := BigEndian.decode_lt ((b.data.drop b.rindex).take 4)
    rw [hlen] at hlt
    exact hlt.trans_eq (by decide)
  · cases h

/-- With the read index past the write index `readable` wraps around. -/
theorem readable_wraps (h : b.windex < b.rindex) :
    b.readable = 2 ^ 64 - (b.rindex - b.windex) := if_neg (by omega)

@[simp] theorem retrieve_rindex (n : Nat) : (b.retrieve n).rindex = b.rindex + n := rfl
@[simp] theorem retrieve_windex (n : Nat) : (b.retrieve n).windex = b.windex := rfl
@[simp] theorem retrieve_data (n : Nat) : (b.retrieve n).data = b.data := rfl

@[simp] theorem unread_retrieve (n : Nat) : (b.retrieve n).unread = b.unread.drop n := by
  simp [unread, List.drop_drop]

theorem Wf.retrieve (h : b.Wf) {n : Nat} (hn : n ≤ b.unread.length) : (b.retrieve n).Wf := by
  rw [h.unread_length] at hn
  have ho := h.order
  exact ⟨by simp; omega, h.bound⟩

theorem Wf.put (h : b.Wf) {bs : Bytes} (room : b.windex + bs.length ≤ b.data.length) :
    (b.put bs).Wf ∧ (b.put bs).unread = b.unread ++ bs ∧
      (b.put bs).data.length = b.data.length := by
  have ho := h.order
  have hb := h.bound
  have hlen : (b.put bs).data.length = b.data.length := by
    simp only [Buffer.put, List.length_append, List.length_take, List.length_drop]
    omega
  refine ⟨⟨?_, ?_⟩, ?_, hlen⟩
  · show b.rindex ≤ b.windex + bs.length
    omega
  · rw [hlen]
    exact room
  · have ht : (b.data.take b.windex).length = b.windex := by simp [hb]
    have hw : (b.put bs).data.take (b.put bs).windex = b.data.take b.windex ++ bs := by
      have hl : (b.data.take b.windex ++ bs).length = b.windex + bs.length := by
        rw [List.length_append, ht]
      exact List.take_left' hl
    show ((b.put bs).data.take (b.put bs).windex).drop b.rindex = b.unread ++ bs
    rw [hw, List.drop_append_of_le_length (by rw [ht]; exact ho), unread]

@[simp] theorem double_unread (h : b.Wf) : b.double.unread = b.unread := by
  show ((b.data ++ _).take b.windex).drop b.rindex = b.unread
  rw [List.take_append_of_le_length h.bound, unread]

theorem Wf.double (h : b.Wf) : b.double.Wf :=
  ⟨h.order, by
    have hb := h.bound
    show b.windex ≤ (b.data ++ List.replicate b.data.length 0).length
    rw [List.length_append]
    omega⟩

/-- An `append` puts the low part of its length, where that is not negative and fits. -/
theorem append_ok {mem : Bytes} {b' : Buffer} (h : b.append mem = .ok b') :
    ∃ c, (c = b ∨ c = b.double) ∧ 0 ≤ castInt mem.length ∧
      c.windex + (castInt mem.length).toNat ≤ c.data.length ∧
      b' = c.put (mem.take (castInt mem.length).toNat) := by
  unfold append at h
  simp only at h
  split_ifs at h with grows fits fits
  · cases h
    exact ⟨_, Or.inr rfl, fits.1, fits.2, rfl⟩
  · cases h
    exact ⟨_, Or.inl rfl, fits.1, fits.2, rfl⟩

theorem double_length (b : Buffer) : b.double.data.length = 2 * b.data.length := by
  simp only [double, List.length_append, List.length_replicate]
  omega

/-- The piece's length is an `int`, and one doubling makes room for it. -/
def Fits (b : Buffer) (mem : Bytes) : Prop :=
  mem.length < 2 ^ 31 ∧ b.windex + mem.length ≤ 2 * b.data.length

/-- What a successful `append` leaves. -/
structure Appended (b b' : Buffer) (mem : Bytes) : Prop where
  wf : b'.Wf
  unread : b'.unread = b.unread ++ mem
  windex : b'.windex = b.windex + mem.length
  storage : b'.data.length = b.data.length ∨ b'.data.length = 2 * b.data.length
  extra : b'.extraData = b.extraData
  extraIndex : b'.extraIndex = b.extraIndex

theorem Wf.writeable_eq (h : b.Wf) : b.writeable = b.data.length - b.windex :=
  sizeSub_of_le h.bound

theorem Wf.append (h : b.Wf) {mem : Bytes} (fits : b.Fits mem) :
    ∃ b', b.append mem = .ok b' ∧ Appended b b' mem := by
  obtain ⟨small, room⟩ := fits
  have hb := h.bound
  have enough : ∀ c : Buffer, c = b ∨ c = b.double → c.windex + mem.length ≤ c.data.length →
      Appended b (c.put (mem.take mem.length)) mem := by
    intro c hc fit
    rw [List.take_length]
    rcases hc with rfl | rfl
    · obtain ⟨wf, unread, len⟩ := h.put fit
      exact ⟨wf, unread, rfl, Or.inl len, rfl, rfl⟩
    · obtain ⟨wf, unread, len⟩ := h.double.put fit
      exact ⟨wf, by rw [unread, double_unread h], rfl, Or.inr (by rw [len, double_length]), rfl, rfl⟩
  have len : (castInt mem.length).toNat = mem.length := by rw [castInt_of_lt small]; rfl
  have nonneg : 0 ≤ castInt mem.length := by rw [castInt_of_lt small]; omega
  unfold Buffer.append
  simp only [len]
  by_cases grows : castInt b.writeable < castInt mem.length
  · rw [if_pos grows]
    have fit : b.double.windex + mem.length ≤ b.double.data.length := by
      rw [double_length]
      exact room
    rw [if_pos ⟨nonneg, fit⟩]
    exact ⟨_, rfl, enough _ (Or.inr rfl) fit⟩
  · rw [if_neg grows]
    have fit : b.windex + mem.length ≤ b.data.length := by
      have free := castInt_le b.writeable
      rw [h.writeable_eq] at free grows
      rw [castInt_of_lt small] at grows
      omega
    rw [if_pos ⟨nonneg, fit⟩]
    exact ⟨_, rfl, enough _ (Or.inl rfl) fit⟩

/-- Only a piece that fits is there in full afterwards. -/
theorem Wf.fits_of_append (h : b.Wf) {mem : Bytes} {b' : Buffer} (appended : b.append mem = .ok b')
    (whole : b'.unread = b.unread ++ mem) : b.Fits mem := by
  obtain ⟨c, hc, nonneg, fit, rfl⟩ := append_ok appended
  have low := castInt_le mem.length
  have taken : (mem.take (castInt mem.length).toNat).length = (castInt mem.length).toNat := by
    rw [List.length_take]
    omega
  have hwf : c.Wf ∧ c.unread = b.unread ∧ c.windex = b.windex ∧ c.data.length ≤ 2 * b.data.length := by
    rcases hc with rfl | rfl
    · exact ⟨h, rfl, rfl, by omega⟩
    · exact ⟨h.double, double_unread h, rfl, (double_length b).le⟩
  obtain ⟨wf, same, windex, bound⟩ := hwf
  have put := (wf.put (by rw [taken]; exact fit)).2.1
  rw [whole, same, List.append_cancel_left_eq] at put
  have len := congrArg List.length put
  rw [taken] at len
  have top := castInt_lt mem.length
  exact ⟨by omega, by omega⟩

theorem Wf.makeRoom (h : b.Wf) : b.makeRoom.Wf ∧ b.makeRoom.unread = b.unread ∧
    b.makeRoom.rindex = b.rindex ∧ b.makeRoom.windex = b.windex := by
  unfold Buffer.makeRoom
  split_ifs
  · exact ⟨h.double, double_unread h, rfl, rfl⟩
  · exact ⟨h, rfl, rfl, rfl⟩

/-- A non-empty storage always has room for one more byte after `makeRoom`. -/
theorem Wf.makeRoom_room (h : b.Wf) (hpos : 0 < b.data.length) :
    b.windex < b.makeRoom.data.length := by
  have hb := h.bound
  unfold Buffer.makeRoom
  rw [h.writeable_eq]
  split_ifs with full
  · show b.windex < (b.data ++ List.replicate b.data.length 0).length
    rw [List.length_append, List.length_replicate]
    omega
  · omega

/-- A chunk of any length arrives through as many calls of `readFd` as it takes;
an empty one is a call that reports `EAGAIN`. -/
def recv (b : Buffer) (chunk : Bytes) : Buffer :=
  chunk.foldl (fun b x => b.makeRoom.put [x]) b.makeRoom

structure Received (b b' : Buffer) (chunk : Bytes) : Prop where
  wf : b'.Wf
  unread : b'.unread = b.unread ++ chunk
  rindex : b'.rindex = b.rindex
  windex : b.windex ≤ b'.windex
  storage : b.data.length ≤ b'.data.length
  kept : b'.data.take b.windex = b.data.take b.windex

theorem Received.trans {b₁ b₂ b₃ : Buffer} {c d : Bytes} (h : Received b₁ b₂ c)
    (k : Received b₂ b₃ d) : Received b₁ b₃ (c ++ d) :=
  ⟨k.wf, by rw [k.unread, h.unread, List.append_assoc], k.rindex.trans h.rindex,
    h.windex.trans k.windex, h.storage.trans k.storage, by
      have kept := congrArg (List.take b₁.windex) k.kept
      rwa [List.take_take, List.take_take, Nat.min_eq_left h.windex, h.kept] at kept⟩

/-- What lies below the write index is still there. -/
theorem Received.window {b b' : Buffer} {chunk : Bytes} (h : Received b b' chunk)
    {start n : Nat} (hn : start + n ≤ b.windex) :
    (b'.data.drop start).take n = (b.data.drop start).take n := by
  have below : ∀ data : Bytes,
      (data.drop start).take n = ((data.take b.windex).drop start).take n := by
    intro data
    rw [List.drop_take, List.take_take, Nat.min_eq_left (by omega)]
  rw [below, h.kept, ← below]

theorem makeRoom_kept (h : b.Wf) : b.makeRoom.data.take b.windex = b.data.take b.windex := by
  unfold makeRoom
  split_ifs
  · exact List.take_append_of_le_length h.bound
  · rfl

theorem makeRoom_storage (b : Buffer) : b.data.length ≤ b.makeRoom.data.length := by
  unfold makeRoom
  split_ifs
  · show b.data.length ≤ (b.data ++ _).length
    rw [List.length_append]
    omega
  · exact le_rfl

theorem Wf.received_makeRoom (h : b.Wf) : Received b b.makeRoom [] := by
  obtain ⟨wf, same, hr, hw⟩ := h.makeRoom
  exact ⟨wf, by rw [same, List.append_nil], hr, hw.ge, makeRoom_storage b, makeRoom_kept h⟩

theorem Wf.received_byte (h : b.Wf) (hpos : 0 < b.data.length) (x : UInt8) :
    Received b (b.makeRoom.put [x]) [x] := by
  obtain ⟨wf, same, hr, hw⟩ := h.makeRoom
  have room : b.makeRoom.windex + [x].length ≤ b.makeRoom.data.length := by
    rw [hw]
    exact h.makeRoom_room hpos
  obtain ⟨wf', unread', len'⟩ := wf.put room
  refine ⟨wf', by rw [unread', same], hr, ?_, by rw [len']; exact makeRoom_storage b, ?_⟩
  · show b.windex ≤ b.makeRoom.windex + 1
    omega
  · have hlen : (b.makeRoom.data.take b.windex).length = b.windex := by
      have hb := (wf.bound).trans' hw.ge
      rw [List.length_take, Nat.min_eq_left hb]
    show (b.makeRoom.data.take b.makeRoom.windex ++ [x] ++ _).take b.windex = _
    rw [hw, List.append_assoc, List.take_left' hlen, makeRoom_kept h]

/-- Receiving appends to the unread bytes, whatever the storage holds behind them. -/
theorem Wf.recv (h : b.Wf) (hpos : 0 < b.data.length) (chunk : Bytes) :
    Received b (b.recv chunk) chunk := by
  have bytes : ∀ (chunk : Bytes) (c : Buffer), c.Wf → 0 < c.data.length →
      Received c (chunk.foldl (fun b x => b.makeRoom.put [x]) c) chunk := by
    intro chunk
    induction chunk with
    | nil => exact fun c hc _ => ⟨hc, by simp, rfl, le_rfl, le_rfl, rfl⟩
    | cons x xs ih =>
        intro c hc hcpos
        have first := hc.received_byte hcpos x
        exact first.trans (ih _ first.wf (hcpos.trans_le first.storage))
  have start := h.received_makeRoom
  exact start.trans (bytes chunk _ start.wf (hpos.trans_le start.storage))

/-- What a read brings. -/
def ReadResult.bytes : ReadResult → Bytes
  | .data bs => bs
  | _ => []

theorem put_cons (x : UInt8) (xs : Bytes) (bound : b.windex + (x :: xs).length ≤ b.data.length) :
    (b.put [x]).put xs = b.put (x :: xs) := by
  have front : (b.data.take b.windex ++ [x]).length = b.windex + 1 := by
    rw [List.length_cons] at bound
    rw [List.length_append, List.length_take, List.length_singleton]
    omega
  have taken : (b.data.take b.windex ++ [x] ++ b.data.drop (b.windex + 1)).take (b.windex + 1) =
      b.data.take b.windex ++ [x] := List.take_left' front
  have left : (b.data.take b.windex ++ [x] ++ b.data.drop (b.windex + 1)).drop
      (b.windex + 1 + xs.length) = b.data.drop (b.windex + (x :: xs).length) := by
    rw [List.drop_append, List.drop_eq_nil_of_le (by omega), List.nil_append, List.drop_drop, front,
      List.length_cons]
    congr 1
    omega
  have bytes : b.data.take b.windex ++ [x] ++ xs = b.data.take b.windex ++ (x :: xs) := by
    rw [List.append_assoc, List.singleton_append]
  have index : b.windex + 1 + xs.length = b.windex + (x :: xs).length := by
    rw [List.length_cons]
    omega
  simp only [put, List.length_singleton, taken, bytes]
  rw [index] at left ⊢
  rw [left]

/-- A chunk that fits arrives in one read. -/
theorem Wf.recv_eq {bs : Bytes} (h : b.Wf) (fits : b.windex + bs.length ≤ b.makeRoom.data.length) :
    b.recv bs = b.makeRoom.put bs := by
  have bytes : ∀ (bs : Bytes) (c : Buffer), c.Wf → c.windex + bs.length ≤ c.data.length →
      bs.foldl (fun b x => b.makeRoom.put [x]) c = c.put bs := by
    intro bs
    induction bs with
    | nil =>
        intro c _ _
        simp [Buffer.put]
    | cons x xs ih =>
        intro c wf fits
        have room : c.makeRoom = c := by
          unfold Buffer.makeRoom
          rw [wf.writeable_eq, if_neg]
          rw [List.length_cons] at fits
          omega
        have one : c.windex + [x].length ≤ c.data.length := by
          rw [List.length_cons] at fits
          rw [List.length_singleton]
          omega
        obtain ⟨wf', _, len⟩ := wf.put one
        have more : (c.put [x]).windex + xs.length ≤ (c.put [x]).data.length := by
          rw [len]
          change c.windex + 1 + xs.length ≤ _
          rw [List.length_cons] at fits
          omega
        rw [List.foldl_cons, room, ih _ wf' more, put_cons x xs fits]
  obtain ⟨wf, _, _, windex⟩ := h.makeRoom
  exact bytes bs _ wf (by rw [windex]; exact fits)

/-- What a read leaves that brought something that fits, or nothing. -/
theorem Wf.readFd_recv {b' : Buffer} (h : b.Wf) {r : ReadResult} {n : Int} (read : b.readFd r = .ok (n, b'))
    (fits : ∀ bs, r = .data bs → b.windex + bs.length ≤ b.makeRoom.data.length) :
    b' = b.recv r.bytes := by
  cases r with
  | data bs =>
      cases read
      exact (h.recv_eq (fits bs rfl)).symm
  | eof =>
      cases read
      rfl
  | again =>
      cases read
      rfl
  | failed => cases read

end Buffer
end SmallRpc
