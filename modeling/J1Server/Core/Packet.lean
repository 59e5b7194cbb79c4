import J1Server.Core.Words
import Mathlib.Data.List.Basic
import Mathlib.Data.List.Infix

/-! # PacketUtil

A packet is a header of four bytes and a protobuf message. -/

namespace Core

/-! ## Headers -/

structure PacketHeader where
  length : Int16
  code : Int16
  deriving DecidableEq

def sizeofPacketHeader : Nat := 4

def bytesOfShort (x : Int16) : List UInt8 :=
  [UInt8.ofNat x.toUInt16.toNat, UInt8.ofNat (x.toUInt16.toNat / 256)]

def shortOfBytes (lo hi : UInt8) : Int16 := (UInt16.ofNat (lo.toNat + 256 * hi.toNat)).toInt16

def PacketHeader.bytes (h : PacketHeader) : List UInt8 := bytesOfShort h.length ++ bytesOfShort h.code

theorem shortOfBytes_bytesOfShort (x : Int16) :
    shortOfBytes (UInt8.ofNat x.toUInt16.toNat) (UInt8.ofNat (x.toUInt16.toNat / 256)) = x := by
  have hlt : x.toUInt16.toNat < 65536 := x.toUInt16.toNat_lt
  have hsum : (UInt8.ofNat x.toUInt16.toNat).toNat + 256 * (UInt8.ofNat (x.toUInt16.toNat / 256)).toNat =
      x.toUInt16.toNat := by
    simp only [UInt8.toNat_ofNat']
    omega
  rw [shortOfBytes, hsum, UInt16.ofNat_toNat, Int16.toInt16_toUInt16]

theorem bytesOfShort_shortOfBytes (lo hi : UInt8) : bytesOfShort (shortOfBytes lo hi) = [lo, hi] := by
  have hlo : lo.toNat < 256 := lo.toNat_lt
  have hhi : hi.toNat < 256 := hi.toNat_lt
  have hword : (shortOfBytes lo hi).toUInt16.toNat = lo.toNat + 256 * hi.toNat := by
    rw [shortOfBytes, UInt16.toUInt16_toInt16, UInt16.toNat_ofNat']
    omega
  have hlow : UInt8.ofNat (lo.toNat + 256 * hi.toNat) = lo := by
    apply UInt8.toNat_inj.mp
    rw [UInt8.toNat_ofNat']
    omega
  have hhigh : UInt8.ofNat ((lo.toNat + 256 * hi.toNat) / 256) = hi := by
    apply UInt8.toNat_inj.mp
    rw [UInt8.toNat_ofNat']
    omega
  rw [bytesOfShort, hword, hlow, hhigh]

/-! ## Messages -/

/-- What the code calls of a protobuf message class. -/
structure Protobuf (M : Type) where
  byteSizeLong : M → Nat
  /-- The bytes that `SerializeToArray` writes. -/
  serialized : M → List UInt8
  parseFromArray : List UInt8 → Option M

/-- What the code counts on: a message of less than 2 GiB is written in `ByteSizeLong` bytes, and read
back from them. -/
structure Protobuf.Lawful {M : Type} (P : Protobuf M) : Prop where
  limit : ∀ m, P.byteSizeLong m < 2 ^ 31
  length_serialized : ∀ m, (P.serialized m).length = P.byteSizeLong m
  parse_serialized : ∀ m, P.parseFromArray (P.serialized m) = some m

/-- A message that lost its last bytes is not the same message. -/
def Protobuf.NoneSpare {M : Type} (P : Protobuf M) : Prop :=
  ∀ m bs, bs <+: P.serialized m → P.parseFromArray bs = some m → bs = P.serialized m

variable {M : Type} (P : Protobuf M)

def Protobuf.serializeToArray (size : Int) (msg : M) : Option (List UInt8) :=
  if (P.byteSizeLong msg : Int) ≤ size then some (P.serialized msg) else none

def requiredSize (msg : M) : Nat := sizeofPacketHeader + P.byteSizeLong msg

/-- The length of the header is a `short`, whatever the size of the message. -/
def headerOf (packetCode : Int16) (msg : M) : PacketHeader := ⟨Int16.ofNat (P.byteSizeLong msg), packetCode⟩

def serialize (buffer : List UInt8) (packetCode : Int16) (msg : M) : Bool × List UInt8 :=
  if buffer.length < requiredSize P msg then (false, buffer)
  else
    let payload := buffer.drop sizeofPacketHeader
    match P.serializeToArray (toInt32 (toInt32 buffer.length - sizeofPacketHeader)) msg with
    | some bytes => (true, (headerOf P packetCode msg).bytes ++ (bytes ++ payload.drop bytes.length))
    | none => (false, (headerOf P packetCode msg).bytes ++ payload)

/-- The bytes that `SendPacket` hands to `Send`: it does not look at what `Serialize` returns. -/
def sendPacket (msg : M) (packetCode : Int16) : List UInt8 :=
  (serialize P (List.replicate (requiredSize P msg) 0) packetCode msg).2

/-- The header of a buffer, read at `offset`, and the offset after it. -/
def parseHeader (buffer : List UInt8) (offset : Nat) : Option (PacketHeader × Nat) :=
  if buffer.length ≤ offset then none
  else
    match buffer.drop offset with
    | b₀ :: b₁ :: b₂ :: b₃ :: _ =>
      some (⟨shortOfBytes b₀ b₁, shortOfBytes b₂ b₃⟩, offset + sizeofPacketHeader)
    | _ => none

/-- The message at the start of a buffer: `offset` is only counted on. -/
def parse (buffer : List UInt8) (payloadSize : Nat) (offset : Int) : Option (M × Int) :=
  (P.parseFromArray (buffer.take payloadSize)).map fun msg =>
    (msg, offset + toInt32 (P.byteSizeLong msg))

/-! ## Repeated fields -/

/-- The repeated fields of which a handler reads the element at 0. -/
inductive RepeatedField
  | registinfo
  | purchaseinfo
  | characters
  deriving DecidableEq

/-- `Get(0)` does not look at the size: where there is no element, nothing is said of what happens. -/
def element {α : Type} (field : RepeatedField) : List α → Except RepeatedField α
  | [] => .error field
  | a :: _ => .ok a

theorem element_bind {α β : Type} (field : RepeatedField) {as : List α} (h : as ≠ [])
    (f : α → Except RepeatedField β) : element field as >>= f = f (as.head h) := by
  cases as with
  | nil => exact absurd rfl h
  | cons a as => rfl

/-! ## What is on the wire -/

variable {P}

theorem bytes_shortOfBytes (b₀ b₁ b₂ b₃ : UInt8) :
    (⟨shortOfBytes b₀ b₁, shortOfBytes b₂ b₃⟩ : PacketHeader).bytes = [b₀, b₁, b₂, b₃] := by
  simp only [PacketHeader.bytes, bytesOfShort_shortOfBytes]
  rfl

theorem headerOf_bytes (h : PacketHeader) :
    ∃ b₀ b₁ b₂ b₃, h.bytes = [b₀, b₁, b₂, b₃] ∧ (⟨shortOfBytes b₀ b₁, shortOfBytes b₂ b₃⟩ : PacketHeader) = h :=
  ⟨_, _, _, _, rfl, by rw [shortOfBytes_bytesOfShort, shortOfBytes_bytesOfShort]⟩

/-- The two casts of the buffer's size lose nothing but the header. -/
theorem toInt32_payload (n : Nat) (h : n < 2 ^ 31) :
    toInt32 (toInt32 ((sizeofPacketHeader + n : Nat) : Int) - sizeofPacketHeader) = n := by
  have hcast : toInt32 (toInt32 ((sizeofPacketHeader + n : Nat) : Int) - sizeofPacketHeader) = toInt32 n := by
    rw [toInt32, toInt32, toInt32, Int.bmod_sub_bmod]
    congr 1
    rw [Nat.cast_add]
    omega
  rw [hcast, (toInt32_eq_iff n).mpr (by omega)]

theorem serialize_required (hP : P.Lawful) (msg : M) (packetCode : Int16) :
    serialize P (List.replicate (requiredSize P msg) 0) packetCode msg =
      (true, (headerOf P packetCode msg).bytes ++ P.serialized msg) := by
  have hwrite : P.serializeToArray
      (toInt32 (toInt32 ((requiredSize P msg : Nat) : Int) - sizeofPacketHeader)) msg =
        some (P.serialized msg) := by
    rw [requiredSize, toInt32_payload _ (hP.limit msg), Protobuf.serializeToArray, if_pos (le_refl _)]
  have hrest : ((List.replicate (requiredSize P msg) (0 : UInt8)).drop sizeofPacketHeader).drop
      (P.serialized msg).length = [] := by
    rw [List.drop_drop, List.drop_replicate, requiredSize, hP.length_serialized, Nat.sub_self,
      List.replicate_zero]
  simp only [serialize, List.length_replicate, Nat.lt_irrefl, if_false, hwrite, hrest, List.append_nil]

theorem sendPacket_eq (hP : P.Lawful) (msg : M) (packetCode : Int16) :
    sendPacket P msg packetCode = (headerOf P packetCode msg).bytes ++ P.serialized msg := by
  rw [sendPacket, serialize_required hP]

/-- The size of a message fits a header if and only if it is at most `SHRT_MAX`. -/
theorem length_headerOf_eq_iff (hP : P.Lawful) (msg : M) (packetCode : Int16) :
    (headerOf P packetCode msg).length.toInt = P.byteSizeLong msg ↔ P.byteSizeLong msg ≤ 32767 := by
  have := hP.limit msg
  simp only [headerOf, Int16.toInt_ofNat', Int16.size, Int.bmod_def]
  omega

theorem length_headerOf_le (P : Protobuf M) (msg : M) (packetCode : Int16) :
    (headerOf P packetCode msg).length.toInt ≤ P.byteSizeLong msg := by
  simp only [headerOf, Int16.toInt_ofNat', Int16.size, Int.bmod_def]
  omega

end Core
