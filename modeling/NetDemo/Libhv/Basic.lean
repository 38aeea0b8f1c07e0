import NetDemo.Session.Basic
import NetDemo.Lib.ByteOrder
import NetDemo.Lib.StreamSplit

/-!
This module contains the two libhv programs: how the server frames a message, what the client tells
libhv about the frames and what it does with those that libhv delivers.
-/

namespace Libhv

def defaultPackageMaxLength : Nat :=
  2097152

inductive UnpackMode where
  | modeNone
  | byFixedLength
  | byDelimiter
  | byLengthField
  deriving DecidableEq, Repr

inductive UnpackCoding where
  | varint
  | littleEndian
  | bigEndian
  deriving DecidableEq, Repr

structure UnpackSetting where
  mode : UnpackMode
  packageMaxLength : Nat
  bodyOffset : Nat
  lengthFieldOffset : Nat
  lengthFieldBytes : Nat
  lengthAdjustment : Int
  lengthFieldCoding : UnpackCoding
  deriving DecidableEq, Repr

def memcpy (buf : Bytes) (offset : Nat) (src : Bytes) : Bytes :=
  buf.take offset ++ src ++ buf.drop (offset + src.length)

-- The frame that the sender thread of the server makes.
def bufNew (host : ByteOrder) (msg : Bytes) : Bytes :=
  let headerPrefix : UInt8 := 120
  let buf := List.replicate (msg.length + 5) 0
  let len2 := host.htonl msg.length
  let buf := memcpy buf 0 [headerPrefix]
  let buf := memcpy buf 1 (host.store 4 len2)
  memcpy buf 5 msg

def unpackSetting : UnpackSetting where
  mode := .byLengthField
  packageMaxLength := defaultPackageMaxLength
  bodyOffset := 5
  lengthFieldOffset := 1
  lengthFieldBytes := 4
  lengthAdjustment := 0
  lengthFieldCoding := .bigEndian

structure Message where
  size : Nat
  tLen : Nat
  msg : Bytes
  deriving DecidableEq, Repr

-- `long` has 4 bytes, the programs are built for Windows only.
def onMessage (host : ByteOrder) (buf : Bytes) : Message :=
  let size := buf.length
  let strLen := (buf.drop 1).take 4
  let len := host.load strLen
  { size := size
    tLen := host.ntohl len
    msg := (buf.drop 5).take (size - 5) }

-- The formula of hloop.h for a length field that is not a varint.
def UnpackSetting.packageLength (setting : UnpackSetting) (stream : Bytes) : Option Nat :=
  let body (order : ByteOrder) : Option Nat :=
    if setting.bodyOffset ≤ stream.length then
      let head := stream.take setting.bodyOffset
      let field := (head.drop setting.lengthFieldOffset).take setting.lengthFieldBytes
      some (setting.bodyOffset + order.load field + setting.lengthAdjustment).toNat
    else
      none
  match setting.lengthFieldCoding with
  | .littleEndian => body .little
  | .bigEndian => body .big
  | .varint => none

/--
What libhv promises for a setting of the length field mode whose field is not a varint: whatever the
chunks in which a stream arrives, the packages that it splits into are delivered. It promises
nothing for a stream in which a package longer than `package_max_length` is announced.
-/
def Unpacks (hio : UnpackSetting → List Bytes → List Bytes) : Prop :=
  ∀ (setting : UnpackSetting) (chunks pkgs : List Bytes) (rest : Bytes),
    setting.mode = .byLengthField → setting.lengthFieldCoding ≠ .varint →
      StreamSplit.Splits setting.packageLength setting.packageMaxLength chunks.flatten pkgs rest →
        hio setting chunks = pkgs

end Libhv
