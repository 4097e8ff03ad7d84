import Mathlib.Algebra.Group.Nat.Defs
import Mathlib.Algebra.Order.Ring.Int
import Mathlib.Data.Int.DivMod
import Mathlib.Data.List.Basic

/-!
# Compression

`sc::CompressUtils` over zlib, which is not part of the repository: what zlib's functions return is a
parameter. `deflate` is called once with `Z_FINISH`; of `inflate`'s stream the state is kept. The loop of
the decoder has fuel, and no result where the fuel runs out.
-/

namespace SoulCoreKit.Utils

abbrev Bytes := List UInt8

/-- The return codes of zlib. -/
inductive Ret where
  | Z_OK
  | Z_STREAM_END
  | Z_NEED_DICT
  | Z_ERRNO
  | Z_STREAM_ERROR
  | Z_DATA_ERROR
  | Z_MEM_ERROR
  | Z_BUF_ERROR
  | Z_VERSION_ERROR
  deriving DecidableEq, Repr

/-- zlib: `deflate` gives what it writes with the given room, `inflate` what it writes and the stream
after it. -/
structure Zlib (Stream : Type) where
  deflateInit2 : (level windowBits : Int) → Ret
  deflate : (level windowBits : Int) → (input : Bytes) → (availOut : Nat) → Ret × Bytes
  inflateInit2 : (windowBits : Int) → (input : Bytes) → Ret × Stream
  inflate : Stream → (availOut : Nat) → Ret × Bytes × Stream
  availIn : Stream → Nat

namespace CompressUtils

variable {Stream : Type} (zlib : Zlib Stream)

/-- `QByteArray::resize`, for which a negative size is zero. -/
def resize (array : Bytes) (size : Int) : Bytes :=
  array.take size.toNat ++ List.replicate (size.toNat - array.length) 0

/-- The value of a `static_cast` to `int`. -/
def toInt (n : Nat) : Int := Int.bmod n (2 ^ 32)

def deflateCompress (data : Bytes) (level windowBits : Int) : Bytes :=
  if data.isEmpty then []
  else if zlib.deflateInit2 level windowBits ≠ .Z_OK then []
  else
    let input := data.take (data.length % 2 ^ 32)
    let availOut := (data.length + 1024) % 2 ^ 32
    let (ret, written) := zlib.deflate level windowBits input availOut
    if ret ≠ .Z_STREAM_END then []
    else
      let output := written ++ List.replicate (data.length + 1024 - written.length) 0
      resize output (toInt written.length)

/-- The loop of `inflateDecompress`, with a buffer of 8192 bytes. -/
def inflateLoop : Nat → Stream → Bytes → Option Bytes
  | 0, _, _ => none
  | fuel + 1, strm, output =>
      let (ret, written, strm) := zlib.inflate strm 8192
      if ret = .Z_NEED_DICT ∨ ret = .Z_DATA_ERROR ∨ ret = .Z_MEM_ERROR then some []
      else if ret = .Z_BUF_ERROR ∧ zlib.availIn strm = 0 then some []
      else if ret ≠ .Z_STREAM_END then inflateLoop fuel strm (output ++ written)
      else some (output ++ written)

def inflateDecompress (fuel : Nat) (data : Bytes) (windowBits : Int) : Option Bytes :=
  if data.isEmpty then some []
  else
    let (ret, strm) := zlib.inflateInit2 windowBits (data.take (data.length % 2 ^ 32))
    if ret ≠ .Z_OK then some [] else inflateLoop zlib fuel strm []

def gzipCompress (data : Bytes) (level : Int) : Bytes := deflateCompress zlib data level (15 + 16)

def gzipDecompress (fuel : Nat) (data : Bytes) : Option Bytes :=
  inflateDecompress zlib fuel data (15 + 16)

def zlibCompress (data : Bytes) (level : Int) : Bytes := deflateCompress zlib data level 15

def zlibDecompress (fuel : Nat) (data : Bytes) : Option Bytes := inflateDecompress zlib fuel data 15

end CompressUtils

end SoulCoreKit.Utils
