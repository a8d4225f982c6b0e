import Mathlib.Data.List.Basic

/-!
# `DefaultHasher`

`CountMinSketch::hash_with_seed` feeds the row index and the value to a fresh
`std::collections::hash_map::DefaultHasher`, which is SipHash-1-3 keyed with zeros.
`u64::hash` writes the eight little-endian bytes of the seed and `str::hash` writes
the UTF-8 bytes of the value followed by `0xff`; SipHash reads the concatenated
byte stream. The general theorems about the sketch hold for any hash; the concrete
value matters only where a run on fixed words is evaluated.
-/

namespace RustSrec.Danmaku

/-- The four SipHash state words. -/
structure SipState where
  v0 : UInt64
  v1 : UInt64
  v2 : UInt64
  v3 : UInt64

def rotl (x b : UInt64) : UInt64 := (x <<< b) ||| (x >>> (64 - b))

def sipRound (s : SipState) : SipState :=
  let v0 := s.v0 + s.v1
  let v1 := rotl s.v1 13 ^^^ v0
  let v0 := rotl v0 32
  let v2 := s.v2 + s.v3
  let v3 := rotl s.v3 16 ^^^ v2
  let v0 := v0 + v3
  let v3 := rotl v3 21 ^^^ v0
  let v2 := v2 + v1
  let v1 := rotl v1 17 ^^^ v2
  let v2 := rotl v2 32
  ⟨v0, v1, v2, v3⟩

/-- One message word, with SipHash-1-3's single compression round. -/
def compress (s : SipState) (m : UInt64) : SipState :=
  let s := sipRound { s with v3 := s.v3 ^^^ m }
  { s with v0 := s.v0 ^^^ m }

/-- Up to eight bytes read as a little-endian word. -/
def leWord : List UInt8 → UInt64
  | [] => 0
  | b :: bs => b.toUInt64 ||| (leWord bs <<< 8)

/-- Compress every full eight-byte block; return the state and the tail. -/
def absorb : SipState → List UInt8 → SipState × List UInt8
  | s, b0 :: b1 :: b2 :: b3 :: b4 :: b5 :: b6 :: b7 :: rest =>
      absorb (compress s (leWord [b0, b1, b2, b3, b4, b5, b6, b7])) rest
  | s, tail => (s, tail)

/-- SipHash-1-3 of a byte stream under the key `(k0, k1)`. -/
def sipHash13 (k0 k1 : UInt64) (msg : List UInt8) : UInt64 :=
  let s : SipState := ⟨k0 ^^^ 0x736f6d6570736575, k1 ^^^ 0x646f72616e646f6d,
    k0 ^^^ 0x6c7967656e657261, k1 ^^^ 0x7465646279746573⟩
  let (s, tail) := absorb s msg
  let s := compress s ((msg.length.toUInt64 <<< 56) ||| leWord tail)
  let s := sipRound (sipRound (sipRound { s with v2 := s.v2 ^^^ 0xff }))
  s.v0 ^^^ s.v1 ^^^ s.v2 ^^^ s.v3

/-- The bytes `u64::hash` writes: `to_ne_bytes` on a little-endian target. -/
def u64Bytes (n : UInt64) : List UInt8 :=
  (List.range 8).map fun i => (n >>> (8 * i.toUInt64)).toUInt8

/-- The bytes `str::hash` writes: the UTF-8 encoding, then `0xff`. -/
def strBytes (s : String) : List UInt8 := s.data.flatMap String.utf8EncodeChar ++ [0xff]

/-- `CountMinSketch::hash_with_seed`. -/
def hashWithSeed (value : String) (seed : UInt64) : UInt64 :=
  sipHash13 0 0 (u64Bytes seed ++ strBytes value)

end RustSrec.Danmaku
