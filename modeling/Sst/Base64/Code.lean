import Sst.Lib.Word

/-!
# Base64: the code

* `encspace`, `decspace`: the macros for the sizes of the buffers.
* `encode`, `decode`: the encoder and the decoder; memory is a list of bytes, and an access
  outside of it gives no result.
* `Decoder`, `Outcome`: the variables of the decoder's loop, and how the loop is left.
-/

namespace Sst.Base64

abbrev Bytes := List UInt8

/-- `SST_BASE64ENCSPACE`. -/
def encspace (size : ℕ) : ℕ := (size + 2) / 3 * 4 + 1

/-- `SST_BASE64DECSPACE`. -/
def decspace (len : ℕ) : ℕ := len * 3 / 4

/-- `SST_BASE64_URLSAFE`. -/
def urlSafe : BitVec 32 := 0x01#32

/-- `SST_BASE64_NOPAD`. -/
def noPad : BitVec 32 := 0x02#32

/-- Conversion to `int`. -/
def int (n : ℕ) : ℤ := Word.wrap 32 n

/-! ## Tables -/

def dectab : List ℤ := [
  -1, -1, -1, -1, -1, -1, -1, -1,
  -1, -1, -1, -1, -1, -1, -1, -1,
  -1, -1, -1, -1, -1, -1, -1, -1,
  -1, -1, -1, -1, -1, -1, -1, -1,
  -1, -1, -1, -1, -1, -1, -1, -1,
  -1, -1, -1, 62, -1, 62, -1, 63,
  52, 53, 54, 55, 56, 57, 58, 59,
  60, 61, -1, -1, -1, -1, -1, -1,
  -1,  0,  1,  2,  3,  4,  5,  6,
   7,  8,  9, 10, 11, 12, 13, 14,
  15, 16, 17, 18, 19, 20, 21, 22,
  23, 24, 25, -1, -1, -1, -1, 63,
  -1, 26, 27, 28, 29, 30, 31, 32,
  33, 34, 35, 36, 37, 38, 39, 40,
  41, 42, 43, 44, 45, 46, 47, 48,
  49, 50, 51, -1, -1, -1, -1, -1] ++ List.replicate 128 (-1)

def alphanumeric : List Char := [
  'A', 'B', 'C', 'D', 'E', 'F', 'G', 'H', 'I', 'J', 'K', 'L', 'M',
  'N', 'O', 'P', 'Q', 'R', 'S', 'T', 'U', 'V', 'W', 'X', 'Y', 'Z',
  'a', 'b', 'c', 'd', 'e', 'f', 'g', 'h', 'i', 'j', 'k', 'l', 'm',
  'n', 'o', 'p', 'q', 'r', 's', 't', 'u', 'v', 'w', 'x', 'y', 'z',
  '0', '1', '2', '3', '4', '5', '6', '7', '8', '9']

def convstd : Bytes := (alphanumeric ++ ['+', '/']).map Char.toUInt8

def convsafe : Bytes := (alphanumeric ++ ['-', '_']).map Char.toUInt8

def conv (flags : BitVec 32) : Bytes := if flags &&& urlSafe ≠ 0 then convsafe else convstd

/-! ## Encoding -/

/-- `mem[i] = x`. -/
def store (mem : Bytes) (i : ℕ) (x : UInt8) : Option Bytes :=
  if i < mem.length then some (mem.set i x) else none

def strlen : Bytes → Option ℕ
  | [] => none
  | x :: l => if x = 0 then some 0 else (strlen l).map (· + 1)

/-- `(uint32_t)x`. -/
def word (x : UInt8) : BitVec 32 := x.toBitVec.setWidth 32

/-- `conv[(v >> k) & 0x3f]`. -/
def convert (flags v : BitVec 32) (k : ℕ) : UInt8 :=
  (conv flags).getD (v >>> k &&& 0x3f#32).toNat 0

/-- The loop for complete groups: what is left of the data, the position in the string and the
string. -/
def encodeGroups (flags : BitVec 32) : Bytes → ℕ → Bytes → Option (Bytes × ℕ × Bytes)
  | b0 :: b1 :: b2 :: b, s, out => do
    let v := word b0 <<< 16 ||| word b1 <<< 8 ||| word b2 <<< 0
    let out ← store out s (convert flags v 18)
    let out ← store out (s + 1) (convert flags v 12)
    let out ← store out (s + 2) (convert flags v 6)
    let out ← store out (s + 3) (convert flags v 0)
    encodeGroups flags b (s + 4) out
  | b, s, out => some (b, s, out)

/-- The rest of the encoder: what it returns, and the string. -/
def encodeRest (flags : BitVec 32) (b : Bytes) (s : ℕ) (out : Bytes) : Option (ℤ × Bytes) :=
  match b with
  | [] => do
    let out ← store out s 0
    some (int s, out)
  | b0 :: b => do
    let pad : UInt8 := if flags &&& noPad ≠ 0 then 0 else '='.toUInt8
    let v := word b0 <<< 16
    let out ← store out (s + 4) 0
    let out ← store out (s + 3) pad
    let (v, out) ←
      match b with
      | b1 :: _ =>
        let v := v ||| word b1 <<< 8
        (store out (s + 2) (convert flags v 6)).map (v, ·)
      | [] => (store out (s + 2) pad).map (v, ·)
    let out ← store out (s + 1) (convert flags v 12)
    let out ← store out s (convert flags v 18)
    let len ← strlen (out.drop s)
    some (int (s + len), out)

/-- `sst_base64encode`; `out` is the memory from `out_str` on. -/
def encode (buf out : Bytes) (flags : BitVec 32) : Option (ℤ × Bytes) := do
  let (b, s, out) ← encodeGroups flags buf 0 out
  encodeRest flags b s out

/-! ## Decoding -/

/-- The positions in the string and in the buffer, and the memory from `out_buf` on. -/
structure Decoder where
  s : ℕ
  b : ℕ
  out : Bytes
  deriving DecidableEq

inductive Outcome
  /-- `break` leaves the loop. -/
  | stopped (d : Decoder)
  /-- The buffer is full. -/
  | full (out : Bytes)
  /-- An access outside of the string or of the memory, or no end of the loop. -/
  | stray
  deriving DecidableEq

section

variable (str : Bytes) (bmax : ℕ)

/-- `DECODE`. -/
def fetch (d : Decoder) (next : BitVec 32 → Decoder → Outcome) : Outcome :=
  match str[d.s]? with
  | none => .stray
  | some x =>
    let d := { d with s := d.s + 1 }
    let c := dectab.getD x.toNat 0
    if c < 0 then .stopped d else next (.ofInt 32 c) d

/-- `OUTPUT`. -/
def output (v : BitVec 32) (d : Decoder) (next : Decoder → Outcome) : Outcome :=
  if d.b = bmax then .full d.out
  else
    match store d.out d.b (.ofBitVec (v.setWidth 8)) with
    | none => .stray
    | some out => next { d with out, b := d.b + 1 }

/-- The body of the loop. -/
def decodeGroup (d : Decoder) (next : Decoder → Outcome) : Outcome :=
  fetch str d fun c d =>
  let v := c <<< 18
  fetch str d fun c d =>
  let v := v ||| c <<< 12
  output bmax (v >>> 16) d fun d =>
  fetch str d fun c d =>
  let v := v ||| c <<< 6
  output bmax (v >>> 8) d fun d =>
  fetch str d fun c d =>
  let v := v ||| c
  output bmax v d next

/-- The loop, for a number of turns. -/
def decodeLoop : ℕ → Decoder → Outcome
  | 0, _ => .stray
  | n + 1, d => decodeGroup str bmax d (decodeLoop n)

end

/-- What the decoder returns, what it sets the size to, and the memory. -/
structure Decoded where
  ret : ℤ
  size : ℕ
  out : Bytes
  deriving DecidableEq

/-- `sst_base64decode`; `str` is the memory from the string on, and each turn takes at least one
byte of it. -/
def decode (str out : Bytes) (size : ℕ) : Option Decoded :=
  match decodeLoop str size str.length ⟨0, 0, out⟩ with
  | .stopped d => some ⟨int d.s, d.b, d.out⟩
  | .full out => some ⟨-1, size, out⟩
  | .stray => none

end Sst.Base64
