import SortKey.Bytes

namespace SortKey
namespace Xxh3

/-!
# The 64-bit XXH3 hash

The hash with seed zero and the default secret.  Input is read as
little-endian words.  Short inputs take one of five paths by length; inputs
of more than 240 octets go through eight lanes, 64 octets at a time, which
are scrambled after every 1024 octets.
-/

/-- The default secret, as hexadecimal digits. -/
def secretDigits : String :=
  "b8fe6c3923a44bbe7c01812cf721ad1cded46de9839097db7240a4a4b7b3671f" ++
  "cb79e64eccc0e578825ad07dccff7221b8084674f743248ee03590e6813a264c" ++
  "3c2852bb91c300cb88d0658b1b532ea371644897a20df94e3819ef46a9deacd8" ++
  "a8fa763fe39c343ff9dcbbc7c70b4f1d8a51e04bcdb45931c89f7ec9d9787364" ++
  "eac5ac8334d3ebc3c581a0fffa1363eb170ddd51b7f0da49d316552629d4689e" ++
  "2b16be587d47a1fc8ff8b8d17ad031ce45cb3a8f95160428afd7fbcabb4b407e"

def digitValue (c : Char) : Nat :=
  if c.toNat < 58 then c.toNat - 48 else c.toNat - 87

def octetsOfDigits : List Char -> Bytes
  | high :: low :: rest => UInt8.ofNat (digitValue high * 16 + digitValue low) :: octetsOfDigits rest
  | _ => []

def secret : Array UInt8 :=
  (octetsOfDigits secretDigits.toList).toArray

def prime32A : UInt64 := 0x9E3779B1
def prime32B : UInt64 := 0x85EBCA77
def prime32C : UInt64 := 0xC2B2AE3D
def primeA : UInt64 := 0x9E3779B185EBCA87
def primeB : UInt64 := 0xC2B2AE3D27D4EB4F
def primeC : UInt64 := 0x165667B19E3779F9
def primeD : UInt64 := 0x85EBCA77C2B2AE63
def primeE : UInt64 := 0x27D4EB2F165667C5
def primeMix : UInt64 := 0x9FB21C651E98DF25
def primeEnd : UInt64 := 0x165667919E3779F9

/-- One octet; zero outside. -/
def octetAt (data : Array UInt8) (pos : Nat) : UInt64 :=
  (data.getD pos 0).toUInt64

/-- Four octets, the least significant first. -/
def word32 (data : Array UInt8) (pos : Nat) : UInt64 :=
  octetAt data pos ||| octetAt data (pos + 1) <<< 8 ||| octetAt data (pos + 2) <<< 16 |||
    octetAt data (pos + 3) <<< 24

/-- Eight octets, the least significant first. -/
def word64 (data : Array UInt8) (pos : Nat) : UInt64 :=
  word32 data pos ||| word32 data (pos + 4) <<< 32

/-- Eight octets, the most significant first. -/
def swapped64 (n : UInt64) : UInt64 :=
  (List.range 8).foldl (fun out i => out <<< 8 ||| (n >>> (8 * i).toUInt64 &&& 0xFF)) 0

def rotate (n count : UInt64) : UInt64 :=
  n <<< count ||| n >>> (64 - count)

/-- The two halves of a product of 128 bits, combined. -/
def foldedProduct (a b : UInt64) : UInt64 :=
  let product := a.toNat * b.toNat
  UInt64.ofNat product ^^^ UInt64.ofNat (product >>> 64)

/-- The last mixing of most paths. -/
def avalanche (h : UInt64) : UInt64 :=
  let h := (h ^^^ h >>> 37) * primeEnd
  h ^^^ h >>> 32

/-- The last mixing of the shortest inputs. -/
def avalancheShort (h : UInt64) : UInt64 :=
  let h := (h ^^^ h >>> 33) * primeB
  let h := (h ^^^ h >>> 29) * primeC
  h ^^^ h >>> 32

/-- Mix sixteen octets of input with sixteen of the secret. -/
def mixed (data : Array UInt8) (pos key : Nat) : UInt64 :=
  foldedProduct (word64 data pos ^^^ word64 secret key) (word64 data (pos + 8) ^^^ word64 secret (key + 8))

def upTo3 (data : Array UInt8) : UInt64 :=
  let len := data.size
  let joined := octetAt data 0 <<< 16 ||| octetAt data (len / 2) <<< 24 ||| octetAt data (len - 1) |||
    len.toUInt64 <<< 8
  avalancheShort (joined ^^^ (word32 secret 0 ^^^ word32 secret 4))

def upTo8 (data : Array UInt8) : UInt64 :=
  let len := data.size
  let joined := word32 data (len - 4) + word32 data 0 <<< 32
  let h := joined ^^^ (word64 secret 8 ^^^ word64 secret 16)
  let h := (h ^^^ rotate h 49 ^^^ rotate h 24) * primeMix
  let h := (h ^^^ (h >>> 35 + len.toUInt64)) * primeMix
  h ^^^ h >>> 28

def upTo16 (data : Array UInt8) : UInt64 :=
  let len := data.size
  let low := word64 data 0 ^^^ (word64 secret 24 ^^^ word64 secret 32)
  let high := word64 data (len - 8) ^^^ (word64 secret 40 ^^^ word64 secret 48)
  avalanche (len.toUInt64 + swapped64 low + high + foldedProduct low high)

/-- Inputs of 17 to 128 octets: pairs of parts from both ends. -/
def upTo128 (data : Array UInt8) : UInt64 :=
  let len := data.size
  let parts := (len - 1) / 32 + 1
  avalanche <| (List.range parts).foldl
    (fun acc i => acc + mixed data (16 * i) (32 * i) + mixed data (len - 16 * (i + 1)) (32 * i + 16))
    (len.toUInt64 * primeA)

def upTo240 (data : Array UInt8) : UInt64 :=
  let len := data.size
  let first := (List.range 8).foldl (fun acc i => acc + mixed data (16 * i) (16 * i))
    (len.toUInt64 * primeA)
  let more := (List.range (len / 16 - 8)).foldl
    (fun acc i => acc + mixed data (16 * (i + 8)) (16 * i + 3)) (avalanche first)
  avalanche (more + mixed data (len - 16) 119)

abbrev Lanes := Array UInt64

def startLanes : Lanes :=
  #[prime32C, primeA, primeB, primeC, primeD, prime32B, primeE, prime32A]

/-- Take 64 octets into the lanes. -/
def absorb (data : Array UInt8) (pos key : Nat) (lanes : Lanes) : Lanes :=
  Array.ofFn fun i : Fin 8 =>
    let own := word64 data (pos + 8 * i) ^^^ word64 secret (key + 8 * i)
    let neighbour := if i.val % 2 = 0 then i.val + 1 else i.val - 1
    lanes.getD i 0 + word64 data (pos + 8 * neighbour) + (own &&& (0xFFFFFFFF : UInt64)) * (own >>> 32)

/-- Stir the lanes after a block. -/
def scramble (lanes : Lanes) : Lanes :=
  Array.ofFn fun i : Fin 8 =>
    let lane := lanes.getD i 0
    (lane ^^^ lane >>> 47 ^^^ word64 secret (128 + 8 * i)) * prime32A

/-- Take `count` runs of 64 octets from a position. -/
def absorbRuns (data : Array UInt8) (pos count : Nat) (lanes : Lanes) : Lanes :=
  (List.range count).foldl (fun lanes n => absorb data (pos + 64 * n) (8 * n) lanes) lanes

def merged (lanes : Lanes) (start : UInt64) : UInt64 :=
  avalanche <| (List.range 4).foldl
    (fun acc i => acc + foldedProduct
      (lanes.getD (2 * i) 0 ^^^ word64 secret (11 + 16 * i))
      (lanes.getD (2 * i + 1) 0 ^^^ word64 secret (19 + 16 * i)))
    start

/-- Inputs of more than 240 octets. -/
def long (data : Array UInt8) : UInt64 :=
  let len := data.size
  let blocks := (len - 1) / 1024
  let lanes := (List.range blocks).foldl
    (fun lanes block => scramble (absorbRuns data (1024 * block) 16 lanes)) startLanes
  let lanes := absorbRuns data (1024 * blocks) ((len - 1 - 1024 * blocks) / 64) lanes
  merged (absorb data (len - 64) 121 lanes) (len.toUInt64 * primeA)

/-- The hash of octets. -/
def hash (bytes : Bytes) : UInt64 :=
  let data := bytes.toArray
  let len := data.size
  if len = 0 then avalancheShort (word64 secret 56 ^^^ word64 secret 64)
  else if len ≤ 3 then upTo3 data
  else if len ≤ 8 then upTo8 data
  else if len ≤ 16 then upTo16 data
  else if len ≤ 128 then upTo128 data
  else if len ≤ 240 then upTo240 data
  else long data

end Xxh3
end SortKey
