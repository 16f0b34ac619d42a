/-! # SHA-256

The hash that `hashlib.sha256(...).hexdigest()` computes (FIPS 180-4), on a list
of bytes. -/
namespace AgenticDelivery.Data.Sha256

def roundConstants : List UInt32 := [
  0x428a2f98, 0x71374491, 0xb5c0fbcf, 0xe9b5dba5, 0x3956c25b, 0x59f111f1, 0x923f82a4, 0xab1c5ed5,
  0xd807aa98, 0x12835b01, 0x243185be, 0x550c7dc3, 0x72be5d74, 0x80deb1fe, 0x9bdc06a7, 0xc19bf174,
  0xe49b69c1, 0xefbe4786, 0x0fc19dc6, 0x240ca1cc, 0x2de92c6f, 0x4a7484aa, 0x5cb0a9dc, 0x76f988da,
  0x983e5152, 0xa831c66d, 0xb00327c8, 0xbf597fc7, 0xc6e00bf3, 0xd5a79147, 0x06ca6351, 0x14292967,
  0x27b70a85, 0x2e1b2138, 0x4d2c6dfc, 0x53380d13, 0x650a7354, 0x766a0abb, 0x81c2c92e, 0x92722c85,
  0xa2bfe8a1, 0xa81a664b, 0xc24b8b70, 0xc76c51a3, 0xd192e819, 0xd6990624, 0xf40e3585, 0x106aa070,
  0x19a4c116, 0x1e376c08, 0x2748774c, 0x34b0bcb5, 0x391c0cb3, 0x4ed8aa4a, 0x5b9cca4f, 0x682e6ff3,
  0x748f82ee, 0x78a5636f, 0x84c87814, 0x8cc70208, 0x90befffa, 0xa4506ceb, 0xbef9a3f7, 0xc67178f2]

def rotr (x n : UInt32) : UInt32 := (x >>> n) ||| (x <<< (32 - n))

/-- The eight working variables. -/
structure Working where
  (a b c d e f g h : UInt32)

def initial : Working :=
  ⟨0x6a09e667, 0xbb67ae85, 0x3c6ef372, 0xa54ff53a, 0x510e527f, 0x9b05688c, 0x1f83d9ab, 0x5be0cd19⟩

def round (s : Working) (k w : UInt32) : Working :=
  let s1 := rotr s.e 6 ^^^ rotr s.e 11 ^^^ rotr s.e 25
  let ch := (s.e &&& s.f) ^^^ (~~~s.e &&& s.g)
  let t1 := s.h + s1 + ch + k + w
  let s0 := rotr s.a 2 ^^^ rotr s.a 13 ^^^ rotr s.a 22
  let maj := (s.a &&& s.b) ^^^ (s.a &&& s.c) ^^^ (s.b &&& s.c)
  ⟨t1 + (s0 + maj), s.a, s.b, s.c, s.d + t1, s.e, s.f, s.g⟩

/-- The next word of the message schedule, from the sixteen before it. -/
def nextWord (w : List UInt32) : UInt32 :=
  let w1 := w.getD 1 0
  let w14 := w.getD 14 0
  let s0 := rotr w1 7 ^^^ rotr w1 18 ^^^ (w1 >>> 3)
  let s1 := rotr w14 17 ^^^ rotr w14 19 ^^^ (w14 >>> 10)
  w.getD 0 0 + s0 + w.getD 9 0 + s1

/-- The rounds of one block; `w` holds the sixteen schedule words still needed. -/
def rounds : List UInt32 → List UInt32 → Working → Working
  | [], _, s => s
  | k :: ks, w, s => rounds ks (w.tail ++ [nextWord w]) (round s k (w.headD 0))

def compress (s : Working) (block : List UInt32) : Working :=
  let r := rounds roundConstants block s
  ⟨s.a + r.a, s.b + r.b, s.c + r.c, s.d + r.d, s.e + r.e, s.f + r.f, s.g + r.g, s.h + r.h⟩

def words : List UInt8 → List UInt32
  | a :: b :: c :: d :: rest =>
    ((a.toUInt32 <<< 24) ||| (b.toUInt32 <<< 16) ||| (c.toUInt32 <<< 8) ||| d.toUInt32) ::
      words rest
  | _ => []

/-- The message, a one bit, zeros, and the bit length in eight bytes. -/
def pad (message : List UInt8) : List UInt8 :=
  message ++ (0x80 : UInt8) :: List.replicate ((119 - message.length % 64) % 64) 0 ++
    (List.range 8).map fun i => UInt8.ofNat ((8 * message.length) >>> (8 * (7 - i)))

def blocks : Nat → List UInt32 → Working → Working
  | 0, _, s => s
  | n + 1, w, s => blocks n (w.drop 16) (compress s (w.take 16))

def hexDigits : List Char := "0123456789abcdef".toList

def hexWord (w : UInt32) : List Char :=
  (List.range 8).map fun i => hexDigits.getD ((w.toNat >>> (4 * (7 - i))) % 16) '0'

def hexdigest (message : List UInt8) : String :=
  let w := words (pad message)
  let s := blocks (w.length / 16) w initial
  String.ofList ([s.a, s.b, s.c, s.d, s.e, s.f, s.g, s.h].flatMap hexWord)

theorem hexWord_subset (w : UInt32) : ∀ c ∈ hexWord w, c ∈ hexDigits := by
  intro c hc
  obtain ⟨i, -, rfl⟩ := List.mem_map.mp hc
  have hlt : (w.toNat >>> (4 * (7 - i))) % 16 < hexDigits.length := Nat.mod_lt _ (by decide)
  rw [List.getD_eq_getElem?_getD, List.getElem?_eq_getElem hlt, Option.getD_some]
  exact List.getElem_mem hlt

/-- A hex digest holds hexadecimal digits only. -/
theorem hexdigest_subset (message : List UInt8) :
    ∀ c ∈ (hexdigest message).toList, c ∈ hexDigits := by
  intro c hc
  simp only [hexdigest, String.toList_ofList] at hc
  obtain ⟨w, -, hw⟩ := List.mem_flatMap.mp hc
  exact hexWord_subset w c hw

theorem hexdigest_length (message : List UInt8) : (hexdigest message).toList.length = 64 := by
  simp [hexdigest, hexWord]

/-- The test vector of the standard. -/
example : hexdigest [0x61, 0x62, 0x63] =
    "ba7816bf8f01cfea414140de5dae2223b00361a396177a9cb410ff61f20015ad" := by decide +kernel

end AgenticDelivery.Data.Sha256
