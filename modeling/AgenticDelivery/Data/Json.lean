import Mathlib.Data.List.Sort
import AgenticDelivery.Data.Sha256

/-! # Canonical JSON

What `json.dumps(value, sort_keys=True, separators=(",", ":"))` writes, with the
default `ensure_ascii`, on the values the service hashes: strings, booleans,
arrays and objects. -/
namespace AgenticDelivery.Data

inductive Json
  | str (s : String)
  | bool (b : Bool)
  | arr (items : List Json)
  | obj (fields : List (String × Json))

namespace Json

def hex4 (n : Nat) : List Char :=
  [12, 8, 4, 0].map fun i => Sha256.hexDigits.getD ((n >>> i) % 16) '0'

/-- A `\uXXXX` escape. -/
def unicodeEscape (n : Nat) : List Char := '\\' :: 'u' :: hex4 n

/-- One character of a string: short escapes, printable ASCII as it is, and the
UTF-16 code units of everything else. -/
def escapeChar (c : Char) : List Char :=
  if c = '"' then ['\\', '"']
  else if c = '\\' then ['\\', '\\']
  else if c = '\n' then ['\\', 'n']
  else if c = '\r' then ['\\', 'r']
  else if c = '\t' then ['\\', 't']
  else if c.toNat = 0x0c then ['\\', 'f']
  else if c.toNat = 0x08 then ['\\', 'b']
  else if 0x20 ≤ c.toNat ∧ c.toNat ≤ 0x7e then [c]
  else if c.toNat < 0x10000 then unicodeEscape c.toNat
  else
    let n := c.toNat - 0x10000
    unicodeEscape (0xd800 ||| ((n >>> 10) &&& 0x3ff)) ++ unicodeEscape (0xdc00 ||| (n &&& 0x3ff))

def quote (s : String) : List Char := '"' :: s.toList.flatMap escapeChar ++ ['"']

/-- Join with the item separator `,`. -/
def join : List (List Char) → List Char
  | [] => []
  | [item] => item
  | item :: rest => item ++ ',' :: join rest

mutual
def dump : Json → List Char
  | .str s => quote s
  | .bool true => "true".toList
  | .bool false => "false".toList
  | .arr items => '[' :: join (dumpItems items) ++ [']']
  | .obj fields =>
    '\x7b' :: join (((dumpFields fields).insertionSort fun x y => x.1 ≤ y.1).map
      fun x => quote x.1 ++ ':' :: x.2) ++ ['\x7d']
def dumpItems : List Json → List (List Char)
  | [] => []
  | item :: rest => dump item :: dumpItems rest
def dumpFields : List (String × Json) → List (String × List Char)
  | [] => []
  | (key, value) :: rest => (key, dump value) :: dumpFields rest
end

def dumps (value : Json) : String := String.ofList (dump value)

end Json

/-- UTF-8, as `str.encode()` gives it. -/
def encodeUtf8 (s : String) : List UInt8 := s.toList.flatMap String.utf8EncodeChar

/-- `canonical_digest`. -/
def canonicalDigest (value : Json) : String := Sha256.hexdigest (encodeUtf8 value.dumps)

theorem canonicalDigest_colon (value : Json) : ':' ∉ (canonicalDigest value).toList := by
  intro h
  have := Sha256.hexdigest_subset _ _ h
  revert this
  decide

/-- Keys in order, quotes and non-ASCII characters escaped. -/
example : (Json.obj [("b", .arr [.str "é\"", .bool true]), ("a", .str "𝄞")]).dumps =
    "\x7b\"a\":\"\\ud834\\udd1e\",\"b\":[\"\\u00e9\\\"\",true]\x7d" := by decide

end AgenticDelivery.Data
