import ChunkStore.Text.Hex

/-!
Universally unique identifiers: 32 hexadecimal digits, written plain, with hyphens between groups of
8, 4, 4, 4 and 12, in braces, or behind `urn:uuid:`.
-/

namespace ChunkStore

structure Uuid where
  digits : List Nibble
  length_digits : digits.length = 32
  deriving DecidableEq

namespace Uuid

inductive Flaw where
  | length (found : Nat)
  | character (found : Char) (index : Nat)
  | groupCount (found : Nat)
  | groupLength (group expected found : Nat)
  deriving DecidableEq, Repr

def Flaw.message : Flaw → String
  | .length found => s!"invalid length: found {found}"
  | .character found index =>
    s!"invalid character: found " ++ String.ofList ['\x60', found, '\x60'] ++ s!" at {index}"
  | .groupCount found => s!"invalid group count: expected 5, found {found}"
  | .groupLength group expected found =>
    s!"invalid group length in group {group}: expected {expected}, found {found}"

def plain (u : Uuid) : List Char := u.digits.map Nibble.toChar

def hyphenate (cs : List Char) : List Char :=
  cs.take 8 ++ '-' :: (cs.drop 8).take 4 ++ '-' :: (cs.drop 12).take 4 ++
    '-' :: (cs.drop 16).take 4 ++ '-' :: cs.drop 20

def hyphenated (u : Uuid) : List Char := hyphenate u.plain

def digitAt (u : Uuid) (i : Nat) : Nat := (u.digits[i]?.map Fin.val).getD 0

def version (u : Uuid) : Nat := u.digitAt 12

def ofPlain? (cs : List Char) : Option Uuid :=
  match cs.mapM Nibble.ofChar? with
  | some digits => if h : digits.length = 32 then some ⟨digits, h⟩ else none
  | none => none

def ofHyphenated? (cs : List Char) : Option Uuid :=
  if cs.length = 36 ∧ [8, 13, 18, 23].all fun i => cs[i]? = some '-' then
    ofPlain? (cs.filter (· ≠ '-'))
  else none

def urn : List Char := "urn:uuid:".toList

def afterUrn? (cs : List Char) : Option (List Char) :=
  if (cs.take urn.length).map Char.toLower = urn then some (cs.drop urn.length) else none

def insideBraces? (cs : List Char) : Option (List Char) :=
  match cs with
  | '\x7b' :: rest => if rest.getLast? = some '\x7d' then some rest.dropLast else none
  | _ => none

def byteLength : List Char → Nat
  | [] => 0
  | c :: cs => c.utf8Size + byteLength cs

/-- The first character of `cs` that is neither a digit nor a hyphen, with its byte position, where
`cs` itself starts at `position`. -/
def stray? (position : Nat) : List Char → Option (Char × Nat)
  | [] => none
  | c :: cs =>
    if c = '-' ∨ (Nibble.ofChar? c).isSome then stray? (position + c.utf8Size) cs
    else some (c, position)

def hyphens (position : Nat) : List Char → List Nat
  | [] => []
  | c :: cs =>
    if c = '-' then position :: hyphens (position + 1) cs else hyphens (position + c.utf8Size) cs

def groupFlaw (total : Nat) (group start : Nat) : List Nat → List Nat → Flaw
  | expected :: sizes, hyphen :: rest =>
    if hyphen = start + expected then groupFlaw total (group + 1) (hyphen + 1) sizes rest
    else .groupLength group expected (hyphen - start)
  | expected :: _, [] => .groupLength group expected (total - start)
  | [], _ => .groupLength group 0 0

/-- What keeps the text `span`, found `offset` bytes into a text of `total` bytes, from being an
identifier with groups. -/
def groupedFlaw (total offset : Nat) (span : List Char) (needsHyphens : Bool) : Flaw :=
  match stray? offset span with
  | some (c, index) => .character c index
  | none =>
    let found := hyphens 0 span
    if needsHyphens && found.isEmpty then .length total
    else if found.length = 4 then groupFlaw total 0 0 [8, 4, 4, 4, 12] found
    else .groupCount (found.length + 1)

def spellingFlaw (cs : List Char) : Flaw :=
  let total := byteLength cs
  if total = 0 ∨ 45 < total then .length total
  else
    match insideBraces? cs with
    | some span => groupedFlaw total 1 span false
    | none =>
      match afterUrn? cs with
      | some span => groupedFlaw total urn.length span false
      | none => groupedFlaw total 0 cs true

def readHyphenated (cs : List Char) : Except Flaw Uuid :=
  match ofHyphenated? cs with
  | some u => .ok u
  | none => .error (groupedFlaw (byteLength cs) 0 cs false)

def read (cs : List Char) : Except Flaw Uuid :=
  match byteLength cs, insideBraces? cs, afterUrn? cs with
  | 36, _, _ => readHyphenated cs
  | 38, some inner, _ => readHyphenated inner
  | 45, _, some inner => readHyphenated inner
  | 32, _, _ =>
    match ofPlain? cs with
    | some u => .ok u
    | none => .error (spellingFlaw cs)
  | _, _, _ => .error (spellingFlaw cs)

/-- The identifier made of the digits of `u` but marked as a random one: version 4, and a variant
digit between 8 and b. -/
def asRandom (u : Uuid) : Uuid where
  digits := (u.digits.set 12 (Nibble.ofNat 4)).set 16 (Nibble.ofNat (8 + u.digitAt 16 % 4))
  length_digits := by simp [u.length_digits]

@[simp] theorem version_asRandom (u : Uuid) : u.asRandom.version = 4 := by
  have h : u.asRandom.digits[12]? = some (.ofNat 4) := by simp [asRandom, u.length_digits]
  rw [version, digitAt, h]
  rfl

end Uuid
end ChunkStore
