namespace ChunkStore

inductive Encoding where
  | noData
  | binary
  | text
  | varbyte
  | deltaVarbyte
  | centerFiltered
  deriving DecidableEq, Repr

inductive ValueKind where
  | binary
  | text
  | integers
  deriving DecidableEq, Repr

namespace Encoding

def all : List Encoding := [noData, binary, text, varbyte, deltaVarbyte, centerFiltered]

/-- Part of the written form of a descriptor: never renumbered. -/
def tag : Encoding → Int32
  | noData => 0
  | binary => 1
  | text => 2
  | varbyte => 3
  | deltaVarbyte => 4
  | centerFiltered => 5

def ofTag? (tag : Int32) : Option Encoding := all.find? fun e => e.tag = tag

def name : Encoding → String
  | noData => "NONE"
  | binary => "BINARY"
  | text => "UTF8_STRING"
  | varbyte => "INT32_VARBYTE"
  | deltaVarbyte => "INT32_DELTA_VARBYTE"
  | centerFiltered => "INT32_CENTER_FILTERED"

def ofName? (s : String) : Option Encoding := all.find? fun e => e.name.toLower = s.toLower

def symbol : Encoding → String
  | noData => "None"
  | binary => "Binary"
  | text => "Utf8String"
  | varbyte => "Int32VarByte"
  | deltaVarbyte => "Int32DeltaVarByte"
  | centerFiltered => "Int32CenterFiltered"

def isInteger : Encoding → Bool
  | varbyte | deltaVarbyte | centerFiltered => true
  | noData | binary | text => false

def distinct (es : List Encoding) : List Encoding := all.filter (es.contains ·)

theorem mem_all : ∀ e : Encoding, e ∈ all := by
  intro e
  cases e <;> decide

@[simp] theorem ofTag?_tag : ∀ e : Encoding, ofTag? e.tag = some e := by
  intro e
  cases e <;> decide

theorem tag_of_ofTag? {t : Int32} {e : Encoding} (h : ofTag? t = some e) : e.tag = t := by
  simpa using List.find?_some h

theorem tag_injective {d e : Encoding} (h : d.tag = e.tag) : d = e := by
  simpa using congrArg ofTag? h

end Encoding

namespace ValueKind

def all : List ValueKind := [binary, text, integers]

def name : ValueKind → String
  | binary => "binary"
  | text => "text"
  | integers => "integer"

def accepts : ValueKind → Encoding → Bool
  | binary, e => e = .binary
  | text, e => e = .text
  | integers, e => e.isInteger

end ValueKind
end ChunkStore
