import ChunkStore.Error
import ChunkStore.Varbyte

/-!
The two ways to compress a list of 32-bit integers: value by value, or as the differences between
neighbours, which wrap around. Neither writes how many integers there are.
-/

namespace ChunkStore

inductive Codec where
  | plain
  | delta
  deriving DecidableEq, Repr

namespace Codec

def all : List Codec := [plain, delta]

def name : Codec → String
  | plain => "varbyte"
  | delta => "delta-varbyte"

def ofEncoding : Encoding → Except Error Codec
  | .varbyte => .ok plain
  | .deltaVarbyte => .ok delta
  | e => .error (.unsupportedEncoding e)

def differences (previous : Int32) : List Int32 → List Int32
  | [] => []
  | v :: vs => (v - previous) :: differences v vs

def sums (total : Int32) : List Int32 → List Int32
  | [] => []
  | v :: vs => (total + v) :: sums (total + v) vs

def prepare : Codec → List Int32 → List Int32
  | plain, vs => vs
  | delta, vs => differences 0 vs

def restore : Codec → List Int32 → List Int32
  | plain, vs => vs
  | delta, vs => sums 0 vs

def compress (codec : Codec) (vs : List Int32) : Bytes := Varbyte.encodeAll (codec.prepare vs)

def corruption (input : Bytes) : Varbyte.Flaw → Corruption
  | .truncated => .codeTruncated input.length
  | .overflow => .codeOverflow
  | .tooLong => .codeTooLong

/-- Appends `count` integers from the front of `input` to `out` and says how many bytes they took.
On failure the codes before the flaw are appended as they stand. -/
def decompress (codec : Codec) (input : Bytes) (count : Nat) (out : List Int32) :
    List Int32 × Except Error Nat :=
  if input.length < count then (out, .error (.corrupt (.tooFewBytes count input.length)))
  else
    match Varbyte.readAll count input with
    | (vs, .ok rest) => (out ++ codec.restore vs, .ok (input.length - rest.length))
    | (vs, .error flaw) => (out ++ vs, .error (.corrupt (corruption input flaw)))

def split (codec : Codec) (input : Bytes) (count : Nat) : Except Error (List Int32 × Bytes) :=
  match codec.decompress input count [] with
  | (vs, .ok consumed) => .ok (vs, input.drop consumed)
  | (_, .error e) => .error e

@[simp] theorem length_sums (total : Int32) (vs : List Int32) :
    (sums total vs).length = vs.length := by
  induction vs generalizing total with
  | nil => rfl
  | cons v vs ih => simp [sums, ih]

@[simp] theorem length_restore (codec : Codec) (vs : List Int32) :
    (codec.restore vs).length = vs.length := by
  cases codec <;> simp [restore]

theorem length_of_split {codec : Codec} {input rest : Bytes} {count : Nat} {vs : List Int32}
    (h : codec.split input count = .ok (vs, rest)) : vs.length = count := by
  rw [split, decompress] at h
  split at h
  next heq =>
    split at heq
    · simp at heq
    · split at heq
      next hr =>
        have hvs := congrArg Prod.fst heq
        simp only [List.nil_append] at hvs
        simp only [Except.ok.injEq, Prod.mk.injEq] at h
        rw [← h.1, ← hvs, length_restore, Varbyte.length_of_readAll hr]
      · simp at heq
  · simp at h

end Codec
end ChunkStore
