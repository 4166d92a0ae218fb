import Neemata.Lib.LittleEndian
import Neemata.Lib.Utf8

/-!
# Binary helpers

`common/binary.ts` and the reads of Node's `Buffer` that the server uses. A view shows a part of a
buffer; the decoders read through views of the frame, never past their end.
-/

namespace Neemata.Protocol

/-- A typed array, `DataView` or `Buffer`: `byteLength` bytes of `buffer` from `byteOffset` on. -/
structure ArrayBufferView where
  buffer : List UInt8
  byteOffset : Nat
  byteLength : Nat
  inBounds : byteOffset + byteLength ≤ buffer.length
deriving DecidableEq

namespace ArrayBufferView

def bytes (view : ArrayBufferView) : List UInt8 :=
  (view.buffer.drop view.byteOffset).take view.byteLength

/-- `new Uint8Array(buffer)`. -/
def ofBuffer (buffer : List UInt8) : ArrayBufferView := ⟨buffer, 0, buffer.length, by omega⟩

/-- `subarray(start)`: clamped to the end of the view, over the same buffer. -/
def subarray (view : ArrayBufferView) (start : Nat) : ArrayBufferView where
  buffer := view.buffer
  byteOffset := view.byteOffset + min start view.byteLength
  byteLength := view.byteLength - start
  inBounds := by have := view.inBounds; omega

@[simp] theorem length_bytes (view : ArrayBufferView) : view.bytes.length = view.byteLength := by
  have := view.inBounds
  simp only [bytes, List.length_take, List.length_drop]
  omega

@[simp] theorem bytes_ofBuffer (buffer : List UInt8) : (ofBuffer buffer).bytes = buffer := by
  simp [bytes, ofBuffer]

@[simp] theorem bytes_subarray (view : ArrayBufferView) (start : Nat) :
    (view.subarray start).bytes = view.bytes.drop start := by
  rcases Nat.le_total start view.byteLength with h | h
  · simp only [bytes, subarray, Nat.min_eq_left h, List.drop_take, List.drop_drop]
  · have hsize : view.byteLength - start = 0 := by omega
    simp only [bytes, subarray, hsize, List.take_zero, List.drop_take]

end ArrayBufferView

/-- What `decodeMessage` throws. -/
inductive DecodeError where
  /-- The range error of a read past the end of a view. -/
  | outOfRange
  | unsupportedMessageType (messageType : Nat)
  | malformedRpc (procedureLength : Nat)
  | malformedRpcStreamPull (byteLength : Nat)
  /-- What the payload codec threw. -/
  | payload
deriving DecidableEq, Repr

/-- The texts of the errors the module throws itself. -/
def DecodeError.message : DecodeError → Option String
  | unsupportedMessageType messageType => some s!"Unsupported message type: {messageType}"
  | malformedRpc length =>
    some s!"Malformed RPC message: procedure length {length} exceeds frame size"
  | malformedRpcStreamPull length =>
    some s!"Malformed RpcStreamPull message: expected 8 bytes, got {length}"
  | outOfRange | payload => none

/-- The unsigned types of `BinaryTypes` that frames use. -/
inductive BinaryType where
  | Uint8 | Uint16 | Uint32
deriving DecidableEq, Repr

def BinaryType.bytesPerElement : BinaryType → Nat
  | Uint8 => 1
  | Uint16 => 2
  | Uint32 => 4

/-- The numbers of the type. -/
def BinaryType.Holds (type : BinaryType) (value : Nat) : Prop :=
  value < 256 ^ type.bytesPerElement

instance (type : BinaryType) (value : Nat) : Decidable (type.Holds value) :=
  inferInstanceAs (Decidable (_ < _))

/-- `DataView.setUint…` keeps the low bytes of a number too large for the type. -/
def encodeNumber (value : Nat) (type : BinaryType) : List UInt8 :=
  LittleEndian.toBytes type.bytesPerElement value

/-- Also `Buffer.readUint8`, `readUInt16LE` and `readUInt32LE`. -/
def decodeNumber (view : ArrayBufferView) (type : BinaryType) (offset : Nat) :
    Except DecodeError Nat :=
  if offset + type.bytesPerElement ≤ view.byteLength then
    .ok (LittleEndian.ofBytes ((view.bytes.drop offset).take type.bytesPerElement))
  else
    .error .outOfRange

def encodeText (text : String) : List UInt8 := Utf8.encode text.toList

def byteOrderMark : Char := '\uFEFF'

/-- `TextDecoder` drops one leading byte order mark. -/
def decodeText (view : ArrayBufferView) : String :=
  match Utf8.decode view.bytes with
  | [] => ""
  | c :: text => String.ofList (if c = byteOrderMark then text else c :: text)

/-- `Buffer.toString('utf-8', start, end)` keeps a byte order mark. -/
def bufferToString (view : ArrayBufferView) (start stop : Nat) : String :=
  String.ofList (Utf8.decode ((view.bytes.take stop).drop start))

def concat (buffers : List (List UInt8)) : ArrayBufferView := .ofBuffer buffers.flatten

section
variable {view : ArrayBufferView} {rest : List UInt8}

@[simp] theorem length_encodeNumber (value : Nat) (type : BinaryType) :
    (encodeNumber value type).length = type.bytesPerElement := by
  simp [encodeNumber]

/-- A number is read back where it was written. -/
theorem decodeNumber_of_bytes {value : Nat} {type : BinaryType} {front : List UInt8} {offset : Nat}
    (hbytes : view.bytes = front ++ (encodeNumber value type ++ rest))
    (hoffset : offset = front.length) (hvalue : type.Holds value) :
    decodeNumber view type offset = .ok value := by
  have hlength : view.byteLength = front.length + (type.bytesPerElement + rest.length) := by
    rw [← view.length_bytes, hbytes, List.length_append, List.length_append, length_encodeNumber]
  have htake : (encodeNumber value type ++ rest).take type.bytesPerElement =
      encodeNumber value type :=
    List.take_left' (length_encodeNumber value type)
  subst hoffset
  rw [decodeNumber, if_pos (by omega), hbytes, List.drop_left, htake, encodeNumber,
    LittleEndian.ofBytes_toBytes_of_lt hvalue]

/-- A text that decoding leaves as it is: the decoder takes a leading mark away. -/
def Unmarked (text : String) : Prop := text.toList.head? ≠ some byteOrderMark

instance (text : String) : Decidable (Unmarked text) := inferInstanceAs (Decidable (_ ≠ _))

theorem decodeText_encodeText {text : String} (hbytes : view.bytes = encodeText text)
    (htext : Unmarked text) : decodeText view = text := by
  rw [decodeText, hbytes, encodeText, Utf8.decode_encode]
  cases hlist : text.toList with
  | nil => exact (String.toList_eq_nil_iff.mp hlist).symm
  | cons c rest =>
    have hc : c ≠ byteOrderMark := by
      intro hc
      rw [Unmarked, hlist, hc] at htext
      exact htext rfl
    simp only [if_neg hc, ← hlist, String.ofList_toList]

theorem bufferToString_encodeText {text : String} {front : List UInt8} {start stop : Nat}
    (hbytes : view.bytes = front ++ (encodeText text ++ rest)) (hstart : start = front.length)
    (hstop : stop = front.length + (encodeText text).length) :
    bufferToString view start stop = text := by
  have htake : (front ++ (encodeText text ++ rest)).take stop = front ++ encodeText text := by
    rw [← List.append_assoc]
    exact List.take_left' (by rw [hstop, List.length_append])
  rw [bufferToString, hbytes, htake, hstart, List.drop_left, encodeText, Utf8.decode_encode,
    String.ofList_toList]

theorem encodeText_ne_nil {text : String} (h : text ≠ "") : encodeText text ≠ [] := by
  intro hnil
  have hdecode := Utf8.decode_encode text.toList
  rw [show Utf8.encode text.toList = [] from hnil] at hdecode
  exact h (String.toList_eq_nil_iff.mp hdecode.symm)

end

end Neemata.Protocol
