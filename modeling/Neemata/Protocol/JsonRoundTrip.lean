import Neemata.Protocol.JsonCodec
import Neemata.Lib.Join
import Mathlib.Data.List.Nodup

/-!
# The round trip of a JSON payload

A payload that one side encodes is, on the other side, the payload with every blob replaced, unless a
user string in it has the form of a marker: `rpc_roundTrips_iff`.
-/

namespace Neemata.Protocol.JsonCodec

open Json

/-! ## Stream ids and records -/

theorem numeral_injective : Function.Injective numeral := by
  intro m n h
  have hdigits : Nat.toDigits 10 m = Nat.toDigits 10 n :=
    List.map_injective_iff.mpr (fun _ _ h => JsChar.scalar.inj h) h
  rw [← Nat.ofDigitChars_ten_toDigits (n := m), hdigits, Nat.ofDigitChars_ten_toDigits]

theorem isStreamId_serializeStreamId (id : Nat) : isStreamId (serializeStreamId id) = true :=
  List.isPrefixOf_iff_prefix.mpr (List.prefix_append _ _)

theorem hexValue_of_isDigit {c : Char} (h : c.isDigit = true) :
    hexValue c = some (c.toNat - '0'.toNat) ∧ c.toNat - '0'.toNat < 10 := by
  have hc : '0' ≤ c ∧ c ≤ '9' := by simpa [Char.isDigit, Char.le_def] using h
  refine ⟨if_pos hc, ?_⟩
  have h9 : c.toNat ≤ '9'.toNat := hc.2
  have : '9'.toNat = 57 := rfl
  have : '0'.toNat = 48 := rfl
  omega

theorem digits_ofText {text : List Char} (h : ∀ c ∈ text, c.isDigit = true) :
    digits 10 (ofText text) = text.map fun c => c.toNat - '0'.toNat := by
  induction text with
  | nil => rfl
  | cons c text ih =>
    obtain ⟨hvalue, hlt⟩ := hexValue_of_isDigit (h c List.mem_cons_self)
    have ih := ih fun c' h' => h c' (List.mem_cons_of_mem _ h')
    have htext : ofText (c :: text) = .scalar c :: ofText text := rfl
    rw [htext, digits, hvalue]
    dsimp only
    rw [if_pos hlt, ih, List.map_cons]

section Digits

variable {text : List Char}

theorem mem_of_ofText {c : Char} {s : JsString} (h : ofText text = s) (hc : .scalar c ∈ s) :
    c ∈ text := by
  subst h
  obtain ⟨c', hc', heq⟩ := List.mem_map.mp hc
  cases heq
  exact hc'

theorem sign_ofText (h : ∀ c ∈ text, c.isDigit = true) :
    sign (ofText text) = (false, ofText text) := by
  unfold sign
  split
  · next heq => exact absurd (h '-' (mem_of_ofText heq List.mem_cons_self)) (by decide)
  · next heq => exact absurd (h '+' (mem_of_ofText heq List.mem_cons_self)) (by decide)
  · rfl

theorem radix_ofText (h : ∀ c ∈ text, c.isDigit = true) :
    radix (ofText text) = (10, ofText text) := by
  have hmem {c c' : JsChar} {rest : JsString} : c' ∈ c :: c' :: rest :=
    List.mem_cons_of_mem _ List.mem_cons_self
  unfold radix
  split
  · next heq => exact absurd (h 'x' (mem_of_ofText heq hmem)) (by decide)
  · next heq => exact absurd (h 'X' (mem_of_ofText heq hmem)) (by decide)
  · rfl

theorem dropWhile_ofText (h : ∀ c ∈ text, c.isDigit = true) :
    (ofText text).dropWhile isWhiteSpace = ofText text := by
  cases text with
  | nil => rfl
  | cons c text =>
    refine List.dropWhile_cons_of_neg ?_
    have hc := h c List.mem_cons_self
    have hrange : 48 ≤ c.toNat ∧ c.toNat ≤ 57 := by
      simpa [Char.isDigit, UInt32.le_iff_toNat_le] using hc
    simp [isWhiteSpace]
    omega

end Digits

/-- A numeral is read up to its digits, which are those of the number. -/
theorem digits_numeral (n : Nat) :
    sign ((numeral n).dropWhile isWhiteSpace) = (false, numeral n) ∧
      radix (numeral n) = (10, numeral n) ∧ digits 10 (numeral n) ≠ [] ∧
      (digits 10 (numeral n)).foldl (fun n d => 10 * n + d) 0 = n := by
  have hdigit : ∀ c ∈ Nat.toDigits 10 n, c.isDigit = true := fun c hc =>
    Nat.isDigit_of_mem_toDigits (by decide) (by decide) hc
  unfold numeral
  rw [dropWhile_ofText hdigit, digits_ofText hdigit]
  refine ⟨sign_ofText hdigit, radix_ofText hdigit, ?_, ?_⟩
  · exact fun hnil => Nat.toDigits_ne_nil (List.map_eq_nil_iff.mp hnil)
  · rw [List.foldl_map, ← Nat.ofDigitChars_eq_foldl, Nat.ofDigitChars_ten_toDigits]

theorem parseInt_numeral (n : Nat) : parseInt (numeral n) = some (n : Int) := by
  obtain ⟨hsign, hradix, hne, hvalue⟩ := digits_numeral n
  unfold parseInt
  rw [hsign]
  dsimp only
  rw [hradix]
  dsimp only
  split
  · next hnil => exact absurd hnil hne
  · rw [hvalue]
    rfl

theorem deserializeStreamId_serializeStreamId (id : Nat) :
    deserializeStreamId (serializeStreamId id) = some (id : Int) := by
  unfold deserializeStreamId serializeStreamId
  rw [List.drop_left, parseInt_numeral]

/-- The metadata registered under an id. -/
def lookup (streams : EncodeRPCStreams) (id : Nat) : Option ProtocolBlobMetadata :=
  (streams.find? fun entry => entry.1 = id).map Prod.snd

theorem property_streamsJson (streams : EncodeRPCStreams) (id : Nat) :
    property (streamsJson streams) (numeral id) =
      (lookup streams id).map ProtocolBlobMetadata.toJson := by
  unfold property streamsJson lookup
  dsimp only
  induction streams with
  | nil => rfl
  | cons entry streams ih =>
    by_cases h : entry.1 = id
    · simp [h]
    · have hne : numeral entry.1 ≠ numeral id := fun heq => h (numeral_injective heq)
      simpa [h, hne] using ih

theorem lookup_setStream (streams : EncodeRPCStreams) (id : Nat) (metadata : ProtocolBlobMetadata)
    (id' : Nat) : lookup (setStream id metadata streams) id' =
      if id' = id then some metadata else lookup streams id' := by
  unfold lookup
  induction streams with
  | nil => by_cases h : id' = id <;> simp [setStream, h, eq_comm]
  | cons entry streams ih =>
    unfold setStream
    split
    · by_cases h : id' = id
      · simp [h]
      · simp [h, Ne.symm h]
    · split
      · next heq =>
        subst heq
        by_cases h : id' = entry.1
        · simp [h]
        · simp [h, Ne.symm h]
      · next hne =>
        by_cases h : entry.1 = id'
        · have hid : id' ≠ id := fun hid => hne (hid.symm.trans h.symm)
          simp [h, hid]
        · simpa [h] using ih

/-- The record of the registrations, in their order. -/
def record (log : List (Nat × ProtocolBlobMetadata)) (streams : EncodeRPCStreams) :
    EncodeRPCStreams :=
  log.foldl (fun streams entry => setStream entry.1 entry.2 streams) streams

theorem lookup_record_of_notMem {log : List (Nat × ProtocolBlobMetadata)}
    {streams : EncodeRPCStreams} {id : Nat} (h : id ∉ log.map Prod.fst) :
    lookup (record log streams) id = lookup streams id := by
  induction log generalizing streams with
  | nil => rfl
  | cons entry log ih =>
    rw [List.map_cons, List.mem_cons, not_or] at h
    change lookup (record log (setStream entry.1 entry.2 streams)) id = _
    rw [ih h.2, lookup_setStream, if_neg h.1]

theorem lookup_record {log : List (Nat × ProtocolBlobMetadata)} {streams : EncodeRPCStreams}
    (hids : (log.map Prod.fst).Nodup) {entry : Nat × ProtocolBlobMetadata} (h : entry ∈ log) :
    lookup (record log streams) entry.1 = some entry.2 := by
  induction log generalizing streams with
  | nil => cases h
  | cons entry' log ih =>
    obtain ⟨hnotMem, hids⟩ := List.nodup_cons.mp hids
    change lookup (record log (setStream entry'.1 entry'.2 streams)) entry.1 = _
    rcases List.mem_cons.mp h with rfl | h
    · rw [lookup_record_of_notMem hnotMem, lookup_setStream, if_pos rfl]
    · exact ih hids h

theorem lookup_of_mem {streams : EncodeRPCStreams} (hids : (streams.map Prod.fst).Nodup)
    {entry : Nat × ProtocolBlobMetadata} (h : entry ∈ streams) :
    lookup streams entry.1 = some entry.2 := by
  unfold lookup
  induction streams with
  | nil => cases h
  | cons entry' streams ih =>
    obtain ⟨hnotMem, hids⟩ := List.nodup_cons.mp hids
    rcases List.mem_cons.mp h with rfl | h
    · simp
    · have hne : entry'.1 ≠ entry.1 := fun heq => hnotMem (heq ▸ List.mem_map_of_mem h)
      simpa [hne] using ih hids h

/-! ## What the decoder makes of a payload -/

section Revive

variable {β γ σ τ : Type} (addStream : σ → β → (Nat × ProtocolBlobMetadata) × σ)
  (receive : τ → Option Int → Option (Value Empty) → γ × τ)

/-- A blob is registered at the sender, with its id and metadata in a log. -/
def register (s : σ × List (Nat × ProtocolBlobMetadata)) (blob : β) :
    Value Empty × (σ × List (Nat × ProtocolBlobMetadata)) :=
  let stream := addStream s.1 blob
  (.str (serializeStreamId stream.1.1), (stream.2, s.2 ++ [stream.1]))

/-- What sender and receiver owe a payload: each blob is registered once, and the receiver's
`addStream` is called once with its id and metadata; its value takes the place of the blob. -/
def deliver (s : σ × τ) (blob : β) : Value γ × (σ × τ) :=
  let stream := addStream s.1 blob
  let received := receive s.2 (some stream.1.1) (some stream.1.2.toJson)
  (.ref received.1, (stream.2, received.2))

/-- The metadata of each registration is in the record. -/
def Found (streams : Value Empty) (log : List (Nat × ProtocolBlobMetadata)) : Prop :=
  ∀ entry ∈ log, property streams (numeral entry.1) = some entry.2.toJson

variable {addStream receive} {streams : Value Empty}

variable (receive) in
theorem reviveString_serializeStreamId {id : Nat} {metadata : Value Empty}
    (h : property streams (numeral id) = some metadata) (t : τ) :
    reviveString receive streams t (serializeStreamId id) =
      (.ref (receive t (some id) (some metadata)).1, (receive t (some id) (some metadata)).2) := by
  unfold reviveString
  rw [if_pos (isStreamId_serializeStreamId id), deserializeStreamId_serializeStreamId]
  have hkey : property streams (propertyKey (some (id : Int))) = some metadata := h
  dsimp only
  rw [hkey]

theorem simulates_deliver : Simulates keep (deliver addStream receive)
    (after (reviveString receive streams) noRef keep)
    (after (reviveString receive streams) noRef (register addStream))
    (fun s t => s = (t.1.1, t.2)) (fun x => isStreamId x = false)
    (fun t => Found streams t.1.2) where
  string_good _ _ h := h
  ref_good _ _ h := fun entry hentry => h entry (List.mem_append_left _ hentry)
  string s t x hx hR _ := by
    subst hR
    have hrevive : walk (reviveString receive streams) noRef t.2 (.str x) = (.str x, t.2) := by
      rw [walk, reviveString, hx]
      rfl
    unfold after
    simp only [keep, hrevive, and_self]
  ref s t b hR h := by
    subst hR
    have hfound := h _ (List.mem_append_right _ (List.mem_singleton_self _))
    have hrevive := reviveString_serializeStreamId receive hfound t.2
    unfold after
    simp only [register, walk, hrevive]
    exact ⟨rfl, rfl⟩

variable (addStream receive) in
/-- Without registrations nothing is revived. -/
theorem simulates_plain : Simulates keep (deliver addStream receive)
    (after keep noRef keep) (after keep noRef (register addStream))
    (fun s t => s = (t.1.1, t.2)) (fun _ => True) (fun (t : _ × τ) => t.1.2 = []) where
  string_good _ _ h := h
  ref_good _ _ h := (List.append_eq_nil_iff.mp h).1
  string s t x _ hR _ := by
    subst hR
    exact ⟨rfl, rfl⟩
  ref s t b hR h := by cases (List.append_eq_nil_iff.mp h).2

variable (addStream receive) in
/-- What the payload should come to, with the states of sender and receiver after it. -/
def delivered (context : σ) (receiver : τ) (data : Value β) : Value γ × (σ × τ) :=
  walk keep (deliver addStream receive) (context, receiver) data

variable (addStream) in
/-- The payload as it is sent, with the sender's state and its registrations. -/
def registered (context : σ) (data : Value β) :
    Value Empty × (σ × List (Nat × ProtocolBlobMetadata)) :=
  walk keep (register addStream) (context, []) data

variable (addStream) in
theorem length_registered (context : σ) (data : Value β) :
    (registered addStream context data).2.2.length = (refs data).length := by
  have h := collect_walk (f := keep) (g := register addStream) (fun s => s.2.map fun _ => ())
    (fun _ => ()) (fun _ _ => rfl) (fun _ _ => List.map_append) data (context, [])
  unfold registered
  simpa using congrArg List.length h

/-- Blobs that have their ids are registered as they come. -/
theorem registered_self (data : Value (Nat × ProtocolBlobMetadata)) :
    (registered (fun (_ : Unit) blob => (blob, ())) () data).2.2 = refs data := by
  have h := collect_walk (f := keep) (g := register fun (_ : Unit) blob => (blob, ()))
    (fun s => s.2) (fun blob => blob) (fun _ _ => rfl) (fun _ _ => rfl) data ((), [])
  exact h.trans (List.map_id _)

theorem length_refs_revive (x : JsString) {s : σ × τ} :
    (refs (after (reviveString receive streams) noRef (keep (γ := Empty)) s x).1).length =
      if isStreamId x then 1 else 0 := by
  unfold after keep
  simp only [walk, reviveString]
  split <;> rfl

theorem length_refs_revived (b : β) {s : (σ × List (Nat × ProtocolBlobMetadata)) × τ} :
    (refs (after (reviveString receive streams) noRef (register addStream) s b).1).length = 1 := by
  unfold after register
  simp only [walk, reviveString, isStreamId_serializeStreamId]
  rfl

variable (receive) in
/-- The receiver revives what was registered, and a user string that looks like a marker besides. -/
theorem revived_iff {context : σ} (receiver : τ) {data : Value β}
    (hfound : Found streams (registered addStream context data).2.2) :
    (walk (reviveString receive streams) noRef receiver (registered addStream context data).1 =
        ((delivered addStream receive context receiver data).1,
          (delivered addStream receive context receiver data).2.2) ∧
      (registered addStream context data).2.1 =
        (delivered addStream receive context receiver data).2.1) ↔
    ∀ x ∈ strings data, isStreamId x = false := by
  have hafter : walk (after (reviveString receive streams) noRef keep)
      (after (reviveString receive streams) noRef (register addStream)) ((context, []), receiver)
      data = ((walk (reviveString receive streams) noRef receiver
        (registered addStream context data).1).1, ((registered addStream context data).2,
        (walk (reviveString receive streams) noRef receiver
          (registered addStream context data).1).2)) := walk_walk data (context, []) receiver
  constructor
  · rintro ⟨heq, -⟩ x hx
    have hdelivered := length_refs_walk (f := keep) (g := deliver addStream receive) (fun _ => 0)
      (fun _ _ => rfl) (fun _ _ => rfl) data (context, receiver)
    have hrevived := length_refs_walk (f := after (reviveString receive streams) noRef keep)
      (g := after (reviveString receive streams) noRef (register addStream))
      (fun x => if isStreamId x then 1 else 0) (fun s x => length_refs_revive x)
      (fun s b => length_refs_revived b) data ((context, []), receiver)
    rw [hafter, heq] at hrevived
    have hsum : ((strings data).map fun x => if isStreamId x then 1 else 0).sum = 0 := by
      have hzero : ((strings data).map fun _ => 0).sum = 0 := by simp
      have hdelivered' : (refs (delivered addStream receive context receiver data).1).length =
        ((strings data).map fun _ => 0).sum + (refs data).length := hdelivered
      have hrevived' : (refs (delivered addStream receive context receiver data).1).length =
        ((strings data).map fun x => if isStreamId x then 1 else 0).sum + (refs data).length :=
        hrevived
      omega
    have hx' := List.sum_eq_zero_iff_forall_eq_nat.mp hsum _ (List.mem_map_of_mem hx)
    simpa using hx'
  · intro hstrings
    obtain ⟨hvalue, hstates⟩ := simulates_deliver.walk data hstrings
      (s := (context, receiver)) (t := ((context, []), receiver)) rfl (by rw [hafter]; exact hfound)
    rw [hafter] at hvalue hstates
    refine ⟨Prod.ext hvalue.symm ?_, ?_⟩
    · exact (congrArg Prod.snd hstates).symm
    · exact (congrArg Prod.fst hstates).symm

variable (addStream receive) in
/-- A payload without blobs is delivered as it is. -/
theorem plain_eq (context : σ) (receiver : τ) {data : Value β} (hrefs : refs data = []) :
    walk keep noRef receiver (registered addStream context data).1 =
        ((delivered addStream receive context receiver data).1,
          (delivered addStream receive context receiver data).2.2) ∧
      (registered addStream context data).2.1 =
        (delivered addStream receive context receiver data).2.1 := by
  have hlog : (registered addStream context data).2.2 = [] := by
    rw [← List.length_eq_zero_iff, length_registered, hrefs]
    rfl
  have hafter : (walk (after keep noRef keep) (after keep noRef (register addStream))
      ((context, []), receiver) data : Value γ × _) = ((walk keep noRef receiver
        (registered addStream context data).1).1, ((registered addStream context data).2,
        (walk keep noRef receiver (registered addStream context data).1).2)) :=
    walk_walk data (context, []) receiver
  obtain ⟨hvalue, hstates⟩ := (simulates_plain addStream receive).walk
    data (fun _ _ => trivial) (s := (context, receiver)) (t := ((context, []), receiver)) rfl
    (by rw [hafter]; exact hlog)
  rw [hafter] at hvalue hstates
  refine ⟨Prod.ext hvalue.symm ?_, ?_⟩
  · exact (congrArg Prod.snd hstates).symm
  · exact (congrArg Prod.fst hstates).symm

/-- The replacer of the client gathers the registrations. -/
theorem walk_replaceBlob (context : σ) (data : Value β) :
    walk keep (replaceBlob addStream) ⟨context, [], false⟩ data =
      ((registered addStream context data).1, ⟨(registered addStream context data).2.1,
        record (registered addStream context data).2.2 [],
        !(registered addStream context data).2.2.isEmpty⟩) := by
  have H : Simulates keep (replaceBlob addStream) keep (register addStream)
      (fun g t => g = ⟨t.1, record t.2 [], !t.2.isEmpty⟩) (fun _ => True) (fun _ => True) := by
    refine ⟨fun _ _ _ => trivial, fun _ _ _ => trivial, ?_, ?_⟩
    · exact fun _ _ _ _ hR _ => ⟨rfl, hR⟩
    · intro s t b hR _
      subst hR
      refine ⟨rfl, ?_⟩
      simp [replaceBlob, register, record, List.foldl_append]
  obtain ⟨hvalue, hstate⟩ := H.walk data (fun _ _ => trivial) (s := ⟨context, [], false⟩)
    (t := (context, [])) rfl trivial
  exact Prod.ext hvalue hstate

end Revive

/-! ## Bytes -/

/-- A decoder of texts. -/
def ReadsText (toText : ArrayBufferView → String) : Prop :=
  ∀ view text, view.bytes = encodeText text → Unmarked text → toText view = text

theorem readsText_decodeText : ReadsText decodeText :=
  fun _ _ hbytes htext => decodeText_encodeText hbytes htext

theorem readsText_bufferToString :
    ReadsText fun view => bufferToString view 0 view.byteLength := by
  intro view text hbytes _
  have hlength : view.byteLength = (encodeText text).length := by
    rw [← hbytes, ArrayBufferView.length_bytes]
  have hbytes' : view.bytes = [] ++ (encodeText text ++ []) := by simpa using hbytes
  exact bufferToString_encodeText hbytes' rfl (by simpa using hlength)

theorem unmarked_stringify (value : Value Empty) : Unmarked (String.ofList (stringify value)) := by
  obtain ⟨c, hhead, -, hc⟩ := head_stringify value []
  rw [List.append_nil] at hhead
  unfold Unmarked
  rw [String.toList_ofList, hhead]
  exact fun h => hc (Option.some.inj h)

theorem encode_ne_nil (value : Value Empty) : encode value ≠ [] := by
  obtain ⟨c, hhead, -⟩ := head_stringify value []
  refine encodeText_ne_nil fun h => ?_
  rw [String.ofList_eq_empty_iff.mp h] at hhead
  cases hhead

variable {toText : ArrayBufferView → String} {view : ArrayBufferView} {value : Value Empty}

theorem decode_of_bytes (H : ReadsText toText) (hbytes : view.bytes = encode value) :
    decode toText view = .ok value := by
  unfold decode
  rw [H view _ hbytes (unmarked_stringify value), String.toList_ofList, parse_stringify]

section Buffers

variable {γ τ : Type} {receive : τ → Option Int → Option (Value Empty) → γ × τ} {receiver : τ}

theorem decodeRPC_plain (H : ReadsText toText) : decodeRPC toText receive receiver
    (buffers none (some value)) = .ok (some (walk keep noRef receiver value).1,
      (walk keep noRef receiver value : Value γ × τ).2) := by
  have hstate : (walk keep noRef receiver value : Value γ × τ).2 = receiver :=
    walk_rel (R := fun t t' => t' = t) (fun _ => rfl) (fun _ _ _ h h' => h'.trans h)
      (fun _ _ => rfl) (fun _ b => nomatch b) value receiver
  have hbytes : (buffers none (some value)).bytes =
      [] ++ (encodeNumber 0 .Uint32 ++ encode value) := by
    simp [buffers, concat]
  have hnumber : decodeNumber (buffers none (some value)) .Uint32 0 = .ok 0 :=
    decodeNumber_of_bytes hbytes rfl (by decide)
  have hpayload : ((buffers none (some value)).subarray (4 + 0)).bytes = encode value := by
    rw [ArrayBufferView.bytes_subarray, hbytes]
    exact List.drop_left' (length_encodeNumber 0 .Uint32)
  have hne : ((buffers none (some value)).subarray (4 + 0)).byteLength ≠ 0 := by
    rw [← ArrayBufferView.length_bytes, hpayload]
    exact fun h => encode_ne_nil value (List.eq_nil_of_length_eq_zero h)
  have hdecode := decode_of_bytes H hpayload
  unfold decodeRPC
  rw [hnumber]
  simp only [bind, Except.bind, gt_iff_lt, Nat.lt_irrefl, if_false, if_neg hne, hdecode, hstate]
  rfl

theorem decodeRPC_streams (H : ReadsText toText) {streams : Value Empty}
    (hlength : BinaryType.Uint32.Holds (encode streams).length) :
    decodeRPC toText receive receiver (buffers (some streams) (some value)) =
      .ok (some (walk (reviveString receive streams) noRef receiver value).1,
        (walk (reviveString receive streams) noRef receiver value).2) := by
  have hbytes : (buffers (some streams) (some value)).bytes =
      [] ++ (encodeNumber (encode streams).length .Uint32 ++ (encode streams ++ encode value)) := by
    simp [buffers, concat]
  have hnumber : decodeNumber (buffers (some streams) (some value)) .Uint32 0 =
      .ok (encode streams).length := decodeNumber_of_bytes hbytes rfl hlength
  have hfront : (encodeNumber (encode streams).length .Uint32 ++ encode streams).length =
      4 + (encode streams).length := by
    rw [List.length_append, length_encodeNumber]
    rfl
  have hpayload : ((buffers (some streams) (some value)).subarray
      (4 + (encode streams).length)).bytes = encode value := by
    rw [ArrayBufferView.bytes_subarray, hbytes, List.nil_append, ← List.append_assoc]
    exact List.drop_left' hfront
  have hstreams : (slice (buffers (some streams) (some value)) 4
      (4 + (encode streams).length)).bytes = encode streams := by
    unfold slice
    rw [ArrayBufferView.bytes_ofBuffer, hbytes, List.nil_append, ← List.append_assoc,
      List.take_left' hfront]
    exact List.drop_left' (length_encodeNumber _ .Uint32)
  have hne : ((buffers (some streams) (some value)).subarray
      (4 + (encode streams).length)).byteLength ≠ 0 := by
    rw [← ArrayBufferView.length_bytes, hpayload]
    exact fun h => encode_ne_nil value (List.eq_nil_of_length_eq_zero h)
  have hpos : 0 < (encode streams).length := List.length_pos_of_ne_nil (encode_ne_nil streams)
  have hdecode := decode_of_bytes H hpayload
  have hdecode' := decode_of_bytes H hstreams
  unfold decodeRPC
  rw [hnumber]
  simp only [bind, Except.bind, gt_iff_lt, hpos, if_true, if_neg hne, hdecode, hdecode']
  rfl

end Buffers

/-! ## Round trips -/

section RoundTrip

variable {β γ σ τ : Type}

/-- The server has what the client's payload should come to. -/
def Client.RoundTrips (addStream : σ → β → (Nat × ProtocolBlobMetadata) × σ) (context : σ)
    (receive : τ → Option Int → Option (Value Empty) → γ × τ) (receiver : τ) (data : Value β) :
    Prop :=
  let sent := Client.encodeRPC addStream context (some data)
  let due := delivered addStream receive context receiver data
  Server.decodeRPC receive receiver sent.1 = .ok (some due.1, due.2.2) ∧ sent.2 = due.2.1

/-- The client has what the server's payload should come to, and has been given each stream of the
call once. -/
def Server.RoundTrips (receive : τ → Option Int → Option (Value Empty) → γ × τ) (receiver : τ)
    (data : Value (Nat × ProtocolBlobMetadata)) (streams : EncodeRPCStreams) : Prop :=
  let due := delivered (fun (_ : Unit) blob => (blob, ())) receive () receiver data
  Client.decodeRPC receive receiver (Server.encodeRPC (some data) streams) =
      .ok (some due.1, due.2.2) ∧
    ∀ blob ∈ streams, (refs data).count blob = 1

/-- No blob travels with the payload, or no user string in it looks like a marker. -/
def Unmistakable (data : Value β) : Prop :=
  refs data = [] ∨ ∀ x ∈ strings data, isStreamId x = false

/-- The blobs of a payload are among the streams of its call, whose ids differ. -/
structure Registers (streams : EncodeRPCStreams) (data : Value (Nat × ProtocolBlobMetadata)) :
    Prop where
  nodup : (streams.map Prod.fst).Nodup
  mem : ∀ blob ∈ refs data, blob ∈ streams

variable {receive : τ → Option Int → Option (Value Empty) → γ × τ} {receiver : τ}

theorem client_roundTrips_iff {addStream : σ → β → (Nat × ProtocolBlobMetadata) × σ} {context : σ}
    {data : Value β} (hids : ((registered addStream context data).2.2.map Prod.fst).Nodup)
    (hlength : BinaryType.Uint32.Holds
      (encode (streamsJson (record (registered addStream context data).2.2 []))).length) :
    Client.RoundTrips addStream context receive receiver data ↔ Unmistakable data := by
  have hcount := length_registered addStream context data
  unfold Client.RoundTrips Client.encodeRPC Server.decodeRPC
  simp only [walk_replaceBlob]
  by_cases hrefs : refs data = []
  · have hlog : (registered addStream context data).2.2 = [] := by
      rw [← List.length_eq_zero_iff, hcount, hrefs]
      rfl
    obtain ⟨hvalue, hstate⟩ := plain_eq addStream receive context receiver hrefs
    refine iff_of_true ⟨?_, hstate⟩ (.inl hrefs)
    rw [hlog]
    change decodeRPC _ receive receiver (buffers none _) = _
    rw [decodeRPC_plain readsText_bufferToString, hvalue]
  · have hlog : (registered addStream context data).2.2 ≠ [] := by
      intro hlog
      rw [hlog] at hcount
      exact hrefs (List.length_eq_zero_iff.mp hcount.symm)
    have hfound : Found (streamsJson (record (registered addStream context data).2.2 []))
        (registered addStream context data).2.2 := by
      intro entry hentry
      rw [property_streamsJson, lookup_record hids hentry]
      rfl
    have hrevived := revived_iff receive receiver hfound
    rw [if_pos (by simpa using hlog), decodeRPC_streams readsText_bufferToString hlength]
    refine (Iff.trans (and_congr_left fun _ => ?_) hrevived).trans
      ⟨.inr, fun h => h.resolve_left hrefs⟩
    rw [Except.ok.injEq, Prod.mk.injEq, Option.some.injEq, Prod.ext_iff]

/-- When the payload has each stream of the call once. -/
theorem server_decodes_iff {streams : EncodeRPCStreams}
    {data : Value (Nat × ProtocolBlobMetadata)} (hids : (streams.map Prod.fst).Nodup)
    (hperm : (refs data).Perm streams)
    (hlength : BinaryType.Uint32.Holds (encode (streamsJson streams)).length) :
    Client.decodeRPC receive receiver (Server.encodeRPC (some data) streams) =
      .ok (some (delivered (fun (_ : Unit) blob => (blob, ())) receive () receiver data).1,
        (delivered (fun (_ : Unit) blob => (blob, ())) receive () receiver data).2.2) ↔
      Unmistakable data := by
  have hsent : (walk keep blobJson () data).1 =
      (registered (fun (_ : Unit) blob => (blob, ())) () data).1 := by
    have Hsim : Simulates keep blobJson keep (register fun (_ : Unit) blob => (blob, ()))
        (fun _ _ => True) (fun _ => True) (fun _ => True) :=
      ⟨fun _ _ _ => trivial, fun _ _ _ => trivial, fun _ _ _ _ _ _ => ⟨rfl, trivial⟩,
        fun _ _ _ _ _ => ⟨rfl, trivial⟩⟩
    exact (Hsim.walk data (fun _ _ => trivial) trivial trivial).1
  unfold Server.encodeRPC Client.decodeRPC
  simp only [Option.map_some, hsent]
  by_cases hrefs : refs data = []
  · have hstreams : streams = [] := by
      rw [hrefs] at hperm
      exact hperm.symm.eq_nil
    obtain ⟨hvalue, -⟩ := plain_eq (fun (_ : Unit) blob => (blob, ())) receive () receiver hrefs
    refine iff_of_true ?_ (.inl hrefs)
    rw [hstreams]
    change decodeRPC _ receive receiver (buffers none _) = _
    rw [decodeRPC_plain readsText_decodeText, hvalue]
  · have hstreams : streams ≠ [] := by
      rintro rfl
      exact hrefs hperm.eq_nil
    have hfound : Found (streamsJson streams)
        (registered (fun (_ : Unit) blob => (blob, ())) () data).2.2 := by
      intro entry hentry
      rw [registered_self] at hentry
      rw [property_streamsJson, lookup_of_mem hids (hperm.mem_iff.mp hentry)]
      rfl
    have hrevived := revived_iff receive receiver hfound
    rw [if_pos hstreams, decodeRPC_streams readsText_decodeText hlength]
    refine Iff.trans ?_ (hrevived.trans ⟨.inr, fun h => h.resolve_left hrefs⟩)
    rw [Except.ok.injEq, Prod.mk.injEq, Option.some.injEq, Prod.ext_iff]
    exact ⟨fun h => ⟨h, rfl⟩, And.left⟩

theorem Registers.perm_iff {streams : EncodeRPCStreams}
    {data : Value (Nat × ProtocolBlobMetadata)} (H : Registers streams data) :
    (∀ blob ∈ streams, (refs data).count blob = 1) ↔ (refs data).Perm streams := by
  have hnodup : streams.Nodup := List.Nodup.of_map _ H.nodup
  constructor
  · intro hcount
    refine List.perm_iff_count.mpr fun blob => ?_
    by_cases hmem : blob ∈ streams
    · rw [hcount blob hmem, List.count_eq_one_of_mem hnodup hmem]
    · rw [List.count_eq_zero_of_not_mem hmem,
        List.count_eq_zero_of_not_mem fun h => hmem (H.mem blob h)]
  · intro hperm blob hmem
    rw [hperm.count_eq, List.count_eq_one_of_mem hnodup hmem]

theorem server_roundTrips_iff {streams : EncodeRPCStreams}
    {data : Value (Nat × ProtocolBlobMetadata)} (H : Registers streams data)
    (hlength : BinaryType.Uint32.Holds (encode (streamsJson streams)).length) :
    Server.RoundTrips receive receiver data streams ↔
      Unmistakable data ∧ (refs data).Perm streams := by
  unfold Server.RoundTrips
  rw [H.perm_iff]
  exact and_congr_left fun hperm => server_decodes_iff H.nodup hperm hlength

theorem rpc_roundTrips_iff (receive : τ → Option Int → Option (Value Empty) → γ × τ)
    (receiver : τ) :
    (∀ (addStream : σ → β → (Nat × ProtocolBlobMetadata) × σ) (context : σ) (data : Value β),
      ((registered addStream context data).2.2.map Prod.fst).Nodup →
      BinaryType.Uint32.Holds
        (encode (streamsJson (record (registered addStream context data).2.2 []))).length →
      (Client.RoundTrips addStream context receive receiver data ↔ Unmistakable data)) ∧
    (∀ (streams : EncodeRPCStreams) (data : Value (Nat × ProtocolBlobMetadata)),
      Registers streams data → BinaryType.Uint32.Holds (encode (streamsJson streams)).length →
      (Server.RoundTrips receive receiver data streams ↔
        Unmistakable data ∧ (refs data).Perm streams)) :=
  ⟨fun _ _ _ => client_roundTrips_iff, fun _ _ => server_roundTrips_iff⟩

end RoundTrip

section Examples

def textBlob : ProtocolBlobMetadata := ⟨none, ofString "text/plain", none⟩

/-- Stream ids counted up. -/
def countUp (next : Nat) (blob : ProtocolBlobMetadata) : (Nat × ProtocolBlobMetadata) × Nat :=
  ((next, blob), next + 1)

/-- A receiver that logs its calls. -/
def logged (log : List (Option Int)) (id : Option Int) (_ : Option (Value Empty)) :
    Option Int × List (Option Int) :=
  (id, log ++ [id])

theorem rpc_roundTrips_upload :
    Client.RoundTrips countUp 7 logged []
        (.obj [(ofString "file", .ref textBlob), (ofString "note", .str (ofString "hi"))]) ∧
      Server.RoundTrips logged [] (.arr [.ref (3, textBlob), .null]) [(3, textBlob)] := by
  constructor
  · refine ((rpc_roundTrips_iff logged []).1 countUp 7 _ (by decide) (by decide)).mpr (.inr ?_)
    intro x hx
    obtain rfl := List.mem_singleton.mp hx
    decide
  · refine ((@rpc_roundTrips_iff Unit _ Unit _ logged []).2 _ _ ⟨by decide, ?_⟩
      (by decide)).mpr ⟨.inr ?_, .refl _⟩
    · exact fun _ => id
    · intro x hx
      cases hx

/-- A caller's text in the form of a marker is taken for a stream. -/
theorem mistaken_marker : ¬ Client.RoundTrips countUp 7 logged []
    (.obj [(ofString "file", .ref textBlob),
      (ofString "note", .str (ofString "%neemata:stream:%\x0c7"))]) := by
  rw [client_roundTrips_iff (by decide) (by decide)]
  rintro (hrefs | hstrings)
  · cases hrefs
  · have hmarker := hstrings _ List.mem_cons_self
    revert hmarker
    decide

end Examples

end Neemata.Protocol.JsonCodec
