import Neemata.Http.Negotiation
import Neemata.Lib.Trace

/-!
# Preferences of a request

What the negotiation owes to a request (`Negotiated`), and when it gives it (`Negotiable`): a header
that `MIMEType` does not take, a weight that is zero or no number, and a registry that decodes
nothing go wrong.
-/

namespace Neemata.Http

open CodeUnits Binary64

variable {ν : Type} (mimeType : MimeParser) (sort : ArraySort ContentTypeEntry)

/-! ## The entries of a header -/

/-- `MIMEType` takes every part of the header. -/
def WellFormed (types : Text) : Prop :=
  trim types = anyType ∨ ∀ t ∈ parts types, (mimeType.parse t).isSome = true

/-- The parts of the header that `MIMEType` takes. -/
def entriesOf (types : Text) : List ContentTypeEntry :=
  if trim types = anyType then [⟨anyType, .finite 1⟩]
  else (parts types).filterMap fun t => (mimeType.parse t).map contentTypeEntry

variable {mimeType}

theorem not_wellFormed_nil : ¬ WellFormed mimeType [] := by
  rintro (h | h)
  · exact absurd h (by decide)
  · have hnil : [] ∈ parts [] := by decide
    have hsome := h [] hnil
    rw [mimeType.parse_nil] at hsome
    cases hsome

theorem isSome_entry (t : Text) :
    ((mimeType.parse t).map contentTypeEntry).isSome = (mimeType.parse t).isSome :=
  Option.isSome_map

theorem parseContentTypes_wellFormed {types : Text} (h : WellFormed mimeType types) :
    parseContentTypes mimeType sort types =
      some ((sort.sort compareEntries (entriesOf mimeType types)).map ContentTypeEntry.type) := by
  rw [parseContentTypes, entriesOf]
  by_cases hany : trim types = anyType
  · have hone : sort.sort compareEntries [⟨anyType, .finite 1⟩] = [⟨anyType, .finite 1⟩] :=
      List.perm_singleton.mp (sort.perm _ _)
    rw [if_pos hany, if_pos hany, hone]
    rfl
  · have hall := h.resolve_left hany
    rw [if_neg hany, if_neg hany, Trace.mapM_eq_some fun t ht => (isSome_entry t).trans (hall t ht)]
    rfl

theorem parseContentTypes_malformed {types : Text} (h : ¬ WellFormed mimeType types) :
    parseContentTypes mimeType sort types = none := by
  rw [parseContentTypes, if_neg fun hany => h (.inl hany), Trace.mapM_eq_none]
  · rfl
  · exact fun hall => h (.inr fun t ht => (isSome_entry t).symm.trans (hall t ht))

/-! ## What an entry matches -/

section

variable (registry : ProtocolCodecRegistry ν)

/-- The pattern is one that the entry asks for. -/
def AsksFor (entry : ContentTypeEntry) (key : Pattern) : Prop :=
  entry.type = anyType ∨ matchPattern entry.type key = true

instance AsksFor.decidable (entry : ContentTypeEntry) (key : Pattern) :
    Decidable (AsksFor entry key) := by
  unfold AsksFor; infer_instance

/-- The encoder is registered for what the entry asks for. -/
def Matches (entry : ContentTypeEntry) (encoder : Codec ν) : Prop :=
  ∃ key, (key, encoder) ∈ registry.encoders ∧ AsksFor entry key

/-- The entry asks for a registered encoder, and with a positive weight. -/
def Usable (entry : ContentTypeEntry) : Prop :=
  entry.q.Positive ∧ ∃ codec ∈ registry.encoders, AsksFor entry codec.1

/-- An entry that names a type of its own and asks for a registered encoder. -/
def Specific (entry : ContentTypeEntry) : Prop :=
  entry.type ≠ anyType ∧ ∃ codec ∈ registry.encoders, AsksFor entry codec.1

instance Specific.decidable (entry : ContentTypeEntry) :
    Decidable (Specific registry entry) := by
  unfold Specific; infer_instance

/-- A matching entry than which no other one has a greater weight. -/
def Heaviest (entries : List ContentTypeEntry) (entry : ContentTypeEntry) : Prop :=
  Specific registry entry ∧
    ∀ other ∈ entries, Specific registry other → other.q.compareDifference entry.q ≠ .gt

instance Heaviest.decidable (entries : List ContentTypeEntry) (entry : ContentTypeEntry) :
    Decidable (Heaviest registry entries entry) := by
  unfold Heaviest; infer_instance

/-- The first of the heaviest entries. -/
def leader (entries : List ContentTypeEntry) : Option ContentTypeEntry :=
  entries.find? fun entry => decide (Heaviest registry entries entry)

/-- The encoder is the choice of an entry with a positive weight: the greatest one of the matching
entries, or that of `*/*` if no more specific entry is usable. -/
def Preferred (entries : List ContentTypeEntry) (encoder : Codec ν) : Prop :=
  ∃ entry ∈ entries, entry.q.Positive ∧ Matches registry entry encoder ∧
    (entry.type ≠ anyType → Heaviest registry entries entry) ∧
    (entry.type = anyType → ∀ other ∈ entries, Specific registry other → ¬ other.q.Positive)

end

section

variable {codecs : CodecMap ν} {type : Text} {codec : Codec ν}

theorem codecFor_eq_some (h : codecFor codecs type = some codec) :
    ∃ key, (key, codec) ∈ codecs ∧ (type = anyType ∨ matchPattern type key = true) := by
  obtain ⟨⟨key, found⟩, hfind, rfl⟩ := Option.map_eq_some_iff.mp h
  have hmatch := List.find?_some hfind
  rw [Bool.or_eq_true, decide_eq_true_iff] at hmatch
  exact ⟨key, List.mem_of_find?_eq_some hfind, hmatch⟩

theorem isSome_codecFor :
    (codecFor codecs type).isSome = true ↔
      ∃ entry ∈ codecs, type = anyType ∨ matchPattern type entry.1 = true := by
  rw [codecFor, Option.isSome_map, List.find?_isSome]
  simp only [Bool.or_eq_true, decide_eq_true_iff]

theorem codecFor_anyType (codecs : CodecMap ν) :
    codecFor codecs anyType = codecs.head?.map Prod.snd := by
  cases codecs with
  | nil => rfl
  | cons entry codecs => simp [codecFor]

end

/-! ## The order of the entries -/

theorem compareEntries_specific {a b : ContentTypeEntry} (ha : a.type ≠ anyType)
    (hb : b.type ≠ anyType) : compareEntries a b = b.q.compareDifference a.q := by
  rw [compareEntries, if_neg ha, if_neg hb]

/-- `*/*` comes last. -/
def anyRank (entry : ContentTypeEntry) : Nat := if entry.type = anyType then 1 else 0

theorem ranks_anyRank (entries : List ContentTypeEntry) :
    Ranks compareEntries anyRank entries := by
  intro a _ b _ hlt
  rw [anyRank, anyRank] at hlt
  by_cases ha : a.type = anyType
  · rw [if_pos ha] at hlt
    split at hlt <;> omega
  · by_cases hb : b.type = anyType
    · exact ⟨by rw [compareEntries, if_neg ha, if_pos hb], by rw [compareEntries, if_pos hb]⟩
    · rw [if_neg ha, if_neg hb] at hlt
      omega

/-- The weights of the entries with a type of their own are numbers. -/
def Weighted (entries : List ContentTypeEntry) : Prop :=
  ∀ entry ∈ entries, entry.type ≠ anyType → entry.q ≠ .nan

/-- The greatest weight comes first, and `*/*` last. -/
def weightRank (entry : ContentTypeEntry) : WithTop (WithBot (WithTop ℚ))ᵒᵈ :=
  if entry.type = anyType then ⊤ else (OrderDual.toDual entry.q.level : (WithBot (WithTop ℚ))ᵒᵈ)

theorem weightRank_specific {entry : ContentTypeEntry} (h : entry.type ≠ anyType) :
    weightRank entry = (OrderDual.toDual entry.q.level : (WithBot (WithTop ℚ))ᵒᵈ) := if_neg h

theorem weightRank_lt_iff {a b : ContentTypeEntry} (ha : a.type ≠ anyType)
    (hb : b.type ≠ anyType) : weightRank a < weightRank b ↔ b.q.level < a.q.level := by
  rw [weightRank_specific ha, weightRank_specific hb, WithTop.coe_lt_coe,
    OrderDual.toDual_lt_toDual]

theorem compareDifference_eq_gt_iff {x y : Double} (hx : x ≠ .nan) (hy : y ≠ .nan) :
    x.compareDifference y = .gt ↔ y.level < x.level := by
  rw [Double.compareDifference, if_neg (by simp [hx, hy])]
  split
  · rename_i hlt
    exact ⟨fun h => (by cases h), fun h => absurd h (lt_asymm hlt)⟩
  · split
    · rename_i hlt
      exact ⟨fun _ => hlt, fun _ => rfl⟩
    · rename_i hlt
      exact ⟨fun h => (by cases h), fun h => absurd h hlt⟩

theorem compareDifference_eq_lt {x y : Double} (hx : x ≠ .nan) (hy : y ≠ .nan)
    (h : x.level < y.level) : x.compareDifference y = .lt := by
  rw [Double.compareDifference, if_neg (by simp [hx, hy]), if_pos h]

theorem ranks_weightRank {entries : List ContentTypeEntry} (h : Weighted entries) :
    Ranks compareEntries weightRank entries := by
  intro a ha b hb hlt
  by_cases hta : a.type = anyType
  · rw [weightRank, if_pos hta] at hlt
    exact absurd hlt not_top_lt
  · by_cases htb : b.type = anyType
    · exact ⟨by rw [compareEntries, if_neg hta, if_pos htb], by rw [compareEntries, if_pos htb]⟩
    · have hna := h a ha hta
      have hnb := h b hb htb
      rw [weightRank_lt_iff hta htb] at hlt
      rw [compareEntries_specific hta htb, compareEntries_specific htb hta]
      exact ⟨compareDifference_eq_lt hnb hna hlt, (compareDifference_eq_gt_iff hna hnb).mpr hlt⟩

theorem ties_weightRank (entries : List ContentTypeEntry) {entry : ContentTypeEntry}
    (hentry : entry.type ≠ anyType) :
    Ties compareEntries weightRank entries (weightRank entry) := by
  have hspecific : ∀ a : ContentTypeEntry, weightRank a = weightRank entry →
      a.type ≠ anyType ∧ a.q.level = entry.q.level := by
    intro a ha
    have htype : a.type ≠ anyType := fun hany => by
      rw [weightRank, if_pos hany, weightRank_specific hentry] at ha
      exact absurd ha.symm WithTop.coe_ne_top
    rw [weightRank_specific htype, weightRank_specific hentry] at ha
    exact ⟨htype, OrderDual.toDual.injective (WithTop.coe_injective ha)⟩
  intro a _ b _ ha hb
  obtain ⟨hta, hla⟩ := hspecific a ha
  obtain ⟨htb, hlb⟩ := hspecific b hb
  rw [compareEntries_specific hta htb, Double.compareDifference, hla, hlb]
  split
  · rfl
  · rw [if_neg (lt_irrefl _), if_neg (lt_irrefl _)]

/-! ## The encoder that is found -/

section

variable (registry : ProtocolCodecRegistry ν)

/-- The first entry in the order of the sort for which there is an encoder decides. -/
def encoderFor (entries : List ContentTypeEntry) : Option (Codec ν) :=
  ((sort.sort compareEntries entries).map ContentTypeEntry.type).findSome?
    (codecFor registry.encoders)

end

variable {sort} {registry : ProtocolCodecRegistry ν} {entries : List ContentTypeEntry}

variable (sort registry) in
theorem supportsEncoder_wellFormed {types : Text} (h : WellFormed mimeType types) :
    supportsEncoder mimeType sort registry types =
      .ok (encoderFor sort registry (entriesOf mimeType types)) := by
  rw [supportsEncoder, supports, parseContentTypes_wellFormed sort h]
  rfl

theorem supports_malformed {codecs : CodecMap ν} {types : Text} (h : ¬ WellFormed mimeType types) :
    supports mimeType sort codecs types = .error .invalidMimeType := by
  rw [supports, parseContentTypes_malformed sort h]

theorem specific_iff {entry : ContentTypeEntry} (h : entry.type ≠ anyType) :
    Specific registry entry ↔ (codecFor registry.encoders entry.type).isSome = true := by
  rw [isSome_codecFor]
  exact ⟨fun hs => hs.2, fun hs => ⟨h, hs⟩⟩

/-- Where the deciding entry stands. -/
theorem encoderFor_eq_some {encoder : Codec ν}
    (h : encoderFor sort registry entries = some encoder) :
    ∃ before entry after, sort.sort compareEntries entries = before ++ entry :: after ∧
      codecFor registry.encoders entry.type = some encoder ∧
      ∀ other ∈ before, codecFor registry.encoders other.type = none := by
  rw [encoderFor, List.findSome?_map] at h
  exact List.findSome?_eq_some_iff.mp h

theorem encoderFor_eq_none_iff :
    encoderFor sort registry entries = none ↔
      ∀ entry ∈ entries, codecFor registry.encoders entry.type = none := by
  rw [encoderFor, List.findSome?_map, List.findSome?_eq_none_iff]
  exact ⟨fun h entry hentry => h entry (sort.mem_sort.mpr hentry),
    fun h entry hentry => h entry (sort.mem_sort.mp hentry)⟩

theorem matches_of_codecFor {entry : ContentTypeEntry} {encoder : Codec ν}
    (h : codecFor registry.encoders entry.type = some encoder) :
    Matches registry entry encoder := codecFor_eq_some h

/-- A sorted list in which nothing before the entry is matched. -/
theorem rank_le_of_before {β : Type} [LinearOrder β] {rank : ContentTypeEntry → β}
    {before after : List ContentTypeEntry} {entry other : ContentTypeEntry}
    (hsorted : (before ++ entry :: after).Pairwise fun a b => rank a ≤ rank b)
    (hbefore : ∀ other ∈ before, codecFor registry.encoders other.type = none)
    (hmem : other ∈ before ++ entry :: after)
    (hother : (codecFor registry.encoders other.type).isSome = true) : rank entry ≤ rank other := by
  rcases List.mem_append.mp hmem with hin | hin
  · rw [hbefore other hin] at hother
    cases hother
  · obtain ⟨-, hsorted, -⟩ := List.pairwise_append.mp hsorted
    rcases List.mem_cons.mp hin with rfl | hin
    · exact le_refl _
    · exact (List.pairwise_cons.mp hsorted).1 other hin

theorem mem_of_sort {before after : List ContentTypeEntry} {entry : ContentTypeEntry}
    (hsort : sort.sort compareEntries entries = before ++ entry :: after) : entry ∈ entries := by
  have hmem : entry ∈ sort.sort compareEntries entries := by
    rw [hsort]
    exact List.mem_append_right _ List.mem_cons_self
  exact sort.mem_sort.mp hmem

/-- `*/*` decides only if no entry with a type of its own is matched. -/
theorem specific_of_encoderFor {before after : List ContentTypeEntry} {entry : ContentTypeEntry}
    {encoder : Codec ν} (hsort : sort.sort compareEntries entries = before ++ entry :: after)
    (hfound : codecFor registry.encoders entry.type = some encoder)
    (hbefore : ∀ other ∈ before, codecFor registry.encoders other.type = none)
    (h : ∃ other ∈ entries, Specific registry other) : Specific registry entry := by
  obtain ⟨other, hmem, hother⟩ := h
  have hsorted := sort.sorted (ranks_anyRank entries)
  have hmem' : other ∈ before ++ entry :: after := by
    rw [← hsort]
    exact sort.mem_sort.mpr hmem
  rw [hsort] at hsorted
  have hle := rank_le_of_before hsorted hbefore hmem' ((specific_iff hother.1).mp hother)
  have htype : entry.type ≠ anyType := fun hany => by
    rw [anyRank, anyRank, if_pos hany, if_neg hother.1] at hle
    omega
  exact (specific_iff htype).mpr (by rw [hfound]; rfl)

theorem heaviest_of_encoderFor (hweights : Weighted entries)
    {before after : List ContentTypeEntry} {entry : ContentTypeEntry} {encoder : Codec ν}
    (hsort : sort.sort compareEntries entries = before ++ entry :: after)
    (hfound : codecFor registry.encoders entry.type = some encoder)
    (hbefore : ∀ other ∈ before, codecFor registry.encoders other.type = none)
    (h : ∃ other ∈ entries, Specific registry other) : Heaviest registry entries entry := by
  have hspecific := specific_of_encoderFor hsort hfound hbefore h
  have hentry := mem_of_sort hsort
  refine ⟨hspecific, fun other hmem hother hgt => ?_⟩
  have hsorted := sort.sorted (ranks_weightRank hweights)
  have hmem' : other ∈ before ++ entry :: after := by
    rw [← hsort]
    exact sort.mem_sort.mpr hmem
  rw [hsort] at hsorted
  have hle := rank_le_of_before hsorted hbefore hmem' ((specific_iff hother.1).mp hother)
  rw [compareDifference_eq_gt_iff (hweights other hmem hother.1)
    (hweights entry hentry hspecific.1)] at hgt
  exact absurd ((weightRank_lt_iff hother.1 hspecific.1).mpr hgt) (not_lt.mpr hle)

theorem weightRank_eq_of_heaviest (hweights : Weighted entries) {a b : ContentTypeEntry}
    (ha : a ∈ entries) (hb : b ∈ entries) (hheavy : Heaviest registry entries a)
    (hheavy' : Heaviest registry entries b) : weightRank a = weightRank b := by
  have hna := hweights a ha hheavy.1.1
  have hnb := hweights b hb hheavy'.1.1
  have hab := hheavy.2 b hb hheavy'.1
  have hba := hheavy'.2 a ha hheavy.1
  rw [ne_eq, compareDifference_eq_gt_iff hnb hna, not_lt] at hab
  rw [ne_eq, compareDifference_eq_gt_iff hna hnb, not_lt] at hba
  rw [weightRank_specific hheavy.1.1, weightRank_specific hheavy'.1.1, le_antisymm hba hab]

theorem heaviest_of_weightRank (hweights : Weighted entries) {a b : ContentTypeEntry}
    (ha : a ∈ entries) (hb : b ∈ entries) (hheavy : Heaviest registry entries a)
    (hspecific : Specific registry b) (heq : weightRank b = weightRank a) :
    Heaviest registry entries b := by
  refine ⟨hspecific, fun other hmem hother hgt => hheavy.2 other hmem hother ?_⟩
  have hno := hweights other hmem hother.1
  rw [weightRank_specific hspecific.1, weightRank_specific hheavy.1.1] at heq
  have hlevel := OrderDual.toDual.injective (WithTop.coe_injective heq)
  rw [compareDifference_eq_gt_iff hno (hweights b hb hspecific.1), hlevel] at hgt
  exact (compareDifference_eq_gt_iff hno (hweights a ha hheavy.1.1)).mpr hgt

theorem find?_append_cons {α : Type} {p : α → Bool} {before after : List α} {a : α}
    (hbefore : ∀ x ∈ before, p x = false) (ha : p a = true) :
    (before ++ a :: after).find? p = some a := by
  rw [List.find?_eq_some_iff_append]
  exact ⟨ha, before, after, rfl, fun x hx => by rw [hbefore x hx]; rfl⟩

theorem heaviest_of_leader {entry : ContentTypeEntry}
    (h : leader registry entries = some entry) :
    entry ∈ entries ∧ Heaviest registry entries entry := by
  obtain ⟨hheavy, front, back, hsplit, -⟩ := List.find?_eq_some_iff_append.mp h
  refine ⟨?_, of_decide_eq_true hheavy⟩
  rw [hsplit]
  exact List.mem_append_right _ List.mem_cons_self

/-- The first of the heaviest entries decides. -/
theorem leader_of_encoderFor (hweights : Weighted entries) {encoder : Codec ν}
    (h : encoderFor sort registry entries = some encoder)
    (hex : ∃ other ∈ entries, Specific registry other) :
    ∃ entry, leader registry entries = some entry ∧
      codecFor registry.encoders entry.type = some encoder := by
  obtain ⟨before, entry, after, hsort, hfound, hbefore⟩ := encoderFor_eq_some h
  have hheavy := heaviest_of_encoderFor hweights hsort hfound hbefore hex
  have hentry := mem_of_sort hsort
  cases hlead : leader registry entries with
  | none => exact absurd (decide_eq_true hheavy) (List.find?_eq_none.mp hlead entry hentry)
  | some first =>
    obtain ⟨hfirst, front, back, hsplit, hfront⟩ := List.find?_eq_some_iff_append.mp hlead
    have hfirst := of_decide_eq_true hfirst
    have hmem : first ∈ entries := by
      rw [hsplit]
      exact List.mem_append_right _ List.mem_cons_self
    have hrank := weightRank_eq_of_heaviest hweights hmem hentry hfirst hheavy
    have hstable := sort.stable (weightRank entry) (ranks_weightRank hweights)
      (ties_weightRank entries hheavy.1.1)
    -- the first matched entry of that rank, before and after the sort
    have hsorted : ((sort.sort compareEntries entries).filter
        fun a => weightRank a = weightRank entry).find?
          (fun a => (codecFor registry.encoders a.type).isSome) = some entry := by
      rw [hsort, List.filter_append, List.filter_cons_of_pos (by simp)]
      refine find?_append_cons (fun x hx => ?_) (by rw [hfound]; rfl)
      rw [hbefore x (List.mem_of_mem_filter hx)]
      rfl
    have hgiven : (entries.filter fun a => weightRank a = weightRank entry).find?
        (fun a => (codecFor registry.encoders a.type).isSome) = some first := by
      rw [hsplit, List.filter_append, List.filter_cons_of_pos (by simp [hrank])]
      refine find?_append_cons (fun x hx => ?_) ((specific_iff hfirst.1.1).mp hfirst.1)
      obtain ⟨hx, hxrank⟩ := List.mem_filter.mp hx
      have hxrank : weightRank x = weightRank entry := of_decide_eq_true hxrank
      rw [Bool.eq_false_iff]
      intro hmatched
      have hxtype : x.type ≠ anyType := fun hany => by
        rw [weightRank, if_pos hany, weightRank_specific hheavy.1.1] at hxrank
        exact absurd hxrank.symm WithTop.coe_ne_top
      have hxmem : x ∈ entries := by
        rw [hsplit]
        exact List.mem_append_left _ hx
      have hxheavy := heaviest_of_weightRank hweights hentry hxmem hheavy
        ((specific_iff hxtype).mpr hmatched) hxrank
      have hnot := hfront x hx
      rw [decide_eq_true hxheavy] at hnot
      cases hnot
    rw [hstable, hgiven] at hsorted
    cases hsorted
    exact ⟨entry, rfl, hfound⟩

/-! ## The outcomes of the negotiation -/

section

variable (mimeType sort registry) (request : NegotiationRequest)

/-- The encoder that the Accept header comes to: for GET, the first one if there is none. -/
def selectedEncoder : Option (Codec ν) :=
  match encoderFor sort registry (entriesOf mimeType request.acceptTypes) with
  | some encoder => some encoder
  | none => if request.canHaveBody then none else codecFor registry.encoders anyType

/-- The Content-Type is not looked at, or `MIMEType` takes it. -/
def Readable : Prop :=
  request.isBlob = true ∨ ∀ t, request.contentType = some t → WellFormed mimeType t

end

variable {request : NegotiationRequest}

theorem anyType_ne_nil : anyType ≠ [] := by decide

theorem supports_anyType (codecs : CodecMap ν) :
    supports mimeType sort codecs anyType = .ok (codecFor codecs anyType) := by
  have hparse : parseContentTypes mimeType sort anyType = some [anyType] := if_pos (by decide)
  rw [supports, hparse]
  show Except.ok ([anyType].findSome? (codecFor codecs)) = _
  rw [List.findSome?_cons]
  cases codecFor codecs anyType <;> rfl

theorem acceptTypes_ne_nil : request.acceptTypes ≠ [] := by
  rw [NegotiationRequest.acceptTypes]
  split
  · decide
  · decide
  · rename_i accept hnil _
    exact hnil

theorem ne_nil_of_supports {codecs : CodecMap ν} {types : Text} {codec : Codec ν}
    (h : supports mimeType sort codecs types = .ok (some codec)) : codecs ≠ [] := by
  rintro rfl
  rw [supports] at h
  split at h
  · cases h
  · rename_i found hparse
    have hnone : found.findSome? (codecFor ([] : CodecMap ν)) = none :=
      List.findSome?_eq_none_iff.mpr fun _ _ => rfl
    rw [hnone] at h
    cases h

theorem negotiableAccept_malformed (h : ¬ WellFormed mimeType request.acceptTypes)
    (hget : request.canHaveBody = false) :
    negotiableAccept mimeType sort registry request = .error .invalidMimeType := by
  rw [negotiableAccept, hget, supportsEncoder, supports_malformed h]
  rfl

variable (sort registry) in
theorem negotiableAccept_eq (h : WellFormed mimeType request.acceptTypes) :
    ∃ accept, negotiableAccept mimeType sort registry request = .ok accept ∧ accept ≠ [] ∧
      supportsEncoder mimeType sort registry accept =
        .ok (selectedEncoder mimeType sort registry request) := by
  have hencoder := supportsEncoder_wellFormed sort registry h
  rw [negotiableAccept, selectedEncoder]
  cases hbody : request.canHaveBody with
  | true =>
    refine ⟨_, if_pos rfl, acceptTypes_ne_nil, ?_⟩
    rw [hencoder]
    cases encoderFor sort registry (entriesOf mimeType request.acceptTypes) <;> rfl
  | false =>
    rw [hencoder]
    cases hfound : encoderFor sort registry (entriesOf mimeType request.acceptTypes) with
    | none => exact ⟨anyType, rfl, anyType_ne_nil, supports_anyType _⟩
    | some encoder =>
      rw [hfound] at hencoder
      exact ⟨request.acceptTypes, rfl, acceptTypes_ne_nil, hencoder⟩

theorem decodable_unreadable (h : ¬ Readable mimeType request) :
    decodable mimeType sort registry request = .error .invalidMimeType := by
  rw [Readable, not_or, not_forall] at h
  obtain ⟨hblob, t, ht⟩ := h
  obtain ⟨hcontent, hbad⟩ := Classical.not_imp.mp ht
  rw [Bool.not_eq_true] at hblob
  rw [decodable, hblob, hcontent]
  show (supportsDecoder mimeType sort registry t >>= fun decoder => pure decoder.isSome) = _
  rw [supportsDecoder, supports_malformed hbad]
  rfl

variable (sort registry) in
/-- The type that is decoded, or `*/*`. -/
theorem decodable_eq (h : Readable mimeType request) :
    ∃ decodes, decodable mimeType sort registry request = .ok decodes ∧
      ∃ found, supportsDecoder mimeType sort registry
          (if decodes then request.contentType.getD anyType else anyType) = .ok found ∧
        (if decodes then request.contentType.getD anyType else anyType) ≠ [] ∧
        (found = none ↔ registry.decoders = []) := by
  have hany : supportsDecoder mimeType sort registry anyType =
      .ok (codecFor registry.decoders anyType) := supports_anyType _
  have hanyNone : codecFor registry.decoders anyType = none ↔ registry.decoders = [] := by
    rw [codecFor_anyType, Option.map_eq_none_iff, List.head?_eq_none_iff]
  have hplain : decodable mimeType sort registry request = .ok false →
      ∃ decodes, decodable mimeType sort registry request = .ok decodes ∧
        ∃ found, supportsDecoder mimeType sort registry
            (if decodes then request.contentType.getD anyType else anyType) = .ok found ∧
          (if decodes then request.contentType.getD anyType else anyType) ≠ [] ∧
          (found = none ↔ registry.decoders = []) := fun hfalse =>
    ⟨false, hfalse, _, hany, anyType_ne_nil, hanyNone⟩
  cases hblob : request.isBlob with
  | true => exact hplain (by rw [decodable, hblob])
  | false =>
    cases hcontent : request.contentType with
    | none => exact hcontent ▸ hplain (by rw [decodable, hblob, hcontent])
    | some t =>
      have hwf : WellFormed mimeType t :=
        (h.resolve_left (by rw [hblob]; exact Bool.false_ne_true)) t hcontent
      have hne : t ≠ [] := fun hnil => not_wellFormed_nil (hnil ▸ hwf)
      obtain ⟨found, hfound⟩ : ∃ found, supportsDecoder mimeType sort registry t = .ok found := by
        rw [supportsDecoder, supports, parseContentTypes_wellFormed sort hwf]
        exact ⟨_, rfl⟩
      have hdecodable : decodable mimeType sort registry request = .ok found.isSome := by
        rw [decodable, hblob, hcontent]
        show (supportsDecoder mimeType sort registry t >>= fun decoder => pure decoder.isSome) = _
        rw [hfound]
        rfl
      cases found with
      | none => exact hcontent ▸ hplain hdecodable
      | some decoder =>
        refine ⟨true, hdecodable, some decoder, hfound, hne, fun hnone => (by cases hnone), ?_⟩
        intro hnil
        exact absurd hnil (ne_nil_of_supports hfound)

theorem negotiate_unreadable (h : ¬ WellFormed mimeType request.acceptTypes ∨
    ¬ Readable mimeType request) :
    negotiate mimeType sort registry request = .error .invalidMimeType := by
  by_cases haccept : WellFormed mimeType request.acceptTypes
  · obtain ⟨accept, hnegotiable, -, -⟩ :=
      negotiableAccept_eq sort registry haccept
    rw [negotiate, hnegotiable, decodable_unreadable (h.resolve_left fun hbad => hbad haccept)]
    rfl
  · cases hbody : request.canHaveBody with
    | false =>
      rw [negotiate, negotiableAccept_malformed haccept hbody]
      rfl
    | true =>
      have hnegotiable : negotiableAccept mimeType sort registry request =
          .ok request.acceptTypes := if_pos hbody
      rw [negotiate, hnegotiable]
      by_cases hcontent : Readable mimeType request
      · obtain ⟨decodes, hdecodable, -⟩ :=
          decodable_eq sort registry hcontent
        rw [hdecodable]
        show negotiateCodecs mimeType sort registry request.acceptTypes _ = _
        rw [negotiateCodecs, if_neg acceptTypes_ne_nil, supportsEncoder,
          supports_malformed haccept]
        rfl
      · rw [decodable_unreadable hcontent]
        rfl

/-- What the codecs found for the two headers come to. -/
def outcome : Option (Codec ν) → Option (Codec ν) → Except Thrown (Codecs ν)
  | none, _ => .error .unsupportedAcceptType
  | some _, none => .error .unsupportedContentType
  | some encoder, some decoder => .ok ⟨encoder, decoder⟩

theorem negotiateCodecs_eq {accept contentType : Text} {encoder decoder : Option (Codec ν)}
    (hne : accept ≠ []) (hencoder : supportsEncoder mimeType sort registry accept = .ok encoder)
    (htype : contentType ≠ [])
    (hdecoder : supportsDecoder mimeType sort registry contentType = .ok decoder) :
    negotiateCodecs mimeType sort registry accept contentType = outcome encoder decoder := by
  rw [negotiateCodecs, if_neg hne, hencoder]
  cases encoder with
  | none => rfl
  | some encoder =>
    show (if contentType = [] then pure none >>= _
      else supportsDecoder mimeType sort registry contentType >>= _) = _
    rw [if_neg htype, hdecoder]
    cases decoder <;> rfl

variable (sort registry) in
/-- What the negotiation comes to where `MIMEType` takes both headers. -/
theorem negotiate_eq (haccept : WellFormed mimeType request.acceptTypes)
    (hcontent : Readable mimeType request) :
    (selectedEncoder mimeType sort registry request = none ∧
      negotiate mimeType sort registry request = .error .unsupportedAcceptType) ∨
    ∃ encoder, selectedEncoder mimeType sort registry request = some encoder ∧
      ((registry.decoders = [] ∧
        negotiate mimeType sort registry request = .error .unsupportedContentType) ∨
      (registry.decoders ≠ [] ∧
        ∃ decoder, negotiate mimeType sort registry request = .ok ⟨encoder, decoder⟩)) := by
  obtain ⟨accept, hnegotiable, hne, hencoder⟩ :=
    negotiableAccept_eq sort registry haccept
  obtain ⟨decodes, hdecodable, found, hfound, htype, hnone⟩ :=
    decodable_eq sort registry hcontent
  have hcodecs : negotiate mimeType sort registry request =
      outcome (selectedEncoder mimeType sort registry request) found := by
    rw [negotiate, hnegotiable, hdecodable]
    exact negotiateCodecs_eq hne hencoder htype hfound
  cases hselected : selectedEncoder mimeType sort registry request with
  | none =>
    rw [hselected] at hcodecs
    exact .inl ⟨rfl, hcodecs⟩
  | some encoder =>
    rw [hselected] at hcodecs
    refine .inr ⟨encoder, rfl, ?_⟩
    cases found with
    | none => exact .inl ⟨hnone.mp rfl, hcodecs⟩
    | some decoder =>
      refine .inr ⟨fun hnil => ?_, decoder, hcodecs⟩
      cases hnone.mpr hnil

/-! ## What the negotiation owes, and when it gives it -/

section

variable (mimeType sort registry request)

/-- The Content-Type is malformed, or nothing decodes it. -/
def Undecodable : Prop :=
  ∃ t, request.contentType = some t ∧
    (¬ WellFormed mimeType t ∨ supportsDecoder mimeType sort registry t = .ok none)

structure Negotiated : Prop where
  /-- No exception but a `CodecNegotiationError`. -/
  total : ∀ thrown, negotiate mimeType sort registry request = .error thrown →
    thrown = .unsupportedAcceptType ∨ thrown = .unsupportedContentType
  /-- The body of a Content-Type that is not decoded is passed through. -/
  blob : Undecodable mimeType sort registry request →
    negotiate mimeType sort registry request ≠ .error .unsupportedContentType ∧
    ∀ codecs, negotiate mimeType sort registry request = .ok codecs →
      request.canHaveBody = true → request.hasBody = true →
        passesBlob mimeType sort registry request = .ok true
  refused : (∀ entry ∈ entriesOf mimeType request.acceptTypes, ¬ Usable registry entry) →
    if request.canHaveBody then
      negotiate mimeType sort registry request = .error .unsupportedAcceptType
    else ∃ codecs, negotiate mimeType sort registry request = .ok codecs ∧
      codecs.encoder = registry.default
  preferred : (∃ entry ∈ entriesOf mimeType request.acceptTypes, Usable registry entry) →
    ∃ codecs, negotiate mimeType sort registry request = .ok codecs ∧
      Preferred registry (entriesOf mimeType request.acceptTypes) codecs.encoder

/-- The encoder that a GET request falls back to is the default one. -/
def FallsBack (entries : List ContentTypeEntry) : Prop :=
  ((∀ entry ∈ entries, ¬ Specific registry entry) ∧
    codecFor registry.encoders anyType = some registry.default) ∨
  (Weighted entries ∧ ∃ entry, leader registry entries = some entry ∧
    codecFor registry.encoders entry.type = some registry.default)

/-- The entries say what to take: a type of its own with a positive weight, where all weights are
numbers; or `*/*` with one; or nothing, for a GET request. -/
def Decided (entries : List ContentTypeEntry) : Prop :=
  (Weighted entries ∧ ∃ entry ∈ entries, Specific registry entry ∧ entry.q.Positive) ∨
  ((∀ entry ∈ entries, Specific registry entry → ¬ entry.q.Positive) ∧
    ∃ entry ∈ entries, entry.type = anyType ∧ entry.q.Positive) ∨
  (request.canHaveBody = false ∧ (∀ entry ∈ entries, ¬ Usable registry entry) ∧
    FallsBack registry entries)

/-- The Content-Type of a body that is read is none at all, or `MIMEType` takes it. -/
def BodyReadable : Prop :=
  request.canHaveBody = true → request.hasBody = true →
    ∀ t, request.contentType = some t → t = [] ∨ WellFormed mimeType t

structure Negotiable : Prop where
  accept : WellFormed mimeType request.acceptTypes
  contentType : Readable mimeType request
  selects : (request.canHaveBody = true ∧ ∀ entry ∈ entriesOf mimeType request.acceptTypes,
      codecFor registry.encoders entry.type = none) ∨
    (registry.decoders ≠ [] ∧ BodyReadable mimeType request ∧
      Decided registry request (entriesOf mimeType request.acceptTypes))

end

variable (sort) in
theorem isSome_encoderFor {entry : ContentTypeEntry} (hentry : entry ∈ entries)
    (h : (codecFor registry.encoders entry.type).isSome = true) :
    ∃ encoder, encoderFor sort registry entries = some encoder := by
  cases hfound : encoderFor sort registry entries with
  | none =>
    rw [encoderFor_eq_none_iff.mp hfound entry hentry] at h
    cases h
  | some encoder => exact ⟨encoder, rfl⟩

theorem selectedEncoder_of_some {encoder : Codec ν}
    (h : encoderFor sort registry (entriesOf mimeType request.acceptTypes) = some encoder) :
    selectedEncoder mimeType sort registry request = some encoder := by
  rw [selectedEncoder, h]

theorem codecFor_any (hne : registry.encoders ≠ []) :
    (codecFor registry.encoders anyType).isSome = true := by
  rw [codecFor_anyType, Option.isSome_map, List.isSome_head?]
  exact hne

/-- Without a matched type of its own, the first encoder is taken. -/
theorem encoderFor_of_noSpecific {encoder : Codec ν}
    (hno : ∀ entry ∈ entries, ¬ Specific registry entry)
    (h : encoderFor sort registry entries = some encoder) :
    codecFor registry.encoders anyType = some encoder := by
  obtain ⟨before, entry, after, hsort, hfound, -⟩ := encoderFor_eq_some h
  have htype : entry.type = anyType := by
    by_contra htype
    exact hno entry (mem_of_sort hsort) ((specific_iff htype).mpr (by rw [hfound]; rfl))
  rw [← htype]
  exact hfound

theorem passesBlob_of_undecodable (hbody : BodyReadable mimeType request)
    (hcan : request.canHaveBody = true) (hhas : request.hasBody = true)
    (h : Undecodable mimeType sort registry request) :
    passesBlob mimeType sort registry request = .ok true := by
  obtain ⟨t, ht, hbad⟩ := h
  rw [passesBlob, ht]
  cases t with
  | nil => exact congrArg Except.ok (Bool.or_true _)
  | cons u rest =>
    rcases hbody hcan hhas _ ht with hnil | hwf
    · cases hnil
    · have hnone := hbad.resolve_left fun hbad => hbad hwf
      simp only [hnone]
      exact congrArg Except.ok (Bool.or_true _)

theorem bodyReadable_of_passesBlob {passes : Bool}
    (h : passesBlob mimeType sort registry request = .ok passes) :
    ∀ t, request.contentType = some t → t = [] ∨ WellFormed mimeType t := by
  intro t ht
  by_cases hwf : WellFormed mimeType t
  · exact .inr hwf
  · cases t with
    | nil => exact .inl rfl
    | cons u rest =>
      rw [passesBlob, ht] at h
      simp only [supportsDecoder, supports_malformed hwf] at h
      cases h

theorem positive_of_not_gt {x y : Double} (hx : x.Positive) (hy : y ≠ .nan)
    (h : x.compareDifference y ≠ .gt) : y.Positive := by
  rw [ne_eq, compareDifference_eq_gt_iff hx.1 hy, not_lt] at h
  exact ⟨hy, hx.2.trans_le h⟩

/-- A GET request without a usable entry gets the default encoder where it falls back to it. -/
theorem default_of_fallsBack {encoder : Codec ν}
    (h : FallsBack registry (entriesOf mimeType request.acceptTypes))
    (hget : request.canHaveBody = false)
    (hselected : selectedEncoder mimeType sort registry request = some encoder) :
    encoder = registry.default := by
  rcases h with ⟨hno, hdefault⟩ | ⟨hweights, first, hlead, hdefault⟩
  · cases hfound : encoderFor sort registry (entriesOf mimeType request.acceptTypes) with
    | none =>
      rw [selectedEncoder, hfound, hget] at hselected
      exact Option.some.inj (hselected.symm.trans hdefault)
    | some found =>
      rw [selectedEncoder_of_some hfound] at hselected
      have hany := encoderFor_of_noSpecific hno hfound
      rw [Option.some.inj hselected] at hany
      exact Option.some.inj (hany.symm.trans hdefault)
  · obtain ⟨hmem, hheavy⟩ := heaviest_of_leader hlead
    obtain ⟨found, hfound⟩ :=
      isSome_encoderFor sort hmem ((specific_iff hheavy.1.1).mp hheavy.1)
    obtain ⟨first', hlead', hcodec⟩ := leader_of_encoderFor hweights hfound ⟨first, hmem, hheavy.1⟩
    rw [hlead] at hlead'
    cases hlead'
    rw [selectedEncoder_of_some hfound] at hselected
    rw [Option.some.inj hselected] at hcodec
    exact Option.some.inj (hcodec.symm.trans hdefault)

variable (sort) in
/-- What is decided is an encoder. -/
theorem selectedEncoder_of_decided (hne : registry.encoders ≠ [])
    (h : Decided registry request (entriesOf mimeType request.acceptTypes)) :
    ∃ encoder, selectedEncoder mimeType sort registry request = some encoder := by
  have hentry : ∀ entry ∈ entriesOf mimeType request.acceptTypes,
      (codecFor registry.encoders entry.type).isSome = true →
      ∃ encoder, selectedEncoder mimeType sort registry request = some encoder := by
    intro entry hmem hfound
    obtain ⟨encoder, hencoder⟩ := isSome_encoderFor sort hmem hfound
    exact ⟨encoder, selectedEncoder_of_some hencoder⟩
  rcases h with ⟨-, entry, hmem, hspecific, -⟩ | ⟨-, entry, hmem, htype, -⟩ | ⟨hget, -, -⟩
  · exact hentry entry hmem ((specific_iff hspecific.1).mp hspecific)
  · exact hentry entry hmem (by rw [htype]; exact codecFor_any hne)
  · rw [selectedEncoder, hget]
    cases encoderFor sort registry (entriesOf mimeType request.acceptTypes) with
    | none => exact Option.isSome_iff_exists.mp (codecFor_any hne)
    | some encoder => exact ⟨encoder, rfl⟩

/-- The encoder that is taken is preferred, if an entry is usable. -/
theorem preferred_of_decided (hne : registry.encoders ≠ []) {encoder : Codec ν}
    (h : Decided registry request (entriesOf mimeType request.acceptTypes))
    (hselected : selectedEncoder mimeType sort registry request = some encoder)
    (hex : ∃ entry ∈ entriesOf mimeType request.acceptTypes, Usable registry entry) :
    Preferred registry (entriesOf mimeType request.acceptTypes) encoder := by
  have hfound : ∀ entry ∈ entriesOf mimeType request.acceptTypes,
      (codecFor registry.encoders entry.type).isSome = true →
      encoderFor sort registry (entriesOf mimeType request.acceptTypes) = some encoder := by
    intro entry hmem hsome
    obtain ⟨found, hfound⟩ := isSome_encoderFor sort hmem hsome
    rw [selectedEncoder_of_some hfound] at hselected
    rw [hfound, Option.some.inj hselected]
  rcases h with ⟨hweights, other, hother, hspecific, hpositive⟩ |
    ⟨hnone, entry, hmem, htype, hpositive⟩ | ⟨-, hno, -⟩
  · obtain ⟨before, entry, after, hsort, hcodec, hbefore⟩ :=
      encoderFor_eq_some (hfound other hother ((specific_iff hspecific.1).mp hspecific))
    have hheavy := heaviest_of_encoderFor hweights hsort hcodec hbefore ⟨other, hother, hspecific⟩
    have hmem := mem_of_sort hsort
    refine ⟨entry, hmem, ?_, matches_of_codecFor hcodec, fun _ => hheavy, fun hany => ?_⟩
    · exact positive_of_not_gt hpositive (hweights entry hmem hheavy.1.1)
        (hheavy.2 other hother hspecific)
    · exact absurd hany hheavy.1.1
  · obtain ⟨before, chosen, after, hsort, hcodec, -⟩ :=
      encoderFor_eq_some (hfound entry hmem (by rw [htype]; exact codecFor_any hne))
    obtain ⟨key, hkey, -⟩ := codecFor_eq_some hcodec
    exact ⟨entry, hmem, hpositive, ⟨key, hkey, .inl htype⟩, fun h => absurd htype h,
      fun _ => hnone⟩
  · obtain ⟨entry, hmem, husable⟩ := hex
    exact absurd husable (hno entry hmem)

theorem negotiated_of_negotiable (hne : registry.encoders ≠ [])
    (h : Negotiable mimeType registry request) :
    Negotiated mimeType sort registry request := by
  have hcases := negotiate_eq sort registry h.accept h.contentType
  rcases h.selects with ⟨hpost, hno⟩ | ⟨hdecoders, hbody, hdecided⟩
  · have hnone : selectedEncoder mimeType sort registry request = none := by
      rw [selectedEncoder, encoderFor_eq_none_iff.mpr hno, if_pos hpost]
    have hrefused : negotiate mimeType sort registry request = .error .unsupportedAcceptType := by
      rcases hcases with ⟨-, hrefused⟩ | ⟨encoder, hsome, -⟩
      · exact hrefused
      · rw [hnone] at hsome
        cases hsome
    refine ⟨fun thrown ht => ?_, fun _ => ⟨fun ht => ?_, fun codecs ht => ?_⟩, fun _ => ?_, ?_⟩
    · rw [hrefused] at ht
      cases ht
      exact .inl rfl
    · rw [hrefused] at ht
      cases ht
    · rw [hrefused] at ht
      cases ht
    · rw [if_pos hpost]
      exact hrefused
    · rintro ⟨entry, hmem, -, husable⟩
      have hsome := isSome_codecFor.mpr husable
      rw [hno entry hmem] at hsome
      cases hsome
  · obtain ⟨encoder, hselected⟩ := selectedEncoder_of_decided sort hne hdecided
    obtain ⟨decoder, hok⟩ : ∃ decoder,
        negotiate mimeType sort registry request = .ok ⟨encoder, decoder⟩ := by
      rcases hcases with ⟨hnone, -⟩ | ⟨found, hfound, ⟨hnil, -⟩ | ⟨-, hok⟩⟩
      · rw [hselected] at hnone
        cases hnone
      · exact absurd hnil hdecoders
      · rw [hselected] at hfound
        cases hfound
        exact hok
    refine ⟨fun thrown ht => ?_, fun hbad => ⟨fun ht => ?_, fun codecs _ hcan hhas => ?_⟩,
      fun hno => ?_, fun hex => ?_⟩
    · rw [hok] at ht
      cases ht
    · rw [hok] at ht
      cases ht
    · exact passesBlob_of_undecodable hbody hcan hhas hbad
    · rcases hdecided with ⟨-, entry, hmem, hspecific, hpositive⟩ |
        ⟨-, entry, hmem, htype, hpositive⟩ | ⟨hget, -, hfalls⟩
      · exact absurd ⟨hpositive, hspecific.2⟩ (hno entry hmem)
      · refine absurd ⟨hpositive, ?_⟩ (hno entry hmem)
        refine isSome_codecFor.mp ?_
        rw [htype]
        exact codecFor_any hne
      · rw [if_neg (by rw [hget]; exact Bool.false_ne_true)]
        exact ⟨_, hok, default_of_fallsBack hfalls hget hselected⟩
    · exact ⟨_, hok, preferred_of_decided hne hdecided hselected hex⟩

theorem wellFormed_of_negotiated (h : Negotiated mimeType sort registry request) :
    WellFormed mimeType request.acceptTypes ∧ Readable mimeType request := by
  by_contra hbad
  rcases h.total _ (negotiate_unreadable (not_and_or.mp hbad)) with ht | ht
  · cases ht
  · cases ht

/-- Without a usable entry only a GET request gets an encoder, and it must be the default one. -/
theorem decided_of_negotiated (hweights : Weighted (entriesOf mimeType request.acceptTypes))
    (h : Negotiated mimeType sort registry request) {encoder decoder : Codec ν}
    (hselected : selectedEncoder mimeType sort registry request = some encoder)
    (hok : negotiate mimeType sort registry request = .ok ⟨encoder, decoder⟩) :
    Decided registry request (entriesOf mimeType request.acceptTypes) := by
  by_cases hspecific : ∃ entry ∈ entriesOf mimeType request.acceptTypes,
      Specific registry entry ∧ entry.q.Positive
  · exact .inl ⟨hweights, hspecific⟩
  have hnone : ∀ entry ∈ entriesOf mimeType request.acceptTypes,
      Specific registry entry → ¬ entry.q.Positive :=
    fun entry hmem hs hpositive => hspecific ⟨entry, hmem, hs, hpositive⟩
  by_cases hany : ∃ entry ∈ entriesOf mimeType request.acceptTypes,
      entry.type = anyType ∧ entry.q.Positive
  · exact .inr (.inl ⟨hnone, hany⟩)
  have hno : ∀ entry ∈ entriesOf mimeType request.acceptTypes, ¬ Usable registry entry := by
    rintro entry hmem ⟨hpositive, hasks⟩
    by_cases htype : entry.type = anyType
    · exact hany ⟨entry, hmem, htype, hpositive⟩
    · exact hnone entry hmem ⟨htype, hasks⟩ hpositive
  have hrefused := h.refused hno
  rw [hok] at hrefused
  split at hrefused
  · cases hrefused
  · rename_i hget
    obtain ⟨codecs, hcodecs, hdefault⟩ := hrefused
    cases hcodecs
    rw [Bool.not_eq_true] at hget
    refine .inr (.inr ⟨hget, hno, ?_⟩)
    cases hfound : encoderFor sort registry (entriesOf mimeType request.acceptTypes) with
    | none =>
      refine .inl ⟨fun entry hmem hs => ?_, ?_⟩
      · have hsome := (specific_iff hs.1).mp hs
        rw [encoderFor_eq_none_iff.mp hfound entry hmem] at hsome
        cases hsome
      · rw [selectedEncoder, hfound, hget] at hselected
        rw [← hdefault]
        exact hselected
    | some found =>
      rw [selectedEncoder_of_some hfound] at hselected
      cases hselected
      by_cases hex : ∃ other ∈ entriesOf mimeType request.acceptTypes, Specific registry other
      · obtain ⟨first, hlead, hcodec⟩ := leader_of_encoderFor hweights hfound hex
        exact .inr ⟨hweights, first, hlead, by rw [← hdefault]; exact hcodec⟩
      · have hnospecific : ∀ entry ∈ entriesOf mimeType request.acceptTypes,
            ¬ Specific registry entry := fun entry hmem hs => hex ⟨entry, hmem, hs⟩
        refine .inl ⟨hnospecific, ?_⟩
        rw [← hdefault]
        exact encoderFor_of_noSpecific hnospecific hfound

/-- What is owed is given only where the entries decide. -/
theorem negotiable_of_negotiated (hne : registry.encoders ≠ [])
    (hweights : Weighted (entriesOf mimeType request.acceptTypes))
    (h : Negotiated mimeType sort registry request) : Negotiable mimeType registry request := by
  obtain ⟨haccept, hcontent⟩ := wellFormed_of_negotiated h
  refine ⟨haccept, hcontent, ?_⟩
  rcases negotiate_eq sort registry haccept hcontent with
    ⟨hnone, -⟩ | ⟨encoder, hselected, hcases⟩
  · left
    rw [selectedEncoder] at hnone
    split at hnone
    · cases hnone
    · rename_i hfound
      split at hnone
      · exact ⟨‹_›, encoderFor_eq_none_iff.mp hfound⟩
      · have hany := codecFor_any hne
        rw [hnone] at hany
        cases hany
  · right
    have hok : registry.decoders ≠ [] ∧
        ∃ decoder, negotiate mimeType sort registry request = .ok ⟨encoder, decoder⟩ := by
      rcases hcases with ⟨-, herror⟩ | hok
      · by_cases hex : ∃ entry ∈ entriesOf mimeType request.acceptTypes, Usable registry entry
        · obtain ⟨codecs, hok, -⟩ := h.preferred hex
          rw [herror] at hok
          cases hok
        · have hrefused := h.refused fun entry hmem husable => hex ⟨entry, hmem, husable⟩
          rw [herror] at hrefused
          split at hrefused
          · cases hrefused
          · obtain ⟨codecs, hok, -⟩ := hrefused
            cases hok
      · exact hok
    obtain ⟨hdecoders, decoder, hok⟩ := hok
    refine ⟨hdecoders, fun hcan hhas t ht => ?_, ?_⟩
    · by_cases hwf : WellFormed mimeType t
      · exact .inr hwf
      · have hpasses := (h.blob ⟨t, ht, .inl hwf⟩).2 _ hok hcan hhas
        exact bodyReadable_of_passesBlob hpasses t ht
    · exact decided_of_negotiated hweights h hselected hok

/-! ## Every registry -/

theorem set_ne_nil (map : CodecMap ν) (key : Pattern) (codec : Codec ν) :
    map.set key codec ≠ [] := by
  rw [CodecMap.set]
  split
  · rename_i hany
    intro hnil
    rw [List.map_eq_nil_iff.mp hnil] at hany
    cases hany
  · exact List.append_ne_nil_of_right_ne_nil map (List.cons_ne_nil _ _)

theorem encoders_new_ne_nil (first : Codec ν) (others : List (Codec ν)) :
    (ProtocolCodecRegistry.new first others).encoders ≠ [] := by
  have hfold : ∀ (codecs : List (Codec ν)) (start : ProtocolCodecRegistry ν), start.encoders ≠ [] →
      (codecs.foldl ProtocolCodecRegistry.add start).encoders ≠ [] := by
    intro codecs
    induction codecs with
    | nil => exact fun start h => h
    | cons codec codecs ih =>
      exact fun start _ => ih _ (set_ne_nil start.encoders (.text codec.contentType) codec)
  exact hfold others _ (set_ne_nil [] (.text first.contentType) first)

variable (mimeType sort request)

/-- A negotiable request gets what it is owed. The other way round, the language leaves the order of
entries open of which a weight is no number. -/
theorem negotiated_of_registry (first : Codec ν) (others : List (Codec ν)) :
    (Negotiable mimeType (.new first others) request →
      Negotiated mimeType sort (.new first others) request) ∧
    (Weighted (entriesOf mimeType request.acceptTypes) →
      Negotiated mimeType sort (.new first others) request →
      Negotiable mimeType (.new first others) request) :=
  ⟨negotiated_of_negotiable (encoders_new_ne_nil first others),
    negotiable_of_negotiated (encoders_new_ne_nil first others)⟩

/-- `MIMEType` does not take a type without a subtype. -/
def jsonOnly : MimeParser where
  parse t := if t = units "application/json" then some ⟨t, none⟩ else none
  parse_nil := by decide

def jsonCodec : Codec Unit where
  contentType := units "application/json"
  accept := [.text (units "application/json")]
  encode _ := .ok []
  decode _ := .ok ()

/-- A Content-Type that `MIMEType` does not take. -/
theorem not_negotiated_malformed :
    ¬ ∀ (mimeType : MimeParser) (sort : ArraySort ContentTypeEntry) (first : Codec Unit)
      (others : List (Codec Unit)) (request : NegotiationRequest),
      Negotiated mimeType sort (.new first others) request := by
  intro h
  have hnegotiated := h jsonOnly .byInsertion jsonCodec [] {
    canHaveBody := true
    hasBody := true
    isBlob := false
    contentType := some (units "json")
    accept := none }
  rcases (wellFormed_of_negotiated hnegotiated).2 with hblob | hwf
  · cases hblob
  · rcases hwf _ rfl with hany | hall
    · exact absurd hany (by decide)
    · exact absurd (hall (units "json") (by decide)) (by decide)

end Neemata.Http
