import Neemata.Ws.BlobWire

/-!
# The discipline of the blob frames

The credit of an upload is what was granted, less what was taken back and what was spent. An upload
that is registered has sent pulls only, and a download whose stream has not finished has sent chunks
only: so the first abort or end of a stream is its last word.
-/

namespace Neemata.Ws

open Protocol (MAX_STREAM_CREDITS StreamEvent StreamRun SinkCall ProtocolServerStream)

/-! ## Quiet lives -/

/-- The stream may still send what it likes. -/
def Unclosed (life : List WireEvent) : Prop := ∀ event ∈ life, event.closes = false

theorem unclosed_nil : Unclosed [] := fun _ h => nomatch h

theorem quiet_nil : Quiet [] := List.Pairwise.nil

variable {life : List WireEvent} {event : WireEvent}

theorem Unclosed.append (H : Unclosed life) (hevent : event.closes = false) :
    Unclosed (life ++ [event]) := by
  intro e hmem
  rcases List.mem_append.mp hmem with hmem | hmem
  · exact H e hmem
  · rw [List.mem_singleton.mp hmem, hevent]

/-- An open life may go on with anything. -/
theorem Unclosed.quiet_append (H : Unclosed life) (event : WireEvent) :
    Quiet (life ++ [event]) := by
  refine List.pairwise_append.mpr ⟨?_, List.pairwise_singleton _ _, ?_⟩
  · refine List.pairwise_of_forall_mem_list fun earlier hmem later _ hcloses => ?_
    rw [H earlier hmem] at hcloses
    cases hcloses
  · intro earlier hmem later _ hcloses
    rw [H earlier hmem] at hcloses
    cases hcloses

theorem Quiet.append (H : Quiet life) (hevent : event.speaks = false) :
    Quiet (life ++ [event]) := by
  refine List.pairwise_append.mpr ⟨H, List.pairwise_singleton _ _, ?_⟩
  intro earlier _ later hlater _
  rw [List.mem_singleton.mp hlater, hevent]

/-! ## What a pump tells its sink at a time -/

/-- The sink was called once at most, by a stream that had not finished, and a call that is not a
chunk finishes the stream. -/
def Tells (s s' : ProtocolServerStream) : Prop :=
  (s'.sink = s.sink ∧ (s.finished = true → s'.finished = true)) ∨
    (s.finished = false ∧ ∃ call, s'.sink = s.sink ++ [call] ∧
      ((∃ bytes, call = .chunk bytes) ∨ s'.finished = true))

section Tells

variable (s : ProtocolServerStream)

theorem tells_self : Tells s s := .inl ⟨rfl, id⟩

theorem tells_fail : Tells s s.fail := by
  unfold ProtocolServerStream.fail
  split
  · exact tells_self s
  · next h => exact .inr ⟨Bool.eq_false_iff.mpr h, _, rfl, .inr rfl⟩

theorem tells_finish : Tells s s.finish := by
  unfold ProtocolServerStream.finish
  split
  · exact tells_self s
  · next h => exact .inr ⟨Bool.eq_false_iff.mpr h, _, rfl, .inr rfl⟩

theorem tells_pump : Tells s s.pump := by
  unfold ProtocolServerStream.pump
  split
  · exact tells_self s
  · exact .inl ⟨rfl, id⟩

theorem tells_destroy (error : Bool) : Tells s (s.destroy error) := by
  cases error with
  | true => exact tells_fail s
  | false => exact .inl ⟨rfl, fun _ => rfl⟩

theorem tells_onError : Tells s s.onError := by
  unfold ProtocolServerStream.onError
  split
  · exact .inl ⟨rfl, id⟩
  · exact tells_fail s

theorem tells_grant (size : Int) : Tells s (s.grant size).2 := by
  cases hfinished : s.finished with
  | true =>
    rw [ProtocolServerStream.grant_of_finished hfinished]
    exact tells_self s
  | false =>
    rcases ProtocolServerStream.grant_cases hfinished size with
      ⟨_, h⟩ | ⟨_, h⟩ | ⟨_, h⟩ | ⟨_, _, h⟩
    · rw [h]
      exact tells_self s
    · rw [h]
      exact tells_self s
    · rw [h]
      exact tells_fail { s with granted := true }
    · rw [h]
      exact tells_pump { s with granted := true, credits := s.credits + size }

theorem tells_emit (hlive : s.finished = false) (chunk : List UInt8) :
    Tells s (s.emit chunk) := by
  unfold ProtocolServerStream.emit
  split
  · exact .inl ⟨rfl, id⟩
  · split
    · exact .inr ⟨hlive, _, rfl, .inl ⟨_, rfl⟩⟩
    · exact .inr ⟨hlive, _, rfl, .inl ⟨_, rfl⟩⟩

theorem tells_iterate : Tells s s.iterate := by
  unfold ProtocolServerStream.iterate
  split
  · exact .inl ⟨rfl, id⟩
  · next h =>
    have hlive : s.finished = false := Bool.eq_false_iff.mpr h
    split
    · exact tells_emit s hlive _
    · split
      · split
        · exact tells_finish s
        · exact .inl ⟨rfl, id⟩
      · split
        · split
          · exact tells_finish s
          · exact .inl ⟨rfl, id⟩
        · next rest _ =>
          exact tells_emit { s with source := { s.source with buffer := rest } } hlive _

theorem tells_step (r : StreamRun) (event : StreamEvent) :
    Tells r.stream (r.step event).stream := by
  cases event with
  | push chunk =>
    rw [StreamRun.step]
    split
    · exact .inl ⟨rfl, id⟩
    · exact tells_self _
  | close => exact .inl ⟨rfl, id⟩
  | readable => exact tells_pump _
  | «end» =>
    rw [StreamRun.step]
    split
    · exact tells_pump { r.stream with sourceEnded := true }
    · exact tells_self _
  | error => exact tells_onError _
  | grant size => exact tells_grant _ size
  | destroy error => exact tells_destroy _ error
  | iterate =>
    rw [StreamRun.step]
    split
    · exact tells_iterate _
    · exact tells_self _

end Tells

/-! ## The accounts of the uploads -/

/-- What is outstanding, spent and taken back was granted. -/
structure Covers (upload : Upload) (data : ClientData) : Prop where
  granted : upload.accepted + upload.revoked + data.granted ≤ upload.granted
  capped : data.granted ≤ MAX_STREAM_CREDITS

/-- The uploads of the states of a table. -/
structure Accounts (t : StreamTable ClientData) (uploads : List Upload) : Prop where
  registered : t.Registered
  length : uploads.length = t.heap.length
  covers : ∀ (handle : Nat) state upload, t.heap[handle]? = some state →
    uploads[handle]? = some upload → Covers upload state.data
  opened : ∀ key handle upload, t.streams.get? key = some handle →
    uploads[handle]? = some upload → Unclosed upload.life
  quiet : ∀ upload ∈ uploads, Quiet upload.life

namespace Accounts

variable {t t' : StreamTable ClientData} {uploads : List Upload} {c : String} {id handle : Nat}
  {state : StreamState ClientData}

/-- A state and its account change together. -/
theorem modify (H : Accounts t uploads) (handle : Nat)
    {f : StreamState ClientData → StreamState ClientData} {g : Upload → Upload}
    (hkey : ∀ s, (f s).key = s.key) (hlife : ∀ u, (g u).life = u.life)
    (hcovers : ∀ s u, t.heap[handle]? = some s → Covers u s.data → Covers (g u) (f s).data) :
    Accounts (t.modify handle f) (uploads.modify handle g) where
  registered := H.registered.modify handle hkey
  length := by
    rw [List.length_modify, H.length]
    exact (List.length_modify f t.heap handle).symm
  covers other s u hs hu := by
    obtain ⟨old, hold, rfl⟩ := getElem?_modify_eq_some hs
    obtain ⟨account, haccount, rfl⟩ := getElem?_modify_eq_some hu
    have h := H.covers other old account hold haccount
    by_cases heq : handle = other
    · subst heq
      rw [if_pos rfl, if_pos rfl]
      exact hcovers old account hold h
    · rw [if_neg heq, if_neg heq]
      exact h
  opened key other u hget hu := by
    obtain ⟨account, haccount, rfl⟩ := getElem?_modify_eq_some hu
    have h := H.opened key other account hget haccount
    split
    · rw [hlife]
      exact h
    · exact h
  quiet u hmem := by
    obtain hmem | ⟨old, hold, rfl⟩ := mem_modify hmem
    · exact H.quiet u hmem
    · rw [hlife]
      exact H.quiet old (List.mem_of_getElem? hold)

/-- A state changes, and not its credit. -/
theorem modify_table (H : Accounts t uploads)
    {f : StreamState ClientData → StreamState ClientData} (handle : Nat)
    (hkey : ∀ s, (f s).key = s.key) (hgranted : ∀ s, (f s).data.granted = s.data.granted) :
    Accounts (t.modify handle f) uploads := by
  have h := H.modify handle (g := id) hkey (fun _ => rfl) fun s u _ hcovers => by
    refine ⟨?_, ?_⟩
    · rw [hgranted]
      exact hcovers.granted
    · rw [hgranted]
      exact hcovers.capped
  rwa [List.modify_id] at h

/-- A pull is sent. -/
theorem pull (H : Accounts t uploads) (handle size : Nat) :
    Accounts t (uploads.modify handle fun upload =>
      { upload with life := upload.life ++ [.sent (.clientBlobPull size)] }) where
  registered := H.registered
  length := by rw [List.length_modify, H.length]
  covers other s u hs hu := by
    obtain ⟨account, haccount, rfl⟩ := getElem?_modify_eq_some hu
    have h := H.covers other s account hs haccount
    split
    · exact ⟨h.granted, h.capped⟩
    · exact h
  opened key other u hget hu := by
    obtain ⟨account, haccount, rfl⟩ := getElem?_modify_eq_some hu
    have h := H.opened key other account hget haccount
    split
    · exact h.append rfl
    · exact h
  quiet u hmem := by
    obtain hmem | ⟨old, hold, rfl⟩ := mem_modify hmem
    · exact H.quiet u hmem
    · exact (H.quiet old (List.mem_of_getElem? hold)).append rfl

theorem create (H : Accounts t uploads) (c : String) (callId id : Nat) :
    Accounts (t.create c callId id ⟨0, false⟩) (uploads ++ [⟨0, 0, 0, []⟩]) := by
  refine modify_table ?_ _ (fun _ => rfl) fun _ => rfl
  have hmem (handle : Nat) {upload : Upload}
      (hu : (uploads ++ [⟨0, 0, 0, []⟩])[handle]? = some upload) :
      uploads[handle]? = some upload ∨ handle = t.heap.length ∧ upload = ⟨0, 0, 0, []⟩ := by
    rw [List.getElem?_append] at hu
    split at hu
    · exact .inl hu
    · next hlt =>
      rw [List.getElem?_singleton] at hu
      split at hu
      · next hindex =>
        cases hu
        refine .inr ⟨?_, rfl⟩
        rw [H.length] at hlt hindex
        omega
      · cases hu
  refine ⟨H.registered.register ⟨c, callId, id, false, ⟨0, false⟩⟩ _ _, ?_, ?_, ?_, ?_⟩
  · rw [List.length_append, List.length_append, H.length]
    rfl
  · intro handle s u hs hu
    obtain hu | ⟨rfl, rfl⟩ := hmem handle hu
    · have hlt : handle < t.heap.length := by
        rw [← H.length]
        exact (List.getElem?_eq_some_iff.mp hu).1
      rw [List.getElem?_append_left hlt] at hs
      exact H.covers handle s u hs hu
    · rw [List.getElem?_concat_length] at hs
      cases hs
      exact ⟨Nat.le_refl _, Nat.zero_le _⟩
  · intro key handle u hget hu
    obtain hu | ⟨rfl, rfl⟩ := hmem handle hu
    · rw [OrdMap.get?_set] at hget
      split at hget
      · cases hget
        have hlt := (List.getElem?_eq_some_iff.mp hu).1
        rw [H.length] at hlt
        exact absurd hlt (Nat.lt_irrefl _)
      · exact H.opened key handle u hget hu
    · exact unclosed_nil
  · intro u hmem'
    rcases List.mem_append.mp hmem' with hmem' | hmem'
    · exact H.quiet u hmem'
    · rw [List.mem_singleton.mp hmem']
      exact quiet_nil

/-- A state is no longer registered. -/
theorem remove (H : Accounts t uploads) (c : String) (id : Nat) :
    Accounts (t.remove c id) uploads := by
  have hregistered := H.registered.remove c id
  unfold StreamTable.remove at hregistered ⊢
  cases hlookup : t.lookup c id with
  | none => exact H
  | some found =>
    rw [hlookup] at hregistered
    have H' := H.modify_table (f := .setTimer false) found.1 (fun _ => rfl) fun _ => rfl
    refine ⟨hregistered, H'.length, H'.covers, ?_, H.quiet⟩
    intro key handle u hget hu
    rw [OrdMap.get?_erase] at hget
    split at hget
    · cases hget
    · exact H.opened key handle u hget hu

/-- The last word of a stream that is no longer registered. -/
theorem close (H : Accounts t uploads) (hget : t.streams.get? (getKey c id) = some handle)
    (event : WireEvent) (hremoved : Accounts t' uploads)
    (hstreams : ∀ key other, t'.streams.get? key = some other →
      key ≠ getKey c id ∧ t.streams.get? key = some other) :
    Accounts t' (uploads.modify handle fun upload =>
      { upload with life := upload.life ++ [event] }) where
  registered := hremoved.registered
  length := by rw [List.length_modify, hremoved.length]
  covers other s u hs hu := by
    obtain ⟨account, haccount, rfl⟩ := getElem?_modify_eq_some hu
    have h := hremoved.covers other s account hs haccount
    split
    · exact ⟨h.granted, h.capped⟩
    · exact h
  opened key other u hget' hu := by
    obtain ⟨account, haccount, rfl⟩ := getElem?_modify_eq_some hu
    obtain ⟨hne, hold⟩ := hstreams key other hget'
    split
    · next heq =>
      subst heq
      exact absurd (H.registered.key_inj hold hget) hne
    · exact hremoved.opened key other account hget' haccount
  quiet u hmem := by
    obtain hmem | ⟨old, hold, rfl⟩ := mem_modify hmem
    · exact H.quiet u hmem
    · exact (H.opened _ handle old hget hold).quiet_append event

end Accounts

namespace BlobSession

variable {s s' : BlobSession}

def Accounted (s : BlobSession) : Prop := Accounts s.manager.client s.uploads

/-! ## What the operations on uploads do -/

theorem logUpload_nil (handle : Nat) : s.logUpload handle [] = s := by
  have hid : (fun upload : Upload => { upload with life := upload.life ++ [] }) = id :=
    funext fun upload => by rw [List.append_nil]; rfl
  unfold logUpload
  rw [hid, List.modify_id]

/-- The states of the uploads after an abort. -/
theorem abortClientStream_table {m : BlobStreamsManager} {c : String} {id handle : Nat}
    {state : StreamState ClientData} (hlookup : m.client.lookup c id = some (handle, state))
    (error : String) (notifyPeer : Bool) :
    ∃ f, (∀ s, (f s).key = s.key) ∧ (∀ s : StreamState ClientData,
      (f s).data.granted = s.data.granted) ∧
      (m.abortClientStream c id error notifyPeer).client = (m.client.update c id f).remove c id := by
  unfold BlobStreamsManager.abortClientStream
  rw [hlookup]
  refine ⟨_, ?_, ?_, rfl⟩
  · exact fun _ => rfl
  · exact fun _ => rfl

theorem Accounted.abort (H : s.Accounted) {id handle : Nat} {state : StreamState ClientData}
    (hlookup : s.manager.client.lookup s.connectionId id = some (handle, state))
    (error : String) (notifyPeer : Bool) :
    let t := (s.manager.abortClientStream s.connectionId id error notifyPeer).client
    Accounts t s.uploads ∧ ∀ event : WireEvent, Accounts t (s.uploads.modify handle fun upload =>
      { upload with life := upload.life ++ [event] }) := by
  obtain ⟨f, hkey, hgranted, heq⟩ := abortClientStream_table hlookup error notifyPeer
  have hupdated : Accounts (s.manager.client.update s.connectionId id f) s.uploads := by
    unfold StreamTable.update
    rw [hlookup]
    exact Accounts.modify_table H handle hkey hgranted
  have hremoved := hupdated.remove s.connectionId id
  have hlookup' := StreamTable.lookup_update hlookup f
  rw [heq]
  refine ⟨hremoved, fun event => ?_⟩
  refine Accounts.close H (StreamTable.lookup_eq_some_iff.mp hlookup).1 event hremoved ?_
  intro key other hget
  rw [StreamTable.remove, hlookup'] at hget
  dsimp only at hget
  rw [OrdMap.get?_erase, StreamTable.update_streams] at hget
  split at hget
  · cases hget
  · next hne => exact ⟨hne, hget⟩

theorem Accounted.abortClientStream (H : s.Accounted) (id : Nat) (error : String)
    (notifyPeer : Bool) : (s.abortClientStream id error notifyPeer).Accounted := by
  unfold BlobSession.abortClientStream
  split
  · exact H
  · next handle state hlookup =>
    obtain ⟨hremoved, hclosed⟩ := H.abort hlookup error notifyPeer
    split
    · exact hclosed _
    · rw [logUpload_nil]
      exact hremoved

theorem Accounted.abortClientStreams (H : s.Accounted) (ids : List Nat) (reason : String)
    (notifyPeer : Bool) : (s.abortClientStreams ids reason notifyPeer).Accounted := by
  unfold BlobSession.abortClientStreams
  induction ids generalizing s with
  | nil => exact H
  | cons id ids ih => exact ih (H.abortClientStream id reason notifyPeer)

/-- The peer's abort is the last word of its stream: nothing is sent in answer. -/
theorem Accounted.clientBlobAbort (H : s.Accounted) (id : Nat) (reason : String) :
    (s.clientBlobAbort id reason).Accounted := by
  unfold BlobSession.clientBlobAbort
  split
  · exact H
  · next handle state hlookup =>
    have hanswer : (s.logUpload handle [.peerAborted]).abortClientStream id reason false =
        { s.logUpload handle [.peerAborted] with
          manager := s.manager.abortClientStream s.connectionId id reason false } := by
      have hlookup' : (s.logUpload handle [.peerAborted]).manager.client.lookup
          (s.logUpload handle [.peerAborted]).connectionId id = some (handle, state) := hlookup
      rw [BlobSession.abortClientStream, hlookup']
      exact congrArg (fun s : BlobSession =>
          { s with manager := s.manager.abortClientStream s.connectionId id reason false })
        (logUpload_nil (s := s.logUpload handle [.peerAborted]) handle)
    rw [hanswer]
    exact (H.abort hlookup reason false).2 _

/-- A registered state and its account change together. -/
theorem Accounted.update (H : s.Accounted) {id handle : Nat} {state : StreamState ClientData}
    (hlookup : s.manager.client.lookup s.connectionId id = some (handle, state))
    {f : StreamState ClientData → StreamState ClientData} {g : Upload → Upload}
    (hkey : ∀ s, (f s).key = s.key) (hlife : ∀ u, (g u).life = u.life)
    (hcovers : ∀ u, Covers u state.data → Covers (g u) (f state).data) :
    Accounts (s.manager.client.update s.connectionId id f) (s.uploads.modify handle g) := by
  unfold StreamTable.update
  rw [hlookup]
  refine Accounts.modify H handle hkey hlife fun state' u hstate' h => ?_
  rw [(StreamTable.lookup_eq_some_iff.mp hlookup).2] at hstate'
  cases hstate'
  exact hcovers u h

theorem Accounted.grantClientStream (H : s.Accounted) (id size : Nat) :
    (s.grantClientStream id size).Accounted := by
  unfold BlobSession.grantClientStream
  split
  · exact H
  · next handle state hlookup =>
    refine H.update hlookup ?_ ?_ ?_
    · exact fun _ => rfl
    · exact fun _ => rfl
    · intro u h
      have hgranted := h.granted
      refine ⟨?_, Nat.min_le_right _ _⟩
      dsimp only
      omega

theorem Accounted.revokeClientStreamGrant (H : s.Accounted) (id size : Nat) :
    (s.revokeClientStreamGrant id size).Accounted := by
  unfold BlobSession.revokeClientStreamGrant
  split
  · exact H
  · next handle state hlookup =>
    refine H.update hlookup ?_ ?_ ?_
    · exact fun _ => rfl
    · exact fun _ => rfl
    · intro u h
      have hgranted := h.granted
      have hcapped := h.capped
      refine ⟨?_, ?_⟩
      · dsimp only
        omega
      · exact Nat.le_trans (Nat.sub_le _ _) hcapped

theorem Accounted.clientBlobPush (H : s.Accounted) (id byteLength : Nat) :
    (s.clientBlobPush id byteLength).Accounted := by
  unfold BlobSession.clientBlobPush BlobStreamsManager.pushToClientStream
  cases hlookup : s.manager.client.lookup s.connectionId id with
  | none => exact H
  | some found =>
    obtain ⟨handle, state⟩ := found
    dsimp only
    by_cases hrejected : byteLength = 0 ∨ byteLength > state.data.granted
    · rw [if_pos hrejected]
      exact Accounted.abortClientStream H id _ _
    · rw [if_neg hrejected]
      refine H.update hlookup ?_ ?_ ?_
      · exact fun _ => rfl
      · exact fun _ => rfl
      · intro u h
        have hgranted := h.granted
        have hcapped := h.capped
        refine ⟨?_, ?_⟩
        · dsimp only
          omega
        · exact Nat.le_trans (Nat.sub_le _ _) hcapped

theorem Accounted.read (H : s.Accounted) (handle size : Nat) : (s.read handle size).Accounted := by
  unfold BlobSession.read
  split
  · exact H
  · exact Accounts.pull (H.grantClientStream _ _) handle _

theorem Accounted.pullDropped (H : s.Accounted) (handle pullSize : Nat) :
    (s.pullDropped handle pullSize).Accounted := by
  unfold BlobSession.pullDropped
  split
  · exact H
  · exact (H.revokeClientStreamGrant _ _).abortClientStream _ _ _

theorem Accounted.clientIdle (H : s.Accounted) (handle : Nat) :
    (s.clientIdle handle).Accounted := by
  unfold BlobSession.clientIdle
  split
  · exact H
  · split
    · refine Accounted.abortClientStream ?_ _ _ _
      exact Accounts.modify_table H handle (fun _ => rfl) fun _ => rfl
    · exact H

/-! ## What the operations on downloads do -/

/-- A download whose stream has not finished has sent chunks only. -/
structure Sound (download : Download) : Prop where
  unclosed : download.stream.stream.finished = false → Unclosed download.life
  quiet : Quiet download.life

structure Reported (s : BlobSession) : Prop where
  registered : s.manager.server.Registered
  sound : ∀ download ∈ s.downloads, Sound download

theorem logDownload_nil (handle : Nat) : s.logDownload handle [] = s := by
  have hid : (fun download : Download => { download with life := download.life ++ [] }) = id :=
    funext fun download => by rw [List.append_nil]; rfl
  unfold logDownload
  rw [hid, List.modify_id]

/-- The sink is called once at most. -/
theorem drive_cases (s : BlobSession) (handle : Nat) (message : String) (event : StreamEvent) :
    s.drive handle message event = s ∨
    ∃ state download, s.manager.server.heap[handle]? = some state ∧
      s.downloads[handle]? = some download ∧
      let run := download.stream.step event
      let s₁ := { s with
        downloads := s.downloads.modify handle fun download => { download with stream := run } }
      ((download.stream.stream.finished = true → run.stream.finished = true) ∧
        s.drive handle message event = s₁ ∨
      download.stream.stream.finished = false ∧ ∃ call,
        run.stream.sink = download.stream.stream.sink ++ [call] ∧
        ((∃ bytes, call = .chunk bytes) ∨ run.stream.finished = true) ∧
        s.drive handle message event = s₁.report handle state.id message call) := by
  unfold drive
  split
  · next state download hstate hdownload =>
    refine .inr ⟨state, download, hstate, hdownload, ?_⟩
    rcases tells_step download.stream event with ⟨hsink, hfinished⟩ | ⟨hlive, call, hsink, hcall⟩
    · refine .inl ⟨hfinished, ?_⟩
      dsimp only
      rw [hsink, List.drop_length]
      rfl
    · refine .inr ⟨hlive, call, hsink, hcall, ?_⟩
      dsimp only
      rw [hsink, List.drop_left]
      rfl
  · exact .inl rfl

theorem registered_report (H : s.manager.server.Registered) (handle id : Nat) (message : String)
    (call : SinkCall) : (s.report handle id message call).manager.server.Registered := by
  cases call with
  | chunk bytes => exact H.update _ _ fun _ => rfl
  | «end» => exact H.remove _ _
  | error => exact H.remove _ _

theorem registered_drive (H : s.manager.server.Registered) (handle : Nat) (message : String)
    (event : StreamEvent) : (s.drive handle message event).manager.server.Registered := by
  rcases drive_cases s handle message event with
    h | ⟨_, _, _, _, ⟨_, h⟩ | ⟨_, call, _, _, h⟩⟩
  · rw [h]
    exact H
  · rw [h]
    exact H
  · rw [h]
    apply registered_report
    exact H

theorem Reported.report (H : s.Reported) (s' : BlobSession)
    (hregistered : s'.manager.server.Registered) {handle : Nat} {download : Download}
    {run : StreamRun} (hdownload : s.downloads[handle]? = some download)
    (hlive : download.stream.stream.finished = false)
    (hdownloads : s'.downloads = s.downloads.modify handle fun download =>
      { download with stream := run })
    {id : Nat} {message : String} {call : SinkCall}
    (hcall : (∃ bytes, call = .chunk bytes) ∨ run.stream.finished = true) :
    (s'.report handle id message call).Reported := by
  have hlife := (H.sound download (List.mem_of_getElem? hdownload)).unclosed hlive
  have hquiet := (H.sound download (List.mem_of_getElem? hdownload)).quiet
  have hregistered' := registered_report hregistered handle id message call
  -- what is logged with the call
  have hlogged {s₁ : BlobSession} (h₁ : s₁.downloads = s'.downloads) (event : WireEvent)
      (hevent : event.closes = true → run.stream.finished = true) :
      ∀ d ∈ (s₁.logDownload handle [event]).downloads, Sound d := by
    intro d hd
    unfold logDownload at hd
    rw [h₁, hdownloads, List.modify_modify_eq] at hd
    obtain hd | ⟨old, hold, rfl⟩ := mem_modify hd
    · exact H.sound d hd
    · rw [hdownload] at hold
      cases hold
      refine ⟨fun hrun => hlife.append ?_, hlife.quiet_append event⟩
      rw [Bool.eq_false_iff]
      intro hcloses
      have hfinished := hevent hcloses
      rw [show run.stream.finished = false from hrun] at hfinished
      cases hfinished
  cases call with
  | chunk bytes =>
    refine ⟨hregistered', hlogged rfl _ fun h => ?_⟩
    cases h
  | «end» =>
    have hfinished : run.stream.finished = true := hcall.resolve_left fun ⟨_, h⟩ => nomatch h
    exact ⟨hregistered', hlogged rfl _ fun _ => hfinished⟩
  | error =>
    have hfinished : run.stream.finished = true := hcall.resolve_left fun ⟨_, h⟩ => nomatch h
    refine ⟨hregistered', ?_⟩
    rw [BlobSession.report]
    cases s'.suppressed id with
    | false => exact hlogged rfl _ fun _ => hfinished
    | true =>
      rw [if_pos rfl, logDownload_nil]
      intro d hd
      rw [hdownloads] at hd
      obtain hd | ⟨old, hold, rfl⟩ := mem_modify hd
      · exact H.sound d hd
      · rw [hdownload] at hold
        cases hold
        refine ⟨fun hrun => ?_, hquiet⟩
        rw [show run.stream.finished = false from hrun] at hfinished
        cases hfinished

theorem Reported.drive (H : s.Reported) (handle : Nat) (message : String) (event : StreamEvent) :
    (s.drive handle message event).Reported := by
  rcases drive_cases s handle message event with
    h | ⟨state, download, _, hdownload, ⟨hfinished, h⟩ | ⟨hlive, call, _, hcall, h⟩⟩
  · rw [h]
    exact H
  · rw [h]
    refine ⟨H.registered, fun d hd => ?_⟩
    obtain hd | ⟨old, hold, rfl⟩ := mem_modify hd
    · exact H.sound d hd
    · rw [hdownload] at hold
      cases hold
      have hsound := H.sound download (List.mem_of_getElem? hdownload)
      refine ⟨fun hrun => hsound.unclosed ?_, hsound.quiet⟩
      rw [Bool.eq_false_iff]
      intro hold
      rw [show (download.stream.step event).stream.finished = false from hrun] at hfinished
      cases hfinished hold
  · rw [h]
    refine H.report _ ?_ hdownload hlive rfl hcall
    exact H.registered

/-- The server's table changes, and no download. -/
theorem Reported.table (H : s.Reported) {m : BlobStreamsManager}
    (hregistered : m.server.Registered) : Reported { s with manager := m } :=
  ⟨hregistered, H.sound⟩

theorem Reported.suppress (H : s.Reported) (id : Nat) (notifyPeer : Bool) :
    (s.suppress id notifyPeer).Reported := by
  unfold BlobSession.suppress
  split
  · exact H
  · exact H.table (H.registered.update _ _ fun _ => rfl)

theorem Reported.abortServerStream (H : s.Reported) (id : Nat) (error : String)
    (notifyPeer : Bool) : (s.abortServerStream id error notifyPeer).Reported := by
  unfold BlobSession.abortServerStream
  split
  · exact H
  · next handle _ _ =>
    have Hdriven := (H.suppress id notifyPeer).drive handle error (.destroy true)
    exact Hdriven.table (Hdriven.registered.remove _ _)

theorem Reported.abortServerStreams (H : s.Reported) (ids : List Nat) (reason : String)
    (notifyPeer : Bool) :
    (ids.foldl (fun s id => s.abortServerStream id reason notifyPeer) s).Reported := by
  induction ids generalizing s with
  | nil => exact H
  | cons id ids ih => exact ih (H.abortServerStream id reason notifyPeer)

theorem finished_fail (stream : ProtocolServerStream) : stream.fail.finished = true := by
  unfold ProtocolServerStream.fail
  split
  · next h => exact h
  · rfl

theorem suppressed_of_lookup {handle id : Nat} {state : StreamState ServerData}
    (hlookup : s.manager.server.lookup s.connectionId id = some (handle, state)) :
    s.suppressed id = state.data.suppressNotify := by
  unfold suppressed
  rw [hlookup]

/-- A suppressed stream is destroyed without a word. -/
theorem drive_suppressed {handle id : Nat} {state : StreamState ServerData}
    (hstate : s.manager.server.heap[handle]? = some state) (hid : state.id = id)
    (hsuppressed : s.suppressed id = true) (message : String) :
    (s.drive handle message (.destroy true)).downloads = s.downloads.modify handle fun download =>
      { download with stream := download.stream.step (.destroy true) } := by
  cases hdownload : s.downloads[handle]? with
  | none =>
    unfold BlobSession.drive
    rw [hstate, hdownload, List.modify_eq_self (List.getElem?_eq_none_iff.mp hdownload)]
  | some download =>
    have hsame : (s.downloads.modify handle fun d =>
          { d with stream := download.stream.step (.destroy true) }) =
        s.downloads.modify handle fun d => { d with stream := d.stream.step (.destroy true) } := by
      refine List.ext_getElem? fun i => ?_
      rw [List.getElem?_modify, List.getElem?_modify]
      by_cases heq : handle = i
      · subst heq
        rw [hdownload]
        exact congrArg some ((if_pos rfl).trans (if_pos rfl).symm)
      · simp only [if_neg heq]
    rw [← hsame]
    unfold BlobSession.drive
    rw [hstate, hdownload]
    dsimp only
    rw [hid]
    cases hfinished : download.stream.stream.finished with
    | true =>
      have hsink : (download.stream.step (.destroy true)).stream.sink =
          download.stream.stream.sink :=
        congrArg ProtocolServerStream.sink (ProtocolServerStream.fail_of_finished hfinished)
      rw [hsink, List.drop_length]
      rfl
    | false =>
      have hsink : (download.stream.step (.destroy true)).stream.sink =
          download.stream.stream.sink ++ [.error] := by
        change download.stream.stream.fail.sink = _
        rw [ProtocolServerStream.fail, if_neg (by rw [hfinished]; exact Bool.false_ne_true)]
      rw [hsink, List.drop_left, List.foldl_cons, List.foldl_nil, BlobSession.report]
      have hsuppressed' (downloads : List Download) :
          { s with downloads }.suppressed id = true := hsuppressed
      rw [hsuppressed', if_pos rfl, logDownload_nil]

/-- The peer's abort is the last word of its stream: nothing is sent in answer. -/
theorem Reported.serverBlobAbort (H : s.Reported) (id : Nat) (reason : String) :
    (s.serverBlobAbort id reason).Reported := by
  unfold BlobSession.serverBlobAbort
  split
  · exact H
  · next handle state hlookup =>
    have hlookup' : (s.logDownload handle [.peerAborted]).manager.server.lookup
        (s.logDownload handle [.peerAborted]).connectionId id = some (handle, state) := hlookup
    have hsuppressed : ((s.logDownload handle [.peerAborted]).suppress id
        false).manager.server.lookup s.connectionId id =
          some (handle, { state with data := ⟨true⟩ }) :=
      StreamTable.lookup_update hlookup _
    have hregistered : ((s.logDownload handle [.peerAborted]).suppress id
        false).manager.server.Registered := H.registered.update _ _ fun _ => rfl
    have hid : state.id = id := (H.registered.of_lookup hlookup).2
    unfold BlobSession.abortServerStream
    rw [hlookup']
    refine ⟨(registered_drive hregistered _ _ _).remove _ _, ?_⟩
    dsimp only
    rw [drive_suppressed (StreamTable.lookup_eq_some_iff.mp hsuppressed).2 hid]
    · intro d hd
      change d ∈ (s.downloads.modify handle _).modify handle _ at hd
      rw [List.modify_modify_eq] at hd
      obtain hd | ⟨old, hold, rfl⟩ := mem_modify hd
      · exact H.sound d hd
      · refine ⟨fun hlive => ?_, (H.sound old (List.mem_of_getElem? hold)).quiet.append rfl⟩
        have hfinished : old.stream.stream.fail.finished = true := finished_fail _
        cases hfinished.symm.trans hlive
    · exact suppressed_of_lookup hsuppressed

theorem Reported.pullServerStream (H : s.Reported) (id size : Nat) (message : String) :
    (s.pullServerStream id size message).Reported := by
  unfold BlobSession.pullServerStream
  split
  · exact H
  · next handle _ _ =>
    have Htouched : Reported { s with manager := { s.manager with
        server := s.manager.server.update s.connectionId id (.setTimer true) } } :=
      H.table (H.registered.update _ _ fun _ => rfl)
    dsimp only
    split
    · exact Htouched.drive handle message _
    · exact (Htouched.drive handle message _).abortServerStream id _ _

theorem Reported.serverBlobPull (H : s.Reported) (id size : Nat) (message : String) :
    (s.serverBlobPull id size message).Reported := by
  unfold BlobSession.serverBlobPull
  split
  · exact H.abortServerStream id _ _
  · exact H.pullServerStream id size message

theorem Reported.chunkDropped (H : s.Reported) (handle : Nat) :
    (s.chunkDropped handle).Reported := by
  unfold BlobSession.chunkDropped
  split
  · exact H
  · exact H.abortServerStream _ _ _

theorem Reported.serverIdle (H : s.Reported) (handle : Nat) : (s.serverIdle handle).Reported := by
  unfold BlobSession.serverIdle
  split
  · exact H
  · split
    · have Hfired : Reported { s with manager := { s.manager with
          server := s.manager.server.modify handle (.setTimer false) } } :=
        H.table (H.registered.modify handle fun _ => rfl)
      exact Hfired.abortServerStream _ _ _
    · exact H

theorem Reported.createBlob (H : s.Reported) (callId : Nat) (objectMode : Bool) :
    (s.createBlob callId objectMode).Reported := by
  refine ⟨H.registered.create _ _ _ _, fun d hd => ?_⟩
  rcases List.mem_append.mp hd with hd | hd
  · exact H.sound d hd
  · rw [List.mem_singleton.mp hd]
    exact ⟨fun _ => unclosed_nil, quiet_nil⟩

/-! ## One direction leaves the other alone -/

structure SameUploads (s s' : BlobSession) : Prop where
  connectionId : s'.connectionId = s.connectionId
  client : s'.manager.client = s.manager.client
  uploads : s'.uploads = s.uploads

structure SameDownloads (s s' : BlobSession) : Prop where
  connectionId : s'.connectionId = s.connectionId
  server : s'.manager.server = s.manager.server
  downloads : s'.downloads = s.downloads

theorem SameUploads.refl (s : BlobSession) : SameUploads s s := ⟨rfl, rfl, rfl⟩

theorem SameDownloads.refl (s : BlobSession) : SameDownloads s s := ⟨rfl, rfl, rfl⟩

theorem SameUploads.trans {s'' : BlobSession} (h : SameUploads s s') (h' : SameUploads s' s'') :
    SameUploads s s'' :=
  ⟨h'.connectionId.trans h.connectionId, h'.client.trans h.client, h'.uploads.trans h.uploads⟩

theorem SameDownloads.trans {s'' : BlobSession} (h : SameDownloads s s')
    (h' : SameDownloads s' s'') : SameDownloads s s'' :=
  ⟨h'.connectionId.trans h.connectionId, h'.server.trans h.server, h'.downloads.trans h.downloads⟩

theorem SameUploads.accounted (h : SameUploads s s') (H : s.Accounted) : s'.Accounted := by
  unfold Accounted
  rw [h.client, h.uploads]
  exact H

theorem SameDownloads.reported (h : SameDownloads s s') (H : s.Reported) : s'.Reported :=
  ⟨by rw [h.server]; exact H.registered, by rw [h.downloads]; exact H.sound⟩

theorem sameDownloads_abortClientStream (s : BlobSession) (id : Nat) (error : String)
    (notifyPeer : Bool) : SameDownloads s (s.abortClientStream id error notifyPeer) := by
  unfold BlobSession.abortClientStream
  split
  · exact .refl s
  · exact ⟨rfl, BlobStreamsManager.abortClientStream_server _ _ _ _, rfl⟩

theorem sameDownloads_abortClientStreams (s : BlobSession) (ids : List Nat) (reason : String)
    (notifyPeer : Bool) : SameDownloads s (s.abortClientStreams ids reason notifyPeer) := by
  unfold BlobSession.abortClientStreams
  induction ids generalizing s with
  | nil => exact .refl s
  | cons id ids ih => exact (sameDownloads_abortClientStream s id reason notifyPeer).trans (ih _)

theorem sameDownloads_grantClientStream (s : BlobSession) (id size : Nat) :
    SameDownloads s (s.grantClientStream id size) := by
  unfold BlobSession.grantClientStream
  split
  · exact .refl s
  · exact ⟨rfl, rfl, rfl⟩

theorem sameDownloads_revokeClientStreamGrant (s : BlobSession) (id size : Nat) :
    SameDownloads s (s.revokeClientStreamGrant id size) := by
  unfold BlobSession.revokeClientStreamGrant
  split
  · exact .refl s
  · exact ⟨rfl, rfl, rfl⟩

theorem sameDownloads_clientBlobPush (s : BlobSession) (id byteLength : Nat) :
    SameDownloads s (s.clientBlobPush id byteLength) := by
  unfold BlobSession.clientBlobPush BlobStreamsManager.pushToClientStream
  cases s.manager.client.lookup s.connectionId id with
  | none => exact .refl s
  | some found =>
    dsimp only
    by_cases hrejected : byteLength = 0 ∨ byteLength > found.2.data.granted
    · rw [if_pos hrejected]
      exact sameDownloads_abortClientStream s id _ _
    · rw [if_neg hrejected]
      exact ⟨rfl, rfl, rfl⟩

theorem sameUploads_report (s : BlobSession) (handle id : Nat) (message : String)
    (call : SinkCall) : SameUploads s (s.report handle id message call) := by
  cases call with
  | chunk | «end» | error => exact ⟨rfl, rfl, rfl⟩

theorem sameUploads_drive (s : BlobSession) (handle : Nat) (message : String)
    (event : StreamEvent) : SameUploads s (s.drive handle message event) := by
  rcases drive_cases s handle message event with
    h | ⟨_, _, _, _, ⟨_, h⟩ | ⟨_, call, _, _, h⟩⟩
  · rw [h]
    exact .refl s
  · rw [h]
    exact ⟨rfl, rfl, rfl⟩
  · rw [h]
    have hreport (s₁ : BlobSession) (id : Nat) (h₁ : SameUploads s s₁) :
        SameUploads s (s₁.report handle id message call) :=
      h₁.trans (sameUploads_report s₁ handle id message call)
    exact hreport _ _ ⟨rfl, rfl, rfl⟩

theorem sameUploads_suppress (s : BlobSession) (id : Nat) (notifyPeer : Bool) :
    SameUploads s (s.suppress id notifyPeer) := by
  unfold BlobSession.suppress
  split
  · exact .refl s
  · exact ⟨rfl, rfl, rfl⟩

theorem sameUploads_abortServerStream (s : BlobSession) (id : Nat) (error : String)
    (notifyPeer : Bool) : SameUploads s (s.abortServerStream id error notifyPeer) := by
  unfold BlobSession.abortServerStream
  split
  · exact .refl s
  · next handle _ _ =>
    have h := (sameUploads_suppress s id notifyPeer).trans
      (sameUploads_drive _ handle error (.destroy true))
    exact ⟨h.connectionId, h.client, h.uploads⟩

theorem sameUploads_abortServerStreams (s : BlobSession) (ids : List Nat) (reason : String)
    (notifyPeer : Bool) : SameUploads s
      (ids.foldl (fun s id => s.abortServerStream id reason notifyPeer) s) := by
  induction ids generalizing s with
  | nil => exact .refl s
  | cons id ids ih => exact (sameUploads_abortServerStream s id reason notifyPeer).trans (ih _)

/-! ## Every event keeps the discipline -/

structure Inv (s : BlobSession) : Prop where
  accounted : s.Accounted
  reported : s.Reported

theorem inv_start (connectionId : String) : (start connectionId).Inv where
  accounted := {
    registered := fun _ _ h => nomatch h
    length := rfl
    covers := fun _ _ _ h => nomatch h
    opened := fun _ _ _ h => nomatch h
    quiet := fun _ h => nomatch h }
  reported := ⟨fun _ _ h => (nomatch h), fun _ h => nomatch h⟩

theorem Inv.of_uploads (H : s.Inv) (hsame : SameDownloads s s') (haccounted : s'.Accounted) :
    s'.Inv := ⟨haccounted, hsame.reported H.reported⟩

theorem Inv.of_downloads (H : s.Inv) (hsame : SameUploads s s') (hreported : s'.Reported) :
    s'.Inv := ⟨hsame.accounted H.accounted, hreported⟩

theorem Inv.read (H : s.Inv) (handle size : Nat) : (s.read handle size).Inv := by
  refine H.of_uploads ?_ (H.accounted.read handle size)
  unfold BlobSession.read
  split
  · exact .refl s
  · next state _ =>
    have h := sameDownloads_grantClientStream s state.id (if size = 0 then 65535 else size)
    exact ⟨h.connectionId, h.server, h.downloads⟩

theorem Inv.pullDropped (H : s.Inv) (handle pullSize : Nat) :
    (s.pullDropped handle pullSize).Inv := by
  refine H.of_uploads ?_ (H.accounted.pullDropped handle pullSize)
  unfold BlobSession.pullDropped
  split
  · exact .refl s
  · exact (sameDownloads_revokeClientStreamGrant s _ _).trans
      (sameDownloads_abortClientStream _ _ _ _)

theorem Inv.clientBlobAbort (H : s.Inv) (id : Nat) (reason : String) :
    (s.clientBlobAbort id reason).Inv := by
  refine H.of_uploads ?_ (H.accounted.clientBlobAbort id reason)
  unfold BlobSession.clientBlobAbort
  split
  · exact .refl s
  · next handle _ _ =>
    have h := sameDownloads_abortClientStream (s.logUpload handle [.peerAborted]) id reason false
    exact ⟨h.connectionId, h.server, h.downloads⟩

theorem Inv.clientIdle (H : s.Inv) (handle : Nat) : (s.clientIdle handle).Inv := by
  refine H.of_uploads ?_ (H.accounted.clientIdle handle)
  unfold BlobSession.clientIdle
  split
  · exact .refl s
  · next state _ =>
    split
    · have h := sameDownloads_abortClientStream { s with manager := { s.manager with
          client := s.manager.client.modify handle (.setTimer false) } } state.id
        STREAM_IDLE_TIMEOUT_REASON true
      exact ⟨h.connectionId, h.server, h.downloads⟩
    · exact .refl s

theorem Inv.serverBlobPull (H : s.Inv) (id size : Nat) (message : String) :
    (s.serverBlobPull id size message).Inv := by
  refine H.of_downloads ?_ (H.reported.serverBlobPull id size message)
  unfold BlobSession.serverBlobPull
  split
  · exact sameUploads_abortServerStream s id _ _
  · unfold BlobSession.pullServerStream
    split
    · exact .refl s
    · next handle _ _ =>
      have h : SameUploads s (BlobSession.drive { s with manager := { s.manager with
            server := s.manager.server.update s.connectionId id (.setTimer true) } } handle message
          (.grant size)) := by
        have hdriven := sameUploads_drive { s with manager := { s.manager with
            server := s.manager.server.update s.connectionId id (.setTimer true) } } handle message
          (.grant size)
        exact ⟨hdriven.connectionId, hdriven.client, hdriven.uploads⟩
      dsimp only
      split
      · exact h
      · exact h.trans (sameUploads_abortServerStream _ id _ _)

theorem Inv.serverBlobAbort (H : s.Inv) (id : Nat) (reason : String) :
    (s.serverBlobAbort id reason).Inv := by
  refine H.of_downloads ?_ (H.reported.serverBlobAbort id reason)
  unfold BlobSession.serverBlobAbort
  split
  · exact .refl s
  · next handle _ _ =>
    have h := sameUploads_abortServerStream (s.logDownload handle [.peerAborted]) id reason false
    exact ⟨h.connectionId, h.client, h.uploads⟩

theorem Inv.chunkDropped (H : s.Inv) (handle : Nat) : (s.chunkDropped handle).Inv := by
  refine H.of_downloads ?_ (H.reported.chunkDropped handle)
  unfold BlobSession.chunkDropped
  split
  · exact .refl s
  · exact sameUploads_abortServerStream s _ _ _

theorem Inv.serverIdle (H : s.Inv) (handle : Nat) : (s.serverIdle handle).Inv := by
  refine H.of_downloads ?_ (H.reported.serverIdle handle)
  unfold BlobSession.serverIdle
  split
  · exact .refl s
  · next state _ =>
    split
    · have h := sameUploads_abortServerStream { s with manager := { s.manager with
          server := s.manager.server.modify handle (.setTimer false) } } state.id
        STREAM_IDLE_TIMEOUT_REASON true
      exact ⟨h.connectionId, h.client, h.uploads⟩
    · exact .refl s

theorem Inv.close (H : s.Inv) : s.close.Inv := by
  unfold BlobSession.close
  have H' := H.of_uploads (sameDownloads_abortClientStreams s _ "Connection closed" false)
    (H.accounted.abortClientStreams ((s.manager.client.connectionStreams.get?
      s.connectionId).getD []) _ _)
  exact H'.of_downloads (sameUploads_abortServerStreams _ _ _ _)
    (H'.reported.abortServerStreams _ _ _)

theorem Inv.step (H : s.Inv) (event : Event) : (s.step event).Inv := by
  cases event with
  | addClientStream callId id =>
    exact H.of_uploads ⟨rfl, rfl, rfl⟩ (Accounts.create H.accounted s.connectionId callId id)
  | read handle size => exact H.read handle size
  | pullDropped handle pullSize => exact H.pullDropped handle pullSize
  | clientBlobPush id byteLength =>
    exact H.of_uploads (sameDownloads_clientBlobPush s id byteLength)
      (H.accounted.clientBlobPush id byteLength)
  | written handle =>
    refine H.of_uploads ⟨rfl, rfl, rfl⟩ ?_
    exact Accounts.modify_table H.accounted handle (fun _ => rfl) fun _ => rfl
  | clientBlobEnd id =>
    exact H.of_uploads ⟨rfl, rfl, rfl⟩ (Accounts.remove H.accounted s.connectionId id)
  | clientBlobAbort id reason => exact H.clientBlobAbort id reason
  | consumeBlob callId id => exact H.of_uploads ⟨rfl, rfl, rfl⟩ { H.accounted with }
  | callCompleted callId =>
    exact H.of_uploads (sameDownloads_abortClientStreams s _ _ _)
      (H.accounted.abortClientStreams _ _ _)
  | clientIdle handle => exact H.clientIdle handle
  | createBlob callId objectMode =>
    exact H.of_downloads ⟨rfl, rfl, rfl⟩ (H.reported.createBlob callId objectMode)
  | source handle event message =>
    rw [BlobSession.step]
    split
    · exact H.of_downloads (sameUploads_drive s handle message event)
        (H.reported.drive handle message event)
    · exact H
  | chunkDropped handle => exact H.chunkDropped handle
  | serverBlobPull id size message => exact H.serverBlobPull id size message
  | serverBlobAbort id reason => exact H.serverBlobAbort id reason
  | serverIdle handle => exact H.serverIdle handle
  | close => exact H.close

theorem inv_run (connectionId : String) (events : List Event) :
    (Trace.run step (start connectionId) events).Inv :=
  Trace.run_inv (P := fun _ => True) step (fun _ event _ H => H.step event) (fun _ _ => trivial)
    (inv_start connectionId)

/-! ## The discipline over a run -/

theorem rejects (s : BlobSession) (id byteLength : Nat) : s.Rejects id byteLength := by
  intro handle state hlookup hrejected
  have hpush : s.clientBlobPush id byteLength =
      s.abortClientStream id STREAM_CREDIT_VIOLATION_REASON true := by
    unfold BlobSession.clientBlobPush BlobStreamsManager.pushToClientStream
    rw [hlookup]
    dsimp only
    rw [if_pos hrejected]
  obtain ⟨f, hkey, hgranted, htable⟩ :=
    abortClientStream_table hlookup STREAM_CREDIT_VIOLATION_REASON true
  have hlookup' := StreamTable.lookup_update hlookup f
  dsimp only
  rw [hpush]
  unfold BlobSession.abortClientStream
  rw [hlookup]
  dsimp only [logUpload]
  rw [htable, StreamTable.remove, hlookup']
  refine ⟨⟨(f state).setTimer false, ?_, hgranted state⟩, fun other => ?_, ?_⟩
  · exact (List.getElem?_modify_eq _ handle _).trans
      (congrArg (Option.map _) (StreamTable.lookup_eq_some_iff.mp hlookup').2)
  · rw [List.getElem?_modify]
    cases s.uploads[other]? with
    | none => rfl
    | some upload =>
      refine congrArg some ?_
      split <;> rfl
  · rintro ⟨other, hget⟩
    dsimp only at hget
    rw [OrdMap.get?_erase, if_pos rfl] at hget
    cases hget

theorem Inv.disciplined (H : s.Inv) : s.Disciplined where
  within_credit handle state hstate := by
    have hlt : handle < s.uploads.length := by
      rw [H.accounted.length]
      exact (List.getElem?_eq_some_iff.mp hstate).1
    refine ⟨s.uploads[handle], List.getElem?_eq_getElem hlt, ?_⟩
    have h := H.accounted.covers handle state _ hstate (List.getElem?_eq_getElem hlt)
    exact ⟨Nat.le_trans (Nat.le_add_right _ _) h.granted, h.capped⟩
  rejects := s.rejects
  uploads := H.accounted.quiet
  downloads download hmem := (H.reported.sound download hmem).quiet

theorem wire_disciplined (connectionId : String) (events : List Event) :
    (Trace.run step (start connectionId) events).Disciplined :=
  (inv_run connectionId events).disciplined

end BlobSession

end Neemata.Ws
