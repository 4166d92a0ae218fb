import Neemata.Lib.CyclicIds
import Neemata.Ws.BlobWire

/-!
# The ids of calls and streams

The three counters of a connection: `nextCallId` of `client/src/layers/rpc.ts` and `getStreamId` of
`client/src/layers/streams.ts`, which outlive their connections, and `streamId` of the session. An
id given is fresh exactly if no live call or stream took its own a multiple of `MAX_UINT32` ids ago.
-/

namespace Neemata.Ws

def nextCallId : Nat → Nat × Nat := CyclicIds.next MAX_UINT32

def getStreamId : Nat → Nat × Nat := CyclicIds.next MAX_UINT32

def streamId : Nat → Nat × Nat := CyclicIds.next MAX_UINT32

/-- What is alive on a connection, with the counters. -/
structure IdSpaces where
  calls : CyclicIds := {}
  clientStreams : CyclicIds := {}
  serverStreams : CyclicIds := {}
deriving DecidableEq

/-- Calls and streams end in any order, named by their place among the live ones. -/
inductive IdEvent where
  | call
  | callEnded (i : Nat)
  | addClientStream
  | clientStreamEnded (i : Nat)
  | createBlob
  | serverStreamEnded (i : Nat)
  /-- The client's calls and streams end, and the next connection has a new session. -/
  | disconnected
deriving DecidableEq

namespace IdSpaces

def step (s : IdSpaces) : IdEvent → IdSpaces
  | .call => { s with calls := s.calls.take nextCallId }
  | .callEnded i => { s with calls := s.calls.release i }
  | .addClientStream => { s with clientStreams := s.clientStreams.take getStreamId }
  | .clientStreamEnded i => { s with clientStreams := s.clientStreams.release i }
  | .createBlob => { s with serverStreams := s.serverStreams.take streamId }
  | .serverStreamEnded i => { s with serverStreams := s.serverStreams.release i }
  | .disconnected => ⟨s.calls.releaseAll, s.clientStreams.releaseAll, {}⟩

/-- The id that the event gives is that of no live call or stream of its kind. -/
def Fresh (s : IdSpaces) : IdEvent → Prop
  | .call => s.calls.Fresh nextCallId
  | .addClientStream => s.clientStreams.Fresh getStreamId
  | .createBlob => s.serverStreams.Fresh streamId
  | _ => True

/-- No live call or stream of the event's kind took its id a multiple of `MAX_UINT32` ids ago. -/
def Spaced (s : IdSpaces) : IdEvent → Prop
  | .call => s.calls.Spaced MAX_UINT32
  | .addClientStream => s.clientStreams.Spaced MAX_UINT32
  | .createBlob => s.serverStreams.Spaced MAX_UINT32
  | _ => True

/-- Fewer than `MAX_UINT32` calls and streams are alive. -/
def Few (s : IdSpaces) (_ : IdEvent) : Prop :=
  s.calls.alive.length + s.clientStreams.alive.length + s.serverStreams.alive.length < MAX_UINT32

instance (s : IdSpaces) (e : IdEvent) : Decidable (s.Few e) := inferInstanceAs (Decidable (_ < _))

structure Counted (s : IdSpaces) : Prop where
  calls : s.calls.Counted MAX_UINT32
  clientStreams : s.clientStreams.Counted MAX_UINT32
  serverStreams : s.serverStreams.Counted MAX_UINT32

variable {s : IdSpaces}

theorem MAX_UINT32_pos : 0 < MAX_UINT32 := by decide

theorem counted_new : Counted {} where
  calls := CyclicIds.counted_new MAX_UINT32_pos
  clientStreams := CyclicIds.counted_new MAX_UINT32_pos
  serverStreams := CyclicIds.counted_new MAX_UINT32_pos

theorem Counted.step (H : s.Counted) (e : IdEvent) : (s.step e).Counted := by
  cases e with
  | call => exact { H with calls := H.calls.take MAX_UINT32_pos }
  | callEnded i => exact { H with calls := H.calls.release i }
  | addClientStream => exact { H with clientStreams := H.clientStreams.take MAX_UINT32_pos }
  | clientStreamEnded i => exact { H with clientStreams := H.clientStreams.release i }
  | createBlob => exact { H with serverStreams := H.serverStreams.take MAX_UINT32_pos }
  | serverStreamEnded i => exact { H with serverStreams := H.serverStreams.release i }
  | disconnected =>
    exact ⟨H.calls.releaseAll, H.clientStreams.releaseAll, CyclicIds.counted_new MAX_UINT32_pos⟩

theorem Counted.fresh_iff (H : s.Counted) (e : IdEvent) : s.Fresh e ↔ s.Spaced e := by
  cases e with
  | call => exact CyclicIds.fresh_iff_spaced H.calls
  | addClientStream => exact CyclicIds.fresh_iff_spaced H.clientStreams
  | createBlob => exact CyclicIds.fresh_iff_spaced H.serverStreams
  | callEnded _ | clientStreamEnded _ | serverStreamEnded _ | disconnected => exact Iff.rfl

/-- The ids of a run are fresh exactly if none of them is given when a call or stream of its kind is
alive that took its own a multiple of `MAX_UINT32` ids before. -/
theorem ids_fresh_iff (l : List IdEvent) :
    Trace.Admits step Fresh {} l ↔ Trace.Admits step Spaced {} l :=
  Trace.admits_congr step (fun _ e H => H.step e) (fun _ e H => H.fresh_iff e) counted_new l

/-! ## A call that lives through a round of the counter -/

/-- Calls that are made and end, one after the other. -/
def shortCalls : Nat → List IdEvent
  | 0 => []
  | n + 1 => .call :: .callEnded 1 :: shortCalls n

/-- While a call is alive, the counter goes through the ids of the short calls. -/
theorem run_shortCalls (n : Nat) {c : CyclicIds} {holder : Holder} (halive : c.alive = [holder])
    (hle : c.counter + n ≤ MAX_UINT32) :
    Trace.Admits step Few { calls := c } (shortCalls n) ∧
      Trace.run step { calls := c } (shortCalls n) =
        { calls := ⟨c.counter + n, c.given + n, [holder]⟩ } := by
  induction n generalizing c with
  | zero =>
    obtain ⟨counter, given, alive⟩ := c
    cases halive
    exact ⟨trivial, rfl⟩
  | succ n ih =>
    have hlt : ¬ c.counter ≥ MAX_UINT32 := by omega
    have htake : c.take nextCallId =
        ⟨c.counter + 1, c.given + 1, [holder, ⟨c.counter, c.given⟩]⟩ := by
      unfold CyclicIds.take nextCallId CyclicIds.next
      simp only [if_neg hlt, halive, List.cons_append, List.nil_append]
    have hround : ((({ calls := c } : IdSpaces).step .call).step (.callEnded 1)) =
        { calls := ⟨c.counter + 1, c.given + 1, [holder]⟩ } := by
      simp only [step, htake, CyclicIds.release, List.eraseIdx_cons_succ, List.eraseIdx_cons_zero]
    obtain ⟨hfew, hrun⟩ := ih (c := ⟨c.counter + 1, c.given + 1, [holder]⟩) rfl
      (by dsimp only; omega)
    refine ⟨⟨?_, ?_, ?_⟩, ?_⟩
    · have hone : 1 < MAX_UINT32 := by decide
      rwa [Few, halive]
    · have htwo : 2 < MAX_UINT32 := by decide
      rwa [Few, step, htake]
    · rw [hround]
      exact hfew
    · rw [shortCalls, Trace.run_cons, Trace.run_cons, hround, hrun]
      simp only [Nat.add_assoc, Nat.add_comm 1 n]

/-- The first call is still alive when the ids come round to its own; two calls at most are alive
in the run. -/
theorem id_given_twice :
    Trace.Admits step Few {} (.call :: shortCalls (2 ^ 32 - 2) ++ [.call]) ∧
      ¬ Trace.Admits step Fresh {} (.call :: shortCalls (2 ^ 32 - 2) ++ [.call]) := by
  have hfirst : ({} : IdSpaces).step .call = { calls := ⟨1, 1, [⟨0, 0⟩]⟩ } := rfl
  obtain ⟨hfew, hrun⟩ := run_shortCalls (2 ^ 32 - 2) (c := ⟨1, 1, [⟨0, 0⟩]⟩) rfl (by decide)
  rw [Trace.admits_append, Trace.admits_append, Trace.run_cons, hfirst, hrun]
  refine ⟨⟨⟨by decide, ?_⟩, by decide, trivial⟩, fun h => ?_⟩
  · rw [hfirst]
    exact hfew
  · have hgiven : (nextCallId (1 + (2 ^ 32 - 2))).1 = 0 := by decide
    exact h.2.1 ⟨0, 0⟩ List.mem_cons_self hgiven.symm

end IdSpaces

end Neemata.Ws
