import Coffer.Keyring.Channel
import Coffer.Proofs.Keyring.Conversation
/-
  A link between a channel and a holder.

  A `Link` is a network with a holder behind it that answers from a store.  Nothing gets lost on it, but
  both streams arrive in pieces of any size.

  * `Link.arrive_request`     — however a request is cut, the holder answers it once;
  * `Channel.await_response`  — however the response is cut, the client reads it as it is;
  * `Channel.request_idle`    — so a request is answered, and the link is idle again.
-/
namespace Coffer.Keyring

variable {s : Store} {d : Disk} {b : Bytes} {r : Request} {cuts : Nat → Nat}
  {past : List Request} {config : ChannelConfig}

/-! ## Links -/

/-- A network with a holder behind it.  Every stream that is sent arrives, in pieces. -/
structure Link where
  /-- The connection that was last made. -/
  holder : Attended
  disk : Disk
  /-- Bytes on their way to the holder. -/
  outgoing : Bytes
  /-- Bytes on their way to the client. -/
  incoming : Bytes
  /-- The sizes of the next pieces, each less 1. -/
  cuts : Nat → Nat
  connections : Nat
  /-- What the holder has made of the bytes that reached it. -/
  heard : Received

namespace Link

/-- Before any connection. -/
def unused (s : Store) (d : Disk) (cuts : Nat → Nat) : Link :=
  ⟨⟨s, [], false⟩, d, [], [], cuts, 0, .start⟩

/-- The first connection while no request is on its way; the holder has answered the requests `past`. -/
def idle (s : Store) (d : Disk) (past : List Request) (cuts : Nat → Nat) : Link :=
  ⟨.accept s, d, [], [], cuts, 1, ⟨past, none, []⟩⟩

/-- The next piece of the bytes `b`. -/
def piece (n : Link) (b : Bytes) : Bytes := b.take (n.cuts 0 + 1)

/-- What stays behind that piece. -/
def behind (n : Link) (b : Bytes) : Bytes := b.drop (n.cuts 0 + 1)

/-- The sizes of the pieces after the next one. -/
def later (n : Link) : Nat → Nat := fun i => n.cuts (i + 1)

/-- The next piece reaches the holder. -/
def deliver (n : Link) : Link :=
  let (answer, holder, disk) := n.holder.receive (n.piece n.outgoing) n.disk
  { n with
    holder := holder
    disk := disk
    outgoing := n.behind n.outgoing
    incoming := n.incoming ++ answer
    cuts := n.later
    heard := n.heard.feed (n.piece n.outgoing) }

/-- What the client receives next.  While nothing is there for it, the holder gets what was sent. -/
def arrive (n : Link) : Arrival × Link :=
  if n.incoming ≠ [] then
    (.bytes (n.piece n.incoming), { n with incoming := n.behind n.incoming, cuts := n.later })
  else if _h : n.outgoing = [] then (if n.holder.isOpen then .silence else .bytes [], n)
  else n.deliver.arrive
termination_by n.outgoing.length
decreasing_by
  have := List.length_pos_iff.mpr _h
  simp only [deliver, behind, List.length_drop]
  omega

instance : Network Link where
  overflow := .stops
  connect _ n := (.connected n.connections,
    { n with
      holder := .accept n.holder.store
      outgoing := []
      incoming := []
      connections := n.connections + 1
      heard := .start })
  send _ b n := (.sent, { n with outgoing := n.outgoing ++ b })
  receive _ n := n.arrive
  hangUp _ n := { n with holder := { n.holder with isOpen := false } }
  pause _ n := n

end Link

/-! ## The holder's side -/

namespace Link

/-- **However a request is cut, the holder answers it once.**  The part `front` of it has arrived, and
    the part `back` is to come. -/
theorem arrive_request (s : Store) (d : Disk) (past : List Request) {front back : Bytes}
    (hframe : Request.decode (front ++ back) = .frame r []) (hback : back ≠ []) (cuts : Nat → Nat) :
    ∃ cuts', arrive ⟨⟨s, front, true⟩, d, back, [], cuts, 1, ⟨past, none, front⟩⟩ =
      arrive { idle s (s.answer r d).2 (past ++ [r]) cuts' with
        incoming := (s.answer r d).1.encode } := by
  -- On the length of what is to come: the front and the back are the whole request at every piece.
  induction hsize : back.length using Nat.strongRecOn generalizing front back cuts with
  | ind size ih =>
    subst hsize
    rw [arrive, if_neg (by simp), dif_neg hback]
    by_cases hlast : back.drop (cuts 0 + 1) = []
    · -- The last byte of the request arrives.
      have hpiece : back.take (cuts 0 + 1) = back := by
        have hall := List.take_append_drop (cuts 0 + 1) back
        rwa [hlast, List.append_nil] at hall
      refine ⟨fun i => cuts (i + 1), ?_⟩
      congr 1
      simp only [deliver, piece, behind, hpiece, hlast, Attended.receive, if_true,
        Store.serve_of_frame hframe, Store.serve_of_incomplete (b := []) rfl, List.append_nil,
        Received.feed, Request.decodeAll_of_frame hframe,
        Request.decodeAll_of_incomplete (b := []) rfl]
      rfl
    · -- Too little is there for the holder to answer anything.
      have hcut : front ++ back.take (cuts 0 + 1) ++ back.drop (cuts 0 + 1) = front ++ back := by
        rw [List.append_assoc, List.take_append_drop]
      have hwait : Request.decode (front ++ back.take (cuts 0 + 1)) = .incomplete :=
        Request.steady_decode.incomplete_of_cut (by rw [hcut]; exact hframe) hlast
      have hshorter : (back.drop (cuts 0 + 1)).length < back.length := by
        have := List.length_pos_iff.mpr hback
        rw [List.length_drop]
        omega
      obtain ⟨cuts', hrest⟩ := ih _ hshorter (by rw [hcut]; exact hframe) hlast
        (fun i => cuts (i + 1)) rfl
      refine ⟨cuts', ?_⟩
      rw [← hrest]
      simp only [deliver, piece, behind, Attended.receive, if_true, Store.serve_of_incomplete hwait,
        Received.feed, Request.decodeAll_of_incomplete hwait, List.append_nil]
      rfl

end Link

/-! ## The client's side -/

namespace Channel

section

variable {N : Type} [Network N] {session : Session} {codec : ClientCodec} {n n' : N}

theorem await_of_frame {response : Response} {rest : Bytes}
    (h : session.codec.decode session.received = (.frame response rest, codec)) (n : N) :
    await config session n =
      (.ok (response, { session with codec := codec, received := rest }), n) := by
  rw [await]
  split <;> rename_i h' <;> cases h.symm.trans h'
  rfl

theorem await_of_failed {e : SecretError} {rest : Bytes}
    (h : session.codec.decode session.received = (.failed e rest, codec)) (n : N) :
    await config session n = (.error e, n) := by
  rw [await]
  split <;> rename_i h' <;> cases h.symm.trans h'
  rfl

/-- The failure of a client that waits for more when the other side is done. -/
def cutShort (received : Bytes) : SecretError :=
  match (Decoded.incomplete (α := Response)).atEnd received with
  | .error e => e
  | .ok _ => .io ⟨.unexpectedEof, "secret holder closed the connection"⟩

/-- What a client that waits makes of what arrives. -/
theorem await_of_incomplete (h : session.codec.decode session.received = (.incomplete, codec)) (n : N) :
    await config session n =
      match Network.receive session.line n with
      | (.silence, n) => (.error (noResponse config), n)
      | (.failed e, n) => (.error (.io e), n)
      | (.bytes b, n) =>
        if b = [] then (.error (cutShort session.received), n)
        else await config { session with codec := codec, received := session.received ++ b } n := by
  rw [await]
  split <;> rename_i h' <;> cases h.symm.trans h'
  rcases Network.receive session.line n with ⟨b | e | _, n'⟩
  · rw [cutShort]
    by_cases hb : b = []
    · simp only [if_pos hb, dif_pos hb]
      rcases (Decoded.incomplete (α := Response)).atEnd session.received with e | _ <;> rfl
    · simp only [if_neg hb, dif_neg hb]
  · rfl
  · rfl

/-- A client that waits goes on with what arrives. -/
theorem await_of_bytes (h : session.codec.decode session.received = (.incomplete, codec))
    (harrive : Network.receive session.line n = (.bytes b, n')) (hb : b ≠ []) :
    await config session n =
      await config { session with codec := codec, received := session.received ++ b } n' := by
  rw [await_of_incomplete h, harrive]
  exact if_neg hb

/-- Only what arrives next tells one network from another. -/
theorem await_congr (h : session.codec.decode session.received = (.incomplete, codec))
    (hsame : Network.receive session.line n = Network.receive session.line n') :
    await config session n = await config session n' := by
  rw [await_of_incomplete h, await_of_incomplete h, hsame]

end

variable {response : Response} {op : Op}

/-- **However a response is cut, the client reads it as it is.**  The part `front` of it has been
    received, and the part `back` is to come. -/
theorem await_response (config : ChannelConfig) (hanswers : response.Answers op) {front back : Bytes}
    (hwhole : front ++ back = response.encode) (s : Store) (d : Disk) (past : List Request)
    (cuts : Nat → Nat) :
    ∃ cuts', await config ⟨0, ⟨some op⟩, front⟩ { Link.idle s d past cuts with incoming := back } =
      (.ok (response, ⟨0, .fresh, []⟩), Link.idle s d past cuts') := by
  have hframe : Response.decode (some op) (front ++ back) = .frame response [] := by
    have hread := Response.decode_encode hanswers []
    rwa [List.append_nil, ← hwhole] at hread
  induction hsize : back.length using Nat.strongRecOn generalizing front back cuts with
  | ind size ih =>
    subst hsize
    by_cases hback : back = []
    · subst hback
      rw [List.append_nil] at hframe
      have hread : ClientCodec.decode ⟨some op⟩ front = (.frame response [], .fresh) := by
        rw [ClientCodec.decode, hframe]
      exact ⟨cuts, await_of_frame hread _⟩
    · -- The client remembers the op while it waits.
      have hwait : ClientCodec.decode ⟨some op⟩ front = (.incomplete, ⟨some op⟩) := by
        rw [ClientCodec.decode, (Response.steady_decode _).incomplete_of_cut hframe hback]
      have hpiece : back.take (cuts 0 + 1) ≠ [] := by
        intro h
        rcases List.take_eq_nil_iff.mp h with h | h
        · omega
        · exact hback h
      have harrive : Network.receive 0 { Link.idle s d past cuts with incoming := back } =
          (.bytes (back.take (cuts 0 + 1)), { Link.idle s d past fun i => cuts (i + 1) with
            incoming := back.drop (cuts 0 + 1) }) := by
        show Link.arrive _ = _
        rw [Link.arrive, if_pos hback]
        rfl
      have hshorter : (back.drop (cuts 0 + 1)).length < back.length := by
        have := List.length_pos_iff.mpr hback
        rw [List.length_drop]
        omega
      have hcut : front ++ back.take (cuts 0 + 1) ++ back.drop (cuts 0 + 1) = front ++ back := by
        rw [List.append_assoc, List.take_append_drop]
      rw [await_of_bytes hwait harrive hpiece]
      exact ih _ hshorter (hcut.trans hwhole) _ (by rw [hcut]; exact hframe) rfl

/-- The first connection, between two requests. -/
def connected (config : ChannelConfig) : Channel := ⟨config, .readWrite, some ⟨0, .fresh, []⟩⟩

/-- **A request is answered as the holder answers it,** and the link is idle again. -/
theorem request_idle (config : ChannelConfig) (hfits : (utf8 r.location).length ≤ maxLocation)
    (s : Store) (d : Disk) (past : List Request) (cuts : Nat → Nat) :
    ∃ cuts', (connected config).request r (Link.idle s d past cuts) =
      (.ok (s.answer r d).1, connected config, Link.idle s (s.answer r d).2 (past ++ [r]) cuts') := by
  obtain ⟨b, hb⟩ := Request.exists_encode hfits
  have hframe : Request.decode ([] ++ b) = .frame r [] := by
    have hread := Request.decode_encode hb []
    rwa [List.append_nil] at hread
  have hsome : b ≠ [] := by
    rintro rfl
    cases hframe
  obtain ⟨cuts', harrive⟩ := Link.arrive_request s d past hframe hsome cuts
  obtain ⟨cuts'', hawait⟩ := await_response config (s.answers r d)
    (List.nil_append _) s (s.answer r d).2 (past ++ [r]) cuts'
  refine ⟨cuts'', ?_⟩
  have hexchange : exchange config ⟨0, .fresh, []⟩ r (Link.idle s d past cuts) =
      (.ok ((s.answer r d).1, ⟨0, .fresh, []⟩), Link.idle s (s.answer r d).2 (past ++ [r]) cuts'') := by
    have hencode : ClientCodec.fresh.encode r = (.ok b, ⟨some r.op⟩) := by
      rw [ClientCodec.encode, hb]
    rw [exchange, hencode, ← hawait]
    exact await_congr rfl harrive
  rw [request]
  simp only [connected, hexchange]

end Channel

end Coffer.Keyring
