import Coffer.Proofs.Keyring.Request
/-
  Streams of requests.

  `Request.decodeAll` takes every request from the front of the bytes received, up to the first frame
  that is no request.  A holder does this whenever bytes arrive: `Received` is what has come of all of
  them so far, and `Received.feed` lets some more arrive.

  * `decodeAll_append`  — decoding may stop anywhere and go on with what was left;
  * `feedAll_spec`      — so the pieces in which a stream arrives make no difference;
  * `decodeAll_encodeAll` — and what a client writes is decoded as what it meant.
-/
namespace Coffer.Keyring

variable {b x y rest : Bytes} {r : Request} {requests : List Request}

/-! ## Writing requests -/

namespace Request

/-- A location that fits its length can be written. -/
theorem exists_encode (h : (utf8 r.location).length ≤ maxLocation) : ∃ b, r.encode = .ok b := by
  rw [encode]
  simp only [Nat.not_lt.mpr h, if_false]
  exact ⟨_, rfl⟩

/-- **What is written of a request is a frame of it.** -/
theorem frame_of_encode (h : r.encode = .ok b) : Frame b r := by
  rw [encode] at h
  split_ifs at h with hlong
  have hsize := counts_be16 (Nat.lt_succ_of_le (Nat.le_of_not_lt hlong))
  cases h
  cases r with
  | read location =>
    simp only [op, Op.byte, secret?, List.append_nil, List.cons_append]
    exact .read hsize
  | ping =>
    simp only [op, Op.byte, secret?, List.append_nil, List.cons_append]
    exact .ping hsize
  | update location secret =>
    obtain ⟨hfits, hne, hline⟩ := secret.rules
    have hsecret : secret.bytes.length < 4294967296 := Nat.lt_of_le_of_lt hfits (by decide)
    simp only [op, Op.byte, secret?, secretFrame, List.cons_append]
    exact .update hsize (counts_be32 hsecret) hfits hne
      (fun x hx => isLineBreak_eq_false_iff.mp (hline x hx)) rfl

/-- **A request is read back from what is written of it,** whatever stands behind. -/
theorem decode_encode (h : r.encode = .ok b) (rest : Bytes) : decode (b ++ rest) = .frame r rest :=
  decode_eq_frame_iff.mpr ⟨b, frame_of_encode h, rfl⟩

end Request

/-! ## Reading requests -/

/-- What a holder has made of the bytes that arrived. -/
structure Received where
  /-- The requests, in their order. -/
  requests : List Request
  /-- The failure that the holder stopped at. -/
  fault? : Option SecretError
  /-- Bytes that are left. -/
  rest : Bytes

/-- The requests at the front of the bytes `b`, up to the first frame that is none. -/
def Request.decodeAll (b : Bytes) : Received :=
  match _h : decode b with
  | .incomplete => ⟨[], none, b⟩
  | .failed e rest => ⟨[], some e, rest⟩
  | .frame r rest =>
    let later := decodeAll rest
    { later with requests := r :: later.requests }
termination_by b.length
decreasing_by exact length_rest_decode _h

namespace Received

/-- Before anything has arrived. -/
def start : Received := ⟨[], none, []⟩

/-- Bytes arrive.  After a failure nobody looks at them. -/
def feed (s : Received) (piece : Bytes) : Received :=
  match s.fault? with
  | some _ => s
  | none =>
    let next := Request.decodeAll (s.rest ++ piece)
    { next with requests := s.requests ++ next.requests }

/-- A stream arrives in pieces. -/
def feedAll (pieces : List Bytes) : Received := pieces.foldl feed start

end Received

namespace Request

theorem decodeAll_of_incomplete (h : decode b = .incomplete) : decodeAll b = ⟨[], none, b⟩ := by
  rw [decodeAll]
  split
  · rfl
  · rename_i h'
    cases h.symm.trans h'
  · rename_i h'
    cases h.symm.trans h'

theorem decodeAll_of_failed {e : SecretError} (h : decode b = .failed e rest) :
    decodeAll b = ⟨[], some e, rest⟩ := by
  rw [decodeAll]
  split
  · rename_i h'
    cases h.symm.trans h'
  · rename_i h'
    cases h.symm.trans h'
    rfl
  · rename_i h'
    cases h.symm.trans h'

theorem decodeAll_of_frame (h : decode b = .frame r rest) :
    decodeAll b = { decodeAll rest with requests := r :: (decodeAll rest).requests } := by
  rw [decodeAll]
  split
  · rename_i h'
    cases h.symm.trans h'
  · rename_i h'
    cases h.symm.trans h'
  · rename_i h'
    cases h.symm.trans h'
    rfl

/-- **Decoding may stop anywhere and go on with what was left,** unless it has failed. -/
theorem decodeAll_append (x y : Bytes) : decodeAll (x ++ y) =
    match (decodeAll x).fault? with
    | some _ => { decodeAll x with rest := (decodeAll x).rest ++ y }
    | none => (decodeAll x).feed y := by
  induction x using decodeAll.induct with
  | case1 x h =>
    rw [decodeAll_of_incomplete h]
    rfl
  | case2 x e rest h =>
    have hfailed : decode (x ++ y) = .failed e (rest ++ y) := by
      rw [steady_decode x y (by rw [h]; exact fun h => nomatch h), h]
      rfl
    rw [decodeAll_of_failed h, decodeAll_of_failed hfailed]
  | case3 x r rest h ih =>
    have hframe : decode (x ++ y) = .frame r (rest ++ y) := by
      rw [steady_decode x y (by rw [h]; exact fun h => nomatch h), h]
      rfl
    rw [decodeAll_of_frame h, decodeAll_of_frame hframe, ih]
    rcases hfault : (decodeAll rest).fault? with _ | e
    · simp only [Received.feed, hfault, List.cons_append]
    · rfl

end Request

namespace Received

theorem feed_of_fault {s : Received} {e : SecretError} (h : s.fault? = some e) (piece : Bytes) :
    s.feed piece = s := by
  rw [feed, h]

/-- Pieces that arrive behind the bytes `x`. -/
theorem foldl_feed (x : Bytes) (pieces : List Bytes) :
    let s := pieces.foldl feed (Request.decodeAll x)
    let t := Request.decodeAll (x ++ pieces.flatten)
    s.requests = t.requests ∧ s.fault? = t.fault? ∧ (s.fault? = none → s.rest = t.rest) := by
  induction pieces generalizing x with
  | nil =>
    rw [List.flatten_nil, List.append_nil]
    exact ⟨rfl, rfl, fun _ => rfl⟩
  | cons piece pieces ih =>
    rw [List.flatten_cons, List.foldl_cons]
    have hpiece := Request.decodeAll_append x piece
    rcases hfault : (Request.decodeAll x).fault? with _ | e
    · simp only [hfault] at hpiece
      rw [← hpiece, ← List.append_assoc]
      exact ih (x ++ piece)
    · -- Nobody looks at what arrives behind a failure.
      have hstill : ∀ pieces : List Bytes,
          pieces.foldl feed (Request.decodeAll x) = Request.decodeAll x := by
        intro pieces
        induction pieces with
        | nil => rfl
        | cons piece pieces ih => rw [List.foldl_cons, feed_of_fault hfault, ih]
      have hall := Request.decodeAll_append x (piece ++ pieces.flatten)
      simp only [hfault] at hall
      rw [feed_of_fault hfault, hstill, hall]
      exact ⟨rfl, hfault, fun h => by rw [hfault] at h; cases h⟩

/-- **The pieces in which a stream arrives make no difference.** -/
theorem feedAll_spec (pieces : List Bytes) :
    (feedAll pieces).requests = (Request.decodeAll pieces.flatten).requests ∧
    (feedAll pieces).fault? = (Request.decodeAll pieces.flatten).fault? ∧
    ((feedAll pieces).fault? = none → (feedAll pieces).rest = (Request.decodeAll pieces.flatten).rest) := by
  have hstart : start = Request.decodeAll [] := (Request.decodeAll_of_incomplete rfl).symm
  rw [feedAll, hstart]
  exact foldl_feed [] pieces

end Received

/-! ## From a client to a holder -/

namespace ClientCodec

/-- The bytes of requests, one behind the other. -/
def encodeAll (c : ClientCodec) : List Request → Except SecretError Bytes × ClientCodec
  | [] => (.ok [], c)
  | r :: requests =>
    match c.encode r with
    | (.error e, c) => (.error e, c)
    | (.ok b, c) =>
      let (later, c) := c.encodeAll requests
      (later.map (b ++ ·), c)

/-- **Requests that fit are written, and decoded as what they are.** -/
theorem decodeAll_encodeAll (c : ClientCodec)
    (hfits : ∀ r ∈ requests, (utf8 r.location).length ≤ maxLocation) :
    ∃ b, (c.encodeAll requests).1 = .ok b ∧ Request.decodeAll b = ⟨requests, none, []⟩ := by
  induction requests generalizing c with
  | nil => exact ⟨[], rfl, Request.decodeAll_of_incomplete rfl⟩
  | cons r requests ih =>
    obtain ⟨b, hb⟩ := Request.exists_encode (hfits r List.mem_cons_self)
    obtain ⟨later, hlater, hdecode⟩ := ih ⟨some r.op⟩ fun r hr => hfits r (List.mem_cons_of_mem _ hr)
    refine ⟨b ++ later, ?_, ?_⟩
    · simp only [encodeAll, encode, hb, hlater]
      rfl
    · rw [Request.decodeAll_of_frame (Request.decode_encode hb later), hdecode]

end ClientCodec

namespace Received

/-- **Requests are decoded by their grammar, however they arrive.**  A request is told exactly when the
    bytes begin with a frame of it.  An incomplete one takes nothing and is waited for no longer than
    the longest one takes; every other answer stays what it is when more bytes arrive.  So the pieces in
    which a stream arrives change neither its requests nor the failure behind them, and requests that a
    client writes arrive as they are, with nothing left. -/
theorem requests_arrive_by_their_grammar :
    (∀ b r rest, Request.decode b = .frame r rest ↔ ∃ f, Request.Frame f r ∧ b = f ++ rest) ∧
    (∀ b, Request.decode b = .incomplete → (Request.decode b).rest b = b ∧ b.length < 69638) ∧
    (∀ b extra, Request.decode b ≠ .incomplete →
      Request.decode (b ++ extra) = (Request.decode b).before extra) ∧
    (∀ pieces, (feedAll pieces).requests = (Request.decodeAll pieces.flatten).requests ∧
      (feedAll pieces).fault? = (Request.decodeAll pieces.flatten).fault? ∧
      ((feedAll pieces).fault? = none →
        (feedAll pieces).rest = (Request.decodeAll pieces.flatten).rest)) ∧
    ∀ (c : ClientCodec) (requests : List Request),
      (∀ r ∈ requests, (utf8 r.location).length ≤ 65535) →
      ∃ b, (c.encodeAll requests).1 = .ok b ∧
        ∀ pieces, pieces.flatten = b → feedAll pieces = ⟨requests, none, []⟩ := by
  refine ⟨fun b r rest => Request.decode_eq_frame_iff,
    fun b h => ⟨by rw [h]; rfl, Request.length_of_decode_incomplete h⟩, Request.steady_decode,
    feedAll_spec, fun c requests hfits => ?_⟩
  obtain ⟨b, hb, hdecode⟩ := c.decodeAll_encodeAll hfits
  refine ⟨b, hb, ?_⟩
  rintro pieces rfl
  obtain ⟨hrequests, hfault, hrest⟩ := feedAll_spec pieces
  rw [hdecode] at hrequests hfault hrest
  have hrest := hrest hfault
  rcases h : feedAll pieces with ⟨requests', fault?, rest⟩
  rw [h] at hrequests hfault hrest
  cases hrequests
  cases hfault
  cases hrest
  rfl

/-- A ping and an update arrive byte by byte. -/
theorem requests_arrive_by_their_grammar_of_two :
    let update := Request.update "x" ⟨[97, 98, 99], rfl⟩
    feedAll ([0x50, 0, 0, 0x55, 0, 1, 120, 0, 0, 0, 3, 97, 98, 99].map ([·])) =
      ⟨[.ping, update], none, []⟩ := by
  intro update
  have hfits : ∀ r ∈ [Request.ping, update], (utf8 r.location).length ≤ 65535 := by
    intro r hr
    simp only [List.mem_cons, List.not_mem_nil, or_false] at hr
    rcases hr with rfl | rfl <;> decide
  obtain ⟨-, -, -, -, harrive⟩ := requests_arrive_by_their_grammar
  obtain ⟨b, hb, hpieces⟩ := harrive .fresh [.ping, update] hfits
  cases hb
  exact hpieces _ (by decide)

end Received

end Coffer.Keyring
