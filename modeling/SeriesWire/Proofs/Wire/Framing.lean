/-
Messages in a stream.  `split` decides on the first five bytes and the length
that they declare (`split_head`), so that a message or an error, once given,
stands whatever else arrives (`split_append`).  Receiving therefore does not
depend on where the stream is cut (`receive_append`), and messages sent one
after the other are received in their order.
-/
import SeriesWire.Proofs.Wire.Frame

namespace SeriesWire

open Bytes

namespace Frame

variable {buf : Bytes} {f : Frame} {e : WireError}

/-! ## The first message -/

/-- What has been decided is not taken back: only `none` can change. -/
theorem split_append {answer : Except WireError (Option Frame)} (h : split buf = answer)
    (hdecided : answer ≠ .ok none) (more : Bytes) : split (buf ++ more) = answer := by
  subst h
  rcases Nat.lt_or_ge buf.length headLen with hshort | hlong
  · exact absurd (split_short hshort) hdecided
  obtain ⟨tag, length, rest, hlength, rfl⟩ := exists_head hlong
  rw [split_head hlength] at hdecided ⊢
  rw [List.cons_append, List.append_assoc, split_head hlength]
  by_cases hsmall : toIntBE length < lengthWidth
  · rw [if_pos hsmall, if_pos hsmall]
  rw [if_neg hsmall] at hdecided ⊢
  rw [if_neg hsmall]
  have hrest : ¬rest.length < (toIntBE length).toNat - lengthWidth := by
    intro hmissing
    rw [if_pos hmissing] at hdecided
    exact hdecided rfl
  have hmore : ¬(rest ++ more).length < (toIntBE length).toNat - lengthWidth := by
    rw [List.length_append]
    omega
  rw [if_neg hrest, if_neg hmore, List.take_append_of_le_length (Nat.le_of_not_lt hrest)]

theorem split_append_some (h : split buf = .ok (some f)) (more : Bytes) :
    split (buf ++ more) = .ok (some f) := split_append h nofun more

theorem split_append_error (h : split buf = .error e) (more : Bytes) :
    split (buf ++ more) = .error e := split_append h nofun more

theorem split_bytes (h : f.body.length ≤ bodyLimit) : split f.bytes = .ok (some f) := by
  have hdeclared : (ofNatBE lengthWidth (lengthWidth + f.body.length)).toIntBE =
      (lengthWidth + f.body.length : Nat) := by
    rw [bodyLimit] at h
    rw [toIntBE_ofNatBE]
    exact Int.bmod_eq_of_le_mul_two (by simp only [lengthWidth, space_four]; omega)
      (by simp only [lengthWidth, space_four] at h ⊢; omega)
  rw [bytes, List.cons_append, split_head (length_ofNatBE _ _), hdeclared, if_neg (by omega),
    Int.toNat_natCast, Nat.add_sub_cancel_left, if_neg (Nat.lt_irrefl _), List.take_length]

theorem split_bytes_append (h : f.body.length ≤ bodyLimit) (more : Bytes) :
    split (f.bytes ++ more) = .ok (some f) := split_append_some (split_bytes h) more

/-- Anything but `none` in front of the end would stand when the rest has come,
but what stands then is as long as the message. -/
theorem split_take (h : f.body.length ≤ bodyLimit) {n : Nat} (hn : n < f.wireLen) :
    split (f.bytes.take n) = .ok none := by
  refine Classical.byContradiction fun hdecided => ?_
  have hwhole := split_append rfl hdecided (f.bytes.drop n)
  rw [List.take_append_drop, split_bytes h] at hwhole
  have hlen := (wireLen_of_split hwhole.symm).2
  rw [List.length_take] at hlen
  omega

/-! ## Receiving -/

/-- What a receiver has that got `frames` before. -/
def Received.behind (frames : List Frame) (r : Received) : Received :=
  ⟨frames ++ r.frames, r.left⟩

/-- Go on receiving with what is left over in front of `chunk`. -/
def Received.feed (r : Received) (chunk : Bytes) : Received :=
  match r.left with
  | .error _ => r
  | .ok left => (receive (left ++ chunk)).behind r.frames

theorem Received.behind_nil (r : Received) : r.behind [] = r := rfl

theorem Received.behind_behind (front back : List Frame) (r : Received) :
    (r.behind back).behind front = r.behind (front ++ back) := by
  rw [behind, behind, behind, List.append_assoc]

theorem Received.feed_behind (frames : List Frame) (r : Received) (chunk : Bytes) :
    (r.behind frames).feed chunk = (r.feed chunk).behind frames := by
  obtain ⟨got, left⟩ := r
  cases left with
  | error e => rfl
  | ok left => exact (behind_behind frames got (receive (left ++ chunk))).symm

theorem receiveOnto_step (done : List Frame) (buf : Bytes) :
    receiveOnto done buf =
      match split buf with
      | .error e => ⟨done.reverse, .error e⟩
      | .ok none => ⟨done.reverse, .ok buf⟩
      | .ok (some f) => receiveOnto (f :: done) (buf.drop f.wireLen) := by
  rw [receiveOnto]
  split
  all_goals next h => rw [h]

theorem receiveOnto_append (done before : List Frame) (buf : Bytes) :
    receiveOnto (done ++ before) buf = (receiveOnto done buf).behind before.reverse := by
  fun_induction receiveOnto done buf with
  | case1 done buf e h =>
    rw [receiveOnto_step, h, List.reverse_append]
    rfl
  | case2 done buf h =>
    rw [receiveOnto_step, h, List.reverse_append]
    rfl
  | case3 done buf f h ih =>
    rw [receiveOnto_step, h]
    exact ih

theorem receive_step (buf : Bytes) :
    receive buf =
      match split buf with
      | .error e => ⟨[], .error e⟩
      | .ok none => ⟨[], .ok buf⟩
      | .ok (some f) => (receive (buf.drop f.wireLen)).behind [f] := by
  rw [receive, receiveOnto_step]
  cases split buf with
  | error e => rfl
  | ok first =>
    cases first with
    | none => rfl
    | some f => exact receiveOnto_append [] [f] _

/-- What is left over begins no whole message. -/
theorem receive_of_none (h : split buf = .ok none) : receive buf = ⟨[], .ok buf⟩ := by
  rw [receive_step, h]

/-- Where the stream is cut does not matter.  The induction takes the messages
that are whole in front of the cut off both sides; what is left over in front of
the cut is looked at again when more has come. -/
theorem receive_append (front back : Bytes) :
    receive (front ++ back) = (receive front).feed back := by
  induction hlen : front.length using Nat.strongRecOn generalizing front with
  | ind n ih =>
    rw [receive_step front]
    cases h : split front with
    | error e => rw [receive_step, split_append_error h]; rfl
    | ok first =>
      cases first with
      | none => exact (Received.behind_nil _).symm
      | some f =>
        obtain ⟨hhead, hwhole⟩ := wireLen_of_split h
        have hshorter : (front.drop f.wireLen).length < n := by
          rw [List.length_drop]
          simp only [headLen] at hhead
          omega
        rw [receive_step, split_append_some h]
        simp only [List.drop_append_of_le_length hwhole]
        rw [ih _ hshorter _ rfl, Received.feed_behind]

/-- A stream fed piece by piece. -/
theorem foldl_feed (chunks : List Bytes) (start : Bytes) :
    chunks.foldl Received.feed (receive start) = receive (start ++ chunks.flatten) := by
  induction chunks generalizing start with
  | nil => rw [List.foldl_nil, List.flatten_nil, List.append_nil]
  | cons chunk chunks ih =>
    rw [List.foldl_cons, ← receive_append, ih, List.flatten_cons, List.append_assoc]

theorem receive_bytes_append (h : f.body.length ≤ bodyLimit) (more : Bytes) :
    receive (f.bytes ++ more) = (receive more).behind [f] := by
  rw [receive_step, split_bytes_append h]
  simp only [← length_bytes f, List.drop_left]

/-! ## Streams of messages -/

/-- The bytes of messages in a row. -/
def stream (frames : List Frame) : Bytes := frames.flatMap bytes

theorem stream_cons (f : Frame) (frames : List Frame) :
    stream (f :: frames) = f.bytes ++ stream frames := rfl

theorem receive_stream {frames : List Frame} (h : ∀ f ∈ frames, f.body.length ≤ bodyLimit)
    (more : Bytes) : receive (stream frames ++ more) = (receive more).behind frames := by
  induction frames with
  | nil => rfl
  | cons f frames ih =>
    have hrest := ih fun g hg => h g (List.mem_cons_of_mem f hg)
    rw [stream_cons, List.append_assoc, receive_bytes_append (h f List.mem_cons_self), hrest]
    exact Received.behind_behind [f] frames (receive more)

/-- Messages written one after the other. -/
theorem forM_send {sent : List (Frame × List Field)}
    (h : ∀ x ∈ sent, Field.encodeAll x.2 = .ok x.1.body) (dst : Bytes) :
    (sent.forM fun x => send x.1.tag x.2) dst = .ok () (dst ++ stream (sent.map (·.1))) := by
  induction sent generalizing dst with
  | nil =>
    rw [List.map_nil, stream, List.flatMap_nil, List.append_nil]
    rfl
  | cons x sent ih =>
    have hrest := ih (fun y hy => h y (List.mem_cons_of_mem x hy)) (dst ++ x.1.bytes)
    rw [List.append_assoc] at hrest
    show EStateM.bind (send x.1.tag x.2) (fun _ => sent.forM fun x => send x.1.tag x.2) dst = _
    rw [EStateM.bind, send_of_ok (h x List.mem_cons_self) dst]
    exact hrest

/-- Framing of the messages `sent`, each with the fields that its body is
written from. -/
structure Framed (sent : List (Frame × List Field)) : Prop where
  written : ∀ dst : Bytes,
    (sent.forM fun x => send x.1.tag x.2) dst = .ok () (dst ++ stream (sent.map (·.1)))
  /-- What is written for a message is as long as the message says. -/
  length_written : ∀ x ∈ sent, ∀ dst : Bytes,
    send x.1.tag x.2 dst = .ok () (dst ++ x.1.bytes) ∧ x.1.bytes.length = x.1.wireLen
  /-- The first message is found, whatever comes behind the messages. -/
  first : ∀ x rest, sent = x :: rest → ∀ more,
    split (stream (sent.map (·.1)) ++ more) = .ok (some x.1)
  /-- A message that is not whole yet is waited for. -/
  waits : ∀ x ∈ sent, ∀ n, n < x.1.wireLen → split (x.1.bytes.take n) = .ok none
  /-- All of them are received, in order. -/
  received : ∀ more,
    receive (stream (sent.map (·.1)) ++ more) = (receive more).behind (sent.map (·.1))
  /-- They are received as well from a stream that comes in pieces. -/
  fed : ∀ (chunks : List Bytes) more, chunks.flatten = stream (sent.map (·.1)) ++ more →
    chunks.foldl Received.feed ⟨[], .ok []⟩ = (receive more).behind (sent.map (·.1))
  /-- A message or an error stays when more bytes come, in front of any buffer. -/
  decided : ∀ buf answer, split buf = answer → answer ≠ .ok none → ∀ more,
    split (buf ++ more) = answer
  /-- A message takes bytes off any buffer, and none that are not there. -/
  advances : ∀ buf f, split buf = .ok (some f) → headLen ≤ f.wireLen ∧ f.wireLen ≤ buf.length

theorem framed_sent (sent : List (Frame × List Field))
    (hsent : ∀ x ∈ sent, Field.encodeAll x.2 = .ok x.1.body ∧ x.1.body.length ≤ bodyLimit) :
    Framed sent := by
  have hbodies : ∀ f ∈ sent.map (·.1), f.body.length ≤ bodyLimit :=
    List.forall_mem_map.2 fun x hx => (hsent x hx).2
  constructor
  case written => exact forM_send fun x hx => (hsent x hx).1
  case length_written => exact fun x hx dst => ⟨send_of_ok (hsent x hx).1 dst, length_bytes x.1⟩
  case first =>
    rintro x rest rfl more
    rw [List.map_cons, stream_cons, List.append_assoc]
    exact split_bytes_append (hsent x List.mem_cons_self).2 _
  case waits => exact fun x hx n hn => split_take (hsent x hx).2 hn
  case received => exact receive_stream hbodies
  case fed =>
    intro chunks more hchunks
    have hnothing : receive [] = ⟨[], .ok []⟩ := receive_of_none (split_short (by decide))
    rw [← hnothing, foldl_feed, List.nil_append, hchunks, receive_stream hbodies]
  case decided => exact fun buf answer h hanswer more => split_append h hanswer more
  case advances => exact fun buf f h => wireLen_of_split h

/-- Two messages and the beginning of a third one. -/
theorem framed_two :
    Field.encodeAll [.text "ab", .u16 7] = .ok [97, 98, 0, 0, 7] ∧
    Field.encodeAll [.u32 305419896] = .ok [18, 52, 86, 120] ∧
    receive [81, 0, 0, 0, 9, 97, 98, 0, 0, 7, 88, 0, 0, 0, 8, 18, 52, 86, 120, 86, 0] =
      ⟨[⟨81, [97, 98, 0, 0, 7]⟩, ⟨88, [18, 52, 86, 120]⟩], .ok [86, 0]⟩ := by
  have hfirst : Field.encodeAll [.text "ab", .u16 7] = .ok [97, 98, 0, 0, 7] := by cbv
  have hsecond : Field.encodeAll [.u32 305419896] = .ok [18, 52, 86, 120] := by cbv
  have hsent := framed_sent [(⟨81, [97, 98, 0, 0, 7]⟩, [.text "ab", .u16 7]),
    (⟨88, [18, 52, 86, 120]⟩, [.u32 305419896])]
    (by simp [hfirst, hsecond, bodyLimit, lengthWidth])
  have hrest : receive [86, 0] = ⟨[], .ok [86, 0]⟩ := receive_of_none (split_short (by decide))
  refine ⟨hfirst, hsecond, ?_⟩
  have hreceived := hsent.received [86, 0]
  rw [hrest] at hreceived
  exact hreceived

end Frame
end SeriesWire
