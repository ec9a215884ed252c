import BcNode.P2p.Wire

/-!
# Putting messages together

The `data` listener of a connection.  A message carries no length; it arrives in
chunks of 1382 characters, and the listener takes it for finished when a chunk has
any other length.  `Receiver` is the buffer it keeps for the address of the
connection together with the texts it has passed to `peerDataHandler`.

`deliverAll_iff` says for which messages the guess is right: those whose last chunk
is not a full one.
-/

namespace BcNode.P2p

/-- The length of a full chunk. -/
def CHUNK : Nat := 1382

/-- A buffer off the socket: how many bytes it has, and its text. -/
structure Data where
  length : Nat
  toText : Text
  deriving DecidableEq, Repr

/-- `_ds[address]`, with `none` for `false`, and the calls made so far. -/
structure Receiver where
  buffer : Option Text := none
  calls : List Text := []
  deriving DecidableEq, Repr

/-- The listener of `data`.  Without data and without a buffer it reads the length
of nothing; the exception changes nothing. -/
def Receiver.onData (receiver : Receiver) (data : Option Data) : Receiver :=
  match data, receiver.buffer with
  | none, some remaining => { buffer := none, calls := receiver.calls ++ [remaining] }
  | none, none => receiver
  | some data, buffer =>
      if data.length > 95000 then receiver
      else if buffer.any (jsLength · > 95000) then { receiver with buffer := none }
      else
        let chunk := data.toText
        match buffer with
        | none =>
            if jsLength chunk = CHUNK then { receiver with buffer := some chunk }
            else { receiver with calls := receiver.calls ++ [chunk] }
        | some pending =>
            if jsLength chunk = CHUNK then { receiver with buffer := some (pending ++ chunk) }
            else { buffer := none, calls := receiver.calls ++ [pending ++ chunk] }

/-- A chunk of ASCII as it comes off the socket. -/
def asciiData (chunk : Text) : Data := { length := chunk.length, toText := chunk }

/-- Chunks arriving one after another. -/
def Receiver.feed (receiver : Receiver) (chunks : List Text) : Receiver :=
  chunks.foldl (fun receiver chunk => receiver.onData (some (asciiData chunk))) receiver

/-! ## Messages in chunks -/

/-- A message the way it is delivered. -/
structure Delivery where
  full : List Text
  last : Text
  full_length : ∀ chunk ∈ full, chunk.length = CHUNK
  last_pos : 1 ≤ last.length
  last_le : last.length ≤ CHUNK

namespace Delivery

def message (d : Delivery) : Text := d.full.flatten ++ d.last

def chunks (d : Delivery) : List Text := d.full ++ [d.last]

/-- Whatever is not empty can be delivered. -/
theorem exists_of_message (text : Text) (h : 1 ≤ text.length) :
    ∃ d : Delivery, d.message = text := by
  induction hn : text.length using Nat.strongRecOn generalizing text with
  | ind n ih =>
      by_cases hle : text.length ≤ CHUNK
      · exact ⟨⟨[], text, nofun, h, hle⟩, List.nil_append text⟩
      · have hrest : 1 ≤ (text.drop CHUNK).length := by
          rw [List.length_drop]
          omega
        have hlt : (text.drop CHUNK).length < n := by
          rw [List.length_drop, hn, CHUNK]
          rw [CHUNK] at hle
          omega
        obtain ⟨d, hd⟩ := ih _ hlt (text.drop CHUNK) hrest rfl
        have hfirst : (text.take CHUNK).length = CHUNK := by
          rw [List.length_take]
          omega
        refine ⟨⟨text.take CHUNK :: d.full, d.last, ?_, d.last_pos, d.last_le⟩, ?_⟩
        · exact List.forall_mem_cons.2 ⟨hfirst, d.full_length⟩
        · show (text.take CHUNK :: d.full).flatten ++ d.last = text
          rw [List.flatten_cons, List.append_assoc]
          exact (congrArg (text.take CHUNK ++ ·) hd).trans (List.take_append_drop ..)

theorem length_flatten_full {full : List Text} (h : ∀ chunk ∈ full, chunk.length = CHUNK) :
    full.flatten.length = CHUNK * full.length := by
  induction full with
  | nil => rfl
  | cons chunk full ih =>
      obtain ⟨hchunk, hfull⟩ := List.forall_mem_cons.1 h
      rw [List.flatten_cons, List.length_append, hchunk, ih hfull, List.length_cons,
        Nat.mul_add, Nat.mul_one, Nat.add_comm]

/-- The last chunk is a full one exactly when the length is a multiple. -/
theorem last_length_iff (d : Delivery) :
    d.last.length = CHUNK ↔ CHUNK ∣ d.message.length := by
  have hlength : d.message.length = CHUNK * d.full.length + d.last.length := by
    rw [message, List.length_append, length_flatten_full d.full_length]
  have hpos := d.last_pos
  have hle := d.last_le
  rw [hlength, Nat.dvd_add_right (Nat.dvd_mul_right ..)]
  constructor
  · intro h
    exact ⟨1, by rw [Nat.mul_one, h]⟩
  · intro h
    exact Nat.le_antisymm hle (Nat.le_of_dvd hpos h)

end Delivery

/-! ## What the listener makes of them -/

/-- The text waiting in the buffer. -/
def Receiver.pending (receiver : Receiver) : Text := receiver.buffer.getD []

/-- One chunk: a full one is put to the buffer, any other one ends the message. -/
theorem Receiver.onData_chunk (receiver : Receiver) {chunk : Text} (hascii : Ascii chunk)
    (hlength : chunk.length ≤ CHUNK) (hpending : jsLength receiver.pending ≤ 95000) :
    receiver.onData (some (asciiData chunk)) =
      if chunk.length = CHUNK then
        { receiver with buffer := some (receiver.pending ++ chunk) }
      else { buffer := none, calls := receiver.calls ++ [receiver.pending ++ chunk] } := by
  have hdata : ¬ chunk.length > 95000 := by
    rw [CHUNK] at hlength
    omega
  rcases receiver with ⟨_ | pending, calls⟩
  · simp only [onData, asciiData, hdata, if_false, Option.any_none, Bool.false_eq_true,
      hascii.jsLength, Receiver.pending, Option.getD_none, List.nil_append]
  · have hshort : ¬ jsLength pending > 95000 := by
      simp only [Receiver.pending, Option.getD_some] at hpending
      omega
    simp only [onData, asciiData, hdata, if_false, Option.any_some, hshort, decide_false,
      Bool.false_eq_true, hascii.jsLength, Receiver.pending, Option.getD_some]

/-- Full chunks pile up. -/
theorem Receiver.feed_full {full : List Text} (hlength : ∀ chunk ∈ full, chunk.length = CHUNK)
    (hascii : ∀ chunk ∈ full, Ascii chunk) (receiver : Receiver)
    (hsize : jsLength (receiver.pending ++ full.flatten) ≤ 95000) :
    (receiver.feed full).pending = receiver.pending ++ full.flatten ∧
      (receiver.feed full).calls = receiver.calls := by
  induction full generalizing receiver with
  | nil => exact ⟨(List.append_nil _).symm, rfl⟩
  | cons chunk full ih =>
      obtain ⟨hchunk, hfull⟩ := List.forall_mem_cons.1 hlength
      obtain ⟨hchunkAscii, hfullAscii⟩ := List.forall_mem_cons.1 hascii
      rw [List.flatten_cons, ← List.append_assoc] at hsize ⊢
      have hpending : jsLength receiver.pending ≤ 95000 := by
        rw [List.append_assoc, jsLength_append] at hsize
        omega
      have hstep := receiver.onData_chunk hchunkAscii (by omega) hpending
      rw [if_pos hchunk] at hstep
      have hrest := ih hfull hfullAscii (receiver.onData (some (asciiData chunk)))
        (by rw [hstep]; exact hsize)
      rw [hstep] at hrest
      rw [Receiver.feed, List.foldl_cons, hstep]
      exact hrest

/-- **One message.**  With nothing in the buffer a message is handed over by its last
chunk, unless that is a full one; then it stays in the buffer. -/
theorem Receiver.feed_delivery {receiver : Receiver} (hbuffer : receiver.buffer = none)
    {d : Delivery} (hascii : Ascii d.message) (hlength : d.message.length ≤ 94999) :
    receiver.feed d.chunks =
      if d.last.length = CHUNK then { receiver with buffer := some d.message }
      else { receiver with calls := receiver.calls ++ [d.message] } := by
  have hpending : receiver.pending = [] := by rw [Receiver.pending, hbuffer]; rfl
  have hfullAscii : ∀ chunk ∈ d.full, Ascii chunk := fun chunk hchunk c hc =>
    hascii c (List.mem_append_left _ (List.mem_flatten_of_mem hchunk hc))
  have hlastAscii : Ascii d.last := fun c hc => hascii c (List.mem_append_right _ hc)
  have hsize : jsLength d.full.flatten ≤ 95000 := by
    have hmessage := hascii.jsLength
    rw [Delivery.message, jsLength_append] at hmessage
    rw [Delivery.message] at hlength
    omega
  obtain ⟨hfull, hcalls⟩ := Receiver.feed_full d.full_length hfullAscii receiver
    (by rw [hpending]; exact hsize)
  rw [hpending, List.nil_append] at hfull
  have hlast := (receiver.feed d.full).onData_chunk hlastAscii d.last_le
    (by rw [hfull]; exact hsize)
  rw [hfull, hcalls] at hlast
  rw [Receiver.feed, Delivery.chunks, List.foldl_append]
  refine hlast.trans ?_
  split
  · rfl
  · rw [← hbuffer]
    rfl

/-- The receiver after a number of messages. -/
def deliverAll (receiver : Receiver) (ds : List Delivery) : Receiver :=
  ds.foldl (fun receiver d => receiver.feed d.chunks) receiver

/-- **When the listener keeps up.**  After every message all texts so far, and no
others, have been handed over: that is so exactly when no message is as long as a
number of full chunks. -/
theorem deliverAll_iff {ds : List Delivery} (hascii : ∀ d ∈ ds, Ascii d.message)
    (hlength : ∀ d ∈ ds, d.message.length ≤ 94999) :
    (∀ k, (deliverAll {} (ds.take k)).calls = (ds.take k).map Delivery.message) ↔
      ∀ d ∈ ds, ¬ CHUNK ∣ d.message.length := by
  -- the same from any receiver with nothing in its buffer
  have hgeneral : ∀ receiver : Receiver, receiver.buffer = none →
      ((∀ k, (deliverAll receiver (ds.take k)).calls =
          receiver.calls ++ (ds.take k).map Delivery.message) ↔
        ∀ d ∈ ds, ¬ CHUNK ∣ d.message.length) := by
    induction ds with
    | nil =>
        intro receiver _
        simp [deliverAll]
    | cons d ds ih =>
        intro receiver hbuffer
        obtain ⟨hd, hds⟩ := List.forall_mem_cons.1 hascii
        obtain ⟨hdLength, hdsLength⟩ := List.forall_mem_cons.1 hlength
        have hfeed := Receiver.feed_delivery hbuffer hd hdLength
        rw [List.forall_mem_cons, ← d.last_length_iff]
        by_cases hlast : d.last.length = CHUNK
        · rw [if_pos hlast] at hfeed
          -- one message has arrived and no call has been made
          have hstuck : ¬ ∀ k, (deliverAll receiver ((d :: ds).take k)).calls =
              receiver.calls ++ ((d :: ds).take k).map Delivery.message := by
            intro hall
            have hone := hall 1
            simp [deliverAll, hfeed] at hone
          exact iff_of_false hstuck fun h => h.1 hlast
        · rw [if_neg hlast] at hfeed
          have hrest := ih hds hdsLength (receiver.feed d.chunks) (by rw [hfeed]; exact hbuffer)
          rw [and_iff_right hlast, ← hrest, hfeed]
          constructor
          · intro hall k
            have hnext := hall (k + 1)
            simpa [deliverAll, hfeed] using hnext
          · intro hall k
            cases k with
            | zero => simp [deliverAll]
            | succ k =>
                have hnext := hall k
                simpa [deliverAll, hfeed] using hnext
  simpa using hgeneral {} rfl

/-- A message of one full chunk. -/
def sampleFull : Delivery where
  full := []
  last := List.replicate CHUNK 'a'
  full_length := nofun
  last_pos := by rw [List.length_replicate]; decide
  last_le := by rw [List.length_replicate]

/-- A short one. -/
def sampleShort : Delivery where
  full := []
  last := "0009R01[*]3[*]5".toList
  full_length := nofun
  last_pos := by decide
  last_le := by decide

/-- Two full chunks and a part of one. -/
def sampleLong : Delivery where
  full := [List.replicate CHUNK 'a', List.replicate CHUNK 'b']
  last := List.replicate 7 'c'
  full_length := by
    intro chunk hchunk
    rcases List.mem_pair.1 hchunk with rfl | rfl
    · exact List.length_replicate
    · exact List.length_replicate
  last_pos := by rw [List.length_replicate]; decide
  last_le := by rw [List.length_replicate]; decide

theorem deliverAll_iff_sample :
    (∀ k, (deliverAll {} ([sampleLong, sampleShort, sampleLong].take k)).calls =
        ([sampleLong, sampleShort, sampleLong].take k).map Delivery.message) ↔
      ∀ d ∈ [sampleLong, sampleShort, sampleLong], ¬ CHUNK ∣ d.message.length :=
  deliverAll_iff (by decide +kernel) (by decide +kernel)

/-- The first message waits for the second, and the two come out as one. -/
theorem deliverAll_sample :
    (deliverAll {} [sampleFull]).calls = [] ∧
    (deliverAll {} [sampleFull, sampleShort]).calls =
      [sampleFull.message ++ sampleShort.message] := by
  refine ⟨?_, ?_⟩
  · decide +kernel
  · decide +kernel

end BcNode.P2p
