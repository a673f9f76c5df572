import LinuxNote.Base.CBuffer
import Mathlib.Data.Stream.Init

/-!
# A device that delivers a message

The kernel module `module_ex.c` has a message in a buffer and a pointer to what is read next.  A
read that starts at the end of the message goes back to its start, and one that gets there
stops.

## Main definitions

* `Message` — a message that fits into the buffer.
* `moduleExInit`, `readLoop`, `deviceRead`, `reads` — the module, and reads one after the other.
* `start`, `ahead` — where a read starts, and all that is delivered from there.

## Main results

* `readLoop_eq`, `deviceRead_eq` — what one read delivers.
* `reads_ok` — what the reads have delivered and what is ahead of them is the message again and
  again.
* `reads_count` — how much each of them has delivered.
* `stream_right` — **the reads deliver the message again and again**, each of them as much as it
  is asked for or as there is up to the end.
-/

namespace LinuxNote.ModuleEx

open CBuffer

/-! ### The module -/

def MSG_BUFFER_LEN : ℕ := 15

/-- A message that the module can be built with: it fits into the buffer with its terminating NUL,
and has something to read. -/
structure Message where
  text : List Char
  ne_nil : text ≠ []
  nul_notMem : '\x00' ∉ text
  fits : text.length < MSG_BUFFER_LEN

def EXAMPLE_MSG : Message where
  text := "Hello, World!\n".toList
  ne_nil := by decide
  nul_notMem := by decide
  fits := by decide

/-- The static variables that a read uses: `msg_ptr` is an index into `msg_buffer`. -/
structure State where
  msgBuffer : Buffer MSG_BUFFER_LEN
  msgPtr : ℕ
  majorNum : ℤ

/-- What a read returns, and what it has put into the buffer of the user. -/
structure Reply where
  bytesRead : ℕ
  buffer : List Char

/-- A static buffer. -/
def zeroed : Buffer MSG_BUFFER_LEN :=
  ⟨List.replicate MSG_BUFFER_LEN '\x00', List.length_replicate⟩

/-- `module_ex_init` with the result of `register_chrdev`, which is the major number or an error:
the state that the module starts in, and what the kernel is told. -/
def moduleExInit (msg : List Char) (majorNum : ℤ) : Option (State × ℤ) := do
  let msgBuffer ← zeroed.strncpy msg MSG_BUFFER_LEN
  some (⟨msgBuffer, 0, majorNum⟩, if majorNum < 0 then majorNum else 0)

/-- `while (len && *msg_ptr)`, where `put_user` succeeds: one byte after the other, until the
message ends or as many as the user asked for have been put. -/
def readLoop : ℕ → State → Reply → Option (State × Reply)
  | 0, s, r => some (s, r)
  | len + 1, s, r => do
    let c ← s.msgBuffer.read s.msgPtr
    if c = '\x00' then some (s, r)
    else readLoop len { s with msgPtr := s.msgPtr + 1 } ⟨r.bytesRead + 1, r.buffer ++ [c]⟩

/-- `device_read`.  The message is not followed by an end of file: a read at the NUL goes back to
the beginning and delivers from there. -/
def deviceRead (s : State) (len : ℕ) : Option (State × Reply) := do
  let c ← s.msgBuffer.read s.msgPtr
  -- at the end, back to the beginning
  let s := if c = '\x00' then { s with msgPtr := 0 } else s
  readLoop len s ⟨0, []⟩

/-- Reads one after the other. -/
def reads : List ℕ → State → Option (State × List Reply)
  | [], s => some (s, [])
  | len :: lens, s => do
    let (s, r) ← deviceRead s len
    let (s, rs) ← reads lens s
    some (s, r :: rs)

/-- All that has been delivered. -/
def delivered (rs : List Reply) : List Char := rs.flatMap Reply.buffer

/-! ### One read -/

section Read

variable {m : Message}

/-- The message is in the buffer, and the pointer points into it or at its end.  This is the
invariant that keeps every access inside the buffer. -/
structure State.PointsInto (s : State) (m : Message) : Prop where
  holds : s.msgBuffer.Holds m.text
  msgPtr_le : s.msgPtr ≤ m.text.length

/-- At the end of the message there is the terminating NUL. -/
theorem State.PointsInto.read_end {s : State} (h : s.PointsInto m)
    (hend : s.msgPtr = m.text.length) : s.msgBuffer.read s.msgPtr = some '\x00' := by
  rw [hend]
  exact h.holds.read_length

/-- Where a read starts: at the pointer, or at the beginning if the reads before it have come to
the end. -/
def start (m : Message) (msgPtr : ℕ) : ℕ := if msgPtr = m.text.length then 0 else msgPtr

/-- The bytes between the start of a read and the end of the message, which no read goes beyond. -/
def bytesLeft (m : Message) (msgPtr : ℕ) : ℕ := m.text.length - start m msgPtr

theorem start_lt {msgPtr : ℕ} (h : msgPtr ≤ m.text.length) : start m msgPtr < m.text.length := by
  have hpos : 0 < m.text.length := List.length_pos_iff.mpr m.ne_nil
  rw [start]
  split
  · exact hpos
  · omega

/-- Where the next read starts is told by the number of the bytes that have been delivered. -/
theorem start_add {msgPtr n count : ℕ} (h : start m msgPtr = n % m.text.length)
    (hcount : count ≤ bytesLeft m msgPtr) :
    start m (start m msgPtr + count) = (n + count) % m.text.length := by
  have hpos : 0 < m.text.length := List.length_pos_iff.mpr m.ne_nil
  have hlt := Nat.mod_lt n hpos
  rw [bytesLeft, h] at hcount
  rw [h, ← Nat.mod_add_mod, start]
  split
  · next hend => rw [hend, Nat.mod_self]
  · next hend =>
    have hbelow : n % m.text.length + count < m.text.length := by omega
    exact (Nat.mod_eq_of_lt hbelow).symm

theorem bytesLeft_pos {msgPtr : ℕ} (h : msgPtr ≤ m.text.length) : 0 < bytesLeft m msgPtr :=
  Nat.sub_pos_of_lt (start_lt h)

/-- **The loop** delivers as much as there is, up to the length, by induction on the length. -/
theorem readLoop_eq (len : ℕ) {s : State} (h : s.PointsInto m) (r : Reply) :
    readLoop len s r =
      some ({ s with msgPtr := s.msgPtr + min len (m.text.length - s.msgPtr) },
        ⟨r.bytesRead + min len (m.text.length - s.msgPtr),
          r.buffer ++ (m.text.drop s.msgPtr).take len⟩) := by
  induction len generalizing s r with
  | zero => simp [readLoop]
  | succ len ih =>
    rw [readLoop]
    rcases Nat.lt_or_eq_of_le h.msgPtr_le with hlt | heq
    · obtain ⟨hread, hne⟩ := h.holds.read_of_lt hlt
      have hnext : State.PointsInto { s with msgPtr := s.msgPtr + 1 } m := ⟨h.holds, hlt⟩
      have hcount : min (len + 1) (m.text.length - s.msgPtr) =
          min len (m.text.length - (s.msgPtr + 1)) + 1 := by omega
      rw [hread, Option.bind_eq_bind, Option.bind_some, if_neg hne, ih hnext, hcount,
        List.drop_eq_getElem_cons hlt, List.take_succ_cons]
      simp only [Nat.add_assoc, Nat.add_comm 1, List.append_assoc, List.singleton_append]
    · rw [h.read_end heq, Option.bind_eq_bind, Option.bind_some, if_pos rfl, ← heq, Nat.sub_self,
        Nat.min_zero, List.drop_of_length_le (Nat.le_of_eq heq.symm), List.take_nil,
        List.append_nil]
      rfl

/-- **A read** starts in the message and delivers up to its end, or as much as it is asked for; it
never faults while the pointer points into the message. -/
theorem deviceRead_eq {s : State} (h : s.PointsInto m) (len : ℕ) :
    deviceRead s len =
      some ({ s with msgPtr := start m s.msgPtr + min len (bytesLeft m s.msgPtr) },
        ⟨min len (bytesLeft m s.msgPtr), (m.text.drop (start m s.msgPtr)).take len⟩) := by
  rw [deviceRead, bytesLeft, start]
  rcases Nat.lt_or_eq_of_le h.msgPtr_le with hlt | heq
  · obtain ⟨hread, hne⟩ := h.holds.read_of_lt hlt
    rw [hread, Option.bind_eq_bind, Option.bind_some, if_neg hne, if_neg (Nat.ne_of_lt hlt),
      readLoop_eq len h, Nat.zero_add]
    rfl
  · -- back to the beginning
    have hstart : State.PointsInto { s with msgPtr := 0 } m := ⟨h.holds, Nat.zero_le _⟩
    rw [h.read_end heq, Option.bind_eq_bind, Option.bind_some, if_pos rfl, if_pos heq,
      readLoop_eq len hstart, Nat.zero_add]
    rfl

/-- The state after `module_ex_init`. -/
theorem moduleExInit_ok (m : Message) (majorNum : ℤ) :
    ∃ s code, moduleExInit m.text majorNum = some (s, code) ∧ s.PointsInto m ∧ s.msgPtr = 0 := by
  obtain ⟨msgBuffer, hstrncpy, hholds⟩ := zeroed.strncpy_holds m.nul_notMem m.fits
  refine ⟨⟨msgBuffer, 0, majorNum⟩, if majorNum < 0 then majorNum else 0, ?_,
    ⟨hholds, Nat.zero_le _⟩, rfl⟩
  rw [moduleExInit, hstrncpy]
  rfl

end Read

/-! ### The stream -/

section Stream

variable {m : Message}

/-- The message again and again. -/
def Message.repeated (m : Message) : Stream' Char := Stream'.cycle m.text m.ne_nil

/-- What is ahead of the pointer: the rest of the message, and behind it the message again and
again. -/
def ahead (m : Message) (msgPtr : ℕ) : Stream' Char := m.text.drop msgPtr ++ₛ m.repeated

theorem append_repeated (m : Message) : m.text ++ₛ m.repeated = m.repeated :=
  (Stream'.cycle_eq m.text m.ne_nil).symm

theorem ahead_zero (m : Message) : ahead m 0 = m.repeated := append_repeated m

/-- From the end of the message it goes on at its start. -/
theorem ahead_start (m : Message) (msgPtr : ℕ) : ahead m (start m msgPtr) = ahead m msgPtr := by
  rw [start]
  split
  · next h =>
    rw [ahead_zero, h, ahead, List.drop_length, Stream'.nil_append_stream]
  · rfl

/-- A part of the message, and what is ahead behind it. -/
theorem take_append_ahead (m : Message) (msgPtr len : ℕ) :
    (m.text.drop msgPtr).take len ++ₛ ahead m (msgPtr + min len (m.text.length - msgPtr)) =
      ahead m msgPtr := by
  rw [ahead, ahead, ← Stream'.append_append_stream, ← List.drop_drop, ← List.length_drop]
  rcases Nat.le_total len (m.text.drop msgPtr).length with h | h
  · rw [Nat.min_eq_left h, List.take_append_drop]
  · rw [Nat.min_eq_right h, List.drop_length, List.append_nil, List.take_of_length_le h]

/-- What a read of a length does: the pointer stays in the message, and what is delivered is the
next part of the stream. -/
structure Delivers (m : Message) (len : ℕ) (s : State) (r : Reply) (s' : State) : Prop where
  pointsInto : s'.PointsInto m
  msgPtr : s'.msgPtr = start m s.msgPtr + r.bytesRead
  bytesRead : r.bytesRead = min len (bytesLeft m s.msgPtr)
  length_buffer : r.buffer.length = r.bytesRead
  ahead : r.buffer ++ₛ ahead m s'.msgPtr = ahead m s.msgPtr

/-- One read. -/
theorem deviceRead_ok {s : State} (h : s.PointsInto m) (len : ℕ) :
    ∃ s' r, deviceRead s len = some (s', r) ∧ Delivers m len s r s' := by
  have hlt := start_lt h.msgPtr_le
  refine ⟨_, _, deviceRead_eq h len, ⟨h.holds, ?_⟩, rfl, rfl, ?_, ?_⟩
  · show start m s.msgPtr + min len (bytesLeft m s.msgPtr) ≤ m.text.length
    rw [bytesLeft]
    omega
  · rw [List.length_take, List.length_drop, bytesLeft]
  · rw [bytesLeft, take_append_ahead, ahead_start]

/-- **The reads**, by induction on them: what they deliver and what is ahead of them is what was
ahead. -/
theorem reads_ok (lens : List ℕ) {s : State} (h : s.PointsInto m) :
    ∃ s' rs, reads lens s = some (s', rs) ∧ s'.PointsInto m ∧ rs.length = lens.length ∧
      delivered rs ++ₛ ahead m s'.msgPtr = ahead m s.msgPtr := by
  induction lens generalizing s with
  | nil => exact ⟨s, [], rfl, h, rfl, rfl⟩
  | cons len lens ih =>
    obtain ⟨s₁, r, hread, hdelivers⟩ := deviceRead_ok h len
    obtain ⟨s₂, rs, hreads, hpoints, hlength, hahead⟩ := ih hdelivers.pointsInto
    refine ⟨s₂, r :: rs, ?_, hpoints, by rw [List.length_cons, hlength, List.length_cons], ?_⟩
    · simp only [reads, hread, hreads, Option.bind_eq_bind, Option.bind_some]
    · calc delivered (r :: rs) ++ₛ ahead m s₂.msgPtr
          = r.buffer ++ₛ (delivered rs ++ₛ ahead m s₂.msgPtr) :=
            Stream'.append_append_stream r.buffer (delivered rs) _
        _ = ahead m s.msgPtr := by rw [hahead, hdelivers.ahead]

/-- **How much each read delivers**, by induction on the reads, before which `n` bytes have been
delivered: as much as it is asked for, or as there is up to the end of the message. -/
theorem reads_count {lens : List ℕ} {s s' : State} (h : s.PointsInto m) {n : ℕ}
    (hn : start m s.msgPtr = n % m.text.length) {rs : List Reply}
    (hreads : reads lens s = some (s', rs)) {i len : ℕ} {r : Reply} (hlen : lens[i]? = some len)
    (hr : rs[i]? = some r) : r.buffer.length = r.bytesRead ∧ r.bytesRead =
      min len (m.text.length - (n + (delivered (rs.take i)).length) % m.text.length) := by
  -- by induction on the reads, from any place in the message
  induction lens generalizing s n rs i with
  | nil => simp at hlen
  | cons len₁ lens ih =>
    obtain ⟨s₁, r₁, hread, hdelivers⟩ := deviceRead_ok h len₁
    rw [reads, hread, Option.bind_eq_bind, Option.bind_some] at hreads
    obtain ⟨⟨s₂, rs₂⟩, hrest, hsome⟩ := Option.bind_eq_some_iff.mp hreads
    obtain ⟨rfl, rfl⟩ : s₂ = s' ∧ r₁ :: rs₂ = rs := by simpa using hsome
    have hcount := hdelivers.bytesRead
    cases i with
    | zero =>
      obtain rfl : len₁ = len := by simpa using hlen
      obtain rfl : r₁ = r := by simpa using hr
      refine ⟨hdelivers.length_buffer, ?_⟩
      rw [hcount, bytesLeft, hn]
      rfl
    | succ i =>
      have hnext : start m s₁.msgPtr = (n + r₁.bytesRead) % m.text.length := by
        rw [hdelivers.msgPtr]
        exact start_add hn (by omega)
      obtain ⟨hbuffer, hbytes⟩ := ih hdelivers.pointsInto hnext hrest hlen hr
      refine ⟨hbuffer, ?_⟩
      have hcons : (delivered (r₁ :: rs₂.take i)).length =
          r₁.bytesRead + (delivered (rs₂.take i)).length := by
        rw [delivered, List.flatMap_cons, List.length_append, hdelivers.length_buffer]
        rfl
      rw [hbytes, List.take_succ_cons, hcons, Nat.add_assoc]

/-- What stands in front of a stream is its start. -/
theorem eq_take_of_append {l : List Char} {a b : Stream' Char} (h : l ++ₛ a = b) :
    l = b.take l.length := by
  rw [← h, Stream'.take_append_of_le_length _ l a (Nat.le_refl _), List.take_length]

/-- **The reads deliver the message again and again**: each of them delivers as much as it is asked
for or as there is up to the end of the message, where it starts with what follows the bytes that
have been delivered before it.  The pointer stays in the message, so that the same can be said of
any further read. -/
theorem stream_right (m : Message) (majorNum : ℤ) (lens : List ℕ) :
    ∃ s₀ code s rs, moduleExInit m.text majorNum = some (s₀, code) ∧
      reads lens s₀ = some (s, rs) ∧ s.PointsInto m ∧
      delivered rs = m.repeated.take (delivered rs).length ∧
      rs.length = lens.length ∧
      (∀ (i len : ℕ) (r : Reply), lens[i]? = some len → rs[i]? = some r →
        r.buffer.length = r.bytesRead ∧ r.bytesRead =
          min len (m.text.length - (delivered (rs.take i)).length % m.text.length)) ∧
      ∀ len, ∃ s' r, deviceRead s len = some (s', r) ∧ r.buffer.length = r.bytesRead ∧
        r.bytesRead = min len (bytesLeft m s.msgPtr) ∧ (r.bytesRead = 0 → len = 0) := by
  obtain ⟨s₀, code, hinit, hpoints₀, hzero⟩ := moduleExInit_ok m majorNum
  obtain ⟨s, rs, hreads, hpoints, hlength, hahead⟩ := reads_ok lens hpoints₀
  rw [hzero, ahead_zero] at hahead
  have hstart : start m s₀.msgPtr = 0 % m.text.length := by
    rw [hzero, start, Nat.zero_mod]
    split <;> rfl
  have hcounts (i len : ℕ) (r : Reply) (hlen : lens[i]? = some len) (hr : rs[i]? = some r) :
      r.buffer.length = r.bytesRead ∧ r.bytesRead =
        min len (m.text.length - (delivered (rs.take i)).length % m.text.length) := by
    rw [← Nat.zero_add (delivered (rs.take i)).length]
    exact reads_count hpoints₀ hstart hreads hlen hr
  refine ⟨s₀, code, s, rs, hinit, hreads, hpoints, eq_take_of_append hahead, hlength, hcounts,
    fun len => ?_⟩
  obtain ⟨s', r, hread, hdelivers⟩ := deviceRead_ok hpoints len
  refine ⟨s', r, hread, hdelivers.length_buffer, hdelivers.bytesRead, fun hnone => ?_⟩
  have hpos := bytesLeft_pos hpoints.msgPtr_le
  have hcount := hdelivers.bytesRead
  omega

example : (((moduleExInit EXAMPLE_MSG.text 240).bind fun s => reads [5, 20, 3] s.1).map fun r =>
    r.2.map Reply.buffer) = some ["Hello".toList, ", World!\n".toList, "Hel".toList] := by
  decide

end Stream

end LinuxNote.ModuleEx
