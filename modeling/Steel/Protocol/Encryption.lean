import Mathlib.Data.Nat.Notation

/-!
# Encrypted streams

Bytes are encrypted one by one, and the cipher moves on with each of them. A byte that the stream
below refuses is kept in its encrypted form, and is the next one to be written.
-/

namespace Steel

open List

/-! ### Byte ciphers -/

/-- A cipher with a state that moves on with every byte. -/
abbrev ByteCipher (σ : Type) := σ → UInt8 → UInt8 × σ

namespace ByteCipher

variable {σ δ : Type} (cipher : ByteCipher σ)

def apply : σ → List UInt8 → List UInt8 × σ
  | state, [] => ([], state)
  | state, byte :: rest =>
    let (out, state) := cipher state byte
    let (outs, state) := apply state rest
    (out :: outs, state)

theorem apply_append (state : σ) (bytes more : List UInt8) :
    cipher.apply state (bytes ++ more) =
      ((cipher.apply state bytes).1 ++ (cipher.apply (cipher.apply state bytes).2 more).1,
        (cipher.apply (cipher.apply state bytes).2 more).2) := by
  induction bytes generalizing state with
  | nil => rfl
  | cons byte rest ih => simp only [cons_append, apply, ih]

/-- Related states stay related, and the second cipher takes back what the first one does. -/
structure Inverts (encrypt : ByteCipher σ) (decrypt : ByteCipher δ) (related : σ → δ → Prop) :
    Prop where
  decrypt_eq : ∀ state other byte, related state other →
    (decrypt other (encrypt state byte).1).1 = byte
  related_next : ∀ state other byte, related state other →
    related (encrypt state byte).2 (decrypt other (encrypt state byte).1).2

theorem Inverts.apply {encrypt : ByteCipher σ} {decrypt : ByteCipher δ} {related : σ → δ → Prop}
    (h : Inverts encrypt decrypt related) {state : σ} {other : δ} (hrelated : related state other)
    (bytes : List UInt8) : (decrypt.apply other (encrypt.apply state bytes).1).1 = bytes := by
  induction bytes generalizing state other with
  | nil => rfl
  | cons byte rest ih =>
    simp only [ByteCipher.apply, h.decrypt_eq state other byte hrelated]
    rw [ih (h.related_next state other byte hrelated)]

end ByteCipher

/-! ### Writing -/

inductive WritePoll where
  | pending
  | ready (result : Except String ℕ)

/-- `accepted` is what the stream below has taken, after `polls` writes to it. -/
structure StreamEncryptor (σ : Type) where
  cipher : σ
  lastUnwrittenEncryptedByte : Option UInt8
  accepted : List UInt8
  polls : ℕ

namespace StreamEncryptor

variable {σ : Type} (encrypt : ByteCipher σ) (write : ℕ → WritePoll)

def new (cipher : σ) : StreamEncryptor σ := ⟨cipher, none, [], 0⟩

def nextOut (stream : StreamEncryptor σ) (block : UInt8) : UInt8 × σ :=
  match stream.lastUnwrittenEncryptedByte with
  | some out => (out, stream.cipher)
  | none => encrypt stream.cipher block

def pollWriteFrom : List UInt8 → ℕ → StreamEncryptor σ → WritePoll × StreamEncryptor σ
  | [], totalWritten, stream => (.ready (.ok totalWritten), stream)
  | block :: rest, totalWritten, stream =>
    let (out, cipher) := stream.nextOut encrypt block
    match write stream.polls with
    | .pending =>
      (if totalWritten = 0 then .pending else .ready (.ok totalWritten),
        { stream with
          cipher, lastUnwrittenEncryptedByte := some out, polls := stream.polls + 1 })
    | .ready result =>
      match result with
      | .ok written =>
        pollWriteFrom rest (totalWritten + written)
          { cipher
            lastUnwrittenEncryptedByte := none
            accepted := stream.accepted ++ [out].take written
            polls := stream.polls + 1 }
      | .error error =>
        (.ready (.error error),
          { stream with cipher, lastUnwrittenEncryptedByte := none, polls := stream.polls + 1 })

def pollWrite (stream : StreamEncryptor σ) (buf : List UInt8) : WritePoll × StreamEncryptor σ :=
  pollWriteFrom encrypt write buf 0 stream

def reportedBy : WritePoll → ℕ
  | .ready (.ok written) => written
  | _ => 0

/-- A caller that presents the bytes one after the other: how many were reported as written, after
calls with buffers of these lengths. -/
def present (bytes : List UInt8) : List ℕ → StreamEncryptor σ → ℕ → StreamEncryptor σ × ℕ
  | [], stream, reported => (stream, reported)
  | length :: rest, stream, reported =>
    let (poll, stream) := stream.pollWrite encrypt write ((bytes.drop reported).take length)
    present bytes rest stream (reported + reportedBy poll)

/-- The reported bytes are accepted in encrypted form, and an encrypted byte that is kept belongs to
the next one. -/
structure Written (start : σ) (bytes : List UInt8) (reported : ℕ) (stream : StreamEncryptor σ) :
    Prop where
  reported_le : reported ≤ bytes.length
  accepted : stream.accepted = (encrypt.apply start (bytes.take reported)).1
  next : ∀ block, bytes[reported]? = some block → stream.nextOut encrypt block =
    encrypt (encrypt.apply start (bytes.take reported)).2 block
  fresh : stream.lastUnwrittenEncryptedByte = none →
    stream.cipher = (encrypt.apply start (bytes.take reported)).2

variable {encrypt write} {start : σ} {bytes : List UInt8} {reported : ℕ}
  {stream : StreamEncryptor σ}

theorem written_new (start : σ) (bytes : List UInt8) :
    Written encrypt start bytes 0 (new start) where
  reported_le := Nat.zero_le _
  accepted := rfl
  next _ _ := rfl
  fresh _ := rfl

/-- A byte that is written moves on to the next one. -/
theorem Written.accept (h : Written encrypt start bytes reported stream) {block : UInt8}
    (hblock : bytes[reported]? = some block) (polls : ℕ) :
    Written encrypt start bytes (reported + 1)
      { cipher := (stream.nextOut encrypt block).2
        lastUnwrittenEncryptedByte := none
        accepted := stream.accepted ++ [(stream.nextOut encrypt block).1]
        polls } := by
  have htake : encrypt.apply start (bytes.take (reported + 1)) =
      (stream.accepted ++ [(stream.nextOut encrypt block).1],
        (stream.nextOut encrypt block).2) := by
    rw [take_add_one, hblock, Option.toList_some, ByteCipher.apply_append, ← h.accepted,
      h.next block hblock]
    rfl
  obtain ⟨hlength, -⟩ := List.getElem?_eq_some_iff.mp hblock
  exact ⟨hlength, by rw [htake], fun _ _ => by rw [htake]; rfl, fun _ => by rw [htake]⟩

/-- A byte that is refused is kept. -/
theorem Written.refuse (h : Written encrypt start bytes reported stream) {block : UInt8}
    (hblock : bytes[reported]? = some block) (polls : ℕ) :
    Written encrypt start bytes reported
      { stream with
        cipher := (stream.nextOut encrypt block).2
        lastUnwrittenEncryptedByte := some (stream.nextOut encrypt block).1
        polls } where
  reported_le := h.reported_le
  accepted := h.accepted
  next other hother := by
    rw [Option.some.inj (hother.symm.trans hblock)]
    exact h.next block hblock
  fresh hnone := by cases hnone

/-- Every write is refused, or it takes the byte. -/
def OneByte (write : ℕ → WritePoll) : Prop :=
  ∀ poll, write poll = .pending ∨ write poll = .ready (.ok 1)

theorem Written.pollWriteFrom (hwrite : OneByte write) {buf : List UInt8} {totalWritten : ℕ}
    (h : Written encrypt start bytes (reported + totalWritten) stream)
    (hbuf : buf <+: bytes.drop (reported + totalWritten)) :
    Written encrypt start bytes
      (reported +
        reportedBy (StreamEncryptor.pollWriteFrom encrypt write buf totalWritten stream).1)
      (StreamEncryptor.pollWriteFrom encrypt write buf totalWritten stream).2 := by
  induction buf generalizing totalWritten stream with
  | nil => exact h
  | cons block rest ih =>
    obtain ⟨after, hafter⟩ := hbuf
    have hblock : bytes[reported + totalWritten]? = some block := by
      rw [← Nat.add_zero (reported + totalWritten), ← getElem?_drop, ← hafter]
      rfl
    have hrest : rest <+: bytes.drop (reported + (totalWritten + 1)) := by
      refine ⟨after, ?_⟩
      rw [← Nat.add_assoc, ← drop_drop, ← hafter]
      rfl
    rw [StreamEncryptor.pollWriteFrom]
    obtain hpending | hready := hwrite stream.polls
    · simp only [hpending]
      obtain rfl | hsome := Nat.eq_zero_or_pos totalWritten
      · exact h.refuse hblock _
      · rw [if_neg (Nat.ne_of_gt hsome)]
        exact h.refuse hblock _
    · simp only [hready]
      exact ih (h.accept hblock _) hrest

theorem Written.present (hwrite : OneByte write) (h : Written encrypt start bytes reported stream)
    (lengths : List ℕ) :
    Written encrypt start bytes
      (StreamEncryptor.present encrypt write bytes lengths stream reported).2
      (StreamEncryptor.present encrypt write bytes lengths stream reported).1 := by
  induction lengths generalizing stream reported with
  | nil => exact h
  | cons length rest ih =>
    have hbuf : (bytes.drop reported).take length <+: bytes.drop (reported + 0) := take_prefix _ _
    exact ih (Written.pollWriteFrom hwrite h hbuf)

end StreamEncryptor

/-! ### Reading -/

inductive ReadPoll where
  | pending
  | ready (result : Except String (List UInt8))

structure StreamDecryptor (δ : Type) where
  cipher : δ

namespace StreamDecryptor

variable {δ : Type} (decrypt : ByteCipher δ)

/-- The buffer after a read, whose new part is decrypted in place. -/
def pollRead (stream : StreamDecryptor δ) (filled : List UInt8) (read : ReadPoll) :
    List UInt8 × StreamDecryptor δ :=
  match read with
  | .ready (.ok bytes) =>
    let (plain, cipher) := decrypt.apply stream.cipher bytes
    (filled ++ plain, ⟨cipher⟩)
  | _ => (filled, stream)

def readAll : List (Option (List UInt8)) → StreamDecryptor δ → List UInt8 → List UInt8
  | [], _, filled => filled
  | read :: rest, stream, filled =>
    let poll := match read with
      | some bytes => .ready (.ok bytes)
      | none => .pending
    let (filled, stream) := stream.pollRead decrypt filled poll
    readAll rest stream filled

theorem readAll_eq (reads : List (Option (List UInt8))) (stream : StreamDecryptor δ)
    (filled : List UInt8) :
    readAll decrypt reads stream filled =
      filled ++ (decrypt.apply stream.cipher (reads.flatMap fun read => read.getD [])).1 := by
  induction reads generalizing stream filled with
  | nil => simp [readAll, ByteCipher.apply]
  | cons read rest ih =>
    cases read with
    | none => exact ih stream filled
    | some bytes => simp [readAll, pollRead, ih, ByteCipher.apply_append]

end StreamDecryptor

/-- However the stream below accepts single bytes, it has accepted the encryption of the bytes that
were reported as written, and reading these in any pieces gives them back. -/
theorem StreamEncryptor.present_roundtrip {σ δ : Type} {encrypt : ByteCipher σ}
    {decrypt : ByteCipher δ} {related : σ → δ → Prop}
    (hinverts : ByteCipher.Inverts encrypt decrypt related) {start : σ} {other : δ}
    (hrelated : related start other) {write : ℕ → WritePoll} (hwrite : OneByte write)
    (bytes : List UInt8) (lengths : List ℕ) :
    ∃ stream reported, present encrypt write bytes lengths (new start) 0 = (stream, reported) ∧
      reported ≤ bytes.length ∧
      stream.accepted = (encrypt.apply start (bytes.take reported)).1 ∧
      ∀ reads : List (Option (List UInt8)),
        (reads.flatMap fun read => read.getD []) = stream.accepted →
          StreamDecryptor.readAll decrypt reads ⟨other⟩ [] = bytes.take reported := by
  have hnew : Written encrypt start bytes 0 (new start) := written_new start bytes
  have hwritten := hnew.present hwrite lengths
  refine ⟨_, _, rfl, hwritten.reported_le, hwritten.accepted, ?_⟩
  intro reads hreads
  rw [StreamDecryptor.readAll_eq, hreads, hwritten.accepted, hinverts.apply hrelated, nil_append]

/-- Each byte is combined with the last one that came out. -/
def chainedEncrypt : ByteCipher UInt8 := fun last byte => (byte ^^^ last, byte ^^^ last)

def chainedDecrypt : ByteCipher UInt8 := fun last byte => (byte ^^^ last, byte)

theorem chained_inverts : ByteCipher.Inverts chainedEncrypt chainedDecrypt Eq where
  decrypt_eq state other byte heq := by
    subst heq
    change byte ^^^ state ^^^ state = byte
    rw [UInt8.xor_assoc, UInt8.xor_self, UInt8.xor_zero]
  related_next _ _ _ _ := rfl

/-- Every other write is refused. -/
def everyOther (poll : ℕ) : WritePoll := if poll % 2 = 0 then .pending else .ready (.ok 1)

theorem StreamEncryptor.present_roundtrip_chained :
    ∃ stream reported,
      present chainedEncrypt everyOther [1, 2, 3] [3, 1, 2, 3, 3] (new 7) 0 = (stream, reported) ∧
        stream.accepted = (chainedEncrypt.apply 7 ([1, 2, 3].take reported)).1 := by
  have hwrite : OneByte everyOther := by
    intro poll
    unfold everyOther
    split
    · exact Or.inl rfl
    · exact Or.inr rfl
  obtain ⟨stream, reported, hpresent, -, haccepted, -⟩ := present_roundtrip chained_inverts
    (rfl : (7 : UInt8) = 7) hwrite [1, 2, 3] [3, 1, 2, 3, 3]
  exact ⟨stream, reported, hpresent, haccepted⟩

end Steel
