import Hns.Lib.Code
import Hns.Lib.Fallible

/-!
# Readers

A reader takes octets from the front of a text, or fails (`Reader`). It `Reads` a
piece as a value when, whatever follows the piece, it takes exactly the piece
and makes the value of it. That a text which has been written piece by piece is
read back follows the program of the reader: a sequence reads the one piece
after the other (`Reads.bind`), and a list is read item by item (`Reads.list`).

Arrays, machine words in little-endian order and UTF-8 texts are read here; how
the readers fail is a parameter.
-/

/-- The program's readers: what is left of a text, or a failure. -/
abbrev Reader (ε : Type) := StateT (List UInt8) (Except ε)

namespace Reader

variable {ε α β : Type}

/-- The reader takes exactly the piece, and makes `a` of it. -/
def Reads (reader : Reader ε α) (piece : List UInt8) (a : α) : Prop :=
  ∀ rest, reader.run (piece ++ rest) = .ok (a, rest)

namespace Reads

theorem pure (a : α) : Reads (Pure.pure a : Reader ε α) [] a := fun _ => rfl

/-- What is left to do goes on behind the piece. -/
theorem run_bind {reader : Reader ε α} {piece : List UInt8} {a : α} (h : Reads reader piece a)
    (next : α → Reader ε β) (rest : List UInt8) :
    (reader >>= next).run (piece ++ rest) = (next a).run rest := by
  rw [StateT.run_bind, h, Except.ok_bind]

/-- The pieces of a sequence stand one after the other. -/
theorem bind {reader : Reader ε α} {next : α → Reader ε β} {piece piece' : List UInt8} {a : α}
    {b : β} (h : Reads reader piece a) (h' : Reads (next a) piece' b) :
    Reads (reader >>= next) (piece ++ piece') b := by
  intro rest
  rw [List.append_assoc, h.run_bind]
  exact h' rest

/-- What is left to do when a piece has been read takes nothing more. -/
theorem bind_nil {reader : Reader ε α} {next : α → Reader ε β} {piece : List UInt8} {a : α} {b : β}
    (h : Reads reader piece a) (h' : Reads (next a) [] b) : Reads (reader >>= next) piece b := by
  rw [← List.append_nil piece]
  exact h.bind h'

theorem nil_bind {reader : Reader ε α} {next : α → Reader ε β} {piece : List UInt8} {a : α} {b : β}
    (h : Reads reader [] a) (h' : Reads (next a) piece b) : Reads (reader >>= next) piece b :=
  h.bind h'

theorem bind_pure {reader : Reader ε α} {piece : List UInt8} {a : α} (h : Reads reader piece a)
    (next : α → β) : Reads (reader >>= fun a => Pure.pure (next a)) piece (next a) :=
  h.bind_nil (.pure (next a))

theorem map {reader : Reader ε α} {piece : List UInt8} {a : α} (f : α → β)
    (h : Reads reader piece a) : Reads (f <$> reader) piece (f a) := by
  rw [← bind_pure_comp]
  exact h.bind_pure f

/-- A text that is nothing but the piece is read to its end. -/
theorem run_eq {reader : Reader ε α} {piece : List UInt8} {a : α} (h : Reads reader piece a) :
    reader.run piece = .ok (a, []) := by
  simpa using h []

/-- A check that passes takes nothing. -/
theorem guard {c : Prop} [Decidable c] {stop : Reader ε PUnit} {next : PUnit → Reader ε α}
    {piece : List UInt8} {a : α} (hc : ¬c) (h : Reads (next ⟨⟩) piece a) :
    Reads (if c then stop >>= next else next ⟨⟩) piece a := by
  rwa [if_neg hc]

theorem ite_pos {c : Prop} [Decidable c] {reader reader' : Reader ε α} {piece : List UInt8} {a : α}
    (hc : c) (h : Reads reader piece a) : Reads (if c then reader else reader') piece a := by
  rwa [if_pos hc]

theorem ite_neg {c : Prop} [Decidable c] {reader reader' : Reader ε α} {piece : List UInt8} {a : α}
    (hc : ¬c) (h : Reads reader' piece a) : Reads (if c then reader else reader') piece a := by
  rwa [if_neg hc]

end Reads

/-! ## Failures of another kind -/

/-- The reader, with its failures translated. -/
def mapError {ε' : Type} (f : ε → ε') (reader : Reader ε α) : Reader ε' α := fun text =>
  (reader.run text).mapError f

theorem Reads.mapError {ε' : Type} (f : ε → ε') {reader : Reader ε α} {piece : List UInt8} {a : α}
    (h : Reads reader piece a) : Reads (reader.mapError f) piece a := by
  intro rest
  change (reader.run (piece ++ rest)).mapError f = _
  rw [h rest]
  rfl

/-- What has been computed from what is read. -/
theorem Reads.lift {x : Except ε α} {a : α} (h : x = .ok a) :
    Reads (liftM x : Reader ε α) [] a := by
  intro rest
  rw [h]
  rfl

/-! ## Lists -/

/-- Items one after the other, as many as are asked for. -/
def list (reader : Reader ε α) : ℕ → Reader ε (List α)
  | 0 => return []
  | count + 1 => do
    let a ← reader
    let l ← list reader count
    return a :: l

theorem Reads.list {reader : Reader ε α} {write : β → List UInt8} {read : β → α} {l : List β}
    (h : ∀ b ∈ l, Reads reader (write b) (read b)) :
    Reads (reader.list l.length) (l.flatMap write) (l.map read) := by
  induction l with
  | nil => exact .pure []
  | cons b l ih =>
    rw [List.forall_mem_cons] at h
    rw [List.flatMap_cons]
    exact h.1.bind ((ih h.2).bind_pure _)

/-- Items read by readers of their own, in turn. -/
theorem Reads.mapM {ι : Type} {readers : ι → Reader ε α} {write : α → List UInt8} {indices : List ι}
    {l : List α} (h : List.Forall₂ (fun i a => Reads (readers i) (write a) a) indices l) :
    Reads (indices.mapM readers) (l.flatMap write) l := by
  induction h with
  | nil =>
    rw [List.mapM_nil]
    exact .pure []
  | cons hread _ ih =>
    rw [List.mapM_cons, List.flatMap_cons]
    exact hread.bind (ih.bind_pure _)

/-! ## Octets and words -/

section

variable (short : ε)

/-- The next `length` octets, or `short` when there are fewer. -/
def bytes (length : ℕ) : Reader ε (List UInt8) := fun text =>
  if text.length < length then .error short
  else .ok (text.take length, text.drop length)

theorem reads_bytes (piece : List UInt8) : Reads (bytes short piece.length) piece piece := by
  intro rest
  change (if (piece ++ rest).length < piece.length then _ else _) = _
  rw [if_neg (by simp), List.take_left, List.drop_left]

theorem reads_bytes_of_length {piece : List UInt8} {length : ℕ} (h : piece.length = length) :
    Reads (bytes short length) piece piece := h ▸ reads_bytes short piece

/-- An array of `n` octets. -/
def array (n : ℕ) : Reader ε (Octets n) := fun text =>
  if h : text.length < n then .error short
  else .ok (⟨text.take n, by simpa using h⟩, text.drop n)

theorem reads_array {n : ℕ} (a : Octets n) : Reads (array short n) a.bytes a := by
  intro rest
  obtain ⟨piece, rfl⟩ := a
  change (if h : (piece ++ rest).length < piece.length then _ else _) = _
  rw [dif_neg (by simp)]
  simp

/-- One octet. -/
def u8 : Reader ε UInt8 := fun
  | [] => .error short
  | octet :: rest => .ok (octet, rest)

theorem reads_u8 (octet : UInt8) : Reads (u8 short) [octet] octet := fun _ => rfl

/-- A number in little-endian octets. -/
def le (width : ℕ) : Reader ε ℕ := do
  let piece ← bytes short width
  return Octet.ofBE piece.reverse

theorem reads_le {width n : ℕ} (h : n < 256 ^ width) :
    Reads (le short width) (Octet.toLE width n) n := by
  have hn : Octet.ofBE (Octet.toLE width n).reverse = n := Octet.ofBE_toBE_of_lt h
  have hread := reads_bytes_of_length short (Octet.length_toLE width n)
  simpa [le, hn] using hread.bind_pure fun piece => Octet.ofBE piece.reverse

/-- `u32::from_le_bytes`. -/
def u32Le : Reader ε UInt32 := do
  let n ← le short 4
  return UInt32.ofNat n

theorem reads_u32Le (n : UInt32) : Reads (u32Le short) (Octet.toLE 4 n.toNat) n := by
  have hlt : n.toNat < 256 ^ 4 := n.toNat_lt
  have h := (reads_le short hlt).bind_pure UInt32.ofNat
  rwa [UInt32.ofNat_toNat] at h

/-- `u64::from_le_bytes`. -/
def u64Le : Reader ε UInt64 := do
  let n ← le short 8
  return UInt64.ofNat n

theorem reads_u64Le (n : UInt64) : Reads (u64Le short) (Octet.toLE 8 n.toNat) n := by
  have hlt : n.toNat < 256 ^ 8 := n.toNat_lt
  have h := (reads_le short hlt).bind_pure UInt64.ofNat
  rwa [UInt64.ofNat_toNat] at h

/-- `u16::from_le_bytes`. -/
def u16Le : Reader ε UInt16 := do
  let n ← le short 2
  return UInt16.ofNat n

theorem reads_u16Le (n : UInt16) : Reads (u16Le short) (Octet.toLE 2 n.toNat) n := by
  have hlt : n.toNat < 256 ^ 2 := n.toNat_lt
  have h := (reads_le short hlt).bind_pure UInt16.ofNat
  rwa [UInt16.ofNat_toNat] at h

end

end Reader
