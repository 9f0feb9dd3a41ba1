import BootImage.Inspect.Description
import BootImage.Proofs.Bytes.Splicing
import BootImage.Proofs.Checks
import BootImage.Proofs.Text.Hexadecimal
import Mathlib.Data.List.Basic

/-!
# Dumps read back

A line of a dump is read from the left: an address up to the first blank, and behind two blanks the
forty-eight columns in which pairs of digits are bytes. Behind these the bytes are shown once more,
as characters; many of them look alike there, so nothing is read from it.

A dump cuts all of the data into lines and takes as many of these as the length begins. So the bytes
that were asked for are all there, but the last line is not cut at the length: unless the length
ends with a line, or the data before it, the dump shows bytes that were not asked for. The one dump
that a description has is of ninety-six bytes, six whole lines.

## Main definitions

* `readLine?`: what a line of a dump says.
* `Shows`: rows that show a byte string from an address on.

## Main results

* `readLine?_dumpLine`: a line says what was put on it.
* `shows_firstRows`: the first rows of a dump show the bytes that are cut into them.
* `shows_hexdump`: which bytes a dump shows, and when they are those that were asked for.
* `shows_describeContent`: a description shows the beginning of the boot sector.
-/

namespace BootImage.Inspect

/-! ### Reading a line -/

/-- What a line of a dump says: where its first byte stands, and its bytes. -/
structure Row where
  address : Int
  bytes : Bytes
  deriving DecidableEq, Repr

/-- The address that a text spells, which may have a sign. -/
def address? : List Char → Option Int
  | '-' :: digits => (Text.hexNumber? digits).map fun n : Nat => -(n : Int)
  | digits => (Text.hexNumber? digits).map Int.ofNat

/-- The bytes that pairs of digits spell, with blanks between the pairs. -/
def columns? : List Char → Option Bytes
  | [] => some []
  | ' ' :: rest => columns? rest
  | high :: low :: rest => (Text.hexNumber? [high, low]).bind fun n =>
      (columns? rest).map (UInt8.ofNat n :: ·)
  | [_] => none

/-- What a line says: the address, and the bytes in the columns two blanks behind it. -/
def readLine? (line : String) : Option Row :=
  let digits := line.toList.takeWhile (· ≠ ' ')
  (address? digits).bind fun address =>
    (columns? ((line.toList.drop (digits.length + 2)).take 48)).map (⟨address, ·⟩)

theorem address?_hexDigits (width n : Nat) :
    address? (Text.hexDigits width n) = some (n : Int) := by
  have hread := Text.hexNumber?_hexDigits width n
  have hsign : '-' ∉ Text.hexDigits width n := Text.notMem_of_hexNumber? (by decide) hread
  rw [address?]
  · rw [hread]
    rfl
  · intro digits heq
    exact hsign (heq ▸ List.mem_cons_self)

/-- An address is read back, with or without a sign. -/
theorem address?_addressText (address : Int) :
    address? (addressText address) = some address := by
  rw [addressText]
  split
  · rw [address?, Text.hexNumber?_hexDigits, Option.map_some]
    exact congrArg some (by omega)
  · rw [address?_hexDigits]
    exact congrArg some (by omega)

/-- There is no blank in an address. -/
theorem blank_notMem_addressText (address : Int) : ' ' ∉ addressText address := by
  have hdigits : ∀ width n, ' ' ∉ Text.hexDigits width n := fun width n =>
    Text.notMem_of_hexNumber? (by decide) (Text.hexNumber?_hexDigits width n)
  rw [addressText]
  split
  · exact List.not_mem_cons_of_ne_of_not_mem (by decide) (hdigits _ _)
  · exact hdigits _ _

theorem columns?_blanks (count : Nat) : columns? (List.replicate count ' ') = some [] := by
  induction count with
  | zero => rfl
  | succ count ih => rw [List.replicate_succ, columns?, ih]

/-- A byte is two digits. -/
theorem length_byteDigits (b : UInt8) : (Text.hexDigits 2 b.toNat).length = 2 :=
  Text.length_hexDigits (by decide) b.toNat_lt_size

theorem columns?_byteDigits (b : UInt8) (rest : List Char) :
    columns? (Text.hexDigits 2 b.toNat ++ rest) = (columns? rest).map (b :: ·) := by
  obtain ⟨high, low, hpair⟩ := List.length_eq_two.1 (length_byteDigits b)
  have hread := Text.hexNumber?_hexDigits 2 b.toNat
  rw [hpair] at hread ⊢
  have hhigh : high ≠ ' ' := by
    rintro rfl
    exact Text.notMem_of_hexNumber? (by decide) hread List.mem_cons_self
  rw [List.cons_append, List.cons_append, List.nil_append, columns?, hread, Option.bind_some,
    UInt8.ofNat_toNat]
  exact hhigh

theorem hexColumns_cons (b : UInt8) (bs : Bytes) : hexColumns (b :: bs) =
    Text.hexDigits 2 b.toNat ++ if bs = [] then [] else ' ' :: hexColumns bs := by
  cases bs with
  | nil => simp [hexColumns]
  | cons c bs => simp [hexColumns, List.intercalate_cons_cons]

theorem columns?_hexColumns (bs : Bytes) (count : Nat) :
    columns? (hexColumns bs ++ List.replicate count ' ') = some bs := by
  induction bs with
  | nil => exact columns?_blanks count
  | cons b bs ih =>
    rw [hexColumns_cons, List.append_assoc, columns?_byteDigits]
    split
    · subst bs
      rw [List.nil_append, columns?_blanks]
      rfl
    · rw [List.cons_append, columns?, ih]
      rfl

theorem length_hexColumns_le (bs : Bytes) : (hexColumns bs).length ≤ 3 * bs.length := by
  induction bs with
  | nil => simp [hexColumns]
  | cons b bs ih =>
    rw [hexColumns_cons, List.length_append, length_byteDigits, List.length_cons]
    split
    · rw [List.length_nil]
      omega
    · rw [List.length_cons]
      omega

/-- A line says what was put on it. -/
theorem readLine?_dumpLine (address : Int) {bs : Bytes} (h : bs.length ≤ 16) :
    readLine? (dumpLine address bs) = some ⟨address, bs⟩ := by
  have hlen : (Text.padRight 48 (hexColumns bs)).length = 48 := by
    rw [Text.length_padRight]
    have := length_hexColumns_le bs
    omega
  have hline : (dumpLine address bs).toList = addressText address ++
      ' ' :: ' ' :: (Text.padRight 48 (hexColumns bs) ++ ("  ".toList ++ bs.map byteChar)) := by
    rw [dumpLine, String.toList_ofList]
    simp
  have hdigits : (dumpLine address bs).toList.takeWhile (· ≠ ' ') = addressText address := by
    rw [hline, List.takeWhile_append_of_pos]
    · simp
    · intro c hc
      have : c ≠ ' ' := fun heq => blank_notMem_addressText address (heq ▸ hc)
      simpa using this
  have hcolumns : ((dumpLine address bs).toList.drop ((addressText address).length + 2)).take 48 =
      Text.padRight 48 (hexColumns bs) := by
    rw [hline, List.drop_append, List.drop_of_length_le (by omega), Nat.add_sub_cancel_left,
      List.nil_append, List.drop_succ_cons, List.drop_succ_cons, List.drop_zero,
      List.take_append_of_le_length (by omega), List.take_of_length_le (by omega)]
  rw [readLine?, hdigits, hcolumns, address?_addressText, Text.padRight, columns?_hexColumns]
  rfl

example : readLine?
    "00000010  61 62                                             ab" =
      some ⟨16, [0x61, 0x62]⟩ := by decide

/-! ### Rows that show bytes -/

/-- Rows that show a byte string from an address on. -/
structure Shows (rows : List Row) (start : Int) (bs : Bytes) : Prop where
  /-- The rows have the bytes, in order. -/
  bytes : rows.flatMap Row.bytes = bs
  /-- There are bytes on each row, at most sixteen. -/
  width : ∀ row ∈ rows, 0 < row.bytes.length ∧ row.bytes.length ≤ 16
  /-- Only the last row may have fewer. -/
  full : ∀ row ∈ rows.dropLast, row.bytes.length = 16
  /-- The address of a row is where the first of its bytes stands. -/
  address : ∀ before row after, rows = before ++ row :: after →
    row.address = start + (before.flatMap Row.bytes).length

theorem shows_nil (start : Int) : Shows [] start [] :=
  ⟨rfl, by simp, by simp, by simp⟩

theorem shows_singleton (start : Int) {bs : Bytes} (h0 : 0 < bs.length) (h : bs.length ≤ 16) :
    Shows [⟨start, bs⟩] start bs := by
  refine ⟨by simp, by simp [h0, h], by simp, fun before row after heq => ?_⟩
  cases before with
  | nil =>
    obtain ⟨rfl, -⟩ := List.cons.inj heq
    simp
  | cons first before => simp at heq

/-- A full row stands before the rows that go on. -/
theorem Shows.cons {rows : List Row} {start : Int} {row bs : Bytes} (hrow : row.length = 16)
    (h : Shows rows (start + 16) bs) : Shows (⟨start, row⟩ :: rows) start (row ++ bs) where
  bytes := by rw [List.flatMap_cons, h.bytes]
  width := List.forall_mem_cons.2 ⟨by simp [hrow], h.width⟩
  full := by
    cases rows with
    | nil => simp
    | cons next rows => exact List.forall_mem_cons.2 ⟨hrow, h.full⟩
  address before row' after heq := by
    cases before with
    | nil =>
      obtain ⟨rfl, -⟩ := List.cons.inj heq
      simp
    | cons first before =>
      obtain ⟨rfl, htail⟩ := List.cons.inj heq
      rw [h.address before row' after htail]
      simp only [List.flatMap_cons, List.length_append, hrow]
      omega

/-! ### The rows of a dump -/

theorem dumpRows_nil : dumpRows [] = [] := by
  rw [dumpRows, Bytes.pieces_of_length_le (Nat.zero_le _)]
  rfl

theorem dumpRows_of_length_lt {bs : Bytes} (h0 : 0 < bs.length) (h : bs.length < 16) :
    dumpRows bs = [bs] := by
  have hpieces : Bytes.pieces (lineBytes - 1) bs = [] :=
    Bytes.pieces_of_length_le (Nat.le_pred_of_lt h)
  have hrest : bs.length % lineBytes ≠ 0 := by
    rw [lineBytes]
    omega
  rw [dumpRows, hpieces, if_neg hrest, lineBytes, Nat.div_eq_of_lt h, Nat.zero_mul, List.drop_zero,
    List.nil_append]

/-- The first row is the first sixteen bytes. -/
theorem dumpRows_append {row : Bytes} (h : row.length = 16) (bs : Bytes) :
    dumpRows (row ++ bs) = row :: dumpRows bs := by
  have hpieces : Bytes.pieces (lineBytes - 1) (row ++ bs) =
      row :: Bytes.pieces (lineBytes - 1) bs := Bytes.pieces_append h bs
  have hmod : (row ++ bs).length % lineBytes = bs.length % lineBytes := by
    rw [List.length_append, h, lineBytes]
    omega
  have hdiv : (row ++ bs).length / lineBytes * lineBytes =
      row.length + bs.length / lineBytes * lineBytes := by
    rw [List.length_append, h, lineBytes]
    omega
  rw [dumpRows, hpieces, hmod, hdiv, List.drop_append, dumpRows, List.cons_append,
    List.drop_of_length_le (by omega), Nat.add_sub_cancel_left, List.nil_append]

/-- The first rows of a dump, the first of which has the given number. -/
def firstRows (data : Bytes) (offset : Int) (count number : Nat) : List Row :=
  (((dumpRows data).take count).zipIdx number).map fun (bs, i) =>
    ⟨offset + (lineBytes * i : Nat), bs⟩

/-- The first rows of a dump show the bytes that are cut into them. -/
theorem shows_firstRows (data : Bytes) (offset : Int) (count number : Nat) :
    Shows (firstRows data offset count number) (offset + (16 * number : Nat))
      (data.take (16 * count)) := by
  induction count generalizing data number with
  | zero => exact shows_nil _
  | succ count ih =>
    rcases Nat.lt_or_ge data.length 16 with hshort | hlong
    · rw [List.take_of_length_le (by omega)]
      rcases Nat.eq_zero_or_pos data.length with h0 | h0
      · rw [List.eq_nil_of_length_eq_zero h0, firstRows, dumpRows_nil]
        exact shows_nil _
      · rw [firstRows, dumpRows_of_length_lt h0 hshort, List.take_of_length_le (by simp)]
        exact shows_singleton _ h0 (Nat.le_of_lt hshort)
    · -- The rows behind a full one are those of the bytes behind it, numbered one higher.
      have hrow : (data.take 16).length = 16 := by
        rw [List.length_take]
        omega
      have hstart : offset + (16 * number : Nat) + 16 = offset + (16 * (number + 1) : Nat) := by
        omega
      have hrows : firstRows data offset (count + 1) number =
          ⟨offset + (16 * number : Nat), data.take 16⟩ ::
            firstRows (data.drop 16) offset count (number + 1) := by
        rw [firstRows, ← List.take_append_drop 16 data, dumpRows_append hrow]
        simp [firstRows, lineBytes]
      have hbytes : data.take (16 * (count + 1)) =
          data.take 16 ++ (data.drop 16).take (16 * count) := by
        rw [Nat.mul_succ, Nat.add_comm, List.take_add]
      rw [hrows, hbytes]
      exact (hstart ▸ ih (data.drop 16) (number + 1)).cons hrow

/-- Lines that were made of rows say what is on the rows. -/
theorem mapM_readLine?_map {rows : List Row} (h : ∀ row ∈ rows, row.bytes.length ≤ 16) :
    (rows.map fun row => dumpLine row.address row.bytes).mapM readLine? = some rows := by
  induction rows with
  | nil => rfl
  | cons row rows ih =>
    rw [List.forall_mem_cons] at h
    rw [List.map_cons, List.mapM_cons, readLine?_dumpLine _ h.1, ih h.2]
    rfl

/-- A dump shows its bytes up to the end of the line that the length ends in. -/
theorem exists_rows_hexdump (data : Bytes) (offset length : Int) :
    ∃ rows, (hexdump data offset length).mapM readLine? = some rows ∧
      Shows rows offset (data.take (16 * ((length.toNat + 15) / 16))) := by
  obtain ⟨count, hcount⟩ : ∃ count, ((min (data.length : Int) length).toNat + (lineBytes - 1)) /
      lineBytes = count := ⟨_, rfl⟩
  have hlines : hexdump data offset length =
      (firstRows data offset count 0).map fun row => dumpLine row.address row.bytes := by
    rw [← hcount, hexdump, firstRows, List.map_map]
    rfl
  have hbytes : data.take (16 * count) = data.take (16 * ((length.toNat + 15) / 16)) := by
    rw [List.take_eq_take_iff, ← hcount, lineBytes]
    omega
  have hshows := shows_firstRows data offset count 0
  rw [hbytes, Nat.mul_zero, Int.natCast_zero, Int.add_zero] at hshows
  refine ⟨_, ?_, hshows⟩
  rw [hlines]
  exact mapM_readLine?_map fun row hrow => (hshows.width row hrow).2

/-- Every line of a dump can be read. The rows show the bytes up to the end of a line, the first
one that is not before the length; they are those that were asked for just if the data ends before
the length, or the length ends with a line. -/
theorem shows_hexdump (data : Bytes) (offset length : Int) :
    ∃ rows, (hexdump data offset length).mapM readLine? = some rows ∧
      (∃ shown, 16 ∣ shown ∧ length.toNat ≤ shown ∧ shown < length.toNat + 16 ∧
        Shows rows offset (data.take shown)) ∧
      (Shows rows offset (data.take length.toNat) ↔
        (data.length : Int) ≤ length ∨ length ≤ 0 ∨ 16 ∣ length) := by
  obtain ⟨rows, hread, hshows⟩ := exists_rows_hexdump data offset length
  refine ⟨rows, hread, ⟨_, ⟨_, rfl⟩, by omega, by omega, hshows⟩, fun h => ?_, fun h => ?_⟩
  · have hsame : data.take (16 * ((length.toNat + 15) / 16)) = data.take length.toNat :=
      hshows.bytes.symm.trans h.bytes
    rw [List.take_eq_take_iff] at hsame
    omega
  · have hsame : data.take (16 * ((length.toNat + 15) / 16)) = data.take length.toNat := by
      rw [List.take_eq_take_iff]
      omega
    exact hsame ▸ hshows

/-- Of two bytes the second one is shown too, though only the first one was asked for. -/
theorem exists_shows_hexdump : ∃ rows, (hexdump [0x61, 0x62] 0 1).mapM readLine? = some rows ∧
    Shows rows 0 [0x61, 0x62] ∧ ¬ Shows rows 0 [0x61] := by
  obtain ⟨rows, hread, ⟨shown, hend, hle, hlt, hshows⟩, hexact⟩ := shows_hexdump [0x61, 0x62] 0 1
  obtain rfl : shown = 16 := by
    have : Int.toNat 1 = 1 := rfl
    omega
  exact ⟨rows, hread, hshows, fun h => absurd (hexact.1 h) (by decide)⟩

/-! ### The dump in a description -/

/-- A description says what the image is, and then shows the first ninety-six bytes of its boot
sector, no more and no less. -/
theorem shows_describeContent {image : String} {content : Content} {lines : List String}
    (h : describeContent image content = .ok lines) :
    ∃ dump rest rows,
      lines = s!"{image}  ({content.size} bytes)" :: "" :: "Boot sector:" :: (dump ++ rest) ∧
        dump.mapM readLine? = some rows ∧ Shows rows 0 (content.read 0 96) := by
  obtain ⟨geometry, -, h⟩ := ok_of_bind h
  obtain ⟨volume, -, h⟩ := ok_of_bind h
  obtain ⟨entries, -, h⟩ := ok_of_bind h
  obtain ⟨rows, hread, hshows⟩ := exists_rows_hexdump (content.read 0 512) 0 96
  have hbytes : (content.read 0 512).take 96 = content.read 0 96 := by
    rw [Content.read_eq_slice, Content.read_eq_slice, Bytes.slice, Bytes.slice, List.take_take]
    rfl
  have hlines := (Except.ok.inj h).symm
  simp only [List.append_assoc] at hlines
  exact ⟨hexdump (content.read 0 512) 0 96, _, rows, hlines, hread, hbytes ▸ hshows⟩

end BootImage.Inspect
